import EventLoop.Parsing.Program
import EventLoop.Proofs.Brackets

set_option autoImplicit false

/-!
# Reading with a log

The grammar run with notes: how deep it is, which is a counter that is still there after an error,
how deep it has ever been, and what it took, token by token and one skipped part after the other.
-/

namespace EventLoop

structure ReadingLog where
  depth : Nat
  peak : Nat
  pieces : List Piece

namespace ReadingLog

def empty : ReadingLog := ⟨0, 0, []⟩

def take (log : ReadingLog) (kind : TokenKind) : ReadingLog :=
  { log with pieces := log.pieces ++ [.token kind] }

def deeper (log : ReadingLog) : ReadingLog :=
  { log with depth := log.depth + 1, peak := max log.peak (log.depth + 1) }

end ReadingLog

def LoggedParser (α : Type) : Type :=
  TokenStream → ReadingLog → Except SyntaxError (α × TokenStream) × ReadingLog

namespace LoggedParser

variable {α β : Type}

instance : Monad LoggedParser where
  pure value := fun stream log => (.ok (value, stream), log)
  bind first next := fun stream log =>
    match first stream log with
    | (.error error, log) => (.error error, log)
    | (.ok (value, rest), log) => next value rest log

def iterate (step : α → LoggedParser (α ⊕ β)) (value : α) (stream : TokenStream)
    (log : ReadingLog) : Except SyntaxError (β × TokenStream) × ReadingLog :=
  match step value stream log with
  | (.error error, log) => (.error error, log)
  | (.ok (.inr result, rest), log) => (.ok (result, rest), log)
  | (.ok (.inl value, rest), log) =>
      if rest.remaining < stream.remaining then iterate step value rest log
      else (.error (rest.error .stalled), log)
termination_by stream.remaining

def skip (part : SkippedPart) (parser : LoggedParser α) : LoggedParser α := fun stream log =>
  let (result, inner) := parser stream { log with pieces := [] }
  (result, { inner with
    pieces := log.pieces ++ [.skipped part (inner.pieces.flatMap Piece.kinds)] })

instance : TokenParser LoggedParser where
  look := fun stream log => (.ok (stream, stream), log)
  raise error := fun _ log => (.error error, log)
  advance := fun stream log => (.ok ((), stream.advance), log.take stream.current.kind)
  rescan := fun stream log => (.ok ((), stream.rescan), log)
  loop := iterate
  skip := skip

/-- The counter decides whether the parser goes deeper; the levels only have to suffice. -/
def descend (below : Option (Level LoggedParser)) : LoggedParser (Level LoggedParser) :=
  fun stream log =>
    if maxNesting ≤ log.depth then (.error (stream.error .tooDeep), log)
    else
      match below with
      | some level => (.ok (level, stream), log.deeper)
      | none => (.error (stream.error .stalled), log.deeper)

def leave (parser : LoggedParser α) : LoggedParser α := fun stream log =>
  let (result, after) := parser stream log
  (result, { after with depth := after.depth - 1 })

def chain (links : LoggedParser α) : LoggedParser α := fun stream log =>
  let (result, after) := links stream log
  (result, { after with depth := log.depth })

instance : NestedParser LoggedParser where
  descend := descend
  nested below parser := do leave (parser (← descend below))
  chain := chain

end LoggedParser

/-- A source read with a log. -/
def Program.readLogged (source : String) :
    Except SyntaxError (Program × TokenStream) × ReadingLog :=
  (Parser.program : LoggedParser Program) (.ofText source) .empty

end EventLoop
