import EventLoop.Parsing.SyntaxError
import EventLoop.Syntax.Tree
import EventLoop.Token.Lexer

set_option autoImplicit false

/-!
# Parsers on a stream of tokens

A parser either reads tokens or fails at the current one. All repetition goes through one loop,
which ends because a round has to leave less of the source than it found.
-/

namespace EventLoop

structure TokenStream where
  current : Token
  ahead : Cursor
  previousKind : TokenKind
  previousStop : Nat
  -- The length of the whole source in UTF-8 bytes.
  size : Nat
deriving Repr, Inhabited

namespace TokenStream

def ofText (source : String) : TokenStream :=
  let (current, ahead) := (Cursor.ofText source).next
  ⟨current, ahead, .endOfInput, 0, source.utf8ByteSize⟩

def advance (stream : TokenStream) : TokenStream :=
  let (current, ahead) := stream.ahead.next
  ⟨current, ahead, stream.current.kind, stream.current.span.stop, stream.size⟩

def peek (stream : TokenStream) : Token := stream.ahead.next.1

def rescan (stream : TokenStream) : TokenStream :=
  let (current, ahead) := stream.ahead.regexp stream.current
  { stream with current := current, ahead := ahead }

def remaining (stream : TokenStream) : Nat := stream.size - stream.current.span.start

def isAt (stream : TokenStream) (punctuator : Punctuator) : Bool :=
  stream.current.kind.isPunctuator punctuator

def isAtEnd (stream : TokenStream) : Bool := stream.current.kind.isEnd

def error (stream : TokenStream) (fault : SyntaxFault) : SyntaxError :=
  ⟨fault, stream.current.span.line, stream.current.span.column⟩

def unexpected (stream : TokenStream) (expected : Expected) : SyntaxError :=
  stream.error (.unexpected stream.current.kind stream.current.text expected)

def spanFrom (stream : TokenStream) (start : Span) : Span :=
  { start with stop := max stream.previousStop start.start }

end TokenStream

/-- The parts of a program that are read for their brackets at most. -/
inductive SkippedPart where
  | statement
  | group
  | classHead
deriving DecidableEq, Repr, Inhabited

class TokenParser (m : Type → Type) extends Monad m where
  look : m TokenStream
  raise {α : Type} (error : SyntaxError) : m α
  advance : m Unit
  rescan : m Unit
  -- Repeats a parser until it gives a result. A round that reads nothing is an error.
  loop {α β : Type} (step : α → m (α ⊕ β)) (value : α) : m β
  skip {α : Type} (part : SkippedPart) (parser : m α) : m α

abbrev Parser (α : Type) := StateT TokenStream (Except SyntaxError) α

namespace Parser

export TokenParser (look raise advance rescan loop skip)

def iterate {α β : Type} (step : α → Parser (α ⊕ β)) (value : α) (stream : TokenStream) :
    Except SyntaxError (β × TokenStream) :=
  match step value stream with
  | .error error => .error error
  | .ok (.inr result, rest) => .ok (result, rest)
  | .ok (.inl value, rest) =>
      if rest.remaining < stream.remaining then iterate step value rest
      else .error (rest.error .stalled)
termination_by stream.remaining

instance : TokenParser Parser where
  look := get
  raise error := fun _ => .error error
  advance := modify TokenStream.advance
  rescan := modify TokenStream.rescan
  loop := iterate
  skip _ parser := parser

variable {m : Type → Type} [TokenParser m]

def fail {α : Type} (fault : SyntaxFault) : m α := do
  raise ((← look).error fault)

def unexpected {α : Type} (expected : Expected) : m α := do
  raise ((← look).unexpected expected)

def isAt (punctuator : Punctuator) : m Bool := return (← look).isAt punctuator

def start : m Span := return (← look).current.span

def spanFrom (start : Span) : m Span := return (← look).spanFrom start

def eat (punctuator : Punctuator) : m Bool := do
  if ← isAt punctuator then
    advance
    return true
  else return false

def expect (punctuator : Punctuator) : m Unit := do
  unless ← eat punctuator do unexpected (.punctuator punctuator)

def unsupported (kind : NodeKind) (start : Span) : m Expr :=
  return .unsupported kind (← spanFrom start)

end Parser

end EventLoop
