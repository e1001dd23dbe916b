import EventLoop.Proofs.Boundaries
import EventLoop.Proofs.DisplacedPrograms
import EventLoop.Proofs.EnclosedExpressions

set_option autoImplicit false

/-!
# Statements behind a skipped one

A skipped statement without blocks takes one token after the other as long as they close what they
open.
-/

namespace EventLoop

open Text (isLineTerminator)

namespace TokenStream

def entered (stream : TokenStream) (newline : Bool) (kind : TokenKind) (stop : Nat) : TokenStream :=
  { stream with
    current := { stream.current with newlineBefore := newline }
    previousKind := kind
    previousStop := stop }

end TokenStream

namespace Parser

variable {α β : Type} {stream : TokenStream}

def Forgets (parser : Parser α) (stream : TokenStream) : Prop :=
  ∀ newline kind stop, parser (stream.entered newline kind stop) = parser stream

namespace Forgets

theorem bind {first : Parser α} (forgets : first.Forgets stream) (next : α → Parser β) :
    (first >>= next).Forgets stream := by
  intro newline kind stop
  change (first _).bind _ = (first _).bind _
  rw [forgets]

theorem look {next : TokenStream → Parser β}
    (same : ∀ newline kind stop, next (stream.entered newline kind stop) = next stream)
    (goes : (next stream).Forgets stream) :
    (Parser.look >>= next).Forgets stream := by
  intro newline kind stop
  rw [look_bind, look_bind, same, goes]

theorem start {next : Span → Parser β} (goes : (next stream.current.span).Forgets stream) :
    (Parser.start >>= next).Forgets stream := goes

theorem isAt {mark : Punctuator} {next : Bool → Parser β}
    (goes : (next (stream.isAt mark)).Forgets stream) :
    (Parser.isAt mark >>= next).Forgets stream := goes

theorem advance (next : Unit → Parser β) : (Parser.advance >>= next).Forgets stream :=
  fun _ _ _ => rfl

theorem unexpected (expected : Expected) : (Parser.unexpected expected : Parser α).Forgets stream :=
  fun _ _ _ => rfl

theorem ite {condition : Prop} [Decidable condition] {first second : Parser α}
    (positive : first.Forgets stream) (negative : second.Forgets stream) :
    (if condition then first else second).Forgets stream := by
  split
  next => exact positive
  next => exact negative

theorem loop {step : α → Parser (α ⊕ β)} {value : α} (forgets : (step value).Forgets stream) :
    Forgets (Parser.loop step value) stream := by
  intro newline kind stop
  change iterate step value _ = iterate step value _
  rw [iterate, iterate, forgets]
  rfl

end Forgets

end Parser

-- Where a word stands, the parsers of a level do not look at what stands before it.
structure Level.Forgets (level : Level Parser) : Prop where
  statement {stream : TokenStream} {name : String} :
    stream.current.kind = .identifier name → level.statement.Forgets stream
  assignment {stream : TokenStream} {name : String} :
    stream.current.kind = .identifier name → level.assignment.Forgets stream
  unary {stream : TokenStream} {name : String} :
    stream.current.kind = .identifier name → level.unary.Forgets stream

namespace Parser

section Words

variable {stream : TokenStream} {name : String} (word : stream.current.kind = .identifier name)
include word

theorem identifier_forgets : Forgets identifier stream := by
  refine .look (fun _ _ _ => rfl) ?_
  simp only [word]
  exact .ite (.unexpected _) (.advance _)

theorem arrowParams_forgets : Forgets arrowParams stream := by
  have paren : stream.isAt .parenOpen = false := by rw [TokenStream.isAt, word]; rfl
  refine .isAt ?_
  rw [paren]
  exact (identifier_forgets word).bind _

theorem classHead_forgets : Forgets classHead stream := by
  have brace : stream.isAt .braceOpen = false := by rw [TokenStream.isAt, word]; rfl
  have inside : stream.isAtEnd = false := by rw [TokenStream.isAtEnd, word]; rfl
  refine .loop (.isAt ?_)
  rw [brace]
  refine .look (fun _ _ _ => rfl) ?_
  rw [inside]
  exact .advance _

theorem wordOperand_forgets : Forgets (wordOperand name) stream := by
  refine .start ?_
  split
  next => exact (classHead_forgets word).bind _
  next => exact .advance _
  next => exact (identifier_forgets word).bind _

theorem skipStatement_forgets (kind : NodeKind) (start : Span) :
    Forgets (skipStatement kind start) stream := by
  have first : Forgets (skipRound kind (0, false)) stream := by
    refine .look (fun _ _ _ => rfl) ?_
    simp only [word]
    exact .advance _
  exact (Forgets.loop first).bind _

variable {level : Level Parser} (forgets : level.Forgets)

theorem primary_forgets : (primary level).Forgets stream := by
  refine .start (.look (fun _ _ _ => rfl) ?_)
  simp only [word]
  exact wordOperand_forgets word

theorem unary_forgets : (Parser.unary level).Forgets stream := by
  refine .start (.look (fun _ _ _ => rfl) ?_)
  simp only [word]
  refine .bind (.start (.look (fun _ _ _ => rfl) ?_)) _
  simp only [word]
  exact (primary_forgets word).bind _

include forgets

theorem assignment_forgets : (Parser.assignment level).Forgets stream := by
  refine .look (fun _ _ _ => rfl) ?_
  simp only [word]
  refine .ite (.bind (.start ((arrowParams_forgets word).bind _)) _) ?_
  exact .bind (.start ((forgets.unary word).bind _)) _

theorem expressionStatement_forgets : (expressionStatement level).Forgets stream :=
  .start (.bind (.start ((forgets.assignment word).bind _)) _)

theorem statement_forgets : (Parser.statement level).Forgets stream := by
  have plain : (plainStatement level).Forgets stream := by
    refine .look (fun _ _ _ => rfl) ?_
    simp only [word]
    exact expressionStatement_forgets word forgets
  refine .look (fun _ _ _ => rfl) ?_
  dsimp only
  split
  next => exact .ite plain (skipStatement_forgets word _ _)
  next => exact .ite (skipStatement_forgets word _ _) plain

end Words

end Parser

namespace Level

theorem ofDeeper_forgets {deeper : Option (Level Parser)}
    (below : ∀ level ∈ deeper, level.Forgets) :
    (ofDeeper deeper).Forgets := by
  have descend {stream : TokenStream} {α : Type} {next : Level Parser → Parser α}
      (goes : ∀ level : Level Parser, level.Forgets → (next level).Forgets stream) :
      (Parser.descend deeper >>= next).Forgets stream := by
    cases deeper with
    | none => exact fun _ _ _ => rfl
    | some level => exact goes level (below level rfl)
  constructor
  case statement => exact fun word => descend fun _ => Parser.statement_forgets word
  case assignment => exact fun word => descend fun _ => Parser.assignment_forgets word
  case unary => exact fun word => descend fun _ _ => Parser.unary_forgets word

theorem above_forgets (depth : Nat) : (above depth).Forgets := by
  induction depth with
  | zero => exact ofDeeper_forgets (by simp)
  | succ depth ih => exact ofDeeper_forgets (by simpa using ih)

end Level

namespace Parser

variable {stream rest : TokenStream}

theorem program_forgets {name : String} (word : stream.current.kind = .identifier name)
    (before : List Statement) :
    Forgets (loop (programRound (Level.above (m := Parser) maxNesting)) before) stream := by
  have inside : stream.isAtEnd = false := by rw [TokenStream.isAtEnd, word]; rfl
  refine .loop (.look (fun _ _ _ => rfl) ?_)
  rw [inside]
  exact ((Level.above_forgets maxNesting).statement word).bind _

theorem skipRound_of_skim {depth next : Nat} {consumed : Bool}
    (goesOn : (depth == 0 && consumed && stream.current.newlineBefore &&
      stream.previousKind.endsExpression) = false)
    (taken : stream.current.kind.skim depth = some next) {kind : NodeKind}
    (blockless : kind.hasBlock = false) :
    skipRound (m := Parser) kind (depth, consumed) stream =
      .ok (.inl (next, true), stream.advance) := by
  rw [skipRound, look_bind]
  simp only [goesOn]
  -- The round branches on the kind of the token just as the count of open brackets does.
  cases found : stream.current.kind with
  | endOfInput => simp [found, TokenKind.skim] at taken
  | invalid c => simp [found, TokenKind.skim] at taken
  | unterminated delimiter => simp [found, TokenKind.skim] at taken
  | punctuator mark =>
    rw [found, TokenKind.skim] at taken
    by_cases opening : mark.isOpening
    next =>
      rw [if_pos opening] at taken
      cases taken
      simp only [opening]
      rfl
    by_cases closing : mark.isClosing
    next =>
      rw [if_neg opening, if_pos closing] at taken
      cases depth with
      | zero => cases taken
      | succ outer =>
        cases taken
        simp only [opening, closing, blockless, Bool.and_false, Bool.false_and]
        rfl
    next =>
      rw [if_neg opening, if_neg closing, Option.ite_none_left_eq_some] at taken
      obtain ⟨further, ⟨⟩⟩ := taken
      have boundary : (depth == 0 && mark == .semicolon) = false := by simpa using further
      simp only [opening, closing, boundary]
      rfl
  | _ =>
    rw [found] at taken
    cases taken
    rfl

theorem skip_of_spells {first : TokenKind} {kinds : List TokenKind}
    (spells : stream.Spells (first :: kinds) rest) {depth next : Nat}
    (taken : skims depth (first :: kinds) = some next) {kind : NodeKind}
    (blockless : kind.hasBlock = false) (consumed : Bool) :
    loop (m := Parser) (skipRound kind) (depth, consumed) stream =
      loop (m := Parser) (skipRound kind) (next, true) rest := by
  induction kinds generalizing first stream depth consumed with
  | nil =>
    rw [skims, Option.bind_eq_some_iff] at taken
    obtain ⟨_, taken, ⟨⟩⟩ := taken
    rw [← spells.kind] at taken
    rw [loop_of_more (skipRound_of_skim (by simp [spells.newlineBefore]) taken blockless)
      spells.remaining_advance, spells.advance.eq_rest]
  | cons second kinds ih =>
    rw [skims, Option.bind_eq_some_iff] at taken
    obtain ⟨between, taken, later⟩ := taken
    rw [← spells.kind] at taken
    rw [loop_of_more (skipRound_of_skim (by simp [spells.newlineBefore]) taken blockless)
      spells.remaining_advance, ih spells.advance later]

theorem skip_previousStop_le {source : String} {kind : NodeKind} {state : Nat × Bool}
    (inSource : stream.InSource source) :
    Ensures (loop (skipRound kind) state) stream fun _ rest =>
      stream.previousStop ≤ rest.previousStop := by
  refine .loop (fun _ now => now.InSource source ∧ stream.previousStop ≤ now.previousStop) ?_
    ⟨inSource, le_rfl⟩
  rintro ⟨depth, consumed⟩ now ⟨inSource, later⟩ result rest read
  have further := later.trans inSource.later_advance.stop_le
  have ensures := skipRound_ensures kind depth consumed read
  cases result
  next =>
    obtain ⟨rfl, -⟩ := ensures
    exact ⟨inSource.advance, further⟩
  next =>
    obtain ⟨rfl, -⟩ | ⟨rfl, -⟩ := ensures
    next => exact later
    next => exact further

theorem program_of_statement {level : Level Parser} {statement : Statement}
    (inside : stream.isAtEnd = false) (read : level.statement stream = .ok (statement, rest))
    (shorter : rest.remaining < stream.remaining) (before : List Statement) :
    loop (programRound level) before stream =
      loop (programRound level) (statement :: before) rest := by
  refine loop_of_more ?_ shorter
  rw [programRound, look_bind, inside]
  exact bind_ok read _

theorem program_cases {level : Level Parser} {before body : List Statement}
    (read : loop (programRound level) before stream = .ok (body, rest)) :
    stream.isAtEnd ∧ body = before.reverse ∨
      stream.isAtEnd = false ∧ ∃ statement between,
        level.statement stream = .ok (statement, between) ∧
        loop (programRound level) (statement :: before) between = .ok (body, rest) := by
  have round : programRound level before stream =
      if stream.isAtEnd then .ok (.inr before.reverse, stream)
      else (level.statement >>= fun statement => pure (.inl (statement :: before))) stream := by
    rw [programRound, look_bind]
    split <;> rfl
  obtain done | ⟨more, between, again, -, read⟩ := loop_cases read
  next =>
    rw [round] at done
    split at done
    next ended =>
      cases done
      exact .inl ⟨ended, rfl⟩
    next =>
      obtain ⟨statement, between, -, ended⟩ := exists_of_bind done
      cases ended
  next =>
    rw [round] at again
    split at again
    next => cases again
    next inside =>
      obtain ⟨statement, between, found, ended⟩ := exists_of_bind again
      cases ended
      exact .inr ⟨by simpa using inside, statement, between, found, read⟩

theorem program_prefix {level : Level Parser} {before body : List Statement}
    (read : loop (programRound level) before stream = .ok (body, rest)) :
    before.reverse <+: body := by
  have ensures : Ensures (loop (programRound level) before) stream
      fun body _ => before.reverse <+: body := by
    refine .loop (fun items _ => before.reverse <+: items.reverse) ?_ (List.prefix_refl _)
    intro items now kept
    unfold programRound
    simp only [ensures_look]
    refine .ite (fun _ => (ensures_pure _).mpr kept) fun _ => .bind_any fun statement _ => ?_
    refine (ensures_pure _).mpr (kept.trans ?_)
    rw [List.reverse_cons]
    exact List.prefix_append ..
  exact ensures read

end Parser

theorem Program.parse_eq_ok_iff {source : String} {body : List Statement} {whole : Span} :
    Program.parse source = .ok ⟨body, whole⟩ ↔
      ∃ rest, Parser.loop (Parser.programRound (Level.above (m := Parser) maxNesting)) []
        (.ofText source) =
          .ok (body, rest) ∧ whole = ⟨0, rest.current.span.stop, 1, 1⟩ := by
  constructor
  next =>
    intro parsed
    cases read : Parser.program (m := Parser) (.ofText source) with
    | error error =>
      rw [Program.parse, StateT.run', read] at parsed
      cases parsed
    | ok result =>
      obtain ⟨program, last⟩ := result
      rw [Program.parse, StateT.run', read] at parsed
      obtain ⟨found, rest, looped, ended⟩ := Parser.exists_of_bind read
      cases ended
      cases parsed
      exact ⟨last, looped, rfl⟩
  next =>
    rintro ⟨rest, read, rfl⟩
    rw [Program.parse, StateT.run', Parser.program, Parser.bind_ok read]
    rfl

end EventLoop
