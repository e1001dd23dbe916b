import EventLoop.Proofs.LoggedGrammar
import EventLoop.Proofs.NestedStatements

set_option autoImplicit false

/-!
# Programs that are accepted

What the grammar guarantees of every source: where the parts of a program lie in it, which brackets
it can have, and that reading it comes to an end.
-/

namespace EventLoop

open TokenStream SyntaxTree

variable {source : String} {program : Program}

theorem Program.exists_of_isOk (accepted : (parse source).isOk) :
    ∃ program, parse source = .ok program := by
  cases parsed : parse source with
  | error error => rw [parsed] at accepted; cases accepted
  | ok program => exact ⟨program, rfl⟩

/-- The spans of a program are those of a tree: every node lies inside its parent and after the
nodes before it, and starts and ends between characters of the source. -/
theorem Program.spans_form_tree (parsed : parse source = .ok program) :
    program.span = ⟨0, source.utf8ByteSize, 1, 1⟩ ∧
      (∀ statement ∈ program.body, statement.tree.span.stop ≤ source.utf8ByteSize) ∧
      ((program.body.map Statement.tree).Pairwise fun left right =>
        left.span.stop ≤ right.span.start) ∧
      ∀ statement ∈ program.body, ∀ part, statement.tree.Contains part → part.Placed source := by
  obtain ⟨rest, read⟩ := readFrom_of_parse parsed
  have inSource := read.later.inSource
  have last : rest.previousStop ≤ source.utf8ByteSize := by
    rw [← inSource.stop_of_isAtEnd read.ended]
    exact inSource.previousStop_le.trans inSource.start_le_stop
  have tree {statement : Statement} (member : statement ∈ program.body) :
      statement.tree ∈ program.body.map Statement.tree := List.mem_map_of_mem member
  refine ⟨read.span, fun statement member => ?_, read.fits.ordered, fun statement member => ?_⟩
  · exact (read.fits.inside _ (tree member)).2.trans last
  · exact read.fits.nests _ (tree member)

def functionInParens : String := "let é = (x => /[)]/)\n.b, c;"

theorem functionInParens_spans :
    ∃ program, Program.parse functionInParens = .ok program ∧
      program.span = ⟨0, functionInParens.utf8ByteSize, 1, 1⟩ ∧
      (∀ statement ∈ program.body,
        statement.tree.span.stop ≤ functionInParens.utf8ByteSize) ∧
      ((program.body.map Statement.tree).Pairwise fun left right =>
        left.span.stop ≤ right.span.start) ∧
      ∀ statement ∈ program.body, ∀ part, statement.tree.Contains part →
        part.Placed functionInParens := by
  have accepted : (Program.parse functionInParens).isOk := by decide +kernel
  obtain ⟨program, parsed⟩ := Program.exists_of_isOk accepted
  exact ⟨program, parsed, Program.spans_form_tree parsed⟩

/-- The brackets of a program match in kind outside of what the grammar skipped, so they all match
where those of the skipped parts do. In a skipped statement or group brackets match in number;
before the braces of a class they need not match at all. -/
theorem Program.brackets_match_outside_skipped (parsed : parse source = .ok program) :
    ∃ rest log, readLogged source = (.ok (program, rest), log) ∧
      (TokenStream.ofText source).Passes (log.pieces.flatMap Piece.kinds) rest ∧ rest.isAtEnd ∧
      BracketsMatch (log.pieces.flatMap Piece.outside) ∧
      (∀ part kinds, .skipped part kinds ∈ log.pieces → part.Allows kinds) ∧
      ((∀ piece ∈ log.pieces, BracketsMatch piece.inside) →
        BracketsMatch (log.pieces.flatMap Piece.kinds)) ∧
      ((∀ kinds, .skipped .classHead kinds ∉ log.pieces) →
        openCount 0 (log.pieces.flatMap Piece.kinds) = some 0) := by
  obtain ⟨rest, read⟩ := read_of_parse parsed
  have ended := ((Parser.program_meets source).of_ok read).ended
  obtain ⟨now, highest, pieces, logged, -, ends⟩ :=
    LoggedParser.program_agrees True source [] 0 [] (Nat.zero_le _)
  rw [read] at logged ends
  cases ends with
  | done takes holds =>
    obtain ⟨passes, path⟩ := takes trivial
    obtain ⟨-, rfl⟩ := holds
    exact ⟨rest, _, logged, passes, ended, path.openBrackets_outside, fun _ _ => path.allows,
      path.openBrackets_kinds, path.openCount_kinds⟩

theorem bracketAndParen_match_outside :
    ∃ program, Program.parse "f([)); [a]" = .ok program ∧
      ∃ rest log, Program.readLogged "f([)); [a]" = (.ok (program, rest), log) ∧
        (TokenStream.ofText "f([)); [a]").Passes (log.pieces.flatMap Piece.kinds) rest ∧
        rest.isAtEnd ∧ BracketsMatch (log.pieces.flatMap Piece.outside) ∧
        (∀ part kinds, .skipped part kinds ∈ log.pieces → part.Allows kinds) ∧
        ((∀ piece ∈ log.pieces, BracketsMatch piece.inside) →
          BracketsMatch (log.pieces.flatMap Piece.kinds)) ∧
        ((∀ kinds, .skipped .classHead kinds ∉ log.pieces) →
          openCount 0 (log.pieces.flatMap Piece.kinds) = some 0) := by
  have accepted : (Program.parse "f([)); [a]").isOk := by decide +kernel
  obtain ⟨program, parsed⟩ := Program.exists_of_isOk accepted
  exact ⟨program, parsed, Program.brackets_match_outside_skipped parsed⟩

example : (Program.parse "function f() \x7b ( ] \x7d").isOk = false := by decide +kernel

def TokenStream.plainKinds? : Nat → TokenStream → Option (List TokenKind)
  | 0, _ => none
  | most + 1, stream =>
      if stream.isAtEnd then some []
      else if stream.current.kind.isSlash then none
      else (plainKinds? most stream.advance).map (stream.current.kind :: ·)

theorem TokenStream.Passes.eq_plainKinds {stream rest : TokenStream} {kinds found : List TokenKind}
    (passes : stream.Passes kinds rest) (ended : rest.isAtEnd) {most : Nat}
    (plain : stream.plainKinds? most = some found) : kinds = found := by
  induction passes generalizing most found with
  | nothing stream =>
    cases most with
    | zero => cases plain
    | succ most =>
      rw [plainKinds?, if_pos ended] at plain
      exact Option.some.inj plain
  | token inside later ih =>
    cases most with
    | zero => cases plain
    | succ most =>
      rw [plainKinds?, isAtEnd, if_neg (by simp [inside])] at plain
      split at plain
      next => cases plain
      next =>
        obtain ⟨more, next, rfl⟩ := Option.map_eq_some_iff.mp plain
        rw [ih ended next]
  -- The plain reading gives up at a slash, so no regular expression was read.
  | @regexp stream rest kinds slash later ih =>
    cases most with
    | zero => cases plain
    | succ most =>
      rw [plainKinds?, if_pos slash] at plain
      split at plain
      next last =>
        rw [isAtEnd] at last
        cases kind : stream.current.kind <;> rw [kind] at slash last <;> cases last
        cases slash
      next => cases plain

/-- The source is a program, but its brackets do not match, whichever slashes are taken for regular
expressions. -/
def AcceptedUnmatched (source : String) : Prop :=
  (Program.parse source).isOk ∧ ∀ kinds rest, (TokenStream.ofText source).Passes kinds rest →
    rest.isAtEnd → ¬BracketsMatch kinds

theorem acceptedUnmatched_of_plainKinds
    (evaluated : (Program.parse source).isOk && ((TokenStream.ofText source).plainKinds? 8).any
      fun kinds => !decide (BracketsMatch kinds)) : AcceptedUnmatched source := by
  rw [Bool.and_eq_true, Option.any_eq_true] at evaluated
  obtain ⟨accepted, found, plain, unmatched⟩ := evaluated
  refine ⟨accepted, fun kinds rest passes ended => ?_⟩
  rw [passes.eq_plainKinds ended plain]
  simpa using unmatched

theorem unmatched_accepted_where_skipped :
    AcceptedUnmatched "[)" ∧ AcceptedUnmatched "if (x] {}" ∧ AcceptedUnmatched "(class ) {})" := by
  refine ⟨?group, ?statement, ?classHead⟩ <;>
    exact acceptedUnmatched_of_plainKinds (by decide +kernel)

/-- The parser comes to an end, and where it gives a value it has moved on from the token at which
it started. -/
def Parser.Progresses {α : Type} (parser : Parser α) (stream : TokenStream) : Prop :=
  parser.Meets stream fun _ rest => stream.current.span.start < rest.current.span.start

theorem TokenStream.Ahead.start_lt_start {stream rest : TokenStream}
    (ahead : Ahead source stream rest) : stream.current.span.start < rest.current.span.start :=
  ahead.start_lt.trans_le ahead.inSource.previousStop_le

theorem Parser.Reads.progresses {α : Type} {parser : Parser α} {view : α → SyntaxTree}
    {height : Nat}
    {stream : TokenStream} (reads : parser.Reads view source height stream) :
    parser.Progresses stream :=
  Meets.mono reads fun _ _ read => read.1.start_lt_start

theorem Program.parse_ends_with_progress (source : String) :
    ((∃ program, parse source = .ok program) ∨
      ∃ error, parse source = .error error ∧ error.fault ≠ .stalled) ∧
    ∀ kinds stream, (TokenStream.ofText source).Passes kinds stream →
      (∀ depth, (Level.above (m := Parser) depth).statement.Progresses stream ∧
        (Level.above (m := Parser) depth).assignment.Progresses stream ∧
        (Level.above (m := Parser) depth).unary.Progresses stream) ∧
      Parser.Progresses Parser.skipGroup stream ∧
      (stream.current.kind.isSlash → Parser.Progresses Parser.regexp stream) := by
  constructor
  case left =>
    cases parsed : parse source with
    | ok program => exact .inl ⟨program, rfl⟩
    | error error => exact .inr ⟨error, rfl, fault_ne_stalled parsed⟩
  case right =>
    intro kinds stream passes
    have inSource := (passes.later (ofText_inSource source)).inSource
    refine ⟨fun depth => ?_, ?_, fun slash => (Parser.regexp_reads inSource slash).progresses⟩
    · have sound := Level.above_sound source depth
      exact ⟨(sound.statement inSource).progresses, (sound.assignment inSource).progresses,
        (sound.unary inSource).progresses⟩
    · exact (Parser.skipGroup_ahead inSource).mono fun _ _ ahead => ahead.start_lt_start

end EventLoop
