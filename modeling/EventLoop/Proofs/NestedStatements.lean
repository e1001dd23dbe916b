import EventLoop.Parsing.Program
import EventLoop.Proofs.NestedExpressions
import EventLoop.Proofs.Tiling

set_option autoImplicit false

namespace EventLoop

open TokenStream SyntaxTree

variable {source : String} {stream : TokenStream} {depth : Nat} {level : Level Parser}

namespace Parser

theorem declarator_reads (sound : level.Sound source depth) (inSource : stream.InSource source) :
    (declarator level).Reads Declarator.tree source (deepest depth + 1) stream := by
  unfold Reads declarator
  simp only [meets_start]
  refine (identifier_reads inSource).bind ?_
  rintro id now ⟨named, name⟩
  have name := name.mono (Nat.zero_le (deepest depth)) le_rfl le_rfl
  refine .eat (fun assign => ?_) fun _ => ?_
  next =>
    have marked := named.inSource.ahead_mark assign
    rw [bind_map_left]
    refine (sound.assignment marked.inSource).bind ?_
    rintro init rest ⟨moves, fits⟩
    have whole := named.trans (marked.trans moves.toLater).toLater
    have children := ((FitsAll.singleton name).widen marked.toLater).concat marked.inSource fits
    exact ⟨whole, whole.inSource.fits_node inSource.opens whole.start_lt children rfl⟩
  next =>
    exact ⟨named, named.inSource.fits_node inSource.opens named.start_lt (.singleton name) rfl⟩

theorem declarators_meets (sound : level.Sound source depth) (inSource : stream.InSource source)
    {place : Nat} (after : place ≤ stream.previousStop) :
    (declarators level).Meets stream fun declarators rest => Later source stream rest ∧
      FitsAll source (deepest depth + 1) place (declarators.map Declarator.tree)
        rest.previousStop := by
  refine .loop (Listed Declarator.tree source (deepest depth + 1) place stream) ?_ inSource
    (.nil inSource after)
  intro declarators now inside listed
  unfold declaratorsRound
  refine (declarator_reads sound inside).bind ?_
  rintro declarator rest ⟨moves, fits⟩
  have more := listed.cons moves fits
  refine .eat (fun comma => ?_) fun _ => ⟨more.later, more.fits⟩
  have further := moves.inSource.ahead_mark comma
  exact ⟨(moves.trans further.toLater), more.widen further.toLater⟩

theorem variableDeclaration_reads (sound : level.Sound source depth)
    (inSource : stream.InSource source) {word : Keyword}
    (found : stream.current.kind = .keyword word) (kind : VariableKind) :
    (variableDeclaration level kind).Reads Statement.tree source (deepest depth + 2) stream := by
  unfold Reads variableDeclaration
  simp only [meets_start, meets_advance, meets_isAt]
  have taken := inSource.ahead_advance (by rw [found]; rfl)
  refine .ite (fun pattern => ?_) fun _ => ?_
  next =>
    have starts : stream.advance.isAtEnd = false ∧ stream.advance.isAt .braceClose = false := by
      rw [isAtEnd, TokenStream.isAt]
      rw [Bool.or_eq_true] at pattern
      obtain brace | bracket := pattern
      next => rw [kind_of_isAt brace]; exact ⟨rfl, rfl⟩
      next => rw [kind_of_isAt bracket]; exact ⟨rfl, rfl⟩
    refine (skipStatement_meets taken.inSource _ inSource.opens taken.start_le starts.1
      starts.2).mono ?_
    rintro statement rest ⟨moves, fits⟩
    exact ⟨taken.trans moves.toLater, fits.mono (by omega) le_rfl le_rfl⟩
  next =>
    refine (declarators_meets sound taken.inSource taken.start_lt.le).bind ?_
    rintro declarators now ⟨listed, fits⟩
    refine (endStatement_later listed.inSource).bind fun _ rest ended => ?_
    have whole := taken.trans (listed.trans ended)
    refine ⟨whole, ?_⟩
    rw [Statement.tree, declaratorTrees_eq_map]
    exact whole.inSource.fits_node inSource.opens whole.start_lt (fits.widen ended) rfl

theorem returnArgument_meets (sound : level.Sound source depth) (inSource : stream.InSource source)
    {place : Nat} (before : place ≤ stream.previousStop) :
    (returnArgument level).Meets stream fun argument rest => Later source stream rest ∧
      FitsAll source (deepest depth + 1) place (argument.toList.map Expr.tree)
        rest.previousStop := by
  unfold returnArgument
  simp only [meets_look]
  refine .ite (fun _ => ⟨inSource.later, .nil before⟩) fun _ => ?_
  rw [map_eq_pure_bind]
  refine (expression_reads sound inSource).bind ?_
  rintro argument rest ⟨moves, fits⟩
  have place := before.trans inSource.previousStop_le
  exact ⟨moves.toLater, .singleton (fits.mono le_rfl place le_rfl)⟩

theorem returns_reads (sound : level.Sound source depth) (inSource : stream.InSource source)
    (found : stream.current.kind = .keyword .returnWord) :
    (returns level).Reads Statement.tree source (deepest depth + 2) stream := by
  unfold Reads returns
  simp only [meets_start, meets_advance]
  have taken := inSource.ahead_advance (by rw [found]; rfl)
  refine (returnArgument_meets sound taken.inSource taken.start_lt.le).bind ?_
  rintro argument now ⟨steps, fits⟩
  refine (endStatement_later steps.inSource).bind fun _ rest ended => ?_
  have whole := taken.trans (steps.trans ended)
  refine ⟨whole, ?_⟩
  cases argument <;>
    exact whole.inSource.fits_node inSource.opens whole.start_lt (fits.widen ended) rfl

theorem expressionStatement_reads (sound : level.Sound source depth)
    (inSource : stream.InSource source) :
    (expressionStatement level).Reads Statement.tree source (deepest depth + 2) stream := by
  unfold Reads expressionStatement
  simp only [meets_start]
  refine (expression_reads sound inSource).bind ?_
  rintro value now ⟨moves, fits⟩
  refine (endStatement_later moves.inSource).bind fun _ rest ended => ?_
  have whole := moves.trans ended
  exact ⟨whole, whole.inSource.fits_node inSource.opens whole.start_lt
    (.singleton (fits.widen ended)) rfl⟩

theorem skipStatement_reads (inSource : stream.InSource source) (kind : NodeKind)
    {word : List Char} (spelled : stream.current.kind.spelling? = some word) :
    Reads (skipStatement kind stream.current.span) Statement.tree source (deepest depth + 3)
      stream := by
  have unclosed : stream.isAt .braceClose = false := by
    rw [TokenStream.isAt]
    cases found : stream.current.kind with
    | punctuator mark => rw [found] at spelled; cases spelled
    | _ => rfl
  apply (skipStatement_meets inSource kind inSource.opens le_rfl
    (TokenKind.isEnd_of_eq_some spelled rfl) unclosed).mono
  rintro statement rest ⟨moves, fits⟩
  exact ⟨moves, fits.mono (by omega) le_rfl le_rfl⟩

theorem plainStatement_reads (sound : level.Sound source depth)
    (inSource : stream.InSource source) :
    (plainStatement level).Reads Statement.tree source (deepest depth + 3) stream := by
  unfold Reads plainStatement
  simp only [meets_look]
  split
  next word => exact (variableDeclaration_reads sound inSource word _).mono (by omega)
  next word => exact (variableDeclaration_reads sound inSource word _).mono (by omega)
  next word => exact (variableDeclaration_reads sound inSource word _).mono (by omega)
  next word =>
    refine .ite (fun _ => ?_) fun _ => ?_
    next => exact skipStatement_reads inSource _ (by rw [word]; rfl)
    next =>
      refine (function_reads sound inSource .declaration).bind ?_
      rintro node rest ⟨moves, fits⟩
      refine ⟨moves, ?_⟩
      -- The statement has the span of its function, so its tree only wraps the other one.
      rw [Statement.tree, ← node.span_tree]
      exact fits.wrap rfl
  next word =>
    refine .ite (fun _ => ?_) fun _ => ?_
    next => exact skipStatement_reads inSource _ (by rw [word]; rfl)
    next => exact (expressionStatement_reads sound inSource).mono (by omega)
  next word => exact (returns_reads sound inSource word).mono (by omega)
  next =>
    refine (block_meets sound inSource).bind ?_
    rintro block rest ⟨moves, fits⟩
    exact ⟨moves, fits.mono (by omega) le_rfl le_rfl⟩
  next mark =>
    simp only [meets_advance]
    have children : FitsAll source 0 stream.current.span.start [] stream.current.span.stop :=
      .nil inSource.start_le_stop
    exact ⟨inSource.ahead_mark (isAt_of_kind mark),
      .node (inSource.marks_current (by rw [mark]; rfl)) children rfl (by omega)⟩
  next => exact (expressionStatement_reads sound inSource).mono (by omega)

theorem kind_of_word? {name : String} (word : stream.word? = some name) :
    stream.current.kind = .identifier name := by
  unfold TokenStream.word? at word
  split at word
  next kind => rw [kind, Option.some.inj word]
  next => cases word

theorem statement_reads (sound : level.Sound source depth) (inSource : stream.InSource source) :
    (statement level).Reads Statement.tree source (deepest (depth + 1)) stream := by
  have bound : deepest depth + 3 ≤ deepest (depth + 1) := by rw [deepest]; omega
  unfold Reads statement
  simp only [meets_look]
  split
  next kind found =>
    refine .ite (fun _ => (plainStatement_reads sound inSource).mono bound) fun _ => ?_
    obtain ⟨name, word, -⟩ := Option.bind_eq_some_iff.mp found
    exact (skipStatement_reads inSource kind (by rw [kind_of_word? word]; rfl)).mono bound
  next =>
    refine .ite (fun label => ?_) fun _ => (plainStatement_reads sound inSource).mono bound
    rw [Bool.and_eq_true, TokenStream.isAtIdentifier, Option.any_eq_true] at label
    obtain ⟨⟨name, word, -⟩, -⟩ := label
    exact (skipStatement_reads inSource _ (by rw [kind_of_word? word]; rfl)).mono bound

end Parser

theorem Level.ofDeeper_sound {deeper : Option (Level Parser)}
    (below : Parser.SoundBelow deeper source depth) : (ofDeeper deeper).Sound source depth := by
  have assignment {stream : TokenStream} (inSource : stream.InSource source) :
      (ofDeeper deeper).assignment.Reads Expr.tree source (deepest depth) stream :=
    .descend below fun _ _ same sound => same ▸ Parser.assignment_reads sound inSource
  constructor
  case statement =>
    exact fun inSource =>
      .descend below fun _ _ same sound => same ▸ Parser.statement_reads sound inSource
  case assignment => exact assignment
  case unary =>
    exact fun inSource =>
      .descend below fun _ _ same sound => same ▸ Parser.unary_reads sound inSource
  case operators => exact fun minimum begun => Parser.operators_extends below begun minimum
  case links => exact fun begun => Parser.links_extends below assignment begun
  case members => exact fun inSource => Parser.members_later below inSource

theorem Level.above_sound (source : String) (depth : Nat) : (above depth).Sound source depth := by
  induction depth with
  | zero => exact ofDeeper_sound (by rintro _ ⟨⟩)
  | succ depth ih =>
    apply ofDeeper_sound
    rintro level ⟨⟩
    exact ⟨depth, rfl, ih⟩

theorem TokenStream.InSource.stop_of_isAtEnd (inSource : stream.InSource source)
    (ended : stream.isAtEnd) : stream.current.span.stop = source.utf8ByteSize := by
  obtain ⟨-, cursor, passed, stands, yields, -⟩ := inSource
  obtain ⟨token, -⟩ := yields.stands stands
  rw [isAtEnd] at ended
  have spent : stream.ahead.rest = [] := by
    generalize stream.current = current at *
    generalize stream.ahead = ahead at *
    cases yields with
    | plain =>
      have empty := cursor.isEnd_next_iff.mp ended
      simp [Cursor.next_of_nil empty, empty]
    | regexp =>
      obtain ⟨pattern, flags, kind⟩ | kind := cursor.next.2.regexp_kind cursor.next.1 <;>
        rw [kind] at ended <;> cases ended
  rw [token.stop, ← String.utf8Len_toList, token.split, spent, List.append_nil]

structure Program.ReadFrom (program : Program) (source : String) (rest : TokenStream) : Prop where
  later : Later source (.ofText source) rest
  ended : rest.isAtEnd
  span : program.span = ⟨0, source.utf8ByteSize, 1, 1⟩
  fits : FitsAll source (deepest maxNesting) 0 (program.body.map Statement.tree) rest.previousStop

theorem Parser.program_meets (source : String) :
    Meets Parser.program (.ofText source) fun program rest => program.ReadFrom source rest := by
  have inSource := TokenStream.ofText_inSource source
  have body : Meets (loop (programRound (Level.above maxNesting)) []) (.ofText source)
      fun body rest => rest.isAtEnd ∧ Later source (.ofText source) rest ∧
        FitsAll source (deepest maxNesting) 0 (body.map Statement.tree) rest.previousStop := by
    refine .loop (Listed Statement.tree source (deepest maxNesting) 0 (.ofText source)) ?_ inSource
      (.nil inSource (Nat.zero_le _))
    intro body now inside listed
    unfold programRound
    simp only [meets_look]
    refine .ite (fun ended => ⟨ended, listed.later, listed.fits⟩) fun _ => ?_
    have reads := (Level.above_sound source maxNesting).statement inside
    refine reads.bind ?_
    rintro statement rest ⟨moves, fits⟩
    exact ⟨moves, listed.cons moves fits⟩
  unfold Parser.program
  refine body.bind ?_
  rintro body rest ⟨ended, steps, fits⟩
  simp only [meets_look, meets_pure]
  exact ⟨steps, ended, by rw [steps.inSource.stop_of_isAtEnd ended], fits⟩

theorem Program.read_of_parse {program : Program} (parsed : parse source = .ok program) :
    ∃ rest, (Parser.program : Parser Program) (.ofText source) = .ok (program, rest) := by
  rw [parse, StateT.run'] at parsed
  cases read : (Parser.program : Parser Program) (.ofText source) with
  | error => rw [read] at parsed; cases parsed
  | ok result =>
    obtain ⟨found, rest⟩ := result
    rw [read] at parsed
    obtain rfl : found = program := Except.ok.inj parsed
    exact ⟨rest, rfl⟩

theorem Program.readFrom_of_parse {program : Program} (parsed : parse source = .ok program) :
    ∃ rest, program.ReadFrom source rest := by
  obtain ⟨rest, read⟩ := read_of_parse parsed
  exact ⟨rest, (Parser.program_meets source).of_ok read⟩

theorem Program.fault_ne_stalled {error : SyntaxError} (failed : parse source = .error error) :
    error.fault ≠ .stalled := by
  have meets := Parser.program_meets source
  rw [parse, StateT.run'] at failed
  cases read : (Parser.program : Parser Program) (.ofText source) with
  | error found =>
    rw [read] at failed
    obtain rfl : found = error := Except.error.inj failed
    exact meets.of_error read
  | ok => rw [read] at failed; cases failed

end EventLoop
