import EventLoop.Proofs.Displacement

set_option autoImplicit false

/-!
# Displaced programs

No production of the grammar sees the places of its tokens. So the statements of a program are read
again when other text is put in front, up to their spans.
-/

namespace EventLoop

variable (moved : Displacement)

structure Level.Tracks (level : Level Parser) : Prop where
  statement : Parser.Tracks moved (Alike Statement.bare) level.statement level.statement
  assignment : Parser.Tracks moved (Alike Expr.bare) level.assignment level.assignment
  unary : Parser.Tracks moved (Alike Expr.bare) level.unary level.unary
  operators {left left' : Expr} (same : left.bare = left'.bare) (minimum : Nat)
    (start start' : Span) : Parser.Tracks moved (Alike Expr.bare)
      (level.operators left minimum start) (level.operators left' minimum start')
  links {operand operand' : Expr} (same : operand.bare = operand'.bare) (start start' : Span) :
    Parser.Tracks moved (Alike Expr.bare) (level.links operand start) (level.links operand' start')
  members : Parser.Tracks moved Eq level.members level.members

theorem bareStatements_eq_map (statements : List Statement) :
    bareStatements statements = statements.map Statement.bare := by
  induction statements with
  | nil => rfl
  | cons statement rest ih => simp [bareStatements, ih]

theorem bareDeclarators_eq_map (declarators : List Declarator) :
    bareDeclarators declarators = declarators.map Declarator.bare := by
  induction declarators with
  | nil => rfl
  | cons declarator rest ih => simp [bareDeclarators, ih]

theorem Alike.cons {α γ : Type} {view : α → γ} {item item' : α} {items items' : List α}
    (first : Alike view item item') (rest : Alike (List.map view) items items') :
    Alike (List.map view) (item :: items) (item' :: items') := by
  unfold Alike at *
  rw [List.map_cons, List.map_cons, first, rest]

theorem Alike.reverse {α γ : Type} {view : α → γ} {items items' : List α}
    (same : Alike (List.map view) items items') :
    Alike (List.map view) items.reverse items'.reverse := by
  unfold Alike at *
  rw [List.map_reverse, List.map_reverse, same]

theorem Expr.identifiers_or_others {value value' : Expr} (same : value.bare = value'.bare) :
    (∃ id id', value = .identifier id ∧ value' = .identifier id' ∧ id.bare = id'.bare) ∨
      (∀ id, value ≠ .identifier id) ∧ ∀ id, value' ≠ .identifier id := by
  by_cases named : ∃ id, value = .identifier id
  · obtain ⟨id, rfl⟩ := named
    obtain ⟨id', rfl, alike⟩ := exists_identifier_of_bare same.symm
    exact .inl ⟨id, id', rfl, rfl, alike.symm⟩
  · refine .inr ⟨fun id found => named ⟨id, found⟩, ?_⟩
    rintro id rfl
    obtain ⟨id', rfl, -⟩ := exists_identifier_of_bare same
    exact named ⟨id', rfl⟩

namespace Parser

variable {moved} {level : Level Parser} {deeper : Option (Level Parser)}

theorem Tracks.descend {γ : Type} {linked : γ → γ → Prop} {next next' : Level Parser → Parser γ}
    (below : ∀ level ∈ deeper, level.Tracks moved)
    (goes : ∀ level : Level Parser, level.Tracks moved →
      Tracks moved linked (next level) (next' level)) :
    Tracks moved linked (Parser.descend deeper >>= next) (Parser.descend deeper >>= next') := by
  cases deeper with
  | none => exact .fail_bind ..
  | some level => exact fun _ _ _ read => goes level (below level rfl) read

theorem list_tracks {α γ : Type} {view : α → γ} {item : Parser α}
    (tracks : Tracks moved (Alike view) item item) :
    Tracks moved (Alike (List.map view)) (list item) (list item) := by
  have round {items items' : List α} (same : Alike (List.map view) items items') :
      Tracks moved (Sum.LiftRel (Alike (List.map view)) (Alike (List.map view)))
        (listRound item items) (listRound item items') := by
    refine .eat fun closed => .ite (.done same.reverse) (tracks.bind fun item item' alike => ?_)
    refine .eat fun comma => .ite (.more (alike.cons same)) (.expect ?_)
    exact .done (alike.cons same).reverse
  exact .expect (.loop (fun _ _ => round) rfl)

theorem params_tracks : Tracks moved (Alike (List.map Identifier.bare)) params params := by
  refine list_tracks (.get fun stream => ?_)
  rw [TokenStream.isAtIdentifier_displaced]
  exact .ite identifier_tracks (.fail_bind ..)

theorem functionName_tracks (form : FunctionForm) :
    Tracks moved (Alike (Option.map Identifier.bare)) (functionName form) (functionName form) := by
  refine .get fun stream => ?_
  rw [TokenStream.isAtIdentifier_displaced]
  refine .ite ?_ (.ite (.unexpected ..) (.pure rfl))
  exact identifier_tracks.map fun _ _ same => congrArg some same

theorem arrowParams_tracks :
    Tracks moved (Alike (List.map Identifier.bare)) arrowParams arrowParams :=
  .isAt fun _ => .ite params_tracks (identifier_tracks.bind fun _ _ same => .pure (same.cons rfl))

section Grammar

variable (tracks : level.Tracks moved)
include tracks

theorem blockRound_tracks {body body' : List Statement}
    (same : Alike (List.map Statement.bare) body body') :
    Tracks moved (Sum.LiftRel (Alike (List.map Statement.bare)) (Alike (List.map Statement.bare)))
      (blockRound level body) (blockRound level body') := by
  refine .eat fun closed => .ite (.done same.reverse) (.get fun stream => ?_)
  rw [TokenStream.isAtEnd_displaced]
  refine .ite (.fail_bind ..) ?_
  exact tracks.statement.bind fun statement statement' alike => .more (alike.cons same)

theorem block_tracks :
    Tracks moved (Alike fun block : List Statement × Span => block.1.map Statement.bare)
      (block level) (block level) := by
  have body : Tracks moved (Alike (List.map Statement.bare)) (blockBody level) (blockBody level) :=
    .loop (fun _ _ same => blockRound_tracks tracks same) rfl
  exact .start fun _ _ => .expect (body.bind fun _ _ same => .spanFrom fun _ _ => .pure same)

theorem functionRest_tracks (form : FunctionForm) (start start' : Span) :
    Tracks moved (Alike FunctionNode.bare) (functionRest level form start)
      (functionRest level form start') := by
  refine (functionName_tracks form).bind fun id id' same => ?_
  refine params_tracks.bind fun params params' named => ?_
  refine (block_tracks tracks).bind fun block block' body => .spanFrom fun _ _ => .pure ?_
  unfold Alike at *
  simp only [FunctionNode.bare, FunctionBody.bare, bareStatements_eq_map, same, named, body]

theorem function_tracks (form : FunctionForm) :
    Tracks moved (Alike FunctionNode.bare) (function level form) (function level form) := by
  refine .start fun start start' => .get fun stream => ?_
  rw [TokenStream.current_kind_displaced]
  exact .ite (.advance (functionRest_tracks tracks form start start')) (.unexpected_bind ..)

theorem arrowBody_tracks :
    Tracks moved (Alike FunctionBody.bare) (arrowBody level) (arrowBody level) := by
  refine .isAt fun braces => .ite ((block_tracks tracks).bind fun block block' alike => ?_) ?_
  · refine .pure ?_
    unfold Alike at *
    simp only [FunctionBody.bare, bareStatements_eq_map, alike]
  · exact tracks.assignment.map fun _ _ same => congrArg FunctionBody.expression same

theorem arrowFunction_tracks :
    Tracks moved (Alike FunctionNode.bare) (arrowFunction level) (arrowFunction level) := by
  refine .start fun start start' => arrowParams_tracks.bind fun params params' same => .expect ?_
  refine (arrowBody_tracks tracks).bind fun body body' alike => .spanFrom fun _ _ => .pure ?_
  unfold Alike at *
  simp only [FunctionNode.bare, same, alike]

theorem expression_tracks :
    Tracks moved (Alike Expr.bare) (expression level) (expression level) := by
  have round {items items' : List Expr} (same : Alike (List.map Expr.bare) items items') :
      Tracks moved (Sum.LiftRel (Alike (List.map Expr.bare)) (Alike (List.map Expr.bare)))
        (sequenceRound level items) (sequenceRound level items') := by
    refine .eat fun comma => .ite ?_ (.done same.reverse)
    exact tracks.assignment.bind fun item item' alike => .more (alike.cons same)
  refine .start fun start start' => tracks.assignment.bind fun first first' alike => ?_
  refine .isAt fun comma => .ite ?_ (.pure alike)
  have items : Tracks moved (Alike (List.map Expr.bare)) (loop (sequenceRound level) [first])
      (loop (sequenceRound level) [first']) := .loop (fun _ _ => round) (alike.cons rfl)
  refine items.bind fun items items' same => .spanFrom fun _ _ => .pure ?_
  unfold Alike at *
  simp only [Expr.bare, bareExprs_eq_map, same]

theorem functionExpression_tracks :
    Tracks moved (Alike Expr.bare) (functionExpression level) (functionExpression level) := by
  refine .start fun start start' => .advance (.eat fun star => ?_)
  have rest := functionRest_tracks tracks .expression start start'
  refine .ite (rest.discard (unsupported_tracks ..)) (rest.bind fun node node' same => .pure ?_)
  exact congrArg Expr.function same

theorem parenthesised_tracks :
    Tracks moved (Alike Expr.bare) (parenthesised level) (parenthesised level) :=
  .advance ((expression_tracks tracks).bind fun _ _ same => .expect (.pure same))

omit tracks in
theorem wordOperand_tracks (name : String) :
    Tracks moved (Alike Expr.bare) (wordOperand name) (wordOperand name) := by
  refine .start fun start start' => ?_
  cases reservedOperand? name with
  | none => exact identifier_tracks.bind fun id id' same => .pure (congrArg Expr.identifier same)
  | some kind =>
    cases kind
    case classExpression => exact classHead_tracks.bind fun _ _ _ => group_tracks ..
    all_goals exact .advance (unsupported_tracks ..)

omit tracks in
theorem regexp_tracks : Tracks moved (Alike Expr.bare) regexp regexp := by
  refine .start fun start start' => .rescan (.get fun stream => ?_)
  rw [TokenStream.current_kind_displaced]
  cases stream.current.kind with
  | unterminated delimiter => exact .fail _ _
  | _ => exact .advance (unsupported_tracks ..)

theorem primary_tracks : Tracks moved (Alike Expr.bare) (primary level) (primary level) := by
  refine .start fun start start' => .get fun stream => ?_
  -- Moved tokens have the same kinds, so both parsers take the same branch.
  rw [TokenStream.current_kind_displaced]
  have literal (value : Literal) :
      Tracks moved (Alike Expr.bare) (Parser.literal value) (Parser.literal value) :=
    .start fun _ _ => .advance (.pure rfl)
  cases stream.current.kind with
  | number value => exact literal _
  | string value => exact literal _
  | identifier name => exact wordOperand_tracks name
  | keyword word =>
    cases word
    case functionWord => exact functionExpression_tracks tracks
    case trueWord => exact literal _
    case falseWord => exact literal _
    case nullWord => exact literal _
    all_goals exact .unexpected _ _
  | punctuator mark =>
    cases mark
    case parenOpen => exact parenthesised_tracks tracks
    case bracketOpen => exact group_tracks ..
    case braceOpen => exact group_tracks ..
    case slash => exact regexp_tracks
    case slashAssign => exact regexp_tracks
    all_goals exact .unexpected _ _
  | template raw => exact .advance (unsupported_tracks ..)
  | _ => exact .unexpected _ _

end Grammar

section Arguments

variable {assignment : Parser Expr} (tracks : Tracks moved (Alike Expr.bare) assignment assignment)
include tracks

theorem arguments_tracks :
    Tracks moved (Alike (List.map Expr.bare)) (arguments assignment) (arguments assignment) := by
  refine list_tracks (.start fun start start' => .eat fun spread => ?_)
  exact .ite (tracks.discard (unsupported_tracks ..)) tracks

theorem optionalLink_tracks :
    Tracks moved Eq (optionalLink assignment) (optionalLink assignment) := by
  refine .isAt fun paren => .ite ?_ (.isAt fun bracket => .ite skipGroup_tracks ?_)
  · exact (arguments_tracks tracks).map fun _ _ _ => rfl
  · exact propertyName_tracks.map fun _ _ _ => rfl

end Arguments

section Chains

variable (below : ∀ level ∈ deeper, level.Tracks moved)
include below

theorem members_tracks : Tracks moved Eq (members deeper) (members deeper) := by
  refine .loop ?_ (rfl : () = ())
  intro _ _ _
  refine .eat fun dot => .ite ?_ (.isAt fun bracket => ?_)
  · refine .descend below fun level tracks => propertyName_tracks.discard ?_
    exact tracks.members.bind fun _ _ same => .done same
  · exact .ite (skipGroup_tracks.bind fun _ _ _ => .more rfl) (.done rfl)

theorem links_tracks {assignment : Parser Expr}
    (tracks : Tracks moved (Alike Expr.bare) assignment assignment) {operand operand' : Expr}
    (same : operand.bare = operand'.bare) (start start' : Span) :
    Tracks moved (Alike Expr.bare) (links deeper assignment operand start)
      (links deeper assignment operand' start') := by
  refine .loop (fun operand operand' (same : operand.bare = operand'.bare) => ?_) same
  refine .get fun stream => ?_
  rw [TokenStream.current_kind_displaced]
  cases stream.current.kind with
  | punctuator mark =>
    cases mark
    -- Links that are run go one level deeper; the others replace the operand and go on.
    case dot =>
      refine .descend below fun level tracks => .advance ?_
      refine propertyName_tracks.bind fun property property' named => .spanFrom fun span span' => ?_
      refine (tracks.links ?_ start start').bind fun _ _ alike => .done alike
      unfold Alike at named
      simp only [Expr.bare, same, named]
    case parenOpen =>
      refine .descend below fun level tracks => ?_
      refine (arguments_tracks tracks.assignment).bind fun items items' alike => ?_
      refine .spanFrom fun span span' => ?_
      refine (tracks.links ?_ start start').bind fun _ _ alike => .done alike
      unfold Alike at alike
      simp only [Expr.bare, bareExprs_eq_map, same, alike]
    case optionalChain =>
      refine .advance ((optionalLink_tracks tracks).bind fun _ _ _ => ?_)
      exact (unsupported_tracks ..).bind fun _ _ alike => .more alike
    case bracketOpen => exact (group_tracks ..).bind fun _ _ alike => .more alike
    all_goals exact .done same
  | template raw =>
    exact .advance ((unsupported_tracks ..).bind fun _ _ alike => .more alike)
  | _ => exact .done same

end Chains

section Grammar

variable (tracks : level.Tracks moved)
include tracks

theorem leftHandSide_tracks :
    Tracks moved (Alike Expr.bare) (leftHandSide level) (leftHandSide level) := by
  refine .start fun start start' => .get fun stream => ?_
  rw [TokenStream.current_kind_displaced]
  have linked {operand operand' : Expr} (same : Alike Expr.bare operand operand') :=
    tracks.links same start start'
  have made : Tracks moved (Alike Expr.bare)
      (unsupported .newExpression start >>= fun operand => level.links operand start)
      (unsupported .newExpression start' >>= fun operand => level.links operand start') :=
    (unsupported_tracks ..).bind fun _ _ => linked
  refine .ite (.advance ?_) ((primary_tracks tracks).bind fun _ _ => linked)
  refine (primary_tracks tracks).discard (tracks.members.bind fun _ _ _ => .isAt fun paren => ?_)
  exact .ite ((arguments_tracks tracks.assignment).discard made) made

omit tracks in
theorem update_tracks (op : UpdateOp) (order : UpdateOrder) {argument argument' : Expr}
    (same : argument.bare = argument'.bare) (start start' : Span) :
    Tracks moved (Alike Expr.bare) (update op order argument start)
      (update op order argument' start') := by
  obtain ⟨id, id', rfl, rfl, named⟩ | ⟨other, other'⟩ := Expr.identifiers_or_others same
  · exact .spanFrom fun _ _ => .pure (congrArg (Expr.update op order · default) named)
  · unfold update
    split
    next target => exact absurd rfl (other target)
    next => exact unsupported_tracks ..

theorem postfixed_tracks (start start' : Span) :
    Tracks moved (Alike Expr.bare) (postfixed level start) (postfixed level start') := by
  refine (leftHandSide_tracks tracks).bind fun operand operand' same => .get fun stream => ?_
  rw [TokenStream.current_kind_displaced]
  cases UpdateOp.ofToken? stream.current.kind with
  | none => exact .pure same
  | some op => exact .ite (.pure same) (.advance (update_tracks op .readFirst same start start'))

theorem unary_tracks : Tracks moved (Alike Expr.bare) (unary level) (unary level) := by
  refine .start fun start start' => .get fun stream => ?_
  rw [TokenStream.current_kind_displaced]
  dsimp only
  cases UnaryOp.ofToken? stream.current.kind with
  | some op =>
    refine .advance (tracks.unary.bind fun argument argument' same => .spanFrom fun _ _ => .pure ?_)
    exact congrArg (Expr.unary op · default) same
  | none =>
    cases UpdateOp.ofToken? stream.current.kind with
    | some op =>
      exact .advance (tracks.unary.bind fun _ _ same => update_tracks op .updateFirst same ..)
    | none =>
      refine .ite (.advance ?_) (postfixed_tracks tracks start start')
      exact tracks.unary.discard (unsupported_tracks ..)

theorem binary_tracks (minimum : Nat) :
    Tracks moved (Alike Expr.bare) (binary level minimum) (binary level minimum) :=
  .start fun start start' => tracks.unary.bind fun _ _ same =>
    tracks.operators same minimum start start'

omit tracks in
theorem operators_tracks (below : ∀ level ∈ deeper, level.Tracks moved) {left left' : Expr}
    (same : left.bare = left'.bare) (minimum : Nat) (start start' : Span) :
    Tracks moved (Alike Expr.bare) (operators deeper left minimum start)
      (operators deeper left' minimum start') := by
  refine .get fun stream => ?_
  rw [TokenStream.current_kind_displaced]
  cases Operator.ofToken? stream.current.kind with
  | none => exact .pure same
  | some op =>
    refine .ite (.pure same) (.descend below fun level tracks => .advance ?_)
    refine (binary_tracks tracks op.rightMinimum).bind fun right right' alike => ?_
    refine .spanFrom fun span span' => tracks.operators ?_ minimum start start'
    unfold Alike at alike
    cases op <;> simp only [Operator.apply, Expr.bare, same, alike]

theorem conditionalTail_tracks {test test' : Expr} (same : test.bare = test'.bare)
    (start start' : Span) :
    Tracks moved (Alike Expr.bare) (conditionalTail level test start)
      (conditionalTail level test' start') := by
  refine .eat fun question => .ite ?_ (.pure same)
  refine tracks.assignment.bind fun consequent consequent' alike => .expect ?_
  refine tracks.assignment.bind fun alternate alternate' alike' => .spanFrom fun _ _ => .pure ?_
  unfold Alike at *
  simp only [Expr.bare, same, alike, alike']

theorem assignmentTail_tracks {left left' : Expr} (same : left.bare = left'.bare)
    (start start' : Span) :
    Tracks moved (Alike Expr.bare) (assignmentTail level left start)
      (assignmentTail level left' start') := by
  refine .get fun stream => ?_
  rw [TokenStream.current_kind_displaced]
  cases AssignOp.ofToken? stream.current.kind with
  | none => exact .pure same
  | some op =>
    refine .advance (tracks.assignment.bind fun value value' alike => ?_)
    obtain ⟨id, id', rfl, rfl, named⟩ | ⟨other, other'⟩ := Expr.identifiers_or_others same
    · refine .spanFrom fun _ _ => .pure ?_
      unfold Alike at *
      simp only [Expr.bare, named, alike]
    · split
      next target => exact absurd rfl (other target)
      next => exact unsupported_tracks ..

theorem tails_tracks {test test' : Expr} (same : test.bare = test'.bare) (start start' : Span) :
    Tracks moved (Alike Expr.bare) (tails level test start) (tails level test' start') :=
  (conditionalTail_tracks tracks same start start').bind fun _ _ alike =>
    assignmentTail_tracks tracks alike start start'

theorem asyncExpression_tracks (start start' : Span) :
    Tracks moved (Alike Expr.bare) (asyncExpression level start)
      (asyncExpression level start') := by
  refine .advance (.get fun stream => ?_)
  rw [TokenStream.current_kind_displaced, TokenStream.isAtArrow_displaced]
  refine .ite ?_ (.ite ?_ ?_)
  · exact (function_tracks tracks .expression).discard (unsupported_tracks ..)
  · exact (arrowFunction_tracks tracks).discard (unsupported_tracks ..)
  · dsimp only
    refine Tracks.bind (tracks.links ?_ start start') fun operand operand' same => ?_
    next => rfl
    refine (tracks.operators same 0 start start').bind fun left left' alike => ?_
    exact tails_tracks tracks alike start start'

theorem assignment_tracks :
    Tracks moved (Alike Expr.bare) (assignment level) (assignment level) := by
  refine .get fun stream => ?_
  dsimp only
  rw [TokenStream.current_kind_displaced, TokenStream.isAtArrow_displaced]
  refine .ite ?_ (.ite (asyncExpression_tracks tracks ..) ?_)
  · exact (arrowFunction_tracks tracks).bind fun _ _ same => .pure (congrArg Expr.function same)
  · exact (binary_tracks tracks 0).bind fun _ _ same => tails_tracks tracks same ..

theorem declarator_tracks :
    Tracks moved (Alike Declarator.bare) (declarator level) (declarator level) := by
  refine .start fun start start' => identifier_tracks.bind fun id id' same => .eat fun assign => ?_
  have ended {init init' : Option Expr} (alike : Alike (Option.map Expr.bare) init init') :
      Tracks moved (Alike Declarator.bare) (return ⟨id, init, ← spanFrom start⟩)
        (return ⟨id', init', ← spanFrom start'⟩) := by
    refine .spanFrom fun _ _ => .pure ?_
    unfold Alike at *
    cases init <;> cases init' <;> simp_all [Declarator.bare]
  have value : Tracks moved (Alike (Option.map Expr.bare)) (some <$> level.assignment)
      (some <$> level.assignment) := tracks.assignment.map fun _ _ same => congrArg some same
  exact .ite (value.bind fun _ _ => ended) (ended rfl)

theorem declarators_tracks :
    Tracks moved (Alike (List.map Declarator.bare)) (declarators level) (declarators level) := by
  have round {items items' : List Declarator}
      (same : Alike (List.map Declarator.bare) items items') :
      Tracks moved
        (Sum.LiftRel (Alike (List.map Declarator.bare)) (Alike (List.map Declarator.bare)))
        (declaratorsRound level items) (declaratorsRound level items') := by
    refine (declarator_tracks tracks).bind fun item item' alike => .eat fun comma => ?_
    exact .ite (.more (alike.cons same)) (.done (alike.cons same).reverse)
  exact .loop (fun _ _ => round) rfl

theorem variableDeclaration_tracks (kind : VariableKind) :
    Tracks moved (Alike Statement.bare) (variableDeclaration level kind)
      (variableDeclaration level kind) := by
  refine .start fun start start' => .advance (.isAt fun brace => .isAt fun bracket => ?_)
  refine .ite (skipStatement_tracks ..) ?_
  refine (declarators_tracks tracks).bind fun items items' same => ?_
  refine endStatement_tracks.bind fun _ _ _ => .spanFrom fun _ _ => .pure ?_
  unfold Alike at *
  simp only [Statement.bare, bareDeclarators_eq_map, same]

theorem returnArgument_tracks :
    Tracks moved (Alike (Option.map Expr.bare)) (returnArgument level) (returnArgument level) := by
  refine .get fun stream => ?_
  simp only [TokenStream.isAt_displaced, TokenStream.isAtEnd_displaced,
    TokenStream.newlineBefore_displaced]
  exact .ite (.pure rfl) ((expression_tracks tracks).map fun _ _ same => congrArg some same)

theorem returns_tracks : Tracks moved (Alike Statement.bare) (returns level) (returns level) := by
  refine .start fun start start' => .advance ?_
  refine (returnArgument_tracks tracks).bind fun argument argument' alike => ?_
  refine endStatement_tracks.bind fun _ _ _ => .spanFrom fun _ _ => .pure ?_
  unfold Alike at *
  cases argument <;> cases argument' <;> simp_all [Statement.bare]

theorem expressionStatement_tracks :
    Tracks moved (Alike Statement.bare) (expressionStatement level)
      (expressionStatement level) := by
  refine .start fun start start' => (expression_tracks tracks).bind fun value value' same => ?_
  refine endStatement_tracks.bind fun _ _ _ => .spanFrom fun _ _ => .pure ?_
  exact congrArg (Statement.expression · default) same

theorem plainStatement_tracks :
    Tracks moved (Alike Statement.bare) (plainStatement level) (plainStatement level) := by
  refine .get fun stream => ?_
  dsimp only
  rw [TokenStream.current_kind_displaced, TokenStream.peek_kind_displaced]
  have expression := expressionStatement_tracks tracks
  cases stream.current.kind with
  | keyword word =>
    cases word
    case varWord => exact variableDeclaration_tracks tracks _
    case letWord => exact variableDeclaration_tracks tracks _
    case constWord => exact variableDeclaration_tracks tracks _
    case functionWord =>
      refine .ite (skipStatement_tracks ..) ?_
      exact (function_tracks tracks _).bind fun _ _ same => .pure (congrArg Statement.function same)
    case asyncWord => exact .ite (skipStatement_tracks ..) expression
    case returnWord => exact returns_tracks tracks
    all_goals exact expression
  | punctuator mark =>
    cases mark
    case braceOpen =>
      refine (block_tracks tracks).bind fun block block' same => .pure ?_
      unfold Alike at *
      simp only [Statement.bare, bareStatements_eq_map, same]
    case semicolon => exact .advance (.pure rfl)
    all_goals exact expression
  | _ => exact expression

theorem statement_tracks :
    Tracks moved (Alike Statement.bare) (statement level) (statement level) := by
  refine .get fun stream => ?_
  dsimp only
  rw [TokenStream.word?_displaced, TokenStream.peek_kind_displaced,
    TokenStream.isAtIdentifier_displaced]
  have plain := plainStatement_tracks tracks
  cases stream.word?.bind skippedStatement? with
  | some kind => exact .ite plain (skipStatement_tracks ..)
  | none => exact .ite (skipStatement_tracks ..) plain

end Grammar

end Parser

namespace Level

theorem ofDeeper_tracks {deeper : Option (Level Parser)}
    (below : ∀ level ∈ deeper, level.Tracks moved) :
    (ofDeeper deeper).Tracks moved where
  statement := .descend below fun _ tracks => Parser.statement_tracks tracks
  assignment := .descend below fun _ tracks => Parser.assignment_tracks tracks
  unary := .descend below fun _ tracks => Parser.unary_tracks tracks
  operators same := Parser.operators_tracks below same
  links same :=
    Parser.links_tracks below (.descend below fun _ tracks => Parser.assignment_tracks tracks) same
  members := Parser.members_tracks below

theorem above_tracks (depth : Nat) : (above depth).Tracks moved := by
  induction depth with
  | zero => exact ofDeeper_tracks moved (by simp)
  | succ depth ih => exact ofDeeper_tracks moved (by simpa using ih)

end Level

theorem Parser.program_displaced {stream rest : TokenStream} {body : List Statement}
    (read : loop (programRound (Level.above (m := Parser) maxNesting)) [] stream = .ok (body, rest))
    (before : List Statement) :
    ∃ found, loop (programRound (Level.above (m := Parser) maxNesting)) before
      (stream.displaced moved) =
        .ok (before.reverse ++ found, rest.displaced moved) ∧
      bareStatements found = bareStatements body := by
  have level := Level.above_tracks moved maxNesting
  have rounds : Tracks moved
      (fun body all => ∃ found, all = before.reverse ++ found ∧
        Alike (List.map Statement.bare) body found)
      (loop (programRound (Level.above (m := Parser) maxNesting)) [])
      (loop (programRound (Level.above (m := Parser) maxNesting)) before) := by
    refine .loop (fun body all (_ : ∃ found, all = found ++ before ∧
      Alike (List.map Statement.bare) body found) => ?_) ⟨[], rfl, rfl⟩
    obtain ⟨found, rfl, same⟩ := ‹_›
    refine .get fun stream => ?_
    rw [TokenStream.isAtEnd_displaced]
    refine .ite (.done ⟨found.reverse, List.reverse_append, same.reverse⟩) ?_
    exact level.statement.bind fun statement statement' alike =>
      .more ⟨statement' :: found, rfl, alike.cons same⟩
  obtain ⟨_, read, found, rfl, same⟩ := rounds read
  refine ⟨found, read, ?_⟩
  rw [bareStatements_eq_map, bareStatements_eq_map, same]

end EventLoop
