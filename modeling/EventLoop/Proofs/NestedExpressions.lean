import EventLoop.Parsing.Statements
import EventLoop.Proofs.NestedFunctions

set_option autoImplicit false

namespace EventLoop.Parser

open TokenStream SyntaxTree

variable {source : String} {stream rest : TokenStream} {depth height : Nat} {level : Level Parser}
  {start : Span}

theorem Meets.unsupported (inSource : stream.InSource source) (moves : Ahead source stream rest)
    (some : 1 ≤ height) (kind : NodeKind) :
    Meets (unsupported kind stream.current.span) rest fun value rest => Ahead source stream rest ∧
      value.tree.Fits source height stream.current.span.start rest.previousStop := by
  refine ⟨moves, SyntaxTree.Fits.mono ?_ some le_rfl le_rfl⟩
  exact moves.inSource.fits_node inSource.opens moves.start_lt (.nil moves.start_lt.le) rfl

theorem expression_reads (sound : level.Sound source depth) (inSource : stream.InSource source) :
    (expression level).Reads Expr.tree source (deepest depth + 1) stream := by
  unfold Reads expression
  simp only [meets_start]
  refine (sound.assignment inSource).bind ?_
  rintro first second ⟨moves, fits⟩
  simp only [meets_isAt]
  refine .ite (fun _ => ?_) fun _ => ⟨moves, fits.mono (Nat.le_succ _) le_rfl le_rfl⟩
  -- The round keeps the items that were read in reverse, each behind those before it.
  have items : Meets (loop (sequenceRound level) [first]) second fun items rest =>
      Later source second rest ∧ FitsAll source (deepest depth) stream.current.span.start
        (items.map Expr.tree) rest.previousStop := by
    refine .loop (Listed Expr.tree source (deepest depth) stream.current.span.start second) ?_
      moves.inSource ⟨moves.inSource.later, .singleton fits⟩
    intro items now inside listed
    unfold sequenceRound
    refine .eat (fun comma => ?_) fun _ => ⟨listed.later, listed.fits⟩
    have marked := inside.ahead_mark comma
    refine (sound.assignment marked.inSource).bind ?_
    rintro item rest ⟨more, fits⟩
    exact ⟨(marked.trans more.toLater), (listed.widen marked.toLater).cons more fits⟩
  refine items.bind ?_
  rintro items rest ⟨steps, fits⟩
  have whole := moves.trans steps
  refine ⟨whole, ?_⟩
  rw [Expr.tree, exprTrees_eq_map]
  exact whole.inSource.fits_node inSource.opens whole.start_lt fits rfl

theorem argument_reads {assignment : Parser Expr}
    (reads : ∀ {stream : TokenStream}, stream.InSource source →
      assignment.Reads Expr.tree source height stream) (inSource : stream.InSource source) :
    (argument assignment).Reads Expr.tree source height stream := by
  unfold Reads argument
  simp only [meets_start]
  refine .eat (fun ellipsis => ?_) fun _ => reads inSource
  have marked := inSource.ahead_mark ellipsis
  refine (reads marked.inSource).discard ?_
  rintro value rest ⟨moves, fits⟩
  exact .unsupported inSource (marked.trans moves.toLater) (value.one_le_height.trans fits.low) _

theorem arguments_meets {assignment : Parser Expr}
    (reads : ∀ {stream : TokenStream}, stream.InSource source →
      assignment.Reads Expr.tree source height stream) (inSource : stream.InSource source) :
    (arguments assignment).Meets stream fun arguments rest => Ahead source stream rest ∧
      FitsAll source height stream.current.span.start (arguments.map Expr.tree)
        rest.previousStop :=
  list_meets (fun inside => argument_reads reads inside) inSource

theorem literal_reads (inSource : stream.InSource source)
    (inside : stream.current.kind.isEnd = false)
    (value : Literal) :
    Reads (literal value) Expr.tree source 1 stream := by
  refine ⟨inSource.ahead_advance inside, ?_⟩
  exact .node (inSource.marks_current inside) (.nil inSource.start_le_stop) rfl le_rfl

theorem group_reads (inSource : stream.InSource source) (kind : NodeKind) :
    Reads (group kind stream.current.span) Expr.tree source 1 stream :=
  (skipGroup_ahead inSource).bind fun _ _ moves => .unsupported inSource moves le_rfl kind

theorem wordOperand_reads (inSource : stream.InSource source) {name : String}
    (word : stream.current.kind = .identifier name) :
    Reads (wordOperand name) Expr.tree source 1 stream := by
  unfold Reads wordOperand
  simp only [meets_start]
  split
  next =>
    refine (classHead_later inSource).bind fun _ brace before => ?_
    refine (skipGroup_ahead before.inSource).bind fun _ rest moves => ?_
    exact .unsupported inSource (before.trans_ahead moves) le_rfl _
  next =>
    simp only [meets_advance]
    have moves := inSource.ahead_advance (by rw [word]; rfl)
    exact .unsupported inSource moves le_rfl _
  next =>
    refine (identifier_reads inSource).bind ?_
    rintro id rest ⟨moves, fits⟩
    exact ⟨moves, fits.wrap rfl⟩

theorem functionExpr_fits {node : FunctionNode} {first last : Nat}
    (fits : node.tree.Fits source height first last) :
    (Expr.function node).tree.Fits source (height + 1) first last := by
  rw [Expr.tree, ← node.span_tree]
  exact fits.wrap rfl

theorem functionExpression_reads (sound : level.Sound source depth)
    (inSource : stream.InSource source) (word : stream.current.kind = .keyword .functionWord) :
    (functionExpression level).Reads Expr.tree source (deepest depth + 3) stream := by
  unfold Reads functionExpression
  simp only [meets_start, meets_advance]
  have taken := inSource.ahead_advance (by rw [word]; rfl)
  refine .eat (fun star => ?_) fun _ => ?_
  next =>
    have marked := taken.inSource.ahead_mark star
    have place := taken.start_lt.le.trans marked.stop_le
    refine (functionRest_meets sound marked.inSource .expression inSource.opens place).discard ?_
    rintro node rest ⟨moves, -⟩
    have whole := taken.trans (marked.trans moves.toLater).toLater
    exact .unsupported inSource whole (by omega) _
  next =>
    refine (functionRest_meets sound taken.inSource .expression inSource.opens
      taken.start_lt.le).bind ?_
    rintro node rest ⟨moves, fits⟩
    exact ⟨taken.trans moves.toLater, functionExpr_fits fits⟩

theorem parenthesised_reads (sound : level.Sound source depth) (inSource : stream.InSource source)
    (paren : stream.isAt .parenOpen) :
    (parenthesised level).Reads Expr.tree source (deepest depth + 1) stream := by
  unfold Reads parenthesised
  simp only [meets_advance]
  refine (expression_reads sound inSource.advance).bind ?_
  rintro inner close ⟨moves, fits⟩
  refine .expect fun found => ?_
  have closes : Closes source .parenClose stream.advance close.advance :=
    ⟨close, moves.toLater, found, rfl⟩
  -- The expression keeps its own span, inside the parentheses.
  refine ⟨inSource.ahead_closes paren closes, fits.mono le_rfl ?_ ?_⟩
  · exact inSource.later_advance.start_le
  · exact moves.inSource.later_advance.stop_le

theorem regexp_reads (inSource : stream.InSource source) (slash : stream.current.kind.isSlash) :
    Reads regexp Expr.tree source 1 stream := by
  unfold Reads regexp
  simp only [meets_start, meets_rescan, meets_look]
  split
  next => exact meets_fail (by simp)
  next =>
    simp only [meets_advance]
    exact .unsupported inSource (inSource.ahead_rescan slash) le_rfl _

theorem primary_reads (sound : level.Sound source depth) (inSource : stream.InSource source) :
    (primary level).Reads Expr.tree source (deepest depth + 3) stream := by
  unfold Reads primary
  simp only [meets_start, meets_look]
  split
  next kind => exact (literal_reads inSource (by rw [kind]; rfl) _).mono (by omega)
  next kind => exact (literal_reads inSource (by rw [kind]; rfl) _).mono (by omega)
  next kind => exact (literal_reads inSource (by rw [kind]; rfl) _).mono (by omega)
  next kind => exact (literal_reads inSource (by rw [kind]; rfl) _).mono (by omega)
  next kind => exact (literal_reads inSource (by rw [kind]; rfl) _).mono (by omega)
  next word => exact (wordOperand_reads inSource word).mono (by omega)
  next word => exact functionExpression_reads sound inSource word
  next paren => exact (parenthesised_reads sound inSource (isAt_of_kind paren)).mono (by omega)
  next => exact (group_reads inSource _).mono (by omega)
  next => exact (group_reads inSource _).mono (by omega)
  next slash => exact (regexp_reads inSource (by rw [slash]; rfl)).mono (by omega)
  next slash => exact (regexp_reads inSource (by rw [slash]; rfl)).mono (by omega)
  next kind =>
    simp only [meets_advance]
    have moves := inSource.ahead_advance (by rw [kind]; rfl)
    exact .unsupported inSource moves (by omega) _
  next => exact meets_unexpected _

variable {deeper : Option (Level Parser)}

theorem members_later (below : SoundBelow deeper source depth) (inSource : stream.InSource source) :
    (members deeper).Meets stream fun _ rest => Later source stream rest := by
  refine .loop (fun _ now => Later source stream now) ?_ inSource inSource.later
  intro _ now inside steps
  unfold membersRound
  refine .eat (fun dot => ?_) fun _ => ?_
  next =>
    have marked := steps.trans_ahead (inside.ahead_mark dot)
    refine .descend below fun level less _ sound => ?_
    refine (propertyName_reads marked.inSource).discard ?_
    rintro _ between ⟨named, _⟩
    refine (sound.members named.inSource).bind fun _ rest further => ?_
    exact marked.toLater.trans (named.toLater.trans further)
  next =>
    simp only [meets_isAt]
    refine .ite (fun bracket => ?_) fun _ => steps
    refine (skipGroup_ahead inside).bind fun _ rest moves => ?_
    exact ⟨moves, steps.trans moves.toLater⟩

theorem optionalLink_later {assignment : Parser Expr}
    (reads : ∀ {stream : TokenStream}, stream.InSource source →
      assignment.Reads Expr.tree source height stream) (inSource : stream.InSource source) :
    (optionalLink assignment).Meets stream fun _ rest => Later source stream rest := by
  unfold optionalLink
  simp only [meets_isAt]
  refine .ite (fun _ => ?_) fun _ => .ite (fun bracket => ?_) fun _ => ?_
  next =>
    rw [← bind_pure (discard _)]
    refine (arguments_meets reads inSource).discard ?_
    rintro _ _ ⟨moves, _⟩
    exact moves.toLater
  next => exact (skipGroup_ahead inSource).mono fun _ _ moves => moves.toLater
  next =>
    rw [← bind_pure (discard _)]
    refine (propertyName_reads inSource).discard ?_
    rintro _ _ ⟨moves, _⟩
    exact moves.toLater

theorem links_extends (below : SoundBelow deeper source depth) {assignment : Parser Expr}
    (reads : ∀ {stream : TokenStream}, stream.InSource source →
      assignment.Reads Expr.tree source (deepest depth) stream) {operand : Expr}
    (begun : Begun source height start operand stream) :
    (links deeper assignment operand start).Extends source
      (max (height + depth) (deepest depth)) start stream := by
  refine .loop (fun operand now => Later source stream now ∧ Begun source height start operand now)
    ?_ begun.inSource begun.same
  rintro operand now inside ⟨steps, begun⟩
  -- What is not run replaces the operand, and the chain goes on at the same level.
  have replaced (kind : NodeKind) {rest : TokenStream} (moves : Ahead source now rest) :
      Ahead source now rest ∧ Later source stream rest ∧
        Begun source height start (.unsupported kind (rest.spanFrom start)) rest :=
    ⟨moves, steps.trans moves.toLater, begun.unsupported moves.toLater kind⟩
  -- What is run becomes part of a node, and the rest of the chain is read one level deeper.
  have linked {level : Level Parser} {less grown : Nat} (same : depth = less + 1)
      (sound : level.Sound source less) (low : grown ≤ max height (deepest less)) {node : Expr}
      {between : TokenStream} (taken : Later source now between)
      (grows : Begun source (grown + 1) start node between) :
      (level.links node start).Meets between fun value rest => Later source stream rest ∧
        Begun source (max (height + depth) (deepest depth)) start value rest := by
    refine (sound.links grows).mono ?_
    rintro value rest ⟨further, done⟩
    refine ⟨steps.trans (taken.trans further), done.mono ?_⟩
    rw [same, deepest]
    omega
  unfold linksRound
  simp only [meets_look]
  split
  next dot =>
    refine .descend below fun level less same sound => ?_
    simp only [meets_advance]
    have marked := inside.ahead_mark (isAt_of_kind dot)
    refine (propertyName_reads marked.inSource).bind ?_
    rintro property between ⟨named, fits⟩
    simp only [meets_spanFrom]
    have taken := marked.trans named.toLater
    have member : Begun source (max height 0 + 1) start
        (.member operand property (between.spanFrom start)) between :=
      begun.grow taken.toLater rfl (begun.children marked.toLater fits)
    exact (linked same sound (by omega) taken.toLater member).bind fun _ _ post => post
  next paren =>
    refine .descend below fun level less same sound => ?_
    refine (arguments_meets sound.assignment inside).bind ?_
    rintro arguments between ⟨taken, fits⟩
    simp only [meets_spanFrom]
    have call : Begun source (max height (deepest less) + 1) start
        (.call operand arguments (between.spanFrom start)) between := by
      refine begun.grow taken.toLater rfl ?_
      rw [exprTrees_eq_map]
      exact .cons (begun.fits.mono (Nat.le_max_left ..) le_rfl le_rfl)
        (fits.mono (Nat.le_max_right ..) inside.previousStop_le le_rfl)
    exact (linked same sound le_rfl taken.toLater call).bind fun _ _ post => post
  next chain =>
    simp only [meets_advance]
    have marked := inside.ahead_mark (isAt_of_kind chain)
    refine (optionalLink_later reads marked.inSource).bind fun _ rest further => ?_
    simp only [meets_unsupported_bind]
    exact replaced _ (marked.trans further)
  next bracket =>
    unfold group
    rw [bind_assoc]
    refine (skipGroup_ahead inside).bind fun _ rest moves => ?_
    exact replaced _ moves
  next template =>
    simp only [meets_advance, meets_unsupported_bind]
    exact replaced _ (inside.ahead_advance (by rw [template]; rfl))
  next => exact ⟨steps, begun.mono (by omega)⟩

theorem leftHandSide_reads (sound : level.Sound source depth) (inSource : stream.InSource source) :
    (leftHandSide level).Reads Expr.tree source (deepest depth + depth + 3) stream := by
  have linked (operand : Expr) (now : TokenStream) (moves : Ahead source stream now)
      (fits : operand.tree.Fits source (deepest depth + 3) stream.current.span.start
        now.previousStop) :
      (level.links operand stream.current.span).Meets now fun value rest =>
        Ahead source stream rest ∧ value.tree.Fits source (deepest depth + depth + 3)
          stream.current.span.start rest.previousStop :=
    (sound.links ⟨moves.inSource, inSource.opens, fits⟩).whole moves (by omega)
  unfold Reads leftHandSide
  simp only [meets_start, meets_look]
  refine .ite (fun word => ?_) fun _ => ?_
  next =>
    simp only [meets_advance]
    have taken := inSource.ahead_keyword word
    refine (primary_reads sound taken.inSource).discard ?_
    rintro _ now ⟨callee, _⟩
    refine (sound.members callee.inSource).bind fun _ now members => ?_
    have named := taken.trans (callee.trans members).toLater
    -- With or without arguments, what is created is not run, and links may follow it.
    have created (now : TokenStream) (moves : Ahead source stream now) :=
      (Meets.unsupported inSource moves (Nat.succ_pos _) .newExpression).bind
        fun operand now read => linked operand now read.1 read.2
    simp only [meets_isAt]
    refine .ite (fun _ => ?_) fun _ => created now named
    refine (arguments_meets sound.assignment named.inSource).discard ?_
    rintro _ rest ⟨moves, _⟩
    exact created rest (named.trans moves.toLater)
  next =>
    refine (primary_reads sound inSource).bind ?_
    rintro operand now ⟨moves, fits⟩
    exact linked operand now moves fits

theorem target_fits {target : Identifier} {first last : Nat}
    (fits : (Expr.identifier target).tree.Fits source height first last) :
    target.tree.Fits source 0 first last :=
  SyntaxTree.Fits.unwrap fits

theorem update_extends (op : UpdateOp) (order : UpdateOrder) {argument : Expr} {now : TokenStream}
    (begun : Begun source height start argument now) (steps : Later source now stream) :
    Meets (update op order argument start) stream fun value rest =>
      rest = stream ∧ Begun source height start value stream := by
  have some := argument.one_le_height.trans begun.fits.low
  unfold update
  split
  next target =>
    have fits := (target_fits begun.fits).widen steps
    exact ⟨rfl, (begun.grow steps rfl (.singleton fits)).mono some⟩
  next => exact ⟨rfl, begun.unsupported steps _⟩

theorem postfixed_reads (sound : level.Sound source depth) (inSource : stream.InSource source) :
    (postfixed level stream.current.span).Reads Expr.tree source (deepest depth + depth + 3)
      stream := by
  unfold Reads postfixed
  refine (leftHandSide_reads sound inSource).bind ?_
  rintro operand now ⟨moves, fits⟩
  simp only [meets_look]
  split
  next op found =>
    refine .ite (fun _ => ⟨moves, fits⟩) fun _ => ?_
    simp only [meets_advance]
    have inside := TokenKind.isEnd_of_eq_some found rfl
    have taken := moves.inSource.ahead_advance inside
    refine (update_extends op _ ⟨moves.inSource, inSource.opens, fits⟩ taken.toLater).mono ?_
    rintro value _ ⟨rfl, begun⟩
    exact ⟨moves.trans taken.toLater, begun.fits⟩
  next => exact ⟨moves, fits⟩

theorem unary_reads (sound : level.Sound source depth) (inSource : stream.InSource source) :
    (unary level).Reads Expr.tree source (deepest (depth + 1)) stream := by
  unfold Reads unary
  simp only [meets_start, meets_look]
  split
  -- An operator, an update in front of its target, a word that is not run, and all else.
  next op found =>
    simp only [meets_advance]
    have inside := TokenKind.isEnd_of_eq_some found rfl
    have taken := inSource.ahead_advance inside
    refine (sound.unary taken.inSource).bind ?_
    rintro argument rest ⟨moves, fits⟩
    have begun : Begun source (deepest depth) stream.current.span argument rest :=
      ⟨moves.inSource, inSource.opens, fits.mono le_rfl taken.start_le le_rfl⟩
    have node : Begun source (deepest depth + 1) stream.current.span
        (.unary op argument (rest.spanFrom stream.current.span)) rest :=
      begun.grow moves.inSource.later rfl (.singleton begun.fits)
    exact ⟨taken.trans moves.toLater, node.fits.mono (by rw [deepest]; omega) le_rfl le_rfl⟩
  next op _ found =>
    simp only [meets_advance]
    have inside := TokenKind.isEnd_of_eq_some found rfl
    have taken := inSource.ahead_advance inside
    refine (sound.unary taken.inSource).bind ?_
    rintro argument rest ⟨moves, fits⟩
    have begun : Begun source (deepest depth) stream.current.span argument rest :=
      ⟨moves.inSource, inSource.opens, fits.mono le_rfl taken.start_le le_rfl⟩
    refine (update_extends op _ begun moves.inSource.later).mono ?_
    rintro value _ ⟨rfl, begun⟩
    exact ⟨taken.trans moves.toLater, begun.fits.mono (by rw [deepest]; omega) le_rfl le_rfl⟩
  next =>
    refine .ite (fun word => ?_) fun _ => ?_
    next =>
      simp only [meets_advance]
      have taken := inSource.ahead_keyword word
      refine (sound.unary taken.inSource).discard ?_
      rintro _ rest ⟨moves, _⟩
      exact .unsupported inSource (taken.trans moves.toLater) (by rw [deepest]; omega) _
    next => exact (postfixed_reads sound inSource).mono (by rw [deepest]; omega)

theorem binary_reads (sound : level.Sound source depth) (inSource : stream.InSource source)
    (minimum : Nat) :
    (binary level minimum).Reads Expr.tree source (deepest depth + depth) stream := by
  unfold Reads binary
  simp only [meets_start]
  refine (sound.unary inSource).bind ?_
  rintro left now ⟨moves, fits⟩
  exact (sound.operators minimum ⟨moves.inSource, inSource.opens, fits⟩).whole moves (by omega)

theorem operators_extends (below : SoundBelow deeper source depth) {left : Expr}
    (begun : Begun source height start left stream) (minimum : Nat) :
    (operators deeper left minimum start).Extends source (max height (deepest depth) + depth) start
      stream := by
  have done : Later source stream stream ∧
      Begun source (max height (deepest depth) + depth) start left stream :=
    (begun.mono (by omega)).same
  unfold Extends operators
  simp only [meets_look]
  split
  next => exact done
  next op found =>
    refine .ite (fun _ => done) fun _ => ?_
    refine .descend below fun level less same sound => ?_
    simp only [meets_advance]
    have inside := TokenKind.isEnd_of_eq_some found rfl
    have taken := begun.inSource.ahead_advance inside
    refine (binary_reads sound taken.inSource _).bind ?_
    rintro right now ⟨moves, fits⟩
    simp only [meets_spanFrom]
    have joined := taken.trans moves.toLater
    -- The node of the operator is one higher than its operands, and what follows is read one level
    -- deeper.
    have applied : Begun source (max height (deepest less + less) + 1) start
        (op.apply left right (now.spanFrom start)) now := by
      cases op <;> exact begun.grow joined.toLater rfl (begun.children taken.toLater fits)
    refine (sound.operators minimum applied).mono ?_
    rintro value rest ⟨steps, begun⟩
    refine ⟨joined.toLater.trans steps, begun.mono ?_⟩
    rw [same, deepest]
    omega

theorem conditionalTail_extends (sound : level.Sound source depth) {test : Expr}
    (begun : Begun source height start test stream) :
    (conditionalTail level test start).Extends source (max height (deepest depth) + 1) start
      stream := by
  unfold Extends conditionalTail
  refine .eat (fun question => ?_) fun _ => (begun.mono (by omega)).same
  have marked := begun.inSource.ahead_mark question
  refine (sound.assignment marked.inSource).bind ?_
  rintro consequent now ⟨moves, fits⟩
  refine .expect fun colon => ?_
  have between := moves.inSource.ahead_mark colon
  refine (sound.assignment between.inSource).bind ?_
  rintro alternate rest ⟨more, last⟩
  have steps := (marked.trans (moves.trans (between.trans more.toLater).toLater).toLater).toLater
  refine ⟨steps, begun.grow steps rfl ?_⟩
  have both := (begun.children marked.toLater fits).widen between.toLater
  exact both.concat between.inSource (last.mono (Nat.le_max_right ..) le_rfl le_rfl)

theorem assignmentTail_extends (sound : level.Sound source depth) {left : Expr}
    (begun : Begun source height start left stream) :
    (assignmentTail level left start).Extends source (max height (deepest depth + 1)) start
      stream := by
  unfold Extends assignmentTail
  simp only [meets_look]
  split
  next => exact (begun.mono (by omega)).same
  next op found =>
    simp only [meets_advance]
    have inside := TokenKind.isEnd_of_eq_some found rfl
    have taken := begun.inSource.ahead_advance inside
    refine (sound.assignment taken.inSource).bind ?_
    rintro value rest ⟨moves, fits⟩
    have steps := (taken.trans moves.toLater).toLater
    split
    next target =>
      have named := (target_fits begun.fits).mono (Nat.zero_le (deepest depth)) le_rfl le_rfl
      have children := (FitsAll.singleton named).widen taken.toLater |>.concat taken.inSource fits
      exact ⟨steps, (begun.grow steps rfl children).mono (by omega)⟩
    next => exact ⟨steps, (begun.unsupported steps _).mono (by omega)⟩

theorem tails_extends (sound : level.Sound source depth) {test : Expr}
    (begun : Begun source height start test stream) :
    (tails level test start).Extends source (max height (deepest depth) + 1) start stream := by
  refine (conditionalTail_extends sound begun).bind ?_
  rintro left now ⟨steps, begun⟩
  refine (assignmentTail_extends sound begun).mono ?_
  rintro value rest ⟨more, begun⟩
  exact ⟨steps.trans more, begun.mono (by omega)⟩

theorem asyncExpression_reads (sound : level.Sound source depth) (inSource : stream.InSource source)
    (word : stream.current.kind.isKeyword .asyncWord) :
    (asyncExpression level stream.current.span).Reads Expr.tree source (deepest (depth + 1))
      stream := by
  unfold Reads asyncExpression
  simp only [meets_advance, meets_look]
  have taken := inSource.ahead_keyword word
  refine .ite (fun _ => ?_) fun _ => .ite (fun _ => ?_) fun _ => ?_
  next =>
    refine (function_reads sound taken.inSource .expression).discard ?_
    rintro _ rest ⟨moves, _⟩
    exact .unsupported inSource (taken.trans moves.toLater) (by rw [deepest]; omega) _
  next =>
    refine (arrowFunction_reads sound taken.inSource).discard ?_
    rintro _ rest ⟨moves, _⟩
    exact .unsupported inSource (taken.trans moves.toLater) (by rw [deepest]; omega) _
  next =>
    -- The word is a plain name here, and starts a chain like any other operand.
    have spelled : stream.current.kind.spelling? = some Keyword.asyncWord.text.toList := by
      rw [TokenKind.eq_of_isKeyword word, Keyword.text, String.toList_ofList]
      rfl
    rw [inSource.spanFrom_advance]
    have name := (word_reads inSource spelled).2
    have begun : Begun source 1 stream.current.span
        (.identifier ⟨Keyword.asyncWord.text, stream.current.span⟩) stream.advance :=
      ⟨taken.inSource, inSource.opens, name.wrap rfl⟩
    refine (sound.links begun).bind ?_
    rintro operand now ⟨linked, begun⟩
    refine (sound.operators 0 begun).bind ?_
    rintro test later ⟨joined, begun⟩
    refine (tails_extends sound begun).whole (taken.trans (linked.trans joined)) ?_
    have bound := le_deepest depth
    rw [deepest]
    omega

theorem assignment_reads (sound : level.Sound source depth) (inSource : stream.InSource source) :
    (assignment level).Reads Expr.tree source (deepest (depth + 1)) stream := by
  unfold Reads assignment
  simp only [meets_look]
  refine .ite (fun _ => ?_) fun _ => .ite (fun word => ?_) fun _ => ?_
  next =>
    refine (arrowFunction_reads sound inSource).bind ?_
    rintro node rest ⟨moves, fits⟩
    exact ⟨moves, (functionExpr_fits fits).mono (by rw [deepest]; omega) le_rfl le_rfl⟩
  next => exact asyncExpression_reads sound inSource word
  next =>
    refine (binary_reads sound inSource 0).bind ?_
    rintro test now ⟨moves, fits⟩
    refine (tails_extends sound ⟨moves.inSource, inSource.opens, fits⟩).whole moves ?_
    rw [deepest]
    omega

end EventLoop.Parser
