import EventLoop.Proofs.SkippedParts

set_option autoImplicit false

/-!
# Trees of nested parts

What the parsers of one level of nesting are relied on for, and from it what they give for blocks
and functions.
-/

namespace EventLoop

open TokenStream SyntaxTree

def deepest : Nat → Nat
  | 0 => 0
  | depth + 1 => deepest depth + depth + 4

theorem le_deepest (depth : Nat) : depth ≤ deepest depth := by
  induction depth with
  | zero => exact Nat.zero_le _
  | succ depth ih =>
    rw [deepest]
    omega

structure Level.Sound (level : Level Parser) (source : String) (depth : Nat) : Prop where
  statement : ∀ {stream : TokenStream}, stream.InSource source →
    level.statement.Reads Statement.tree source (deepest depth) stream
  assignment : ∀ {stream : TokenStream}, stream.InSource source →
    level.assignment.Reads Expr.tree source (deepest depth) stream
  unary : ∀ {stream : TokenStream}, stream.InSource source →
    level.unary.Reads Expr.tree source (deepest depth) stream
  operators : ∀ {stream : TokenStream} {height : Nat} {start : Span} {left : Expr} (minimum : Nat),
    Parser.Begun source height start left stream →
    (level.operators left minimum start).Extends source (max height (deepest depth) + depth) start
      stream
  links : ∀ {stream : TokenStream} {height : Nat} {start : Span} {operand : Expr},
    Parser.Begun source height start operand stream →
    (level.links operand start).Extends source (max (height + depth) (deepest depth)) start stream
  members : ∀ {stream : TokenStream}, stream.InSource source →
    level.members.Meets stream fun _ rest => Later source stream rest

namespace Parser

variable {source : String} {stream : TokenStream} {depth : Nat} {level : Level Parser}

def SoundBelow (deeper : Option (Level Parser)) (source : String) (depth : Nat) : Prop :=
  ∀ level, deeper = some level → ∃ less, depth = less + 1 ∧ level.Sound source less

theorem Meets.descend {β : Type} {deeper : Option (Level Parser)} {next : Level Parser → Parser β}
    {post : β → TokenStream → Prop} (below : SoundBelow deeper source depth)
    (later : ∀ level less, depth = less + 1 → level.Sound source less →
      (next level).Meets stream post) : (descend deeper >>= next).Meets stream post := by
  cases deeper with
  | none => exact meets_fail_bind (by simp) next
  | some level =>
    obtain ⟨less, same, sound⟩ := below level rfl
    exact later level less same sound

theorem blockBody_meets (sound : level.Sound source depth) (inSource : stream.InSource source)
    {place : Nat} (after : place ≤ stream.previousStop) :
    (blockBody level).Meets stream fun body rest => Closes source .braceClose stream rest ∧
      FitsAll source (deepest depth) place (body.map Statement.tree) rest.previousStop := by
  refine .loop (Listed Statement.tree source (deepest depth) place stream) ?_ inSource
    (.nil inSource after)
  intro body now inside listed
  unfold blockRound
  refine .eat (fun brace => listed.closes brace) fun _ => ?_
  simp only [meets_look]
  refine .ite (fun _ => meets_fail_bind (by simp) _) fun _ => ?_
  refine (sound.statement inside).bind ?_
  rintro statement rest ⟨moves, fits⟩
  exact ⟨moves, listed.cons moves fits⟩

theorem block_meets (sound : level.Sound source depth) (inSource : stream.InSource source) :
    (block level).Meets stream fun block rest => Ahead source stream rest ∧
      (SyntaxTree.node .statement block.2 (statementTrees block.1)).Fits source
        (deepest depth + 1) stream.current.span.start rest.previousStop := by
  unfold block
  simp only [meets_start]
  refine .expect fun brace => ?_
  have place : stream.current.span.start ≤ stream.advance.previousStop := inSource.start_le_stop
  refine (blockBody_meets sound inSource.advance place).bind ?_
  rintro body rest ⟨closes, fits⟩
  have moves := inSource.ahead_closes brace closes
  refine ⟨moves, ?_⟩
  rw [statementTrees_eq_map]
  exact moves.inSource.fits_node inSource.opens moves.start_lt fits rfl

theorem list_meets {α : Type} {view : α → SyntaxTree} {height : Nat} {item : Parser α}
    (reads : ∀ {stream : TokenStream}, stream.InSource source →
      item.Reads view source height stream) (inSource : stream.InSource source) :
    (list item).Meets stream fun items rest => Ahead source stream rest ∧
      FitsAll source height stream.current.span.start (items.map view) rest.previousStop := by
  refine .expect fun paren => ?_
  have place : stream.current.span.start ≤ stream.advance.previousStop := inSource.start_le_stop
  have listed : (loop (listRound item) [] : Parser (List α)).Meets stream.advance fun items rest =>
      Closes source .parenClose stream.advance rest ∧
        FitsAll source height stream.current.span.start (items.map view) rest.previousStop := by
    refine .loop (Listed view source height stream.current.span.start stream.advance) ?_
      inSource.advance (.nil inSource.advance place)
    intro items now inside listed
    unfold listRound
    refine .eat (fun close => listed.closes close) fun _ => (reads inside).bind ?_
    rintro value rest ⟨moves, fits⟩
    have more := listed.cons moves fits
    refine .eat (fun comma => ?_) fun _ => .expect fun close => more.closes close
    have further := more.later.inSource.ahead_mark comma
    exact ⟨moves.trans further.toLater, more.widen further.toLater⟩
  refine listed.mono ?_
  rintro items rest ⟨closes, fits⟩
  exact ⟨inSource.ahead_closes paren closes, fits⟩

theorem params_meets (inSource : stream.InSource source) :
    Meets params stream fun params rest => Ahead source stream rest ∧
      FitsAll source 0 stream.current.span.start (params.map Identifier.tree)
        rest.previousStop := by
  refine list_meets (fun inside => ?_) inSource
  unfold Reads param
  simp only [meets_isAtIdentifier]
  exact .ite (fun _ => identifier_reads inside) fun _ => meets_fail_bind (by simp) _

theorem functionName_meets (inSource : stream.InSource source) (form : FunctionForm) {place : Nat}
    (before : place ≤ stream.previousStop) :
    Meets (functionName form) stream fun id rest => Later source stream rest ∧
      FitsAll source 0 place (id.toList.map Identifier.tree) rest.previousStop := by
  unfold functionName
  simp only [meets_isAtIdentifier]
  refine .ite (fun _ => ?_) fun _ => .ite (fun _ => meets_unexpected _) fun _ => ?_
  next =>
    rw [map_eq_pure_bind]
    refine (identifier_reads inSource).bind ?_
    rintro id rest ⟨moves, fits⟩
    have place := before.trans inSource.previousStop_le
    exact ⟨moves.toLater, .singleton (fits.mono le_rfl place le_rfl)⟩
  next => exact ⟨inSource.later, .nil before⟩

theorem functionRest_meets (sound : level.Sound source depth) (inSource : stream.InSource source)
    (form : FunctionForm) {start : Span} (opens : start.Opens source)
    (before : start.start ≤ stream.previousStop) :
    (functionRest level form start).Meets stream fun node rest => Ahead source stream rest ∧
      node.tree.Fits source (deepest depth + 2) start.start rest.previousStop := by
  refine (functionName_meets inSource form before).bind ?_
  rintro id now ⟨named, name⟩
  refine (params_meets named.inSource).bind ?_
  rintro params between ⟨listed, inParens⟩
  refine (block_meets sound listed.inSource).bind ?_
  rintro block rest ⟨moves, body⟩
  have whole := named.trans_ahead (listed.trans moves.toLater)
  have further : start.start < rest.previousStop :=
    (before.trans inSource.previousStop_le).trans_lt whole.start_lt
  refine ⟨whole, moves.inSource.fits_node opens further ?_ rfl⟩
  -- The name, the parameters and the body stand one after the other.
  have body := body.mono le_rfl listed.inSource.previousStop_le le_rfl
  exact (name.mono (Nat.zero_le _) le_rfl le_rfl).append
    ((inParens.mono (Nat.zero_le _) named.inSource.previousStop_le le_rfl).append
      (.singleton body))

theorem function_reads (sound : level.Sound source depth) (inSource : stream.InSource source)
    (form : FunctionForm) :
    (function level form).Reads FunctionNode.tree source (deepest depth + 2) stream := by
  unfold Reads function
  simp only [meets_start, meets_look]
  refine .ite (fun word => ?_) fun _ => meets_unexpected_bind _ _
  simp only [meets_advance]
  have moves := inSource.ahead_keyword word
  refine (functionRest_meets sound moves.inSource form inSource.opens moves.start_lt.le).mono ?_
  rintro node rest ⟨more, fits⟩
  exact ⟨moves.trans more.toLater, fits⟩

theorem arrowParams_meets (inSource : stream.InSource source) :
    Meets arrowParams stream fun params rest => Ahead source stream rest ∧
      FitsAll source 0 stream.current.span.start (params.map Identifier.tree)
        rest.previousStop := by
  unfold arrowParams
  simp only [meets_isAt]
  refine .ite (fun _ => params_meets inSource) fun _ => (identifier_reads inSource).bind ?_
  rintro id rest ⟨moves, fits⟩
  exact ⟨moves, .singleton fits⟩

theorem arrowBody_meets (sound : level.Sound source depth) (inSource : stream.InSource source) :
    (arrowBody level).Meets stream fun body rest => Ahead source stream rest ∧
      body.tree.Fits source (deepest depth + 1) stream.current.span.start rest.previousStop := by
  unfold arrowBody
  simp only [meets_isAt]
  refine .ite (fun _ => ?_) fun _ => ?_
  next => exact (block_meets sound inSource).bind fun block rest read => read
  next =>
    rw [map_eq_pure_bind]
    refine (sound.assignment inSource).bind ?_
    rintro value rest ⟨moves, fits⟩
    exact ⟨moves, fits.mono (Nat.le_succ _) le_rfl le_rfl⟩

theorem arrowFunction_reads (sound : level.Sound source depth) (inSource : stream.InSource source) :
    (arrowFunction level).Reads FunctionNode.tree source (deepest depth + 2) stream := by
  unfold Reads arrowFunction
  simp only [meets_start]
  refine (arrowParams_meets inSource).bind ?_
  rintro params now ⟨named, listed⟩
  refine .expect fun arrow => ?_
  have marked := named.inSource.ahead_mark arrow
  refine (arrowBody_meets sound marked.inSource).bind ?_
  rintro body rest ⟨moves, fits⟩
  have whole := named.trans (marked.trans moves.toLater).toLater
  refine ⟨whole, moves.inSource.fits_node inSource.opens whole.start_lt ?_ rfl⟩
  exact (listed.mono (Nat.zero_le _) le_rfl marked.stop_le).concat marked.inSource fits

end Parser

end EventLoop
