import EventLoop.Proofs.Reparsing

set_option autoImplicit false

/-!
# Operators of all precedences

A chain of names with an operator between any two has exactly one tree in which every operand binds
at least as tightly as the operator that it belongs to, with powers grouped to the right and all
others to the left.
-/

namespace EventLoop

open EventLoop.Parser (bind_ok look_bind spanFrom_bind advance_bind descend_bind unary_above
  binary_of_unary assignment_of_binary tails_of_ends)

namespace Expr

def operator? : Expr → Option Operator
  | .binary op .. => some (.binary op)
  | .logical op .. => some (.logical op)
  | _ => none

/-- The names and operators of the tree from left to right: a first name, and then each operator
with the name after it. -/
inductive InOrder : Expr → String → List (Operator × String) → Prop where
  | name (id : Identifier) : InOrder (.identifier id) id.name []
  | operator (op : Operator) {left right : Expr} (span : Span) {first second : String}
      {before behind : List (Operator × String)} (ahead : InOrder left first before)
      (after : InOrder right second behind) :
      InOrder (op.apply left right span) first (before ++ (op, second) :: behind)

def Tighter (op : Operator) (left right : Expr) : Prop :=
  (∀ inner ∈ left.operator?,
    if op = .binary .power then op.precedence < inner.precedence
    else op.precedence ≤ inner.precedence) ∧
  (∀ inner ∈ right.operator?,
    if op = .binary .power then op.precedence ≤ inner.precedence
    else op.precedence < inner.precedence)

/-- Every operator in the tree has operands that bind more tightly. -/
def Grouped : Expr → Prop
  | .binary op left right _ => Tighter (.binary op) left right ∧ left.Grouped ∧ right.Grouped
  | .logical op left right _ => Tighter (.logical op) left right ∧ left.Grouped ∧ right.Grouped
  | _ => True

@[simp]
theorem operator?_apply (op : Operator) (left right : Expr) (span : Span) :
    (op.apply left right span).operator? = some op := by
  cases op <;> rfl

theorem grouped_apply {op : Operator} {left right : Expr} {span : Span} :
    (op.apply left right span).Grouped ↔ Tighter op left right ∧ left.Grouped ∧ right.Grouped := by
  cases op <;> rfl

theorem bare_apply (op : Operator) (left right : Expr) (span : Span) :
    (op.apply left right span).bare = op.apply left.bare right.bare default := by
  cases op <;> simp [Operator.apply, bare]

theorem operator?_bare (expr : Expr) : expr.bare.operator? = expr.operator? := by
  cases expr <;> simp [bare, operator?]

theorem operator?_eq_of_bare {value expr : Expr} (same : value.bare = expr.bare) :
    value.operator? = expr.operator? := by
  rw [← operator?_bare, same, operator?_bare]

theorem exists_apply_of_bare {value left right : Expr} {op : Operator} {span : Span}
    (same : value.bare = (op.apply left right span).bare) :
    ∃ first second found, value = op.apply first second found ∧ first.bare = left.bare ∧
      second.bare = right.bare := by
  rw [bare_apply] at same
  cases op <;> cases value <;> simp_all [bare, Operator.apply]

theorem InOrder.of_bare {value expr : Expr} {first : String} {rest : List (Operator × String)}
    (inOrder : InOrder expr first rest) (grouped : expr.Grouped) (same : value.bare = expr.bare) :
    InOrder value first rest ∧ value.Grouped := by
  induction inOrder generalizing value with
  | name id =>
    obtain ⟨found, rfl, sameId⟩ := exists_identifier_of_bare same
    have name : found.name = id.name := (congrArg Identifier.name sameId :)
    exact ⟨name ▸ .name found, trivial⟩
  | operator op span ahead after ihLeft ihRight =>
    obtain ⟨tighter, left, right⟩ := grouped_apply.mp grouped
    obtain ⟨first, second, found, rfl, sameLeft, sameRight⟩ := exists_apply_of_bare same
    obtain ⟨ahead, left⟩ := ihLeft left sameLeft
    obtain ⟨after, right⟩ := ihRight right sameRight
    refine ⟨.operator op found ahead after, grouped_apply.mpr ⟨?_, left, right⟩⟩
    rwa [Tighter, operator?_eq_of_bare sameLeft, operator?_eq_of_bare sameRight]

end Expr

namespace Operator

theorem precedence_le (op : Operator) : op.precedence ≤ 14 := by
  rcases op with op | op <;> cases op <;> decide

theorem precedence_eq_iff (op : Operator) : op.precedence = 14 ↔ op = .binary .power := by
  rcases op with op | op <;> cases op <;> decide

theorem rightMinimum_eq (op : Operator) :
    op.rightMinimum = if op = .binary .power then op.precedence else op.precedence + 1 := by
  simp only [rightMinimum, groupsRight, beq_iff_eq]

theorem precedence_lt_rightMinimum_iff (op inner : Operator) :
    op.precedence < inner.rightMinimum ↔
      if op = .binary .power then op.precedence < inner.precedence
      else op.precedence ≤ inner.precedence := by
  have power := op.precedence_eq_iff
  have innerPower := inner.precedence_eq_iff
  have high := op.precedence_le
  have innerHigh := inner.precedence_le
  rw [rightMinimum_eq]
  split <;> split <;> grind

theorem rightMinimum_le_iff (op inner : Operator) :
    op.rightMinimum ≤ inner.precedence ↔
      if op = .binary .power then op.precedence ≤ inner.precedence
      else op.precedence < inner.precedence := by
  rw [rightMinimum_eq]
  split <;> rfl

theorem precedence_le_rightMinimum (op : Operator) : op.precedence ≤ op.rightMinimum := by
  rw [rightMinimum_eq]
  split <;> omega

end Operator

namespace Expr

theorem tighter_iff {op : Operator} {left right : Expr} :
    Tighter op left right ↔
      (∀ inner ∈ left.operator?, op.precedence < inner.rightMinimum) ∧
      ∀ inner ∈ right.operator?, op.rightMinimum ≤ inner.precedence := by
  simp only [Tighter, Operator.precedence_lt_rightMinimum_iff, Operator.rightMinimum_le_iff]

theorem InOrder.extend {expr : Expr} {first : String} {rest : List (Operator × String)}
    (inOrder : InOrder expr first rest) (grouped : expr.Grouped) (op : Operator) (name : String) :
    ∃ value, InOrder value first (rest ++ [(op, name)]) ∧ value.Grouped ∧
      (value.operator? = expr.operator? ∨ value.operator? = some op) := by
  have leaf : InOrder (.identifier ⟨name, default⟩) name [] := .name _
  induction inOrder with
  | name id =>
    refine ⟨op.apply (.identifier id) (.identifier ⟨name, default⟩) default,
      .operator op default (.name id) leaf, ?_, .inr (operator?_apply ..)⟩
    exact grouped_apply.mpr ⟨tighter_iff.mpr ⟨nofun, nofun⟩, trivial, trivial⟩
  | @operator outer left right span first second before behind ahead after _ ih =>
    obtain ⟨tighter, leftGrouped, rightGrouped⟩ := grouped_apply.mp grouped
    -- The operator belongs to the right operand exactly if the outer one leaves it there.
    by_cases inside : outer.rightMinimum ≤ op.precedence
    next =>
      obtain ⟨value, after, valueGrouped, root⟩ := ih rightGrouped
      refine ⟨outer.apply left value span, ?_, ?_, .inl (by simp)⟩
      · simpa using InOrder.operator outer span ahead after
      · obtain ⟨leftTighter, rightTighter⟩ := tighter_iff.mp tighter
        refine grouped_apply.mpr ⟨tighter_iff.mpr ⟨leftTighter, ?_⟩, leftGrouped, valueGrouped⟩
        intro inner found
        obtain root | root := root <;> rw [root] at found
        next => exact rightTighter inner found
        next => exact Option.some.inj found ▸ inside
    next =>
      refine ⟨op.apply (outer.apply left right span) (.identifier ⟨name, default⟩) default,
        .operator op default (.operator outer span ahead after) leaf, ?_,
        .inr (operator?_apply ..)⟩
      refine grouped_apply.mpr ⟨tighter_iff.mpr ⟨?_, nofun⟩, grouped, trivial⟩
      intro inner found
      rw [operator?_apply] at found
      exact Option.some.inj found ▸ not_le.mp inside

theorem exists_grouped (first : String) (rest : List (Operator × String)) :
    ∃ expr, InOrder expr first rest ∧ expr.Grouped := by
  induction rest using List.reverseRecOn with
  | nil => exact ⟨_, .name ⟨first, default⟩, trivial⟩
  | append_singleton rest link ih =>
    obtain ⟨expr, inOrder, grouped⟩ := ih
    obtain ⟨value, inOrder, grouped, -⟩ := inOrder.extend grouped link.1 link.2
    exact ⟨value, inOrder, grouped⟩

end Expr

def linksText : List (Operator × String) → String
  | [] => ""
  | (op, name) :: rest => " " ++ op.text ++ " " ++ name ++ linksText rest

def chainText (first : String) (rest : List (Operator × String)) : String :=
  first ++ linksText rest

def linkKinds (rest : List (Operator × String)) : List TokenKind :=
  rest.flatMap fun (op, name) => [op.token, .identifier name]

def chainKinds (first : String) (rest : List (Operator × String)) : List TokenKind :=
  .identifier first :: linkKinds rest

theorem chainKinds_append (first : String) (before : List (Operator × String)) (op : Operator)
    (second : String) (behind : List (Operator × String)) :
    chainKinds first (before ++ (op, second) :: behind) =
      chainKinds first before ++ op.token :: chainKinds second behind := by
  simp [chainKinds, linkKinds]

theorem lexes_chain {first : String} {rest : List (Operator × String)} (name : IsName first)
    (names : ∀ link ∈ rest, IsName link.2) {after : List Char} (stop : EndsWord after) :
    Lexes (chainText first rest).toList (chainKinds first rest) after := by
  induction rest generalizing first with
  | nil => simpa [chainText, linksText, chainKinds, linkKinds] using name.lexes stop
  | cons link rest ih =>
    obtain ⟨second, others⟩ := List.forall_mem_cons.mp names
    have read := Lexes.infixed link.1.spelled (fun _ => name.lexes) (ih second others)
    simpa [chainText, linksText, chainKinds, linkKinds] using read

theorem tokens_chain {first : String} {rest : List (Operator × String)} (name : IsName first)
    (names : ∀ link ∈ rest, IsName link.2) :
    (tokens (chainText first rest ++ ";")).map (·.kind) =
        (chainKinds first rest ++ [.punctuator .semicolon]) ++ [.endOfInput] ∧
      ∀ token ∈ tokens (chainText first rest ++ ";"), token.newlineBefore = false := by
  have semicolon : Lexes [';'] [.punctuator .semicolon] [] := .closedMark .semicolon (by decide) []
  have read := (lexes_chain name names (endsWord_cons (by decide) [])).append semicolon
  have text : (chainText first rest ++ ";").toList = (chainText first rest).toList ++ [';'] := by
    simp
  rw [← text] at read
  exact Lexes.tokens_eq read

namespace Parser

variable {stream rest : TokenStream}

theorem operators_of_weaker (depth : Nat) (left : Expr) (minimum : Nat) (start : Span)
    (weaker : ∀ op ∈ Operator.ofToken? stream.current.kind, op.precedence < minimum) :
    (Level.above (m := Parser) depth).operators left minimum start stream = .ok (left, stream) := by
  have round (deeper : Option (Level Parser)) :
      operators deeper left minimum start stream = .ok (left, stream) := by
    rw [operators, look_bind]
    cases found : Operator.ofToken? stream.current.kind with
    | none => rfl
    | some op => simp [weaker op found]
  cases depth <;> exact round _

theorem operators_of_operator {depth : Nat} {left right : Expr} {op : Operator} {minimum : Nat}
    {start : Span} (kind : stream.current.kind = op.token) (least : minimum ≤ op.precedence)
    (read : binary (Level.above (m := Parser) depth) op.rightMinimum stream.advance =
      .ok (right, rest)) :
    (Level.above (m := Parser) (depth + 1)).operators left minimum start stream =
      (Level.above (m := Parser) depth).operators (op.apply left right (rest.spanFrom start))
        minimum start
        rest := by
  change operators (some (Level.above (m := Parser) depth)) left minimum start stream = _
  rw [operators, look_bind, kind, op.ofToken?_token]
  simp only [not_lt.mpr least, if_false]
  rw [descend_bind, advance_bind, bind_ok read, spanFrom_bind]

end Parser

namespace Expr.InOrder

variable {expr : Expr} {first : String} {rest : List (Operator × String)}

theorem binary_eq (inOrder : InOrder expr first rest) (grouped : expr.Grouped)
    (name : IsName first) (names : ∀ link ∈ rest, IsName link.2) {depth minimum : Nat}
    (enough : rest.length < depth) (least : ∀ root ∈ expr.operator?, minimum ≤ root.precedence)
    {stream after : TokenStream} (spells : stream.Spells (chainKinds first rest) after)
    (ends : EndsOperand after.current.kind)
    (stop : ∀ op ∈ Operator.ofToken? after.current.kind, ∀ root ∈ expr.operator?,
      op.precedence < root.rightMinimum) :
    ∃ value left, value.bare = expr.bare ∧ depth ≤ left + rest.length ∧
      Parser.binary (Level.above (m := Parser) depth) minimum stream =
        (Level.above (m := Parser) left).operators value minimum stream.current.span after := by
  -- By induction on the tree; the levels that its operators use up are counted by the chain.
  induction inOrder generalizing depth minimum stream after with
  | name id =>
    obtain ⟨depth, rfl⟩ := Nat.exists_eq_add_of_lt enough
    have reparses : (Expr.identifier id).Reparses := .identifier name
    have low : 5 * (Expr.identifier id).height ≤ depth := by simp [height]
    obtain ⟨value, read, bare⟩ := reparses.unary low spells ends
    simp only [List.length_nil, Nat.zero_add]
    exact ⟨value, depth + 1, bare, Nat.le_refl _, binary_of_unary read minimum⟩
  | @operator op left right span first second before behind ahead after ihLeft ihRight =>
    obtain ⟨tighter, leftGrouped, rightGrouped⟩ := grouped_apply.mp grouped
    obtain ⟨leftTighter, rightTighter⟩ := tighter_iff.mp tighter
    obtain ⟨namesBefore, namesAfter⟩ := List.forall_mem_append.mp names
    obtain ⟨second, namesBehind⟩ := List.forall_mem_cons.mp namesAfter
    simp only [List.length_append, List.length_cons] at enough
    rw [operator?_apply] at least stop
    have own : minimum ≤ op.precedence := least op rfl
    rw [chainKinds_append] at spells
    obtain ⟨middle, spellsLeft, spellsAfter⟩ := spells.append
    have kind : middle.current.kind = op.token := spellsAfter.kind
    have leastLeft (root : Operator) (found : root ∈ left.operator?) :
        minimum ≤ root.precedence := by
      have tight := (op.precedence_lt_rightMinimum_iff root).mp (leftTighter root found)
      split at tight <;> omega
    have stopLeft : ∀ next ∈ Operator.ofToken? middle.current.kind, ∀ root ∈ left.operator?,
        next.precedence < root.rightMinimum := by
      rw [kind, op.ofToken?_token]
      rintro next ⟨⟩
      exact leftTighter
    obtain ⟨leftValue, deeper, leftBare, levels, readLeft⟩ :=
      ihLeft leftGrouped name namesBefore (by omega : before.length < depth) leastLeft spellsLeft
        (kind ▸ op.endsOperand_token) stopLeft
    obtain ⟨deeper, rfl⟩ : ∃ level, deeper = level + 1 := ⟨deeper - 1, by omega⟩
    have stopRight (next : Operator) (found : next ∈ Operator.ofToken? _) (root : Operator)
        (inside : root ∈ right.operator?) : next.precedence < root.rightMinimum :=
      Nat.lt_of_lt_of_le (stop next found op rfl)
        ((rightTighter root inside).trans root.precedence_le_rightMinimum)
    obtain ⟨rightValue, _, rightBare, -, readRight⟩ :=
      ihRight rightGrouped second namesBehind (by omega : behind.length < deeper) rightTighter
        spellsAfter.advance ends stopRight
    rw [Parser.operators_of_weaker _ _ _ _ fun next found => stop next found op rfl] at readRight
    refine ⟨_, deeper, ?_, ?_, readLeft.trans (Parser.operators_of_operator kind own readRight)⟩
    · rw [bare_apply, bare_apply, leftBare, rightBare]
    · simp only [List.length_append, List.length_cons]
      omega

end Expr.InOrder

section Programs

variable {expr : Expr} {first : String} {rest : List (Operator × String)}
  {stream semicolon : TokenStream}

theorem operand_of_name (name : IsName first) : Operand [.identifier first] :=
  .token (.identifier name.unreserved) rfl

theorem spells_name (spells : stream.Spells (chainKinds first rest) semicolon)
    (found : semicolon.current.kind = .punctuator .semicolon) :
    ∃ between, stream.Spells [.identifier first] between ∧
      between.current.kind.isPunctuator .arrow = false ∧
      between.current.kind.isPunctuator .colon = false := by
  have split : chainKinds first rest = [.identifier first] ++ linkKinds rest := rfl
  rw [split] at spells
  obtain ⟨between, own, others⟩ := spells.append
  refine ⟨between, own, ?_⟩
  cases rest with
  | nil =>
    rw [others.eq_rest, found]
    exact ⟨rfl, rfl⟩
  | cons link rest =>
    rw [others.kind]
    rcases link with ⟨op | op, _⟩ <;> cases op <;> exact ⟨rfl, rfl⟩

theorem Expr.InOrder.expression_gives (inOrder : InOrder expr first rest) (grouped : expr.Grouped)
    (name : IsName first) (names : ∀ link ∈ rest, IsName link.2) {depth : Nat}
    (enough : rest.length < depth) (spells : stream.Spells (chainKinds first rest) semicolon)
    (found : semicolon.current.kind = .punctuator .semicolon) :
    (Parser.expression (Level.above (m := Parser) (depth + 1))).Gives stream expr semicolon := by
  have ends : EndsItem semicolon.current.kind := found ▸ .semicolon
  have last : Operator.ofToken? semicolon.current.kind = none := ends.stops.1
  obtain ⟨value, left, bare, -, read⟩ := inOrder.binary_eq grouped name names enough
    (fun root _ => Nat.zero_le root.precedence) spells ends.endsOperand (by simp [last])
  rw [Parser.operators_of_stop left value 0 _ last] at read
  obtain ⟨between, own, arrow, -⟩ := spells_name spells found
  have operand := operand_of_name name
  have whole : (Parser.assignment (Level.above (m := Parser) depth)).Gives stream expr
      semicolon := by
    refine ⟨value, ?_, bare⟩
    rw [assignment_of_binary (operand.isAtArrow own arrow) (operand.async own) read]
    exact tails_of_ends ends value _
  exact whole.expression (TokenStream.isAt_eq found)

theorem Expr.InOrder.parse_eq (inOrder : InOrder expr first rest) (grouped : expr.Grouped)
    (name : IsName first) (names : ∀ link ∈ rest, IsName link.2) (few : rest.length ≤ 125) :
    ∃ value span whole, Program.parse (chainText first rest ++ ";") =
      .ok ⟨[.expression value span], whole⟩ ∧ value.bare = expr.bare := by
  obtain ⟨kinds, line⟩ := tokens_chain name names
  obtain ⟨after, spells, ended⟩ := Program.spells_of_kinds kinds line
  obtain ⟨semicolon, before, last⟩ := spells.append
  have operand := operand_of_name name
  obtain ⟨between, own, -, colon⟩ := spells_name before last.kind
  have enough : rest.length < 126 := by omega
  obtain ⟨value, read, bare⟩ := inOrder.expression_gives grouped name names enough before last.kind
  have statement := Parser.expressionStatement_of_semicolon read last.kind
  rw [← Parser.statement_of_operand _ operand own colon, last.advance.eq_rest] at statement
  have starts := (operand.startsOperand own).isEnd
  obtain ⟨whole, read⟩ := Program.parse_of_statement spells starts ended statement
  exact ⟨value, _, whole, read, bare⟩

/-- A chain of names with operators between them is parsed as the one tree in which all operands
bind more tightly than their operators, powers being grouped to the right. -/
theorem Program.parse_chain (first : String) (rest : List (Operator × String))
    (name : IsName first) (names : ∀ link ∈ rest, IsName link.2) (few : rest.length ≤ 100) :
    ∃ value span whole, Program.parse (chainText first rest ++ ";") =
        .ok ⟨[.expression value span], whole⟩ ∧
      Expr.InOrder value first rest ∧ value.Grouped ∧
      ∀ other, Expr.InOrder other first rest → other.Grouped → other.bare = value.bare := by
  have enough : rest.length ≤ 125 := by omega
  obtain ⟨expr, inOrder, grouped⟩ := Expr.exists_grouped first rest
  obtain ⟨value, span, whole, read, bare⟩ := inOrder.parse_eq grouped name names enough
  obtain ⟨valueInOrder, valueGrouped⟩ := inOrder.of_bare grouped bare
  refine ⟨value, span, whole, read, valueInOrder, valueGrouped, fun other ordered others => ?_⟩
  obtain ⟨found, _, _, again, same⟩ := ordered.parse_eq others name names enough
  rw [read] at again
  cases again
  exact same.symm

def mixedChain : List (Operator × String) :=
  [(.logical .coalesce, "b"), (.binary .power, "c"), (.binary .power, "d"),
    (.binary .subtract, "e"),
    (.binary .subtract, "f"), (.binary .instanceof, "g"), (.logical .and, "h")]

theorem mixedChain_parse :
    chainText "a" mixedChain = "a ?? b ** c ** d - e - f instanceof g && h" ∧
      ∃ value span whole, Program.parse (chainText "a" mixedChain ++ ";") =
          .ok ⟨[.expression value span], whole⟩ ∧
        Expr.InOrder value "a" mixedChain ∧ value.Grouped ∧
        ∀ other, Expr.InOrder other "a" mixedChain → other.Grouped → other.bare = value.bare :=
  ⟨by decide +kernel, Program.parse_chain "a" mixedChain (by decide +kernel) (by decide +kernel)
    (by decide)⟩

end Programs

end EventLoop
