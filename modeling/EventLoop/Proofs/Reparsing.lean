import EventLoop.Proofs.Operands

set_option autoImplicit false

/-!
# Parsing printed expressions

A plain expression is parsed from its printed text as the same tree.
-/

namespace EventLoop

open EventLoop.Parser (bind_ok start_bind look_bind spanFrom_bind advance_bind descend_bind
  isAt_bind eat_bind_of_isAt eat_bind_of_not_isAt expect_bind_of_isAt loop_of_done loop_of_more
  assignment_above unary_above links_of_stop operators_of_stop leftHandSide_of_primary
  postfixed_of_stop unary_of_operand binary_of_unary assignment_of_binary conditionalTail_of_stop
  assignmentTail_of_stop tails_of_ends propertyName_of_word)

-- The tokens of the expression are those of an operand, and five levels of nesting for each pair of
-- parentheses are enough to parse it.
structure Expr.Reparses (expr : Expr) : Prop where
  operand : Operand expr.kinds
  gives ⦃depth : Nat⦄ ⦃stream rest : TokenStream⦄ (low : 5 * expr.height ≤ depth)
    (spells : stream.Spells expr.kinds rest) :
    (Parser.primary (Level.above (m := Parser) depth)).Gives stream expr rest

namespace Expr.Reparses

section Uses

variable {expr : Expr} {depth : Nat} {stream rest : TokenStream}

theorem unary (reparses : expr.Reparses) (low : 5 * expr.height ≤ depth)
    (spells : stream.Spells expr.kinds rest) (stop : EndsOperand rest.current.kind) :
    (Parser.unary (Level.above (m := Parser) depth)).Gives stream expr rest :=
  (reparses.gives low spells).unary (reparses.operand.startsOperand spells) stop

theorem assignment (reparses : expr.Reparses) (low : 5 * expr.height ≤ depth)
    (spells : stream.Spells expr.kinds rest) (stop : EndsItem rest.current.kind) :
    (Parser.assignment (Level.above (m := Parser) (depth + 1))).Gives stream expr rest :=
  (reparses.unary low spells stop.endsOperand).assignment
    (reparses.operand.isAtArrow spells stop.endsOperand.arrow) (reparses.operand.async spells) stop

theorem assignment_eq (reparses : expr.Reparses) (spells : stream.Spells expr.kinds rest)
    (stop : EndsOperand rest.current.kind) {level : Level Parser} {value : Expr}
    {between : TokenStream}
    (read : Parser.binary level 0 stream = .ok (value, between)) :
    Parser.assignment level stream = Parser.tails level value stream.current.span between :=
  assignment_of_binary (reparses.operand.isAtArrow spells stop.arrow)
    (reparses.operand.async spells) read

end Uses

section Groups

variable {expr : Expr} {inner : List TokenKind} {height : Nat}

theorem of_expression (kinds : expr.kinds = grouped inner) (tall : expr.height = height + 1)
    (balanced : Balanced inner)
    (body : ∀ {depth : Nat} {stream close : TokenStream}, 5 * height ≤ depth →
      stream.Spells inner close → close.current.kind = .punctuator .parenClose →
      (Parser.expression (Level.above (m := Parser) (depth + 5))).Gives stream expr close) :
    expr.Reparses where
  operand := kinds ▸ .group balanced
  gives := by
    intro depth stream rest low spells
    -- The longest way down is that of an argument: the assignment in the group, its operand, the
    -- link after it, the argument in the link and the operand of that go one level deeper each.
    obtain ⟨depth, rfl⟩ : ∃ less, depth = less + 5 := ⟨depth - 5, by omega⟩
    rw [kinds] at spells
    obtain ⟨close, inside, last⟩ := spells.advance.append
    rw [← last.advance.eq_rest]
    have closes : close.isAt .parenClose := TokenStream.isAt_eq last.kind
    exact (body (by omega) inside last.kind).group spells.kind closes

theorem of_assignment (kinds : expr.kinds = grouped inner) (tall : expr.height = height + 1)
    (balanced : Balanced inner)
    (body : ∀ {depth : Nat} {stream close : TokenStream}, 5 * height ≤ depth →
      stream.Spells inner close → EndsItem close.current.kind →
      (Parser.assignment (Level.above (m := Parser) (depth + 4))).Gives stream expr close) :
    expr.Reparses := by
  refine of_expression kinds tall balanced fun low spells closes => ?_
  exact (body low spells (closes ▸ .parenClose)).expression (TokenStream.isAt_eq closes)

end Groups

section Items

variable {items : List Expr} {stream close : TokenStream}

theorem endsItem_rest (spells : stream.Spells (kindsOfRest items) close)
    (ends : EndsItem close.current.kind) : EndsItem stream.current.kind := by
  cases items with
  | nil => exact spells.eq_rest ▸ ends
  | cons => exact spells.kind ▸ .comma

theorem loop_sequenceRound {depth : Nat} (low : ∀ item ∈ items, 5 * item.height ≤ depth)
    (each : ∀ item ∈ items, item.Reparses) (spells : stream.Spells (kindsOfRest items) close)
    (closes : close.current.kind = .punctuator .parenClose) (before : List Expr) :
    ∃ values, Parser.loop (Parser.sequenceRound (Level.above (m := Parser) (depth + 2))) before
      stream =
        .ok (before.reverse ++ values, close) ∧
      values.map Expr.bare = items.map Expr.bare := by
  induction items generalizing stream before with
  | nil =>
    obtain rfl := spells.eq_rest
    have last : stream.isAt .comma = false := TokenStream.isAt_eq closes
    refine ⟨[], loop_of_done ?_, rfl⟩
    rw [Parser.sequenceRound, eat_bind_of_not_isAt last, List.append_nil]
    rfl
  | cons item rest ih =>
    rw [List.forall_mem_cons] at low each
    have comma : stream.isAt .comma := TokenStream.isAt_eq spells.kind
    obtain ⟨middle, first, others⟩ := spells.advance.append
    have ends := endsItem_rest others (closes ▸ .parenClose)
    obtain ⟨value, read, bare⟩ := each.1.assignment low.1 first ends
    obtain ⟨values, loops, bares⟩ := ih low.2 each.2 others (value :: before)
    refine ⟨value :: values, ?_, by rw [List.map_cons, List.map_cons, bare, bares]⟩
    rw [loop_of_more ?_ (Nat.lt_of_le_of_lt first.remaining_le spells.remaining_advance), loops]
    next => simp
    next =>
      rw [Parser.sequenceRound, eat_bind_of_isAt comma]
      simp only [if_true]
      rw [assignment_above, bind_ok read]
      rfl

theorem listRound_of_argument {assignment : Parser Expr} {value : Expr} {rest : TokenStream}
    (starts : StartsOperand stream.current.kind) (read : assignment stream = .ok (value, rest))
    (before : List Expr) :
    Parser.listRound (Parser.argument assignment) before stream =
      (Parser.eat .comma >>= fun more =>
        if more then pure (.inl (value :: before))
        else do
          Parser.expect .parenClose
          pure (.inr (value :: before).reverse) : Parser (List Expr ⊕ List Expr)) rest := by
  have closes : stream.isAt .parenClose = false := starts.isPunctuator (by decide)
  have spread : stream.isAt .ellipsis = false := starts.isPunctuator (by decide)
  have argument : Parser.argument assignment stream = .ok (value, rest) := by
    rw [Parser.argument, start_bind, eat_bind_of_not_isAt spread]
    exact read
  rw [Parser.listRound, eat_bind_of_not_isAt closes]
  exact bind_ok argument _

theorem loop_listRound {depth : Nat} (low : ∀ item ∈ items, 5 * item.height ≤ depth)
    (each : ∀ item ∈ items, item.Reparses) (spells : stream.Spells (kindsOfItems items) close)
    (closes : close.current.kind = .punctuator .parenClose) (before : List Expr) :
    ∃ values, Parser.loop (Parser.listRound (Parser.argument
        (Parser.assignment (Level.above (m := Parser) (depth + 1))))) before stream =
          .ok (before.reverse ++ values, close.advance) ∧
      values.map Expr.bare = items.map Expr.bare := by
  have closed : close.isAt .parenClose := TokenStream.isAt_eq closes
  -- By induction on the arguments; those read so far are kept in reverse.
  induction items generalizing stream before with
  | nil =>
    obtain rfl := spells.eq_rest
    refine ⟨[], loop_of_done ?_, rfl⟩
    rw [Parser.listRound, eat_bind_of_isAt closed, List.append_nil]
    rfl
  | cons item rest ih =>
    rw [List.forall_mem_cons] at low each
    obtain ⟨middle, first, others⟩ := spells.append
    have starts := each.1.operand.startsOperand first
    obtain ⟨value, read, bare⟩ :=
      each.1.assignment low.1 first (endsItem_rest others (closes ▸ .parenClose))
    have round := listRound_of_argument starts read before
    cases rest with
    | nil =>
      obtain rfl := others.eq_rest
      have last : middle.isAt .comma = false := TokenStream.isAt_eq closes
      refine ⟨[value], loop_of_done ?_, by simp [bare]⟩
      rw [round, eat_bind_of_not_isAt last]
      simp only [Bool.false_eq_true, if_false]
      rw [expect_bind_of_isAt closed, List.reverse_cons]
      rfl
    | cons second rest =>
      have comma : middle.isAt .comma := TokenStream.isAt_eq others.kind
      obtain ⟨values, loops, bares⟩ := ih low.2 each.2 others.advance (value :: before)
      refine ⟨value :: values, ?_, by rw [List.map_cons, List.map_cons, bare, bares]⟩
      rw [loop_of_more ?_ (Nat.lt_of_lt_of_le others.remaining_advance first.remaining_le),
        loops]
      next => simp
      next =>
        rw [round, eat_bind_of_isAt comma]
        rfl

end Items

theorem literal (value : Literal) (span : Span) : (Expr.literal value span).Reparses where
  operand := value.operand
  gives := by
    intro depth stream rest _ spells
    have kind : stream.current.kind = value.token := spells.kind
    refine ⟨.literal value stream.current.span, ?_, rfl⟩
    rw [← spells.advance.eq_rest, Parser.primary, start_bind, look_bind, kind]
    cases value with
    | boolean value => cases value <;> rfl
    | _ => rfl

theorem identifier {id : Identifier} (name : IsName id.name) : (Expr.identifier id).Reparses where
  operand := .token (.identifier name.unreserved) rfl
  gives := by
    intro depth stream rest _ spells
    have kind : stream.current.kind = .identifier id.name := spells.kind
    have read : (Parser.identifier : Parser Identifier) stream =
        .ok (⟨id.name, stream.current.span⟩, rest) := by
      rw [Parser.identifier, look_bind, kind]
      simp only [name.unreserved]
      rw [← spells.advance.eq_rest]
      rfl
    refine ⟨.identifier ⟨id.name, stream.current.span⟩, ?_, rfl⟩
    rw [Parser.primary, start_bind, look_bind, kind]
    change Parser.wordOperand (m := Parser) id.name stream = _
    rw [Parser.wordOperand, start_bind, reservedOperand?_eq_none name.unreserved]
    exact bind_ok read _

theorem unaryOperator (op : UnaryOp) {argument : Expr} (span : Span)
    (reparses : argument.Reparses) : (Expr.unary op argument span).Reparses := by
  have balanced : Balanced (op.token :: argument.kinds) := by
    cases op <;> exact .token rfl rfl rfl reparses.operand.balanced
  refine of_assignment rfl rfl balanced fun {depth stream close} low spells ends => ?_
  have inner : (Parser.unary (Level.above (m := Parser) (depth + 2))).Gives stream.advance argument
      close :=
    reparses.unary (by omega) spells.advance ends.endsOperand
  obtain ⟨value, read, bare⟩ := inner
  have whole : (Parser.unary (Level.above (m := Parser) (depth + 3))).Gives stream
    (.unary op argument span)
      close := by
    refine ⟨.unary op value (close.spanFrom stream.current.span), ?_, by simp [Expr.bare, bare]⟩
    rw [Parser.unary, start_bind, look_bind, spells.kind, op.ofToken?_token]
    change (Parser.advance >>= _ : Parser Expr) stream = _
    rw [advance_bind, unary_above, bind_ok read]
    rfl
  have leads : LeadsOperand stream.current.kind := spells.kind ▸ op.leadsOperand
  exact whole.assignment leads.isAtArrow leads.async ends

theorem infixOperator (op : Operator) {left right : Expr} (span : Span)
    (first : left.Reparses) (second : right.Reparses) : (op.apply left right span).Reparses := by
  have kinds : (op.apply left right span).kinds =
      grouped (left.kinds ++ op.token :: right.kinds) := by
    cases op <;> rfl
  have tall : (op.apply left right span).height = max left.height right.height + 1 := by
    cases op <;> rfl
  have balanced := first.operand.balanced.append (.operator op second.operand.balanced)
  refine of_assignment kinds tall balanced fun {depth stream close} low spells ends => ?_
  -- Printed operands are single tokens or in parentheses, so that precedence plays no part.
  obtain ⟨middle, before, after⟩ := spells.append
  have kind : middle.current.kind = op.token := after.kind
  have next : EndsOperand middle.current.kind := kind ▸ op.endsOperand_token
  have left : (Parser.unary (Level.above (m := Parser) (depth + 3))).Gives stream left middle :=
    first.unary (by omega) before next
  have right : (Parser.unary (Level.above (m := Parser) (depth + 2))).Gives middle.advance right
      close :=
    second.unary (by omega) after.advance ends.endsOperand
  obtain ⟨leftValue, leftRead, leftBare⟩ := left
  obtain ⟨rightValue, rightRead, rightBare⟩ := right
  have operand : Parser.binary (Level.above (m := Parser) (depth + 3)) op.rightMinimum
    middle.advance =
      .ok (rightValue, close) := by
    rw [binary_of_unary rightRead]
    exact operators_of_stop _ _ _ _ ends.stops.1
  have whole : Parser.binary (Level.above (m := Parser) (depth + 4)) 0 stream =
      .ok (op.apply leftValue rightValue (close.spanFrom stream.current.span), close) := by
    rw [binary_of_unary leftRead]
    change Parser.operators (some (Level.above (m := Parser) (depth + 3))) _ _ _ _ = _
    rw [Parser.operators, look_bind, kind, op.ofToken?_token]
    simp only [Nat.not_lt_zero, if_false]
    rw [descend_bind, advance_bind, bind_ok operand, spanFrom_bind]
    exact operators_of_stop _ _ _ _ ends.stops.1
  refine ⟨?value, ?read, ?bare⟩
  case read =>
    rw [first.assignment_eq before next whole]
    exact tails_of_ends ends _ _
  case bare => cases op <;> simp [Operator.apply, Expr.bare, leftBare, rightBare]

theorem conditional {test consequent alternate : Expr} (span : Span) (first : test.Reparses)
    (second : consequent.Reparses) (third : alternate.Reparses) :
    (Expr.conditional test consequent alternate span).Reparses := by
  have balanced : Balanced (test.kinds ++ .punctuator .question ::
      (consequent.kinds ++ .punctuator .colon :: alternate.kinds)) :=
    first.operand.balanced.append (.token rfl rfl rfl
      (second.operand.balanced.append (.token rfl rfl rfl third.operand.balanced)))
  refine of_assignment rfl rfl balanced fun {depth stream close} low spells ends => ?_
  obtain ⟨question, before, after⟩ := spells.append
  obtain ⟨colon, between, last⟩ := after.advance.append
  have next : EndsOperand question.current.kind := after.kind ▸ ⟨rfl, rfl, rfl⟩
  have marked : question.isAt .question := TokenStream.isAt_eq after.kind
  have parted : colon.isAt .colon := TokenStream.isAt_eq last.kind
  have test : (Parser.unary (Level.above (m := Parser) (depth + 3))).Gives stream test question :=
    first.unary (by omega) before next
  have consequent : (Parser.assignment (Level.above (m := Parser) (depth + 3))).Gives
    question.advance consequent
      colon :=
    second.assignment (by omega) between (last.kind ▸ .colon)
  have alternate : (Parser.assignment (Level.above (m := Parser) (depth + 3))).Gives colon.advance
      alternate close :=
    third.assignment (by omega) last.advance ends
  obtain ⟨testValue, testRead, testBare⟩ := test
  obtain ⟨consequentValue, consequentRead, consequentBare⟩ := consequent
  obtain ⟨alternateValue, alternateRead, alternateBare⟩ := alternate
  have operand : Parser.binary (Level.above (m := Parser) (depth + 4)) 0 stream =
      .ok (testValue, question) := by
    rw [binary_of_unary testRead]
    exact operators_of_stop _ _ _ _ (by rw [after.kind]; rfl)
  have whole : Parser.conditionalTail (Level.above (m := Parser) (depth + 4)) testValue
    stream.current.span question =
      .ok (.conditional testValue consequentValue alternateValue
        (close.spanFrom stream.current.span), close) := by
    rw [Parser.conditionalTail, eat_bind_of_isAt marked]
    simp only [if_true]
    rw [assignment_above, bind_ok consequentRead, expect_bind_of_isAt parted,
      bind_ok alternateRead]
    rfl
  refine ⟨?value, ?read, ?bare⟩
  case read =>
    rw [first.assignment_eq before next operand, Parser.tails, bind_ok whole]
    exact assignmentTail_of_stop ends.stops.2.1 _ _
  case bare => simp [Expr.bare, testBare, consequentBare, alternateBare]

theorem assignmentOperator (op : AssignOp) {target : Identifier} {value : Expr} (span : Span)
    (name : IsName target.name) (reparses : value.Reparses) :
    (Expr.assignment op target value span).Reparses := by
  have balanced : Balanced (.identifier target.name :: .punctuator op.mark :: value.kinds) := by
    cases op <;> exact .token rfl rfl rfl (.token rfl rfl rfl reparses.operand.balanced)
  refine of_assignment rfl rfl balanced fun {depth stream close} low spells ends => ?_
  have first := identifier name
  obtain ⟨mark, before, after⟩ : ∃ mark, stream.Spells (Expr.identifier target).kinds mark ∧
      mark.Spells (.punctuator op.mark :: value.kinds) close := TokenStream.Spells.append spells
  have next : EndsOperand mark.current.kind := after.kind ▸ op.endsOperand_mark
  have left : (Parser.unary (Level.above (m := Parser) (depth + 3))).Gives stream
      (.identifier target) mark :=
    first.unary (by simp [Expr.height]) before next
  have right : (Parser.assignment (Level.above (m := Parser) (depth + 3))).Gives mark.advance value
      close :=
    reparses.assignment (by omega) after.advance ends
  obtain ⟨leftValue, leftRead, leftBare⟩ := left
  obtain ⟨found, rfl, foundBare⟩ := Expr.exists_identifier_of_bare leftBare
  obtain ⟨rightValue, rightRead, rightBare⟩ := right
  have operand : Parser.binary (Level.above (m := Parser) (depth + 4)) 0 stream =
      .ok (.identifier found, mark) := by
    rw [binary_of_unary leftRead]
    refine operators_of_stop _ _ _ _ ?_
    rw [after.kind]
    cases op <;> rfl
  have test : Parser.conditionalTail (Level.above (m := Parser) (depth + 4)) (.identifier found)
    stream.current.span
      mark = .ok (.identifier found, mark) := by
    refine conditionalTail_of_stop ?_ _ _
    rw [TokenStream.isAt_eq after.kind]
    cases op <;> rfl
  have whole : Parser.assignmentTail (Level.above (m := Parser) (depth + 4)) (.identifier found)
    stream.current.span
      mark = .ok (.assignment op found rightValue (close.spanFrom stream.current.span), close) := by
    rw [Parser.assignmentTail, look_bind, after.kind, op.ofToken?_mark]
    change (Parser.advance >>= _ : Parser Expr) mark = _
    rw [advance_bind, assignment_above, bind_ok rightRead]
    rfl
  refine ⟨?value, ?read, ?bare⟩
  case read =>
    rw [first.assignment_eq before next operand, Parser.tails, bind_ok test]
    exact whole
  case bare => simp [Expr.bare, foundBare, rightBare]

theorem updateAhead (op : UpdateOp) {target : Identifier} (span : Span)
    (name : IsName target.name) :
    (Expr.update op .updateFirst target span).Reparses := by
  have balanced : Balanced [.punctuator op.mark, .identifier target.name] := by
    cases op <;> exact .token rfl rfl rfl (.token rfl rfl rfl .nil)
  refine of_assignment rfl rfl balanced fun {depth stream close} low spells ends => ?_
  have inner : (Parser.unary (Level.above (m := Parser) (depth + 2))).Gives stream.advance
    (.identifier target)
      close :=
    (identifier name).unary (by simp [Expr.height]) spells.advance ends.endsOperand
  obtain ⟨value, read, bare⟩ := inner
  obtain ⟨found, rfl, foundBare⟩ := Expr.exists_identifier_of_bare bare
  have whole : (Parser.unary (Level.above (m := Parser) (depth + 3))).Gives stream
      (.update op .updateFirst target span) close := by
    refine ⟨.update op .updateFirst found (close.spanFrom stream.current.span), ?_,
      by simp [Expr.bare, foundBare]⟩
    rw [Parser.unary, start_bind, look_bind, spells.kind, op.unary_mark,
      op.ofToken?_mark]
    change (Parser.advance >>= _ : Parser Expr) stream = _
    rw [advance_bind, unary_above, bind_ok read]
    rfl
  have leads : LeadsOperand stream.current.kind := spells.kind ▸ op.leadsOperand
  exact whole.assignment leads.isAtArrow leads.async ends

theorem updateBehind (op : UpdateOp) {target : Identifier} (span : Span)
    (name : IsName target.name) : (Expr.update op .readFirst target span).Reparses := by
  have first := identifier name
  have balanced : Balanced [.identifier target.name, .punctuator op.mark] := by
    cases op <;> exact .token rfl rfl rfl (.token rfl rfl rfl .nil)
  refine of_assignment rfl rfl balanced fun {depth stream close} low spells ends => ?_
  obtain ⟨mark, before, after⟩ : ∃ mark, stream.Spells (Expr.identifier target).kinds mark ∧
      mark.Spells [.punctuator op.mark] close := TokenStream.Spells.append spells
  have starts := first.operand.startsOperand before
  obtain ⟨value, read, bare⟩ : (Parser.primary (Level.above (m := Parser) (depth + 3))).Gives stream
      (.identifier target) mark := first.gives (by simp [Expr.height]) before
  obtain ⟨found, rfl, foundBare⟩ := Expr.exists_identifier_of_bare bare
  have operand : Parser.leftHandSide (Level.above (m := Parser) (depth + 3)) stream =
      .ok (.identifier found, mark) := by
    rw [leftHandSide_of_primary starts read]
    refine links_of_stop _ _ _ ?_
    rw [after.kind]
    cases op <;> rfl
  have whole : (Parser.unary (Level.above (m := Parser) (depth + 3))).Gives stream
      (.update op .readFirst target span) close := by
    refine ⟨.update op .readFirst found (close.spanFrom stream.current.span), ?_,
      by simp [Expr.bare, foundBare]⟩
    rw [unary_of_operand starts, Parser.postfixed, bind_ok operand, look_bind,
      after.kind, op.ofToken?_mark]
    -- On a line of its own the mark would belong to the next statement, but no line is broken.
    simp only [after.newlineBefore]
    rw [← after.advance.eq_rest]
    rfl
  have arrow : mark.current.kind.isPunctuator .arrow = false := by
    rw [after.kind]
    cases op <;> rfl
  exact whole.assignment (first.operand.isAtArrow before arrow) (first.operand.async before) ends

theorem updateOperator (op : UpdateOp) (order : UpdateOrder) {target : Identifier} (span : Span)
    (name : IsName target.name) : (Expr.update op order target span).Reparses := by
  cases order with
  | updateFirst => exact updateAhead op span name
  | readFirst => exact updateBehind op span name

theorem sequence {items : List Expr} (span : Span) (several : 2 ≤ items.length)
    (each : ∀ item ∈ items, item.Reparses) : (Expr.sequence items span).Reparses := by
  have balanced := balanced_items fun item member => (each item member).operand
  refine of_expression rfl rfl balanced fun {depth stream close} low spells closes => ?_
  obtain ⟨first, second, rest, rfl⟩ : ∃ first second rest, items = first :: second :: rest := by
    match items, several with
    | first :: second :: rest, _ => exact ⟨first, second, rest, rfl⟩
  have small (item : Expr) (member : item ∈ first :: second :: rest) :
      5 * item.height ≤ depth + 3 := by
    have := height_le_of_mem member
    omega
  rw [List.forall_mem_cons] at each small
  obtain ⟨middle, before, after⟩ := TokenStream.Spells.append spells
  -- The first item is read before it is known that others follow it.
  obtain ⟨value, read, bare⟩ :=
    each.1.assignment small.1 before (endsItem_rest after (closes ▸ .parenClose))
  obtain ⟨values, loops, bares⟩ := loop_sequenceRound small.2 each.2 after closes [value]
  have comma : middle.isAt .comma := TokenStream.isAt_eq after.kind
  refine ⟨.sequence (value :: values) (close.spanFrom stream.current.span), ?_, ?_⟩
  next =>
    rw [Parser.expression, start_bind, assignment_above, bind_ok read,
      isAt_bind, comma]
    simp only [if_true]
    rw [bind_ok loops]
    rfl
  next => simp [Expr.bare, bareExprs_eq_map, bare, bares]

theorem link {object expr : Expr} (reparses : object.Reparses) {depth : Nat}
    {stream middle close : TokenStream} (low : 5 * object.height ≤ depth)
    (before : stream.Spells object.kinds middle)
    (arrow : middle.current.kind.isPunctuator .arrow = false) (ends : EndsItem close.current.kind)
    (links : ∀ {value : Expr}, value.bare = object.bare →
      ((Level.above (m := Parser) depth).links value stream.current.span).Gives middle expr close) :
    (Parser.assignment (Level.above (m := Parser) (depth + 1))).Gives stream expr close := by
  have starts := reparses.operand.startsOperand before
  obtain ⟨value, read, bare⟩ := reparses.gives low before
  obtain ⟨whole, linked, wholeBare⟩ := links bare
  have operand : Parser.leftHandSide (Level.above (m := Parser) depth) stream =
      .ok (whole, close) := by
    rw [leftHandSide_of_primary starts read]
    exact linked
  have unary : (Parser.unary (Level.above (m := Parser) depth)).Gives stream expr close := by
    refine ⟨whole, ?_, wholeBare⟩
    rw [unary_of_operand starts]
    exact postfixed_of_stop operand ends.endsOperand.update _
  exact unary.assignment (reparses.operand.isAtArrow before arrow) (reparses.operand.async before)
    ends

theorem member {object : Expr} {property : Identifier} (span : Span) (reparses : object.Reparses) :
    (Expr.member object property span).Reparses := by
  have balanced : Balanced (object.kinds ++ [.punctuator .dot, wordKind property.name.toList]) := by
    refine reparses.operand.balanced.append (.token rfl rfl rfl ?_)
    rw [wordKind]
    split <;> exact .token rfl rfl rfl .nil
  refine of_assignment rfl rfl balanced fun {depth stream close} low spells ends => ?_
  obtain ⟨dot, before, after⟩ := spells.append
  have arrow : dot.current.kind.isPunctuator .arrow = false := by rw [after.kind]; rfl
  have name := propertyName_of_word after.advance.kind
  rw [after.advance.advance.eq_rest] at name
  refine reparses.link (Nat.le_add_right_of_le low) before arrow ends fun {value} bare => ?_
  refine ⟨?value, ?read, ?bare⟩
  case read =>
    apply loop_of_done
    rw [Parser.linksRound, look_bind, after.kind]
    change (Parser.descend _ >>= _ : Parser (Expr ⊕ Expr)) dot = _
    rw [descend_bind, advance_bind, bind_ok name, spanFrom_bind,
      bind_ok (links_of_stop _ _ _ ends.endsOperand.link)]
    rfl
  case bare => simp [Expr.bare, Identifier.bare, bare]

theorem call {callee : Expr} {arguments : List Expr} (span : Span) (reparses : callee.Reparses)
    (each : ∀ argument ∈ arguments, argument.Reparses) :
    (Expr.call callee arguments span).Reparses := by
  have balanced : Balanced (callee.kinds ++ grouped (kindsOfItems arguments)) :=
    reparses.operand.balanced.append
      (.group (balanced_items fun item member => (each item member).operand) .nil)
  refine of_assignment rfl rfl balanced fun {depth stream close} low spells ends => ?_
  have small (item : Expr) (member : item ∈ arguments) : 5 * item.height ≤ depth := by
    have := height_le_of_mem member
    omega
  obtain ⟨opening, before, after⟩ := spells.append
  obtain ⟨closing, inside, last⟩ := after.advance.append
  obtain ⟨values, loops, bares⟩ := loop_listRound small each inside last.kind []
  rw [last.advance.eq_rest, List.reverse_nil, List.nil_append] at loops
  have opens : opening.isAt .parenOpen := TokenStream.isAt_eq after.kind
  have items : Parser.arguments (Parser.assignment (Level.above (m := Parser) (depth + 1)))
    opening =
      .ok (values, close) := by
    rw [Parser.arguments, Parser.list, expect_bind_of_isAt opens]
    exact loops
  have arrow : opening.current.kind.isPunctuator .arrow = false := by rw [after.kind]; rfl
  -- The callee is read first, and the call is the link behind it.
  have enough : 5 * callee.height ≤ depth + 3 := by omega
  refine reparses.link enough before arrow ends fun {value} bare => ?_
  refine ⟨?value, ?read, ?bare⟩
  case read =>
    apply loop_of_done
    rw [Parser.linksRound, look_bind, after.kind]
    change (Parser.descend _ >>= _ : Parser (Expr ⊕ Expr)) opening = _
    rw [descend_bind, assignment_above, bind_ok items, spanFrom_bind,
      bind_ok (links_of_stop _ _ _ ends.endsOperand.link)]
    rfl
  case bare => simp [Expr.bare, bareExprs_eq_map, bare, bares]

end Expr.Reparses

theorem Expr.Plain.reparses {expr : Expr} (plain : expr.Plain) : expr.Reparses := by
  induction plain with
  | null span => exact .literal .null span
  | boolean value span => exact .literal (.boolean value) span
  | string span inside => exact .literal (.string _) span
  | identifier name => exact .identifier name
  | unary op span _ ih => exact .unaryOperator op span ih
  | binary op span _ _ ihLeft ihRight => exact .infixOperator (.binary op) span ihLeft ihRight
  | logical op span _ _ ihLeft ihRight => exact .infixOperator (.logical op) span ihLeft ihRight
  | conditional span _ _ _ ihTest ihConsequent ihAlternate =>
    exact .conditional span ihTest ihConsequent ihAlternate
  | assignment op span name _ ih => exact .assignmentOperator op span name ih
  | update op order span name => exact .updateOperator op order span name
  | sequence span several _ ih => exact .sequence span several ih
  | member span _ _ ih => exact .member span ih
  | call span _ _ ih ihEach => exact .call span ih ihEach

namespace Parser

variable {kinds : List TokenKind} {stream rest : TokenStream}

theorem plainStatement_of_operand (level : Level Parser)
    (starts : StartsOperand stream.current.kind) :
    plainStatement level stream = expressionStatement level stream := by
  rw [plainStatement, look_bind]
  generalize stream.current.kind = kind at starts
  cases starts <;> rfl

theorem statement_of_operand (level : Level Parser) (operand : Operand kinds)
    (spells : stream.Spells kinds rest) (stop : rest.current.kind.isPunctuator .colon = false) :
    statement level stream = expressionStatement level stream := by
  have starts := operand.startsOperand spells
  have skipped : stream.word?.bind skippedStatement? = none := by
    rw [TokenStream.word?]
    generalize stream.current.kind = kind at starts
    cases starts with
    | identifier free => exact skippedStatement?_eq_none free
    | _ => rfl
  have label : (stream.isAtIdentifier && stream.peek.kind.isPunctuator .colon) = false := by
    cases operand with
    | token => rw [spells.peek, stop, Bool.and_false]
    | group =>
      have opens := spells.kind
      simp [TokenStream.isAtIdentifier, TokenStream.word?, opens]
  rw [statement, look_bind, skipped]
  simp only [label]
  exact plainStatement_of_operand level starts

theorem expressionStatement_of_semicolon {level : Level Parser} {value : Expr}
    (read : expression level stream = .ok (value, rest))
    (found : rest.current.kind = .punctuator .semicolon) :
    expressionStatement level stream =
      .ok (.expression value (rest.advance.spanFrom stream.current.span), rest.advance) := by
  have last : endStatement (m := Parser) rest = .ok ((), rest.advance) := by
    rw [endStatement, eat_bind_of_isAt (TokenStream.isAt_eq found)]
    rfl
  rw [expressionStatement, start_bind, bind_ok read, bind_ok last]
  rfl

end Parser

theorem Expr.Reparses.statement {expr : Expr} (reparses : expr.Reparses) {depth : Nat}
    (low : 5 * expr.height ≤ depth) {stream rest : TokenStream}
    (spells : stream.Spells (expr.kinds ++ [.punctuator .semicolon]) rest) :
    ∃ value span, Parser.statement (Level.above (m := Parser) (depth + 2)) stream =
      .ok (.expression value span, rest) ∧ value.bare = expr.bare := by
  obtain ⟨semicolon, before, after⟩ := spells.append
  have ends : EndsItem semicolon.current.kind := after.kind ▸ .semicolon
  have found (mark : Punctuator) : semicolon.isAt mark = (Punctuator.semicolon == mark) :=
    TokenStream.isAt_eq after.kind
  obtain ⟨value, read, bare⟩ := (reparses.assignment low before ends).expression (found .comma)
  refine ⟨value, rest.spanFrom stream.current.span, ?_, bare⟩
  rw [Parser.statement_of_operand _ reparses.operand before (found .colon),
    Parser.expressionStatement_of_semicolon read after.kind, after.advance.eq_rest]

namespace Program

theorem spells_of_kinds {source : String} {kinds : List TokenKind}
    (same : (tokens source).map (·.kind) = kinds ++ [.endOfInput])
    (line : ∀ token ∈ tokens source, token.newlineBefore = false) :
    ∃ rest, (TokenStream.ofText source).Spells kinds rest ∧ rest.isAtEnd := by
  rw [← TokenStream.tokens_ofText] at same line
  obtain ⟨rest, spells, left⟩ := (TokenStream.ofText_stands source).spells same (by simp) line
  exact ⟨rest, spells, rest.isAtEnd_of_tokens left⟩

theorem parse_of_statement {source : String} {kinds : List TokenKind} {rest : TokenStream}
    {statement : Statement} (spells : (TokenStream.ofText source).Spells kinds rest)
    (starts : (TokenStream.ofText source).isAtEnd = false) (ended : rest.isAtEnd)
    (read : Parser.statement (Level.above (m := Parser) 127) (.ofText source) =
      .ok (statement, rest)) :
    ∃ whole, Program.parse source = .ok ⟨[statement], whole⟩ := by
  -- The loop goes on only while there is less left to read.
  have shorter : rest.remaining < (TokenStream.ofText source).remaining := by
    cases spells with
    | nothing => simp [starts] at ended
    | token line shorter spells => exact Nat.lt_of_le_of_lt spells.remaining_le shorter
  have first : Parser.programRound (Level.above (m := Parser) maxNesting) [] (.ofText source) =
      .ok (.inl [statement], rest) := by
    rw [Parser.programRound, look_bind, starts]
    exact bind_ok read _
  have last : Parser.programRound (Level.above (m := Parser) maxNesting) [statement] rest =
      .ok (.inr [statement], rest) := by
    rw [Parser.programRound, look_bind, ended]
    rfl
  have whole := (loop_of_more first shorter).trans (loop_of_done last)
  refine ⟨⟨0, rest.current.span.stop, 1, 1⟩, ?_⟩
  have all : Parser.program (m := Parser) (.ofText source) =
      .ok (⟨[statement], ⟨0, rest.current.span.stop, 1, 1⟩⟩, rest) := by
    rw [Parser.program, bind_ok whole]
    rfl
  rw [Program.parse, StateT.run', all]
  rfl

theorem parse_of_kinds {expr : Expr} (plain : expr.Plain) (low : expr.height ≤ 25)
    {source : String}
    (kinds : (tokens source).map (·.kind) = expr.kinds ++ [.punctuator .semicolon, .endOfInput])
    (line : ∀ token ∈ tokens source, token.newlineBefore = false) :
    ∃ value span whole, Program.parse source = .ok ⟨[.expression value span], whole⟩ ∧
      value.bare = expr.bare := by
  have split : expr.kinds ++ [.punctuator .semicolon, .endOfInput] =
      (expr.kinds ++ [.punctuator .semicolon]) ++ [.endOfInput] := by simp
  obtain ⟨rest, spells, ended⟩ := spells_of_kinds (kinds.trans split) line
  have reparses := plain.reparses
  obtain ⟨semicolon, before, -⟩ := spells.append
  have starts : (TokenStream.ofText source).isAtEnd = false :=
    (reparses.operand.startsOperand before).isEnd
  have enough : 5 * expr.height ≤ 125 := by omega
  obtain ⟨value, span, read, bare⟩ := reparses.statement enough spells
  obtain ⟨whole, read⟩ := parse_of_statement spells starts ended read
  exact ⟨value, span, whole, read, bare⟩

end Program

/-- A plain expression of height twenty at most is parsed from its printed text and a semicolon as
the one statement of a program, with the same tree. -/
theorem Program.parse_printed {expr : Expr} (plain : expr.Plain) (low : expr.height ≤ 20) :
    ∃ value span whole, Program.parse (expr.printed ++ ";") =
        .ok ⟨[.expression value span], whole⟩ ∧ value.bare = expr.bare := by
  obtain ⟨kinds, line⟩ := plain.tokens_printed
  exact parse_of_kinds plain (by omega) kinds line

def callWithSequence : Expr :=
  let id (name : String) : Identifier := ⟨name, default⟩
  let negated : Expr := .unary .minus (.identifier (id "b")) default
  let slash : Expr := .literal (.string "/") default
  let divided : Expr := .binary .divide (.identifier (id "d")) slash default
  .call (.member (.identifier (id "log")) (id "in") default)
    [.sequence [.assignment .divide (id "a") negated default,
        .update .increment .readFirst (id "c") default] default,
      .conditional divided (.literal .null default) (.literal (.boolean true) default) default]
    default

theorem callWithSequence_plain : callWithSequence.Plain := by
  refine .call _ (.member _ (.identifier (by decide +kernel)) (by decide +kernel))
    (List.forall_mem_cons.mpr ⟨?first, List.forall_mem_singleton.mpr ?second⟩)
  case first =>
    refine .sequence _ (by decide)
      (List.forall_mem_cons.mpr ⟨?assignment, List.forall_mem_singleton.mpr ?update⟩)
    case assignment =>
      exact .assignment _ _ (by decide +kernel) (.unary _ _ (.identifier (by decide +kernel)))
    case update => exact .update _ _ _ (by decide +kernel)
  case second =>
    have slash : ∀ c ∈ ['/'], c ≠ StringLiteral.double ∧ c ≠ '\\' ∧
        Text.isLineTerminator c = false := List.forall_mem_singleton.mpr (by decide)
    exact .conditional _ (.binary _ _ (.identifier (by decide +kernel)) (.string _ slash))
      (.null _) (.boolean _ _)

theorem callWithSequence_parse_printed :
    callWithSequence.printed = "((log.in)(((a /= (- b)), (c++)), ((d / \"/\") ? null : true)))" ∧
      callWithSequence.height = 4 ∧
      ∃ value span whole, Program.parse (callWithSequence.printed ++ ";") =
        .ok ⟨[.expression value span], whole⟩ ∧ value.bare = callWithSequence.bare :=
  ⟨by decide +kernel, by decide +kernel,
    Program.parse_printed callWithSequence_plain (by decide +kernel)⟩

end EventLoop
