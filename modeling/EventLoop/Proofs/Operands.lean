import EventLoop.Proofs.Printing
import EventLoop.Proofs.Streams

set_option autoImplicit false

/-!
# Operands in front of a parser

What each parser does that finds an operand in front of it: it hands the operand on when the token
after it does not carry it on. Operands are single tokens and balanced groups.
-/

namespace EventLoop

inductive StartsOperand : TokenKind → Prop where
  | identifier {name : String} (free : isReserved name = false) : StartsOperand (.identifier name)
  | string (value : String) : StartsOperand (.string value)
  | number (value : Float) : StartsOperand (.number value)
  | trueWord : StartsOperand (.keyword .trueWord)
  | falseWord : StartsOperand (.keyword .falseWord)
  | nullWord : StartsOperand (.keyword .nullWord)
  | parenOpen : StartsOperand (.punctuator .parenOpen)

inductive EndsItem : TokenKind → Prop where
  | parenClose : EndsItem (.punctuator .parenClose)
  | comma : EndsItem (.punctuator .comma)
  | colon : EndsItem (.punctuator .colon)
  | semicolon : EndsItem (.punctuator .semicolon)

def TokenKind.isLink : TokenKind → Bool
  | .punctuator .dot | .punctuator .parenOpen | .punctuator .optionalChain
  | .punctuator .bracketOpen | .template _ => true
  | _ => false

structure EndsOperand (kind : TokenKind) : Prop where
  link : kind.isLink = false
  update : UpdateOp.ofToken? kind = none
  arrow : kind.isPunctuator .arrow = false

theorem StartsOperand.ofToken? {kind : TokenKind} (starts : StartsOperand kind) :
    UnaryOp.ofToken? kind = none ∧ UpdateOp.ofToken? kind = none := by
  cases starts <;> exact ⟨rfl, rfl⟩

theorem StartsOperand.isEnd {kind : TokenKind} (starts : StartsOperand kind) :
    kind.isEnd = false := by
  cases starts <;> rfl

theorem StartsOperand.isKeyword {kind : TokenKind} (starts : StartsOperand kind) {word : Keyword}
    (leading : word ∈ [Keyword.newWord, .awaitWord, .asyncWord]) : kind.isKeyword word = false := by
  simp only [List.mem_cons, List.not_mem_nil, or_false] at leading
  obtain rfl | rfl | rfl := leading <;> cases starts <;> rfl

theorem StartsOperand.isPunctuator {kind : TokenKind} (starts : StartsOperand kind)
    {mark : Punctuator} (other : mark ∈ [Punctuator.parenClose, .ellipsis]) :
    kind.isPunctuator mark = false := by
  simp only [List.mem_cons, List.not_mem_nil, or_false] at other
  obtain rfl | rfl := other <;> cases starts <;> rfl

theorem EndsItem.stops {kind : TokenKind} (ends : EndsItem kind) :
    Operator.ofToken? kind = none ∧ AssignOp.ofToken? kind = none ∧
      kind.isPunctuator .question = false := by
  cases ends <;> exact ⟨rfl, rfl, rfl⟩

theorem EndsItem.endsOperand {kind : TokenKind} (ends : EndsItem kind) : EndsOperand kind := by
  cases ends <;> exact ⟨rfl, rfl, rfl⟩

theorem Operator.endsOperand_token (op : Operator) : EndsOperand op.token := by
  rcases op with op | op <;> cases op <;> exact ⟨rfl, rfl, rfl⟩

theorem AssignOp.endsOperand_mark (op : AssignOp) : EndsOperand (.punctuator op.mark) := by
  cases op <;> exact ⟨rfl, rfl, rfl⟩

structure LeadsOperand (kind : TokenKind) : Prop where
  word : ∀ name, kind ≠ .identifier name
  opens : kind.isPunctuator .parenOpen = false
  async : kind.isKeyword .asyncWord = false

theorem UnaryOp.leadsOperand (op : UnaryOp) : LeadsOperand op.token := by
  cases op <;> exact ⟨nofun, rfl, rfl⟩

theorem UpdateOp.leadsOperand (op : UpdateOp) : LeadsOperand (.punctuator op.mark) := by
  cases op <;> exact ⟨nofun, rfl, rfl⟩

theorem LeadsOperand.isAtArrow {stream : TokenStream} (leads : LeadsOperand stream.current.kind) :
    stream.isAtArrow = false := by
  have word : stream.word? = none := by
    rw [TokenStream.word?]
    split
    next name kind => exact absurd kind (leads.word name)
    next => rfl
  simp [TokenStream.isAtArrow, TokenStream.isAtIdentifier, word, TokenStream.isAt, leads.opens]

inductive Operand : List TokenKind → Prop where
  | token {kind : TokenKind} (starts : StartsOperand kind)
      (single : kind.isPunctuator .parenOpen = false) : Operand [kind]
  | group {inner : List TokenKind} (balanced : Balanced inner) : Operand (grouped inner)

namespace Operand

variable {kinds : List TokenKind}

theorem balanced (operand : Operand kinds) : Balanced kinds := by
  cases operand with
  | token starts single =>
    exact .token starts.isEnd single (starts.isPunctuator (by decide)) .nil
  | group balanced => exact .group balanced .nil

theorem startsOperand (operand : Operand kinds) {stream rest : TokenStream}
    (spells : stream.Spells kinds rest) : StartsOperand stream.current.kind := by
  cases operand with
  | token starts => exact spells.kind ▸ starts
  | group => exact spells.kind ▸ .parenOpen

theorem async (operand : Operand kinds) {stream rest : TokenStream}
    (spells : stream.Spells kinds rest) : stream.current.kind.isKeyword .asyncWord = false :=
  (operand.startsOperand spells).isKeyword (by decide)

theorem isAtArrow (operand : Operand kinds) {stream rest : TokenStream}
    (spells : stream.Spells kinds rest) (stop : rest.current.kind.isPunctuator .arrow = false) :
    stream.isAtArrow = false := by
  cases operand with
  | token starts single =>
    rw [TokenStream.isAtArrow, spells.peek, stop, TokenStream.isAt, spells.kind, single]
    simp
  | group balanced => exact TokenStream.isAtArrow_group balanced spells stop

end Operand

theorem Balanced.operator {kinds : List TokenKind} (op : Operator) (after : Balanced kinds) :
    Balanced (op.token :: kinds) := by
  rcases op with op | op <;> cases op <;> exact .token rfl rfl rfl after

theorem balanced_rest {items : List Expr} (each : ∀ item ∈ items, Operand item.kinds) :
    Balanced (kindsOfRest items) := by
  induction items with
  | nil => exact .nil
  | cons item rest ih =>
    rw [List.forall_mem_cons] at each
    exact .token rfl rfl rfl (each.1.balanced.append (ih each.2))

theorem balanced_items {items : List Expr} (each : ∀ item ∈ items, Operand item.kinds) :
    Balanced (kindsOfItems items) := by
  cases items with
  | nil => exact .nil
  | cons item rest =>
    rw [List.forall_mem_cons] at each
    exact each.1.balanced.append (balanced_rest each.2)

theorem Literal.operand (value : Literal) : Operand [value.token] := by
  cases value with
  | null => exact .token .nullWord rfl
  | boolean value =>
    cases value with
    | true => exact .token .trueWord rfl
    | false => exact .token .falseWord rfl
  | number value => exact .token (.number value) rfl
  | string value => exact .token (.string value) rfl

theorem reservedOperand?_eq_none {name : String} (free : isReserved name = false) :
    reservedOperand? name = none := by
  unfold reservedOperand?
  split
  case h_5 => rfl
  all_goals exact absurd free (by decide)

theorem skippedStatement?_eq_none {name : String} (free : isReserved name = false) :
    skippedStatement? name = none := by
  unfold skippedStatement?
  split
  case h_14 => rfl
  all_goals exact absurd free (by decide)

theorem Parser.propertyName_of_word {name : String} {stream : TokenStream}
    (kind : stream.current.kind = wordKind name.toList) :
    (propertyName : Parser Identifier) stream =
      .ok (⟨name, stream.current.span⟩, stream.advance) := by
  rw [propertyName, look_bind, kind, wordKind]
  cases found : Keyword.ofChars? name.toList with
  | none =>
    simp only [String.ofList_toList]
    rfl
  | some keyword =>
    have chars : keyword.chars = name.toList := by
      simpa using List.find?_some found
    have text : keyword.text = name := by rw [Keyword.text, chars, String.ofList_toList]
    simp only [text]
    rfl

namespace Parser

variable {stream rest : TokenStream} {operand : Expr}

theorem assignment_above (depth : Nat) :
    (Level.above (m := Parser) (depth + 1)).assignment =
      assignment (Level.above (m := Parser) depth) := rfl

theorem unary_above (depth : Nat) : (Level.above (m := Parser) (depth + 1)).unary =
    unary (Level.above (m := Parser) depth) := rfl

theorem links_of_stop (depth : Nat) (operand : Expr) (start : Span)
    (stop : stream.current.kind.isLink = false) :
    (Level.above (m := Parser) depth).links operand start stream = .ok (operand, stream) := by
  have round (deeper : Option (Level Parser)) (assignment : Parser Expr) :
      links deeper assignment operand start stream = .ok (operand, stream) := by
    apply loop_of_done
    rw [linksRound, look_bind]
    generalize stream.current.kind = kind at stop
    split
    case h_6 => rfl
    all_goals cases stop
  cases depth <;> exact round ..

theorem operators_of_stop (depth : Nat) (left : Expr) (minimum : Nat) (start : Span)
    (stop : Operator.ofToken? stream.current.kind = none) :
    (Level.above (m := Parser) depth).operators left minimum start stream = .ok (left, stream) := by
  have round (deeper : Option (Level Parser)) :
      operators deeper left minimum start stream = .ok (left, stream) := by
    rw [operators, look_bind, stop]
    rfl
  cases depth <;> exact round _

theorem leftHandSide_of_primary {level : Level Parser} (starts : StartsOperand stream.current.kind)
    (read : primary level stream = .ok (operand, rest)) :
    leftHandSide level stream = level.links operand stream.current.span rest := by
  have plain : stream.current.kind.isKeyword .newWord = false := starts.isKeyword (by decide)
  rw [leftHandSide, start_bind]
  simp only [look_bind, plain]
  exact bind_ok read _

theorem postfixed_of_stop {level : Level Parser}
    (read : leftHandSide level stream = .ok (operand, rest))
    (stop : UpdateOp.ofToken? rest.current.kind = none) (start : Span) :
    postfixed level start stream = .ok (operand, rest) := by
  rw [postfixed, bind_ok read, look_bind, stop]
  rfl

theorem unary_of_operand {level : Level Parser} (starts : StartsOperand stream.current.kind) :
    unary level stream = postfixed level stream.current.span stream := by
  have plain : stream.current.kind.isKeyword .awaitWord = false := starts.isKeyword (by decide)
  rw [unary, start_bind, look_bind, starts.ofToken?.1, starts.ofToken?.2]
  simp only [plain]
  rfl

theorem binary_of_unary {level : Level Parser} (read : level.unary stream = .ok (operand, rest))
    (minimum : Nat) :
    binary level minimum stream = level.operators operand minimum stream.current.span rest := by
  rw [binary, start_bind, bind_ok read]
  rfl

theorem assignment_of_binary {level : Level Parser} (arrow : stream.isAtArrow = false)
    (async : stream.current.kind.isKeyword .asyncWord = false)
    (read : binary level 0 stream = .ok (operand, rest)) :
    assignment level stream = tails level operand stream.current.span rest := by
  rw [assignment, look_bind]
  simp only [arrow, async]
  exact bind_ok read _

theorem conditionalTail_of_stop {level : Level Parser} (stop : stream.isAt .question = false)
    (test : Expr) (start : Span) :
    conditionalTail level test start stream = .ok (test, stream) := by
  rw [conditionalTail, eat_bind_of_not_isAt stop]
  rfl

theorem assignmentTail_of_stop {level : Level Parser}
    (stop : AssignOp.ofToken? stream.current.kind = none)
    (left : Expr) (start : Span) :
    assignmentTail level left start stream = .ok (left, stream) := by
  rw [assignmentTail, look_bind, stop]
  rfl

theorem tails_of_ends {level : Level Parser} (ends : EndsItem stream.current.kind) (operand : Expr)
    (start : Span) : tails level operand start stream = .ok (operand, stream) := by
  obtain ⟨-, assigns, question⟩ := ends.stops
  rw [tails, bind_ok (conditionalTail_of_stop question operand start)]
  exact assignmentTail_of_stop assigns operand start

end Parser

def Parser.Gives (parser : Parser Expr) (stream : TokenStream) (expr : Expr) (rest : TokenStream) :
    Prop :=
  ∃ value, parser stream = .ok (value, rest) ∧ value.bare = expr.bare

namespace Parser.Gives

variable {stream rest close : TokenStream} {depth : Nat} {level : Level Parser} {expr : Expr}

theorem unary (read : (primary (Level.above (m := Parser) depth)).Gives stream expr rest)
    (starts : StartsOperand stream.current.kind) (stop : EndsOperand rest.current.kind) :
    (Parser.unary (Level.above (m := Parser) depth)).Gives stream expr rest := by
  obtain ⟨value, read, bare⟩ := read
  refine ⟨value, ?_, bare⟩
  rw [unary_of_operand starts]
  refine postfixed_of_stop ?_ stop.update _
  rw [leftHandSide_of_primary starts read]
  exact links_of_stop _ _ _ stop.link

theorem assignment (read : (Parser.unary (Level.above (m := Parser) depth)).Gives stream expr rest)
    (arrow : stream.isAtArrow = false) (async : stream.current.kind.isKeyword .asyncWord = false)
    (stop : EndsItem rest.current.kind) :
    (Parser.assignment (Level.above (m := Parser) (depth + 1))).Gives stream expr rest := by
  obtain ⟨value, read, bare⟩ := read
  have whole : binary (Level.above (m := Parser) (depth + 1)) 0 stream = .ok (value, rest) := by
    rw [binary_of_unary read]
    exact operators_of_stop _ _ _ _ stop.stops.1
  refine ⟨value, ?_, bare⟩
  rw [assignment_of_binary arrow async whole]
  exact tails_of_ends stop value _

theorem expression (read : (Parser.assignment (Level.above (m := Parser) depth)).Gives stream expr
    rest)
    (stop : rest.isAt .comma = false) :
    (Parser.expression (Level.above (m := Parser) (depth + 1))).Gives stream expr rest := by
  obtain ⟨value, read, bare⟩ := read
  refine ⟨value, ?_, bare⟩
  rw [Parser.expression, start_bind, assignment_above, bind_ok read, isAt_bind, stop]
  rfl

theorem group (read : (Parser.expression level).Gives stream.advance expr close)
    (opens : stream.current.kind = .punctuator .parenOpen) (closes : close.isAt .parenClose) :
    (primary level).Gives stream expr close.advance := by
  obtain ⟨value, read, bare⟩ := read
  refine ⟨value, ?_, bare⟩
  rw [primary, start_bind, look_bind, opens]
  change parenthesised level stream = _
  rw [parenthesised, advance_bind, bind_ok read, expect_bind_of_isAt closes]
  rfl

end Parser.Gives

end EventLoop
