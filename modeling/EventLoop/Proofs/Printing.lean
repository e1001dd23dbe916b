import EventLoop.Parsing.Operators
import EventLoop.Parsing.Words
import EventLoop.Proofs.Spellings

set_option autoImplicit false

/-!
# Printed expressions

Expressions are printed with a pair of parentheses around every compound one, so that no operator
has to be weighed against another.
-/

namespace EventLoop

open Text (IsWord isLineTerminator isWordStart isWordPart)

def Identifier.bare (id : Identifier) : Identifier := { id with span := default }

mutual

def Expr.bare : Expr → Expr
  | .literal value _ => .literal value default
  | .identifier id => .identifier id.bare
  | .function node => .function node.bare
  | .unary op argument _ => .unary op argument.bare default
  | .binary op left right _ => .binary op left.bare right.bare default
  | .logical op left right _ => .logical op left.bare right.bare default
  | .conditional test consequent alternate _ =>
      .conditional test.bare consequent.bare alternate.bare default
  | .assignment op target value _ => .assignment op target.bare value.bare default
  | .update op order target _ => .update op order target.bare default
  | .sequence items _ => .sequence (bareExprs items) default
  | .member object property _ => .member object.bare property.bare default
  | .call callee arguments _ => .call callee.bare (bareExprs arguments) default
  | .unsupported kind _ => .unsupported kind default

def bareExprs : List Expr → List Expr
  | [] => []
  | expr :: rest => expr.bare :: bareExprs rest

def FunctionBody.bare : FunctionBody → FunctionBody
  | .block body _ => .block (bareStatements body) default
  | .expression value => .expression value.bare

def FunctionNode.bare : FunctionNode → FunctionNode
  | ⟨form, id, params, body, _⟩ =>
      ⟨form, id.map (·.bare), params.map (·.bare), body.bare, default⟩

def Declarator.bare : Declarator → Declarator
  | ⟨id, none, _⟩ => ⟨id.bare, none, default⟩
  | ⟨id, some init, _⟩ => ⟨id.bare, some init.bare, default⟩

def bareDeclarators : List Declarator → List Declarator
  | [] => []
  | declarator :: rest => declarator.bare :: bareDeclarators rest

def Statement.bare : Statement → Statement
  | .declaration kind declarators _ => .declaration kind (bareDeclarators declarators) default
  | .function node => .function node.bare
  | .expression value _ => .expression value.bare default
  | .returns none _ => .returns none default
  | .returns (some argument) _ => .returns (some argument.bare) default
  | .block body _ => .block (bareStatements body) default
  | .empty _ => .empty default
  | .unsupported kind _ => .unsupported kind default

def bareStatements : List Statement → List Statement
  | [] => []
  | statement :: rest => statement.bare :: bareStatements rest

end

theorem bareExprs_eq_map (exprs : List Expr) : bareExprs exprs = exprs.map Expr.bare := by
  induction exprs with
  | nil => rfl
  | cons expr rest ih => simp [bareExprs, ih]

theorem Expr.exists_identifier_of_bare {value : Expr} {id : Identifier}
    (bare : value.bare = (Expr.identifier id).bare) :
    ∃ found : Identifier, value = .identifier found ∧ found.bare = id.bare := by
  cases value <;> simp_all [Expr.bare]

structure IsName (name : String) : Prop where
  word : IsWord name.toList
  free : Keyword.ofChars? name.toList = none
  unreserved : isReserved name = false

instance (name : String) : Decidable (IsName name) :=
  decidable_of_iff
    (IsWord name.toList ∧ Keyword.ofChars? name.toList = none ∧ isReserved name = false)
    ⟨fun ⟨word, free, unreserved⟩ => ⟨word, free, unreserved⟩,
      fun ⟨word, free, unreserved⟩ => ⟨word, free, unreserved⟩⟩

namespace Expr

/-- Expressions without functions, numbers and forms that are not run, and with names and strings
that can be written down as they are. -/
inductive Plain : Expr → Prop where
  | null (span : Span) : Plain (.literal .null span)
  | boolean (value : Bool) (span : Span) : Plain (.literal (.boolean value) span)
  | string {value : String} (span : Span)
      (inside : ∀ c ∈ value.toList,
        c ≠ StringLiteral.double ∧ c ≠ '\\' ∧ isLineTerminator c = false) :
      Plain (.literal (.string value) span)
  | identifier {id : Identifier} (name : IsName id.name) : Plain (.identifier id)
  | unary (op : UnaryOp) {argument : Expr} (span : Span) (operand : Plain argument) :
      Plain (.unary op argument span)
  | binary (op : BinaryOp) {left right : Expr} (span : Span) (first : Plain left)
      (second : Plain right) : Plain (.binary op left right span)
  | logical (op : LogicalOp) {left right : Expr} (span : Span) (first : Plain left)
      (second : Plain right) : Plain (.logical op left right span)
  | conditional {test consequent alternate : Expr} (span : Span) (first : Plain test)
      (second : Plain consequent) (third : Plain alternate) :
      Plain (.conditional test consequent alternate span)
  | assignment (op : AssignOp) {target : Identifier} {value : Expr} (span : Span)
      (name : IsName target.name) (operand : Plain value) : Plain (.assignment op target value span)
  | update (op : UpdateOp) (order : UpdateOrder) {target : Identifier} (span : Span)
      (name : IsName target.name) : Plain (.update op order target span)
  | sequence {items : List Expr} (span : Span) (several : 2 ≤ items.length)
      (each : ∀ item ∈ items, Plain item) : Plain (.sequence items span)
  | member {object : Expr} {property : Identifier} (span : Span) (operand : Plain object)
      (word : IsWord property.name.toList) : Plain (.member object property span)
  | call {callee : Expr} {arguments : List Expr} (span : Span) (operand : Plain callee)
      (each : ∀ argument ∈ arguments, Plain argument) : Plain (.call callee arguments span)

end Expr

mutual

def Expr.height : Expr → Nat
  | .literal .. | .identifier .. | .function .. | .unsupported .. => 0
  | .update .. => 1
  | .unary _ argument _ => argument.height + 1
  | .binary _ left right _ => max left.height right.height + 1
  | .logical _ left right _ => max left.height right.height + 1
  | .conditional test consequent alternate _ =>
      max test.height (max consequent.height alternate.height) + 1
  | .assignment _ _ value _ => value.height + 1
  | .sequence items _ => heightOfExprs items + 1
  | .member object _ _ => object.height + 1
  | .call callee arguments _ => max callee.height (heightOfExprs arguments) + 1

def heightOfExprs : List Expr → Nat
  | [] => 0
  | expr :: rest => max expr.height (heightOfExprs rest)

end

theorem height_le_of_mem {item : Expr} {items : List Expr} (member : item ∈ items) :
    item.height ≤ heightOfExprs items := by
  induction items with
  | nil => cases member
  | cons first rest ih =>
    obtain rfl | later := List.mem_cons.mp member
    next => exact Nat.le_max_left ..
    next => exact (ih later).trans (Nat.le_max_right ..)

def inParens (text : String) : String := "(" ++ text ++ ")"

def Literal.printed : Literal → String
  | .null => "null"
  | .boolean true => "true"
  | .boolean false => "false"
  | .string value => "\"" ++ value ++ "\""
  | .number _ => ""

mutual

/-- The expression with parentheses around it if it is compound, and around each compound expression
in it. Functions and forms that are not run have no text here. -/
def Expr.printed : Expr → String
  | .literal value _ => value.printed
  | .identifier id => id.name
  | .unary op argument _ => inParens (op.text ++ " " ++ argument.printed)
  | .binary op left right _ => inParens (left.printed ++ " " ++ op.text ++ " " ++ right.printed)
  | .logical op left right _ => inParens (left.printed ++ " " ++ op.text ++ " " ++ right.printed)
  | .conditional test consequent alternate _ =>
      inParens (test.printed ++ " ? " ++ consequent.printed ++ " : " ++ alternate.printed)
  | .assignment op target value _ =>
      inParens (target.name ++ " " ++ op.text ++ " " ++ value.printed)
  | .update op .updateFirst target _ => inParens (op.text ++ target.name)
  | .update op .readFirst target _ => inParens (target.name ++ op.text)
  | .sequence items _ => inParens (printedItems items)
  | .member object property _ => inParens (object.printed ++ "." ++ property.name)
  | .call callee arguments _ => inParens (callee.printed ++ inParens (printedItems arguments))
  | .function .. | .unsupported .. => ""

def printedItems : List Expr → String
  | [] => ""
  | item :: rest => item.printed ++ printedRest rest

def printedRest : List Expr → String
  | [] => ""
  | item :: rest => ", " ++ item.printed ++ printedRest rest

end

namespace UnaryOp

def token : UnaryOp → TokenKind
  | .minus => .punctuator .minus
  | .plus => .punctuator .plus
  | .not => .punctuator .bang
  | .bitNot => .punctuator .tilde
  | .typeof => .keyword .typeofWord
  | .void => .keyword .voidWord
  | .delete => .keyword .deleteWord

@[simp]
theorem ofToken?_token (op : UnaryOp) : ofToken? op.token = some op := by
  cases op <;> rfl

end UnaryOp

namespace Operator

def text : Operator → String
  | .binary op => op.text
  | .logical op => op.text

def token : Operator → TokenKind
  | .logical .coalesce => .punctuator .coalesce
  | .logical .or => .punctuator .logicalOr
  | .logical .and => .punctuator .logicalAnd
  | .binary .bitOr => .punctuator .bar
  | .binary .bitXor => .punctuator .caret
  | .binary .bitAnd => .punctuator .ampersand
  | .binary .equal => .punctuator .equal
  | .binary .notEqual => .punctuator .notEqual
  | .binary .strictEqual => .punctuator .strictEqual
  | .binary .strictNotEqual => .punctuator .strictNotEqual
  | .binary .less => .punctuator .less
  | .binary .lessEqual => .punctuator .lessEqual
  | .binary .greater => .punctuator .greater
  | .binary .greaterEqual => .punctuator .greaterEqual
  | .binary .shiftLeft => .punctuator .shiftLeft
  | .binary .shiftRight => .punctuator .shiftRight
  | .binary .unsignedShiftRight => .punctuator .unsignedShiftRight
  | .binary .add => .punctuator .plus
  | .binary .subtract => .punctuator .minus
  | .binary .multiply => .punctuator .times
  | .binary .divide => .punctuator .slash
  | .binary .remainder => .punctuator .percent
  | .binary .power => .punctuator .power
  | .binary .membership => .keyword .inWord
  | .binary .instanceof => .keyword .instanceofWord

@[simp]
theorem ofToken?_token (op : Operator) : ofToken? op.token = some op := by
  rcases op with op | op <;> cases op <;> rfl

end Operator

namespace UpdateOp

def mark : UpdateOp → Punctuator
  | .increment => .increment
  | .decrement => .decrement

@[simp]
theorem ofToken?_mark (op : UpdateOp) : ofToken? (.punctuator op.mark) = some op := by
  cases op <;> rfl

theorem unary_mark (op : UpdateOp) : UnaryOp.ofToken? (.punctuator op.mark) = none := by
  cases op <;> rfl

end UpdateOp

namespace AssignOp

def mark : AssignOp → Punctuator
  | .assign => .assign
  | .add => .plusAssign
  | .subtract => .minusAssign
  | .multiply => .timesAssign
  | .divide => .slashAssign
  | .remainder => .percentAssign
  | .power => .powerAssign
  | .bitAnd => .ampersandAssign
  | .bitOr => .barAssign
  | .bitXor => .caretAssign
  | .shiftLeft => .shiftLeftAssign
  | .shiftRight => .shiftRightAssign
  | .unsignedShiftRight => .unsignedShiftRightAssign
  | .and => .andAssign
  | .or => .orAssign
  | .coalesce => .coalesceAssign

@[simp]
theorem ofToken?_mark (op : AssignOp) : ofToken? (.punctuator op.mark) = some op := by
  cases op <;> rfl

end AssignOp

def grouped (kinds : List TokenKind) : List TokenKind :=
  .punctuator .parenOpen :: (kinds ++ [.punctuator .parenClose])

def Literal.token : Literal → TokenKind
  | .null => .keyword .nullWord
  | .boolean true => .keyword .trueWord
  | .boolean false => .keyword .falseWord
  | .string value => .string value
  | .number value => .number value

mutual

def Expr.kinds : Expr → List TokenKind
  | .literal value _ => [value.token]
  | .identifier id => [.identifier id.name]
  | .unary op argument _ => grouped (op.token :: argument.kinds)
  | .binary op left right _ => grouped (left.kinds ++ (Operator.binary op).token :: right.kinds)
  | .logical op left right _ => grouped (left.kinds ++ (Operator.logical op).token :: right.kinds)
  | .conditional test consequent alternate _ =>
      grouped (test.kinds ++ .punctuator .question ::
        (consequent.kinds ++ .punctuator .colon :: alternate.kinds))
  | .assignment op target value _ =>
      grouped (.identifier target.name :: .punctuator op.mark :: value.kinds)
  | .update op .updateFirst target _ => grouped [.punctuator op.mark, .identifier target.name]
  | .update op .readFirst target _ => grouped [.identifier target.name, .punctuator op.mark]
  | .sequence items _ => grouped (kindsOfItems items)
  | .member object property _ =>
      grouped (object.kinds ++ [.punctuator .dot, wordKind property.name.toList])
  | .call callee arguments _ => grouped (callee.kinds ++ grouped (kindsOfItems arguments))
  | .function .. | .unsupported .. => []

def kindsOfItems : List Expr → List TokenKind
  | [] => []
  | item :: rest => item.kinds ++ kindsOfRest rest

def kindsOfRest : List Expr → List TokenKind
  | [] => []
  | item :: rest => .punctuator .comma :: (item.kinds ++ kindsOfRest rest)

end

inductive Spelled : TokenKind → String → Prop where
  | mark (mark : Punctuator) : Spelled (.punctuator mark) mark.text
  | word (word : Keyword) : Spelled (.keyword word) word.text

theorem UnaryOp.spelled (op : UnaryOp) : Spelled op.token op.text := by
  cases op <;> constructor

theorem Operator.spelled (op : Operator) : Spelled op.token op.text := by
  rcases op with op | op <;> cases op <;> constructor

theorem AssignOp.spelled (op : AssignOp) : Spelled (.punctuator op.mark) op.text := by
  cases op <;> constructor

theorem isWordPart_delimiter :
    ∀ c ∈ [' ', '(', ')', ',', '.', '+', '-', ';'], isWordPart c = false := by
  have none : [' ', '(', ')', ',', '.', '+', '-', ';'].any isWordPart = false := by decide +kernel
  simpa only [List.any_eq_false, Bool.not_eq_true] using none

def EndsWord (after : List Char) : Prop := after.head?.all (!isWordPart ·)

theorem endsWord_cons {c : Char}
    (delimiter : c ∈ [' ', '(', ')', ',', '.', '+', '-', ';']) (after : List Char) :
    EndsWord (c :: after) := by
  simp [EndsWord, isWordPart_delimiter c delimiter]

def Expr.Readable (expr : Expr) : Prop :=
  ∀ after, EndsWord after → Lexes expr.printed.toList expr.kinds after

theorem Keyword.lexes (word : Keyword) {after : List Char} (stop : EndsWord after) :
    Lexes word.text.toList [.keyword word] after := by
  rw [← wordKind_chars, Keyword.text, String.toList_ofList]
  exact .word word.isWord stop

theorem Spelled.lexes {kind : TokenKind} {text : String} (spelled : Spelled kind text)
    (after : List Char) : Lexes text.toList [kind] (' ' :: after) := by
  cases spelled with
  | mark mark =>
    rw [Punctuator.text, String.toList_ofList]
    exact .mark mark mark.standsBefore_blank
  | word word => exact word.lexes (endsWord_cons (by decide) after)

theorem IsName.lexes {name : String} (isName : IsName name) {after : List Char}
    (stop : EndsWord after) : Lexes name.toList [.identifier name] after := by
  have kind : wordKind name.toList = .identifier name := by
    rw [wordKind, isName.free, String.ofList_toList]
  rw [← kind]
  exact .word isName.word stop

theorem Lexes.closedMark (mark : Punctuator)
    (closed : mark ∈
      [Punctuator.parenOpen, .parenClose, .comma, .increment, .decrement, .semicolon])
    (after : List Char) : Lexes mark.chars [.punctuator mark] after := by
  refine .mark mark ?_
  cases after with
  | nil => rfl
  | cons c after =>
    simp only [List.mem_cons, List.not_mem_nil, or_false] at closed
    obtain rfl | rfl | rfl | rfl | rfl | rfl := closed <;> rfl

theorem UpdateOp.lexes (op : UpdateOp) (after : List Char) :
    Lexes op.text.toList [.punctuator op.mark] after := by
  cases op with
  | increment => exact .closedMark .increment (by decide) after
  | decrement => exact .closedMark .decrement (by decide) after

theorem UpdateOp.endsWord (op : UpdateOp) (after : List Char) :
    EndsWord (op.text.toList ++ after) := by
  cases op with
  | increment => exact endsWord_cons (by decide) _
  | decrement => exact endsWord_cons (by decide) _

theorem Lexes.inParens {text : String} {kinds : List TokenKind} {after : List Char}
    (inner : Lexes text.toList kinds (')' :: after)) :
    Lexes (inParens text).toList (grouped kinds) after := by
  have opens : Lexes ['('] [.punctuator .parenOpen] (text.toList ++ [')'] ++ after) :=
    .closedMark .parenOpen (by decide) _
  have closes : Lexes [')'] [.punctuator .parenClose] after :=
    .closedMark .parenClose (by decide) after
  simpa [EventLoop.inParens, grouped] using opens.append (inner.append closes)

theorem endsWord_inParens (text : String) (after : List Char) :
    EndsWord ((inParens text).toList ++ after) := by
  simpa [inParens] using endsWord_cons (by decide) _

theorem Lexes.prefixed {kind : TokenKind} {text : String} (spelled : Spelled kind text)
    {right after : List Char} {kinds : List TokenKind} (behind : Lexes right kinds after) :
    Lexes (text.toList ++ ' ' :: right) (kind :: kinds) after :=
  (spelled.lexes (right ++ after)).append ((blank _).append behind)

theorem Lexes.infixed {kind : TokenKind} {text : String} (spelled : Spelled kind text)
    {left right after : List Char} {first second : List TokenKind}
    (before : ∀ after, EndsWord after → Lexes left first after)
    (behind : Lexes right second after) :
    Lexes (left ++ ' ' :: (text.toList ++ ' ' :: right)) (first ++ kind :: second) after :=
  (before _ (endsWord_cons (by decide) _)).append ((blank _).append (prefixed spelled behind))

theorem readable_rest {items : List Expr} (each : ∀ item ∈ items, item.Readable)
    {after : List Char} (stop : EndsWord after) :
    Lexes (printedRest items).toList (kindsOfRest items) after ∧
      EndsWord ((printedRest items).toList ++ after) := by
  induction items with
  | nil => exact ⟨.nil after, stop⟩
  | cons item rest ih =>
    rw [List.forall_mem_cons] at each
    obtain ⟨others, ends⟩ := ih each.2
    have read := (each.1 _ ends).append others
    have text : (printedRest (item :: rest)).toList =
        ',' :: ' ' :: (item.printed.toList ++ (printedRest rest).toList) := by
      simp [printedRest]
    rw [text]
    exact ⟨(Lexes.closedMark .comma (by decide) _).append ((Lexes.blank _).append read),
      endsWord_cons (by decide) _⟩

theorem readable_items {items : List Expr} (each : ∀ item ∈ items, item.Readable)
    {after : List Char} (stop : EndsWord after) :
    Lexes (printedItems items).toList (kindsOfItems items) after := by
  cases items with
  | nil => exact .nil after
  | cons item rest =>
    rw [List.forall_mem_cons] at each
    obtain ⟨others, ends⟩ := readable_rest each.2 stop
    rw [printedItems, String.toList_append]
    exact (each.1 _ ends).append others

theorem Expr.Plain.readable {expr : Expr} (plain : expr.Plain) : expr.Readable := by
  have close (after : List Char) : EndsWord (')' :: after) := endsWord_cons (by decide) after
  induction plain with
  | null span => exact fun after stop => Keyword.nullWord.lexes stop
  | boolean value span =>
    cases value with
    | true => exact fun after stop => Keyword.trueWord.lexes stop
    | false => exact fun after stop => Keyword.falseWord.lexes stop
  | @string value span inside =>
    intro after stop
    have text : (printed (.literal (.string value) span)).toList =
        StringLiteral.double :: (value.toList ++ [StringLiteral.double]) := by
      simp [printed, Literal.printed, StringLiteral.double]
    have read := Lexes.string inside after
    rwa [String.ofList_toList, ← text] at read
  | identifier name => exact fun after stop => name.lexes stop
  | unary op span operand ih =>
    intro after stop
    refine .inParens ?_
    simpa using Lexes.prefixed op.spelled (ih _ (close after))
  | binary op span first second ihFirst ihSecond =>
    intro after stop
    refine .inParens ?_
    simpa [Operator.text] using
      Lexes.infixed (Operator.binary op).spelled ihFirst (ihSecond _ (close after))
  | logical op span first second ihFirst ihSecond =>
    intro after stop
    refine .inParens ?_
    simpa [Operator.text] using
      Lexes.infixed (Operator.logical op).spelled ihFirst (ihSecond _ (close after))
  | conditional span first second third ihFirst ihSecond ihThird =>
    intro after stop
    refine .inParens ?_
    simpa [Punctuator.text, Punctuator.chars] using Lexes.infixed (.mark .question) ihFirst
      (.infixed (.mark .colon) ihSecond (ihThird _ (close after)))
  | assignment op span name operand ih =>
    intro after stop
    refine .inParens ?_
    simpa using Lexes.infixed op.spelled (fun _ => name.lexes) (ih _ (close after))
  | update op order span name =>
    intro after stop
    cases order with
    | updateFirst =>
      refine .inParens ?_
      rw [String.toList_append]
      exact (op.lexes _).append (name.lexes (close after))
    | readFirst =>
      refine .inParens ?_
      rw [String.toList_append]
      exact (name.lexes (op.endsWord _)).append (op.lexes _)
  | sequence span several each ih =>
    exact fun after stop => .inParens (readable_items ih (close after))
  | member span operand word ih =>
    intro after stop
    refine .inParens ?_
    have property := Lexes.word word (close after)
    obtain ⟨c, rest, chars, first, -⟩ := word
    rw [String.toList_append, String.toList_append, List.append_assoc]
    refine (ih _ (endsWord_cons (by decide) _)).append (.append (.mark .dot ?_) property)
    rw [chars]
    exact Punctuator.dot_standsBefore first
  | call span operand each ih ihEach =>
    intro after stop
    refine .inParens ?_
    have arguments := Lexes.inParens (readable_items ihEach (close (')' :: after)))
    rw [String.toList_append]
    exact (ih _ (endsWord_inParens _ _)).append arguments

theorem Expr.Plain.tokens_printed {expr : Expr} (plain : expr.Plain) :
    (tokens (expr.printed ++ ";")).map (·.kind) =
        expr.kinds ++ [.punctuator .semicolon, .endOfInput] ∧
      ∀ token ∈ tokens (expr.printed ++ ";"), token.newlineBefore = false := by
  have semicolon : Lexes [';'] [.punctuator .semicolon] [] := .closedMark .semicolon (by decide) []
  have read := (plain.readable _ (endsWord_cons (by decide) [])).append semicolon
  have source : (expr.printed ++ ";").toList = expr.printed.toList ++ [';'] := by simp
  rw [← source] at read
  simpa using read.tokens_eq

end EventLoop
