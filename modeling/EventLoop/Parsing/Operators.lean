import EventLoop.Parsing.Stream

set_option autoImplicit false

namespace EventLoop

inductive Operator where
  | binary (op : BinaryOp)
  | logical (op : LogicalOp)
deriving DecidableEq, Repr, Inhabited

namespace Operator

def ofPunctuator? : Punctuator → Option Operator
  | .coalesce => some (.logical .coalesce)
  | .logicalOr => some (.logical .or)
  | .logicalAnd => some (.logical .and)
  | .bar => some (.binary .bitOr)
  | .caret => some (.binary .bitXor)
  | .ampersand => some (.binary .bitAnd)
  | .equal => some (.binary .equal)
  | .notEqual => some (.binary .notEqual)
  | .strictEqual => some (.binary .strictEqual)
  | .strictNotEqual => some (.binary .strictNotEqual)
  | .less => some (.binary .less)
  | .lessEqual => some (.binary .lessEqual)
  | .greater => some (.binary .greater)
  | .greaterEqual => some (.binary .greaterEqual)
  | .shiftLeft => some (.binary .shiftLeft)
  | .shiftRight => some (.binary .shiftRight)
  | .unsignedShiftRight => some (.binary .unsignedShiftRight)
  | .plus => some (.binary .add)
  | .minus => some (.binary .subtract)
  | .times => some (.binary .multiply)
  | .slash => some (.binary .divide)
  | .percent => some (.binary .remainder)
  | .power => some (.binary .power)
  | _ => none

def ofToken? : TokenKind → Option Operator
  | .keyword .inWord => some (.binary .membership)
  | .keyword .instanceofWord => some (.binary .instanceof)
  | .punctuator mark => ofPunctuator? mark
  | _ => none

def precedence : Operator → Nat
  | .logical .coalesce | .logical .or => 4
  | .logical .and => 5
  | .binary .bitOr => 6
  | .binary .bitXor => 7
  | .binary .bitAnd => 8
  | .binary .equal | .binary .notEqual | .binary .strictEqual | .binary .strictNotEqual => 9
  | .binary .less | .binary .lessEqual | .binary .greater | .binary .greaterEqual
  | .binary .membership | .binary .instanceof => 10
  | .binary .shiftLeft | .binary .shiftRight | .binary .unsignedShiftRight => 11
  | .binary .add | .binary .subtract => 12
  | .binary .multiply | .binary .divide | .binary .remainder => 13
  | .binary .power => 14

def groupsRight (op : Operator) : Bool := op == .binary .power

def rightMinimum (op : Operator) : Nat :=
  if op.groupsRight then op.precedence else op.precedence + 1

def apply (op : Operator) (left right : Expr) (span : Span) : Expr :=
  match op with
  | .binary op => .binary op left right span
  | .logical op => .logical op left right span

end Operator

namespace UnaryOp

def ofToken? : TokenKind → Option UnaryOp
  | .punctuator .minus => some .minus
  | .punctuator .plus => some .plus
  | .punctuator .bang => some .not
  | .punctuator .tilde => some .bitNot
  | .keyword .typeofWord => some .typeof
  | .keyword .voidWord => some .void
  | .keyword .deleteWord => some .delete
  | _ => none

end UnaryOp

namespace UpdateOp

def ofToken? : TokenKind → Option UpdateOp
  | .punctuator .increment => some .increment
  | .punctuator .decrement => some .decrement
  | _ => none

end UpdateOp

namespace AssignOp

def ofPunctuator? : Punctuator → Option AssignOp
  | .assign => some .assign
  | .plusAssign => some .add
  | .minusAssign => some .subtract
  | .timesAssign => some .multiply
  | .slashAssign => some .divide
  | .percentAssign => some .remainder
  | .powerAssign => some .power
  | .ampersandAssign => some .bitAnd
  | .barAssign => some .bitOr
  | .caretAssign => some .bitXor
  | .shiftLeftAssign => some .shiftLeft
  | .shiftRightAssign => some .shiftRight
  | .unsignedShiftRightAssign => some .unsignedShiftRight
  | .andAssign => some .and
  | .orAssign => some .or
  | .coalesceAssign => some .coalesce
  | _ => none

def ofToken? : TokenKind → Option AssignOp
  | .punctuator mark => ofPunctuator? mark
  | _ => none

end AssignOp

end EventLoop
