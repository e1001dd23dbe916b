set_option autoImplicit false

namespace EventLoop

inductive UnaryOp where
  | minus
  | plus
  | not
  | bitNot
  | typeof
  | void
  | delete
deriving DecidableEq, Repr, Inhabited

def UnaryOp.text : UnaryOp → String
  | .minus => "-"
  | .plus => "+"
  | .not => "!"
  | .bitNot => "~"
  | .typeof => "typeof"
  | .void => "void"
  | .delete => "delete"

inductive BinaryOp where
  | add
  | subtract
  | multiply
  | divide
  | remainder
  | power
  | equal
  | notEqual
  | strictEqual
  | strictNotEqual
  | less
  | lessEqual
  | greater
  | greaterEqual
  | bitAnd
  | bitOr
  | bitXor
  | shiftLeft
  | shiftRight
  | unsignedShiftRight
  | membership
  | instanceof
deriving DecidableEq, Repr, Inhabited

def BinaryOp.text : BinaryOp → String
  | .add => "+"
  | .subtract => "-"
  | .multiply => "*"
  | .divide => "/"
  | .remainder => "%"
  | .power => "**"
  | .equal => "=="
  | .notEqual => "!="
  | .strictEqual => "==="
  | .strictNotEqual => "!=="
  | .less => "<"
  | .lessEqual => "<="
  | .greater => ">"
  | .greaterEqual => ">="
  | .bitAnd => "&"
  | .bitOr => "|"
  | .bitXor => "^"
  | .shiftLeft => "<<"
  | .shiftRight => ">>"
  | .unsignedShiftRight => ">>>"
  | .membership => "in"
  | .instanceof => "instanceof"

inductive LogicalOp where
  | and
  | or
  | coalesce
deriving DecidableEq, Repr, Inhabited

def LogicalOp.text : LogicalOp → String
  | .and => "&&"
  | .or => "||"
  | .coalesce => "??"

inductive AssignOp where
  | assign
  | add
  | subtract
  | multiply
  | divide
  | remainder
  | power
  | bitAnd
  | bitOr
  | bitXor
  | shiftLeft
  | shiftRight
  | unsignedShiftRight
  | and
  | or
  | coalesce
deriving DecidableEq, Repr, Inhabited

def AssignOp.text : AssignOp → String
  | .assign => "="
  | .add => "+="
  | .subtract => "-="
  | .multiply => "*="
  | .divide => "/="
  | .remainder => "%="
  | .power => "**="
  | .bitAnd => "&="
  | .bitOr => "|="
  | .bitXor => "^="
  | .shiftLeft => "<<="
  | .shiftRight => ">>="
  | .unsignedShiftRight => ">>>="
  | .and => "&&="
  | .or => "||="
  | .coalesce => "??="

def AssignOp.binary? : AssignOp → Option BinaryOp
  | .add => some .add
  | .subtract => some .subtract
  | .multiply => some .multiply
  | .divide => some .divide
  | _ => none

inductive UpdateOp where
  | increment
  | decrement
deriving DecidableEq, Repr, Inhabited

def UpdateOp.text : UpdateOp → String
  | .increment => "++"
  | .decrement => "--"

inductive UpdateOrder where
  | updateFirst
  | readFirst
deriving DecidableEq, Repr, Inhabited

inductive VariableKind where
  | letKind
  | constKind
  | varKind
deriving DecidableEq, Repr, Inhabited

def VariableKind.text : VariableKind → String
  | .letKind => "let"
  | .constKind => "const"
  | .varKind => "var"

end EventLoop
