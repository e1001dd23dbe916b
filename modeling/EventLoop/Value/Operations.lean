import EventLoop.Number.Remainder
import EventLoop.Text.Units
import EventLoop.Value.Basic

set_option autoImplicit false

namespace EventLoop

namespace Value

/-- Equality without conversion. NaN is not equal to itself, and functions are equal only to
themselves. -/
def strictEquals : Value → Value → Bool
  | .undefined, .undefined => true
  | .null, .null => true
  | .boolean left, .boolean right => left == right
  | .number left, .number right => left == right
  | .string left, .string right => left == right
  | .function left, .function right => left.identity == right.identity
  | .builtin left, .builtin right => left == right
  | .promise left, .promise right => left == right
  | _, _ => false

/-- Equality that treats the two empty values as one, and compares primitives of different types as
numbers. -/
def looseEquals (left right : Value) : Bool :=
  if left.isNullish || right.isNullish then left.isNullish && right.isNullish
  else match left, right with
    | .boolean _, .number _ | .boolean _, .string _ | .number _, .boolean _ | .number _, .string _
    | .string _, .boolean _ | .string _, .number _ => left.toNumber == right.toNumber
    | _, _ => left.strictEquals right

def less (left right : Value) : Bool :=
  match left, right with
  | .string left, .string right => Text.unitsBefore left right
  | left, right => left.toNumber < right.toNumber

def lessEqual (left right : Value) : Bool :=
  match left, right with
  | .string left, .string right => !Text.unitsBefore right left
  | left, right => left.toNumber ≤ right.toNumber

def isText : Value → Bool
  | .string _ => true
  | _ => false

def add (left right : Value) : Value :=
  if left.isText || right.isText then .string (left.toText ++ right.toText)
  else .number (left.toNumber + right.toNumber)

def property (object : Value) (name : String) : Value :=
  match object with
  | .builtin host => ((host.member? name).map .builtin).getD .undefined
  | .promise id =>
      ((ReactionKind.ofName? name).map (.builtin <| .promiseMethod · id)).getD .undefined
  | .string value => if name == "length" then .number (Text.unitCount value).toFloat else .undefined
  | .function callable => if name == "name" then .string callable.name else .undefined
  | _ => .undefined

end Value

def BinaryOp.result? (op : BinaryOp) (left right : Value) : Option Value :=
  match op with
  | .add => some (left.add right)
  | .subtract => some (.number (left.toNumber - right.toNumber))
  | .multiply => some (.number (left.toNumber * right.toNumber))
  | .divide => some (.number (left.toNumber / right.toNumber))
  | .remainder => some (.number (Number.remainder left.toNumber right.toNumber))
  | .strictEqual => some (.boolean (left.strictEquals right))
  | .strictNotEqual => some (.boolean (!left.strictEquals right))
  | .equal => some (.boolean (left.looseEquals right))
  | .notEqual => some (.boolean (!left.looseEquals right))
  | .less => some (.boolean (left.less right))
  | .lessEqual => some (.boolean (left.lessEqual right))
  | .greater => some (.boolean (right.less left))
  | .greaterEqual => some (.boolean (right.lessEqual left))
  | .power | .bitAnd | .bitOr | .bitXor | .shiftLeft | .shiftRight | .unsignedShiftRight
  | .membership | .instanceof => none

end EventLoop
