import EventLoop.Number.Numeral
import EventLoop.Number.Positional
import EventLoop.Syntax.Tree
import EventLoop.Value.Builtin

set_option autoImplicit false

namespace EventLoop

abbrev ScopeId := Nat

/-- A function together with the scope that it was made in. Two of them are the same only if they
have the same identity. -/
structure Callable where
  identity : Nat
  name : String
  node : FunctionNode
  scope : ScopeId
deriving Repr

def FunctionNode.nameFor (node : FunctionNode) (binding : Option String) : String :=
  (binding.or (node.id.map Identifier.name)).getD "anonymous"

inductive Value where
  | undefined
  | null
  | boolean (value : Bool)
  | number (value : Float)
  | string (value : String)
  | function (callable : Callable)
  | builtin (builtin : Builtin)
  | promise (id : PromiseId)
deriving Repr, Inhabited

def Literal.value : Literal → Value
  | .null => .null
  | .boolean value => .boolean value
  | .number value => .number value
  | .string value => .string value

namespace Value

def toBoolean : Value → Bool
  | .undefined | .null => false
  | .boolean value => value
  | .number value => value != 0 && !value.isNaN
  | .string value => !value.isEmpty
  | .function _ | .builtin _ | .promise _ => true

def numberOfText (text : String) : Float :=
  match Text.trim text.toList with
  | [] => 0
  | trimmed => (Number.readSigned? trimmed).getD Number.notANumber

def toNumber : Value → Float
  | .undefined => Number.notANumber
  | .null => 0
  | .boolean value => if value then 1 else 0
  | .number value => value
  | .string value => numberOfText value
  | .function _ | .builtin _ | .promise _ => Number.notANumber

def toText : Value → String
  | .undefined => "undefined"
  | .null => "null"
  | .boolean value => if value then "true" else "false"
  | .number value => Number.text value
  | .string value => value
  | .function callable => "function " ++ callable.name ++ "() \x7b [code] \x7d"
  | .builtin host => "function " ++ host.name ++ "() \x7b [native code] \x7d"
  | .promise _ => "[object Promise]"

def isCallable : Value → Bool
  | .function _ => true
  | .builtin host => host.isCallable
  | _ => false

def isNullish : Value → Bool
  | .undefined | .null => true
  | _ => false

def typeName : Value → String
  | .undefined => "undefined"
  | .null => "object"
  | .boolean _ => "boolean"
  | .number _ => "number"
  | .string _ => "string"
  | .function _ => "function"
  | .builtin host => if host.isCallable then "function" else "object"
  | .promise _ => "object"

def debugText : Value → String
  | .string value => "\"" ++ value ++ "\""
  | .function callable => "[Function: " ++ callable.name ++ "]"
  | .builtin host => "[Function: " ++ host.name ++ "]"
  | .promise id => s!"Promise#{id}"
  | value => value.toText

def callbackName : Value → String
  | .function callable => callable.name
  | .builtin host => host.name
  | _ => "anonymous"

def callbackRef? : Value → Option NodeRef
  | .function callable => some callable.node.ref
  | _ => none

end Value

end EventLoop
