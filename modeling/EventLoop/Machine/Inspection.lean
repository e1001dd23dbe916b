import EventLoop.Machine.Promises

set_option autoImplicit false

namespace EventLoop

def Value.inspectWith (inspectPromise : PromiseId → String) : Value → String
  | .string value => "'" ++ value ++ "'"
  | .function callable =>
      if callable.name == "anonymous" then "[Function (anonymous)]"
      else "[Function: " ++ callable.name ++ "]"
  | .builtin .console => "[object console]"
  | .builtin host => "[Function: " ++ host.name ++ "]"
  | .promise id => inspectPromise id
  | value => value.toText

/-- How the console shows a promise. A chain of promises that hold promises is followed for the
given number of steps. -/
def Promises.inspect (promises : Promises) : Nat → PromiseId → String
  | 0, _ => "Promise \x7b ... \x7d"
  | steps + 1, id =>
      match promises.get? id with
      | some (.fulfilled value) =>
          "Promise \x7b " ++ value.inspectWith (promises.inspect steps) ++ " \x7d"
      | _ => "Promise \x7b <pending> \x7d"

def Value.inspect (promises : Promises) : Value → String
  | .string value => value
  | value => value.inspectWith (promises.inspect (promises.size + 1))

end EventLoop
