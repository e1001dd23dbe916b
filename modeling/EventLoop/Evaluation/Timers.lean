import EventLoop.Machine.Actions

set_option autoImplicit false

namespace EventLoop

structure CallSite where
  arguments : List Expr
  span : Span
deriving Repr

def CallSite.ref (site : CallSite) : NodeRef := ⟨.callExpression, site.span⟩

/-- The delay that an argument spells out: a literal or a negated one, and zero for anything
else. -/
def Expr.literalDelay : Expr → Float
  | .literal value _ => value.value.toNumber
  | .unary .minus (.literal value _) _ => -value.value.toNumber
  | _ => 0

def normalDelay (delay : Float) : Float := if delay.isFinite && 0 < delay then delay else 0

namespace Timers

open Actions

variable {m : Type → Type} [Monad m] [Actions m]

/-- The delay of a timer is read off the call, and from the value only where there is no call. -/
def delayFor (site : Option CallSite) (argument : Option Value) : Float :=
  normalDelay <| match site with
    | some site => site.arguments[1]?.elim 0 Expr.literalDelay
    | none => argument.elim 0 Value.toNumber

def setTimeout (arguments : List Value) (site : Option CallSite) : m Value := do
  let callback := arguments.head?.getD .undefined
  if callback.isCallable then
    let entry : TaskEntry := ⟨callback.callbackName, delayFor site arguments[1]?⟩
    let id ← addTask entry callback (arguments.drop 2) (site.map CallSite.ref)
    return .number id.toFloat
  else
    report (.invalidCallback "setTimeout") (site.map CallSite.span)
    return .undefined

/-- The timer that a number names: a whole number from one up to sixty-four bits. -/
def timerOf? (number : Float) : Option TimerId :=
  if 1 ≤ number && Number.isWhole number && number ≤ Nat.toFloat Text.countLimit then
    some (min (Number.toNat number) (Text.countLimit - 1))
  else none

def timerNamed? (arguments : List Value) : Option TimerId :=
  timerOf? (arguments.head?.elim Number.notANumber Value.toNumber)

def clearTimeout (arguments : List Value) (site : Option CallSite) : m Value := do
  match timerNamed? arguments with
  | none => return .undefined
  | some id =>
      removeTask id (site.map CallSite.ref)
      return .undefined

def queueMicrotask (arguments : List Value) (site : Option CallSite) : m Value := do
  let callback := arguments.head?.getD .undefined
  if callback.isCallable then
    addMicrotask ⟨callback.callbackName, .callback callback⟩ (site.map CallSite.ref)
    return .undefined
  else
    report (.invalidCallback "queueMicrotask") (site.map CallSite.span)
    return .undefined

end Timers

end EventLoop
