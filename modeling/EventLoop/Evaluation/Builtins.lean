import EventLoop.Evaluation.Console
import EventLoop.Evaluation.Reactions
import EventLoop.Evaluation.Timers

set_option autoImplicit false

namespace EventLoop

variable {m : Type → Type} [Monad m] [Actions m]

/-- What a builtin does. None of them runs a callback; they queue it. -/
def Builtin.perform (builtin : Builtin) (arguments : List Value) (site : Option CallSite) :
    m Value :=
  match builtin with
  | .setTimeout => Timers.setTimeout arguments site
  | .clearTimeout => Timers.clearTimeout arguments site
  | .queueMicrotask => Timers.queueMicrotask arguments site
  | .consoleMethod level => do
      level.write arguments
      return .undefined
  | .promiseResolve => Reactions.resolve arguments
  | .promiseMethod kind id => Reactions.register kind id arguments
  | .console | .promise => Actions.uncallable

def Builtin.call (builtin : Builtin) (arguments : List Value) (site : Option CallSite) : m Value :=
  Actions.observe (.call builtin arguments) (builtin.perform arguments site)

end EventLoop
