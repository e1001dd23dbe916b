import EventLoop.Machine.Actions

set_option autoImplicit false

namespace EventLoop

def ConsoleLevel.write {m : Type → Type} [Monad m] [Actions m] (level : ConsoleLevel)
    (arguments : List Value) : m Unit := do
  let texts ← Actions.inspect arguments
  Actions.writeLine level (" ".intercalate texts)

end EventLoop
