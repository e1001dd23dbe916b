import EventLoop.Machine.Queues
import EventLoop.Machine.Scopes
import EventLoop.Settings.Basic
import EventLoop.Trace.Diagnostic
import EventLoop.Trace.Step

set_option autoImplicit false

/-!
# The machine and its simulations

A simulation works on the machine under given settings and either ends with a value or halts at the
step limit. Whatever was recorded before it halts is kept.
-/

namespace EventLoop

/-- The state of a run, with all that it has produced so far. -/
structure Machine where
  -- The names of the running functions, innermost first.
  stack : List String
  scopes : Scopes
  tasks : TaskQueue
  microtasks : MicrotaskQueue
  promises : Promises
  clock : Clock
  callables : Nat
  trace : Array Step
  diagnostics : Array Diagnostic
  console : Array ConsoleLine
  echoed : Array (ConsoleLevel × String)
deriving Repr, Inhabited

namespace Machine

def initial : Machine where
  stack := []
  scopes := .initial
  tasks := .empty
  microtasks := .empty
  promises := .initial
  clock := .initial
  callables := 0
  trace := #[]
  diagnostics := #[]
  console := #[]
  echoed := #[]

def snapshot (machine : Machine) (event : Event) (node : Option NodeRef) : Step where
  event := event
  stack := machine.stack
  tasks := machine.tasks.entries
  microtasks := machine.microtasks.names
  node := node
  clock := machine.clock.now

def lastStep (machine : Machine) : Nat := machine.trace.size - 1

end Machine

inductive Outcome (α : Type) where
  | done (value : α) (machine : Machine)
  | halted (machine : Machine)

namespace Outcome

variable {α : Type}

def machine : Outcome α → Machine
  | .done _ machine => machine
  | .halted machine => machine

end Outcome

def Simulation (α : Type) : Type := Settings → Machine → Outcome α

namespace Simulation

variable {α β : Type}

@[always_inline, inline] protected def pure (value : α) : Simulation α :=
  fun _ machine => .done value machine

@[always_inline, inline] protected def bind (first : Simulation α) (next : α → Simulation β) :
    Simulation β := fun settings machine =>
  match first settings machine with
  | .done value machine => next value settings machine
  | .halted machine => .halted machine

instance : Monad Simulation where
  pure := Simulation.pure
  bind := Simulation.bind

theorem pure_apply (value : α) (settings : Settings) (machine : Machine) :
    (Pure.pure value : Simulation α) settings machine = .done value machine := rfl

theorem bind_apply (first : Simulation α) (next : α → Simulation β) (settings : Settings)
    (machine : Machine) :
    (first >>= next) settings machine =
      match first settings machine with
      | .done value machine => next value settings machine
      | .halted machine => .halted machine := rfl

theorem bind_pure_apply (first : Simulation α) : first >>= Pure.pure = first := by
  funext settings machine
  rw [bind_apply]
  cases first settings machine <;> rfl

theorem bind_assoc_apply {γ : Type} (first : Simulation α) (next : α → Simulation β)
    (last : β → Simulation γ) :
    first >>= next >>= last = first >>= fun value => next value >>= last := by
  funext settings machine
  simp only [bind_apply]
  cases first settings machine <;> rfl

instance : LawfulMonad Simulation :=
  LawfulMonad.mk' Simulation bind_pure_apply (fun _ _ => rfl) bind_assoc_apply

@[always_inline, inline] def read (view : Machine → α) : Simulation α := fun _ machine =>
  .done (view machine) machine

@[always_inline, inline] def modify (change : Machine → Machine) : Simulation Unit :=
  fun _ machine => .done () (change machine)

@[always_inline, inline] def settings : Simulation Settings := fun settings machine =>
  .done settings machine

@[always_inline, inline] def update (change : Machine → α × Machine) : Simulation α :=
  fun _ machine =>
    let (value, machine) := change machine
    .done value machine

end Simulation

end EventLoop
