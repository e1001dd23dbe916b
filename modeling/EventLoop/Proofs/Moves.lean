import EventLoop.Proofs.Congruence
import EventLoop.Run
import Mathlib.Logic.Relation

set_option autoImplicit false

/-!
# Moves of evaluation

All that evaluation does to the machine is a path of moves.
-/

namespace EventLoop

open Simulation

namespace Machine

def recorded (machine : Machine) (event : Event) (node : Option NodeRef) : Machine :=
  { machine with trace := machine.trace.push (machine.snapshot event node) }

def started : Machine := initial.recorded .start none

end Machine

theorem Simulation.record_cases (event : Event) (node : Option NodeRef) (settings : Settings)
    (machine : Machine) :
    record event node settings machine = .halted machine ∨
      record event node settings machine = .done () (machine.recorded event node) := by
  unfold record
  split
  next => exact .inl rfl
  next => exact .inr rfl

inductive Change : Machine → Event → Machine → Prop where
  | push (machine : Machine) (name : String) :
      Change machine (.push name) { machine with stack := name :: machine.stack }
  | pop {machine : Machine} {name : String} {rest : List String}
      (top : machine.stack = name :: rest) :
      Change machine (.pop name) { machine with stack := rest }
  | addMicrotask (machine : Machine) (microtask : Microtask) :
      Change machine (.microtaskEnqueued microtask.name)
        { machine with microtasks := machine.microtasks.enqueue microtask }
  | addTask (machine : Machine) (task : Task) (fresh : task.id = machine.tasks.nextId.1) :
      Change machine (.taskEnqueued task.name task.delay)
        { machine with tasks := machine.tasks.nextId.2.enqueue task }
  | removeTask {machine : Machine} {id : TimerId} {task : Task} {tasks : TaskQueue}
      (pending : machine.tasks.cancel? id = some (task, tasks)) :
      Change machine (.taskCancelled task.name) { machine with tasks := tasks }

inductive Move (settings : Settings) : Machine → Machine → Prop where
  | internal (machine : Machine) (scopes : Scopes) (promises : Promises) (callables : Nat) :
      Move settings machine
        { machine with scopes := scopes, promises := promises, callables := callables }
  | report (machine : Machine) (problem : Problem) (span : Option Span)
      (running : problem.isStepLimit = false) :
      Move settings machine
        { machine with
          diagnostics := machine.diagnostics.push ⟨problem, span, machine.lastStep⟩ }
  | writeLine (machine : Machine) (level : ConsoleLevel) (text : String) :
      Move settings machine
        { machine with
          console := machine.console.push ⟨level, text, machine.lastStep⟩
          echoed :=
            if settings.echoConsole then machine.echoed.push (level, text) else machine.echoed }
  | change {machine changed : Machine} {event : Event} (node : Option NodeRef)
      (change : Change machine event changed) (room : machine.trace.size < settings.maxSteps) :
      Move settings machine (changed.recorded event node)

abbrev Path (settings : Settings) : Machine → Machine → Prop :=
  Relation.ReflTransGen (Move settings)

-- The step limit is hit on the way: what the run shows afterwards is what it showed at the end of a
-- path that filled the trace.
def Stops (settings : Settings) (machine after : Machine) : Prop :=
  ∃ reached, Path settings machine reached ∧ settings.maxSteps ≤ reached.trace.size ∧
    after.toRun true = reached.toRun true

def Follows {α : Type} (settings : Settings) (machine : Machine) : Outcome α → Prop
  | .done _ after => Path settings machine after ∧ after.stack = machine.stack
  | .halted after => Stops settings machine after

variable {settings : Settings} {machine : Machine}

theorem Path.keeps {reached : Machine} {Inv : Machine → Prop}
    (move : ∀ {machine after : Machine}, Move settings machine after → Inv machine → Inv after)
    (path : Path settings machine reached) (holds : Inv machine) : Inv reached := by
  induction path with
  | refl => exact holds
  | tail _ last ih => exact move last ih

theorem Stops.after {middle after : Machine} (path : Path settings machine middle)
    (stops : Stops settings middle after) : Stops settings machine after := by
  obtain ⟨reached, further, full, same⟩ := stops
  exact ⟨reached, path.trans further, full, same⟩

theorem Follows.after {α : Type} {middle : Machine} {outcome : Outcome α}
    (path : Path settings machine middle) (stack : middle.stack = machine.stack)
    (follows : Follows settings middle outcome) : Follows settings machine outcome := by
  cases outcome with
  | done value after => exact ⟨path.trans follows.1, follows.2.trans stack⟩
  | halted after => exact Stops.after path follows

theorem Change.record_follows {changed : Machine} {event : Event}
    (change : Change machine event changed) (settings : Settings) (node : Option NodeRef) :
    (record event node settings changed = .halted changed ∧ Stops settings machine changed) ∨
      (record event node settings changed = .done () (changed.recorded event node) ∧
        Path settings machine (changed.recorded event node)) := by
  have trace : changed.trace = machine.trace := by cases change <;> rfl
  -- A run shows neither the stack nor the queues of its last machine, only those of its steps.
  have shown : changed.toRun true = machine.toRun true := by cases change <;> rfl
  by_cases full : settings.maxSteps ≤ machine.trace.size
  next =>
    refine .inl ⟨?_, machine, .refl, full, shown⟩
    simp only [record, trace, full, if_true]
  next =>
    refine .inr ⟨?_, .single (.change node change (by omega))⟩
    simp only [record, Machine.recorded, trace, full, if_false]

theorem Change.follows {changed : Machine} {event : Event}
    (change : Change machine event changed) (kept : changed.stack = machine.stack)
    (settings : Settings) (node : Option NodeRef) :
    Follows settings machine (record event node settings changed) := by
  obtain ⟨halts, stops⟩ | ⟨records, path⟩ := change.record_follows settings node
  next =>
    rw [halts]
    exact stops
  next =>
    rw [records]
    exact ⟨path, kept⟩

abbrev FollowsFrom (settings : Settings) {α : Type} (sim : Simulation α) : Prop :=
  ∀ machine, Follows settings machine (sim settings machine)

namespace FollowsFrom

theorem internal {α : Type} {sim : Simulation α}
    (silent : ∀ machine, ∃ value scopes promises callables,
      sim settings machine =
        .done value
          { machine with scopes := scopes, promises := promises, callables := callables }) :
    FollowsFrom settings sim := by
  intro machine
  obtain ⟨value, scopes, promises, callables, result⟩ := silent machine
  rw [result]
  exact ⟨.single (.internal machine scopes promises callables), rfl⟩

theorem bind {α β : Type} {first : Simulation α} {next : α → Simulation β}
    (firstFollows : FollowsFrom settings first)
    (nextFollows : ∀ value, Returns first value → FollowsFrom settings (next value)) :
    FollowsFrom settings (first >>= next) := by
  intro machine
  have follows := firstFollows machine
  rw [bind_apply]
  cases result : first settings machine with
  | done value middle =>
      rw [result] at follows
      exact Follows.after follows.1 follows.2 (nextFollows value ⟨_, _, _, result⟩ middle)
  | halted after =>
      rw [result] at follows
      exact follows

theorem withFrame {α : Type} (name : String) (node : Option NodeRef) {body : Simulation α}
    (bodyFollows : FollowsFrom settings body) :
    FollowsFrom settings (withFrame name node body) := by
  intro machine
  simp only [EventLoop.withFrame, Actions.pushFrame, Actions.popFrame, Actions.record, pushFrame,
    popFrame, Simulation.modify, bind_apply, pure_apply]
  obtain ⟨halts, stops⟩ | ⟨records, pushed⟩ :=
    (Change.push machine name).record_follows settings node
  next =>
    rw [halts]
    exact stops
  next =>
    rw [records]
    have follows := bodyFollows
      (Machine.recorded { machine with stack := name :: machine.stack } (.push name) node)
    dsimp only
    cases result : body settings
        (Machine.recorded { machine with stack := name :: machine.stack } (.push name) node) with
    | halted after =>
        rw [result] at follows
        exact Stops.after pushed follows
    | done value inner =>
        rw [result] at follows
        obtain ⟨ran, kept⟩ := follows
        -- The body has put the stack back, so that the frame of this call is on top again.
        have top : inner.stack = name :: machine.stack := kept
        have tail : inner.stack.tail = machine.stack := by rw [top]; rfl
        dsimp only
        rw [tail]
        obtain ⟨halts, stops⟩ | ⟨records, popped⟩ :=
          (Change.pop top).record_follows settings node
        next =>
          rw [halts]
          exact Stops.after (pushed.trans ran) stops
        next =>
          rw [records]
          exact ⟨(pushed.trans ran).trans popped, rfl⟩

theorem addMicrotask (microtask : Microtask) (node : Option NodeRef) :
    FollowsFrom settings (addMicrotask microtask node) := by
  intro machine
  simp only [EventLoop.addMicrotask, Actions.enqueueMicrotask, Actions.record, enqueueMicrotask,
    Simulation.modify, bind_apply]
  exact (Change.addMicrotask machine microtask).follows rfl settings node

theorem addTask (entry : TaskEntry) (callback : Value) (arguments : List Value)
    (node : Option NodeRef) :
    FollowsFrom settings (addTask entry callback arguments node) := by
  intro machine
  simp only [EventLoop.addTask, Actions.nextTimer, Actions.enqueueTask, Actions.record, nextTimer,
    enqueueTask, Simulation.update, Simulation.modify, bind_apply, pure_apply]
  let task : Task := ⟨entry, machine.tasks.nextId.1, callback, arguments⟩
  obtain ⟨halts, stops⟩ | ⟨records, path⟩ :=
    (Change.addTask machine task rfl).record_follows settings node
  next =>
    rw [halts]
    exact stops
  next =>
    rw [records]
    exact ⟨path, rfl⟩

theorem removeTask (id : TimerId) (node : Option NodeRef) :
    FollowsFrom settings (removeTask id node) := by
  intro machine
  simp only [EventLoop.removeTask, Actions.cancelTask?, Actions.record, cancelTask?,
    Simulation.update, bind_apply]
  cases pending : machine.tasks.cancel? id with
  | none => exact ⟨.refl, rfl⟩
  | some cancelled =>
      obtain ⟨task, tasks⟩ := cancelled
      exact (Change.removeTask pending).follows rfl settings node

theorem congruence (settings : Settings) :
    Congruence Returned fun sim _ => FollowsFrom settings sim where
  answers := Returned.answers
  pure _ := fun _ => ⟨.refl, rfl⟩
  bind first next := FollowsFrom.bind first fun value returns => next value (.inl returns)
  withFrame name node := FollowsFrom.withFrame name node
  report _ _ running := fun machine => ⟨.single (.report machine _ _ running), rfl⟩
  writeLine _ _ := fun machine => ⟨.single (.writeLine machine _ _), rfl⟩
  makeFunction _ _ _ := internal fun _ => ⟨_, _, _, _, rfl⟩
  declare _ _ _ := internal fun _ => ⟨_, _, _, _, rfl⟩
  assign _ _ _ := internal fun _ => ⟨_, _, _, _, rfl⟩
  createScope _ := internal fun _ => ⟨_, _, _, _, rfl⟩
  lookup _ _ := internal fun _ => ⟨_, _, _, _, rfl⟩
  inspect _ := internal fun _ => ⟨_, _, _, _, rfl⟩
  uncallable := fun _ => ⟨.refl, rfl⟩
  called _ _ _ _ follows := follows
  createPromise _ := internal fun _ => ⟨_, _, _, _, rfl⟩
  fulfill _ _ := internal fun _ => ⟨_, _, _, _, rfl⟩
  keepReaction _ _ := internal fun _ => ⟨_, _, _, _, rfl⟩
  addMicrotask := FollowsFrom.addMicrotask
  addTask := FollowsFrom.addTask
  removeTask := FollowsFrom.removeTask

theorem call (room : Nat) (callable : Callable) (arguments : List Value) :
    FollowsFrom settings (callable.call room arguments) := by
  -- By induction on the room for frames: with none left the call is refused.
  induction room generalizing callable arguments with
  | zero =>
      intro machine
      exact (congruence settings).skip (.callDepthExceeded settings.maxCallDepth) _ rfl machine
  | succ room ih => exact (congruence settings).call_succ room room ih callable arguments

theorem respects (settings : Settings) :
    JobRespects Returned fun sim _ => FollowsFrom settings sim where
  toRespects := (congruence settings).toRespects
  entry callable arguments := fun machine => call settings.maxCallDepth callable arguments machine
  invoked _ _ _ _ follows := follows
  settled _ _ := fun _ => ⟨.refl, rfl⟩

theorem callback (callback : Value) (arguments : List Value) :
    FollowsFrom settings (callValue callback arguments) :=
  (respects settings).callValue callback arguments

theorem job (job : Job) : FollowsFrom settings job.run := (respects settings).job job

end FollowsFrom

theorem turn_of_microtask {microtask : Microtask} {rest : List Microtask}
    (next : machine.microtasks.microtasks = microtask :: rest) :
    turn (m := Simulation) settings machine =
      (do
        microtask.job.run
        record (.microtaskRun microtask.name machine.trace.size) microtask.job.ref?
        return true : Simulation Bool) settings { machine with microtasks := ⟨rest⟩ } := by
  simp [turn, bind_apply, Actions.dequeueMicrotask?, dequeueMicrotask?, Simulation.update,
    MicrotaskQueue.dequeue?, next, runMicrotask, Actions.traceSize, traceSize, Simulation.read,
    Actions.record]

theorem turn_of_task {task : Task} {rest : List Task}
    (drained : machine.microtasks.microtasks = []) (next : machine.tasks.tasks = task :: rest) :
    turn (m := Simulation) settings machine =
      (do
        let _ ← callValue task.callback task.arguments
        record (.taskRun task.name machine.trace.size) task.callback.callbackRef?
        return true : Simulation Bool) settings
        { machine with
          tasks := { machine.tasks with tasks := rest }
          clock := machine.clock.advance task.delay } := by
  simp [turn, bind_apply, Actions.dequeueMicrotask?, dequeueMicrotask?, Simulation.update,
    MicrotaskQueue.dequeue?, drained, Actions.dequeueTask?, dequeueTask?, TaskQueue.dequeue?, next,
    runTask, Actions.traceSize, traceSize, Simulation.read, Actions.record]

theorem turn_of_empty (drained : machine.microtasks.microtasks = [])
    (nothing : machine.tasks.tasks = []) :
    turn (m := Simulation) settings machine = .done false machine := by
  simp only [turn, bind_apply, Actions.dequeueMicrotask?, dequeueMicrotask?, Simulation.update,
    MicrotaskQueue.dequeue?, drained, Actions.dequeueTask?, dequeueTask?, TaskQueue.dequeue?,
      nothing,
    pure_apply]

end EventLoop
