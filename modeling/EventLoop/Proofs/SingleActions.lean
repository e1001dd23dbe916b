import EventLoop.Proofs.Congruence

set_option autoImplicit false

/-!
# Single actions

Evaluation and the event loop are made of single actions, of recorded steps and of frames that are
pushed and popped.
-/

namespace EventLoop.Simulation

inductive Action : {α : Type} → Simulation α → Prop where
  | read {α : Type} (view : Machine → α) : Action (read view)
  | report (problem : Problem) (span : Option Span) (running : problem.isStepLimit = false) :
      Action (report problem span)
  | writeLine (level : ConsoleLevel) (text : String) : Action (writeLine level text)
  | makeFunction (binding : Option String) (node : FunctionNode) (scope : ScopeId) :
      Action (makeFunction binding node scope)
  | declare (scope : ScopeId) (name : String) (value : Value) : Action (declare scope name value)
  | assign (scope : ScopeId) (name : String) (value : Value) : Action (assign scope name value)
  | createScope (outer : ScopeId) : Action (createScope outer)
  | createPromise (state : PromiseState) : Action (createPromise state)
  | fulfill (id : PromiseId) (value : Value) : Action (fulfill id value)
  | keepReaction (id : PromiseId) (reaction : Reaction) : Action (keepReaction id reaction)
  | enqueueMicrotask (microtask : Microtask) : Action (enqueueMicrotask microtask)
  | dequeueMicrotask : Action dequeueMicrotask?
  | nextTimer : Action nextTimer
  | enqueueTask (task : Task) : Action (enqueueTask task)
  | dequeueTask : Action dequeueTask?
  | cancelTask (id : TimerId) : Action (cancelTask? id)

structure Continues (machine after : Machine) : Prop where
  stack : after.stack = machine.stack
  trace : after.trace = machine.trace
  diagnostics : machine.diagnostics.toList <+: after.diagnostics.toList

theorem Continues.of_same {machine after : Machine} (stack : after.stack = machine.stack)
    (trace : after.trace = machine.trace) (diagnostics : after.diagnostics = machine.diagnostics) :
    Continues machine after :=
  ⟨stack, trace, diagnostics ▸ List.prefix_rfl⟩

theorem Action.done {α : Type} {sim : Simulation α} (action : Action sim) (settings : Settings)
    (machine : Machine) :
    ∃ value after, (∀ others : Settings, others.echoConsole = settings.echoConsole →
      sim others machine = .done value after) ∧ Continues machine after := by
  cases action with
  | report problem span running =>
      refine ⟨(), _, fun _ _ => rfl, rfl, rfl, ?_⟩
      simp
  | writeLine level text =>
      let written := (Simulation.writeLine level text settings machine).machine
      refine ⟨(), written, fun others same => ?_, .of_same rfl rfl rfl⟩
      simp [Simulation.writeLine, written, Outcome.machine, same]
  | dequeueMicrotask =>
      refine ⟨_, _, fun _ _ => rfl, ?_⟩
      cases machine.microtasks.dequeue? <;> exact .of_same rfl rfl rfl
  | dequeueTask =>
      refine ⟨_, _, fun _ _ => rfl, ?_⟩
      cases machine.tasks.dequeue? <;> exact .of_same rfl rfl rfl
  | cancelTask id =>
      refine ⟨_, _, fun _ _ => rfl, ?_⟩
      cases machine.tasks.cancel? id <;> exact .of_same rfl rfl rfl
  | _ => exact ⟨_, _, fun _ _ => rfl, .of_same rfl rfl rfl⟩

-- A relation that single actions and recorded steps respect one by one.
structure Stepwise (Related : ∀ {α : Type}, Simulation α → Simulation α → Prop) : Prop where
  pure {α : Type} (value : α) : Related (Pure.pure value) (Pure.pure value)
  bind {α β : Type} {first first' : Simulation α} {next next' : α → Simulation β} :
    Related first first' →
      (∀ value, Returns first value ∨ Returns first' value →
        Related (next value) (next' value)) →
      Related (first >>= next) (first' >>= next')
  action {α : Type} {sim : Simulation α} : Action sim → Related sim sim
  record (event : Event) (node : Option NodeRef) : Related (record event node) (record event node)

namespace Stepwise

variable {Related : ∀ {α : Type}, Simulation α → Simulation α → Prop}

theorem respects (related : Stepwise Related) : Respects Returned Related where
  answers := Returned.answers
  pure := related.pure
  bind := related.bind
  report problem span running := related.action (.report problem span running)
  writeLine level text := related.action (.writeLine level text)
  makeFunction binding node scope := related.action (.makeFunction binding node scope)
  declare scope name value := related.action (.declare scope name value)
  assign scope name value := related.action (.assign scope name value)
  createScope outer := related.action (.createScope outer)
  lookup _ _ := related.action (.read _)
  inspect _ := related.action (.read _)
  uncallable := related.pure _
  called _ _ _ _ same := same
  createPromise state := related.action (.createPromise state)
  fulfill id value := related.action (.fulfill id value)
  keepReaction id reaction := related.action (.keepReaction id reaction)
  -- What a turn can see of the queues is recorded right after it has changed.
  addMicrotask microtask _ :=
    related.bind (related.action (.enqueueMicrotask microtask)) fun _ _ => related.record _ _
  addTask _ _ _ _ := by
    refine related.bind (related.action .nextTimer) fun id _ => ?_
    refine related.bind (related.action (.enqueueTask _)) fun _ _ => ?_
    exact related.bind (related.record _ _) fun _ _ => related.pure _
  removeTask id _ := by
    refine related.bind (related.action (.cancelTask id)) fun cancelled _ => ?_
    cases cancelled with
    | none => exact related.pure _
    | some task => exact related.record _ _

theorem loopRespects (related : Stepwise Related)
    (entry : ∀ callable arguments,
      Related (invoke (.function callable) arguments)
        (invoke (.function callable) arguments)) : LoopRespects Returned Related where
  toRespects := related.respects
  microtaskRun _ _ _ := related.record _ _
  taskRun _ _ _ := related.record _ _
  traceSize := related.action (.read _)
  dequeueMicrotask := related.action .dequeueMicrotask
  dequeueTask := related.action .dequeueTask
  entry := entry
  invoked _ _ _ _ same := same
  settled _ _ := related.pure _

theorem congruence (related : Stepwise Related)
    (pushFrame : ∀ name, Related (pushFrame name) (pushFrame name))
    (popFrame : Related popFrame popFrame) : Congruence Returned Related where
  toRespects := related.respects
  withFrame name node _ _ bodies := by
    refine related.bind (pushFrame name) fun _ _ => ?_
    refine related.bind (related.record _ _) fun _ _ => ?_
    refine related.bind bodies fun _ _ => ?_
    refine related.bind popFrame fun _ _ => ?_
    exact related.bind (related.record _ _) fun _ _ => related.pure _

end Stepwise

end EventLoop.Simulation
