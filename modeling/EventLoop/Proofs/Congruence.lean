import EventLoop.Proofs.Hosts

set_option autoImplicit false

/-!
# Congruences of evaluation

Evaluation is made of few actions on the machine.
-/

namespace EventLoop

section Structures

variable {m n : Type → Type} [Monad m] [Monad n]

structure Answers (Gives : ∀ {α : Type}, m α → n α → α → Prop) : Prop where
  pure {α : Type} {value result : α} :
    Gives (Pure.pure value) (Pure.pure value) result → result = value
  bind {α β : Type} {first : m α} {first' : n α} {next : α → m β} {next' : α → n β} {result : β} :
    Gives (first >>= next) (first' >>= next') result →
      ∃ value, Gives first first' value ∧ Gives (next value) (next' value) result

structure HostRespects [Actions m] [Actions n] (Gives : ∀ {α : Type}, m α → n α → α → Prop)
    (Related : ∀ {α : Type}, m α → n α → Prop) : Prop where
  answers : Answers Gives
  pure {α : Type} (value : α) : Related (Pure.pure value) (Pure.pure value)
  bind {α β : Type} {first : m α} {first' : n α} {next : α → m β} {next' : α → n β} :
    Related first first' →
      (∀ value, Gives first first' value → Related (next value) (next' value)) →
      Related (first >>= next) (first' >>= next')
  -- The step limit is reported when a run ends, never by evaluation.
  report (problem : Problem) (span : Option Span) : problem.isStepLimit = false →
    Related (Actions.report problem span) (Actions.report problem span)
  inspect (values : List Value) : Related (Actions.inspect values) (Actions.inspect values)
  writeLine (level : ConsoleLevel) (text : String) :
    Related (Actions.writeLine level text) (Actions.writeLine level text)
  createPromise (state : PromiseState) :
    Related (Actions.createPromise state) (Actions.createPromise state)
  keepReaction (id : PromiseId) (reaction : Reaction) :
    Related (Actions.keepReaction id reaction) (Actions.keepReaction id reaction)
  -- Queues are not open to single changes: each change is recorded at once.
  addMicrotask (microtask : Microtask) (node : Option NodeRef) :
    Related (addMicrotask microtask node) (addMicrotask microtask node)
  addTask (entry : TaskEntry) (callback : Value) (arguments : List Value)
    (node : Option NodeRef) :
    Related (addTask entry callback arguments node) (addTask entry callback arguments node)
  removeTask (id : TimerId) (node : Option NodeRef) :
    Related (removeTask id node) (removeTask id node)
  uncallable : Related Actions.uncallable Actions.uncallable
  called (builtin : Builtin) (arguments : List Value) {code : m Value} {code' : n Value} :
    Related code code' → Related (Actions.observe (.call builtin arguments) code)
      (Actions.observe (.call builtin arguments) code')

-- A relation that the actions of evaluation respect. Entering and leaving the frame of a call is
-- not among them, so that the relation may depend on the room that is left for frames.
structure Respects [Actions m] [Actions n] (Gives : ∀ {α : Type}, m α → n α → α → Prop)
    (Related : ∀ {α : Type}, m α → n α → Prop) : Prop extends HostRespects Gives Related where
  makeFunction (binding : Option String) (node : FunctionNode) (scope : ScopeId) :
    Related (Actions.makeFunction binding node scope) (Actions.makeFunction binding node scope)
  declare (scope : ScopeId) (name : String) (value : Value) :
    Related (Actions.declare scope name value) (Actions.declare scope name value)
  assign (scope : ScopeId) (name : String) (value : Value) :
    Related (Actions.assign scope name value) (Actions.assign scope name value)
  createScope (outer : ScopeId) :
    Related (Actions.createScope outer) (Actions.createScope outer)
  lookup (scope : ScopeId) (name : String) :
    Related (Actions.lookup scope name) (Actions.lookup scope name)
  fulfill (id : PromiseId) (value : Value) :
    Related (Actions.fulfill id value) (Actions.fulfill id value)

structure Congruence [Actions m] [Actions n] (Gives : ∀ {α : Type}, m α → n α → α → Prop)
    (Related : ∀ {α : Type}, m α → n α → Prop) : Prop extends Respects Gives Related where
  withFrame {α : Type} (name : String) (node : Option NodeRef) {body : m α} {body' : n α} :
    Related body body' → Related (withFrame name node body) (withFrame name node body')

structure JobRespects [Interpreter m] [Interpreter n]
    (Gives : ∀ {α : Type}, m α → n α → α → Prop) (Related : ∀ {α : Type}, m α → n α → Prop) : Prop
    extends Respects Gives Related where
  entry (callable : Callable) (arguments : List Value) :
    Related (invoke (.function callable) arguments) (invoke (.function callable) arguments)
  invoked (callee : Value) (arguments : List Value) {code : m Value} {code' : n Value} :
    Related code code' → Related (Actions.observe (.invoke callee arguments) code)
      (Actions.observe (.invoke callee arguments) code')
  settled (id : PromiseId) (value : Value) :
    Related (Actions.note (.settle id value)) (Actions.note (.settle id value))

structure LoopRespects [Interpreter m] [Interpreter n]
    (Gives : ∀ {α : Type}, m α → n α → α → Prop) (Related : ∀ {α : Type}, m α → n α → Prop) : Prop
    extends JobRespects Gives Related where
  microtaskRun (name : String) (firstStep : Nat) (node : Option NodeRef) :
    Related (Actions.record (.microtaskRun name firstStep) node)
      (Actions.record (.microtaskRun name firstStep) node)
  taskRun (name : String) (firstStep : Nat) (node : Option NodeRef) :
    Related (Actions.record (.taskRun name firstStep) node)
      (Actions.record (.taskRun name firstStep) node)
  traceSize : Related Actions.traceSize Actions.traceSize
  dequeueMicrotask : Related Actions.dequeueMicrotask? Actions.dequeueMicrotask?
  dequeueTask : Related Actions.dequeueTask? Actions.dequeueTask?

end Structures

def Sorts.any (World : Type) : Sorts World where
  Good _ _ := True
  Held _ _ := True
  Callback _ _ := True

section Any

variable {World : Type} {world : World}

theorem Reaction.fits_any (reaction : Reaction) : reaction.Fits (.any World) world := by
  refine ⟨?_, trivial⟩
  cases reaction.handler <;> trivial

theorem Job.fits_any (job : Job) : job.Fits (.any World) world := by
  cases job with
  | callback value => trivial
  | reaction waiting value => exact ⟨waiting.fits_any, trivial⟩
  | follow promise other => exact ⟨trivial, trivial⟩

theorem Task.fits_any (task : Task) : task.Fits (.any World) world := ⟨trivial, fun _ _ => trivial⟩

end Any

namespace HostRespects

variable {m n : Type → Type} [Monad m] [Actions m] [Monad n] [Actions n]
variable {Gives : ∀ {α : Type}, m α → n α → α → Prop} {Related : ∀ {α : Type}, m α → n α → Prop}
variable (related : HostRespects Gives Related)

include related

theorem rules {World : Type} [Preorder World] :
    Rules (Sorts.any World).Good fun world Post code code' =>
      Related code code' ∧ ∀ value, Gives code code' value → Post world value where
  plain _ := trivial
  method _ _ := trivial
  grow _ _ := trivial
  pure post := ⟨related.pure _, fun _ gives => related.answers.pure gives ▸ post⟩
  bind firsts nexts := by
    obtain ⟨firsts, mid⟩ := firsts
    constructor
    next =>
      exact related.bind firsts fun value gives => (nexts _ value le_rfl (mid value gives)).1
    next =>
      intro result gives
      obtain ⟨value, early, late⟩ := related.answers.bind gives
      exact (nexts _ value le_rfl (mid value early)).2 result late

theorem calculus {World : Type} [Preorder World] :
    HostCalculus (.any World) fun world Post code code' =>
      Related code code' ∧ ∀ value, Gives code code' value → Post world value where
  toRules := related.rules
  owner _ := trivial
  hold _ _ := trivial
  held _ := trivial
  await _ _ := trivial
  awaited _ := trivial
  growHeld _ _ := trivial
  growCallback _ _ := trivial
  report _ _ running := ⟨related.report _ _ running, fun _ _ => trivial⟩
  write level _ _ :=
    ⟨related.bind (related.inspect _) fun _ _ => related.writeLine level _, fun _ _ => trivial⟩
  createPending := ⟨related.createPromise _, fun _ _ => trivial⟩
  createFulfilled _ := ⟨related.createPromise _, fun _ _ => trivial⟩
  keepReaction _ _ := ⟨related.keepReaction _ _, fun _ _ _ _ => trivial⟩
  addMicrotask _ _ := ⟨related.addMicrotask _ _, fun _ _ => trivial⟩
  addTask _ _ _ _ _ _ := ⟨related.addTask _ _ _ _, fun _ _ => trivial⟩
  removeTask _ _ := ⟨related.removeTask _ _, fun _ _ => trivial⟩
  called _ _ _ _ holds := ⟨related.called _ _ holds.1, fun _ _ => trivial⟩

theorem skip (problem : Problem) (span : Span) (running : problem.isStepLimit = false) :
    Related (EventLoop.skip problem span) (EventLoop.skip problem span) :=
  related.bind (related.report _ _ running) fun _ _ => related.pure _

theorem builtin (builtin : Builtin) (arguments : List Value) (site : Option CallSite) :
    Related (builtin.call arguments site) (builtin.call arguments site) := by
  have rules := @calculus _ _ _ _ _ _ _ _ related Unit _
  cases callable : builtin.isCallable with
  | true =>
      have holds := @HostCalculus.builtin _ _ _ _ _ _ _ _ _ _ rules () arguments builtin callable
        trivial (fun _ _ => trivial) site
      exact holds.1
  | false =>
      cases builtin with
      | console | promise => exact related.called _ _ related.uncallable
      | _ => cases callable

end HostRespects

namespace Respects

variable {m n : Type → Type} [Monad m] [Actions m] [Monad n] [Actions n]
variable {Gives : ∀ {α : Type}, m α → n α → α → Prop} {Related : ∀ {α : Type}, m α → n α → Prop}
variable (related : Respects Gives Related)

include related

theorem callCalculus {World : Type} [Preorder World] :
    CallCalculus (fun _ => True) (Sorts.any World).Good (fun _ _ => True)
      fun world Post code code' =>
        Related code code' ∧ ∀ value, Gives code code' value → Post world value where
  toRules := related.rules
  part _ _ := trivial
  closure _ := trivial
  code _ := trivial
  growScope _ _ := trivial
  report _ _ _ running _ _ := ⟨related.report _ _ running, fun _ _ => trivial⟩
  makeFunction _ _ _ := ⟨related.makeFunction _ _ _, fun _ _ => trivial⟩
  declare _ _ _ := ⟨related.declare _ _ _, fun _ _ => trivial⟩
  assign _ _ _ _ _ := ⟨related.assign _ _ _, fun _ _ => trivial⟩
  createScope _ := ⟨related.createScope _, fun _ _ => trivial⟩
  lookup _ _ := ⟨related.lookup _ _, fun _ _ => trivial⟩
  builtin _ _ _ _ := ⟨related.builtin _ _ _, fun _ _ => trivial⟩

theorem execBody (calls : FunctionCalls m) (calls' : FunctionCalls n)
    (called : ∀ callable arguments,
      Related (calls callable arguments) (calls' callable arguments))
    (scope : ScopeId) (body : List Statement) :
    Related (EventLoop.execBody calls scope body) (EventLoop.execBody calls' scope body) :=
  (@Calculus.execBody _ _ _ _ _ _ _ _ _ _ _ _ related.callCalculus.toCalculus () scope calls calls'
    (fun _ _ => ⟨called _ _, fun _ _ => trivial⟩) trivial body fun _ _ => trivial).1

theorem program (calls : FunctionCalls m) (calls' : FunctionCalls n)
    (called : ∀ callable arguments,
      Related (calls callable arguments) (calls' callable arguments)) (program : Program) :
    Related (do let _ ← EventLoop.execBody calls Scopes.global program.body; return)
      (do let _ ← EventLoop.execBody calls' Scopes.global program.body; return) :=
  related.bind (related.execBody calls calls' called Scopes.global program.body) fun _ _ =>
    related.pure ()

theorem enter (calls : FunctionCalls m) (calls' : FunctionCalls n)
    (called : ∀ callable arguments,
      Related (calls callable arguments) (calls' callable arguments))
    (callable : Callable) (arguments : List Value) :
    Related (callable.enter calls arguments) (callable.enter calls' arguments) :=
  (@CallCalculus.enter _ _ _ _ _ _ _ _ _ _ _ _ () callable arguments related.callCalculus calls
    calls' (fun _ _ => ⟨called _ _, fun _ _ => trivial⟩) trivial fun _ _ => trivial).1

end Respects

theorem Congruence.call_succ {m n : Type → Type} [Monad m] [Actions m] [Monad n] [Actions n]
    {Gives : ∀ {α : Type}, m α → n α → α → Prop} {Related : ∀ {α : Type}, m α → n α → Prop}
    (related : Congruence Gives Related) (room room' : Nat)
    (inner : ∀ callable arguments,
      Related (Callable.call room callable arguments) (Callable.call room' callable arguments))
    (callable : Callable) (arguments : List Value) :
    Related (Callable.call (room + 1) callable arguments)
      (Callable.call (room' + 1) callable arguments) := by
  rw [Callable.call, Callable.call]
  exact related.withFrame _ _ (related.enter _ _ inner callable arguments)

namespace JobRespects

variable {m n : Type → Type} [Monad m] [Interpreter m] [Monad n] [Interpreter n]
variable {Gives : ∀ {α : Type}, m α → n α → α → Prop} {Related : ∀ {α : Type}, m α → n α → Prop}
variable (related : JobRespects Gives Related)

include related

theorem jobCalculus {World : Type} [Preorder World] :
    JobCalculus (.any World) fun world Post code code' =>
      Related code code' ∧ ∀ value, Gives code code' value → Post world value where
  toHostCalculus := related.calculus
  fulfill _ _ := ⟨related.fulfill _ _, fun _ _ reaction _ => reaction.fits_any⟩
  entry _ _ := ⟨related.entry _ _, fun _ _ => trivial⟩
  uncallable _ _ := ⟨related.uncallable, fun _ _ => trivial⟩
  invoked _ _ _ _ holds := ⟨related.invoked _ _ holds.1, fun _ _ => trivial⟩
  settled _ _ := ⟨related.settled _ _, fun _ _ => trivial⟩

theorem callValue (callee : Value) (arguments : List Value) :
    Related (callValue callee arguments) (callValue callee arguments) :=
  (@JobCalculus.callValue _ _ _ _ _ _ _ _ _ _ related.jobCalculus () callee arguments trivial
    fun _ _ => trivial).1

theorem result (reaction : Reaction) (value : Value) :
    Related (Reactions.result EventLoop.callValue reaction value)
      (Reactions.result EventLoop.callValue reaction value) :=
  (@JobCalculus.result _ _ _ _ _ _ _ _ _ _ related.jobCalculus () reaction value reaction.fits_any
    trivial).1

theorem job (job : Job) : Related job.run job.run :=
  (@JobCalculus.job _ _ _ _ _ _ _ _ _ _ related.jobCalculus () job job.fits_any).1

end JobRespects

namespace LoopRespects

variable {m n : Type → Type} [Monad m] [Interpreter m] [Monad n] [Interpreter n]
variable {Gives : ∀ {α : Type}, m α → n α → α → Prop} {Related : ∀ {α : Type}, m α → n α → Prop}
variable (related : LoopRespects Gives Related)

include related

theorem loopCalculus {World : Type} [Preorder World] :
    LoopCalculus (.any World) fun world Post code code' =>
      Related code code' ∧ ∀ value, Gives code code' value → Post world value where
  toJobCalculus := related.jobCalculus
  microtaskRun _ _ _ := ⟨related.microtaskRun _ _ _, fun _ _ => trivial⟩
  taskRun _ _ _ := ⟨related.taskRun _ _ _, fun _ _ => trivial⟩
  traceSize := ⟨related.traceSize, fun _ _ => trivial⟩
  dequeueMicrotask := ⟨related.dequeueMicrotask, fun _ _ microtask _ => microtask.job.fits_any⟩
  dequeueTask := ⟨related.dequeueTask, fun _ _ task _ => task.fits_any⟩

theorem turn : Related turn turn :=
  (@LoopCalculus.turn _ _ _ _ _ _ _ _ _ _ related.loopCalculus ()).1

theorem turns (count : Nat) : Related (turns count) (turns count) :=
  (@LoopCalculus.turns _ _ _ _ _ _ _ _ _ _ related.loopCalculus () count).1

end LoopRespects

namespace Simulation

def Returns {α : Type} (sim : Simulation α) (value : α) : Prop :=
  ∃ settings machine after, sim settings machine = .done value after

theorem Returns.of_pure {α : Type} {value result : α}
    (returns : Returns (Pure.pure value : Simulation α) result) : result = value := by
  obtain ⟨settings, machine, after, same⟩ := returns
  cases same
  rfl

theorem Returns.of_bind {α β : Type} {first : Simulation α} {next : α → Simulation β} {result : β}
    (returns : Returns (first >>= next) result) :
    ∃ value, Returns first value ∧ Returns (next value) result := by
  obtain ⟨settings, machine, after, same⟩ := returns
  rw [bind_apply] at same
  cases middle : first settings machine with
  | halted stopped => simp [middle] at same
  | done value middleMachine =>
      rw [middle] at same
      exact ⟨value, ⟨settings, machine, _, middle⟩, ⟨settings, middleMachine, after, same⟩⟩

abbrev Returned {α : Type} (sim sim' : Simulation α) (value : α) : Prop :=
  Returns sim value ∨ Returns sim' value

theorem Returned.answers : Answers Returned where
  pure returned := by
    obtain returns | returns := returned <;> exact returns.of_pure
  bind returned := by
    obtain returns | returns := returned
    next =>
      obtain ⟨value, early, late⟩ := returns.of_bind
      exact ⟨value, .inl early, .inl late⟩
    next =>
      obtain ⟨value, early, late⟩ := returns.of_bind
      exact ⟨value, .inr early, .inr late⟩

end Simulation

end EventLoop
