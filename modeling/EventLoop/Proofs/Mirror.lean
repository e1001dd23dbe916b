import EventLoop.Proofs.Hoisting
import EventLoop.Proofs.Judgement
import EventLoop.Run

set_option autoImplicit false

/-!
# Mirror images of machines

The image of a machine has the normal form of every function that the machine holds, wherever it is
kept.
-/

namespace EventLoop

open Simulation

def Callable.hoisted (callable : Callable) : Callable :=
  { callable with node := callable.node.hoisted }

def Value.hoisted : Value → Value
  | .function callable => .function callable.hoisted
  | value => value

def Bindings.hoisted (bindings : Bindings) : Bindings :=
  bindings.map fun binding => (binding.1, binding.2.hoisted)

def Scope.hoisted (scope : Scope) : Scope := { scope with bindings := scope.bindings.hoisted }

def Scopes.hoisted (scopes : Scopes) : Scopes := ⟨scopes.all.map Scope.hoisted⟩

def Handler.hoisted : Handler → Handler
  | .callback value => .callback value.hoisted
  | .passThrough => .passThrough
  | .restore saved => .restore saved.hoisted

def Reaction.hoisted (reaction : Reaction) : Reaction :=
  { reaction with handler := reaction.handler.hoisted }

def PromiseState.hoisted : PromiseState → PromiseState
  | .pending reactions => .pending (reactions.map Reaction.hoisted)
  | .fulfilled value => .fulfilled value.hoisted

def PromiseRecord.hoisted (record : PromiseRecord) : PromiseRecord :=
  { record with
    value := record.value.hoisted
    reactions := record.reactions.map Reaction.hoisted }

def Promises.hoisted (promises : Promises) : Promises :=
  ⟨promises.records.map PromiseRecord.hoisted⟩

def Task.hoisted (task : Task) : Task :=
  { task with callback := task.callback.hoisted, arguments := task.arguments.map Value.hoisted }

def TaskQueue.hoisted (queue : TaskQueue) : TaskQueue :=
  { queue with tasks := queue.tasks.map Task.hoisted }

def Job.hoisted : Job → Job
  | .callback value => .callback value.hoisted
  | .reaction waiting value => .reaction waiting.hoisted value.hoisted
  | .follow promise other => .follow promise other

def Microtask.hoisted (microtask : Microtask) : Microtask :=
  { microtask with job := microtask.job.hoisted }

def MicrotaskQueue.hoisted (queue : MicrotaskQueue) : MicrotaskQueue :=
  ⟨queue.microtasks.map Microtask.hoisted⟩

def Machine.hoisted (machine : Machine) : Machine :=
  { machine with
    scopes := machine.scopes.hoisted
    tasks := machine.tasks.hoisted
    microtasks := machine.microtasks.hoisted
    promises := machine.promises.hoisted }

def Completion.hoisted : Completion → Completion
  | .normal => .normal
  | .returned value => .returned value.hoisted

def CallSite.hoisted (site : CallSite) : CallSite :=
  { site with arguments := hoistedExprs site.arguments }

def Outcome.hoisted {α : Type} (image : α → α) : Outcome α → Outcome α
  | .done value machine => .done (image value) machine.hoisted
  | .halted machine => .halted machine.hoisted

section Syntax

variable (node : FunctionNode)

@[simp]
theorem FunctionNode.id_hoisted : node.hoisted.id = node.id := by
  cases node
  rfl

@[simp]
theorem FunctionNode.params_hoisted : node.hoisted.params = node.params := by
  cases node
  rfl

@[simp]
theorem FunctionNode.span_hoisted : node.hoisted.span = node.span := by
  cases node
  rfl

@[simp]
theorem FunctionNode.body_hoisted : node.hoisted.body = node.body.hoisted := by
  cases node
  rfl

@[simp]
theorem FunctionNode.kind_hoisted : node.hoisted.kind = node.kind := by
  cases node
  rfl

@[simp]
theorem FunctionNode.ref_hoisted : node.hoisted.ref = node.ref := by
  simp [FunctionNode.ref]

@[simp]
theorem FunctionNode.nameFor_hoisted (binding : Option String) :
    node.hoisted.nameFor binding = node.nameFor binding := by
  simp [FunctionNode.nameFor]

end Syntax

namespace Expr

@[simp]
theorem kind_hoisted (expr : Expr) : expr.hoisted.kind = expr.kind := by
  cases expr <;> simp [hoisted, kind]

@[simp]
theorem literalDelay_hoisted (expr : Expr) : expr.hoisted.literalDelay = expr.literalDelay := by
  cases expr with
  | unary op argument span => cases op <;> cases argument <;> simp [hoisted, literalDelay]
  | _ => simp [hoisted, literalDelay]

@[simp]
theorem dottedName?_hoisted (expr : Expr) : expr.hoisted.dottedName? = expr.dottedName? := by
  match expr with
  | .member object property span => simp [hoisted, dottedName?, object.dottedName?_hoisted]
  | .literal .. | .identifier .. | .function .. | .unary .. | .binary .. | .logical ..
  | .conditional .. | .assignment .. | .update .. | .sequence .. | .call .. | .unsupported .. =>
      simp [hoisted, dottedName?]

@[simp]
theorem calleeName_hoisted (expr : Expr) : expr.hoisted.calleeName = expr.calleeName := by
  simp [calleeName]

end Expr

namespace Value

theorem Plain.hoisted_eq {value : Value} (plain : value.Plain) : value.hoisted = value := by
  cases value with
  | function callable => exact plain.elim
  | _ => rfl

variable (value left right : Value)

@[simp]
theorem toBoolean_hoisted : value.hoisted.toBoolean = value.toBoolean := by cases value <;> rfl

@[simp]
theorem toNumber_hoisted : value.hoisted.toNumber = value.toNumber := by cases value <;> rfl

@[simp]
theorem toText_hoisted : value.hoisted.toText = value.toText := by cases value <;> rfl

@[simp]
theorem isCallable_hoisted : value.hoisted.isCallable = value.isCallable := by cases value <;> rfl

@[simp]
theorem isNullish_hoisted : value.hoisted.isNullish = value.isNullish := by cases value <;> rfl

@[simp]
theorem typeName_hoisted : value.hoisted.typeName = value.typeName := by cases value <;> rfl

@[simp]
theorem isText_hoisted : value.hoisted.isText = value.isText := by cases value <;> rfl

@[simp]
theorem callbackName_hoisted : value.hoisted.callbackName = value.callbackName := by
  cases value <;> rfl

@[simp]
theorem callbackRef?_hoisted : value.hoisted.callbackRef? = value.callbackRef? := by
  cases value <;> simp [hoisted, callbackRef?, Callable.hoisted]

@[simp]
theorem inspectWith_hoisted (inspectPromise : PromiseId → String) :
    value.hoisted.inspectWith inspectPromise = value.inspectWith inspectPromise := by
  cases value <;> rfl

@[simp]
theorem property_hoisted (name : String) : value.hoisted.property name = value.property name := by
  cases value <;> rfl

theorem hoisted_property (name : String) :
    (value.property name).hoisted = value.property name := by
  obtain plain | ⟨id, kind, -, same⟩ := value.property_cases name
  · exact plain.hoisted_eq
  · rw [same]
    rfl

@[simp]
theorem strictEquals_hoisted :
    left.hoisted.strictEquals right.hoisted = left.strictEquals right := by
  cases left <;> cases right <;> rfl

@[simp]
theorem looseEquals_hoisted : left.hoisted.looseEquals right.hoisted = left.looseEquals right := by
  cases left <;> cases right <;> rfl

@[simp]
theorem less_hoisted : left.hoisted.less right.hoisted = left.less right := by
  cases left <;> cases right <;> rfl

@[simp]
theorem lessEqual_hoisted : left.hoisted.lessEqual right.hoisted = left.lessEqual right := by
  cases left <;> cases right <;> rfl

@[simp]
theorem add_hoisted : left.hoisted.add right.hoisted = left.add right := by
  simp [add]

end Value

@[simp]
theorem BinaryOp.result?_hoisted (op : BinaryOp) (left right : Value) :
    op.result? left.hoisted right.hoisted = op.result? left right := by
  cases op <;> simp [BinaryOp.result?]

@[simp]
theorem UnaryOp.apply_hoisted (op : UnaryOp) (value : Value) :
    op.apply value.hoisted = op.apply value := by
  cases op <;> simp [UnaryOp.apply]

@[simp]
theorem LogicalOp.decides_hoisted (op : LogicalOp) (left : Value) :
    op.decides left.hoisted = op.decides left := by
  cases op <;> simp [LogicalOp.decides]

namespace Bindings

variable (bindings : Bindings) (name : String)

@[simp]
theorem get?_hoisted : bindings.hoisted.get? name = (bindings.get? name).map Value.hoisted := by
  induction bindings with
  | nil => rfl
  | cons binding rest ih =>
      simp only [hoisted, List.map_cons, get?] at ih ⊢
      split <;> simp [ih]

@[simp]
theorem insert_hoisted (value : Value) :
    bindings.hoisted.insert name value.hoisted = (bindings.insert name value).hoisted := by
  induction bindings with
  | nil => rfl
  | cons binding rest ih =>
      simp only [hoisted, List.map_cons, insert] at ih ⊢
      split <;> simp [ih]

end Bindings

namespace Scopes

variable (scopes : Scopes) (name : String) (scope : ScopeId)

theorem getElem?_hoisted : scopes.hoisted.all[scope]? = scopes.all[scope]?.map Scope.hoisted := by
  simp [hoisted]

@[simp]
theorem resolve?_hoisted : scopes.hoisted.resolve? name scope = scopes.resolve? name scope := by
  -- The search goes down in number, and which names a scope binds is the same in its image.
  induction scope using Nat.strongRecOn with
  | ind scope ih =>
      rw [resolve?, resolve?, getElem?_hoisted]
      cases scopes.all[scope]? with
      | none => rfl
      | some found =>
          simp only [Option.map_some, Scope.hoisted, Bindings.get?_hoisted, Option.isSome_map]
          split
          next => rfl
          next =>
            cases found.outer with
            | none => rfl
            | some outer =>
                by_cases less : outer < scope
                · simp only [less, if_true, ih outer less]
                · simp only [less, if_false]

@[simp]
theorem lookup?_hoisted :
    scopes.hoisted.lookup? scope name = (scopes.lookup? scope name).map Value.hoisted := by
  unfold lookup? get?
  rw [resolve?_hoisted]
  cases scopes.resolve? name scope with
  | none => rfl
  | some owner =>
      simp only [Option.bind_some, getElem?_hoisted]
      cases scopes.all[owner]? with
      | none => rfl
      | some found => simp [Scope.hoisted]

@[simp]
theorem declare_hoisted (value : Value) :
    scopes.hoisted.declare scope name value.hoisted =
      (scopes.declare scope name value).hoisted := by
  unfold declare hoisted
  congr 1
  apply Array.ext_getElem?
  intro index
  simp only [Array.getElem?_modify, Array.getElem?_map, Option.map_map]
  split
  next =>
    cases scopes.all[index]? with
    | none => rfl
    | some found => simp [Scope.hoisted]
  next => rfl

@[simp]
theorem assign_hoisted (value : Value) :
    scopes.hoisted.assign scope name value.hoisted = (scopes.assign scope name value).hoisted := by
  simp [assign]

@[simp]
theorem create_hoisted (outer : ScopeId) :
    scopes.hoisted.create outer = ((scopes.create outer).1, (scopes.create outer).2.hoisted) := by
  simp [create, hoisted, size, Scope.hoisted, Bindings.hoisted]

end Scopes

@[simp]
theorem Reaction.callback?_hoisted (reaction : Reaction) :
    reaction.hoisted.callback? = reaction.callback?.map Value.hoisted := by
  obtain ⟨kind, handler, derived⟩ := reaction
  cases handler <;> rfl

@[simp]
theorem Reaction.name_hoisted (reaction : Reaction) : reaction.hoisted.name = reaction.name := by
  unfold Reaction.name
  rw [callback?_hoisted]
  cases reaction.callback? with
  | none => rfl
  | some callback => exact callback.callbackName_hoisted

@[simp]
theorem Job.ref?_hoisted (job : Job) : job.hoisted.ref? = job.ref? := by
  cases job with
  | callback value => exact value.callbackRef?_hoisted
  | reaction waiting value =>
      simp only [Job.hoisted, Job.ref?, Reaction.callback?_hoisted]
      cases waiting.callback? <;> simp
  | follow promise other => rfl

@[simp]
theorem PromiseRecord.state_hoisted (record : PromiseRecord) :
    record.hoisted.state = record.state.hoisted := by
  obtain ⟨status, value, reactions⟩ := record
  cases status <;> rfl

@[simp]
theorem PromiseState.record_hoisted (state : PromiseState) :
    state.hoisted.record = state.record.hoisted := by
  cases state <;> rfl

namespace Promises

variable (promises : Promises) (id : PromiseId)

theorem getElem?_hoisted :
    promises.hoisted.records[id]? = promises.records[id]?.map PromiseRecord.hoisted := by
  simp [hoisted]

@[simp]
theorem size_hoisted : promises.hoisted.size = promises.size := by
  simp [hoisted, size]

@[simp]
theorem get?_hoisted : promises.hoisted.get? id = (promises.get? id).map PromiseState.hoisted := by
  simp [hoisted, get?, Function.comp_def]

@[simp]
theorem create_hoisted (state : PromiseState) :
    promises.hoisted.create state.hoisted =
      ((promises.create state).1, (promises.create state).2.hoisted) := by
  simp [create, hoisted, size]

@[simp]
theorem fulfill_hoisted (value : Value) :
    promises.hoisted.fulfill id value.hoisted =
      ((promises.fulfill id value).1.map Reaction.hoisted,
        (promises.fulfill id value).2.hoisted) := by
  unfold fulfill
  rw [getElem?_hoisted]
  cases promises.records[id]? with
  | none => rfl
  | some record =>
      obtain ⟨status, held, reactions⟩ := record
      cases status with
      | pending => simp [PromiseRecord.hoisted, hoisted]
      | fulfilled => rfl

@[simp]
theorem subscribe_hoisted (reaction : Reaction) :
    promises.hoisted.subscribe id reaction.hoisted =
      ((promises.subscribe id reaction).1.map Value.hoisted,
        (promises.subscribe id reaction).2.hoisted) := by
  unfold subscribe
  rw [getElem?_hoisted]
  cases promises.records[id]? with
  | none => rfl
  | some record =>
      obtain ⟨status, held, reactions⟩ := record
      cases status with
      | pending => simp [PromiseRecord.hoisted, hoisted]
      | fulfilled => rfl

@[simp]
theorem inspect_hoisted (steps : Nat) :
    promises.hoisted.inspect steps id = promises.inspect steps id := by
  induction steps generalizing id with
  | zero => rfl
  | succ steps ih =>
      rw [inspect, inspect, get?_hoisted]
      cases promises.get? id with
      | none => rfl
      | some state =>
          cases state with
          | pending reactions => rfl
          | fulfilled held => simp [PromiseState.hoisted, funext ih]

end Promises

@[simp]
theorem Value.inspect_hoisted (promises : Promises) (value : Value) :
    value.hoisted.inspect promises.hoisted = value.inspect promises := by
  cases value <;> simp [Value.hoisted, Value.inspect, Value.inspectWith, Callable.hoisted]

namespace TaskQueue

variable (queue : TaskQueue)

@[simp]
theorem entries_hoisted : queue.hoisted.entries = queue.entries := by
  simp [hoisted, entries, Task.hoisted, Function.comp_def]

theorem insert_hoisted (task : Task) (tasks : List Task) :
    insert task.hoisted (tasks.map Task.hoisted) = (insert task tasks).map Task.hoisted := by
  induction tasks with
  | nil => rfl
  | cons queued rest ih =>
      simp only [List.map_cons, insert, ih]
      have delay (task : Task) : task.hoisted.delay = task.delay := rfl
      rw [delay, delay]
      split <;> rfl

@[simp]
theorem enqueue_hoisted (task : Task) :
    queue.hoisted.enqueue task.hoisted = (queue.enqueue task).hoisted := by
  simp [enqueue, hoisted, insert_hoisted]

@[simp]
theorem dequeue?_hoisted :
    queue.hoisted.dequeue? = queue.dequeue?.map fun next => (next.1.hoisted, next.2.hoisted) := by
  unfold dequeue? hoisted
  cases queue.tasks <;> rfl

@[simp]
theorem cancel?_hoisted (id : TimerId) :
    queue.hoisted.cancel? id =
      (queue.cancel? id).map fun next => (next.1.hoisted, next.2.hoisted) := by
  have same (task : Task) : task.hoisted.id = task.id := rfl
  simp [cancel?, hoisted, List.find?_map, List.eraseP_map, same, Function.comp_def]

end TaskQueue

namespace MicrotaskQueue

variable (queue : MicrotaskQueue)

@[simp]
theorem names_hoisted : queue.hoisted.names = queue.names := by
  simp [hoisted, names, Microtask.hoisted, Function.comp_def]

@[simp]
theorem enqueue_hoisted (microtask : Microtask) :
    queue.hoisted.enqueue microtask.hoisted = (queue.enqueue microtask).hoisted := by
  simp [enqueue, hoisted]

@[simp]
theorem dequeue?_hoisted :
    queue.hoisted.dequeue? = queue.dequeue?.map fun next => (next.1.hoisted, next.2.hoisted) := by
  unfold dequeue? hoisted
  cases queue.microtasks <;> rfl

end MicrotaskQueue

@[simp]
theorem Machine.snapshot_hoisted (machine : Machine) (event : Event) (node : Option NodeRef) :
    machine.hoisted.snapshot event node = machine.snapshot event node := by
  simp [Machine.snapshot, Machine.hoisted]

def Simulation.Mirrors {α : Type} (image : α → α) (sim sim' : Simulation α) : Prop :=
  ∀ settings machine, sim' settings machine.hoisted = (sim settings machine).hoisted image

namespace Simulation.Mirrors

variable {α β : Type} {image : α → α} {image' : β → β}

theorem pure (value : α) : Mirrors image (Pure.pure value) (Pure.pure (image value)) :=
  fun _ _ => rfl

theorem bind {first first' : Simulation α} {next next' : α → Simulation β}
    (firsts : Mirrors image first first')
    (nexts : ∀ value, Mirrors image' (next value) (next' (image value))) :
    Mirrors image' (first >>= next) (first' >>= next') := by
  intro settings machine
  rw [bind_apply, bind_apply, firsts]
  cases first settings machine with
  | done value after => exact nexts value settings after
  | halted stopped => rfl

theorem settings : Mirrors id settings settings := fun _ _ => rfl

theorem read {view view' : Machine → α}
    (same : ∀ machine, view' machine.hoisted = image (view machine)) :
    Mirrors image (read view) (read view') := by
  intro _ machine
  simp only [Simulation.read, same, Outcome.hoisted]

theorem modify {change change' : Machine → Machine}
    (same : ∀ machine, change' machine.hoisted = (change machine).hoisted) :
    Mirrors id (modify change) (modify change') := by
  intro _ machine
  simp only [Simulation.modify, same, Outcome.hoisted, id]

theorem update {change change' : Machine → α × Machine}
    (same : ∀ machine,
      change' machine.hoisted = (image (change machine).1, (change machine).2.hoisted)) :
    Mirrors image (update change) (update change') := by
  intro _ machine
  simp only [Simulation.update, same, Outcome.hoisted]

theorem traceSize : Mirrors id traceSize traceSize :=
  read fun _ => rfl

theorem record (event : Event) (node : Option NodeRef) :
    Mirrors id (record event node) (record event node) := by
  intro settings machine
  have same : machine.hoisted.trace = machine.trace := rfl
  simp only [Simulation.record, same, Machine.snapshot_hoisted]
  split <;> rfl

theorem report (problem : Problem) (span : Option Span) :
    Mirrors id (report problem span) (report problem span) :=
  modify fun _ => rfl

theorem writeLine (level : ConsoleLevel) (text : String) :
    Mirrors id (writeLine level text) (writeLine level text) :=
  fun _ _ => rfl

theorem makeFunction (binding : Option String) (node : FunctionNode) (scope : ScopeId) :
    Mirrors Value.hoisted (makeFunction binding node scope)
      (makeFunction binding node.hoisted scope) :=
  update fun machine => by simp [Value.hoisted, Callable.hoisted, Machine.hoisted]

section Scopes

variable (scope : ScopeId) (name : String) (value : Value)

theorem declare :
    Mirrors id (declare scope name value) (declare scope name value.hoisted) :=
  modify fun machine => by simp [Machine.hoisted]

theorem assign : Mirrors id (assign scope name value) (assign scope name value.hoisted) :=
  modify fun machine => by simp [Machine.hoisted]

theorem createScope : Mirrors id (createScope scope) (createScope scope) :=
  update fun machine => by simp [Machine.hoisted]

theorem lookup : Mirrors Value.hoisted (lookup scope name) (lookup scope name) := by
  apply read
  intro machine
  simp only [Machine.hoisted, Scopes.lookup?_hoisted]
  cases machine.scopes.lookup? scope name with
  | none => exact (globalValue_plain name).hoisted_eq.symm
  | some value => rfl

end Scopes

theorem pushFrame (name : String) : Mirrors id (pushFrame name) (pushFrame name) :=
  modify fun _ => rfl

theorem popFrame : Mirrors id popFrame popFrame := modify fun _ => rfl

theorem withFrame (name : String) (node : Option NodeRef) {body body' : Simulation α}
    (bodies : Mirrors image body body') :
    Mirrors image (withFrame name node body) (withFrame name node body') := by
  refine bind (pushFrame name) fun _ => bind (record _ _) fun _ => bind bodies fun value => ?_
  exact bind popFrame fun _ => bind (record _ _) fun _ => pure value

section Promises

variable (promise : PromiseId)

theorem createPromise (state : PromiseState) :
    Mirrors id (createPromise state) (createPromise state.hoisted) :=
  update fun machine => by simp [Machine.hoisted]

theorem fulfill (value : Value) :
    Mirrors (List.map Reaction.hoisted) (fulfill promise value) (fulfill promise value.hoisted) :=
  update fun machine => by simp [Machine.hoisted]

theorem keepReaction (reaction : Reaction) :
    Mirrors (Option.map Value.hoisted) (keepReaction promise reaction)
      (keepReaction promise reaction.hoisted) :=
  update fun machine => by simp [Machine.hoisted]

end Promises

section Queues

theorem enqueueMicrotask (microtask : Microtask) :
    Mirrors id (enqueueMicrotask microtask) (enqueueMicrotask microtask.hoisted) :=
  modify fun machine => by simp [Machine.hoisted]

theorem dequeueMicrotask? :
    Mirrors (Option.map Microtask.hoisted) dequeueMicrotask? dequeueMicrotask? := by
  apply update
  intro machine
  simp only [Machine.hoisted, MicrotaskQueue.dequeue?_hoisted]
  cases machine.microtasks.dequeue? <;> rfl

theorem nextTimer : Mirrors id nextTimer nextTimer := update fun _ => rfl

theorem enqueueTask (task : Task) : Mirrors id (enqueueTask task) (enqueueTask task.hoisted) :=
  modify fun machine => by simp [Machine.hoisted]

theorem dequeueTask? : Mirrors (Option.map Task.hoisted) dequeueTask? dequeueTask? := by
  apply update
  intro machine
  simp only [Machine.hoisted, TaskQueue.dequeue?_hoisted]
  cases machine.tasks.dequeue? <;> rfl

theorem cancelTask? (timer : TimerId) :
    Mirrors (Option.map Task.hoisted) (cancelTask? timer) (cancelTask? timer) := by
  apply update
  intro machine
  simp only [Machine.hoisted, TaskQueue.cancel?_hoisted]
  cases machine.tasks.cancel? timer <;> rfl

theorem addMicrotask (microtask : Microtask) (node : Option NodeRef) :
    Mirrors id (addMicrotask microtask node) (addMicrotask microtask.hoisted node) :=
  bind (enqueueMicrotask microtask) fun _ => record _ _

theorem addTask (entry : TaskEntry) (callback : Value) (arguments : List Value)
    (node : Option NodeRef) :
    Mirrors id (addTask entry callback arguments node)
      (addTask entry callback.hoisted (arguments.map Value.hoisted) node) := by
  refine bind nextTimer fun timer => bind (enqueueTask ⟨entry, timer, callback, arguments⟩) ?_
  exact fun _ => bind (record _ _) fun _ => pure timer

theorem removeTask (timer : TimerId) (node : Option NodeRef) :
    Mirrors id (removeTask timer node) (removeTask timer node) := by
  refine bind (cancelTask? timer) fun cancelled => ?_
  cases cancelled with
  | none => exact pure ()
  | some task => exact record _ _

end Queues

theorem inspect (values : List Value) :
    Mirrors id (inspect values) (inspect (values.map Value.hoisted)) := by
  apply read
  intro machine
  simp [Machine.hoisted, Function.comp_def]

end Simulation.Mirrors

end EventLoop
