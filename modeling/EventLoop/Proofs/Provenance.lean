import EventLoop.Proofs.Enactment
import EventLoop.Proofs.FrameNodes

set_option autoImplicit false

/-!
# Provenance

Whatever a run gets hold of comes from its program: function values are made of functions of the
program, what a step points at is such a function or a call of the program, and what a diagnostic
points at is some node of it.
-/

namespace EventLoop

open Simulation

inductive Program.Names (program : Program) : String → Prop where
  | identifier {id : Identifier} (present : program.HasNode (.identifier id)) :
      Names program id.name
  | builtin (host : Builtin) : Names program host.name
  | anonymous : Names program "anonymous"
  | resolveThenable : Names program "resolveThenable"

def Value.From (program : Program) : Value → Prop
  | .function callable =>
      program.HasNode (.function callable.node) ∧ program.Names callable.name
  | _ => True

def Handler.From (program : Program) : Handler → Prop
  | .callback value | .restore value => value.From program
  | .passThrough => True

def PromiseState.From (program : Program) : PromiseState → Prop
  | .pending reactions => ∀ reaction ∈ reactions, reaction.handler.From program
  | .fulfilled value => value.From program

def Job.From (program : Program) : Job → Prop
  | .callback value => value.From program
  | .reaction waiting value => waiting.handler.From program ∧ value.From program
  | .follow .. => True

structure Microtask.From (program : Program) (microtask : Microtask) : Prop where
  name : program.Names microtask.name
  job : microtask.job.From program

structure Task.From (program : Program) (task : Task) : Prop where
  name : program.Names task.name
  callback : task.callback.From program
  arguments : ∀ argument ∈ task.arguments, argument.From program

def CallSite.From (program : Program) (site : CallSite) : Prop :=
  ∃ callee, program.HasNode (.expression (.call callee site.arguments site.span))

def NodeRef.FromFunction (program : Program) (node : NodeRef) : Prop :=
  ∃ function, program.HasNode (.function function) ∧ node = ⟨function.kind, function.span⟩

def NodeRef.FromCall (program : Program) (node : NodeRef) : Prop :=
  ∃ callee arguments span, program.HasNode (.expression (.call callee arguments span)) ∧
    node = ⟨.callExpression, span⟩

/-- What a step may point at. A turn may be a builtin, and no call queues a reaction. -/
def Event.PointsInto (program : Program) (node : Option NodeRef) : Event → Prop
  | .start => node = none
  | .push _ | .pop _ => ∃ function, node = some function ∧ function.FromFunction program
  | .taskRun .. | .microtaskRun .. => ∀ function ∈ node, function.FromFunction program
  | .taskEnqueued .. | .taskCancelled _ | .microtaskEnqueued _ => ∀ call ∈ node,
      call.FromCall program

def Span.From (program : Program) (span : Span) : Prop :=
  ∃ node, program.HasNode node ∧ node.span = span

def Event.name? : Event → Option String
  | .start => none
  | .push name | .pop name | .taskEnqueued name _ | .taskCancelled name | .microtaskEnqueued name
  | .microtaskRun name _ | .taskRun name _ => some name

def Step.names (step : Step) : List String :=
  step.event.name?.toList ++ step.stack ++ step.tasks.map TaskEntry.name ++ step.microtasks

structure Step.From (program : Program) (step : Step) : Prop where
  points : step.event.PointsInto program step.node
  names : ∀ name ∈ step.names, program.Names name

structure Machine.From (program : Program) (machine : Machine) : Prop where
  scopes : machine.scopes.All (Value.From program)
  tasks : ∀ task ∈ machine.tasks.tasks, task.From program
  microtasks : ∀ microtask ∈ machine.microtasks.microtasks, microtask.From program
  promises : ∀ id state, machine.promises.get? id = some state → state.From program
  steps : ∀ step ∈ machine.steps, step.From program
  diagnostics : ∀ diagnostic ∈ machine.diagnostics.toList,
    ∀ span ∈ diagnostic.span, span.From program
  stack : ∀ name ∈ machine.stack, program.Names name

theorem Machine.initial_from (program : Program) : Machine.initial.From program := by
  refine ⟨Scopes.initial_all, ?_, ?_, ?_, ?_, ?_, ?_⟩
  all_goals simp [Machine.initial, TaskQueue.empty, MicrotaskQueue.empty, Promises.initial,
    Promises.get?, Machine.steps]

section Values

variable {program : Program}

theorem Value.Plain.comesFrom {value : Value} (plain : value.Plain) : value.From program := by
  cases value with
  | function callable => exact plain.elim
  | _ => trivial

theorem Value.From.callbackRef? {value : Value} (source : value.From program) :
    ∀ node ∈ value.callbackRef?, node.FromFunction program := by
  cases value with
  | function callable =>
      rintro node ⟨⟩
      exact ⟨callable.node, source.1, rfl⟩
  | _ => simp [Value.callbackRef?]

theorem Value.From.callbackName {value : Value} (source : value.From program) :
    program.Names value.callbackName := by
  cases value with
  | function callable => exact source.2
  | builtin host => exact .builtin host
  | _ => exact .anonymous

theorem Handler.From.name {reaction : Reaction} (source : reaction.handler.From program) :
    program.Names reaction.name := by
  have default : program.Names reaction.kind.name := .builtin (.promiseMethod reaction.kind 0)
  cases same : reaction.handler with
  | callback callback =>
      rw [same] at source
      simpa [Reaction.name, Reaction.callback?, same] using Value.From.callbackName source
  | _ => simpa [Reaction.name, Reaction.callback?, same] using default

theorem Program.Names.nameFor {node : FunctionNode} (present : program.HasNode (.function node))
    {binding : Option String}
    (bound : ∀ name ∈ binding, ∃ id, program.HasNode (.identifier id) ∧ id.name = name) :
    program.Names (node.nameFor binding) := by
  unfold FunctionNode.nameFor
  cases binding with
  | some name =>
      obtain ⟨id, present, rfl⟩ := bound name rfl
      exact .identifier present
  | none =>
      cases own : node.id with
      | none => exact .anonymous
      | some id => exact .identifier (present.child (by simp [own]))

theorem Job.From.ref? {job : Job} (source : job.From program) :
    ∀ node ∈ job.ref?, node.FromFunction program := by
  cases job with
  | callback value => exact source.callbackRef?
  | reaction waiting value =>
      have handler := source.1
      cases same : waiting.handler with
      | callback callback =>
          rw [same] at handler
          simpa [Job.ref?, Reaction.callback?, same] using Value.From.callbackRef? handler
      | _ => simp [Job.ref?, Reaction.callback?, same]
  | follow promise other => simp [Job.ref?]

theorem CallSite.From.ref {site : Option CallSite} (sited : ∀ place ∈ site, place.From program) :
    ∀ node ∈ site.map CallSite.ref, node.FromCall program := by
  intro node member
  obtain ⟨place, found, rfl⟩ := Option.map_eq_some_iff.mp member
  obtain ⟨callee, present⟩ := sited place found
  exact ⟨callee, place.arguments, place.span, present, rfl⟩

theorem CallSite.From.span {site : Option CallSite} (sited : ∀ place ∈ site, place.From program) :
    ∀ span ∈ site.map CallSite.span, span.From program := by
  intro span member
  obtain ⟨place, found, rfl⟩ := Option.map_eq_some_iff.mp member
  obtain ⟨callee, present⟩ := sited place found
  exact ⟨_, present, rfl⟩

theorem Value.From.head {arguments : List Value}
    (all : ∀ argument ∈ arguments, argument.From program) :
    (arguments.head?.getD .undefined).From program := by
  cases same : arguments.head? with
  | none => trivial
  | some argument => exact all argument (List.mem_of_mem_head? same)

theorem Handler.ofArguments_from {arguments : List Value}
    (all : ∀ argument ∈ arguments, argument.From program) :
    (Handler.ofArguments arguments).From program := by
  cases arguments with
  | nil => trivial
  | cons argument rest =>
      by_cases callable : argument.isCallable = true
      next => simpa [Handler.ofArguments, callable, Handler.From] using all argument (by simp)
      next => simp [Handler.ofArguments, callable, Handler.From]

end Values

def Outcome.From (program : Program) {α : Type} (Post : α → Prop) : Outcome α → Prop
  | .done value after => after.From program ∧ Post value
  | .halted after => after.From program

def Sourced (program : Program) {α : Type} (Post : α → Prop) (sim : Simulation α) : Prop :=
  ∀ settings machine, machine.From program → (sim settings machine).From program Post

namespace Sourced

variable {program : Program} {α β : Type}

theorem pure {Post : α → Prop} {value : α} (post : Post value) :
    Sourced program Post (Pure.pure value) :=
  fun _ _ source => ⟨source, post⟩

theorem bind {Mid : α → Prop} {Post : β → Prop} {first : Simulation α} {next : α → Simulation β}
    (firsts : Sourced program Mid first)
    (nexts : ∀ value, Mid value → Sourced program Post (next value)) :
    Sourced program Post (first >>= next) := by
  intro settings machine source
  have ends := firsts settings machine source
  rw [bind_apply]
  cases result : first settings machine with
  | halted after =>
      rw [result] at ends
      exact ends
  | done value middle =>
      rw [result] at ends
      exact nexts value ends.2 settings middle ends.1

theorem record {event : Event} {node : Option NodeRef} (points : event.PointsInto program node)
    (named : ∀ name ∈ event.name?, program.Names name) :
    Sourced program (fun _ => True) (record event node) := by
  intro settings machine source
  obtain halts | records := record_cases event node settings machine
  next =>
    rw [halts]
    exact source
  next =>
    rw [records]
    refine ⟨⟨source.scopes, source.tasks, source.microtasks, source.promises, ?_,
      source.diagnostics, source.stack⟩, trivial⟩
    rw [Machine.steps_recorded, List.forall_mem_append, List.forall_mem_singleton]
    refine ⟨source.steps, points, ?_⟩
    -- Beside its own name, a step shows those of the stack and of the two queues.
    simp only [Step.names, Machine.snapshot, TaskQueue.entries, MicrotaskQueue.names, List.map_map,
      List.forall_mem_append, List.forall_mem_map, Option.mem_toList]
    exact ⟨⟨⟨named, source.stack⟩, fun task member => (source.tasks task member).name⟩,
      fun microtask member => (source.microtasks microtask member).name⟩

theorem report (problem : Problem) {span : Option Span}
    (located : ∀ place ∈ span, place.From program) :
    Sourced program (fun _ => True) (report problem span) := by
  intro settings machine source
  refine ⟨⟨source.scopes, source.tasks, source.microtasks, source.promises, source.steps, ?_,
    source.stack⟩, trivial⟩
  rw [Array.toList_push, List.forall_mem_append, List.forall_mem_singleton]
  exact ⟨source.diagnostics, located⟩

theorem read (view : Machine → α) : Sourced program (fun _ => True) (read view) :=
  fun _ _ source => ⟨source, trivial⟩

theorem writeLine (level : ConsoleLevel) (text : String) :
    Sourced program (fun _ => True) (writeLine level text) := by
  intro settings machine source
  exact ⟨⟨source.scopes, source.tasks, source.microtasks, source.promises, source.steps,
    source.diagnostics, source.stack⟩, trivial⟩

theorem makeFunction {node : FunctionNode} (present : program.HasNode (.function node))
    {binding : Option String}
    (bound : ∀ name ∈ binding, ∃ id, program.HasNode (.identifier id) ∧ id.name = name)
    (scope : ScopeId) :
    Sourced program (Value.From program) (makeFunction binding node scope) := by
  intro settings machine source
  exact ⟨⟨source.scopes, source.tasks, source.microtasks, source.promises, source.steps,
    source.diagnostics, source.stack⟩, present, .nameFor present bound⟩

theorem withScopes {machine : Machine} (source : machine.From program) {scopes : Scopes}
    (all : scopes.All (Value.From program)) :
    Machine.From program { machine with scopes := scopes } :=
  ⟨all, source.tasks, source.microtasks, source.promises, source.steps, source.diagnostics,
    source.stack⟩

theorem declare (scope : ScopeId) (name : String) {value : Value} (good : value.From program) :
    Sourced program (fun _ => True) (declare scope name value) :=
  fun _ _ source => ⟨withScopes source (source.scopes.declare scope name good), trivial⟩

theorem assign (scope : ScopeId) (name : String) {value : Value} (good : value.From program) :
    Sourced program (fun _ => True) (assign scope name value) :=
  fun _ _ source => ⟨withScopes source (source.scopes.declare _ name good), trivial⟩

theorem createScope (outer : ScopeId) : Sourced program (fun _ => True) (createScope outer) :=
  fun _ _ source => ⟨withScopes source (source.scopes.create outer), trivial⟩

theorem lookup (scope : ScopeId) (name : String) :
    Sourced program (Value.From program) (lookup scope name) := by
  intro settings machine source
  refine ⟨source, ?_⟩
  dsimp only
  cases found : machine.scopes.lookup? scope name with
  | none => exact (globalValue_plain name).comesFrom
  | some value => exact source.scopes.lookup? found

theorem withPromises {machine : Machine} (source : machine.From program) {promises : Promises}
    (all : ∀ id state, promises.get? id = some state → state.From program) :
    Machine.From program { machine with promises := promises } :=
  ⟨source.scopes, source.tasks, source.microtasks, all, source.steps, source.diagnostics,
    source.stack⟩

theorem createPromise {state : PromiseState} (good : state.From program) :
    Sourced program (fun _ => True) (createPromise state) := by
  intro settings machine source
  refine ⟨withPromises source fun id found position => ?_, trivial⟩
  by_cases fresh : id = machine.promises.size
  next =>
    subst fresh
    obtain rfl := Option.some.inj (Promises.get?_create_self.symm.trans position)
    exact good
  next => exact source.promises id found ((Promises.get?_create_of_ne fresh).symm.trans position)

theorem setPromise {machine : Machine} (source : machine.From program) (id : PromiseId)
    {record : PromiseRecord} (good : record.state.From program) :
    Machine.From program
      { machine with promises := ⟨machine.promises.records.setIfInBounds id record⟩ } := by
  refine withPromises source fun other found position => ?_
  by_cases same : id = other
  next =>
    subst same
    obtain ⟨stored, place, rfl⟩ := Promises.get?_eq_some.mp position
    rw [Array.getElem?_setIfInBounds_self] at place
    split at place <;> cases place
    exact good
  next =>
    rw [Promises.get?_setIfInBounds_of_ne same] at position
    exact source.promises other found position

theorem stored {machine : Machine} (source : machine.From program) {id : PromiseId}
    {record : PromiseRecord} (found : machine.promises.records[id]? = some record) :
    record.state.From program :=
  source.promises id _ (Promises.get?_eq_some.mpr ⟨record, found, rfl⟩)

theorem fulfill (id : PromiseId) {value : Value} (good : value.From program) :
    Sourced program (fun reactions => ∀ reaction ∈ reactions, reaction.handler.From program)
      (fulfill id value) := by
  intro settings machine source
  simp only [Simulation.fulfill, Promises.fulfill, update]
  cases found : machine.promises.records[id]? with
  | none => exact ⟨source, by simp⟩
  | some record =>
      obtain ⟨status, held, reactions⟩ := record
      cases status with
      | pending => exact ⟨setPromise source id good, stored source found⟩
      | fulfilled => exact ⟨source, by simp⟩

theorem keepReaction (id : PromiseId) {reaction : Reaction} (good : reaction.handler.From program) :
    Sourced program (fun settled => ∀ value ∈ settled, value.From program)
      (keepReaction id reaction) := by
  intro settings machine source
  simp only [Simulation.keepReaction, Promises.subscribe, update]
  cases found : machine.promises.records[id]? with
  | none => exact ⟨source, by simp⟩
  | some record =>
      have kept := stored source found
      obtain ⟨status, held, reactions⟩ := record
      cases status with
      | pending =>
          refine ⟨setPromise source id ?_, by simp⟩
          show ∀ waiting ∈ reactions ++ [reaction], waiting.handler.From program
          rw [List.forall_mem_append, List.forall_mem_singleton]
          exact ⟨kept, good⟩
      | fulfilled =>
          refine ⟨source, ?_⟩
          rintro _ ⟨⟩
          exact kept

theorem withMicrotasks {machine : Machine} (source : machine.From program)
    {microtasks : MicrotaskQueue}
    (all : ∀ microtask ∈ microtasks.microtasks, microtask.From program) :
    Machine.From program { machine with microtasks := microtasks } :=
  ⟨source.scopes, source.tasks, all, source.promises, source.steps, source.diagnostics,
    source.stack⟩

theorem enqueueMicrotask {microtask : Microtask} (good : microtask.From program) :
    Sourced program (fun _ => True) (enqueueMicrotask microtask) := by
  intro settings machine source
  refine ⟨withMicrotasks source ?_, trivial⟩
  rw [MicrotaskQueue.enqueue, List.forall_mem_append, List.forall_mem_singleton]
  exact ⟨source.microtasks, good⟩

theorem dequeueMicrotask? :
    Sourced program (fun next => ∀ microtask ∈ next, microtask.From program)
      dequeueMicrotask? := by
  intro settings machine source
  have all := source.microtasks
  simp only [Simulation.dequeueMicrotask?, MicrotaskQueue.dequeue?, update]
  cases same : machine.microtasks.microtasks with
  | nil => exact ⟨source, by simp⟩
  | cons microtask rest =>
      rw [same, List.forall_mem_cons] at all
      refine ⟨withMicrotasks source all.2, ?_⟩
      rintro _ ⟨⟩
      exact all.1

theorem withTasks {machine : Machine} (source : machine.From program) {tasks : TaskQueue}
    (all : ∀ task ∈ tasks.tasks, task.From program) (clock : Clock) :
    Machine.From program { machine with tasks := tasks, clock := clock } :=
  ⟨source.scopes, all, source.microtasks, source.promises, source.steps, source.diagnostics,
    source.stack⟩

theorem nextTimer : Sourced program (fun _ => True) nextTimer := by
  intro settings machine source
  exact ⟨⟨source.scopes, source.tasks, source.microtasks, source.promises, source.steps,
    source.diagnostics, source.stack⟩, trivial⟩

theorem enqueueTask {task : Task} (good : task.From program) :
    Sourced program (fun _ => True) (enqueueTask task) := by
  intro settings machine source
  refine ⟨withTasks source (fun queued member => ?_) machine.clock, trivial⟩
  obtain rfl | old := TaskQueue.mem_insert.mp member
  next => exact good
  next => exact source.tasks queued old

theorem cancelTask? (id : TimerId) :
    Sourced program (fun cancelled => ∀ task ∈ cancelled, task.From program) (cancelTask? id) := by
  intro settings machine source
  simp only [Simulation.cancelTask?, update]
  cases cancelled : machine.tasks.cancel? id with
  | none => exact ⟨source, by simp⟩
  | some found =>
      obtain ⟨task, tasks⟩ := found
      obtain ⟨position, rfl⟩ := TaskQueue.cancel?_eq_some cancelled
      refine ⟨withTasks source (fun queued member => ?_) machine.clock, ?_⟩
      · exact source.tasks queued (List.mem_of_mem_eraseP member)
      · rintro _ ⟨⟩
        exact source.tasks task (List.mem_of_find?_eq_some position)

theorem addMicrotask {microtask : Microtask} (good : microtask.From program)
    {node : Option NodeRef} (placed : ∀ call ∈ node, call.FromCall program) :
    Sourced program (fun _ => True) (addMicrotask microtask node) := by
  refine (enqueueMicrotask good).bind fun _ _ => record placed ?_
  rintro _ ⟨⟩
  exact good.name

theorem addTask {entry : TaskEntry} (named : program.Names entry.name) {callback : Value}
    (good : callback.From program) {arguments : List Value}
    (all : ∀ argument ∈ arguments, argument.From program) {node : Option NodeRef}
    (placed : ∀ call ∈ node, call.FromCall program) :
    Sourced program (fun _ => True) (addTask entry callback arguments node) := by
  refine nextTimer.bind fun id _ => (enqueueTask ⟨named, good, all⟩).bind fun _ _ => ?_
  have points : Event.PointsInto program node (.taskEnqueued entry.name entry.delay) := placed
  refine (record points ?_).bind fun _ _ => pure trivial
  rintro _ ⟨⟩
  exact named

theorem removeTask (id : TimerId) {node : Option NodeRef}
    (placed : ∀ call ∈ node, call.FromCall program) :
    Sourced program (fun _ => True) (removeTask id node) := by
  refine (cancelTask? id).bind fun cancelled good => ?_
  cases cancelled with
  | none => exact pure trivial
  | some task =>
      refine record placed ?_
      rintro _ ⟨⟩
      exact (good task rfl).name

theorem dequeueTask? :
    Sourced program (fun next => ∀ task ∈ next, task.From program) dequeueTask? := by
  intro settings machine source
  have all := source.tasks
  simp only [Simulation.dequeueTask?, TaskQueue.dequeue?, update]
  cases same : machine.tasks.tasks with
  | nil => exact ⟨source, by simp⟩
  | cons task rest =>
      rw [same, List.forall_mem_cons] at all
      refine ⟨withTasks source all.2 _, ?_⟩
      rintro _ ⟨⟩
      exact all.1

section Builtins

variable {arguments : List Value} (all : ∀ argument ∈ arguments, argument.From program)
variable {site : Option CallSite} (sited : ∀ place ∈ site, place.From program)

include all sited in
theorem setTimeout : Sourced program (Value.From program) (Timers.setTimeout arguments site) := by
  unfold Timers.setTimeout
  dsimp only
  split
  next =>
    have callback := Value.From.head all
    refine (addTask callback.callbackName callback ?_ (CallSite.From.ref sited)).bind
      fun _ _ => pure trivial
    exact fun argument member => all argument (List.mem_of_mem_drop member)
  next => exact (report _ (CallSite.From.span sited)).bind fun _ _ => pure trivial

include sited in
theorem clearTimeout :
    Sourced program (Value.From program) (Timers.clearTimeout arguments site) := by
  unfold Timers.clearTimeout
  split
  next => exact pure trivial
  next id _ => exact (removeTask id (CallSite.From.ref sited)).bind fun _ _ => pure trivial

include all sited in
theorem queueMicrotask :
    Sourced program (Value.From program) (Timers.queueMicrotask arguments site) := by
  unfold Timers.queueMicrotask
  dsimp only
  split
  next =>
    have callback := Value.From.head all
    have good : Microtask.From program ⟨_, .callback _⟩ := ⟨callback.callbackName, callback⟩
    exact (addMicrotask good (CallSite.From.ref sited)).bind fun _ _ => pure trivial
  next => exact (report _ (CallSite.From.span sited)).bind fun _ _ => pure trivial

theorem enqueue {reaction : Reaction} (good : reaction.handler.From program) {value : Value}
    (held : value.From program) :
    Sourced program (fun _ => True) (Reactions.enqueue reaction value) := by
  have job : Job.From program (.reaction reaction value) := ⟨good, held⟩
  exact addMicrotask ⟨good.name, job⟩ (by simp)

theorem subscribe (source : PromiseId) {reaction : Reaction}
    (good : reaction.handler.From program) :
    Sourced program (fun _ => True) (Reactions.subscribe source reaction) := by
  refine (keepReaction source good).bind fun settled held => ?_
  cases settled with
  | none => exact pure trivial
  | some value => exact enqueue good (held value rfl)

theorem promiseOf {value : Value} (good : value.From program) :
    Sourced program (fun _ => True) (Reactions.promiseOf value) := by
  unfold Reactions.promiseOf
  split
  next => exact pure trivial
  next => exact createPromise good

include all in
theorem register (kind : ReactionKind) (source : PromiseId) :
    Sourced program (Value.From program) (Reactions.register kind source arguments) := by
  have pending : PromiseState.From program (.pending []) := by simp [PromiseState.From]
  refine (createPromise pending).bind fun derived _ => ?_
  exact (subscribe source (Handler.ofArguments_from all)).bind fun _ _ => pure trivial

include all sited in
theorem builtin (builtin : Builtin) :
    Sourced program (Value.From program) (builtin.call arguments site) := by
  show Sourced program _ (builtin.perform arguments site)
  cases builtin with
  | setTimeout => exact setTimeout all sited
  | clearTimeout => exact clearTimeout sited
  | queueMicrotask => exact queueMicrotask all sited
  | console => exact pure trivial
  | consoleMethod level =>
      exact ((read _).bind fun _ _ => writeLine _ _).bind fun _ _ => pure trivial
  | promise => exact pure trivial
  | promiseResolve => exact (promiseOf (Value.From.head all)).bind fun _ _ => pure trivial
  | promiseMethod kind id => exact register all kind id

end Builtins

theorem calculus {World : Type} [Preorder World] (program : Program) :
    CallCalculus (m := Simulation) (n := Simulation) program.HasNode
      (fun (_ : World) value => value.From program) (fun _ _ => True)
      fun world Post sim _ => Sourced program (Post world) sim where
  part present member := present.child member
  plain plain := plain.comesFrom
  method _ _ := trivial
  closure _ := trivial
  code good := good.1
  grow _ good := good
  growScope _ _ := trivial
  pure post := pure post
  bind firsts nexts := firsts.bind fun value mid => nexts _ value le_rfl mid
  report problem node _ _ present place :=
    report problem (by rintro _ ⟨⟩; exact ⟨node, present, place⟩)
  makeFunction bound present _ := makeFunction present bound _
  declare name _ good := declare _ name good
  assign name _ _ _ good := assign _ name good
  createScope _ := createScope _
  lookup name _ := lookup _ name
  builtin present _ _ all := builtin all (by rintro _ ⟨⟩; exact ⟨_, present⟩) _

theorem setStack {change : List String → List String}
    (named : ∀ stack, (∀ name ∈ stack, program.Names name) →
      ∀ name ∈ change stack, program.Names name) :
    Sourced program (fun _ => True)
      (modify fun machine => { machine with stack := change machine.stack }) :=
  fun _ _ source => ⟨⟨source.scopes, source.tasks, source.microtasks, source.promises, source.steps,
    source.diagnostics, named _ source.stack⟩, trivial⟩

theorem pushFrame {name : String} (named : program.Names name) :
    Sourced program (fun _ => True) (pushFrame name) :=
  setStack fun _ all => List.forall_mem_cons.mpr ⟨named, all⟩

theorem popFrame : Sourced program (fun _ => True) popFrame :=
  setStack fun _ all name member => all name (List.mem_of_mem_tail member)

theorem recordFrame {callable : Callable} (good : Value.From program (.function callable))
    {event : Event} (frame : event = .push callable.name ∨ event = .pop callable.name) :
    Sourced program (fun _ => True) (Simulation.record event (some callable.node.ref)) := by
  have points : ∃ function, some callable.node.ref = some function ∧
      function.FromFunction program :=
    ⟨_, rfl, callable.node, good.1, rfl⟩
  rcases frame with rfl | rfl
  all_goals
    refine record points ?_
    rintro _ ⟨⟩
    exact good.2

theorem withFrame {callable : Callable} (good : Value.From program (.function callable))
    {body : Simulation α} {Post : α → Prop} (bodies : Sourced program Post body) :
    Sourced program Post (withFrame callable.name (some callable.node.ref) body) := by
  refine (pushFrame good.2).bind fun _ _ => (recordFrame good (.inl rfl)).bind fun _ _ => ?_
  refine bodies.bind fun _ post => popFrame.bind fun _ _ => ?_
  exact (recordFrame good (.inr rfl)).bind fun _ _ => pure post

theorem call (room : Nat) {callable : Callable} {arguments : List Value}
    (good : Value.From program (.function callable))
    (all : ∀ argument ∈ arguments, argument.From program) :
    Sourced program (Value.From program) (callable.call room arguments) := by
  induction room generalizing callable arguments with
  | zero =>
      have asks : Sourced program (fun _ => True) settings := fun _ _ source => ⟨source, trivial⟩
      refine asks.bind fun _ _ => (report _ ?_).bind fun _ _ => pure trivial
      rintro _ ⟨⟩
      exact ⟨_, good.1, rfl⟩
  | succ room ih =>
      rw [Callable.call]
      let calls : FunctionCalls Simulation := Callable.call room
      exact withFrame good (@CallCalculus.enter _ _ _ _ _ _ _ _ _ _ _ _ () callable arguments
        (calculus program) calls calls ih good all)

theorem callValue {callee : Value} {arguments : List Value} (good : callee.From program)
    (all : ∀ argument ∈ arguments, argument.From program) :
    Sourced program (Value.From program) (callValue callee arguments) := by
  cases callee with
  | function callable =>
      exact fun settings machine => call settings.maxCallDepth good all settings machine
  | builtin builtin => exact Sourced.builtin all (by simp) builtin
  | _ => exact pure trivial

theorem enqueueAll {value : Value} (held : value.From program) {reactions : List Reaction}
    (all : ∀ reaction ∈ reactions, reaction.handler.From program) :
    Sourced program (fun _ => True) (Reactions.enqueueAll value reactions) := by
  induction reactions with
  | nil => exact pure trivial
  | cons reaction rest ih =>
      obtain ⟨good, others⟩ := List.forall_mem_cons.mp all
      exact (enqueue good held).bind fun _ _ => ih others

theorem settle (id : PromiseId) {value : Value} (good : value.From program) :
    Sourced program (fun _ => True) (Reactions.settle id value) := by
  have noted : Sourced program (fun _ => True) (Actions.note (.settle id value)) := pure trivial
  -- A promise is followed by a job that holds no value; any other value goes to all who waited.
  obtain final | ⟨other, rfl⟩ := value.final_or_promise
  next =>
    rw [Reactions.settle_of_final final]
    refine noted.bind fun _ _ => ?_
    exact (fulfill id good).bind fun _ released => enqueueAll good released
  next =>
    refine noted.bind fun _ _ => ?_
    dsimp only
    split
    next => exact pure trivial
    next =>
      have good : Microtask.From program ⟨"resolveThenable", .follow id other⟩ :=
        ⟨.resolveThenable, trivial⟩
      exact addMicrotask good (by simp)

theorem restoreAfter {outcome saved : Value} (good : outcome.From program)
    (held : saved.From program) :
    Sourced program (Value.From program) (Reactions.restoreAfter outcome saved) := by
  have pending : PromiseState.From program (.pending []) := by simp [PromiseState.From]
  refine (promiseOf good).bind fun waited _ => (createPromise pending).bind fun restored _ => ?_
  refine (subscribe waited ?_).bind fun _ _ => pure trivial
  exact held

theorem reactionResult {reaction : Reaction} (good : reaction.handler.From program) {value : Value}
    (held : value.From program) :
    Sourced program (Value.From program) (Reactions.result EventLoop.callValue reaction value) := by
  unfold Reactions.result
  split
  next callback _ handler =>
    rw [handler] at good
    exact callValue good (by simpa using held)
  next callback _ handler =>
    rw [handler] at good
    exact (callValue good (by simp)).bind fun _ returned => restoreAfter returned held
  next saved handler =>
    rw [handler] at good
    exact pure good
  next => exact pure held

theorem job {job : Job} (good : job.From program) : Sourced program (fun _ => True) job.run := by
  cases job with
  | callback value => exact (callValue good (by simp)).bind fun _ _ => pure trivial
  | reaction waiting value =>
      exact (reactionResult good.1 good.2).bind fun _ result => settle _ result
  | follow promise other => exact subscribe other trivial

theorem turn : Sourced program (fun _ => True) turn := by
  refine dequeueMicrotask?.bind fun next good => ?_
  cases next with
  | some microtask =>
      obtain ⟨named, source⟩ := good microtask rfl
      have runs : Sourced program (fun _ => True) (runMicrotask microtask) := by
        refine (read _).bind fun _ _ => (job source).bind fun _ _ => record source.ref? ?_
        rintro _ ⟨⟩
        exact named
      exact runs.bind fun _ _ => pure trivial
  | none =>
      refine dequeueTask?.bind fun next good => ?_
      cases next with
      | none => exact pure trivial
      | some task =>
          obtain ⟨named, callback, arguments⟩ := good task rfl
          have runs : Sourced program (fun _ => True) (runTask task) := by
            refine (read _).bind fun _ _ => (callValue callback arguments).bind fun _ _ =>
              record callback.callbackRef? ?_
            rintro _ ⟨⟩
            exact named
          exact runs.bind fun _ _ => pure trivial

theorem turns (count : Nat) : Sourced program (fun _ => True) (turns count) := by
  induction count with
  | zero => exact pure trivial
  | succ count ih =>
      refine turn.bind fun more _ => ?_
      cases more with
      | false => exact pure trivial
      | true => exact ih

theorem prologue (program : Program) : Sourced program (fun _ => True) program.prologue := by
  -- All statements of the program are present, and evaluation only goes down from there.
  refine (record ?_ (by simp [Event.name?])).bind fun _ _ settings => ?_
  · rfl
  · let calls : FunctionCalls Simulation := Callable.call settings.maxCallDepth
    have body := @Calculus.execBody _ _ _ _ _ _ _ _ _ _ _ _ (calculus program).toCalculus ()
      Scopes.global calls calls (fun good all => call settings.maxCallDepth good all) trivial
      program.body fun _ => .top
    exact body.bind (fun _ _ => pure trivial) settings

theorem simulate (program : Program) : Sourced program (fun _ => True) program.simulate := by
  rw [Program.simulate]
  exact (prologue program).bind fun _ _ settings machine =>
    turns (settings.maxSteps - machine.trace.size + 1) settings machine

end Sourced

theorem Program.run_from (program : Program) (settings : Settings) :
    (∀ step ∈ (program.run settings).trace, step.From program) ∧
      ∀ diagnostic ∈ (program.run settings).diagnostics, ∀ span ∈ diagnostic.span,
        span.From program := by
  have ends := Sourced.simulate program settings .initial (Machine.initial_from program)
  unfold Program.run
  cases result : program.simulate (m := Simulation) settings .initial with
  | done value after =>
      rw [result] at ends
      obtain ⟨source, -⟩ := ends
      exact ⟨fun step member => source.steps step member.val,
        fun diagnostic member => source.diagnostics diagnostic member.val⟩
  | halted after =>
      rw [result] at ends
      refine ⟨fun step member => ends.steps step member.val, ?_⟩
      intro diagnostic member
      simp only [Outcome.toRun, Machine.toRun, Array.mem_push] at member
      obtain earlier | rfl := member
      next => exact ends.diagnostics diagnostic earlier.val
      next => simp

/-- Every step and every diagnostic of a run points into its program. Frames and turns point at
functions, changes of the queues at calls, and a pop at the function of the one push that it
matches. -/
theorem Program.run_provenance (program : Program) (settings : Settings) :
    (∀ step ∈ (program.run settings).trace, step.event.PointsInto program step.node) ∧
    (∀ diagnostic ∈ (program.run settings).diagnostics, ∀ span ∈ diagnostic.span,
      ∃ node, program.HasNode node ∧ node.span = span) ∧
    ∀ closing pop frame, (program.run settings).trace[closing]? = some pop →
      pop.event = .pop frame →
      ∃ opening push, (program.run settings).Encloses opening closing ∧
        (∀ other, (program.run settings).Encloses other closing → other = opening) ∧
        (program.run settings).trace[opening]? = some push ∧ pop.node = push.node := by
  obtain ⟨steps, diagnostics⟩ := program.run_from settings
  refine ⟨fun step member => (steps step member).points, diagnostics,
    fun closing pop frame closes event => ?_⟩
  have discipline := program.run_stackDiscipline settings
  obtain ⟨opening, encloses⟩ := discipline.exists_opening closes event
  obtain ⟨push, opens⟩ := Run.getElem?_of_lt closes encloses.order
  refine ⟨opening, push, encloses, ?_, opens, ?_⟩
  · exact fun other also => also.opening_unique discipline encloses
  · exact encloses.node_eq discipline (program.run_frameLaw settings) opens closes

end EventLoop
