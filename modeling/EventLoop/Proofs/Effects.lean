import EventLoop.Proofs.Extent
import EventLoop.Proofs.Moves

set_option autoImplicit false

/-!
# What a run does

A run is read as a sequence of acts: calls of builtins, changes of the queues, what becomes of the
promises, and the steps that are recorded.
-/

namespace EventLoop

inductive Act where
  | record (event : Event)
  | call (builtin : Builtin) (arguments : List Value) (result : Value)
  | invoke (callee : Value) (arguments : List Value) (result : Value)
  | addTask (task : Task)
  | removeTask (task : Task)
  | takeTask (task : Task)
  | enqueue (microtask : Microtask)
  | react (source : PromiseId) (reaction : Reaction) (value : Value)
  | takeMicrotask (microtask : Microtask)
  | hold (id : PromiseId) (value : Value)
  | register (kind : ReactionKind) (source : PromiseId) (arguments : List Value)
      (derived : PromiseId)
  | subscribe (source : PromiseId) (reaction : Reaction)
  | settle (id : PromiseId) (value : Value)
  | line (stack : List String)
  | problem (stack : List String)

def Act.entry : Act → Entry
  | record event => .record event
  | call builtin arguments result => .call builtin arguments result
  | invoke callee arguments result => .invoke callee arguments result
  | addTask task => .addTask task
  | removeTask task => .removeTask task
  | takeTask task => .takeTask task
  | enqueue microtask => .enqueue microtask
  | react _ reaction value => .enqueue ⟨reaction.name, .reaction reaction value⟩
  | takeMicrotask microtask => .dequeue microtask
  | hold id value => .hold id value
  | register kind source arguments derived =>
      .subscribe source ⟨kind, .ofArguments arguments, derived⟩
  | subscribe source reaction => .subscribe source reaction
  | settle id value => .settle id value
  | line stack => .line stack
  | problem stack => .problem stack

inductive Duty where
  | free
  | callback (callback : Value)
  | task (task : Task)
  | ran (task : Task)
  | react (reaction : Reaction) (value : Value)
  | await (reaction : Reaction) (outcome value : Value)
  | settle (id : PromiseId) (value : Value)
  | release (source : PromiseId) (value : Value) (reactions : List Reaction)
  | follow (promise other : PromiseId)
  | ended

structure Config where
  machine : Machine
  duty : Duty

def Config.initial : Config := ⟨.initial, .free⟩

def Config.record (config : Config) (event : Event) (node : Option NodeRef) : Config :=
  { config with machine := config.machine.recorded event node }

def Job.duty : Job → Duty
  | .callback value => .callback value
  | .reaction waiting value => .react waiting value
  | .follow promise other => .follow promise other

def Reaction.Calls (reaction : Reaction) : Prop :=
  match reaction.kind, reaction.handler with
  | .onThen, .callback _ | .onFinally, .callback _ => True
  | _, _ => False

def Reaction.Gives (reaction : Reaction) (value result : Value) : Prop :=
  match reaction.kind, reaction.handler with
  | .onThen, .callback _ | .onFinally, .callback _ => False
  | _, .restore saved => result = saved
  | _, _ => result = value

def Duty.Evaluates : Duty → Prop
  | .free | .callback _ | .task _ => True
  | .react reaction _ => reaction.Calls
  | _ => False

def Event.IsFrame : Event → Prop
  | .push _ | .pop _ => True
  | _ => False

def Duty.Ends : Duty → Event → Prop
  | .ran finished, .taskRun name _ => name = finished.name
  | .ended, .microtaskRun .. => True
  | _, _ => False

theorem Duty.Ends.cases {duty : Duty} {event : Event} (ends : duty.Ends event) :
    duty = .ended ∨ ∃ task, duty = .ran task := by
  cases duty with
  | ended => exact .inl rfl
  | ran task => exact .inr ⟨task, rfl⟩
  | _ => exact ends.elim

def Machine.Answers (machine : Machine) (arguments : List Value) : Builtin → Value → Prop
  | .setTimeout, result =>
      (arguments.head?.getD .undefined).isCallable = false ∧ result = .undefined
  | .clearTimeout, result =>
      (∀ id, Timers.timerNamed? arguments = some id → machine.tasks.cancel? id = none) ∧
        result = .undefined
  | .promiseMethod .., _ => False
  | _, _ => True

def Promises.put (promises : Promises) (id : PromiseId) (state : PromiseState) : Promises :=
  ⟨promises.records.setIfInBounds id state.record⟩

namespace Machine

def withPromise (machine : Machine) (state : PromiseState) : Machine :=
  { machine with promises := (machine.promises.create state).2 }

def withMicrotask (machine : Machine) (microtask : Microtask) : Machine :=
  { machine with microtasks := machine.microtasks.enqueue microtask }

end Machine

-- A change is recorded at once, with an event. What follows the step is done if there is room for
-- it.
abbrev Notice : Type := Option (Event × List Act)

def Notice.acts : Notice → List Act
  | none => []
  | some (event, late) => .record event :: late

inductive Subscribes (source : PromiseId) (reaction : Reaction) (act : Act) (late : List Act) :
    Machine → List Act → Notice → Machine → Prop where
  | kept {machine : Machine} {reactions : List Reaction}
      (pending : machine.promises.get? source = some (.pending reactions)) :
      Subscribes source reaction act late machine (act :: late) none
        { machine with
          promises := machine.promises.put source (.pending (reactions ++ [reaction])) }
  | queued {machine : Machine} {value : Value}
      (settled : machine.promises.get? source = some (.fulfilled value)) :
      Subscribes source reaction act late machine [act, .react source reaction value]
        (some (.microtaskEnqueued reaction.name, late))
        (machine.withMicrotask ⟨reaction.name, .reaction reaction value⟩)

inductive Operation : Machine → List Act → Notice → Machine → Prop where
  | quiet {machine : Machine} (stack : List String) (scopes : Scopes) (callables : Nat)
      (grown : machine.scopes.size ≤ scopes.size)
      (within : scopes.Within ⟨scopes.size, machine.promises.size⟩) :
      Operation machine [] none
        { machine with stack := stack, scopes := scopes, callables := callables }
  | report (machine : Machine) (diagnostics : Array Diagnostic) :
      Operation machine [.problem machine.stack] none { machine with diagnostics := diagnostics }
  | writeLine (machine : Machine) (console : Array ConsoleLine)
      (echoed : Array (ConsoleLevel × String)) :
      Operation machine [.line machine.stack] none
        { machine with console := console, echoed := echoed }
  | frame (machine : Machine) {event : Event} (frame : event.IsFrame) :
      Operation machine [] (some (event, [])) machine
  | answer {machine : Machine} {builtin : Builtin} {arguments : List Value} {result : Value}
      (answers : machine.Answers arguments builtin result) :
      Operation machine [.call builtin arguments result] none machine
  | addTask {machine : Machine} {task : Task} {arguments : List Value}
      (fresh : task.id = machine.tasks.nextId.1) (delay : ∃ given, task.delay = normalDelay given)
      (callback : arguments.head? = some task.callback) (rest : task.arguments = arguments.drop 2)
      (within : task.Within machine.extent) :
      Operation machine [.addTask task]
        (some (.taskEnqueued task.name task.delay,
          [.call .setTimeout arguments (.number task.id.toFloat)]))
        { machine with tasks := machine.tasks.nextId.2.enqueue task }
  | removeTask {machine : Machine} {id : TimerId} {task : Task} {tasks : TaskQueue}
      {arguments : List Value} (named : Timers.timerNamed? arguments = some id)
      (pending : machine.tasks.cancel? id = some (task, tasks)) :
      Operation machine [.removeTask task]
        (some (.taskCancelled task.name, [.call .clearTimeout arguments .undefined]))
        { machine with tasks := tasks }
  | queueMicrotask {machine : Machine} {callback : Value} (arguments : List Value)
      (within : callback.Callback machine.extent) :
      Operation machine [.enqueue ⟨callback.callbackName, .callback callback⟩]
        (some (.microtaskEnqueued callback.callbackName,
          [.call .queueMicrotask arguments .undefined]))
        (machine.withMicrotask ⟨callback.callbackName, .callback callback⟩)
  | hold {machine : Machine} {value : Value} (held : value.Held machine.extent) :
      Operation machine [.hold machine.promises.size value] none
        (machine.withPromise (.fulfilled value))
  | register {machine changed : Machine} {kind : ReactionKind} {source : PromiseId}
      {arguments : List Value} {acts : List Act} {notice : Notice}
      (known : source < machine.promises.size)
      (within : ∀ argument ∈ arguments, argument.Within machine.extent)
      (subscribes : Subscribes source ⟨kind, .ofArguments arguments, machine.promises.size⟩
        (.register kind source arguments machine.promises.size)
        [.call (.promiseMethod kind source) arguments (.promise machine.promises.size)]
        (machine.withPromise (.pending [])) acts notice changed) :
      Operation machine acts notice changed

inductive Effect : Config → List Act → Notice → Config → Prop where
  | operation {machine changed : Machine} {duty : Duty} {acts : List Act} {notice : Notice}
      (evaluates : duty.Evaluates) (operation : Operation machine acts notice changed) :
      Effect ⟨machine, duty⟩ acts notice ⟨changed, duty⟩
  | takeMicrotask {machine : Machine} {microtask : Microtask} {rest : List Microtask}
      (next : machine.microtasks.microtasks = microtask :: rest) :
      Effect ⟨machine, .free⟩ [.takeMicrotask microtask] none
        ⟨{ machine with microtasks := ⟨rest⟩ }, microtask.job.duty⟩
  | takeTask {machine : Machine} {task : Task} {rest : List Task}
      (drained : machine.microtasks.microtasks = []) (next : machine.tasks.tasks = task :: rest) :
      Effect ⟨machine, .free⟩ [.takeTask task] none
        ⟨{ machine with
            tasks := { machine.tasks with tasks := rest }
            clock := machine.clock.advance task.delay }, .task task⟩
  | calledBack (machine : Machine) (callback result : Value) :
      Effect ⟨machine, .callback callback⟩ [.invoke callback [] result] none ⟨machine, .ended⟩
  | ranTask (machine : Machine) (task : Task) (result : Value) :
      Effect ⟨machine, .task task⟩ [.invoke task.callback task.arguments result] none
        ⟨machine, .ran task⟩
  | calledThen {machine : Machine} {reaction : Reaction} {value callback result : Value}
      (kind : reaction.kind = .onThen) (handler : reaction.handler = .callback callback)
      (within : result.Within machine.extent) :
      Effect ⟨machine, .react reaction value⟩ [.invoke callback [value] result] none
        ⟨machine, .settle reaction.derived result⟩
  | calledFinally {machine : Machine} {reaction : Reaction} {value callback outcome : Value}
      (kind : reaction.kind = .onFinally) (handler : reaction.handler = .callback callback)
      (within : outcome.Within machine.extent) :
      Effect ⟨machine, .react reaction value⟩ [.invoke callback [] outcome] none
        ⟨machine, .await reaction outcome value⟩
  | holdOutcome {machine : Machine} {reaction : Reaction} {outcome value : Value}
      (held : outcome.Held machine.extent) :
      Effect ⟨machine, .await reaction outcome value⟩ [.hold machine.promises.size outcome] none
        ⟨machine.withPromise (.fulfilled outcome),
          .await reaction (.promise machine.promises.size) value⟩
  | restore {machine changed : Machine} {reaction : Reaction} {value : Value}
      {waited : PromiseId} {acts : List Act} {notice : Notice}
      (known : waited < machine.promises.size)
      (subscribes : Subscribes waited ⟨.onFinally, .restore value, machine.promises.size⟩
        (.subscribe waited ⟨.onFinally, .restore value, machine.promises.size⟩) []
        (machine.withPromise (.pending [])) acts notice changed) :
      Effect ⟨machine, .await reaction (.promise waited) value⟩ acts notice
        ⟨changed, .settle reaction.derived (.promise machine.promises.size)⟩
  | result {machine : Machine} {reaction : Reaction} {value result : Value}
      (gives : reaction.Gives value result) :
      Effect ⟨machine, .react reaction value⟩ [] none
        ⟨machine, .settle reaction.derived result⟩
  | settleSelf (machine : Machine) (id : PromiseId) :
      Effect ⟨machine, .settle id (.promise id)⟩ [.settle id (.promise id)] none ⟨machine, .ended⟩
  | settleFollow (machine : Machine) {id other : PromiseId} (different : other ≠ id) :
      Effect ⟨machine, .settle id (.promise other)⟩
        [.settle id (.promise other), .enqueue ⟨"resolveThenable", .follow id other⟩]
        (some (.microtaskEnqueued "resolveThenable", []))
        ⟨machine.withMicrotask ⟨"resolveThenable", .follow id other⟩, .ended⟩
  | fulfill (machine : Machine) (id : PromiseId) {value : Value} (final : value.Final) :
      Effect ⟨machine, .settle id value⟩ [.settle id value] none
        ⟨{ machine with promises := (machine.promises.fulfill id value).2 },
          .release id value (machine.promises.fulfill id value).1⟩
  | release (machine : Machine) (source : PromiseId) (value : Value) (reaction : Reaction)
      (rest : List Reaction) :
      Effect ⟨machine, .release source value (reaction :: rest)⟩ [.react source reaction value]
        (some (.microtaskEnqueued reaction.name, []))
        ⟨machine.withMicrotask ⟨reaction.name, .reaction reaction value⟩,
          .release source value rest⟩
  | released (machine : Machine) (source : PromiseId) (value : Value) :
      Effect ⟨machine, .release source value []⟩ [] none ⟨machine, .ended⟩
  | follow {machine changed : Machine} {promise other : PromiseId} {acts : List Act}
      {notice : Notice} (known : other < machine.promises.size)
      (subscribes : Subscribes other ⟨.onThen, .passThrough, promise⟩
        (.subscribe other ⟨.onThen, .passThrough, promise⟩) [] machine acts notice changed) :
      Effect ⟨machine, .follow promise other⟩ acts notice ⟨changed, .ended⟩
  | finish (machine : Machine) {duty : Duty} {event : Event} (ends : duty.Ends event) :
      Effect ⟨machine, duty⟩ [] (some (event, [])) ⟨machine, .free⟩

inductive Journey (settings : Settings) (start : Config) : List Act → Config → Prop where
  | refl : Journey settings start [] start
  | silent {config after : Config} {past acts : List Act}
      (journey : Journey settings start past config) (effect : Effect config acts none after) :
      Journey settings start (past ++ acts) after
  | recorded {config after : Config} {past acts late : List Act} {event : Event}
      (journey : Journey settings start past config)
      (effect : Effect config acts (some (event, late)) after)
      (node : Option NodeRef) (room : after.machine.trace.size < settings.maxSteps) :
      Journey settings start (past ++ (acts ++ .record event :: late)) (after.record event node)

-- The step limit strikes at the end of a journey: one more change is made, and not recorded.
inductive Cut (settings : Settings) (start : Config) : List Act → Config → Prop where
  | intro {config after : Config} {past acts late : List Act} {event : Event}
      (journey : Journey settings start past config)
      (effect : Effect config acts (some (event, late)) after)
      (full : settings.maxSteps ≤ after.machine.trace.size) :
      Cut settings start (past ++ acts) after

namespace Journey

variable {settings : Settings} {start middle reached : Config} {past acts : List Act}

theorem trans (first : Journey settings start past middle)
    (second : Journey settings middle acts reached) :
    Journey settings start (past ++ acts) reached := by
  induction second with
  | refl => simpa using first
  | silent _ effect ih =>
      rw [← List.append_assoc]
      exact ih.silent effect
  | recorded _ effect node room ih =>
      rw [← List.append_assoc]
      exact ih.recorded effect node room

theorem single {config after : Config} (effect : Effect config acts none after) :
    Journey settings config acts after := by
  simpa using Journey.refl.silent effect

end Journey

namespace Cut

variable {settings : Settings} {start middle reached : Config} {past acts : List Act}

theorem after (first : Journey settings start past middle)
    (cut : Cut settings middle acts reached) : Cut settings start (past ++ acts) reached := by
  cases cut with
  | intro journey effect full =>
      rw [← List.append_assoc]
      exact .intro (first.trans journey) effect full

end Cut

end EventLoop
