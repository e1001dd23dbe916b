import EventLoop.Proofs.Schedule

set_option autoImplicit false

/-!
# The life of a task

The events that a run records of its tasks agree with what it does to them.
-/

namespace EventLoop

open Simulation
open scoped List

namespace Event

def enqueuedTask? : Event → Option TaskEntry
  | taskEnqueued name delay => some ⟨name, delay⟩
  | _ => none

def cancelledTask? : Event → Option String
  | taskCancelled name => some name
  | _ => none

def ranTask? : Event → Option String
  | taskRun name _ => some name
  | _ => none

end Event

/-- What is read off the events of a trace. -/
def noted {α : Type} (read : Event → Option α) (steps : List Step) : List α :=
  steps.filterMap fun step => read step.event

theorem noted_concat {α : Type} (read : Event → Option α) (steps : List Step) (step : Step) :
    noted read (steps ++ [step]) = noted read steps ++ (read step.event).toList := by
  cases found : read step.event <;> simp [noted, found]

def Duty.runningTask : Duty → List String
  | .task running | .ran running => [running.name]
  | _ => []

def Task.handle (task : Task) : Value := .number task.id.toFloat

def Notice.event? (notice : Notice) : Option Event := notice.map Prod.fst

structure TaskEvent (duty : Duty) (acts : List Act) (notice : Notice) (after : Duty) : Prop where
  added : (addedTasks (acts.map Act.entry)).map Task.toTaskEntry =
    (notice.event?.bind Event.enqueuedTask?).toList
  removed : (removedTasks (acts.map Act.entry)).map (·.name) =
    (notice.event?.bind Event.cancelledTask?).toList
  taken : duty.runningTask ++ (takenTasks (acts.map Act.entry)).map (·.name) =
    (notice.event?.bind Event.ranTask?).toList ++ after.runningTask
  handed : handedOut ((acts ++ notice.acts).map Act.entry) =
    (addedTasks (acts.map Act.entry)).map Task.handle
  early : notice.isSome = true → handedOut (acts.map Act.entry) = []

section Effects

variable {acts : List Act} {notice : Notice} {duty after : Duty}

theorem TaskEvent.length_added_le (change : TaskEvent duty acts notice after) :
    (addedTasks (acts.map Act.entry)).length ≤ 1 := by
  have same := congrArg List.length change.added
  rw [List.length_map] at same
  rw [same]
  exact Option.length_toList_le

theorem TaskEvent.of_free (free : ∀ entry ∈ (acts ++ notice.acts).map Act.entry, entry.FreeOfTasks)
    (unseen : ∀ event, notice.event? = some event → event.enqueuedTask? = none ∧
      event.cancelledTask? = none ∧ event.ranTask? = none)
    (same : after.runningTask = duty.runningTask) : TaskEvent duty acts notice after := by
  have early : ∀ entry ∈ acts.map Act.entry, entry.FreeOfTasks := fun entry member =>
    free entry (by simp_all)
  have leaves {entry : Entry} (free : entry.FreeOfTasks) :
      entry.LeavesTasks ∧ entry.handedOut? = none := by
    cases entry with
    | addTask => exact free.elim
    | removeTask => exact free.elim
    | takeTask => exact free.elim
    | call builtin arguments result =>
        cases builtin with
        | setTimeout => exact free.elim
        | _ => exact ⟨⟨rfl, rfl, rfl⟩, rfl⟩
    | _ => exact ⟨⟨rfl, rfl, rfl⟩, rfl⟩
  obtain ⟨added, removed, taken⟩ :=
    tasks_of_unrelated fun entry member => (leaves (early entry member)).1
  have unhanded {log : List Entry} (free : ∀ entry ∈ log, entry.FreeOfTasks) : handedOut log = [] :=
    List.filterMap_eq_nil_iff.mpr fun entry member => (leaves (free entry member)).2
  have none : notice.event?.bind Event.enqueuedTask? = none ∧
      notice.event?.bind Event.cancelledTask? = none ∧
      notice.event?.bind Event.ranTask? = none := by
    cases shown : notice.event? with
    | none => exact ⟨rfl, rfl, rfl⟩
    | some event => exact unseen event shown
  constructor
  · rw [added, none.1]
    rfl
  · rw [removed, none.2.1]
    rfl
  · rw [taken, none.2.2, same]
    exact List.append_nil _
  · rw [added, unhanded free]
    rfl
  · exact fun _ => unhanded early

theorem Subscribes.taskEvent {source : PromiseId} {reaction : Reaction} {act : Act}
    {late : List Act} {machine changed : Machine}
    (subscribes : Subscribes source reaction act late machine acts notice changed)
    (told : act.entry = .subscribe source reaction)
    (calls : ∀ entry ∈ late.map Act.entry, entry.FreeOfTasks)
    (same : after.runningTask = duty.runningTask) : TaskEvent duty acts notice after := by
  refine .of_free (subscribes.free told calls) ?_ same
  cases subscribes with
  | kept pending => rintro event ⟨⟩
  | queued settled =>
      rintro event ⟨⟩
      exact ⟨rfl, rfl, rfl⟩

theorem Operation.taskEvent {machine changed : Machine}
    (operation : Operation machine acts notice changed) (duty : Duty) :
    TaskEvent duty acts notice duty := by
  have free (free : ∀ entry ∈ (acts ++ notice.acts).map Act.entry, entry.FreeOfTasks)
      (unseen : ∀ event, notice.event? = some event → event.enqueuedTask? = none ∧
        event.cancelledTask? = none ∧ event.ranTask? = none) : TaskEvent duty acts notice duty :=
    .of_free free unseen rfl
  cases operation with
  | @frame event frame =>
      refine free (by simp [Act.entry, Notice.acts, Entry.FreeOfTasks]) ?_
      rintro _ ⟨⟩
      cases event <;> first | exact ⟨rfl, rfl, rfl⟩ | exact frame.elim
  | @answer builtin arguments result answers =>
      cases builtin with
      | setTimeout =>
          obtain ⟨uncallable, rfl⟩ := answers
          refine ⟨rfl, rfl, List.append_nil _, ?_, by rintro ⟨⟩⟩
          simp [handedOut, addedTasks, Act.entry, Notice.acts, uncallable]
      | _ => exact ⟨rfl, rfl, List.append_nil _, rfl, by rintro ⟨⟩⟩
  | @addTask task arguments fresh delay callback rest within =>
      have callable : (arguments.head?.getD .undefined).isCallable = true := by
        rw [callback]
        exact within.callback.1
      refine ⟨rfl, rfl, List.append_nil _, ?_, fun _ => rfl⟩
      simp [handedOut, addedTasks, Act.entry, Notice.acts, List.filterMap_cons, callable,
        Task.handle]
  | removeTask named pending => exact ⟨rfl, rfl, List.append_nil _, rfl, fun _ => rfl⟩
  | queueMicrotask arguments within => exact ⟨rfl, rfl, List.append_nil _, rfl, fun _ => rfl⟩
  | register known within subscribes =>
      exact subscribes.taskEvent rfl (List.forall_mem_singleton.mpr trivial) rfl
  | _ => exact ⟨rfl, rfl, List.append_nil _, rfl, by rintro ⟨⟩⟩

theorem Effect.taskEvent {config after : Config} (effect : Effect config acts notice after) :
    TaskEvent config.duty acts notice after.duty := by
  cases effect with
  | operation evaluates operation => exact operation.taskEvent _
  | @takeMicrotask machine microtask rest next =>
      refine ⟨rfl, rfl, ?_, rfl, nofun⟩
      cases microtask.job <;> rfl
  | restore known subscribes => exact subscribes.taskEvent rfl (by simp) rfl
  | follow known subscribes => exact subscribes.taskEvent rfl (by simp) rfl
  | @finish machine duty event ends =>
      cases duty with
      | ended =>
          cases event with
          | microtaskRun name first => exact ⟨rfl, rfl, rfl, rfl, fun _ => rfl⟩
          | _ => exact ends.elim
      | ran running =>
          cases event with
          | taskRun name first =>
              obtain rfl : name = running.name := ends
              exact ⟨rfl, rfl, rfl, rfl, fun _ => rfl⟩
          | _ => exact ends.elim
      | _ => exact ends.elim
  | settleFollow machine different => exact ⟨rfl, rfl, rfl, rfl, fun _ => rfl⟩
  | release machine source value reaction rest => exact ⟨rfl, rfl, rfl, rfl, fun _ => rfl⟩
  | _ => exact ⟨rfl, rfl, rfl, rfl, nofun⟩

theorem Subscribes.trace {source : PromiseId} {reaction : Reaction} {act : Act} {late : List Act}
    {machine changed : Machine}
    (subscribes : Subscribes source reaction act late machine acts notice changed) :
    changed.trace = machine.trace := by
  cases subscribes <;> rfl

theorem Effect.trace {config after : Config} (effect : Effect config acts notice after) :
    after.machine.trace = config.machine.trace := by
  cases effect with
  | operation evaluates operation =>
      cases operation with
      | register known within subscribes => exact subscribes.trace.trans rfl
      | _ => rfl
  | restore known subscribes => exact subscribes.trace.trans rfl
  | follow known subscribes => exact subscribes.trace
  | _ => rfl

theorem Effect.late_leaves {config after : Config} {event : Event} {late : List Act}
    (effect : Effect config acts (some (event, late)) after) :
    ∀ entry ∈ (Act.record event :: late).map Act.entry, entry.LeavesTasks := by
  refine List.forall_mem_cons.mpr ⟨⟨rfl, rfl, rfl⟩, List.forall_mem_map.mpr fun act member => ?_⟩
  obtain ⟨builtin, arguments, result, rfl⟩ := effect.late_call act member
  exact ⟨rfl, rfl, rfl⟩

end Effects

structure Records (settings : Settings) (acts : List Act) (config : Config) : Prop where
  enqueued : noted Event.enqueuedTask? config.machine.steps =
    (addedTasks (acts.map Act.entry)).map Task.toTaskEntry
  cancelled : noted Event.cancelledTask? config.machine.steps =
    (removedTasks (acts.map Act.entry)).map (·.name)
  ran : noted Event.ranTask? config.machine.steps ++ config.duty.runningTask =
    (takenTasks (acts.map Act.entry)).map (·.name)
  handed : handedOut (acts.map Act.entry) = (addedTasks (acts.map Act.entry)).map Task.handle
  room : (addedTasks (acts.map Act.entry)).length < config.machine.trace.size
  limit : config.machine.trace.size ≤ max 1 settings.maxSteps

namespace Records

variable {settings : Settings} {log acts : List Act} {config after : Config}

theorem started : Records settings [.record .start] ⟨.started, .free⟩ where
  enqueued := rfl
  cancelled := rfl
  ran := rfl
  handed := rfl
  room := by decide
  limit := Nat.le_max_left ..

theorem silent (effect : Effect config acts none after) (_ : config.Sound)
    (records : Records settings log config) : Records settings (log ++ acts) after := by
  obtain ⟨added, removed, taken, handed, -⟩ := effect.taskEvent
  have trace := effect.trace
  rw [Notice.acts, List.append_nil] at handed
  constructor
  · rw [Machine.steps, trace, records.enqueued, List.map_append, addedTasks_append, List.map_append,
      added]
    exact (List.append_nil _).symm
  · rw [Machine.steps, trace, records.cancelled, List.map_append, removedTasks_append,
      List.map_append, removed]
    exact (List.append_nil _).symm
  · rw [List.map_append, takenTasks_append, List.map_append, ← records.ran, List.append_assoc,
      taken, Machine.steps, trace]
    rfl
  · rw [List.map_append, handedOut_append, addedTasks_append, List.map_append, records.handed,
      handed]
  · have none : addedTasks (acts.map Act.entry) = [] := by simpa [Notice.event?] using added
    rw [trace, List.map_append, addedTasks_append, none, List.append_nil]
    exact records.room
  · rw [trace]
    exact records.limit

theorem recorded {event : Event} {late : List Act} (node : Option NodeRef)
    (effect : Effect config acts (some (event, late)) after) (_ : config.Sound)
    (room : after.machine.trace.size < settings.maxSteps) (records : Records settings log config) :
    Records settings (log ++ (acts ++ .record event :: late)) (after.record event node) := by
  obtain ⟨added, removed, taken, handed, -⟩ := effect.taskEvent
  obtain ⟨noneAdded, noneRemoved, noneTaken⟩ := tasks_of_unrelated effect.late_leaves
  have trace := effect.trace
  have steps : (after.record event node).machine.steps =
      config.machine.steps ++ [after.machine.snapshot event node] := by
    change (after.machine.recorded event node).steps = _
    rw [Machine.steps_recorded, Machine.steps, trace]
  have size : (after.record event node).machine.trace.size = config.machine.trace.size + 1 := by
    have longer := congrArg List.length steps
    simpa using longer
  -- Every task that is added has its own step, so there are never more of them than steps.
  have one := effect.taskEvent.length_added_le
  have parts : (log ++ (acts ++ .record event :: late)).map Act.entry =
      log.map Act.entry ++ (acts.map Act.entry ++ (Act.record event :: late).map Act.entry) := by
    rw [List.map_append, List.map_append]
  constructor
  · rw [steps, noted_concat, records.enqueued, parts, addedTasks_append, addedTasks_append,
      noneAdded, List.append_nil, List.map_append, added]
    rfl
  · rw [steps, noted_concat, records.cancelled, parts, removedTasks_append, removedTasks_append,
      noneRemoved, List.append_nil, List.map_append, removed]
    rfl
  · rw [parts, takenTasks_append, takenTasks_append, noneTaken, List.append_nil, List.map_append,
      ← records.ran, List.append_assoc (noted _ _), taken, steps, noted_concat,
      ← List.append_assoc]
    rfl
  · have whole : handedOut (acts.map Act.entry ++ (Act.record event :: late).map Act.entry) =
        (addedTasks (acts.map Act.entry)).map Task.handle := by
      rw [← List.map_append]
      exact handed
    rw [parts, handedOut_append, whole, addedTasks_append, addedTasks_append, noneAdded,
      List.append_nil, List.map_append, records.handed]
  · have before := records.room
    rw [size, parts, addedTasks_append, addedTasks_append, noneAdded, List.append_nil,
      List.length_append]
    omega
  · rw [trace] at room
    omega

end Records

section Runs

variable {program : Program} {settings : Settings} {history : List Act} {machine : Machine}

theorem Program.History.scheduled (reached : program.History settings history machine) :
    Scheduled history ⟨machine, .free⟩ :=
  reached.keeps Scheduled.initial Scheduled.effect Scheduled.record Scheduled.call

theorem Program.History.records (reached : program.History settings history machine) :
    Records settings history ⟨machine, .free⟩ :=
  reached.invariant (@Records.started settings) Records.silent Records.recorded

structure RunTasks (settings : Settings) (log : List Entry) (machine : Machine) : Prop where
  schedules : Schedules log machine.tasks
  enqueued : noted Event.enqueuedTask? machine.steps <+: (addedTasks log).map Task.toTaskEntry
  cancelled : noted Event.cancelledTask? machine.steps <+: (removedTasks log).map (·.name)
  ran : noted Event.ranTask? machine.steps <+: (takenTasks log).map (·.name)
  handed : handedOut log <+: (addedTasks log).map Task.handle
  last : (addedTasks log).length ≤ (handedOut log).length + 1
  bound : (addedTasks log).length ≤ max 1 settings.maxSteps

theorem Records.runTasks {past acts : List Act} {config : Config}
    (records : Records settings past config)
    (few : (addedTasks (acts.map Act.entry)).length ≤ 1)
    (unhanded : handedOut (acts.map Act.entry) = [])
    (trace : machine.trace = config.machine.trace)
    (schedules : Schedules ((past ++ acts).map Act.entry) machine.tasks) :
    RunTasks settings ((past ++ acts).map Act.entry) machine := by
  have parts : (past ++ acts).map Act.entry = past.map Act.entry ++ acts.map Act.entry :=
    List.map_append
  constructor
  · exact schedules
  · rw [Machine.steps, trace, records.enqueued, parts, addedTasks_append, List.map_append]
    exact List.prefix_append ..
  · rw [Machine.steps, trace, records.cancelled, parts, removedTasks_append, List.map_append]
    exact List.prefix_append ..
  · rw [Machine.steps, trace, parts, takenTasks_append, List.map_append, ← records.ran]
    exact (List.prefix_append ..).trans (List.prefix_append ..)
  · rw [parts, handedOut_append, unhanded, List.append_nil, records.handed, addedTasks_append,
      List.map_append]
    exact List.prefix_append ..
  · rw [parts, handedOut_append, unhanded, List.append_nil, records.handed, addedTasks_append,
      List.length_append, List.length_map]
    omega
  · have room := records.room
    have limit := records.limit
    rw [parts, addedTasks_append, List.length_append]
    omega

theorem Program.Performs.runTasks (performs : program.Performs settings history machine) :
    RunTasks settings (history.map Act.entry) machine := by
  obtain ⟨duty, scheduled⟩ := performs.keeps Scheduled.initial Scheduled.effect Scheduled.record
    Scheduled.call
  obtain ⟨-, rfl, rfl⟩ | ⟨past, acts, event, late, config, after, rfl, rfl, -, records, effect, -⟩ |
    records := performs.invariant (@Records.started settings) Records.silent Records.recorded
  next =>
    exact ⟨.initial, List.prefix_rfl, List.prefix_rfl, List.prefix_rfl, List.prefix_rfl,
      Nat.zero_le _, Nat.zero_le _⟩
  next =>
    have change := effect.taskEvent
    exact records.runTasks change.length_added_le (change.early rfl) effect.trace scheduled
  next =>
    have nothing : (addedTasks ([].map Act.entry)).length ≤ 1 := by decide
    have ends : RunTasks settings ((history ++ []).map Act.entry) machine := by
      refine records.runTasks nothing rfl rfl ?_
      rw [List.append_nil]
      exact scheduled
    rwa [List.append_nil] at ends

theorem Program.log_taskLaw (program : Program) (settings : Settings) :
    Lawful (taskLaw ((program.run settings).truncated = true)) [] (program.log settings) := by
  obtain ⟨history, told, performs⟩ := program.exists_performs settings
  rw [told]
  cases ended : (program.run settings).truncated with
  | true =>
      refine performs.lawful Scheduled.initial Scheduled.effect Scheduled.record Scheduled.call
        taskLaw_grows (fun effect _ scheduled => effect.taskLaw scheduled) trivial taskLaw_grows
        fun effect _ scheduled => ?_
      simpa using effect.taskLaw_cut scheduled
  | false =>
      have reached := performs.completed_history ended
      have lawful := reached.lawful Scheduled.initial Scheduled.effect Scheduled.record
        Scheduled.call taskLaw_grows (fun effect _ scheduled => effect.taskLaw scheduled) trivial
      simpa using lawful

theorem map_timerOf?_toFloat {count : Nat} (small : count < 2 ^ 53) :
    (List.range' 1 count).map (fun id => Timers.timerOf? id.toFloat) =
      (List.range' 1 count).map some := by
  refine List.map_congr_left fun id member => ?_
  obtain ⟨low, high⟩ := List.mem_range'_1.mp member
  exact Timers.timerOf?_toFloat low (by omega)

structure TaskLives (cut : Prop) (log : List Entry) : Prop where
  numbered : (addedTasks log).map Task.id = List.range' 1 (addedTasks log).length
  handed : handedOut log = (List.range' 1 (handedOut log).length).map fun id => .number id.toFloat
  named : (handedOut log).map (fun handle => Timers.timerNamed? [handle]) =
    (List.range' 1 (handedOut log).length).map some
  all : (addedTasks log).length = (handedOut log).length ∨
    cut ∧ (addedTasks log).length = (handedOut log).length + 1
  delays : ∀ task ∈ addedTasks log, IsDelay task.delay
  -- No number is there twice, so that no task runs again, runs once cancelled, or is cancelled
  -- after it ran.
  once : ((takenTasks log ++ removedTasks log).map Task.id).Nodup
  known : ∀ task ∈ takenTasks log ++ removedTasks log, task ∈ addedTasks log
  lawful : ∀ past entry future, log = past ++ entry :: future → taskLaw cut past entry future

def Machine.RunsNext (settings : Settings) (pending : List Task) (machine : Machine) : Prop :=
  (pending = [] ∧ turn (m := Simulation) settings machine = .done false machine) ∨
    ∃ task rest, task.IsNext pending ∧ machine.tasks.tasks = task :: rest ∧
      turn (m := Simulation) settings machine =
        (do
          let _ ← callValue task.callback task.arguments
          record (.taskRun task.name machine.trace.size) task.callback.callbackRef?
          return true : Simulation Bool) settings
          { machine with
            tasks := { machine.tasks with tasks := rest }
            clock := machine.clock.advance task.delay }

theorem RunTasks.handed_eq {log : List Entry} (tasks : RunTasks settings log machine) :
    handedOut log = (List.range' 1 (handedOut log).length).map fun id => .number id.toFloat := by
  have same := List.prefix_iff_eq_take.mp tasks.handed
  have handles : (addedTasks log).map Task.handle =
      (List.range' 1 (addedTasks log).length).map fun id => .number id.toFloat := by
    rw [← tasks.schedules.lastId_eq, ← tasks.schedules.ids, List.map_map]
    rfl
  have fewer := tasks.handed.length_le
  rw [List.length_map] at fewer
  obtain ⟨missing, count⟩ := Nat.exists_eq_add_of_le fewer
  rw [handles, ← List.map_take, count, ← List.range'_append_1,
    List.take_left' List.length_range'] at same
  exact same

theorem Program.taskLives (program : Program) (settings : Settings)
    (bounded : settings.maxSteps < 2 ^ 53) :
    TaskLives ((program.run settings).truncated = true) (program.log settings) := by
  obtain ⟨history, told, performs⟩ := program.exists_performs settings
  have tasks := performs.runTasks
  have lawful := program.log_taskLaw settings
  rw [← told] at tasks
  have distinct := tasks.schedules.nodup
  rw [List.map_append] at distinct
  have fewer := tasks.handed.length_le
  rw [List.length_map] at fewer
  constructor
  · rw [tasks.schedules.ids, tasks.schedules.lastId_eq]
  · exact tasks.handed_eq
  · have bound := tasks.bound
    have count : (handedOut (program.log settings)).length < 2 ^ 53 := by omega
    conv_lhs => rw [tasks.handed_eq]
    rw [List.map_map]
    exact map_timerOf?_toFloat count
  · obtain same | more := fewer.eq_or_lt
    · exact .inl same.symm
    · refine .inr ⟨?_, Nat.le_antisymm tasks.last more⟩
      by_contra complete
      have reached := performs.completed_history (by simpa using complete)
      have handed := congrArg List.length reached.records.handed
      rw [← told, List.length_map] at handed
      omega
  · exact tasks.schedules.delays
  · exact (List.nodup_append.mp distinct).1
  · exact fun task member => tasks.schedules.mem_added (List.mem_append_left _ member)
  · intro past entry future split
    simpa using lawful.entry split

theorem Program.Logs.runsNext {log : List Entry} (logs : program.Logs settings log machine)
    (drained : machine.microtasks.microtasks = []) :
    machine.RunsNext settings (pendingTasks log) := by
  obtain ⟨history, rfl, reached⟩ := logs.exists_history
  have schedules : Schedules _ _ := reached.scheduled
  cases next : machine.tasks.tasks with
  | nil =>
      have nothing : ∀ task, task ∉ pendingTasks (history.map Act.entry) := by
        intro task member
        have queued := (schedules.mem_pending task).mp member
        rw [next] at queued
        cases queued
      exact .inl ⟨List.eq_nil_iff_forall_not_mem.mpr nothing, turn_of_empty drained next⟩
  | cons task rest =>
      exact .inr ⟨task, rest, schedules.isNext next, next, turn_of_task drained next⟩

theorem Program.completed_tasks (completed : (program.run settings).truncated = false) :
    let log := program.log settings
    let steps := (program.simulate (m := Simulation) settings .initial).machine.steps
    addedTasks log ~ takenTasks log ++ removedTasks log ∧
      noted Event.enqueuedTask? steps = (addedTasks log).map Task.toTaskEntry ∧
      noted Event.cancelledTask? steps = (removedTasks log).map (·.name) ∧
      noted Event.ranTask? steps = (takenTasks log).map (·.name) := by
  intro log steps
  obtain ⟨history, told, performs⟩ := program.exists_performs settings
  have reached := performs.completed_history completed
  obtain ⟨-, -, noTask⟩ := Program.completed_logs completed
  have records := reached.records
  have balance := reached.scheduled.balance
  have told : log = history.map Act.entry := told
  rw [noTask, List.append_nil, ← told] at balance
  rw [told]
  refine ⟨told ▸ balance, records.enqueued, records.cancelled, ?_⟩
  -- Between two turns no task runs.
  simpa [Duty.runningTask] using records.ran

end Runs

/-- A run is the same with a log. With fewer than `2 ^ 53` steps the calls of `setTimeout` return
one, two, three and so on, and these numbers name the timers. Every delay is finite and not
negative. A task leaves the queue at most once: a turn takes it, if it is the pending one with the
least delay and, among those, the least number, and calls its callback; or a call of `clearTimeout`
that names it removes it, after which it is not pending. A run that completes has run or cancelled
every task, so that its trace enqueues as many tasks as it runs and cancels, of the same names. -/
theorem Program.tasks_run_or_are_cancelled_once (program : Program) (settings : Settings)
    (bounded : settings.maxSteps < 2 ^ 53) :
    let run := program.run settings
    let log := program.log settings
    let enqueued := noted Event.enqueuedTask? run.trace.toList
    let cancelled := noted Event.cancelledTask? run.trace.toList
    let ran := noted Event.ranTask? run.trace.toList
    program.simulate (m := Logged) settings .initial =
      (program.simulate (m := Simulation) settings .initial, log) ∧
    TaskLives (run.truncated = true) log ∧
    enqueued <+: (addedTasks log).map Task.toTaskEntry ∧
    cancelled <+: (removedTasks log).map (·.name) ∧
    ran <+: (takenTasks log).map (·.name) ∧
    (∀ before, Boundary program settings before → ∃ past, program.Logs settings past before) ∧
    (∀ past before, program.Logs settings past before →
      Scripted past ∧
      (before.microtasks.microtasks = [] → before.RunsNext settings (pendingTasks past))) ∧
    (∀ entry ∈ enqueued, IsDelay entry.delay) ∧
    (run.truncated = false →
      Scripted log ∧
      addedTasks log ~ takenTasks log ++ removedTasks log ∧
      enqueued.length = ran.length + cancelled.length ∧
      enqueued.map TaskEntry.name ~ ran ++ cancelled) := by
  intro run log enqueued cancelled ran
  have steps : run.trace.toList = (program.simulate (m := Simulation) settings
      .initial).machine.steps :=
    program.run_steps settings
  simp only [enqueued, cancelled, ran, steps]
  obtain ⟨history, told, performs⟩ := program.exists_performs settings
  have tasks := performs.runTasks
  rw [← told] at tasks
  refine ⟨program.simulate_logged settings, program.taskLives settings bounded, tasks.enqueued,
    tasks.cancelled, tasks.ran, fun before => Boundary.exists_logs,
    fun past before logs => ⟨logs.scripted, logs.runsNext⟩, ?_, fun completed => ?_⟩
  next =>
    intro entry member
    obtain ⟨task, added, rfl⟩ := List.mem_map.mp (tasks.enqueued.subset member)
    exact tasks.schedules.delays task added
  next =>
    obtain ⟨balance, allEnqueued, allCancelled, allRan⟩ := Program.completed_tasks completed
    refine ⟨(Program.completed_logs completed).1.scripted, balance, ?_⟩
    rw [allEnqueued, allCancelled, allRan]
    constructor
    · simpa using balance.length_eq
    · rw [List.map_map, ← List.map_append]
      exact balance.map _

theorem timerAndMicrotask_tasks_run :
    ({} : Settings).maxSteps < 2 ^ 53 ∧ (timerAndMicrotask.run {}).truncated = false ∧
      (noted Event.enqueuedTask? (timerAndMicrotask.run {}).trace.toList).length = 1 ∧
      (noted Event.enqueuedTask? (timerAndMicrotask.run {}).trace.toList).map TaskEntry.name ~
        noted Event.ranTask? (timerAndMicrotask.run {}).trace.toList ++
          noted Event.cancelledTask? (timerAndMicrotask.run {}).trace.toList := by
  have bounded : ({} : Settings).maxSteps < 2 ^ 53 := by decide
  have completed : (timerAndMicrotask.run {}).truncated = false := by decide +kernel
  have one : (noted Event.enqueuedTask? (timerAndMicrotask.run {}).trace.toList).length = 1 := by
    decide +kernel
  obtain ⟨-, -, -, -, -, -, -, -, ends⟩ :=
    timerAndMicrotask.tasks_run_or_are_cancelled_once {} bounded
  exact ⟨bounded, completed, one, (ends completed).2.2.2⟩

end EventLoop
