import EventLoop.Proofs.Doubles
import EventLoop.Proofs.History

set_option autoImplicit false

/-!
# The schedule of tasks

Timers are numbered from one on, and the queue keeps its tasks by delay and then by number. A task
that was added is pending until it is taken to run or removed.
-/

namespace EventLoop

open Simulation
open scoped List

namespace Task

def Precedes (task other : Task) : Prop :=
  task.delay < other.delay ∨ (task.delay == other.delay) = true ∧ task.id < other.id

def IsNext (task : Task) (pending : List Task) : Prop :=
  task ∈ pending ∧ ∀ other ∈ pending, other.id ≠ task.id → task.Precedes other

def place (task : Task) : (Nat ×ₗ (Int ×ₗ Nat)) ×ₗ Nat := toLex (Number.rank task.delay, task.id)

variable {task other : Task}

theorem place_lt : task.place < other.place ↔
    Number.rank task.delay < Number.rank other.delay ∨
      Number.rank task.delay = Number.rank other.delay ∧ task.id < other.id :=
  Prod.Lex.toLex_lt_toLex

theorem precedes_iff (first : IsDelay task.delay) (second : IsDelay other.delay) :
    task.Precedes other ↔ task.place < other.place := by
  rw [Precedes, first.lt_iff second, first.beq_iff second, place_lt]

end Task

namespace TaskQueue

abbrev Sorted (tasks : List Task) : Prop :=
  tasks.Pairwise fun first second => first.place < second.place

variable {task : Task} {tasks rest : List Task}

theorem insert_perm (task : Task) (tasks : List Task) :
    (insert task tasks).Perm (task :: tasks) := by
  induction tasks with
  | nil => exact .refl _
  | cons queued rest ih =>
      unfold insert
      split
      next => exact (ih.cons queued).trans (.swap task queued rest)
      next => exact .refl _

theorem Sorted.insert (delay : IsDelay task.delay)
    (delays : ∀ queued ∈ tasks, IsDelay queued.delay)
    (older : ∀ queued ∈ tasks, queued.id < task.id) (sorted : Sorted tasks) :
    Sorted (insert task tasks) := by
  induction tasks with
  | nil => exact List.pairwise_singleton _ _
  | cons queued rest ih =>
      obtain ⟨first, others⟩ := List.forall_mem_cons.mp delays
      obtain ⟨firstOlder, othersOlder⟩ := List.forall_mem_cons.mp older
      obtain ⟨least, restSorted⟩ := List.pairwise_cons.mp sorted
      unfold TaskQueue.insert
      split
      next before =>
        -- The task goes further back: equal delays leave it behind the older one.
        rw [first.le_iff delay] at before
        refine List.pairwise_cons.mpr ⟨fun queued' member => ?_, ih others othersOlder restSorted⟩
        obtain rfl | old := mem_insert.mp member
        · exact Task.place_lt.mpr (before.lt_or_eq.imp_right fun same => ⟨same, firstOlder⟩)
        · exact least queued' old
      next after =>
        rw [first.le_iff delay, not_le] at after
        have smaller : task.place < queued.place := Task.place_lt.mpr (.inl after)
        refine List.pairwise_cons.mpr ⟨fun queued' member => ?_, sorted⟩
        obtain rfl | old := List.mem_cons.mp member
        · exact smaller
        · exact smaller.trans (least queued' old)

theorem cancel?_perm {queue remaining : TaskQueue} {id : TimerId}
    (cancelled : queue.cancel? id = some (task, remaining)) :
    queue.tasks.Perm (task :: remaining.tasks) := by
  obtain ⟨found, rfl⟩ := cancel?_eq_some cancelled
  obtain ⟨matched, before, after, split, others⟩ := List.find?_eq_some_iff_append.mp found
  have skipped : ∀ queued ∈ before, ¬(queued.id == id) = true := fun queued member => by
    simpa using others queued member
  have remaining : queue.tasks.eraseP (·.id == id) = before ++ after := by
    rw [split, List.eraseP_append_right _ skipped]
    simp [matched]
  rw [remaining, split]
  exact List.perm_middle

theorem id_of_cancel? {queue remaining : TaskQueue} {id : TimerId}
    (cancelled : queue.cancel? id = some (task, remaining)) : task.id = id := by
  obtain ⟨found, -⟩ := cancel?_eq_some cancelled
  simpa using List.find?_some found

theorem Sorted.cancel? {queue remaining : TaskQueue} {id : TimerId}
    (cancelled : queue.cancel? id = some (task, remaining)) (sorted : Sorted queue.tasks) :
    Sorted remaining.tasks ∧ remaining.lastId = queue.lastId := by
  obtain ⟨-, rfl⟩ := cancel?_eq_some cancelled
  exact ⟨sorted.sublist List.eraseP_sublist, rfl⟩

theorem Sorted.isNext (delays : ∀ queued ∈ task :: rest, IsDelay queued.delay)
    (sorted : Sorted (task :: rest)) : task.IsNext (task :: rest) := by
  refine ⟨List.mem_cons_self, fun other member different => ?_⟩
  obtain rfl | behind := List.mem_cons.mp member
  · exact absurd rfl different
  · exact (Task.precedes_iff (delays task List.mem_cons_self) (delays other member)).mpr
      ((List.pairwise_cons.mp sorted).1 other behind)

end TaskQueue

theorem TaskQueue.id_ne_of_cancel? {queue : TaskQueue} {id : TimerId}
    (missing : queue.cancel? id = none) {task : Task} (queued : task ∈ queue.tasks) :
    task.id ≠ id := by
  have nowhere : queue.tasks.find? (·.id == id) = none := by
    simpa [TaskQueue.cancel?] using missing
  simpa using List.find?_eq_none.mp nowhere task queued

namespace Entry

@[simp]
def added? : Entry → Option Task
  | addTask task => some task
  | _ => none

@[simp]
def removed? : Entry → Option Task
  | removeTask task => some task
  | _ => none

@[simp]
def taken? : Entry → Option Task
  | takeTask task => some task
  | _ => none

@[simp]
def handedOut? : Entry → Option Value
  | call .setTimeout arguments result =>
      if (arguments.head?.getD .undefined).isCallable then some result else none
  | _ => none

def LeavesTasks (entry : Entry) : Prop :=
  entry.added? = none ∧ entry.removed? = none ∧ entry.taken? = none

end Entry

def addedTasks (log : List Entry) : List Task := log.filterMap Entry.added?

def removedTasks (log : List Entry) : List Task := log.filterMap Entry.removed?

def takenTasks (log : List Entry) : List Task := log.filterMap Entry.taken?

def handedOut (log : List Entry) : List Value := log.filterMap Entry.handedOut?

def pendingTasks (log : List Entry) : List Task :=
  (addedTasks log).filter fun task => task.id ∉ (takenTasks log ++ removedTasks log).map Task.id

section Lists

variable (log more : List Entry)

@[simp]
theorem addedTasks_append : addedTasks (log ++ more) = addedTasks log ++ addedTasks more :=
  List.filterMap_append

@[simp]
theorem removedTasks_append :
    removedTasks (log ++ more) = removedTasks log ++ removedTasks more :=
  List.filterMap_append

@[simp]
theorem takenTasks_append : takenTasks (log ++ more) = takenTasks log ++ takenTasks more :=
  List.filterMap_append

@[simp]
theorem handedOut_append : handedOut (log ++ more) = handedOut log ++ handedOut more :=
  List.filterMap_append

end Lists

theorem tasks_of_unrelated {log : List Entry} (unrelated : ∀ entry ∈ log, entry.LeavesTasks) :
    addedTasks log = [] ∧ removedTasks log = [] ∧ takenTasks log = [] := by
  refine ⟨?_, ?_, ?_⟩ <;> refine List.filterMap_eq_nil_iff.mpr fun entry member => ?_
  · exact (unrelated entry member).1
  · exact (unrelated entry member).2.1
  · exact (unrelated entry member).2.2

inductive TaskStep : TaskQueue → List Entry → TaskQueue → Prop where
  | other {queue : TaskQueue} {log : List Entry} (unrelated : ∀ entry ∈ log, entry.LeavesTasks) :
      TaskStep queue log queue
  | add {queue : TaskQueue} {task : Task} (fresh : task.id = queue.lastId + 1)
      (delay : IsDelay task.delay) :
      TaskStep queue [.addTask task] ⟨TaskQueue.insert task queue.tasks, queue.lastId + 1⟩
  | remove {queue remaining : TaskQueue} {id : TimerId} {task : Task}
      (pending : queue.cancel? id = some (task, remaining)) :
      TaskStep queue [.removeTask task] remaining
  | take {queue : TaskQueue} {task : Task} {rest : List Task} (next : queue.tasks = task :: rest) :
      TaskStep queue [.takeTask task] { queue with tasks := rest }

section Effects

variable {acts : List Act} {notice : Notice}

theorem Subscribes.tasks {source : PromiseId} {reaction : Reaction} {act : Act} {late : List Act}
    {machine changed : Machine}
    (subscribes : Subscribes source reaction act late machine acts notice changed)
    (told : act.entry = .subscribe source reaction)
    (calls : ∀ entry ∈ late.map Act.entry, entry.LeavesTasks) :
    (∀ entry ∈ acts.map Act.entry, entry.LeavesTasks) ∧ changed.tasks = machine.tasks := by
  have first : act.entry.LeavesTasks := by rw [told]; exact ⟨rfl, rfl, rfl⟩
  cases subscribes with
  | kept pending => exact ⟨List.forall_mem_cons.mpr ⟨first, calls⟩, rfl⟩
  | queued settled =>
      refine ⟨List.forall_mem_cons.mpr ⟨first, List.forall_mem_singleton.mpr ⟨rfl, rfl, rfl⟩⟩, rfl⟩

theorem Operation.taskStep {machine changed : Machine}
    (operation : Operation machine acts notice changed) :
    TaskStep machine.tasks (acts.map Act.entry) changed.tasks := by
  cases operation with
  | addTask fresh delay callback rest within =>
      obtain ⟨given, same⟩ := delay
      exact .add fresh (same ▸ isDelay_normalDelay given)
  | removeTask named pending => exact .remove pending
  | register known within subscribes =>
      obtain ⟨unrelated, same⟩ :=
        subscribes.tasks rfl (List.forall_mem_singleton.mpr ⟨rfl, rfl, rfl⟩)
      rw [same]
      exact .other unrelated
  | _ => exact .other (by simp [Act.entry, Entry.LeavesTasks])

theorem Effect.taskStep {config after : Config} (effect : Effect config acts notice after) :
    TaskStep config.machine.tasks (acts.map Act.entry) after.machine.tasks := by
  cases effect with
  | operation evaluates operation => exact operation.taskStep
  | takeTask drained next => exact .take next
  | restore known subscribes =>
      obtain ⟨unrelated, same⟩ := subscribes.tasks rfl (by simp)
      rw [same]
      exact .other unrelated
  | follow known subscribes =>
      obtain ⟨unrelated, same⟩ := subscribes.tasks rfl (by simp)
      rw [same]
      exact .other unrelated
  | _ => exact .other (by simp [Act.entry, Entry.LeavesTasks])

end Effects

structure Schedules (log : List Entry) (queue : TaskQueue) : Prop where
  ids : (addedTasks log).map Task.id = List.range' 1 queue.lastId
  delays : ∀ task ∈ addedTasks log, IsDelay task.delay
  balance : (addedTasks log).Perm (takenTasks log ++ removedTasks log ++ queue.tasks)
  sorted : TaskQueue.Sorted queue.tasks

theorem Schedules.initial : Schedules [] .empty where
  ids := rfl
  delays := by simp [addedTasks]
  balance := .refl _
  sorted := .nil

namespace Schedules

variable {log : List Entry} {queue after : TaskQueue}

theorem mem_added (schedules : Schedules log queue) {task : Task}
    (member : task ∈ takenTasks log ++ removedTasks log ++ queue.tasks) : task ∈ addedTasks log :=
  schedules.balance.mem_iff.mpr member

theorem lastId_eq (schedules : Schedules log queue) : queue.lastId = (addedTasks log).length := by
  have same := congrArg List.length schedules.ids
  simpa using same.symm

theorem id_le (schedules : Schedules log queue) {task : Task} (member : task ∈ addedTasks log) :
    task.id ≤ queue.lastId := by
  have listed : task.id ∈ (addedTasks log).map Task.id := List.mem_map_of_mem member
  rw [schedules.ids, List.mem_range'_1] at listed
  exact Nat.lt_add_one_iff.mp (Nat.add_comm .. ▸ listed.2)

theorem nodup (schedules : Schedules log queue) :
    ((takenTasks log ++ removedTasks log ++ queue.tasks).map Task.id).Nodup := by
  have distinct : ((addedTasks log).map Task.id).Nodup := by
    rw [schedules.ids]
    exact List.nodup_range'
  exact (schedules.balance.map Task.id).nodup_iff.mp distinct

theorem mem_pending (schedules : Schedules log queue) (task : Task) :
    task ∈ pendingTasks log ↔ task ∈ queue.tasks := by
  have distinct := schedules.nodup
  rw [List.map_append, List.nodup_append] at distinct
  obtain ⟨-, -, apart⟩ := distinct
  simp only [pendingTasks, List.mem_filter, decide_eq_true_eq]
  constructor
  next =>
    rintro ⟨added, waiting⟩
    obtain left | queued := List.mem_append.mp (schedules.balance.mem_iff.mp added)
    · exact absurd (List.mem_map_of_mem left) waiting
    · exact queued
  next =>
    intro queued
    exact ⟨schedules.mem_added (List.mem_append_right _ queued), fun left =>
      apart _ left _ (List.mem_map_of_mem queued) rfl⟩

theorem queued_delay (schedules : Schedules log queue) {task : Task}
    (member : task ∈ queue.tasks) : IsDelay task.delay :=
  schedules.delays task (schedules.mem_added (List.mem_append_right _ member))

theorem isNext (schedules : Schedules log queue) {task : Task} {rest : List Task}
    (next : queue.tasks = task :: rest) : task.IsNext (pendingTasks log) := by
  have sorted := schedules.sorted
  rw [next] at sorted
  have delays : ∀ queued ∈ task :: rest, IsDelay queued.delay := fun queued member =>
    schedules.queued_delay (next ▸ member)
  obtain ⟨member, least⟩ := sorted.isNext delays
  refine ⟨(schedules.mem_pending task).mpr (next ▸ member), fun other waiting => ?_⟩
  exact least other (next ▸ (schedules.mem_pending other).mp waiting)

theorem other {more : List Entry} (unrelated : ∀ entry ∈ more, entry.LeavesTasks)
    (schedules : Schedules log queue) : Schedules (log ++ more) queue := by
  obtain ⟨added, removed, taken⟩ := tasks_of_unrelated unrelated
  constructor
  · simpa [added] using schedules.ids
  · simpa [added] using schedules.delays
  · simpa [added, removed, taken] using schedules.balance
  · exact schedules.sorted

theorem add {task : Task} (fresh : task.id = queue.lastId + 1) (delay : IsDelay task.delay)
    (schedules : Schedules log queue) :
    Schedules (log ++ [.addTask task])
      ⟨TaskQueue.insert task queue.tasks, queue.lastId + 1⟩ := by
  have added : addedTasks [.addTask task] = [task] := rfl
  have removed : removedTasks [.addTask task] = [] := rfl
  have taken : takenTasks [.addTask task] = [] := rfl
  constructor
  · rw [addedTasks_append, added, List.map_append, schedules.ids, List.range'_1_concat,
      Nat.add_comm 1, ← fresh]
    rfl
  · rw [addedTasks_append, added]
    exact List.forall_mem_append.mpr ⟨schedules.delays, List.forall_mem_singleton.mpr delay⟩
  · simp only [addedTasks_append, added, removedTasks_append, removed, takenTasks_append, taken,
      List.append_nil]
    calc addedTasks log ++ [task]
      _ ~ task :: addedTasks log := List.perm_append_singleton ..
      _ ~ task :: (takenTasks log ++ removedTasks log ++ queue.tasks) := schedules.balance.cons _
      _ ~ takenTasks log ++ removedTasks log ++ task :: queue.tasks := List.perm_middle.symm
      _ ~ takenTasks log ++ removedTasks log ++ TaskQueue.insert task queue.tasks :=
        (TaskQueue.insert_perm task queue.tasks).symm.append_left _
  · refine TaskQueue.Sorted.insert delay (fun queued => schedules.queued_delay) ?_ schedules.sorted
    intro queued member
    have older := schedules.id_le (schedules.mem_added (List.mem_append_right _ member))
    exact fresh ▸ Nat.lt_succ_of_le older

theorem remove {id : TimerId} {task : Task} (pending : queue.cancel? id = some (task, after))
    (schedules : Schedules log queue) : Schedules (log ++ [.removeTask task]) after := by
  have moved := TaskQueue.cancel?_perm pending
  obtain ⟨sorted, same⟩ := schedules.sorted.cancel? pending
  have added : addedTasks [.removeTask task] = [] := rfl
  have removed : removedTasks [.removeTask task] = [task] := rfl
  have taken : takenTasks [.removeTask task] = [] := rfl
  constructor
  · rw [same]
    simpa [added] using schedules.ids
  · simpa [added] using schedules.delays
  · simp only [addedTasks_append, added, removedTasks_append, removed, takenTasks_append, taken,
      List.append_nil]
    -- The task leaves the queue for those that were removed, and none is lost.
    calc addedTasks log
      _ ~ takenTasks log ++ removedTasks log ++ queue.tasks := schedules.balance
      _ ~ takenTasks log ++ removedTasks log ++ task :: after.tasks := moved.append_left _
      _ ~ takenTasks log ++ (removedTasks log ++ [task]) ++ after.tasks := by simp
  · exact sorted

theorem take {task : Task} {rest : List Task} (next : queue.tasks = task :: rest)
    (schedules : Schedules log queue) :
    Schedules (log ++ [.takeTask task]) { queue with tasks := rest } := by
  have added : addedTasks [.takeTask task] = [] := rfl
  have removed : removedTasks [.takeTask task] = [] := rfl
  have taken : takenTasks [.takeTask task] = [task] := rfl
  constructor
  · simpa [added] using schedules.ids
  · simpa [added] using schedules.delays
  · simp only [addedTasks_append, added, removedTasks_append, removed, takenTasks_append, taken,
      List.append_nil]
    calc addedTasks log
      _ ~ takenTasks log ++ removedTasks log ++ task :: rest := next ▸ schedules.balance
      _ ~ task :: (takenTasks log ++ removedTasks log ++ rest) := List.perm_middle
      _ ~ takenTasks log ++ [task] ++ removedTasks log ++ rest := by
        simpa using List.perm_middle.symm
  · have sorted := schedules.sorted
    rw [next] at sorted
    exact sorted.of_cons

theorem step {more : List Entry} (step : TaskStep queue more after)
    (schedules : Schedules log queue) : Schedules (log ++ more) after := by
  cases step with
  | other unrelated => exact schedules.other unrelated
  | add fresh delay => exact schedules.add fresh delay
  | remove pending => exact schedules.remove pending
  | take next => exact schedules.take next

end Schedules

def Scheduled (acts : List Act) (config : Config) : Prop :=
  Schedules (acts.map Act.entry) config.machine.tasks

namespace Scheduled

variable {log acts : List Act} {config after : Config}

theorem initial : Scheduled [] .initial := Schedules.initial

theorem effect {notice : Notice} (effect : Effect config acts notice after) (_ : config.Sound)
    (scheduled : Scheduled log config) : Scheduled (log ++ acts) after := by
  unfold Scheduled
  rw [List.map_append]
  exact Schedules.step effect.taskStep scheduled

theorem other (scheduled : Scheduled log config) {act : Act} (unrelated : act.entry.LeavesTasks)
    (same : after.machine.tasks = config.machine.tasks) : Scheduled (log ++ [act]) after := by
  unfold Scheduled
  rw [List.map_append, same]
  exact Schedules.other (List.forall_mem_singleton.mpr unrelated) scheduled

theorem record (event : Event) (node : Option NodeRef) (scheduled : Scheduled log config) :
    Scheduled (log ++ [.record event]) (config.record event node) :=
  scheduled.other ⟨rfl, rfl, rfl⟩ rfl

theorem call (builtin : Builtin) (arguments : List Value) (result : Value)
    (scheduled : Scheduled log config) :
    Scheduled (log ++ [.call builtin arguments result]) config :=
  scheduled.other ⟨rfl, rfl, rfl⟩ rfl

end Scheduled

/-- The law of the timers. A task is added, with its step, by a call of `setTimeout` that returns
its number; it is removed, with its step, by a call of `clearTimeout` that names it. The task that
is taken is the next one, and after a call of `clearTimeout` none is pending that the call names.
Only at the end of a run that is cut may that be missing which is to follow. -/
def taskLaw (cut : Prop) (past : List Entry) (entry : Entry) (future : List Entry) : Prop :=
  match entry with
  | .addTask task =>
      cut ∧ future = [] ∨ ∃ arguments, arguments.head? = some task.callback ∧
        task.arguments = arguments.drop 2 ∧ [.record (.taskEnqueued task.name task.delay),
          .call .setTimeout arguments (.number task.id.toFloat)] <+: future
  | .removeTask task =>
      task ∈ pendingTasks past ∧
        (cut ∧ future = [] ∨ ∃ arguments, Timers.timerNamed? arguments = some task.id ∧
          [.record (.taskCancelled task.name), .call .clearTimeout arguments .undefined] <+: future)
  | .takeTask task => task.IsNext (pendingTasks past)
  | .call .setTimeout arguments result =>
      if (arguments.head?.getD .undefined).isCallable then
        ∃ task, result = .number task.id.toFloat ∧
          [.addTask task, .record (.taskEnqueued task.name task.delay)] <:+ past
      else result = .undefined
  | .call .clearTimeout arguments result =>
      result = .undefined ∧ ∀ task ∈ pendingTasks past,
        Timers.timerNamed? arguments ≠ some task.id
  | _ => True

def Entry.FreeOfTasks : Entry → Prop
  | addTask _ | removeTask _ | takeTask _ | call .setTimeout .. | call .clearTimeout .. => False
  | _ => True

section Laws

variable {cut : Prop} {past future more : List Entry} {log acts : List Act} {notice : Notice}

theorem taskLaw_of_free {entry : Entry} (free : entry.FreeOfTasks) :
    taskLaw cut past entry future := by
  unfold taskLaw
  split <;> first | exact free.elim | trivial

theorem taskLaw_grows {entry : Entry} (law : taskLaw False past entry future) :
    taskLaw cut past entry (future ++ more) := by
  cases entry with
  | addTask task =>
      obtain ⟨arguments, callback, rest, followed⟩ := law.resolve_left (·.1)
      exact .inr ⟨arguments, callback, rest, followed.trans (List.prefix_append ..)⟩
  | removeTask task =>
      obtain ⟨arguments, named, followed⟩ := law.2.resolve_left (·.1)
      exact ⟨law.1, .inr ⟨arguments, named, followed.trans (List.prefix_append ..)⟩⟩
  | call builtin arguments result => cases builtin <;> exact law
  | _ => exact law

theorem lawful_of_free (free : ∀ entry ∈ more, entry.FreeOfTasks) :
    Lawful (taskLaw cut) past more :=
  .of_forall fun entry member _ _ => taskLaw_of_free (free entry member)

theorem pendingTasks_concat {entry : Entry} (unrelated : entry.LeavesTasks) :
    pendingTasks (past ++ [entry]) = pendingTasks past := by
  obtain ⟨added, removed, taken⟩ := tasks_of_unrelated (List.forall_mem_singleton.mpr unrelated)
  simp [pendingTasks, added, removed, taken]

theorem id_ne_of_pending {removed task : Task}
    (pending : task ∈ pendingTasks (past ++ [.removeTask removed])) : task.id ≠ removed.id := by
  have gone : removedTasks [.removeTask removed] = [removed] := rfl
  obtain ⟨-, waiting⟩ := List.mem_filter.mp pending
  rw [removedTasks_append, gone] at waiting
  intro same
  simp [same] at waiting

theorem Subscribes.free {source : PromiseId} {reaction : Reaction} {act : Act} {late : List Act}
    {machine changed : Machine}
    (subscribes : Subscribes source reaction act late machine acts notice changed)
    (told : act.entry = .subscribe source reaction)
    (calls : ∀ entry ∈ late.map Act.entry, entry.FreeOfTasks) :
    ∀ entry ∈ (acts ++ notice.acts).map Act.entry, entry.FreeOfTasks := by
  have first : act.entry.FreeOfTasks := by rw [told]; trivial
  cases subscribes with
  | kept pending =>
      rw [Notice.acts, List.append_nil]
      exact List.forall_mem_cons.mpr ⟨first, calls⟩
  | queued settled =>
      refine List.forall_mem_cons.mpr ⟨first, List.forall_mem_cons.mpr ⟨trivial, ?_⟩⟩
      exact List.forall_mem_cons.mpr ⟨trivial, calls⟩

theorem Operation.taskLaw {machine changed : Machine}
    (operation : Operation machine acts notice changed) (schedules : Schedules past machine.tasks) :
    Lawful (EventLoop.taskLaw False) past ((acts ++ notice.acts).map Act.entry) := by
  cases operation with
  | @answer builtin arguments result answers =>
      refine ⟨?_, trivial⟩
      cases builtin with
      | setTimeout =>
          obtain ⟨uncallable, rfl⟩ := answers
          simp [EventLoop.taskLaw, Act.entry, uncallable]
      | clearTimeout =>
          obtain ⟨missing, rfl⟩ := answers
          refine ⟨rfl, fun task pending named => ?_⟩
          have queued := (schedules.mem_pending task).mp pending
          exact TaskQueue.id_ne_of_cancel? (missing task.id named) queued rfl
      | _ => trivial
  | @addTask task arguments fresh delay callback rest within =>
      refine ⟨.inr ⟨arguments, callback, rest, List.prefix_rfl⟩, trivial, ?_, trivial⟩
      have callable : (arguments.head?.getD .undefined).isCallable = true := by
        rw [callback]
        exact within.callback.1
      simp only [EventLoop.taskLaw, Act.entry, callable, if_true]
      exact ⟨task, rfl, past, by simp⟩
  | @removeTask id task tasks arguments named pending =>
      have same : task.id = id := TaskQueue.id_of_cancel? pending
      have moved := TaskQueue.cancel?_perm pending
      have waits := (schedules.mem_pending task).mpr (moved.mem_iff.mpr List.mem_cons_self)
      refine ⟨⟨waits, .inr ⟨arguments, same ▸ named, List.prefix_rfl⟩⟩, trivial, ⟨rfl, ?_⟩, trivial⟩
      intro other left again
      rw [pendingTasks_concat ⟨rfl, rfl, rfl⟩] at left
      rw [named, Option.some.injEq] at again
      exact id_ne_of_pending left (again.symm.trans same.symm)
  | register known within subscribes =>
      exact lawful_of_free (subscribes.free rfl (List.forall_mem_singleton.mpr trivial))
  | @frame event frame => exact ⟨trivial, trivial⟩
  | _ => exact lawful_of_free (by simp [Act.entry, Notice.acts, Entry.FreeOfTasks])

theorem Effect.taskLaw {config after : Config} (effect : Effect config acts notice after)
    (schedules : Schedules past config.machine.tasks) :
    Lawful (EventLoop.taskLaw False) past ((acts ++ notice.acts).map Act.entry) := by
  cases effect with
  | operation evaluates operation => exact operation.taskLaw schedules
  | takeTask drained next => exact ⟨schedules.isNext next, trivial⟩
  | restore known subscribes => exact lawful_of_free (subscribes.free rfl (by simp))
  | follow known subscribes => exact lawful_of_free (subscribes.free rfl (by simp))
  | _ => exact lawful_of_free (by simp [Act.entry, Notice.acts, Entry.FreeOfTasks])

-- The last change of a run, which the step limit keeps from being recorded.
theorem Effect.taskLaw_cut {config after : Config} {event : Event} {late : List Act}
    (effect : Effect config acts (some (event, late)) after)
    (schedules : Schedules past config.machine.tasks) :
    Lawful (EventLoop.taskLaw True) past (acts.map Act.entry) := by
  have whole := effect.taskLaw schedules
  have plain (free : ∀ entry ∈ (acts ++ Notice.acts (some (event, late))).map Act.entry,
      entry.FreeOfTasks) : Lawful (EventLoop.taskLaw True) past (acts.map Act.entry) :=
    lawful_of_free fun entry member => free entry (by simp_all)
  cases effect with
  | operation evaluates operation =>
      cases operation with
      | addTask fresh delay callback rest within => exact ⟨.inl ⟨trivial, rfl⟩, trivial⟩
      | removeTask named pending => exact ⟨⟨whole.1.1, .inl ⟨trivial, rfl⟩⟩, trivial⟩
      | register known within subscribes =>
          exact plain (subscribes.free rfl (List.forall_mem_singleton.mpr trivial))
      | _ => exact lawful_of_free (by simp [Act.entry, Entry.FreeOfTasks])
  | restore known subscribes => exact plain (subscribes.free rfl (by simp))
  | follow known subscribes => exact plain (subscribes.free rfl (by simp))
  | _ => exact lawful_of_free (by simp [Act.entry, Entry.FreeOfTasks])

end Laws

end EventLoop
