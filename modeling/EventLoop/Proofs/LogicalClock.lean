import EventLoop.Proofs.RunToCompletion
import EventLoop.Proofs.Tasks
import Mathlib.Order.Bounds.Defs

set_option autoImplicit false

/-!
# The logical clock

The clock moves when a task is taken out of its queue, to the delay of that task and never back.
-/

namespace EventLoop

open Simulation

theorem isDelay_zero : IsDelay 0 := ⟨by decide, by decide⟩

theorem IsDelay.le_refl {x : Float} (delay : IsDelay x) : x ≤ x :=
  (delay.le_iff delay).mpr le_rfl

theorem IsDelay.le_trans {x y z : Float} (first : IsDelay x) (second : IsDelay y)
    (third : IsDelay z) (early : x ≤ y) (late : y ≤ z) : x ≤ z := by
  rw [first.le_iff second] at early
  rw [second.le_iff third] at late
  exact (first.le_iff third).mpr (early.trans late)

theorem Clock.advance_isGreatest {clock : Clock} {time : Float} (now : IsDelay clock.now)
    (due : IsDelay time) : IsGreatest {clock.now, time} (clock.advance time).now := by
  unfold Clock.advance
  split
  next later =>
    rw [now.lt_iff due] at later
    refine ⟨.inr rfl, ?_⟩
    rintro other (rfl | rfl)
    · exact (now.le_iff due).mpr later.le
    · exact due.le_refl
  next current =>
    rw [now.lt_iff due, not_lt] at current
    refine ⟨.inl rfl, ?_⟩
    rintro other (rfl | rfl)
    · exact now.le_refl
    · exact (due.le_iff now).mpr current

theorem Clock.advance_isDelay {clock : Clock} {time : Float} (now : IsDelay clock.now)
    (due : IsDelay time) : IsDelay (clock.advance time).now := by
  obtain same | same := (Clock.advance_isGreatest now due).1
  next => rwa [same]
  next => rwa [same]

section Boundaries

variable {program : Program} {settings : Settings} {before entered : Machine} {event : Event}

theorem Boundary.queued_isDelay (boundary : Boundary program settings before) {task : Task}
    (queued : task ∈ before.tasks.tasks) : IsDelay task.delay := by
  obtain ⟨history, reached⟩ := boundary.exists_history
  exact reached.scheduled.queued_delay queued

theorem Boundary.dispatch_isDelay (boundary : Boundary program settings before)
    (now : IsDelay before.clock.now) (dispatch : Dispatch before event entered) :
    IsDelay entered.clock.now := by
  cases dispatch with
  | microtask next => exact now
  | task drained next =>
      have queued := boundary.queued_isDelay (by rw [next]; exact List.mem_cons_self)
      exact Clock.advance_isDelay now queued

theorem Boundary.clock_isDelay (boundary : Boundary program settings before) :
    IsDelay before.clock.now := by
  induction boundary with
  | program ran =>
      obtain ⟨-, path, -⟩ := Program.prologue_done ran
      rw [path.inner.1]
      exact isDelay_zero
  | turn boundary ran ih =>
      obtain ⟨event, entered, last, node, dispatch, path, -, -, rfl⟩ := turn_finished ran
      have taken := boundary.dispatch_isDelay ih dispatch
      rw [← path.inner.1] at taken
      exact taken

end Boundaries

structure Ready (program : Program) (settings : Settings) (machine : Machine) (task : Task) :
    Prop where
  boundary : Boundary program settings machine
  drained : machine.microtasks.microtasks = []
  next : ∃ rest, machine.tasks.tasks = task :: rest

def Ticks (program : Program) (settings : Settings) (steps : List Step) (time : Float) : Prop :=
  IsDelay time ∧ ∃ last, steps.getLast? = some last ∧
    (time = last.clock ∨ ∃ before task, Ready program settings before task ∧
      before.steps = steps ∧ time = (before.clock.advance task.delay).now)

def clockLaw (program : Program) (settings : Settings) (steps : List Step) (step : Step) : Prop :=
  steps = [] ∧ step.clock = 0 ∨ Ticks program settings steps step.clock

section Laws

variable {program : Program} {settings : Settings} {machine : Machine}

theorem Machine.Synced.ticks (synced : machine.Synced) (now : IsDelay machine.clock.now) :
    Ticks program settings machine.steps machine.clock.now := by
  obtain ⟨event, node, last⟩ := synced
  exact ⟨now, _, last, .inl rfl⟩

theorem Boundary.ticks {before entered : Machine} {event : Event}
    (boundary : Boundary program settings before) (dispatch : Dispatch before event entered) :
    Ticks program settings entered.steps entered.clock.now := by
  have now := boundary.dispatch_isDelay boundary.clock_isDelay dispatch
  obtain ⟨lastEvent, lastNode, last⟩ := boundary.synced
  rw [dispatch.steps]
  refine ⟨now, _, last, ?_⟩
  cases dispatch with
  | microtask next => exact .inl rfl
  | task drained next => exact .inr ⟨before, _, ⟨boundary, drained, _, next⟩, rfl, rfl⟩

theorem Move.ticks {after : Machine} (move : Move settings machine after)
    (ticks : Ticks program settings machine.steps machine.clock.now) :
    Ticks program settings after.steps after.clock.now := by
  cases move with
  | @change changed event node change room =>
      -- The change is recorded, and from then on the last step shows the time.
      have now := ticks.1
      rw [← change.inner.2] at now
      exact (changed.synced_recorded event node).ticks now
  | _ => exact ticks

theorem Program.run_clockLaw (program : Program) (settings : Settings) :
    Obeys (clockLaw program settings) (program.run settings).trace.toList := by
  refine program.run_obeys_of settings (.inl ⟨rfl, rfl⟩)
    ((Machine.initial.synced_recorded .start none).ticks isDelay_zero) Boundary.ticks Move.ticks
    ?_ ?_
  next =>
    intro machine changed event node ticks change
    rw [← change.inner.2] at ticks
    exact .inr ticks
  next =>
    intro before entered ran event node boundary dispatch path ticks empty finished
    exact .inr ticks

end Laws

structure Run.RunsTask (run : Run) (entry : Step) (task : TaskEntry) (first last : Nat) :
    Prop where
  entered : run.trace[first - 1]? = some entry
  head : entry.tasks.head? = some task
  ended : ∃ step, run.trace[last]? = some step ∧ step.event = .taskRun task.name first

structure Run.StartsTask (run : Run) (entry : Step) (task : TaskEntry) (first : Nat) : Prop where
  entered : run.trace[first - 1]? = some entry
  idle : entry.stack = []
  drained : entry.microtasks = []
  head : entry.tasks.head? = some task
  runs : (∃ last, first ≤ last ∧ run.RunsTask entry task first last) ∨
    run.truncated = true ∧
      ∀ index step, first ≤ index → run.trace[index]? = some step → step.Inner

section Ready

variable {program : Program} {settings : Settings} {before : Machine} {task : Task}

theorem Ready.runs (ready : Ready program settings before task) :
    (∃ last step, before.steps.length ≤ last ∧ (program.run settings).trace[last]? = some step ∧
      step.event = .taskRun task.name before.steps.length) ∨
    (program.run settings).truncated = true ∧ ∀ index step, before.steps.length ≤ index →
      (program.run settings).trace[index]? = some step → step.Inner := by
  obtain ⟨boundary, drained, rest, next⟩ := ready
  have grown := boundary.turn_steps_isPrefix
  have ends := turn_end settings before
  -- Either the turn gets to its end, which the rest of the run keeps, or the run ends within it.
  cases result : turn (m := Simulation) settings before with
  | done again after =>
      rw [result] at ends grown
      cases ends with
      | idle noMicrotask noTask => simp [noTask] at next
      | @finished event entered ran node dispatch path stack room =>
          have longer := path.steps_isPrefix
          rw [dispatch.steps] at longer
          obtain ⟨more, split⟩ := grown
          refine .inl ⟨ran.steps.length, ran.snapshot event node, longer.length_le, ?_, ?_⟩
          next =>
            rw [← Array.getElem?_toList, ← split]
            simp [Outcome.machine]
          next =>
            cases dispatch with
            | microtask waiting => simp [drained] at waiting
            | task _ taken =>
                rw [next] at taken
                cases taken
                simp [Machine.snapshot]
  | halted after =>
      rw [result] at ends
      cases ends with
      | halted dispatch stops =>
          obtain ⟨reached, path, full, shown⟩ := stops
          obtain ⟨-, inner, longer, still⟩ := path.inner
          rw [dispatch.steps, ← Machine.steps_of_toRun shown] at longer
          rw [boundary.run_of_halted result]
          refine .inr ⟨rfl, fun index step late found => ?_⟩
          have position : after.steps[index]? = some step := by
            rw [Array.getElem?_toList]
            exact found
          rw [longer, List.getElem?_append_right late] at position
          exact (still step (List.mem_of_getElem? position)).1

theorem Ready.starts (ready : Ready program settings before task) {entry : Step}
    (last : before.steps.getLast? = some entry) :
    entry.clock = before.clock.now ∧
      (program.run settings).StartsTask entry task.toTaskEntry before.steps.length := by
  obtain ⟨event, node, positive, shown⟩ := ready.boundary.entry
  obtain rfl : entry = before.snapshot event node := by
    have same := shown List.prefix_rfl
    rw [← List.getLast?_eq_getElem?, last] at same
    exact Option.some.inj same
  have entered : (program.run settings).trace[before.steps.length - 1]? =
      some (before.snapshot event node) := by
    rw [← Array.getElem?_toList]
    exact shown ((turn_steps_isPrefix settings before).trans ready.boundary.turn_steps_isPrefix)
  have head : (before.snapshot event node).tasks.head? = some task.toTaskEntry := by
    obtain ⟨rest, next⟩ := ready.next
    simp [Machine.snapshot, TaskQueue.entries, next]
  refine ⟨rfl, entered, ready.boundary.stack_eq_nil, ?_, head, ?_⟩
  next => simp [Machine.snapshot, MicrotaskQueue.names, ready.drained]
  next =>
    obtain ⟨last, step, late, found, ended⟩ | cutOff := ready.runs
    next => exact .inl ⟨last, late, entered, head, step, found, ended⟩
    next => exact .inr cutOff

end Ready

section Runs

variable {program : Program} {settings : Settings}

theorem Program.run_clock_isDelay {index : Nat} {step : Step}
    (position : (program.run settings).trace[index]? = some step) : IsDelay step.clock := by
  rw [← Array.getElem?_toList] at position
  obtain ⟨-, start⟩ | ⟨now, -⟩ := program.run_clockLaw settings index step position
  next =>
    rw [start]
    exact isDelay_zero
  next => exact now

theorem Program.run_clock_cases {index : Nat} {previous step : Step}
    (earlier : (program.run settings).trace[index]? = some previous)
    (position : (program.run settings).trace[index + 1]? = some step) :
    step.clock = previous.clock ∨
      ∃ task, (program.run settings).StartsTask previous task (index + 1) ∧
        previous.clock < task.delay ∧ step.clock = task.delay := by
  rw [← Array.getElem?_toList] at earlier position
  have size := (List.getElem?_eq_some_iff.mp position).1
  have last : ((program.run settings).trace.toList.take (index + 1)).getLast? = some previous := by
    simp [List.getLast?_take, earlier]
  obtain ⟨nothing, -⟩ | ⟨-, shown, found, moved⟩ :=
    program.run_clockLaw settings (index + 1) step position
  next => simp [nothing] at last
  next =>
    rw [last] at found
    cases found
    obtain same | ⟨before, task, ready, steps, time⟩ := moved
    next => exact .inl same
    next =>
      rw [← steps] at last
      obtain ⟨clock, starts⟩ := ready.starts last
      have count : before.steps.length = index + 1 := by
        rw [steps, List.length_take]
        omega
      rw [count] at starts
      -- A task that was due already leaves the clock as it is.
      unfold Clock.advance at time
      split at time
      next later => exact .inr ⟨_, starts, clock ▸ later, time⟩
      next => exact .inl (time.trans clock.symm)

theorem Program.run_clock_mono {early late : Nat} {step later : Step} (ordered : early ≤ late)
    (earlier : (program.run settings).trace[early]? = some step)
    (position : (program.run settings).trace[late]? = some later) : step.clock ≤ later.clock := by
  induction late, ordered using Nat.le_induction generalizing later with
  | base =>
      rw [earlier] at position
      cases position
      exact (Program.run_clock_isDelay earlier).le_refl
  | succ late _ ih =>
      obtain ⟨size, -⟩ := Array.getElem?_eq_some_iff.mp position
      have found := Array.getElem?_eq_getElem (Nat.lt_of_succ_lt size)
      have before := ih found
      have delay := Program.run_clock_isDelay found
      have due := Program.run_clock_isDelay position
      refine (Program.run_clock_isDelay earlier).le_trans delay due before ?_
      obtain same | ⟨task, -, forward, time⟩ := Program.run_clock_cases found position
      next =>
        rw [same]
        exact delay.le_refl
      next =>
        rw [← time, delay.lt_iff due] at forward
        exact (delay.le_iff due).mpr forward.le

def taskClockLaw (steps : List Step) (step : Step) : Prop :=
  ∀ name first, step.event = .taskRun name first →
    1 ≤ first ∧ first ≤ steps.length ∧
      ∃ entry task, steps[first - 1]? = some entry ∧ entry.tasks.head? = some task ∧
        task.name = name ∧ IsDelay task.delay ∧
        IsGreatest {entry.clock, task.delay} step.clock ∧
        ∀ index inside, first ≤ index → steps[index]? = some inside → inside.clock = step.clock

theorem Boundary.taskClockLaw {before entered ran : Machine} {event : Event}
    (boundary : Boundary program settings before) (dispatch : Dispatch before event entered)
    (path : Path settings entered ran) (node : Option NodeRef) :
    taskClockLaw ran.steps (ran.snapshot event node) := by
  intro name first ended
  obtain ⟨lastEvent, lastNode, positive, shown⟩ := boundary.entry
  obtain ⟨clock, inner, grown, still⟩ := path.inner
  rw [dispatch.steps] at grown
  have longer : before.steps <+: ran.steps := ⟨inner, grown.symm⟩
  cases dispatch with
  | microtask next => cases ended
  | @task task rest drained next =>
      -- The step before the turn shows the queue and the clock as the turn finds them.
      obtain ⟨rfl, rfl⟩ : task.name = name ∧ before.steps.length = first := by
        simpa [Machine.snapshot] using ended
      have queued := boundary.queued_isDelay (by rw [next]; exact List.mem_cons_self)
      refine ⟨positive, longer.length_le, _, task.toTaskEntry, shown longer, ?_, rfl, queued,
        ?_, ?_⟩
      next => simp [Machine.snapshot, TaskQueue.entries, next]
      next =>
        simp only [Machine.snapshot, clock]
        exact Clock.advance_isGreatest boundary.clock_isDelay queued
      next =>
        intro index inside late found
        rw [grown, List.getElem?_append_right late] at found
        rw [(still inside (List.mem_of_getElem? found)).2, ← clock]
        rfl

theorem Program.run_task_clock {first last : Nat} {step : Step} {name : String}
    (position : (program.run settings).trace[last]? = some step)
    (ended : step.event = .taskRun name first) :
    1 ≤ first ∧ first ≤ last ∧
      ∃ entry task, (program.run settings).RunsTask entry task first last ∧ IsDelay task.delay ∧
        ∀ index inside, first ≤ index → index ≤ last →
          (program.run settings).trace[index]? = some inside →
            IsGreatest {entry.clock, task.delay} inside.clock := by
  have obeys : Obeys EventLoop.taskClockLaw (program.run settings).trace.toList := by
    refine program.run_obeys settings ?_ ?_ ?_
    next =>
      intro name first ended
      cases ended
    next =>
      intro machine changed event node shown change name first ended
      cases change <;> cases ended
    next =>
      intro before entered ran event node boundary dispatch path shown empty finished
      exact boundary.taskClockLaw dispatch path node
  have listed := position
  rw [← Array.getElem?_toList] at listed
  obtain ⟨positive, early, entry, task, found, head, rfl, delay, greatest, still⟩ :=
    obeys last step listed name first ended
  have ordered : first ≤ last := by
    rw [List.length_take] at early
    omega
  rw [Run.getElem?_take _ (by omega)] at found
  refine ⟨positive, ordered, entry, task, ⟨found, head, step, position, ended⟩, delay, ?_⟩
  intro index inside late within shown
  -- The steps inside the turn have the clock of its start, and so has the one that ends it.
  obtain inner | rfl := Nat.lt_or_eq_of_le within
  next =>
    rw [still index inside late (by rw [Run.getElem?_take _ inner, shown])]
    exact greatest
  next =>
    rw [position] at shown
    cases shown
    exact greatest

theorem Program.run_clock_start {step : Step}
    (position : (program.run settings).trace[0]? = some step) : step.clock = 0 := by
  rw [← Array.getElem?_toList] at position
  obtain ⟨-, start⟩ | ⟨-, last, found, -⟩ := program.run_clockLaw settings 0 step position
  next => exact start
  next => cases found

end Runs

def Run.ranDelays (run : Run) : Set Float :=
  {delay | ∃ entry task first last, run.RunsTask entry task first last ∧ task.delay = delay}

section Completed

variable {program : Program} {settings : Settings}
variable (completed : (program.run settings).truncated = false)

include completed

theorem Program.run_clock_mem {index : Nat} {step : Step}
    (position : (program.run settings).trace[index]? = some step) :
    step.clock ∈ insert 0 (program.run settings).ranDelays := by
  induction index generalizing step with
  | zero => exact .inl (Program.run_clock_start position)
  | succ index ih =>
      obtain ⟨size, -⟩ := Array.getElem?_eq_some_iff.mp position
      have found := Array.getElem?_eq_getElem (Nat.lt_of_succ_lt size)
      obtain same | ⟨task, starts, -, time⟩ := Program.run_clock_cases found position
      next =>
        rw [same]
        exact ih found
      next =>
        -- Only the step limit keeps a task from its end.
        obtain ⟨last, -, runs⟩ | ⟨cutOff, -⟩ := starts.runs
        next => exact .inr ⟨_, task, _, last, runs, time.symm⟩
        next =>
          rw [completed] at cutOff
          cases cutOff

theorem Program.run_clock_final :
    IsGreatest (insert 0 (program.run settings).ranDelays) (program.run settings).clock := by
  obtain ⟨after, boundary, -, -, ends⟩ := Program.run_completed completed
  obtain ⟨event, node, -, shown⟩ := boundary.entry
  have last : (program.run settings).trace[after.steps.length - 1]? =
      some (after.snapshot event node) := by
    rw [ends, ← Array.getElem?_toList]
    exact shown List.prefix_rfl
  have time : (program.run settings).clock = (after.snapshot event node).clock := by rw [ends]; rfl
  rw [time]
  refine ⟨Program.run_clock_mem completed last, ?_⟩
  rintro delay (rfl | ⟨entry, task, first, ending, runs, rfl⟩)
  next => exact (Program.run_clock_isDelay last).nonneg
  next =>
    obtain ⟨step, position, ended⟩ := runs.ended
    obtain ⟨-, ordered, shown, due, same, delay, greatest⟩ :=
      Program.run_task_clock position ended
    obtain rfl : entry = shown := Option.some.inj (runs.entered.symm.trans same.entered)
    obtain rfl : task = due := Option.some.inj (runs.head.symm.trans same.head)
    -- The turn of the task leaves the clock at its delay or beyond, and the clock never goes back.
    have passed := (greatest ending step ordered (Nat.le_refl _) position).2 (.inr rfl)
    have bound : ending ≤ after.steps.length - 1 := by
      have size := (Array.getElem?_eq_some_iff.mp position).1
      have length : (program.run settings).trace.size = after.steps.length := by
        rw [ends, Array.length_toList]
        rfl
      omega
    exact delay.le_trans (Program.run_clock_isDelay position) (Program.run_clock_isDelay last)
      passed (Program.run_clock_mono bound position last)

end Completed

/-- What the clock does in the course of a run. -/
structure Run.Clocked (run : Run) : Prop where
  start {step : Step} : run.trace[0]? = some step → step.clock = 0
  mono {early late : Nat} {step later : Step} : early ≤ late → run.trace[early]? = some step →
    run.trace[late]? = some later → step.clock ≤ later.clock
  -- It moves only with the first step of a task, and then to the delay of that task.
  moves {index : Nat} {previous step : Step} : run.trace[index]? = some previous →
    run.trace[index + 1]? = some step → step.clock ≠ previous.clock →
      ∃ task, run.StartsTask previous task (index + 1) ∧ step.clock = task.delay
  -- All steps of a task show the later of the time before it and its delay.
  tasks {first last : Nat} {step : Step} {name : String} : run.trace[last]? = some step →
    step.event = .taskRun name first →
      1 ≤ first ∧ first ≤ last ∧ ∃ entry task, run.RunsTask entry task first last ∧
        ∀ index inside, first ≤ index → index ≤ last → run.trace[index]? = some inside →
          IsGreatest {entry.clock, task.delay} inside.clock
  -- In the end it shows the greatest delay of a task that ran.
  final : run.truncated = false → IsGreatest (insert 0 run.ranDelays) run.clock

/-- The clock law: the clock starts at zero, never goes back, moves only when a task starts, and
ends at the greatest delay of the tasks that ran. -/
theorem Program.run_clocked (program : Program) (settings : Settings) :
    (program.run settings).Clocked where
  start := Program.run_clock_start
  mono := Program.run_clock_mono
  moves earlier position moved := by
    obtain same | ⟨task, starts, -, time⟩ := Program.run_clock_cases earlier position
    next => exact absurd same moved
    next => exact ⟨task, starts, time⟩
  tasks position ended := by
    obtain ⟨positive, ordered, entry, task, runs, -, greatest⟩ :=
      Program.run_task_clock position ended
    exact ⟨positive, ordered, entry, task, runs, greatest⟩
  final := Program.run_clock_final

end EventLoop
