import EventLoop.Proofs.Trace

set_option autoImplicit false

/-!
# Microtasks before tasks

A task is taken out of its queue between two steps, so what the queues held at that time is read off
the step before the first step of the task.
-/

namespace EventLoop

deriving instance DecidableEq for Event

/-- The step is one that a task can be taken after: no microtask waits, and the task is next. -/
def Step.Drained (step : Step) (name : String) : Prop :=
  step.microtasks = [] ∧ ∃ entry rest, step.tasks = entry :: rest ∧ entry.name = name

def drainLaw (steps : List Step) (step : Step) : Prop :=
  ∀ name first, step.event = .taskRun name first →
    1 ≤ first ∧ first ≤ steps.length ∧
      ∃ dispatched, steps[first - 1]? = some dispatched ∧ dispatched.Drained name

theorem Dispatch.drainLaw {before entered ran : Machine} {event : Event}
    (dispatch : Dispatch before event entered) (synced : before.Synced)
    (grown : before.steps <+: ran.steps) (node : Option NodeRef) :
    EventLoop.drainLaw ran.steps (ran.snapshot event node) := by
  intro name first shown
  cases dispatch with
  | microtask next => cases shown
  | @task task rest drained next =>
      -- The last step before the turn shows the queues at the time when the task was taken.
      obtain ⟨rfl, rfl⟩ : task.name = name ∧ before.trace.size = first := by
        simpa [Machine.snapshot] using shown
      have nonempty := synced.showsStack.steps_ne_nil
      obtain ⟨lastEvent, lastNode, last⟩ := synced
      have size : before.steps.length = before.trace.size := Array.length_toList
      refine ⟨size ▸ List.length_pos_iff.mpr nonempty, size ▸ grown.length_le,
        before.snapshot lastEvent lastNode, ?_, ?_⟩
      next =>
        rw [List.getLast?_eq_getElem?, size] at last
        obtain ⟨bound, found⟩ := List.getElem?_eq_some_iff.mp last
        rw [List.prefix_iff_getElem?.mp grown _ bound, found]
      next =>
        refine ⟨?_, task.toTaskEntry, rest.map Task.toTaskEntry, ?_, rfl⟩
        · simp [Machine.snapshot, MicrotaskQueue.names, drained]
        · simp [Machine.snapshot, TaskQueue.entries, next]

/-- No task is taken while a microtask is pending: the step before the first step of a task shows
no microtask, and that task at the head of the queue. -/
theorem Program.run_drains_before_task (program : Program) (settings : Settings) (index : Nat)
    (step : Step) (name : String) (first : Nat)
    (position : (program.run settings).trace[index]? = some step)
    (ended : step.event = .taskRun name first) :
    1 ≤ first ∧ first ≤ index ∧
      ∃ dispatched, (program.run settings).trace[first - 1]? = some dispatched ∧
        dispatched.Drained name := by
  have obeys : Obeys drainLaw (program.run settings).trace.toList := by
    refine program.run_obeys settings ?_ ?_ ?_
    next =>
      intro name first event
      cases event
    next =>
      intro machine changed event node shown change name first ended
      cases change <;> cases ended
    next =>
      intro before entered ran event node boundary dispatch path shown empty finished
      have grown := path.steps_isPrefix
      rw [dispatch.steps] at grown
      exact dispatch.drainLaw boundary.synced grown node
  rw [← Array.getElem?_toList] at position
  obtain ⟨positive, earlier, dispatched, found, drained⟩ :=
    obeys index step position name first ended
  have bound : first ≤ index := by
    rw [List.length_take] at earlier
    omega
  refine ⟨positive, bound, dispatched, ?_, drained⟩
  rw [← Array.getElem?_toList]
  rw [List.getElem?_take] at found
  simpa [show first - 1 < index by omega] using found

theorem timerAndMicrotask_drains_before_task :
    ∃ step dispatched, (timerAndMicrotask.run {}).trace[8]? = some step ∧
      step.event = .taskRun "later" 6 ∧
      (timerAndMicrotask.run {}).trace[5]? = some dispatched ∧ dispatched.Drained "later" := by
  have ended : (timerAndMicrotask.run {}).trace[8]?.map Step.event = some (.taskRun "later" 6) := by
    decide +kernel
  obtain ⟨step, position, event⟩ := Option.map_eq_some_iff.mp ended
  obtain ⟨-, -, dispatched, found, drained⟩ :=
    timerAndMicrotask.run_drains_before_task {} 8 step "later" 6 position event
  exact ⟨step, dispatched, position, event, found, drained⟩

end EventLoop
