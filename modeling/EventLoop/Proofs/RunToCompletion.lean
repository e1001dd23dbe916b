import EventLoop.Proofs.Trace

set_option autoImplicit false

/-!
# Run to completion

The step that ends a turn names the first step of the turn.
-/

namespace EventLoop

open Simulation

def Event.firstStep? : Event → Option Nat
  | .microtaskRun _ first | .taskRun _ first => some first
  | _ => none

def Step.Inner (step : Step) : Prop := step.event.firstStep? = none

theorem Dispatch.firstStep? {before entered : Machine} {event : Event}
    (dispatch : Dispatch before event entered) : event.firstStep? = some before.steps.length := by
  cases dispatch <;> simp [Event.firstStep?]

section Paths

variable {settings : Settings} {machine reached : Machine}

theorem Change.inner {changed : Machine} {event : Event} (change : Change machine event changed) :
    event.firstStep? = none ∧ changed.clock = machine.clock := by
  cases change <;> exact ⟨rfl, rfl⟩

theorem Path.inner (path : Path settings machine reached) :
    reached.clock = machine.clock ∧
      ∃ inner, reached.steps = machine.steps ++ inner ∧
        ∀ step ∈ inner, step.Inner ∧ step.clock = machine.clock.now := by
  induction path with
  | refl => exact ⟨rfl, [], by simp, by simp⟩
  | tail _ move ih =>
      obtain ⟨clock, inner, grown, still⟩ := ih
      cases move with
      | @change changed event node change room =>
          obtain ⟨running, same⟩ := change.inner
          refine ⟨same.trans clock, inner ++ [changed.snapshot event node], ?_, ?_⟩
          next => rw [Machine.steps_recorded, change.steps, grown, List.append_assoc]
          next =>
            rw [List.forall_mem_append, List.forall_mem_singleton]
            refine ⟨still, running, ?_⟩
            simp only [Machine.snapshot, same, clock]
      | _ => exact ⟨clock, inner, grown, still⟩

end Paths

section Boundaries

variable {program : Program} {settings : Settings} {machine : Machine}

theorem Boundary.inner_of_last (boundary : Boundary program settings machine) {last : Step}
    (shown : machine.steps.getLast? = some last) (inner : last.Inner) :
    ∀ step ∈ machine.steps, step.Inner := by
  cases boundary with
  | program ran =>
      obtain ⟨-, path, -⟩ := Program.prologue_done ran
      obtain ⟨-, steps, grown, still⟩ := path.inner
      rw [grown, List.forall_mem_append]
      refine ⟨?_, fun step member => (still step member).1⟩
      simp [Machine.started, Machine.recorded, Machine.initial, Step.Inner, Machine.snapshot,
        Event.firstStep?]
  | turn _ ran =>
      obtain ⟨event, entered, ran, node, dispatch, -, -, -, rfl⟩ := turn_finished ran
      rw [Machine.steps_recorded, List.getLast?_concat] at shown
      cases shown
      have ended := dispatch.firstStep?
      rw [Step.Inner, Machine.snapshot, ended] at inner
      cases inner

theorem Boundary.entry (boundary : Boundary program settings machine) :
    ∃ event node, 0 < machine.steps.length ∧ ∀ {steps : List Step}, machine.steps <+: steps →
      steps[machine.steps.length - 1]? = some (machine.snapshot event node) := by
  have nonempty := boundary.synced.showsStack.steps_ne_nil
  have positive := List.length_pos_iff.mpr nonempty
  obtain ⟨event, node, shown⟩ := boundary.synced
  refine ⟨event, node, positive, fun grown => ?_⟩
  obtain ⟨more, rfl⟩ := grown
  rwa [List.getElem?_append_left (by omega), ← List.getLast?_eq_getElem?]

end Boundaries

-- The step that ends a turn comes after an idle machine and the steps of that turn alone. The turn
-- before it, if there was one, ended where it starts.
def turnLaw (steps : List Step) (step : Step) : Prop :=
  ∀ first, step.event.firstStep? = some first →
    1 ≤ first ∧ first ≤ steps.length ∧
      ∃ entry, steps[first - 1]? = some entry ∧ entry.stack = [] ∧
        (∀ index inside, first ≤ index → steps[index]? = some inside → inside.Inner) ∧
        (entry.Inner → ∀ index past, index < first → steps[index]? = some past → past.Inner)

theorem Boundary.turnLaw {program : Program} {settings : Settings} {before entered ran : Machine}
    {event : Event} (boundary : Boundary program settings before)
    (dispatch : Dispatch before event entered) (path : Path settings entered ran)
    (node : Option NodeRef) : turnLaw ran.steps (ran.snapshot event node) := by
  intro first ended
  rw [Machine.snapshot, dispatch.firstStep?] at ended
  obtain rfl := Option.some.inj ended
  obtain ⟨lastEvent, lastNode, positive, shown⟩ := boundary.entry
  obtain ⟨-, inner, grown, still⟩ := path.inner
  rw [dispatch.steps] at grown
  have longer : before.steps <+: ran.steps := ⟨inner, grown.symm⟩
  refine ⟨positive, longer.length_le, _, shown longer, boundary.stack_eq_nil, ?_, ?_⟩
  next =>
    intro index inside late found
    rw [grown, List.getElem?_append_right late] at found
    exact (still inside (List.mem_of_getElem? found)).1
  next =>
    intro running index past early found
    have last := shown List.prefix_rfl
    rw [← List.getLast?_eq_getElem?] at last
    rw [grown, List.getElem?_append_left early] at found
    exact boundary.inner_of_last last running past (List.mem_of_getElem? found)

theorem Program.run_turnLaw (program : Program) (settings : Settings) :
    Obeys turnLaw (program.run settings).trace.toList := by
  refine program.run_obeys settings ?_ ?_ ?_
  next =>
    intro first ended
    cases ended
  next =>
    intro machine changed event node shown change first ended
    have inner := change.inner.1
    rw [Machine.snapshot, inner] at ended
    cases ended
  next =>
    intro before entered ran event node boundary dispatch path shown empty finished
    exact boundary.turnLaw dispatch path node

/-- The steps from `first` to `last` are those of one invocation of a queued callback. -/
def Run.Invocation (run : Run) (first last : Nat) : Prop :=
  ∃ step, run.trace[last]? = some step ∧ step.event.firstStep? = some first

section Invocations

variable {run : Run} {first last start ending : Nat}

theorem Run.Invocation.not_inner {step : Step} (invocation : run.Invocation first last)
    (position : run.trace[last]? = some step) : ¬step.Inner := by
  obtain ⟨shown, same, ended⟩ := invocation
  rw [position] at same
  cases same
  simp [Step.Inner, ended]

theorem Run.Invocation.entry (obeys : Obeys turnLaw run.trace.toList)
    (invocation : run.Invocation first last) :
    1 ≤ first ∧ first ≤ last ∧
      ∃ entry, run.trace[first - 1]? = some entry ∧ entry.stack = [] ∧
        (∀ index step, first ≤ index → index < last → run.trace[index]? = some step →
          step.Inner) ∧
        (entry.Inner → ∀ index step, index < first → run.trace[index]? = some step →
          step.Inner) := by
  obtain ⟨shown, position, ended⟩ := invocation
  rw [← Array.getElem?_toList] at position
  obtain ⟨positive, earlier, entry, found, idle, inside, before⟩ :=
    obeys last shown position first ended
  have ordered : first ≤ last := by
    rw [List.length_take] at earlier
    omega
  refine ⟨positive, ordered, entry, ?_, idle, fun index step late early found => ?_,
    fun running index step early found => ?_⟩
  next => rwa [run.getElem?_take (by omega)] at found
  next => exact inside index step late (by rw [run.getElem?_take early, found])
  next => exact before running index step early (by rw [run.getElem?_take (by omega), found])

theorem Run.Invocation.last_eq (obeys : Obeys turnLaw run.trace.toList)
    (invocation : run.Invocation first last) (other : run.Invocation start ending)
    (late : first ≤ ending) (early : ending ≤ last) : ending = last := by
  obtain ⟨-, -, entry, -, -, inside, -⟩ := invocation.entry obeys
  obtain within | same := Nat.lt_or_eq_of_le early
  next =>
    -- No step of an invocation but its last one ends a turn.
    have ⟨step, position, _⟩ := other
    exact absurd (inside ending step late within position) (other.not_inner position)
  next => exact same

theorem Run.Invocation.first_eq (obeys : Obeys turnLaw run.trace.toList)
    (invocation : run.Invocation first last) (other : run.Invocation start ending)
    (earlier : ending < last)
    (between : ∀ index, ending < index → index < last → ∀ other, ¬run.Invocation other index) :
    first = ending + 1 := by
  obtain ⟨positive, ordered, entry, position, -, -, before⟩ := invocation.entry obeys
  have outside : ending < first := by
    by_contra late
    have same := invocation.last_eq obeys other (by omega) (by omega)
    omega
  by_contra apart
  -- Then the entry lies between the two ends, so no turn has ended before it.
  have running : entry.Inner := by
    cases ended : entry.event.firstStep? with
    | none => exact ended
    | some start =>
        have invocation : run.Invocation start (first - 1) := ⟨entry, position, ended⟩
        exact absurd invocation (between _ (by omega) (by omega) start)
  have ⟨step, found, _⟩ := other
  exact other.not_inner found (before running ending step outside found)

end Invocations

/-- The steps of a run that belong to queued callbacks are tiled by their invocations. -/
structure Run.Tiled (run : Run) : Prop where
  bounds {first last : Nat} : run.Invocation first last → 1 ≤ first ∧ first ≤ last
  -- A callback starts on an empty stack.
  idle {first last : Nat} : run.Invocation first last →
    ∃ entry, run.trace[first - 1]? = some entry ∧ entry.stack = []
  -- No other invocation ends while it runs.
  uninterrupted {first last start ending : Nat} : run.Invocation first last →
    run.Invocation start ending → first ≤ ending → ending ≤ last → ending = last
  -- It starts right after the one before.
  adjoining {first last start ending : Nat} : run.Invocation first last →
    run.Invocation start ending → ending < last →
      (∀ index, ending < index → index < last → ∀ other, ¬run.Invocation other index) →
        first = ending + 1
  disjoint {first last start ending index : Nat} : run.Invocation first last →
    run.Invocation start ending → first ≤ index → index ≤ last → start ≤ index → index ≤ ending →
      first = start ∧ last = ending

/-- Every queued callback starts on an empty stack and runs to completion, and no step belongs to
two invocations. -/
theorem Program.run_tiled (program : Program) (settings : Settings) :
    (program.run settings).Tiled := by
  have obeys := program.run_turnLaw settings
  refine ⟨fun invocation => ?_, fun invocation => ?_, fun invocation other late early => ?_,
    fun invocation other earlier between => ?_, ?_⟩
  next =>
    obtain ⟨positive, ordered, -⟩ := invocation.entry obeys
    exact ⟨positive, ordered⟩
  next =>
    obtain ⟨-, -, entry, position, idle, -⟩ := invocation.entry obeys
    exact ⟨entry, position, idle⟩
  next => exact invocation.last_eq obeys other late early
  next => exact invocation.first_eq obeys other earlier between
  next =>
    intro first last start ending index invocation other _ _ _ _
    have same : last = ending := by
      obtain early | late := Nat.le_total ending last
      next => exact (invocation.last_eq obeys other (by omega) early).symm
      next => exact other.last_eq obeys invocation (by omega) late
    subst same
    obtain ⟨step, position, ended⟩ := invocation
    obtain ⟨shown, found, ends⟩ := other
    rw [position] at found
    cases found
    rw [ended] at ends
    exact ⟨Option.some.inj ends, rfl⟩

-- The program takes the first three steps, the microtask the next three and the task the rest.
example : (timerAndMicrotask.run {}).trace.toList.map (·.event.firstStep?) =
    [none, none, none, none, none, some 3, none, none, some 6] := by
  decide +kernel

end EventLoop
