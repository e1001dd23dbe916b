import EventLoop.Proofs.Trace
import Mathlib.Tactic.ByContra

set_option autoImplicit false

/-!
# The order of microtasks

At any time the microtasks that were queued are those that are over, the one that runs, and those
that wait, in this order.
-/

namespace EventLoop

def Event.enqueuedMicrotask? : Event → Option String
  | .microtaskEnqueued name => some name
  | _ => none

def Event.ranMicrotask? : Event → Option String
  | .microtaskRun name _ => some name
  | _ => none

def enqueuedNames (steps : List Step) : List String :=
  steps.filterMap (·.event.enqueuedMicrotask?)

def ranNames (steps : List Step) : List String := steps.filterMap (·.event.ranMicrotask?)

@[simp]
theorem enqueuedNames_concat (steps : List Step) (step : Step) :
    enqueuedNames (steps ++ [step]) =
      enqueuedNames steps ++ step.event.enqueuedMicrotask?.toList := by
  cases found : step.event.enqueuedMicrotask? <;> simp [enqueuedNames, found]

@[simp]
theorem ranNames_concat (steps : List Step) (step : Step) :
    ranNames (steps ++ [step]) = ranNames steps ++ step.event.ranMicrotask?.toList := by
  cases found : step.event.ranMicrotask? <;> simp [ranNames, found]

def Machine.Accounts (running : List String) (machine : Machine) : Prop :=
  ranNames machine.steps ++ running ++ machine.microtasks.names = enqueuedNames machine.steps

def queueLaw (running : List String) (steps : List Step) (step : Step) : Prop :=
  ranNames (steps ++ [step]) ++ running ++ step.microtasks = enqueuedNames (steps ++ [step])

theorem queueLaw.microtasks_eq_drop {running : List String} {steps : List Step} {step : Step}
    (law : queueLaw running steps step) :
    step.microtasks = (enqueuedNames (steps ++ [step])).drop
      ((ranNames (steps ++ [step])).length + running.length) := by
  unfold queueLaw at law
  rw [← law, ← List.length_append, List.drop_left]

variable {program : Program} {settings : Settings} {machine : Machine} {running : List String}

theorem Change.queueLaw {changed : Machine} {event : Event}
    (change : Change machine event changed) (node : Option NodeRef)
    (accounts : machine.Accounts running) :
    queueLaw running machine.steps (changed.snapshot event node) := by
  unfold Machine.Accounts at accounts
  unfold EventLoop.queueLaw
  rw [ranNames_concat, enqueuedNames_concat, ← accounts]
  cases change <;>
    simp [Machine.snapshot, Event.ranMicrotask?, Event.enqueuedMicrotask?, MicrotaskQueue.names,
      MicrotaskQueue.enqueue]

theorem Move.accounts {after : Machine} (move : Move settings machine after)
    (accounts : machine.Accounts running) : after.Accounts running := by
  cases move with
  | @change changed event node change room =>
      have law := change.queueLaw node accounts
      unfold EventLoop.queueLaw at law
      unfold Machine.Accounts
      rw [Machine.steps_recorded, change.steps]
      exact law
  | _ => exact accounts

theorem Machine.Accounts.finish {ran : Machine} {event : Event} (node : Option NodeRef)
    (accounts : ran.Accounts event.ranMicrotask?.toList)
    (loop : event.enqueuedMicrotask? = none) : queueLaw [] ran.steps (ran.snapshot event node) := by
  unfold Machine.Accounts at accounts
  unfold queueLaw
  -- The microtask of the turn goes from those that run to those that are over.
  rw [ranNames_concat, enqueuedNames_concat, ← accounts]
  simp [Machine.snapshot, loop]

theorem Dispatch.accounts {before entered : Machine} {event : Event}
    (dispatch : Dispatch before event entered) (accounts : before.Accounts []) :
    entered.Accounts event.ranMicrotask?.toList := by
  unfold Machine.Accounts at accounts ⊢
  rw [dispatch.steps, ← accounts]
  cases dispatch with
  | microtask next => simp [Event.ranMicrotask?, MicrotaskQueue.names, next]
  | task drained next => simp [Event.ranMicrotask?]

theorem Dispatch.enqueues_nothing {before entered : Machine} {event : Event}
    (dispatch : Dispatch before event entered) : event.enqueuedMicrotask? = none := by
  cases dispatch <;> rfl

theorem Machine.started_accounts : Machine.started.Accounts [] := rfl

theorem Boundary.accounts (boundary : Boundary program settings machine) :
    machine.Accounts [] := by
  induction boundary with
  | program ran =>
      obtain ⟨-, path, -⟩ := Program.prologue_done ran
      exact path.keeps Move.accounts Machine.started_accounts
  | turn _ ran ih =>
      obtain ⟨event, entered, last, node, dispatch, path, -, -, rfl⟩ := turn_finished ran
      have accounts := path.keeps Move.accounts (dispatch.accounts ih)
      have law := accounts.finish node dispatch.enqueues_nothing
      unfold queueLaw at law
      unfold Machine.Accounts
      rw [Machine.steps_recorded]
      exact law

/-- A step that a microtask makes, other than the one that ends it: the turn starts at or before the
step and takes a microtask, and it has not ended with the step. A turn that the step limit cuts off
does not end at all. -/
def Program.InsideMicrotask (program : Program) (settings : Settings) (index : Nat) : Prop :=
  ∃ before, Boundary program settings before ∧ before.microtasks.microtasks ≠ [] ∧
    before.trace.size ≤ index ∧
    match turn (m := Simulation) settings before with
    | .done _ after => index + 1 < after.trace.size
    | .halted after => index < after.trace.size

theorem Dispatch.microtask_of_pending {before entered : Machine} {event : Event}
    (dispatch : Dispatch before event entered) (pending : before.microtasks.microtasks ≠ []) :
    ∃ name, event = .microtaskRun name before.trace.size := by
  cases dispatch with
  | microtask next => exact ⟨_, rfl⟩
  | task drained next => exact (pending drained).elim

theorem Path.queueLaw {reached : Machine} (path : Path settings machine reached)
    (accounts : machine.Accounts running) {index : Nat} {step : Step}
    (later : machine.trace.size ≤ index) (position : reached.steps[index]? = some step) :
    queueLaw running (reached.steps.take index) step := by
  -- The steps before the path are none of its own, so the law is restricted to those after them.
  have obeys : Obeys (fun steps step => machine.trace.size ≤ steps.length →
      EventLoop.queueLaw running steps step) reached.steps := by
    refine path.obeys Move.accounts ?_ accounts ?_
    next => exact fun node accounts change _ => change.queueLaw node accounts
    next =>
      intro early step found beyond
      have bound := (List.getElem?_eq_some_iff.mp found).1
      simp only [List.length_take, Array.length_toList] at beyond bound
      omega
  have bound := (List.getElem?_eq_some_iff.mp position).1
  exact obeys index step position (by rw [List.length_take]; omega)

theorem position_of_prefix {steps longer : List Step} (grown : steps <+: longer) {index : Nat}
    {step : Step} (within : index < steps.length) (position : longer[index]? = some step) :
    steps[index]? = some step ∧ steps.take index = longer.take index := by
  obtain ⟨rest, rfl⟩ := grown
  rw [List.getElem?_append_left within] at position
  exact ⟨position, (List.take_append_of_le_length (Nat.le_of_lt within)).symm⟩

theorem Program.InsideMicrotask.queueLaw {index : Nat}
    (inside : program.InsideMicrotask settings index) {step : Step}
    (position : (program.run settings).trace.toList[index]? = some step) :
    ∃ name, queueLaw [name] ((program.run settings).trace.toList.take index) step := by
  obtain ⟨before, boundary, pending, later, within⟩ := inside
  have grown := boundary.turn_steps_isPrefix
  have ends := turn_end settings before
  -- In both cases the step is on the path of the job, which is part of the trace of the run.
  have onPath {event : Event} {entered reached : Machine}
      (dispatch : Dispatch before event entered) (path : Path settings entered reached)
      (kept : reached.steps <+: (program.run settings).trace.toList)
      (bound : index < reached.trace.size) :
      ∃ name, EventLoop.queueLaw [name] ((program.run settings).trace.toList.take index) step := by
    obtain ⟨name, rfl⟩ := dispatch.microtask_of_pending pending
    obtain ⟨found, same⟩ := position_of_prefix kept (by simpa using bound) position
    have law := path.queueLaw (dispatch.accounts boundary.accounts)
      (by rwa [dispatch.trace]) found
    rw [same] at law
    exact ⟨name, law⟩
  generalize turn (m := Simulation) settings before = outcome at grown ends within
  cases ends with
  | idle noMicrotask noTask => exact (pending noMicrotask).elim
  | finished node dispatch path stack room =>
      refine onPath dispatch path (.trans ?_ grown) ?_
      · simp [Outcome.machine]
      · simpa [Machine.recorded] using within
  | halted dispatch stops =>
      obtain ⟨reached, path, full, shown⟩ := stops
      have same := Machine.steps_of_toRun shown
      refine onPath dispatch path (same ▸ grown) ?_
      have size := congrArg List.length same
      simp only [Machine.steps, Array.length_toList] at size
      dsimp only at within
      omega

def outsideLaw (program : Program) (settings : Settings) (steps : List Step) (step : Step) : Prop :=
  ¬program.InsideMicrotask settings steps.length → queueLaw [] steps step

theorem Boundary.obeys_outsideLaw {before entered reached : Machine} {event : Event}
    (boundary : Boundary program settings before) (dispatch : Dispatch before event entered)
    (path : Path settings entered reached)
    (inside : before.microtasks.microtasks ≠ [] → ∀ index, before.trace.size ≤ index →
      index < reached.trace.size → program.InsideMicrotask settings index)
    (obeys : Obeys (outsideLaw program settings) before.steps) :
    Obeys (outsideLaw program settings) reached.steps := by
  intro index step position
  have bound : index < reached.trace.size := by
    simpa using (List.getElem?_eq_some_iff.mp position).1
  by_cases early : index < before.trace.size
  next =>
    have grown := path.steps_isPrefix
    rw [dispatch.steps] at grown
    obtain ⟨found, same⟩ := position_of_prefix grown (by simpa using early) position
    rw [← same]
    exact obeys index step found
  next =>
    intro outside
    rw [List.length_take, Array.length_toList, Nat.min_eq_left (Nat.le_of_lt bound)] at outside
    have accounts := dispatch.accounts boundary.accounts
    -- A step of this turn outside a microtask belongs to a task, during which no microtask runs.
    have drained : before.microtasks.microtasks = [] := by
      by_contra pending
      exact outside (inside pending index (by omega) bound)
    cases dispatch with
    | microtask next => simp [next] at drained
    | task _ next => exact path.queueLaw accounts (Nat.not_lt.mp early) position

theorem Program.started_obeys_outsideLaw {reached : Machine}
    (path : Path settings .started reached) :
    Obeys (outsideLaw program settings) reached.steps := by
  refine path.obeys Move.accounts ?_ Machine.started_accounts ?_
  next => exact fun node accounts change _ => change.queueLaw node accounts
  next => exact (obeys_concat _ [] _).mpr ⟨obeys_nil _, fun _ => rfl⟩

theorem Boundary.steps_obey_outsideLaw (boundary : Boundary program settings machine) :
    Obeys (outsideLaw program settings) machine.steps := by
  induction boundary with
  | program ran =>
      obtain ⟨-, path, -⟩ := Program.prologue_done ran
      exact Program.started_obeys_outsideLaw path
  | @turn before after boundary ran ih =>
      obtain ⟨event, entered, last, node, dispatch, path, -, -, rfl⟩ := turn_finished ran
      have accounts := path.keeps Move.accounts (dispatch.accounts boundary.accounts)
      rw [Machine.steps_recorded, obeys_concat]
      refine ⟨boundary.obeys_outsideLaw dispatch path ?_ ih, fun _ =>
        accounts.finish node dispatch.enqueues_nothing⟩
      intro pending index later bound
      refine ⟨before, boundary, pending, later, ?_⟩
      rw [ran]
      simpa [Machine.recorded] using bound

theorem Program.run_obeys_outsideLaw (program : Program) (settings : Settings) :
    Obeys (outsideLaw program settings) (program.run settings).trace.toList := by
  have ends := program.run_end settings
  generalize program.run settings = run at ends ⊢
  cases ends with
  | unstarted noSteps => exact obeys_nil _
  | program steps path full => exact Program.started_obeys_outsideLaw path
  | @turn before entered reached after event boundary dispatch path full halts shown =>
      refine boundary.obeys_outsideLaw dispatch path ?_ boundary.steps_obey_outsideLaw
      intro pending index later bound
      refine ⟨before, boundary, pending, later, ?_⟩
      have size := congrArg (fun run : Run => run.trace.size) shown
      rw [halts]
      exact Nat.lt_of_lt_of_eq bound size.symm
  | completed boundary noMicrotask noTask => exact boundary.steps_obey_outsideLaw

theorem Machine.Accounts.ranNames_isPrefix (accounts : machine.Accounts running) :
    ranNames machine.steps <+: enqueuedNames machine.steps := by
  unfold Machine.Accounts at accounts
  rw [← accounts, List.append_assoc]
  exact List.prefix_append _ _

theorem Program.run_ranNames_isPrefix (program : Program) (settings : Settings) :
    ranNames (program.run settings).trace.toList <+:
      enqueuedNames (program.run settings).trace.toList := by
  have ends := program.run_end settings
  generalize program.run settings = run at ends ⊢
  cases ends with
  | unstarted noSteps => exact List.prefix_rfl
  | program steps path full =>
      exact (path.keeps Move.accounts Machine.started_accounts).ranNames_isPrefix
  | turn boundary dispatch path full halts shown =>
      exact (path.keeps Move.accounts (dispatch.accounts boundary.accounts)).ranNames_isPrefix
  | completed boundary noMicrotask noTask => exact boundary.accounts.ranNames_isPrefix

theorem Program.run_ranNames_eq
    (completed : (program.run settings).truncated = false) :
    ranNames (program.run settings).trace.toList =
      enqueuedNames (program.run settings).trace.toList := by
  obtain ⟨after, boundary, noMicrotask, -, ran⟩ := Program.run_completed completed
  have all : ranNames after.steps = enqueuedNames after.steps := by
    simpa [Machine.Accounts, MicrotaskQueue.names, noMicrotask] using boundary.accounts
  rw [ran]
  exact all

def Run.WithinMicrotask (run : Run) (index : Nat) : Prop :=
  ∃ ending step name first, run.trace[ending]? = some step ∧
    step.event = .microtaskRun name first ∧ first ≤ index ∧ index < ending

theorem Run.WithinMicrotask.inside {index : Nat}
    (within : (program.run settings).WithinMicrotask index) :
    program.InsideMicrotask settings index := by
  obtain ⟨ending, step, name, first, position, event, started, earlier⟩ := within
  -- A step that ends a microtask ends a turn, which started at the first step of the microtask.
  have obeys : Obeys (fun steps step => ∀ name first, step.event = .microtaskRun name first →
      ∃ before after, Boundary program settings before ∧ before.microtasks.microtasks ≠ [] ∧
        before.trace.size = first ∧ turn (m := Simulation) settings before = .done true after ∧
        after.trace.size = steps.length + 1) (program.run settings).trace.toList := by
    refine program.run_obeys settings ?_ ?_ ?_
    next =>
      intro name first event
      cases event
    next =>
      intro machine changed event node shown change name first ended
      cases change <;> cases ended
    next =>
      intro before entered ran event node boundary dispatch path shown empty finished name first
        ended
      refine ⟨before, ran.recorded event node, boundary, ?_, ?_, finished, ?_⟩
      · cases dispatch with
        | microtask next => simp [next]
        | task drained next => cases ended
      · cases dispatch with
        | microtask next =>
            obtain ⟨-, same⟩ : _ ∧ before.trace.size = first := by
              simpa [Machine.snapshot] using ended
            exact same
        | task drained next => cases ended
      · simp [Machine.recorded]
  rw [← Array.getElem?_toList] at position
  obtain ⟨before, after, boundary, pending, same, finished, size⟩ :=
    obeys ending step position name first event
  have bound := (List.getElem?_eq_some_iff.mp position).1
  rw [List.length_take, Nat.min_eq_left (Nat.le_of_lt bound)] at size
  refine ⟨before, boundary, pending, by omega, ?_⟩
  rw [finished]
  dsimp only
  omega

theorem Program.InsideMicrotask.within {index : Nat}
    (inside : program.InsideMicrotask settings index)
    (completed : (program.run settings).truncated = false) :
    (program.run settings).WithinMicrotask index := by
  obtain ⟨before, boundary, pending, later, bound⟩ := inside
  have grown := boundary.turn_steps_isPrefix
  have ends := turn_end settings before
  cases result : turn (m := Simulation) settings before with
  | halted after =>
      -- The run halts with the turn, so it is not complete.
      have halted : program.run settings = (Outcome.halted after).toRun := by
        rw [Program.run, boundary.simulate_eq (settings.maxSteps - before.trace.size + 1)
          (by omega)]
        simp [turns, Simulation.bind_apply, result]
      rw [halted] at completed
      cases completed
  | done more after =>
      rw [result] at grown ends bound
      cases ends with
      | idle noMicrotask noTask => exact (pending noMicrotask).elim
      | @finished event entered ran node dispatch path stack room =>
          obtain ⟨name, rfl⟩ := dispatch.microtask_of_pending pending
          let ended : Step := ran.snapshot (.microtaskRun name before.trace.size) node
          have last : (ran.recorded (.microtaskRun name before.trace.size) node).steps[
              ran.trace.size]? = some ended := by
            simp [Machine.recorded, Machine.steps, ended]
          obtain ⟨size, found⟩ := List.getElem?_eq_some_iff.mp last
          refine ⟨ran.trace.size, ended, name, before.trace.size, ?_, rfl, later, ?_⟩
          · rw [← Array.getElem?_toList, List.prefix_iff_getElem?.mp grown _ size]
            exact congrArg some found
          · simpa [Machine.recorded] using bound

/-- Microtasks run in the order in which they were queued, and none is lost: the names of those that
ran are a prefix of the names of those that were queued, and all of them when the run completes. The
queue of each step is the list of the names queued so far without those of the microtasks that are
over and, inside a microtask, without its own. -/
theorem Program.run_microtasks_fifo (program : Program) (settings : Settings) :
    let run := program.run settings
    let names (index : Nat) : List String := enqueuedNames (run.trace.toList.take (index + 1))
    let ended (index : Nat) : Nat := (ranNames (run.trace.toList.take (index + 1))).length
    ranNames run.trace.toList <+: enqueuedNames run.trace.toList ∧
    (run.truncated = false → ranNames run.trace.toList = enqueuedNames run.trace.toList) ∧
    (∀ index step, run.trace[index]? = some step →
      (program.InsideMicrotask settings index →
        step.microtasks = (names index).drop (ended index + 1)) ∧
      (¬program.InsideMicrotask settings index →
        step.microtasks = (names index).drop (ended index))) ∧
    ∀ index, (run.WithinMicrotask index → program.InsideMicrotask settings index) ∧
      (run.truncated = false → program.InsideMicrotask settings index →
        run.WithinMicrotask index) := by
  intro run names ended
  refine ⟨program.run_ranNames_isPrefix settings, Program.run_ranNames_eq, ?_, ?_⟩
  next =>
    intro index step position
    rw [← Array.getElem?_toList] at position
    have bound := (List.getElem?_eq_some_iff.mp position).1
    have upTo : run.trace.toList.take (index + 1) = run.trace.toList.take index ++ [step] := by
      rw [List.take_add_one, position, Option.toList_some]
    simp only [names, ended, upTo]
    constructor
    next =>
      intro inside
      obtain ⟨name, law⟩ := inside.queueLaw position
      exact law.microtasks_eq_drop
    next =>
      intro outside
      refine queueLaw.microtasks_eq_drop
        (program.run_obeys_outsideLaw settings index step position ?_)
      rwa [List.length_take, Nat.min_eq_left (Nat.le_of_lt bound)]
  next => exact fun index => ⟨fun within => within.inside, fun completed inside =>
    inside.within completed⟩

end EventLoop
