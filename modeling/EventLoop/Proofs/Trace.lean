import EventLoop.Proofs.Turns

set_option autoImplicit false

/-!
# Laws of traces

A law says what a step may be after the steps before it. The trace only grows at its end, so that a
law holds of a run once it holds of every step at the time when it is recorded.
-/

namespace EventLoop

open Simulation

def Obeys (law : List Step → Step → Prop) (steps : List Step) : Prop :=
  ∀ index step, steps[index]? = some step → law (steps.take index) step

@[simp]
theorem obeys_nil (law : List Step → Step → Prop) : Obeys law [] := by
  simp [Obeys]

@[simp]
theorem obeys_concat (law : List Step → Step → Prop) (steps : List Step) (step : Step) :
    Obeys law (steps ++ [step]) ↔ Obeys law steps ∧ law steps step := by
  constructor
  next =>
    intro obeys
    constructor
    next =>
      intro index earlier found
      have within : index < steps.length := (List.getElem?_eq_some_iff.mp found).1
      have holds := obeys index earlier (by rw [List.getElem?_append_left within, found])
      rwa [List.take_append_of_le_length (Nat.le_of_lt within)] at holds
    next =>
      have holds := obeys steps.length step (by simp)
      rwa [List.take_left] at holds
  next =>
    rintro ⟨obeys, last⟩ index found position
    -- The step is an earlier one, with the same steps before it, or the new one.
    obtain within | rfl | beyond := Nat.lt_trichotomy index steps.length
    next =>
      rw [List.getElem?_append_left within] at position
      rw [List.take_append_of_le_length (Nat.le_of_lt within)]
      exact obeys index found position
    next =>
      obtain rfl : step = found := by simpa using position
      rwa [List.take_left]
    next =>
      have bound := (List.getElem?_eq_some_iff.mp position).1
      simp only [List.length_append, List.length_singleton] at bound
      omega

namespace Machine

abbrev steps (machine : Machine) : List Step := machine.trace.toList

@[simp]
theorem steps_recorded (machine : Machine) (event : Event) (node : Option NodeRef) :
    (machine.recorded event node).steps = machine.steps ++ [machine.snapshot event node] := by
  simp [steps, recorded]

theorem steps_of_toRun {after reached : Machine} (shown : after.toRun true = reached.toRun true) :
    after.steps = reached.steps :=
  congrArg (fun run : Run => run.trace.toList) shown

def Synced (machine : Machine) : Prop :=
  ∃ event node, machine.steps.getLast? = some (machine.snapshot event node)

theorem synced_recorded (machine : Machine) (event : Event) (node : Option NodeRef) :
    (machine.recorded event node).Synced := by
  refine ⟨event, node, ?_⟩
  rw [steps_recorded, List.getLast?_concat]
  rfl

-- The last step shows the stack as it is. Unlike the queues, the stack is the same before and after
-- an entry is taken out of its queue.
def ShowsStack (machine : Machine) : Prop :=
  ∃ last, machine.steps.getLast? = some last ∧ last.stack = machine.stack

theorem ShowsStack.steps_ne_nil {machine : Machine} (shown : machine.ShowsStack) :
    machine.steps ≠ [] := by
  obtain ⟨last, found, -⟩ := shown
  intro empty
  simp [empty] at found

theorem Synced.showsStack {machine : Machine} (synced : machine.Synced) : machine.ShowsStack := by
  obtain ⟨event, node, last⟩ := synced
  exact ⟨_, last, rfl⟩

end Machine

theorem Change.steps {machine changed : Machine} {event : Event}
    (change : Change machine event changed) : changed.steps = machine.steps := by
  cases change <;> rfl

theorem Dispatch.steps {before entered : Machine} {event : Event}
    (dispatch : Dispatch before event entered) : entered.steps = before.steps :=
  congrArg Array.toList dispatch.trace

theorem Dispatch.showsStack {before entered : Machine} {event : Event}
    (dispatch : Dispatch before event entered) (shown : before.ShowsStack) :
    entered.ShowsStack := by
  cases dispatch <;> exact shown

theorem Dispatch.stack {before entered : Machine} {event : Event}
    (dispatch : Dispatch before event entered) : entered.stack = before.stack := by
  cases dispatch <;> rfl

section Paths

variable {settings : Settings} {machine reached : Machine}

theorem Move.steps_cases {after : Machine} (move : Move settings machine after) :
    (after.steps = machine.steps ∧
      ∀ event node, after.snapshot event node = machine.snapshot event node) ∨
    ∃ event node changed, Change machine event changed ∧ after = changed.recorded event node ∧
      after.steps = machine.steps ++ [changed.snapshot event node] := by
  cases move with
  | @change changed event node change room =>
      refine .inr ⟨event, node, changed, change, rfl, ?_⟩
      rw [Machine.steps_recorded, change.steps]
  | _ => exact .inl ⟨rfl, fun _ _ => rfl⟩

theorem Path.steps_isPrefix (path : Path settings machine reached) :
    machine.steps <+: reached.steps := by
  induction path with
  | refl => exact List.prefix_rfl
  | tail _ move ih =>
      obtain ⟨same, -⟩ | ⟨event, node, changed, -, -, grown⟩ := move.steps_cases
      next => rwa [same]
      next =>
        rw [grown]
        exact ih.trans (List.prefix_append _ _)

theorem Move.synced {after : Machine} (move : Move settings machine after)
    (synced : machine.Synced) : after.Synced := by
  obtain ⟨same, shown⟩ | ⟨event, node, changed, -, rfl, -⟩ := move.steps_cases
  next =>
    obtain ⟨event, node, last⟩ := synced
    exact ⟨event, node, by rw [same, shown, last]⟩
  next => exact changed.synced_recorded event node

theorem Move.showsStack {after : Machine} (move : Move settings machine after)
    (shown : machine.ShowsStack) : after.ShowsStack := by
  cases move with
  | @change changed event node change room =>
      exact (changed.synced_recorded event node).showsStack
  | _ => exact shown

theorem Path.obeys {law : List Step → Step → Prop} {Inv : Machine → Prop}
    (move : ∀ {machine after : Machine}, Move settings machine after → Inv machine → Inv after)
    (inner : ∀ {machine changed : Machine} {event : Event} (node : Option NodeRef),
      Inv machine → Change machine event changed →
        law machine.steps (changed.snapshot event node))
    (path : Path settings machine reached) (holds : Inv machine)
    (obeys : Obeys law machine.steps) : Obeys law reached.steps := by
  induction path with
  | refl => exact obeys
  | tail before last ih =>
      obtain ⟨same, -⟩ | ⟨event, node, changed, change, -, grown⟩ := last.steps_cases
      next => rwa [same]
      next =>
        -- The invariant holds of the machine that changes, which is the end of a shorter path.
        rw [grown, obeys_concat]
        exact ⟨ih, inner node (Path.keeps move before holds) change⟩

end Paths

section Boundaries

variable {program : Program} {settings : Settings} {machine : Machine}

theorem Program.prologue_done {after : Machine}
    (ran : program.prologue (m := Simulation) settings .initial = .done () after) :
    0 < settings.maxSteps ∧ Path settings .started after ∧ after.stack = [] := by
  obtain noSteps | steps := Nat.eq_zero_or_pos settings.maxSteps
  next =>
    rw [program.prologue_unstarted noSteps] at ran
    cases ran
  next =>
    have follows := program.prologue_follows steps
    rw [ran] at follows
    exact ⟨steps, follows.1, follows.2⟩

theorem Boundary.synced (boundary : Boundary program settings machine) : machine.Synced := by
  induction boundary with
  | program ran =>
      obtain ⟨-, path, -⟩ := Program.prologue_done ran
      exact path.keeps Move.synced (Machine.initial.synced_recorded .start none)
  | turn _ ran _ =>
      obtain ⟨event, entered, last, node, -, -, -, -, rfl⟩ := turn_finished ran
      exact last.synced_recorded event node

theorem Boundary.stack_eq_nil (boundary : Boundary program settings machine) :
    machine.stack = [] := by
  induction boundary with
  | program ran => exact (Program.prologue_done ran).2.2
  | turn _ ran ih =>
      obtain ⟨event, entered, last, node, dispatch, -, stack, -, rfl⟩ := turn_finished ran
      exact stack.trans (dispatch.stack.trans ih)

-- A law holds of the whole trace if it holds of the first step, of every change that evaluation
-- makes, and of the step that ends a turn. The invariant is what moves keep within a turn.
theorem Program.run_obeys_of (program : Program) (settings : Settings)
    {law : List Step → Step → Prop} {Inv : Machine → Prop}
    (start : law [] (Machine.initial.snapshot .start none)) (started : Inv .started)
    (taken : ∀ {before entered : Machine} {event : Event}, Boundary program settings before →
      Dispatch before event entered → Inv entered)
    (move : ∀ {machine after : Machine}, Move settings machine after → Inv machine → Inv after)
    (inner : ∀ {machine changed : Machine} {event : Event} (node : Option NodeRef),
      Inv machine → Change machine event changed → law machine.steps (changed.snapshot event node))
    (outer : ∀ {before entered ran : Machine} {event : Event} (node : Option NodeRef),
      Boundary program settings before → Dispatch before event entered →
        Path settings entered ran → Inv ran → ran.stack = [] →
        turn (m := Simulation) settings before = .done true (ran.recorded event node) →
        law ran.steps (ran.snapshot event node)) :
    Obeys law (program.run settings).trace.toList := by
  have startedObeys : Obeys law Machine.started.steps :=
    (obeys_concat law [] _).mpr ⟨obeys_nil law, start⟩
  -- A turn that the step limit cuts off has no last step, so the path and its end are apart.
  have turnObeys {before entered reached : Machine} {event : Event}
      (boundary : Boundary program settings before) (obeys : Obeys law before.steps)
      (dispatch : Dispatch before event entered) (path : Path settings entered reached) :
      Obeys law reached.steps ∧ Inv reached := by
    have holds := taken boundary dispatch
    exact ⟨path.obeys move inner holds (by rwa [dispatch.steps]), path.keeps move holds⟩
  have boundaryObeys {machine : Machine} (boundary : Boundary program settings machine) :
      Obeys law machine.steps := by
    induction boundary with
    | program ran =>
        obtain ⟨-, path, -⟩ := Program.prologue_done ran
        exact path.obeys move inner started startedObeys
    | turn boundary ran ih =>
        obtain ⟨event, entered, last, node, dispatch, path, stack, -, rfl⟩ := turn_finished ran
        obtain ⟨obeys, holds⟩ := turnObeys boundary ih dispatch path
        have empty : last.stack = [] := by
          rw [stack, dispatch.stack, boundary.stack_eq_nil]
        rw [Machine.steps_recorded, obeys_concat]
        exact ⟨obeys, outer node boundary dispatch path holds empty ran⟩
  have ends := program.run_end settings
  generalize program.run settings = run at ends ⊢
  cases ends with
  | unstarted noSteps => exact obeys_nil law
  | program steps path full => exact path.obeys move inner started startedObeys
  | turn boundary dispatch path full halts shown =>
      exact (turnObeys boundary (boundaryObeys boundary) dispatch path).1
  | completed boundary noMicrotask noTask => exact boundaryObeys boundary

theorem Program.run_obeys (program : Program) (settings : Settings)
    {law : List Step → Step → Prop} (start : law [] (Machine.initial.snapshot .start none))
    (inner : ∀ {machine changed : Machine} {event : Event} (node : Option NodeRef),
      machine.ShowsStack → Change machine event changed →
        law machine.steps (changed.snapshot event node))
    (outer : ∀ {before entered ran : Machine} {event : Event} (node : Option NodeRef),
      Boundary program settings before → Dispatch before event entered →
        Path settings entered ran → ran.ShowsStack → ran.stack = [] →
        turn (m := Simulation) settings before = .done true (ran.recorded event node) →
        law ran.steps (ran.snapshot event node)) :
    Obeys law (program.run settings).trace.toList :=
  program.run_obeys_of settings start (Machine.initial.synced_recorded .start none).showsStack
    (fun boundary dispatch => dispatch.showsStack boundary.synced.showsStack) Move.showsStack
    inner outer

theorem Program.run_trace_ne_nil (program : Program) (settings : Settings)
    (steps : 0 < settings.maxSteps) : (program.run settings).trace.toList ≠ [] := by
  have ends := program.run_end settings
  generalize program.run settings = run at ends ⊢
  cases ends with
  | unstarted noSteps => omega
  | program steps path full =>
      have started := (Machine.initial.synced_recorded .start none).showsStack
      exact (path.keeps Move.showsStack started).steps_ne_nil
  | turn boundary dispatch path full halts shown =>
      have entered := dispatch.showsStack boundary.synced.showsStack
      exact (path.keeps Move.showsStack entered).steps_ne_nil
  | completed boundary noMicrotask noTask => exact boundary.synced.showsStack.steps_ne_nil

theorem Program.run_trace_size_pos (program : Program) {settings : Settings}
    (steps : 0 < settings.maxSteps) : 0 < (program.run settings).trace.size := by
  simpa using List.length_pos_iff.mpr (program.run_trace_ne_nil settings steps)

theorem Run.getElem?_take (run : Run) {index last : Nat} (early : index < last) :
    (run.trace.toList.take last)[index]? = run.trace[index]? := by
  rw [List.getElem?_take_of_lt early, Array.getElem?_toList]

theorem turn_steps_isPrefix (settings : Settings) (before : Machine) :
    before.steps <+: (turn (m := Simulation) settings before).machine.steps := by
  have ends := turn_end settings before
  generalize turn (m := Simulation) settings before = outcome at ends ⊢
  cases ends with
  | idle noMicrotask noTask => exact List.prefix_rfl
  | finished node dispatch path stack room =>
      have grown := path.steps_isPrefix
      rw [dispatch.steps] at grown
      exact grown.trans (by simp [Outcome.machine])
  | halted dispatch stops =>
      obtain ⟨reached, path, full, shown⟩ := stops
      have grown := path.steps_isPrefix
      rw [dispatch.steps] at grown
      have same := Machine.steps_of_toRun shown
      simp only [Outcome.machine]
      rwa [same]

theorem turns_steps_isPrefix (settings : Settings) (count : Nat) (before : Machine) :
    before.steps <+: (turns (m := Simulation) count settings before).machine.steps := by
  induction count generalizing before with
  | zero => exact List.prefix_rfl
  | succ count ih =>
      have grown := turn_steps_isPrefix settings before
      simp only [turns, bind_apply]
      cases result : turn (m := Simulation) settings before with
      | halted after =>
          rw [result] at grown
          exact grown
      | done more after =>
          rw [result] at grown
          cases more with
          | false => exact grown
          | true => exact grown.trans (ih after)

theorem Program.run_steps (program : Program) (settings : Settings) :
    (program.run settings).trace.toList = (program.simulate (m := Simulation) settings
      .initial).machine.steps := by
  unfold Program.run
  cases program.simulate (m := Simulation) settings .initial <;> rfl

theorem Boundary.turn_steps_isPrefix (boundary : Boundary program settings machine) :
    (EventLoop.turn (m := Simulation) settings machine).machine.steps <+:
    (program.run settings).trace.toList := by
  have rest := boundary.simulate_eq (settings.maxSteps - machine.trace.size + 1) (by omega)
  rw [program.run_steps, rest]
  simp only [turns, bind_apply]
  cases result : EventLoop.turn (m := Simulation) settings machine with
  | halted after => exact List.prefix_rfl
  | done more after =>
      cases more with
      | false => exact List.prefix_rfl
      | true => exact turns_steps_isPrefix settings _ after

end Boundaries

end EventLoop
