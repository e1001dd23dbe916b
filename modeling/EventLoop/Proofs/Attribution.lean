import EventLoop.Proofs.Observation
import EventLoop.Proofs.Truncation
import EventLoop.Session

set_option autoImplicit false

/-!
# Attribution of lines and diagnostics

Observed runs are runs, and their notes agree with what the steps show. So the step that a line or a
diagnostic belongs to shows the stack as it was when it was produced.
-/

namespace EventLoop

open Simulation

structure InOrder (indices : List Nat) (last : Nat) : Prop where
  pairwise : indices.Pairwise (· ≤ ·)
  bounded : ∀ index ∈ indices, index ≤ last

namespace InOrder

variable {indices : List Nat} {last later : Nat}

theorem nil (last : Nat) : InOrder [] last := ⟨.nil, by simp⟩

theorem concat (ordered : InOrder indices last) : InOrder (indices ++ [last]) last := by
  refine ⟨List.pairwise_append.mpr ⟨ordered.pairwise, List.pairwise_singleton _ _, ?_⟩, ?_⟩
  · simpa using ordered.bounded
  · simpa [or_imp, forall_and] using ordered.bounded

theorem mono (ordered : InOrder indices last) (increases : last ≤ later) : InOrder indices later :=
  ⟨ordered.pairwise, fun index member => Nat.le_trans (ordered.bounded index member) increases⟩

end InOrder

structure Machine.Chronological (machine : Machine) : Prop where
  console : InOrder (machine.console.toList.map (·.step)) machine.lastStep
  diagnostics : InOrder (machine.diagnostics.toList.map (·.step)) machine.lastStep

theorem Machine.Chronological.recorded {machine : Machine} (ordered : machine.Chronological)
    (event : Event) (node : Option NodeRef) : (machine.recorded event node).Chronological := by
  have increases : machine.lastStep ≤ (machine.recorded event node).lastStep := by
    simp only [Machine.lastStep, Machine.recorded, Array.size_push]
    omega
  exact ⟨ordered.console.mono increases, ordered.diagnostics.mono increases⟩

theorem Move.chronological {settings : Settings} {machine after : Machine}
    (move : Move settings machine after) (ordered : machine.Chronological) :
    after.Chronological := by
  obtain ⟨console, diagnostics⟩ := ordered
  cases move with
  | internal scopes promises callables => exact ⟨console, diagnostics⟩
  | report problem span running =>
      refine ⟨console, ?_⟩
      simp only [Array.toList_push, List.map_append, List.map_singleton]
      exact diagnostics.concat
  | writeLine level text =>
      refine ⟨?_, diagnostics⟩
      simp only [Array.toList_push, List.map_append, List.map_singleton]
      exact console.concat
  | @change changed event node change room =>
      have same : changed.Chronological := by
        cases change <;> exact ⟨console, diagnostics⟩
      exact same.recorded event node

theorem Program.run_inOrder (program : Program) {settings : Settings}
    (steps : 0 < settings.maxSteps) :
    InOrder ((program.run settings).console.toList.map (·.step))
        ((program.run settings).trace.size - 1) ∧
      InOrder ((program.run settings).diagnostics.toList.map (·.step))
        ((program.run settings).trace.size - 1) := by
  have taken {before entered : Machine} {event : Event} (dispatch : Dispatch before event entered)
      (ordered : before.Chronological) : entered.Chronological := by
    obtain ⟨console, diagnostics⟩ := ordered
    cases dispatch <;> exact ⟨console, diagnostics⟩
  obtain ⟨last, ordered, -, ran⟩ | ⟨last, ordered, ran⟩ :=
    program.run_invariant ⟨.nil _, .nil _⟩ Move.chronological taken
      (fun event node _ ordered => ordered.recorded event node) steps
  next =>
    -- The step limit is reported last, at the last step.
    rw [ran]
    refine ⟨ordered.console, ?_⟩
    simp only [Outcome.toRun, Array.toList_push, List.map_append, List.map_singleton]
    exact ordered.diagnostics.concat
  next =>
    rw [ran]
    exact ⟨ordered.console, ordered.diagnostics⟩

theorem Program.problems_run (program : Program) (settings : Settings) :
    (program.run settings).problems =
      (program.simulate (m := Simulation) settings .initial).machine.diagnostics.toList := by
  have accounted := program.run_accounted settings
  unfold Program.run at accounted ⊢
  rw [Outcome.problems_toRun, List.filter_eq_self]
  cases ended : program.simulate (m := Simulation) settings .initial with
  | done value after =>
      rw [ended] at accounted
      exact fun diagnostic member => by simpa using accounted.completed rfl diagnostic member
  | halted after =>
      rw [ended] at accounted
      obtain ⟨others, last, running⟩ := (accounted.truncated rfl).2
      obtain ⟨-, rfl⟩ := Array.push_eq_push.mp last
      exact fun diagnostic member => by simpa using running diagnostic member

/-- The step shows the stack, and so does every session with the run that is moved there. -/
def Run.Displays (run : Run) (index : Nat) (stack : List String) : Prop :=
  ∃ step, run.trace[index]? = some step ∧ step.stack = stack ∧
    ∀ session : Session, session.run? = some run → (session.seek index).current? = some step

theorem ShowsAt.displays {run : Run} {stack : List String} {index : Nat}
    (shown : ShowsAt run.trace.toList stack index) : run.Displays index stack := by
  obtain ⟨step, position, same⟩ := shown
  rw [Array.getElem?_toList] at position
  refine ⟨step, position, same, ?_⟩
  intro session stored
  have within : index < run.trace.size := (Array.getElem?_eq_some_iff.mp position).1
  have place : min index (run.trace.size - 1) = index := by omega
  simp [Session.seek, Session.current?, stored, place, position]

/-- The lines of a run's console belong to steps of its trace, in order, and so do its diagnostics.
The step that a line or a diagnostic other than the step limit belongs to shows the stack as it was
at the moment when it was produced, as an observed run notes it. -/
theorem Program.run_attribution (program : Program) (settings : Settings)
    (valid : settings.validate = .ok ()) :
    let run := program.run settings
    let observed := program.observe settings .initial
    ((run.console.toList.map (·.step)).Pairwise (· ≤ ·) ∧
      ∀ line ∈ run.console.toList, line.step < run.trace.size) ∧
    ((run.diagnostics.toList.map (·.step)).Pairwise (· ≤ ·) ∧
      ∀ diagnostic ∈ run.diagnostics.toList, diagnostic.step < run.trace.size) ∧
    observed.1 = program.simulate (m := Simulation) settings .initial ∧
    List.Forall₂ (fun line stack => run.Displays line.step stack)
      run.console.toList observed.2.lines ∧
    List.Forall₂ (fun diagnostic stack => run.Displays diagnostic.step stack)
      run.problems observed.2.problems := by
  have steps := Settings.maxSteps_pos valid
  have nonempty := program.run_trace_size_pos steps
  obtain ⟨lines, problems⟩ := program.run_inOrder steps
  obtain ⟨same, fits⟩ := program.observe_sees steps
  have displays {stack : List String} {index : Nat}
      (shown : ShowsAt (program.simulate (m := Simulation) settings .initial).machine.steps stack
        index) :
      (program.run settings).Displays index stack := by
    rw [← program.run_steps] at shown
    exact shown.displays
  refine ⟨⟨lines.pairwise, fun line member => ?_⟩, ⟨problems.pairwise, fun diagnostic member => ?_⟩,
    same, ?_, ?_⟩
  next =>
    have bounded := lines.bounded line.step (List.mem_map_of_mem member)
    omega
  next =>
    have bounded := problems.bounded diagnostic.step (List.mem_map_of_mem member)
    omega
  next =>
    rw [Program.run, Outcome.toRun_console]
    exact fits.lines.imp fun _ _ shown => displays shown
  next =>
    rw [program.problems_run]
    exact fits.problems.imp fun _ _ shown => displays shown

def greeting : Program :=
  let log : Expr := .member (.identifier ⟨"console", default⟩) ⟨"log", default⟩ default
  let body : Statement := .expression (.call log [.literal (.string "hi") default] default) default
  let greet : FunctionNode :=
    ⟨.declaration, some ⟨"greet", default⟩, [], .block [body] default, default⟩
  let call : Statement := .expression (.call (.identifier ⟨"greet", default⟩) [] default) default
  ⟨[call, .function greet], default⟩

theorem greeting_attribution :
    ({} : Settings).validate = .ok () ∧
    (greeting.run {}).console.toList = [⟨.log, "hi", 1⟩] ∧
    (greeting.observe {} .initial).2.lines = [["greet"]] ∧
    (greeting.run {}).Displays 1 ["greet"] := by
  have console : (greeting.run {}).console.toList = [⟨.log, "hi", 1⟩] := by decide +kernel
  have noted : (greeting.observe {} .initial).2.lines = [["greet"]] := by decide +kernel
  have displays := (greeting.run_attribution {} rfl).2.2.2.1
  rw [console, noted] at displays
  cases displays with
  | cons display _ => exact ⟨rfl, console, noted, display⟩

end EventLoop
