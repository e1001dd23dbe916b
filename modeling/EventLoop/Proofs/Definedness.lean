import EventLoop.Proofs.Agreement
import EventLoop.Proofs.Trace

set_option autoImplicit false

/-!
# Every run is defined

With fuel that the settings alone determine, strict evaluation has a result for every program, and
it is the run of the program.
-/

namespace EventLoop

open Simulation

section Runs

variable {guard : Guard} {settings : Settings}
variable (watched : ∀ machine : Machine, machine.WellFormed → guard.watch machine = true)
variable (enough : settings.maxCallDepth < guard.fuel)

include watched enough

theorem Agrees.loop {machine : Machine} (wellFormed : machine.WellFormed)
    (idle : machine.stack = [])
    {count more : Nat} (room : settings.maxSteps - machine.trace.size < count)
    (covers : count ≤ more) :
    AgreesAt guard settings machine machine.extent [] (fun _ _ => True) (turns count)
      (Strict.loop more) := by
  -- Every turn records a step, so the loop ends before the turns are used up.
  induction count generalizing machine more with
  | zero => omega
  | succ count ih =>
      obtain ⟨more, rfl⟩ := Nat.exists_eq_add_one.mpr (Nat.zero_lt_of_lt covers)
      have frames : machine.stack.length + settings.maxCallDepth = settings.maxCallDepth := by
        simp [idle]
      have taken := (Agrees.loopCalculus watched enough).turn machine wellFormed rfl frames
      rw [idle] at taken
      refine taken.bind fun again after ran wellFormed _ idle _ => ?_
      cases again with
      | false => exact ⟨rfl, .done wellFormed (le_refl _) idle trivial⟩
      | true =>
          have grown := turn_trace_size ran
          exact ih wellFormed idle (by omega) (by omega)

theorem Agrees.runQueues (covers : settings.maxSteps < guard.fuel) {world : Extent} :
    Agrees guard settings settings.maxCallDepth world (fun _ _ => True) runQueues
      (Strict.loop guard.fuel) := by
  rintro machine wellFormed rfl frames
  have idle : machine.stack = [] := List.eq_nil_of_length_eq_zero (by omega)
  have room := Nat.lt_succ_self (settings.maxSteps - machine.trace.size)
  rw [idle]
  exact Agrees.loop watched enough wellFormed idle room (by omega)

theorem Program.prologue_agrees (program : Program) :
    Agrees guard settings settings.maxCallDepth Machine.initial.extent (fun _ _ => True)
      program.prologue program.prologue := by
  refine (Agrees.record watched .start none).bind fun later _ grown _ machine => ?_
  have known : Scopes.global < later.scopes := Nat.lt_of_lt_of_le (by decide) grown.1
  have body : Agrees guard settings settings.maxCallDepth later _ _ _ :=
    (Agrees.callCalculus watched).execBody (Agrees.call watched enough) known program.body
      fun _ _ => trivial
  exact body.bind (fun _ _ _ _ => Agrees.pure trivial) machine

theorem Program.interpret_agrees (program : Program) (covers : settings.maxSteps < guard.fuel) :
    AgreesAt guard settings .initial Machine.initial.extent [] (fun _ _ => True) program.simulate
      program.interpret := by
  have agrees : Agrees guard settings settings.maxCallDepth Machine.initial.extent
      (fun _ _ => True) program.simulate (do
        Strict.require guard.watch
        program.prologue
        Strict.loop guard.fuel) := by
    refine Agrees.require (fun machine wellFormed _ => watched machine wellFormed) ?_
    exact (program.prologue_agrees watched enough).bind
      fun _ _ _ _ => Agrees.runQueues watched enough covers
  exact agrees .initial Machine.initial_wellFormed rfl (Nat.zero_add _)

omit watched enough in
theorem Boundary.wellFormed {program : Program} {machine : Machine}
    (boundary : Boundary program settings machine) : machine.WellFormed := by
  let guard : Guard := ⟨fun _ => true, settings.maxCallDepth + 1⟩
  have unwatched (machine : Machine) (_ : machine.WellFormed) : guard.watch machine = true := rfl
  have enough : settings.maxCallDepth < guard.fuel := Nat.lt_succ_self _
  have ends {α : Type} {before after : Machine} {value : α} {sim : Simulation α}
      {Post : Extent → α → Prop} {strict : Strict α} {world : Extent} {stack : List String}
      (agrees : AgreesAt guard settings before world stack Post sim strict)
      (ran : sim settings before = .done value after) : after.WellFormed := by
    have wellFormed := agrees.2.wellFormed
    rw [ran] at wellFormed
    exact wellFormed
  induction boundary with
  | program ran =>
      exact ends (program.prologue_agrees unwatched enough .initial Machine.initial_wellFormed rfl
        (Nat.zero_add _)) ran
  | @turn before after boundary ran ih =>
      have frames : before.stack.length + settings.maxCallDepth = settings.maxCallDepth := by
        simp [boundary.stack_eq_nil]
      exact ends ((Agrees.loopCalculus unwatched enough).turn before ih rfl frames) ran

end Runs

theorem Settings.lt_fuel_add (settings : Settings) (more : Nat) :
    settings.maxCallDepth < settings.fuel + more ∧ settings.maxSteps < settings.fuel + more := by
  unfold Settings.fuel
  omega

theorem Program.strictRun_eq {watch : Machine → Bool}
    (watched : ∀ machine : Machine, machine.WellFormed → watch machine = true) (program : Program)
    (settings : Settings) (more : Nat) :
    program.strictRun watch (settings.fuel + more) settings = some (program.run settings) := by
  let guard : Guard := ⟨watch, settings.fuel + more⟩
  have watches (machine : Machine) (wellFormed : machine.WellFormed) :
      guard.watch machine = true := watched machine wellFormed
  obtain ⟨enough, covers⟩ := settings.lt_fuel_add more
  obtain ⟨ran, -⟩ := program.interpret_agrees watches enough covers
  unfold Program.strictRun Program.run
  rw [ran]
  rfl

/-- Every run comes to an end: evaluation with no other bound on calls than the frames on the stack,
and none on turns, scopes or promises, never uses up the fuel that the settings determine, and what
it gives is the run, with any more fuel as well. -/
theorem Program.run_terminates (program : Program) (settings : Settings) (more : Nat) :
    program.strictRun (fun _ => true) (settings.fuel + more) settings =
      some (program.run settings) :=
  Program.strictRun_eq (fun _ _ => rfl) program settings more

open Classical in
/-- Every machine that a run passes is well-formed: a watch that stops at any other one, after every
single change, never does. Nor does strict evaluation ever miss a scope or a promise, or call what
cannot be called. -/
theorem Program.run_stays_wellFormed (program : Program) (settings : Settings) :
    program.strictRun (fun machine => decide machine.WellFormed) settings.fuel settings =
      some (program.run settings) ∧
    (program.simulate (m := Simulation) settings .initial).machine.WellFormed ∧
    ∀ machine, Boundary program settings machine → machine.WellFormed := by
  have watched (machine : Machine) (wellFormed : machine.WellFormed) :
      decide machine.WellFormed = true := decide_eq_true wellFormed
  let guard : Guard := ⟨fun machine => decide machine.WellFormed, settings.fuel⟩
  have watches (machine : Machine) (wellFormed : machine.WellFormed) :
      guard.watch machine = true := watched machine wellFormed
  obtain ⟨enough, covers⟩ := settings.lt_fuel_add 0
  have agrees := program.interpret_agrees watches enough covers
  exact ⟨Program.strictRun_eq watched program settings 0, agrees.2.wellFormed,
    fun machine boundary => boundary.wellFormed⟩

example (program : Program) (fuel : Nat) (settings : Settings) :
    program.strictRun (fun _ => false) fuel settings = none := rfl

end EventLoop
