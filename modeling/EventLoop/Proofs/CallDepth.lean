import EventLoop.Proofs.SingleActions
import EventLoop.Proofs.Trace

set_option autoImplicit false

/-!
# The call depth limit

A call takes one frame out of the room that its caller has left, so the stack never outgrows the
limit. Nothing but a refused call depends on the limit, and that leaves a diagnostic.
-/

namespace EventLoop

open Simulation

def Machine.Shallow (limit : Nat) (machine : Machine) : Prop :=
  ∀ step ∈ machine.steps, step.stack.length ≤ limit

theorem Machine.Shallow.recorded {limit : Nat} {machine : Machine}
    (shallow : machine.Shallow limit) (below : machine.stack.length ≤ limit) (event : Event)
    (node : Option NodeRef) : (machine.recorded event node).Shallow limit := by
  unfold Machine.Shallow
  rw [Machine.steps_recorded, List.forall_mem_append, List.forall_mem_singleton]
  exact ⟨shallow, by simpa [Machine.snapshot] using below⟩

def Outcome.Leaves {α : Type} (limit : Nat) (stack : List String) : Outcome α → Prop
  | .done _ after => after.Shallow limit ∧ after.stack = stack
  | .halted after => after.Shallow limit

theorem Outcome.Leaves.bind {α β : Type} {settings : Settings} {machine : Machine} {limit : Nat}
    {middle stack : List String} {first : Simulation α} {next : α → Simulation β}
    (firsts : (first settings machine).Leaves limit middle)
    (nexts : ∀ value after, first settings machine = .done value after → after.Shallow limit →
      after.stack = middle → (next value settings after).Leaves limit stack) :
    ((first >>= next) settings machine).Leaves limit stack := by
  rw [bind_apply]
  cases result : first settings machine with
  | halted after =>
      rw [result] at firsts
      exact firsts
  | done value after =>
      rw [result] at firsts
      exact nexts value after result firsts.1 firsts.2

def Fits (settings : Settings) (room : Nat) {α : Type} (sim : Simulation α) : Prop :=
  ∀ machine : Machine, machine.stack.length + room ≤ settings.maxCallDepth →
    machine.Shallow settings.maxCallDepth →
      (sim settings machine).Leaves settings.maxCallDepth machine.stack

namespace Fits

variable {settings : Settings} {room : Nat}

theorem record (event : Event) (node : Option NodeRef) :
    Fits settings room (record event node) := by
  intro machine below shallow
  by_cases full : settings.maxSteps ≤ machine.trace.size
  next =>
    simp only [Simulation.record, full, if_true]
    exact shallow
  next =>
    simp only [Simulation.record, full, if_false]
    exact ⟨shallow.recorded (by omega) event node, rfl⟩

theorem bind {α β : Type} {first : Simulation α} {next : α → Simulation β}
    (firsts : Fits settings room first)
    (nexts : ∀ value, Returns first value → Fits settings room (next value)) :
    Fits settings room (first >>= next) := by
  intro machine below shallow
  refine (firsts machine below shallow).bind fun value after result shallow stack => ?_
  have fits := nexts value ⟨_, _, _, result⟩ after (by rw [stack]; exact below) shallow
  rwa [stack] at fits

theorem stepwise (settings : Settings) (room : Nat) :
    Stepwise fun sim _ => Fits settings room sim where
  pure value := fun machine _ shallow => ⟨shallow, rfl⟩
  bind first next := Fits.bind first fun value returns => next value (.inl returns)
  action action := by
    intro machine _ shallow
    obtain ⟨value, after, result, continues⟩ := action.done settings machine
    have steps : after.steps = machine.steps := congrArg Array.toList continues.trace
    rw [result settings rfl]
    exact ⟨fun step member => shallow step (steps ▸ member), continues.stack⟩
  record := record

theorem withFrame {α : Type} (name : String) (node : Option NodeRef) {body : Simulation α}
    (fits : Fits settings room body) : Fits settings (room + 1) (withFrame name node body) := by
  intro machine below shallow
  have inner : (name :: machine.stack).length + room ≤ settings.maxCallDepth := by
    simp only [List.length_cons]
    omega
  have pushed : (pushFrame name settings machine).Leaves settings.maxCallDepth
      (name :: machine.stack) := ⟨shallow, rfl⟩
  refine pushed.bind fun _ entered _ shallow top => ?_
  rw [← top] at inner
  have notes : Fits settings room (Simulation.record (.push name) node) := record _ _
  refine (notes entered inner shallow).bind fun _ started _ shallow same => ?_
  rw [← same] at inner
  refine (fits started inner shallow).bind fun result ran _ shallow kept => ?_
  -- The body has put the stack back, so the frame on top is the one that was pushed.
  have whole : ran.stack = name :: machine.stack := by rw [kept, same, top]
  have popped : (popFrame settings ran).Leaves settings.maxCallDepth machine.stack := by
    refine ⟨shallow, ?_⟩
    simp only [whole, List.tail_cons]
  refine popped.bind fun _ left _ shallow stack => ?_
  rw [← stack]
  rw [← stack] at below
  exact ((record _ _ left below shallow).bind fun _ _ _ shallow same => ⟨shallow, same⟩)

theorem call (room : Nat) (callable : Callable) (arguments : List Value) :
    Fits settings room (callable.call room arguments) := by
  -- The body of a call may only call with one frame less of room, and with none left it is refused.
  induction room generalizing callable arguments with
  | zero =>
      intro machine below shallow
      exact (stepwise settings 0).respects.skip (.callDepthExceeded settings.maxCallDepth) _ rfl
        machine below shallow
  | succ room ih =>
      rw [Callable.call]
      let calls : FunctionCalls Simulation := Callable.call room
      exact withFrame _ _ ((stepwise settings room).respects.enter calls calls ih callable
        arguments)

theorem loopRespects (settings : Settings) :
    LoopRespects Returned fun sim _ => Fits settings settings.maxCallDepth sim :=
  (stepwise settings settings.maxCallDepth).loopRespects fun callable arguments machine =>
    call settings.maxCallDepth callable arguments machine

theorem prologue (program : Program) : Fits settings settings.maxCallDepth program.prologue := by
  have related := (loopRespects settings).toRespects
  let calls : FunctionCalls Simulation := Callable.call settings.maxCallDepth
  have body := related.program calls calls (call settings.maxCallDepth) program
  exact bind (record .start none) fun _ _ machine => body machine

end Fits

theorem Program.run_shallow (program : Program) (settings : Settings) :
    ∀ step ∈ (program.run settings).trace.toList, step.stack.length ≤ settings.maxCallDepth := by
  have fits : Fits settings settings.maxCallDepth
      (program.prologue >>= fun _ => turns (settings.maxSteps + 1)) :=
    (Fits.prologue program).bind fun _ _ => (Fits.loopRespects settings).turns _
  have ends := fits .initial (by simp [Machine.initial])
    (by simp [Machine.Shallow, Machine.initial])
  rw [← program.simulate_eq_turns (Nat.lt_succ_self _)] at ends
  rw [program.run_steps]
  cases result : program.simulate (m := Simulation) settings .initial with
  | done value after =>
      rw [result] at ends
      exact ends.1
  | halted after =>
      rw [result] at ends
      exact ends

def Machine.Refused (machine : Machine) : Prop :=
  ∃ diagnostic ∈ machine.diagnostics.toList, ∃ depth, diagnostic.problem = .callDepthExceeded depth

theorem Machine.Refused.mono {machine after : Machine} (refused : machine.Refused)
    (kept : machine.diagnostics.toList <+: after.diagnostics.toList) : after.Refused := by
  obtain ⟨diagnostic, member, reason⟩ := refused
  exact ⟨diagnostic, kept.subset member, reason⟩

-- A simulation under the settings, and one under a larger limit: they give the same unless the
-- first has a call refused.
structure Deepens (settings : Settings) (deeper : Nat) {α : Type} (sim sim' : Simulation α) :
    Prop where
  same (machine : Machine) : (sim settings machine).machine.Refused ∨
    sim' { settings with maxCallDepth := deeper } machine = sim settings machine
  refused {machine : Machine} : machine.Refused → (sim settings machine).machine.Refused

namespace Deepens

variable {settings : Settings} {deeper : Nat}

theorem bind {α β : Type} {first first' : Simulation α} {next next' : α → Simulation β}
    (firsts : Deepens settings deeper first first')
    (nexts : ∀ value, Returns first value → Deepens settings deeper (next value) (next' value)) :
    Deepens settings deeper (first >>= next) (first' >>= next') := by
  constructor
  next =>
    intro machine
    have same := firsts.same machine
    rw [bind_apply, bind_apply]
    cases result : first settings machine with
    | halted after =>
        rw [result] at same
        -- Once a call is refused nothing is claimed of the deeper run, but the refusal stays.
        obtain refused | same := same
        next => exact .inl refused
        next =>
          rw [same]
          exact .inr rfl
    | done value after =>
        have rest := nexts value ⟨_, _, _, result⟩
        rw [result] at same
        obtain refused | same := same
        next => exact .inl (rest.refused refused)
        next =>
          rw [same]
          exact rest.same after
  next =>
    intro machine refused
    have still := firsts.refused refused
    rw [bind_apply]
    cases result : first settings machine with
    | halted after =>
        rw [result] at still
        exact still
    | done value after =>
        rw [result] at still
        exact (nexts value ⟨_, _, _, result⟩).refused still

theorem of_same {α : Type} {sim : Simulation α}
    (same : ∀ machine, sim { settings with maxCallDepth := deeper } machine = sim settings machine)
    (kept : ∀ machine, machine.diagnostics.toList <+:
      (sim settings machine).machine.diagnostics.toList) :
    Deepens settings deeper sim sim :=
  ⟨fun machine => .inr (same machine), fun refused => refused.mono (kept _)⟩

theorem stepwise (settings : Settings) (deeper : Nat) :
    Stepwise fun sim sim' => Deepens settings deeper sim sim' where
  pure _ := of_same (fun _ => rfl) fun _ => List.prefix_rfl
  bind first next := first.bind fun value returns => next value (.inl returns)
  action action := by
    refine of_same (fun machine => ?_) fun machine => ?_
    next =>
      obtain ⟨value, after, result, -⟩ := action.done settings machine
      rw [result settings rfl, result { settings with maxCallDepth := deeper } rfl]
    next =>
      obtain ⟨value, after, result, continues⟩ := action.done settings machine
      rw [result settings rfl]
      exact continues.diagnostics
  record event node := by
    refine of_same (fun _ => rfl) fun machine => ?_
    unfold record
    split <;> exact List.prefix_rfl

theorem congruence (settings : Settings) (deeper : Nat) :
    Congruence Returned fun sim sim' => Deepens settings deeper sim sim' :=
  (stepwise settings deeper).congruence
    (fun _ => of_same (fun _ => rfl) fun _ => List.prefix_rfl)
    (of_same (fun _ => rfl) fun _ => List.prefix_rfl)

theorem call (settings : Settings) (deeper : Nat) {room room' : Nat} (ordered : room ≤ room')
    (callable : Callable) (arguments : List Value) :
    Deepens settings deeper (callable.call room arguments) (callable.call room' arguments) := by
  induction room generalizing room' callable arguments with
  | zero =>
      -- The refusal itself is what sets the two runs apart.
      have refuses (machine : Machine) :
          (callable.call (m := Simulation) 0 arguments settings machine).machine.Refused := by
        let reason : Diagnostic :=
          ⟨.callDepthExceeded settings.maxCallDepth, some callable.node.span, machine.lastStep⟩
        have pushed : (callable.call (m := Simulation) 0 arguments settings
          machine).machine.diagnostics =
            machine.diagnostics.push reason := rfl
        exact ⟨reason, by simp [pushed], _, rfl⟩
      exact ⟨fun machine => .inl (refuses machine), fun {machine} _ => refuses machine⟩
  | succ room ih =>
      obtain ⟨room', rfl⟩ := Nat.exists_eq_add_one.mpr (Nat.zero_lt_of_lt ordered)
      exact (congruence settings deeper).call_succ room room' (ih (by omega)) callable arguments

section Larger

variable (larger : settings.maxCallDepth ≤ deeper)

include larger

theorem loopRespects : LoopRespects Returned fun sim sim' => Deepens settings deeper sim sim' := by
  refine (stepwise settings deeper).loopRespects fun callable arguments => ?_
  have called := call settings deeper larger callable arguments
  exact ⟨fun machine => called.same machine, fun refused => called.refused refused⟩

theorem prologue (program : Program) :
    Deepens settings deeper program.prologue program.prologue := by
  have related := (loopRespects larger).toRespects
  refine bind ((stepwise settings deeper).record .start none) fun _ _ => ?_
  have body := related.program (Callable.call settings.maxCallDepth) (Callable.call deeper)
    (call settings deeper larger) program
  exact ⟨fun machine => body.same machine, fun refused => body.refused refused⟩

end Larger

end Deepens

theorem Program.simulate_deepens (program : Program) {settings : Settings} {deeper : Nat}
    (larger : settings.maxCallDepth ≤ deeper) :
    (program.simulate (m := Simulation) settings .initial).machine.Refused ∨
      program.simulate (m := Simulation) { settings with maxCallDepth := deeper } .initial =
        program.simulate (m := Simulation) settings .initial := by
  have turns := (Deepens.loopRespects larger).turns (settings.maxSteps + 1)
  have whole := (Deepens.prologue larger program).bind fun _ _ => turns
  -- The loop is given the same turns in both runs, since the step limit is the same.
  have enough : settings.maxSteps < settings.maxSteps + 1 := Nat.lt_succ_self _
  have enoughToo : ({ settings with maxCallDepth := deeper } : Settings).maxSteps <
      settings.maxSteps + 1 := enough
  rw [program.simulate_eq_turns enough, program.simulate_eq_turns enoughToo]
  exact whole.same .initial

/-- No step shows more frames than the call depth limit, and a run in which no call is refused is
the same, with all that it shows, under every larger limit. -/
theorem Program.run_call_depth (program : Program) (settings : Settings) :
    (∀ step ∈ (program.run settings).trace.toList,
      step.stack.length ≤ settings.maxCallDepth) ∧
    ((∀ diagnostic ∈ (program.run settings).diagnostics.toList, ∀ depth,
        diagnostic.problem ≠ .callDepthExceeded depth) →
      ∀ deeper, settings.maxCallDepth ≤ deeper →
        program.run { settings with maxCallDepth := deeper } = program.run settings) := by
  refine ⟨program.run_shallow settings, fun unrefused deeper larger => ?_⟩
  obtain ⟨diagnostic, member, depth, refused⟩ | same := program.simulate_deepens larger
  next =>
    refine absurd refused (unrefused diagnostic ?_ depth)
    unfold Program.run
    cases result : program.simulate (m := Simulation) settings .initial with
    | done value after =>
        rw [result] at member
        exact member
    | halted after =>
        rw [result] at member
        simp only [Outcome.toRun, Array.toList_push]
        exact List.mem_append_left _ member
  next =>
    unfold Program.run
    rw [same]

def endlessCall : Program :=
  let call : Statement := .expression (.call (.identifier ⟨"f", default⟩) [] default) default
  ⟨[.function ⟨.expression, some ⟨"f", default⟩, [], .block [call] default, default⟩, call],
    default⟩

-- The limit is reached, and the one call beyond it is refused.
example : (endlessCall.run { maxCallDepth := 2 }).trace.toList.map (·.stack.length) =
    [0, 1, 2, 1, 0] ∧ (endlessCall.run { maxCallDepth := 2 }).diagnostics.size = 1 := by
  decide +kernel

-- One frame is all that these callbacks need, so no call is refused.
example : (timerAndMicrotask.run { maxCallDepth := 1 }).diagnostics.size = 0 := by
  decide +kernel

end EventLoop
