import EventLoop.Proofs.SingleActions
import Mathlib.Data.List.Chain

set_option autoImplicit false

/-!
# The machines that a run passes

A simulation passes a machine after every single action, also within a step and after the last one
that is recorded.
-/

namespace EventLoop

open Simulation

inductive Simulation.Single : {α : Type} → Simulation α → Prop where
  | action {α : Type} {sim : Simulation α} (action : Action sim) : Single sim
  | pushFrame (name : String) : Single (pushFrame name)
  | popFrame : Single popFrame
  | record (event : Event) (node : Option NodeRef) : Single (record event node)

inductive Passes (settings : Settings) :
    {α : Type} → Simulation α → Machine → List Machine → Prop where
  | pure {α : Type} (value : α) (machine : Machine) : Passes settings (Pure.pure value) machine []
  | settings (machine : Machine) : Passes settings Simulation.settings machine []
  | single {α : Type} {sim : Simulation α} (single : Single sim) (machine : Machine) :
      Passes settings sim machine [(sim settings machine).machine]
  | next {α β : Type} {first : Simulation α} {next : α → Simulation β} {machine middle : Machine}
      {value : α} {early late : List Machine} (ran : first settings machine = .done value middle)
      (passesFirst : Passes settings first machine early)
      (passesNext : Passes settings (next value) middle late) :
      Passes settings (first >>= next) machine (early ++ late)
  | halt {α β : Type} {first : Simulation α} {next : α → Simulation β} {machine after : Machine}
      {passed : List Machine} (ran : first settings machine = .halted after)
      (passesFirst : Passes settings first machine passed) :
      Passes settings (first >>= next) machine passed

namespace Passes

variable {settings : Settings} {α : Type} {sim : Simulation α} {machine : Machine}
variable {passed : List Machine}

theorem getLast?_eq (passes : Passes settings sim machine passed) :
    (machine :: passed).getLast? = some (sim settings machine).machine := by
  induction passes with
  | @next _ _ first next machine middle value early late ran _ _ firstEnds nextEnds =>
      -- The second part may pass no machine, and then the first one has the last.
      rw [ran] at firstEnds
      rw [bind_apply, ran, ← List.cons_append, List.getLast?_append, firstEnds]
      rw [List.getLast?_cons] at nextEnds
      cases ends : late.getLast? with
      | none => simpa [ends, Outcome.machine] using nextEnds
      | some last => simpa [ends] using nextEnds
  | halt ran _ ends =>
      rw [bind_apply, ran]
      rwa [ran] at ends
  | _ => rfl

theorem isChain {Related : Machine → Machine → Prop}
    (across : ∀ {α : Type} {sim : Simulation α}, Single sim → ∀ machine,
      Related machine (sim settings machine).machine)
    (passes : Passes settings sim machine passed) : (machine :: passed).IsChain Related := by
  induction passes with
  | pure | settings => exact .singleton _
  | single single machine => exact .cons_cons (across single machine) (.singleton _)
  | next ran passesFirst _ firstChain nextChain =>
      -- The first part ends with the machine that the second one starts from.
      have ends := passesFirst.getLast?_eq
      rw [ran] at ends
      obtain ⟨starts, rest⟩ := List.isChain_cons.mp nextChain
      refine firstChain.append rest fun last shown => ?_
      rw [ends] at shown
      cases shown
      exact starts
  | halt _ _ chain => exact chain

end Passes

def Passable {α : Type} (sim : Simulation α) : Prop :=
  ∀ settings machine, ∃ passed, Passes settings sim machine passed

namespace Passable

theorem bind {α β : Type} {first : Simulation α} {next : α → Simulation β}
    (firsts : Passable first) (nexts : ∀ value, Returns first value → Passable (next value)) :
    Passable (first >>= next) := by
  intro settings machine
  obtain ⟨early, passesFirst⟩ := firsts settings machine
  cases ran : first settings machine with
  | halted after => exact ⟨early, .halt ran passesFirst⟩
  | done value middle =>
      obtain ⟨late, passesNext⟩ := nexts value ⟨_, _, _, ran⟩ settings middle
      exact ⟨early ++ late, .next ran passesFirst passesNext⟩

theorem single {α : Type} {sim : Simulation α} (single : Single sim) : Passable sim :=
  fun _ machine => ⟨_, .single single machine⟩

theorem withSettings {α : Type} {next : Settings → Simulation α}
    (nexts : ∀ settings, Passable (next settings)) : Passable (Simulation.settings >>= next) :=
  bind (fun _ machine => ⟨[], .settings machine⟩) fun settings _ => nexts settings

theorem stepwise : Stepwise fun sim _ => Passable sim where
  pure value := fun _ machine => ⟨[], .pure value machine⟩
  bind first next := Passable.bind first fun value returns => next value (.inl returns)
  action action := single (.action action)
  record event node := single (.record event node)

theorem congruence : Congruence Returned fun sim _ => Passable sim :=
  stepwise.congruence (fun name => single (.pushFrame name)) (single .popFrame)

theorem call (room : Nat) (callable : Callable) (arguments : List Value) :
    Passable (callable.call room arguments) := by
  induction room generalizing callable arguments with
  | zero => exact withSettings fun _ => congruence.skip _ _ rfl
  | succ room ih => exact congruence.call_succ room room ih callable arguments

theorem loopRespects : LoopRespects Returned fun sim _ => Passable sim :=
  stepwise.loopRespects fun callable arguments =>
    withSettings fun settings => call settings.maxCallDepth callable arguments

theorem simulate (program : Program) : Passable program.simulate := by
  have prologue : Passable program.prologue := by
    refine bind (single (.record .start none)) fun _ _ => withSettings fun settings => ?_
    let calls : FunctionCalls Simulation := Callable.call settings.maxCallDepth
    exact congruence.program calls calls (call settings.maxCallDepth) program
  refine bind prologue fun _ _ => withSettings fun settings => ?_
  exact bind (single (.action (.read _))) fun _ _ => loopRespects.turns _

end Passable

end EventLoop
