import EventLoop.Proofs.CallStack
import EventLoop.Proofs.Effects
import EventLoop.Proofs.SingleActions

set_option autoImplicit false

/-!
# Nodes of frames

A call records one node twice, when its frame is pushed and when it is popped.
-/

namespace EventLoop

open Simulation

def Step.track (step : Step) (pushes : List Step) : List Step :=
  match step.event with
  | .push _ => step :: pushes
  | .pop _ => pushes.tail
  | _ => pushes

def openPushes (steps : List Step) : List Step :=
  steps.foldl (fun pushes step => step.track pushes) []

@[simp]
theorem openPushes_concat (steps : List Step) (step : Step) :
    openPushes (steps ++ [step]) = step.track (openPushes steps) := by
  simp [openPushes]

theorem Step.track_of_not_frame {step : Step} (other : ¬step.event.IsFrame) (pushes : List Step) :
    step.track pushes = pushes := by
  unfold Step.track
  split
  next event => simp [event, Event.IsFrame] at other
  next event => simp [event, Event.IsFrame] at other
  next => rfl

theorem Step.StackFollows.length_track {previous step : Step} {pushes : List Step}
    (follows : previous.StackFollows step) (same : pushes.length = previous.stack.length) :
    (step.track pushes).length = step.stack.length := by
  cases event : step.event <;> simp_all [Step.StackFollows, Step.track]

def frameLaw (steps : List Step) (step : Step) : Prop :=
  ∀ frame, step.event = .pop frame →
    ∃ push, (openPushes steps).head? = some push ∧ push.node = step.node

def FramesClosed {α : Type} (machine : Machine) : Outcome α → Prop
  | .done _ after => Obeys frameLaw after.steps ∧ openPushes after.steps = openPushes machine.steps
  | .halted after => Obeys frameLaw after.steps

def ClosesFrames (settings : Settings) {α : Type} (sim : Simulation α) : Prop :=
  ∀ machine : Machine, Obeys frameLaw machine.steps → FramesClosed machine (sim settings machine)

namespace ClosesFrames

variable {settings : Settings} {α β : Type}

theorem bind {first : Simulation α} {next : α → Simulation β} (firsts : ClosesFrames settings first)
    (nexts : ∀ value, Returns first value → ClosesFrames settings (next value)) :
    ClosesFrames settings (first >>= next) := by
  intro machine obeys
  have balanced := firsts machine obeys
  rw [bind_apply]
  cases result : first settings machine with
  | halted after =>
      rw [result] at balanced
      exact balanced
  | done value middle =>
      rw [result] at balanced
      have rest := nexts value ⟨_, _, _, result⟩ middle balanced.1
      dsimp only
      cases ends : next value settings middle with
      | halted after =>
          rw [ends] at rest
          exact rest
      | done last after =>
          rw [ends] at rest
          exact ⟨rest.1, rest.2.trans balanced.2⟩

theorem action {sim : Simulation α} (action : Action sim) : ClosesFrames settings sim := by
  intro machine obeys
  obtain ⟨value, after, same, continues⟩ := action.done settings machine
  rw [same settings rfl]
  have steps : after.steps = machine.steps := congrArg Array.toList continues.trace
  simp only [FramesClosed, steps]
  exact ⟨obeys, trivial⟩

theorem record (event : Event) (other : ¬event.IsFrame) (node : Option NodeRef) :
    ClosesFrames settings (record event node) := by
  intro machine obeys
  obtain halts | records := record_cases event node settings machine
  next =>
    rw [halts]
    exact obeys
  next =>
    have law : frameLaw machine.steps (machine.snapshot event node) := by
      rintro frame rfl
      exact (other trivial).elim
    have same : (machine.snapshot event node).track (openPushes machine.steps) =
        openPushes machine.steps := Step.track_of_not_frame other _
    rw [records]
    simp only [FramesClosed, Machine.steps_recorded, obeys_concat, openPushes_concat]
    exact ⟨⟨obeys, law⟩, same⟩

theorem withFrame (name : String) (node : Option NodeRef) {body : Simulation α}
    (bodies : ClosesFrames settings body) : ClosesFrames settings (withFrame name node body) := by
  intro machine obeys
  let entered : Machine := { machine with stack := name :: machine.stack }
  let push := entered.snapshot (.push name) node
  simp only [EventLoop.withFrame, Actions.pushFrame, pushFrame, Actions.popFrame, popFrame,
    Actions.record, Simulation.modify, bind_apply, pure_apply]
  obtain halts | records := record_cases (.push name) node settings entered
  next =>
    rw [halts]
    exact obeys
  next =>
    have pushed : Obeys frameLaw (entered.recorded (.push name) node).steps := by
      rw [Machine.steps_recorded, obeys_concat]
      exact ⟨obeys, fun _ pops => by cases pops⟩
    have inside := bodies _ pushed
    rw [records]
    dsimp only
    cases ends : body settings (entered.recorded (.push name) node) with
    | halted after =>
        rw [ends] at inside
        exact inside
    | done value after =>
        rw [ends] at inside
        obtain ⟨kept, same⟩ := inside
        rw [Machine.steps_recorded, openPushes_concat] at same
        -- The body has popped what it pushed, so that the push of this frame is innermost again.
        have innermost : openPushes after.steps = push :: openPushes machine.steps := same
        let left : Machine := { after with stack := after.stack.tail }
        dsimp only
        obtain halts | records := record_cases (.pop name) node settings left
        next =>
          rw [halts]
          exact kept
        next =>
          have law : frameLaw left.steps (left.snapshot (.pop name) node) :=
            fun _ _ => ⟨push, congrArg List.head? innermost, rfl⟩
          rw [records]
          simp only [FramesClosed, Machine.steps_recorded, obeys_concat, openPushes_concat]
          exact ⟨⟨kept, law⟩, congrArg List.tail innermost⟩

theorem congruence (settings : Settings) :
    Congruence Returned fun sim _ => ClosesFrames settings sim where
  answers := Returned.answers
  pure _ := fun _ obeys => ⟨obeys, rfl⟩
  bind firsts nexts := firsts.bind fun value returns => nexts value (.inl returns)
  report problem span running := action (.report problem span running)
  writeLine level text := action (.writeLine level text)
  makeFunction binding node scope := action (.makeFunction binding node scope)
  declare scope name value := action (.declare scope name value)
  assign scope name value := action (.assign scope name value)
  createScope outer := action (.createScope outer)
  lookup _ _ := action (.read _)
  inspect _ := action (.read _)
  uncallable := fun _ obeys => ⟨obeys, rfl⟩
  called _ _ _ _ closes := closes
  createPromise state := action (.createPromise state)
  fulfill id value := action (.fulfill id value)
  keepReaction id reaction := action (.keepReaction id reaction)
  -- Steps that are neither pushes nor pops leave the open frames as they are.
  addMicrotask microtask _ :=
    (action (.enqueueMicrotask microtask)).bind fun _ _ =>
      record (.microtaskEnqueued microtask.name) not_false _
  addTask entry _ _ _ := by
    refine (action .nextTimer).bind fun id _ => (action (.enqueueTask _)).bind fun _ _ => ?_
    exact (record (.taskEnqueued entry.name entry.delay) not_false _).bind
      fun _ _ => fun _ obeys => ⟨obeys, rfl⟩
  removeTask id _ := by
    refine (action (.cancelTask id)).bind fun cancelled _ => ?_
    cases cancelled with
    | none => exact fun _ obeys => ⟨obeys, rfl⟩
    | some task => exact record (.taskCancelled task.name) not_false _
  withFrame name node _ _ bodies := withFrame name node bodies

theorem call (room : Nat) (callable : Callable) (arguments : List Value) :
    ClosesFrames settings (callable.call room arguments) := by
  induction room generalizing callable arguments with
  | zero =>
      intro machine
      exact (congruence settings).skip (.callDepthExceeded settings.maxCallDepth) _ rfl machine
  | succ room ih => exact (congruence settings).call_succ room room ih callable arguments

theorem loopRespects (settings : Settings) :
    LoopRespects Returned fun sim _ => ClosesFrames settings sim where
  toRespects := (congruence settings).toRespects
  microtaskRun name firstStep := record (.microtaskRun name firstStep) not_false
  taskRun name firstStep := record (.taskRun name firstStep) not_false
  traceSize := action (.read _)
  dequeueMicrotask := action .dequeueMicrotask
  dequeueTask := action .dequeueTask
  invoked _ _ _ _ closes := closes
  settled _ _ := fun _ obeys => ⟨obeys, rfl⟩
  entry callable arguments := fun machine => call settings.maxCallDepth callable arguments machine

theorem simulate (program : Program) : ClosesFrames settings program.simulate := by
  have related := (loopRespects settings).toRespects
  let calls : FunctionCalls Simulation := Callable.call settings.maxCallDepth
  have body := related.program calls calls (call settings.maxCallDepth) program
  rw [Program.simulate]
  refine bind ?_ fun _ _ machine => (loopRespects settings).turns
    (settings.maxSteps - machine.trace.size + 1) machine
  exact (record .start not_false _).bind fun _ _ => body

end ClosesFrames

theorem Program.run_frameLaw (program : Program) (settings : Settings) :
    Obeys frameLaw (program.run settings).trace.toList := by
  have simulates : ClosesFrames settings program.simulate := ClosesFrames.simulate program
  have balanced := simulates .initial (obeys_nil frameLaw)
  rw [program.run_steps]
  cases ends : program.simulate (m := Simulation) settings .initial with
  | halted after =>
      rw [ends] at balanced
      exact balanced
  | done value after =>
      rw [ends] at balanced
      exact balanced.1

namespace Run

variable {run : Run}

theorem take_succ {index : Nat} {step : Step} (position : run.trace[index]? = some step) :
    run.trace.toList.take (index + 1) = run.trace.toList.take index ++ [step] := by
  rw [List.take_add_one, Array.getElem?_toList, position, Option.toList_some]

theorem length_openPushes (discipline : run.StackDiscipline) {index : Nat} {step : Step}
    (position : run.trace[index]? = some step) :
    (openPushes (run.trace.toList.take (index + 1))).length = step.stack.length := by
  induction index generalizing step with
  | zero =>
      obtain ⟨starts, empty⟩ := discipline.first step position
      simp [take_succ position, Step.track, starts, empty, openPushes]
  | succ index ih =>
      obtain ⟨previous, before⟩ := getElem?_of_lt position (Nat.lt_succ_self index)
      rw [take_succ position, openPushes_concat]
      exact (discipline.next index previous step before position).length_track (ih before)

theorem Encloses.openPushes_opening {opening closing : Nat}
    (encloses : run.Encloses opening closing) {push : Step}
    (opens : run.trace[opening]? = some push) :
    openPushes (run.trace.toList.take (opening + 1)) =
      push :: openPushes (run.trace.toList.take opening) := by
  obtain ⟨frame, opened, pop, opens', starts, -⟩ := encloses.ends
  obtain rfl : push = opened := by simpa [opens] using opens'
  simp [take_succ opens, Step.track, starts]

theorem Encloses.suffix_openPushes (discipline : run.StackDiscipline) {opening closing : Nat}
    (encloses : run.Encloses opening closing) {push : Step}
    (opens : run.trace[opening]? = some push) {index : Nat} (after : opening ≤ index)
    (earlier : index < closing) :
    push :: openPushes (run.trace.toList.take opening) <:+
      openPushes (run.trace.toList.take (index + 1)) := by
  have first := encloses.openPushes_opening opens
  obtain ⟨-, -, pop, -, -, closes, -⟩ := encloses.ends
  induction index, after using Nat.le_induction with
  | base => exact first ▸ List.suffix_rfl
  | succ index after ih =>
      obtain ⟨step, position⟩ := getElem?_of_lt closes earlier
      have kept := encloses.within push opens (index + 1) step (by omega) earlier position
      have suffix := ih (by omega)
      have pushLength := length_openPushes discipline opens
      have stepLength := length_openPushes discipline position
      have shorter := kept.length_le
      rw [first] at pushLength
      rw [take_succ position, openPushes_concat] at stepLength ⊢
      unfold Step.track at stepLength ⊢
      split at stepLength
      next => exact suffix.trans (List.suffix_cons _ _)
      next =>
        -- A pop that took this frame would leave fewer pushes open than there are frames.
        cases others : openPushes (run.trace.toList.take (index + 1)) with
        | nil => simp [others] at suffix
        | cons top rest =>
            rw [others] at suffix stepLength
            obtain whole | inner := List.suffix_cons_iff.mp suffix
            next =>
              have lengths := congrArg List.length whole
              simp only [List.length_cons, List.tail_cons] at lengths stepLength pushLength
              omega
            next => exact inner
      next => exact suffix

theorem Encloses.node_eq (discipline : run.StackDiscipline)
    (law : Obeys frameLaw run.trace.toList) {opening closing : Nat} {push pop : Step}
    (encloses : run.Encloses opening closing) (opens : run.trace[opening]? = some push)
    (closes : run.trace[closing]? = some pop) : pop.node = push.node := by
  obtain ⟨frame, opened, closed, opens', -, closes', ended, stack⟩ := encloses.ends
  obtain rfl : push = opened := by simpa [opens] using opens'
  obtain rfl : pop = closed := by simpa [closes] using closes'
  obtain ⟨last, rfl⟩ : ∃ last, closing = last + 1 :=
    ⟨closing - 1, by have := encloses.order; omega⟩
  obtain ⟨previous, before⟩ := getElem?_of_lt closes (Nat.lt_succ_self last)
  -- Right before the pop its frame is on top, so that no push is open above the one that matches.
  have top : previous.stack = push.stack := by
    have follows := discipline.next last previous pop before closes
    simp only [Step.StackFollows, ended] at follows
    rw [follows, stack]
  have suffix := encloses.suffix_openPushes discipline opens (Nat.le_of_lt_succ encloses.order)
    (Nat.lt_succ_self last)
  have pushLength := length_openPushes discipline opens
  have lastLength := length_openPushes discipline before
  have innermost := suffix.eq_of_length (by
    rw [lastLength, top, ← pushLength, encloses.openPushes_opening opens])
  have position : run.trace.toList[last + 1]? = some pop := by rwa [Array.getElem?_toList]
  obtain ⟨found, head, same⟩ := law (last + 1) pop position frame ended
  rw [← innermost] at head
  obtain rfl : push = found := by simpa using head
  exact same.symm

end Run

end EventLoop
