import EventLoop.Proofs.Trace
import Mathlib.Data.Nat.Find
import Mathlib.Logic.ExistsUnique
import Mathlib.Tactic.ByContra

set_option autoImplicit false

/-!
# The call stack along a trace

Stacks are written innermost frame first.
-/

namespace EventLoop

/-- What the stack of a step is, given the step before it. -/
def Step.StackFollows (previous step : Step) : Prop :=
  match step.event with
  | .start => False
  | .push frame => step.stack = frame :: previous.stack
  | .pop frame => previous.stack = frame :: step.stack
  | .taskRun .. | .microtaskRun .. => step.stack = [] ∧ previous.stack = []
  | .taskEnqueued .. | .taskCancelled _ | .microtaskEnqueued _ => step.stack = previous.stack

theorem Step.StackFollows.pop_of_lost {previous step : Step} {frames : List String}
    (follows : previous.StackFollows step) (kept : frames <:+ previous.stack)
    (lost : ¬frames <:+ step.stack) : ∃ frame, step.event = .pop frame ∧
      frames = frame :: step.stack := by
  unfold Step.StackFollows at follows
  -- Only a pop shortens the stack, and it takes one frame: `frames` was the whole stack before it.
  split at follows
  next => exact follows.elim
  next frame event =>
    rw [follows] at lost
    exact (lost (kept.trans (List.suffix_cons _ _))).elim
  next frame event =>
    rw [follows, List.suffix_cons_iff] at kept
    exact ⟨frame, event, kept.resolve_right lost⟩
  next =>
    rw [follows.2, ← follows.1] at kept
    exact (lost kept).elim
  next =>
    rw [follows.2, ← follows.1] at kept
    exact (lost kept).elim
  all_goals
    rw [follows] at lost
    exact (lost kept).elim

theorem Step.StackFollows.push_of_gained {previous step : Step} {frames : List String}
    (follows : previous.StackFollows step) (missing : ¬frames <:+ previous.stack)
    (gained : frames <:+ step.stack) : ∃ frame, step.event = .push frame ∧
      frames = frame :: previous.stack := by
  unfold Step.StackFollows at follows
  split at follows
  next => exact follows.elim
  next frame event =>
    rw [follows, List.suffix_cons_iff] at gained
    exact ⟨frame, event, gained.resolve_right missing⟩
  next frame event =>
    rw [follows] at missing
    exact (missing (gained.trans (List.suffix_cons _ _))).elim
  next =>
    rw [follows.1, ← follows.2] at gained
    exact (missing gained).elim
  next =>
    rw [follows.1, ← follows.2] at gained
    exact (missing gained).elim
  all_goals
    rw [follows] at gained
    exact (missing gained).elim

/-- A run starts with an empty stack, and each further step follows on the one before. -/
structure Run.StackDiscipline (run : Run) : Prop where
  first (step : Step) (position : run.trace[0]? = some step) :
    step.event = .start ∧ step.stack = []
  next (index : Nat) (previous step : Step) (before : run.trace[index]? = some previous)
    (position : run.trace[index + 1]? = some step) : previous.StackFollows step

def stackLaw (steps : List Step) (step : Step) : Prop :=
  match steps.getLast? with
  | none => step.event = .start ∧ step.stack = []
  | some previous => previous.StackFollows step

theorem Change.stackLaw {machine changed : Machine} {event : Event}
    (change : Change machine event changed) (node : Option NodeRef) (shown : machine.ShowsStack) :
    stackLaw machine.steps (changed.snapshot event node) := by
  obtain ⟨last, found, same⟩ := shown
  simp only [EventLoop.stackLaw, found]
  cases change with
  | push name => simp [Step.StackFollows, Machine.snapshot, same]
  | pop top => simp [Step.StackFollows, Machine.snapshot, same, top]
  | addMicrotask microtask => simp [Step.StackFollows, Machine.snapshot, same]
  | addTask task fresh => simp [Step.StackFollows, Machine.snapshot, same]
  | removeTask pending => simp [Step.StackFollows, Machine.snapshot, same]

theorem Dispatch.stackLaw {before entered ran : Machine} {event : Event}
    (dispatch : Dispatch before event entered) (node : Option NodeRef) (shown : ran.ShowsStack)
    (empty : ran.stack = []) : EventLoop.stackLaw ran.steps (ran.snapshot event node) := by
  obtain ⟨last, found, same⟩ := shown
  simp only [EventLoop.stackLaw, found]
  cases dispatch <;> simp [Step.StackFollows, Machine.snapshot, same, empty]

theorem Program.run_stackDiscipline (program : Program) (settings : Settings) :
    (program.run settings).StackDiscipline := by
  have obeys : Obeys stackLaw (program.run settings).trace.toList := by
    refine program.run_obeys settings ?_ ?_ ?_
    next => exact ⟨rfl, rfl⟩
    next => exact fun node shown change => change.stackLaw node shown
    next => exact fun node _ dispatch _ shown empty _ => dispatch.stackLaw node shown empty
  constructor
  next =>
    intro step position
    rw [← Array.getElem?_toList] at position
    simpa [stackLaw] using obeys 0 step position
  next =>
    intro index previous step before position
    rw [← Array.getElem?_toList] at before position
    have law := obeys (index + 1) step position
    have last : ((program.run settings).trace.toList.take (index + 1)).getLast? =
        some previous := by
      rw [List.take_add_one, before, Option.toList_some, List.getLast?_concat]
    simpa only [stackLaw, last] using law

/-- A push and the pop that ends its frame: in between the frame stays on the stack. -/
structure Run.Encloses (run : Run) (opening closing : Nat) : Prop where
  order : opening < closing
  ends : ∃ frame push pop, run.trace[opening]? = some push ∧ push.event = .push frame ∧
    run.trace[closing]? = some pop ∧ pop.event = .pop frame ∧ push.stack = frame :: pop.stack
  within (push : Step) (opens : run.trace[opening]? = some push) (index : Nat) (step : Step)
    (after : opening ≤ index) (earlier : index < closing)
    (position : run.trace[index]? = some step) : push.stack <:+ step.stack

namespace Run

variable {run : Run}

theorem Encloses.closing_unique {opening closing other : Nat}
    (encloses : run.Encloses opening closing) (also : run.Encloses opening other) :
    closing = other := by
  -- The frame is gone at the earlier of two ends, which the later one does not allow.
  have absurd {early late : Nat} (first : run.Encloses opening early)
      (second : run.Encloses opening late) (less : early < late) : False := by
    obtain ⟨frame, push, pop, opens, -, closes, -, stack⟩ := first.ends
    have kept := second.within push opens early pop (Nat.le_of_lt first.order) less closes
    have shorter := kept.length_le
    rw [stack, List.length_cons] at shorter
    omega
  obtain less | same | greater := Nat.lt_trichotomy closing other
  next => exact (absurd encloses also less).elim
  next => exact same
  next => exact (absurd also encloses greater).elim

theorem StackDiscipline.exists_previous (discipline : run.StackDiscipline) {index : Nat}
    {step : Step}
    (position : run.trace[index]? = some step) (started : step.event ≠ .start) :
    ∃ previous, 0 < index ∧ run.trace[index - 1]? = some previous ∧
      previous.StackFollows step := by
  cases index with
  | zero => exact absurd (discipline.first step position).1 started
  | succ index =>
      have bound := (Array.getElem?_eq_some_iff.mp position).1
      have before : run.trace[index]? = some run.trace[index] :=
        Array.getElem?_eq_getElem (by omega)
      exact ⟨_, by omega, before, discipline.next index _ step before position⟩

theorem StackDiscipline.push_stack (discipline : run.StackDiscipline) {index : Nat} {push : Step}
    {frame : String} (position : run.trace[index]? = some push) (event : push.event = .push frame) :
    ∃ previous, 0 < index ∧ run.trace[index - 1]? = some previous ∧
      push.stack = frame :: previous.stack := by
  obtain ⟨previous, positive, before, follows⟩ :=
    discipline.exists_previous position (by simp [event])
  exact ⟨previous, positive, before, by simpa [Step.StackFollows, event] using follows⟩

theorem StackDiscipline.pop_stack (discipline : run.StackDiscipline) {index : Nat} {pop : Step}
    {frame : String} (position : run.trace[index]? = some pop) (event : pop.event = .pop frame) :
    ∃ previous, 0 < index ∧ run.trace[index - 1]? = some previous ∧
      previous.stack = frame :: pop.stack := by
  obtain ⟨previous, positive, before, follows⟩ :=
    discipline.exists_previous position (by simp [event])
  exact ⟨previous, positive, before, by simpa [Step.StackFollows, event] using follows⟩

theorem Encloses.opening_unique (discipline : run.StackDiscipline) {opening closing other : Nat}
    (encloses : run.Encloses opening closing) (also : run.Encloses other closing) :
    opening = other := by
  -- A frame that is pushed later, on top of the first one, is longer than what the pop leaves.
  have absurd {early late : Nat} (first : run.Encloses early closing)
      (second : run.Encloses late closing) (less : early < late) : False := by
    obtain ⟨frame, push, pop, opens, -, closes, ended, stack⟩ := first.ends
    obtain ⟨frame', push', pop', opens', event', closes', ended', stack'⟩ := second.ends
    obtain rfl : pop = pop' := by simpa [closes] using closes'
    obtain ⟨previous, positive, before, grown⟩ := discipline.push_stack opens' event'
    have kept := first.within push opens (late - 1) previous (by omega)
      (by have := second.order; omega) before
    have lengths := kept.length_le
    have same := congrArg List.length stack
    have same' := congrArg List.length stack'
    have same'' := congrArg List.length grown
    simp only [List.length_cons] at same same' same''
    omega
  obtain less | same | greater := Nat.lt_trichotomy opening other
  next => exact (absurd encloses also less).elim
  next => exact same
  next => exact (absurd also encloses greater).elim

theorem getElem?_of_lt {index later : Nat} {step : Step} (position : run.trace[later]? = some step)
    (earlier : index < later) : ∃ found, run.trace[index]? = some found := by
  have bound := (Array.getElem?_eq_some_iff.mp position).1
  exact ⟨run.trace[index], Array.getElem?_eq_getElem (by omega)⟩

theorem StackDiscipline.exists_closing (discipline : run.StackDiscipline) {opening : Nat}
    {push : Step} {frame : String} (opens : run.trace[opening]? = some push)
    (event : push.event = .push frame) {final : Nat} {last : Step}
    (ended : run.trace[final]? = some last) (later : opening < final)
    (without : ¬push.stack <:+ last.stack) : ∃ closing, run.Encloses opening closing := by
  classical
  -- The pop is the first step after the push without the pushed frame; `last` shows there is one.
  let Without (index : Nat) : Prop :=
    opening < index ∧ ∃ step, run.trace[index]? = some step ∧ ¬push.stack <:+ step.stack
  have found : ∃ index, Without index := ⟨final, later, last, ended, without⟩
  obtain ⟨order, pop, closes, lost⟩ := Nat.find_spec found
  have within (index : Nat) (step : Step) (after : opening ≤ index)
      (earlier : index < Nat.find found) (position : run.trace[index]? = some step) :
      push.stack <:+ step.stack := by
    obtain rfl | beyond := Nat.eq_or_lt_of_le after
    next =>
      obtain rfl : push = step := by simpa [opens] using position
      exact List.suffix_rfl
    next =>
      by_contra missing
      exact Nat.find_min found earlier ⟨beyond, step, position, missing⟩
  obtain ⟨previous, before⟩ := getElem?_of_lt closes (Nat.sub_lt (by omega) Nat.one_pos)
  have follows := discipline.next (Nat.find found - 1) previous pop before
    (by rwa [Nat.sub_add_cancel (by omega)])
  have kept := within (Nat.find found - 1) previous (by omega) (by omega) before
  obtain ⟨popped, ends, stack⟩ := follows.pop_of_lost kept lost
  obtain ⟨below, -, -, pushed⟩ := discipline.push_stack opens event
  obtain ⟨rfl, -⟩ : popped = frame ∧ pop.stack = below.stack := by
    simpa [stack] using pushed
  refine ⟨Nat.find found, order, ⟨popped, push, pop, opens, event, closes, ends, stack⟩, ?_⟩
  intro other also
  obtain rfl : push = other := by simpa [opens] using also
  exact within

theorem StackDiscipline.exists_opening (discipline : run.StackDiscipline) {closing : Nat}
    {pop : Step} {frame : String} (closes : run.trace[closing]? = some pop)
    (event : pop.event = .pop frame) : ∃ opening, run.Encloses opening closing := by
  obtain ⟨top, positive, before, topStack⟩ := discipline.pop_stack closes event
  classical
  -- The push is the first of the steps from which on the frame stays until the pop takes it.
  let Since (index : Nat) : Prop := index < closing ∧
    ∀ later step, index ≤ later → later < closing → run.trace[later]? = some step →
      frame :: pop.stack <:+ step.stack
  have found : ∃ index, Since index := by
    refine ⟨closing - 1, by omega, fun later step after earlier position => ?_⟩
    obtain rfl : later = closing - 1 := by omega
    obtain rfl : top = step := by simpa [before] using position
    exact topStack ▸ List.suffix_rfl
  obtain ⟨order, since⟩ := Nat.find_spec found
  obtain ⟨push, opens⟩ := getElem?_of_lt closes order
  have gained := since (Nat.find found) push (Nat.le_refl _) order opens
  -- The run starts with an empty stack, so some step before does not have the frame.
  have inside : 0 < Nat.find found := by
    by_contra outside
    obtain zero : Nat.find found = 0 := by omega
    rw [zero] at opens
    rw [(discipline.first push opens).2] at gained
    simp at gained
  obtain ⟨previous, earlier⟩ := getElem?_of_lt opens (Nat.sub_lt inside Nat.one_pos)
  have missing : ¬frame :: pop.stack <:+ previous.stack := by
    -- Otherwise the frame would stay from the step before on, which is earlier than the first.
    intro present
    refine Nat.find_min found (Nat.sub_lt inside Nat.one_pos) ⟨by omega, ?_⟩
    intro later step after before position
    obtain rfl | beyond := Nat.eq_or_lt_of_le after
    next =>
      obtain rfl : previous = step := by simpa [earlier] using position
      exact present
    next => exact since later step (by omega) before position
  have pushes := discipline.next (Nat.find found - 1) previous push earlier
    (by rwa [Nat.sub_add_cancel inside])
  obtain ⟨pushed, starts, stack⟩ := pushes.push_of_gained missing gained
  obtain ⟨rfl, same⟩ : frame = pushed ∧ pop.stack = previous.stack := by simpa using stack
  obtain ⟨below, -, below', grown⟩ := discipline.push_stack opens starts
  obtain rfl : previous = below := by simpa [earlier] using below'
  have pushStack : push.stack = frame :: pop.stack := by rw [grown, same]
  refine ⟨Nat.find found, order, ⟨frame, push, pop, opens, starts, closes, event, pushStack⟩, ?_⟩
  intro other also index step after before position
  obtain rfl : push = other := by simpa [opens] using also
  rw [pushStack]
  exact since index step after before position

end Run

theorem Program.run_last_step {program : Program} {settings : Settings}
    (completed : (program.run settings).truncated = false) :
    ∃ last, (program.run settings).trace.toList.getLast? = some last ∧ last.stack = [] ∧
      last.tasks = [] ∧ last.microtasks = [] := by
  obtain ⟨after, boundary, noMicrotask, noTask, ran⟩ := Program.run_completed completed
  obtain ⟨event, node, last⟩ := boundary.synced
  rw [ran]
  refine ⟨after.snapshot event node, last, boundary.stack_eq_nil, ?_, ?_⟩
  · simp [Machine.snapshot, TaskQueue.entries, noTask]
  · simp [Machine.snapshot, MicrotaskQueue.names, noMicrotask]

/-- The stack changes by pushes and pops only, and is empty whenever a turn is over. Every pop ends
one push; in a completed run every push is ended by one pop, and nothing is left at the end. -/
theorem Program.run_callStack_balanced (program : Program) (settings : Settings) :
    (program.run settings).StackDiscipline ∧
    (0 < settings.maxSteps → ∃ first, (program.run settings).trace[0]? = some first) ∧
    (∀ closing pop frame, (program.run settings).trace[closing]? = some pop →
      pop.event = .pop frame → ∃! opening, (program.run settings).Encloses opening closing) ∧
    ((program.run settings).truncated = false →
      (∀ opening push frame, (program.run settings).trace[opening]? = some push →
        push.event = .push frame → ∃! closing, (program.run settings).Encloses opening closing) ∧
      ∃ last, (program.run settings).trace.back? = some last ∧ last.stack = [] ∧
        last.tasks = [] ∧ last.microtasks = []) := by
  have discipline := program.run_stackDiscipline settings
  refine ⟨discipline, ?_, ?_, ?_⟩
  next =>
    intro steps
    obtain ⟨first, rest, trace⟩ :=
      List.exists_cons_of_ne_nil (program.run_trace_ne_nil settings steps)
    exact ⟨first, by rw [← Array.getElem?_toList, trace]; rfl⟩
  next =>
    intro closing pop frame closes event
    obtain ⟨opening, encloses⟩ := discipline.exists_opening closes event
    exact ⟨opening, encloses, fun other also => also.opening_unique discipline encloses⟩
  next =>
    intro completed
    obtain ⟨last, found, stack, tasks, microtasks⟩ := Program.run_last_step completed
    rw [Array.getLast?_toList] at found
    refine ⟨?_, last, found, stack, tasks, microtasks⟩
    intro opening push frame opens event
    obtain ⟨below, -, -, pushed⟩ := discipline.push_stack opens event
    have without : ¬push.stack <:+ last.stack := by simp [pushed, stack]
    rw [Array.back?_eq_getElem?] at found
    -- The last step has an empty stack, so the push comes before it.
    have later : opening < (program.run settings).trace.size - 1 := by
      have bound := (Array.getElem?_eq_some_iff.mp opens).1
      by_contra beyond
      obtain rfl : opening = (program.run settings).trace.size - 1 := by omega
      obtain rfl : push = last := by simpa [opens] using found
      exact without List.suffix_rfl
    obtain ⟨closing, encloses⟩ := discipline.exists_closing opens event found later without
    exact ⟨closing, encloses, fun other also => also.closing_unique encloses⟩

end EventLoop
