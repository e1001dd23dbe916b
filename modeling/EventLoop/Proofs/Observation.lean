import EventLoop.Proofs.Logged
import EventLoop.Proofs.Trace
import Mathlib.Data.List.Forall2

set_option autoImplicit false

/-!
# Observed runs

The log of a run notes the live stack behind each line of the console and each diagnostic.
-/

namespace EventLoop

structure Notes where
  lines : List (List String)
  problems : List (List String)
deriving DecidableEq, Repr

def Entry.line? : Entry → Option (List String)
  | .line stack => some stack
  | _ => none

def Entry.problem? : Entry → Option (List String)
  | .problem stack => some stack
  | _ => none

namespace Notes

def none : Notes := ⟨[], []⟩

instance : Append Notes :=
  ⟨fun early late => ⟨early.lines ++ late.lines, early.problems ++ late.problems⟩⟩

def ofLog (log : List Entry) : Notes :=
  ⟨log.filterMap Entry.line?, log.filterMap Entry.problem?⟩

theorem append_assoc (first second third : Notes) :
    first ++ second ++ third = first ++ (second ++ third) :=
  congrArg₂ Notes.mk (List.append_assoc ..) (List.append_assoc ..)

theorem append_none (notes : Notes) : notes ++ none = notes :=
  congrArg₂ Notes.mk (List.append_nil _) (List.append_nil _)

theorem ofLog_append (early late : List Entry) : ofLog (early ++ late) =
    ofLog early ++ ofLog late :=
  congrArg₂ Notes.mk List.filterMap_append List.filterMap_append

end Notes

def Program.observe (program : Program) (settings : Settings) (machine : Machine) :
    Outcome Unit × Notes :=
  let (outcome, log) := program.simulate (m := Logged) settings machine
  (outcome, .ofLog log)

def ShowsAt (steps : List Step) (stack : List String) (index : Nat) : Prop :=
  ∃ step, steps[index]? = some step ∧ step.stack = stack

structure Machine.Matches (machine : Machine) (notes : Notes) : Prop where
  lines : List.Forall₂ (fun line stack => ShowsAt machine.steps stack line.step)
    machine.console.toList notes.lines
  problems : List.Forall₂ (fun diagnostic stack => ShowsAt machine.steps stack diagnostic.step)
    machine.diagnostics.toList notes.problems

theorem ShowsAt.mono {steps more : List Step} {stack : List String} {index : Nat}
    (shown : ShowsAt steps stack index) (grown : steps <+: more) : ShowsAt more stack index := by
  obtain ⟨step, position, same⟩ := shown
  obtain ⟨later, rfl⟩ := grown
  have within := (List.getElem?_eq_some_iff.mp position).1
  exact ⟨step, by rwa [List.getElem?_append_left within], same⟩

theorem Machine.ShowsStack.showsAt {machine : Machine} (shown : machine.ShowsStack) :
    ShowsAt machine.steps machine.stack machine.lastStep := by
  obtain ⟨last, found, same⟩ := shown
  refine ⟨last, ?_, same⟩
  rw [List.getLast?_eq_getElem?] at found
  simpa [Machine.lastStep] using found

theorem Machine.Matches.of_same {machine after : Machine} {notes : Notes}
    (fits : machine.Matches notes) (grown : machine.steps <+: after.steps)
    (console : after.console = machine.console)
    (diagnostics : after.diagnostics = machine.diagnostics) : after.Matches notes where
  lines := console ▸ fits.lines.imp fun _ _ shown => shown.mono grown
  problems := diagnostics ▸ fits.problems.imp fun _ _ shown => shown.mono grown

theorem Machine.Matches.recorded {machine : Machine} {notes : Notes} (fits : machine.Matches notes)
    (event : Event) (node : Option NodeRef) : (machine.recorded event node).Matches notes := by
  refine fits.of_same ?_ rfl rfl
  rw [Machine.steps_recorded]
  exact List.prefix_append _ _

def Seen (stack : List String) (notes : Notes) {α : Type} : Outcome α → Prop
  | .done _ after => after.ShowsStack ∧ after.stack = stack ∧ after.Matches notes
  | .halted after => after.Matches notes

theorem Seen.fits {α : Type} {stack : List String} {notes : Notes} {outcome : Outcome α}
    (seen : Seen stack notes outcome) : outcome.machine.Matches notes := by
  cases outcome with
  | done value after => exact seen.2.2
  | halted after => exact seen

def Sees (settings : Settings) (before after : List String) {α : Type} (logged : Logged α) : Prop :=
  ∀ (machine : Machine) (notes : Notes), machine.ShowsStack → machine.stack = before →
    machine.Matches notes →
      Seen after (notes ++ .ofLog (logged settings machine).2) (logged settings machine).1

abbrev Watches (settings : Settings) {α : Type} (logged : Logged α) : Prop :=
  ∀ stack, Sees settings stack stack logged

section Sequence

variable {settings : Settings} {α β : Type}

theorem Sees.pure (stack : List String) (value : α) :
    Sees settings stack stack (Pure.pure value) := by
  rintro machine notes shown rfl fits
  exact ⟨shown, rfl, notes.append_none.symm ▸ fits⟩

theorem Sees.bind {before middle after : List String} {first : Logged α} {next : α → Logged β}
    (firsts : Sees settings before middle first)
    (nexts : ∀ value, Logged.Returns first value → Sees settings middle after (next value)) :
    Sees settings before after (first >>= next) := by
  intro machine notes shown same fits
  have seen := firsts machine notes shown same fits
  obtain ⟨value, entered, early, ran⟩ | ⟨stopped, early, ran⟩ := first.cases settings machine
  next =>
    rw [ran] at seen
    obtain ⟨entry, stack, known⟩ := seen
    have rest := nexts value ⟨_, _, _, _, ran⟩ entered _ entry stack known
    rw [Notes.append_assoc, ← Notes.ofLog_append] at rest
    rw [Logged.bind_of_done ran]
    exact rest
  next =>
    rw [ran] at seen
    rw [Logged.bind_of_halted ran]
    exact seen

end Sequence

namespace Watches

open Simulation

variable {settings : Settings} {α β : Type}

theorem pure (value : α) : Watches settings (Pure.pure value) := fun stack => Sees.pure stack value

theorem bind {first : Logged α} {next : α → Logged β} (firsts : Watches settings first)
    (nexts : ∀ value, Logged.Returns first value → Watches settings (next value)) :
    Watches settings (first >>= next) :=
  fun stack => (firsts stack).bind fun value returns => nexts value returns stack

theorem telling {sim : Simulation α} {entries : Machine → α → List Entry}
    (ends : ∀ (machine : Machine) (notes : Notes), machine.ShowsStack → machine.Matches notes →
      ∃ value after, sim settings machine = .done value after ∧ after.ShowsStack ∧
        after.stack = machine.stack ∧ after.Matches (notes ++ .ofLog (entries machine value))) :
    Watches settings (.telling entries sim) := by
  rintro stack machine notes shown rfl fits
  obtain ⟨value, after, result, rest⟩ := ends machine notes shown fits
  simp only [Logged.telling, result]
  exact rest

theorem still {sim : Simulation α} {entries : Machine → α → List Entry}
    (silent : ∀ machine, ∃ value after, sim settings machine = .done value after ∧
      after.stack = machine.stack ∧ after.trace = machine.trace ∧
      after.console = machine.console ∧ after.diagnostics = machine.diagnostics)
    (unseen : ∀ machine value, Notes.ofLog (entries machine value) = .none) :
    Watches settings (.telling entries sim) := by
  refine telling fun machine notes ⟨last, found, same⟩ fits => ?_
  obtain ⟨value, after, result, stack, trace, console, diagnostics⟩ := silent machine
  have steps : after.steps = machine.steps := congrArg Array.toList trace
  refine ⟨value, after, result, ⟨last, steps ▸ found, same.trans stack.symm⟩, stack, ?_⟩
  rw [unseen, Notes.append_none]
  exact fits.of_same (steps ▸ List.prefix_rfl) console diagnostics

theorem forall₂_push {γ δ : Type} {R : γ → δ → Prop} {items : Array γ} {others : List δ}
    (early : List.Forall₂ R items.toList others) {item : γ} {other : δ} (last : R item other) :
    List.Forall₂ R (items.push item).toList (others ++ [other]) := by
  rw [Array.toList_push]
  exact List.rel_append early (.cons last .nil)

theorem report (problem : Problem) (span : Option Span) :
    Watches settings (Actions.report problem span) := by
  refine telling fun machine notes shown fits => ⟨(), _, rfl, shown, rfl, ?_, ?_⟩
  · show List.Forall₂ _ machine.console.toList (notes.lines ++ [])
    rw [List.append_nil]
    exact fits.lines
  · exact forall₂_push fits.problems shown.showsAt

theorem writeLine (level : ConsoleLevel) (text : String) :
    Watches settings (Actions.writeLine level text) := by
  refine telling fun machine notes shown fits => ⟨(), _, rfl, shown, rfl, ?_, ?_⟩
  · exact forall₂_push fits.lines shown.showsAt
  · show List.Forall₂ _ machine.diagnostics.toList (notes.problems ++ [])
    rw [List.append_nil]
    exact fits.problems

theorem records {machine : Machine} {notes : Notes} (fits : machine.Matches notes) (event : Event)
    (node : Option NodeRef) :
    let result := (Actions.record event node : Logged Unit) settings machine
    Seen machine.stack (notes ++ .ofLog result.2) result.1 := by
  have nothing (log : List Entry) (unseen : Notes.ofLog log = .none) : notes ++ .ofLog log =
      notes := by
    rw [unseen, Notes.append_none]
  obtain halts | records := record_cases event node settings machine
  next =>
    have ran : (Actions.record event node : Logged Unit) settings machine =
        (.halted machine, []) := by
      simp only [Actions.record, Logged.telling, halts]
    simp only [ran, nothing [] rfl]
    exact fits
  next =>
    have ran : (Actions.record event node : Logged Unit) settings machine =
        (.done () (machine.recorded event node), [.record event]) := by
      simp only [Actions.record, Logged.telling, records]
    simp only [ran, nothing [.record event] rfl]
    exact ⟨(machine.synced_recorded event node).showsStack, rfl, fits.recorded event node⟩

theorem record (event : Event) (node : Option NodeRef) :
    Watches settings (Actions.record event node) := by
  rintro stack machine notes - rfl fits
  exact records fits event node

theorem tell {entry : Entry} (unseen : Notes.ofLog [entry] = .none) :
    Watches settings (Logged.tell entry) := by
  rintro stack machine notes shown rfl fits
  have nothing : notes ++ .ofLog [entry] = notes := by rw [unseen, Notes.append_none]
  exact ⟨shown, rfl, nothing.symm ▸ fits⟩

theorem observe {entry : Value → Entry} {code : Logged Value} (watches : Watches settings code)
    (unseen : ∀ result, Notes.ofLog [entry result] = .none) :
    Watches settings (Actions.observe entry code) :=
  watches.bind fun result _ => (tell (unseen result)).bind fun _ _ => pure result

-- A change of the stack is recorded before anything else is done, so nothing is produced in
-- between, even where the step limit is hit.
theorem changeFrame (change : List String → List String) (event : Event) (node : Option NodeRef)
    (stack : List String) :
    Sees settings stack (change stack) (do
      Logged.silent (modify fun machine => { machine with stack := change machine.stack })
      Actions.record event node) := by
  rintro machine notes shown rfl fits
  let changed : Machine := { machine with stack := change machine.stack }
  have known : changed.Matches notes := fits.of_same List.prefix_rfl rfl rfl
  exact records known event node

theorem withFrame (name : String) (node : Option NodeRef) {body : Logged α}
    (watches : Watches settings body) : Watches settings (withFrame name node body) := by
  intro stack
  have split : EventLoop.withFrame name node body = do
      (do Actions.pushFrame name; Actions.record (.push name) node)
      let result ← body
      (do Actions.popFrame; Actions.record (.pop name) node)
      return result := by simp [EventLoop.withFrame]
  rw [split]
  refine (changeFrame (name :: ·) (.push name) node stack).bind fun _ _ => ?_
  refine (watches _).bind fun result _ => ?_
  exact (changeFrame List.tail (.pop name) node _).bind fun _ _ => Sees.pure stack result

theorem createPromise (state : PromiseState) : Watches settings (Actions.createPromise state) := by
  refine still (fun _ => ⟨_, _, rfl, rfl, rfl, rfl, rfl⟩) fun _ _ => ?_
  cases state <;> rfl

theorem removeTask (id : TimerId) (node : Option NodeRef) :
    Watches settings (removeTask id node) := by
  refine bind (still (fun machine => ⟨_, _, rfl, ?_⟩) fun _ cancelled => ?_) fun cancelled _ => ?_
  · cases machine.tasks.cancel? id <;> exact ⟨rfl, rfl, rfl, rfl⟩
  · cases cancelled <;> rfl
  · cases cancelled with
    | none => exact pure ()
    | some task => exact record _ node

theorem congruence (settings : Settings) :
    Congruence (m := Logged) (n := Logged) (fun logged _ => Logged.Returns logged)
      fun logged _ => Watches settings logged where
  answers := Logged.answers
  pure := pure
  bind firsts nexts := firsts.bind nexts
  report problem span _ := report problem span
  inspect _ := still (fun _ => ⟨_, _, rfl, rfl, rfl, rfl, rfl⟩) fun _ _ => rfl
  writeLine := writeLine
  createPromise := createPromise
  keepReaction _ _ := still (fun _ => ⟨_, _, rfl, rfl, rfl, rfl, rfl⟩) fun _ _ => rfl
  addMicrotask _ node :=
    bind (still (fun _ => ⟨_, _, rfl, rfl, rfl, rfl, rfl⟩) fun _ _ => rfl) fun _ _ => record _ node
  addTask _ _ _ node := by
    refine bind (still (fun _ => ⟨_, _, rfl, rfl, rfl, rfl, rfl⟩) fun _ _ => rfl) fun id _ => ?_
    refine bind (still (fun _ => ⟨_, _, rfl, rfl, rfl, rfl, rfl⟩) fun _ _ => rfl) fun _ _ => ?_
    exact bind (record _ node) fun _ _ => pure id
  removeTask := removeTask
  uncallable := pure _
  called _ _ _ _ watches := watches.observe fun _ => rfl
  makeFunction _ _ _ := still (fun _ => ⟨_, _, rfl, rfl, rfl, rfl, rfl⟩) fun _ _ => rfl
  declare _ _ _ := still (fun _ => ⟨_, _, rfl, rfl, rfl, rfl, rfl⟩) fun _ _ => rfl
  assign _ _ _ := still (fun _ => ⟨_, _, rfl, rfl, rfl, rfl, rfl⟩) fun _ _ => rfl
  createScope _ := still (fun _ => ⟨_, _, rfl, rfl, rfl, rfl, rfl⟩) fun _ _ => rfl
  lookup _ _ := still (fun _ => ⟨_, _, rfl, rfl, rfl, rfl, rfl⟩) fun _ _ => rfl
  fulfill _ _ := still (fun _ => ⟨_, _, rfl, rfl, rfl, rfl, rfl⟩) fun _ _ => rfl
  withFrame name node _ _ := withFrame name node

theorem call (room : Nat) (callable : Callable) (arguments : List Value) :
    Watches settings (callable.call room arguments) := by
  induction room generalizing callable arguments with
  | zero =>
      refine bind (still (fun _ => ⟨_, _, rfl, rfl, rfl, rfl, rfl⟩) fun _ _ => rfl) fun _ _ => ?_
      exact (congruence settings).skip _ _ rfl
  | succ room ih => exact (congruence settings).call_succ room room ih callable arguments

theorem loopRespects (settings : Settings) :
    LoopRespects (m := Logged) (n := Logged) (fun logged _ => Logged.Returns logged)
      fun logged _ => Watches settings logged where
  toRespects := (congruence settings).toRespects
  entry callable arguments stack machine :=
    call settings.maxCallDepth callable arguments stack machine
  invoked _ _ _ _ watches := watches.observe fun _ => rfl
  settled _ _ := tell rfl
  microtaskRun _ _ _ := record _ _
  taskRun _ _ _ := record _ _
  traceSize := still (fun _ => ⟨_, _, rfl, rfl, rfl, rfl, rfl⟩) fun _ _ => rfl
  dequeueMicrotask := by
    refine still (fun machine => ⟨_, _, rfl, ?_⟩) fun _ next => by cases next <;> rfl
    cases machine.microtasks.dequeue? <;> exact ⟨rfl, rfl, rfl, rfl⟩
  dequeueTask := by
    refine still (fun machine => ⟨_, _, rfl, ?_⟩) fun _ next => by cases next <;> rfl
    cases machine.tasks.dequeue? <;> exact ⟨rfl, rfl, rfl, rfl⟩

theorem runQueues : Watches settings runQueues := by
  refine bind (still (fun _ => ⟨_, _, rfl, rfl, rfl, rfl, rfl⟩) fun _ _ => rfl) fun _ _ => ?_
  refine bind (still (fun _ => ⟨_, _, rfl, rfl, rfl, rfl, rfl⟩) fun _ _ => rfl) fun _ _ => ?_
  exact (loopRespects settings).turns _

end Watches

theorem Program.observe_sees (program : Program) {settings : Settings}
    (steps : 0 < settings.maxSteps) :
    (program.observe settings .initial).1 = program.simulate (m := Simulation) settings .initial ∧
      (program.simulate (m := Simulation) settings .initial).machine.Matches
        (program.observe settings .initial).2 := by
  have same : (program.observe settings .initial).1 =
      program.simulate (m := Simulation) settings .initial :=
    Erases.simulate program settings .initial
  refine ⟨same, ?_⟩
  -- Before the first step there is none that could show the stack.
  let code : Logged Unit := do
    let _ ← execBody (Callable.call settings.maxCallDepth) Scopes.global program.body
    runQueues
  have watches : Watches settings code :=
    ((Watches.congruence settings).execBody _ (Callable.call settings.maxCallDepth)
      (Watches.call settings.maxCallDepth) Scopes.global program.body).bind
        fun _ _ => Watches.runQueues
  have records : (Actions.record .start none : Logged Unit) settings .initial =
      (.done () .started, [.record .start]) := by
    simp [Actions.record, Logged.telling, record_start steps]
  have ran : program.simulate (m := Logged) settings .initial =
      ((code settings .started).1, [.record .start] ++ (code settings .started).2) := by
    simp only [Program.simulate, Program.prologue, bind_assoc, pure_bind]
    rw [Logged.bind_of_done records]
    rfl
  have shown : Machine.started.ShowsStack :=
    (Machine.initial.synced_recorded .start none).showsStack
  have seen := watches [] .started .none shown rfl ⟨.nil, .nil⟩
  rw [← same]
  unfold Program.observe
  rw [ran]
  exact seen.fits

end EventLoop
