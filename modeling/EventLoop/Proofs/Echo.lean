import EventLoop.Proofs.Turns

set_option autoImplicit false

/-!
# Echoed lines

Lines that are handed out while a run goes on are never looked at again. A run is therefore the same
with and without echo, and what is handed out is the console of the run.
-/

namespace EventLoop

open Simulation

def Settings.quiet (settings : Settings) : Settings := { settings with echoConsole := false }

def Machine.muted (machine : Machine) : Machine := { machine with echoed := #[] }

def Outcome.muted {α : Type} : Outcome α → Outcome α
  | .done value machine => .done value machine.muted
  | .halted machine => .halted machine.muted

def Mutes (settings : Settings) {α : Type} (sim sim' : Simulation α) : Prop :=
  ∀ machine : Machine, sim' settings.quiet machine.muted = (sim settings machine).muted

namespace Mutes

variable {settings : Settings}

theorem bind {α β : Type} {first first' : Simulation α} {next next' : α → Simulation β}
    (firsts : Mutes settings first first')
    (nexts : ∀ value, Returns first value → Mutes settings (next value) (next' value)) :
    Mutes settings (first >>= next) (first' >>= next') := by
  intro machine
  rw [bind_apply, bind_apply, firsts machine]
  cases result : first settings machine with
  | halted after => rfl
  | done value middle => exact nexts value ⟨_, _, _, result⟩ middle

theorem record (event : Event) (node : Option NodeRef) :
    Mutes settings (record event node) (record event node) := by
  intro machine
  unfold Simulation.record
  by_cases full : settings.maxSteps ≤ machine.trace.size
  next => simp [Settings.quiet, Machine.muted, Outcome.muted, full]
  next => simp [Settings.quiet, Machine.muted, Outcome.muted, Machine.snapshot, full]

theorem writeLine (level : ConsoleLevel) (text : String) :
    Mutes settings (writeLine level text) (writeLine level text) := by
  intro machine
  simp [Simulation.writeLine, Settings.quiet, Machine.muted, Outcome.muted, Machine.lastStep]

theorem cancelTask (id : TimerId) : Mutes settings (cancelTask? id) (cancelTask? id) := by
  intro machine
  simp only [cancelTask?, update, Machine.muted]
  cases machine.tasks.cancel? id <;> rfl

theorem congruence (settings : Settings) :
    Congruence Returned fun sim sim' => Mutes settings sim sim' where
  answers := Returned.answers
  pure _ := fun _ => rfl
  bind first next := first.bind fun value returns => next value (.inl returns)
  report _ _ _ := fun _ => rfl
  writeLine := writeLine
  makeFunction _ _ _ := fun _ => rfl
  declare _ _ _ := fun _ => rfl
  assign _ _ _ := fun _ => rfl
  createScope _ := fun _ => rfl
  lookup _ _ := fun _ => rfl
  inspect _ := fun _ => rfl
  uncallable := fun _ => rfl
  called _ _ _ _ mutes := mutes
  createPromise _ := fun _ => rfl
  fulfill _ _ := fun _ => rfl
  keepReaction _ _ := fun _ => rfl
  -- What is made of several actions is muted action by action.
  addMicrotask microtask node := by
    have enqueues : Mutes settings (enqueueMicrotask microtask) (enqueueMicrotask microtask) :=
      fun _ => rfl
    exact enqueues.bind fun _ _ => record _ _
  addTask entry callback arguments node := by
    have numbers : Mutes settings nextTimer nextTimer := fun _ => rfl
    refine numbers.bind fun id _ => ?_
    have enqueues (task : Task) : Mutes settings (enqueueTask task) (enqueueTask task) :=
      fun _ => rfl
    refine (enqueues _).bind fun _ _ => ?_
    exact (record _ _).bind fun _ _ _ => rfl
  removeTask id node := by
    refine (cancelTask id).bind fun cancelled _ => ?_
    cases cancelled with
    | none => exact fun _ => rfl
    | some task => exact record _ _
  withFrame name node _ _ bodies := by
    have pushes : Mutes settings (pushFrame name) (pushFrame name) := fun _ => rfl
    have pops : Mutes settings popFrame popFrame := fun _ => rfl
    refine pushes.bind fun _ _ => (record _ _).bind fun _ _ => ?_
    refine bodies.bind fun _ _ => pops.bind fun _ _ => ?_
    exact (record _ _).bind fun _ _ _ => rfl

theorem call (room : Nat) (callable : Callable) (arguments : List Value) :
    Mutes settings (callable.call room arguments) (callable.call room arguments) := by
  induction room generalizing callable arguments with
  | zero => exact fun _ => rfl
  | succ room ih => exact (congruence settings).call_succ room room ih callable arguments

theorem loopRespects (settings : Settings) :
    LoopRespects Returned fun sim sim' => Mutes settings sim sim' where
  toRespects := (congruence settings).toRespects
  microtaskRun _ _ := record _
  taskRun _ _ := record _
  traceSize := fun _ => rfl
  dequeueMicrotask := by
    intro machine
    simp only [Actions.dequeueMicrotask?, dequeueMicrotask?, update, Machine.muted]
    cases machine.microtasks.dequeue? <;> rfl
  dequeueTask := by
    intro machine
    simp only [Actions.dequeueTask?, dequeueTask?, update, Machine.muted]
    cases machine.tasks.dequeue? <;> rfl
  entry callable arguments := fun machine => call settings.maxCallDepth callable arguments machine
  invoked _ _ _ _ mutes := mutes
  settled _ _ := fun _ => rfl

theorem simulate (program : Program) : Mutes settings program.simulate program.simulate := by
  have related := (loopRespects settings).toRespects
  let calls : FunctionCalls Simulation := Callable.call settings.maxCallDepth
  have body := related.program calls calls (call settings.maxCallDepth) program
  -- Neither limit is touched, so both runs call with the same room and take the same turns.
  have prologue : Mutes settings program.prologue program.prologue :=
    (record .start none).bind fun _ _ machine => body machine
  exact prologue.bind fun _ _ machine => (loopRespects settings).turns
    (settings.maxSteps - machine.trace.size + 1) machine

end Mutes

def ConsoleLine.echo (line : ConsoleLine) : ConsoleLevel × String := (line.level, line.text)

def Machine.Echoes (settings : Settings) (machine : Machine) : Prop :=
  machine.echoed = if settings.echoConsole then machine.console.map ConsoleLine.echo else #[]

theorem Move.echoes {settings : Settings} {machine after : Machine}
    (move : Move settings machine after) (echoes : machine.Echoes settings) :
    after.Echoes settings := by
  cases move with
  | writeLine level text =>
      unfold Machine.Echoes at echoes ⊢
      cases loud : settings.echoConsole <;> simp_all [ConsoleLine.echo]
  | change node change room => cases change <;> exact echoes
  | _ => exact echoes

theorem Program.run_echoed (program : Program) (settings : Settings) :
    (program.run settings).echoed =
      if settings.echoConsole then (program.run settings).console.map ConsoleLine.echo else
        #[] := by
  have nothing : Machine.initial.Echoes settings := by
    cases loud : settings.echoConsole <;> simp [Machine.Echoes, Machine.initial, loud]
  obtain noSteps | steps := Nat.eq_zero_or_pos settings.maxSteps
  next =>
    rw [program.run_unstarted noSteps]
    exact nothing
  next =>
    have taken {before entered : Machine} {event : Event} (dispatch : Dispatch before event entered)
        (echoes : before.Echoes settings) : entered.Echoes settings := by
      cases dispatch <;> exact echoes
    obtain ⟨last, echoes, -, ran⟩ | ⟨last, echoes, ran⟩ :=
      program.run_invariant nothing Move.echoes taken (fun _ _ _ echoes => echoes) steps
    all_goals
      rw [ran]
      exact echoes

theorem Outcome.toRun_muted (outcome : Outcome Unit) :
    outcome.muted.toRun = { outcome.toRun with echoed := #[] } := by
  cases outcome <;> rfl

/-- A run without echo hands nothing out. With echo it is the same run, whether the step limit ends
it or not, and hands out the level and the text of each line of its console, once and in order. -/
theorem Program.run_echo (program : Program) (settings : Settings) :
    let quiet := program.run { settings with echoConsole := false }
    quiet.echoed = #[] ∧
      program.run { settings with echoConsole := true } =
        { quiet with echoed := quiet.console.map fun line => (line.level, line.text) } := by
  let loud : Settings := { settings with echoConsole := true }
  have muted : Mutes loud program.simulate program.simulate := Mutes.simulate program
  have same : program.run { settings with echoConsole := false } =
      { program.run loud with echoed := #[] } := by
    unfold Program.run
    rw [← Outcome.toRun_muted, ← muted .initial]
    rfl
  have echoed := program.run_echoed loud
  intro quiet
  constructor
  next => exact program.run_echoed { settings with echoConsole := false }
  next =>
    simp only [quiet, same]
    rw [if_pos rfl] at echoed
    exact congrArg (fun lines => { program.run _ with echoed := lines }) echoed

end EventLoop
