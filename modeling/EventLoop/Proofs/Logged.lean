import EventLoop.Proofs.Congruence

set_option autoImplicit false

/-!
# Logged runs

The interpreter in a monad that keeps a log: what is done to the queues and to the promises, the
steps that are recorded, what builtins and callbacks return, and the stack behind each line of the
console and each diagnostic.
-/

namespace EventLoop

namespace Reactions

variable {m : Type → Type} [Monad m] [Actions m]

theorem promiseOf_of_final {value : Value} (final : value.Final) :
    (promiseOf value : m PromiseId) = Actions.createPromise (.fulfilled value) := by
  cases value with
  | promise id => exact final.elim
  | _ => rfl

theorem settle_of_final {value : Value} (final : value.Final) (id : PromiseId) :
    (settle id value : m Unit) =
      Actions.note (.settle id value) >>= fun _ =>
        Actions.fulfill id value >>= enqueueAll value := by
  cases value with
  | promise other => exact final.elim
  | _ => rfl

end Reactions

/-- A computation on the machine that keeps a log. -/
def Logged (α : Type) : Type := Settings → Machine → Outcome α × List Entry

namespace Logged

variable {α β : Type}

protected def pure (value : α) : Logged α := fun _ machine => (.done value machine, [])

protected def bind (first : Logged α) (next : α → Logged β) : Logged β := fun settings machine =>
  match first settings machine with
  | (.done value middle, early) =>
      let (outcome, late) := next value settings middle
      (outcome, early ++ late)
  | (.halted after, early) => (.halted after, early)

instance : Monad Logged where
  pure := Logged.pure
  bind := Logged.bind

def telling (entries : Machine → α → List Entry) (sim : Simulation α) : Logged α :=
  fun settings machine =>
    match sim settings machine with
    | .done value after => (.done value after, entries machine value)
    | .halted after => (.halted after, [])

def silent (sim : Simulation α) : Logged α := telling (fun _ _ => []) sim

def tell (entry : Entry) : Logged Unit := fun _ machine => (.done () machine, [entry])

instance : Actions Logged where
  settings := silent Simulation.settings
  traceSize := silent Simulation.traceSize
  record event node := telling (fun _ _ => [.record event]) (Simulation.record event node)
  report problem span :=
    telling (fun machine _ => [.problem machine.stack]) (Simulation.report problem span)
  inspect values := silent (Simulation.inspect values)
  writeLine level text :=
    telling (fun machine _ => [.line machine.stack]) (Simulation.writeLine level text)
  makeFunction binding node scope := silent (Simulation.makeFunction binding node scope)
  declare scope name value := silent (Simulation.declare scope name value)
  assign scope name value := silent (Simulation.assign scope name value)
  createScope outer := silent (Simulation.createScope outer)
  lookup scope name := silent (Simulation.lookup scope name)
  pushFrame name := silent (Simulation.pushFrame name)
  popFrame := silent Simulation.popFrame
  createPromise state :=
    telling (fun _ id => match state with
      | .pending _ => []
      | .fulfilled value => [.hold id value]) (Simulation.createPromise state)
  fulfill id value := silent (Simulation.fulfill id value)
  keepReaction id reaction :=
    telling (fun _ _ => [.subscribe id reaction]) (Simulation.keepReaction id reaction)
  enqueueMicrotask microtask :=
    telling (fun _ _ => [.enqueue microtask]) (Simulation.enqueueMicrotask microtask)
  dequeueMicrotask? :=
    telling (fun _ next => next.toList.map .dequeue) Simulation.dequeueMicrotask?
  nextTimer := silent Simulation.nextTimer
  enqueueTask task := telling (fun _ _ => [.addTask task]) (Simulation.enqueueTask task)
  dequeueTask? := telling (fun _ next => next.toList.map .takeTask) Simulation.dequeueTask?
  cancelTask? id :=
    telling (fun _ task => task.toList.map .removeTask) (Simulation.cancelTask? id)
  uncallable := pure .undefined
  note := tell
  observe entry code := do
    let result ← code
    tell (entry result)
    return result

instance : Interpreter Logged where
  calls := return Callable.call (← Actions.settings).maxCallDepth

theorem pure_apply (value : α) (settings : Settings) (machine : Machine) :
    (Pure.pure value : Logged α) settings machine = (.done value machine, []) := rfl

theorem bind_of_done {first : Logged α} {settings : Settings} {machine middle : Machine} {value : α}
    {early : List Entry} (ran : first settings machine = (.done value middle, early))
    (next : α → Logged β) :
    (first >>= next) settings machine =
      ((next value settings middle).1, early ++ (next value settings middle).2) := by
  change Logged.bind first next settings machine = _
  simp only [Logged.bind, ran]

theorem bind_of_halted {first : Logged α} {settings : Settings} {machine after : Machine}
    {early : List Entry} (ran : first settings machine = (.halted after, early))
    (next : α → Logged β) :
    (first >>= next) settings machine = (.halted after, early) := by
  change Logged.bind first next settings machine = _
  simp only [Logged.bind, ran]

theorem cases (logged : Logged α) (settings : Settings) (machine : Machine) :
    (∃ value after log, logged settings machine = (.done value after, log)) ∨
      ∃ after log, logged settings machine = (.halted after, log) := by
  cases ran : logged settings machine with
  | mk outcome log =>
      cases outcome with
      | done value after => exact .inl ⟨value, after, log, rfl⟩
      | halted after => exact .inr ⟨after, log, rfl⟩

theorem bind_pure_eq (first : Logged α) : first >>= Pure.pure = first := by
  funext settings machine
  obtain ⟨value, after, log, ran⟩ | ⟨after, log, ran⟩ := first.cases settings machine
  next => rw [bind_of_done ran, pure_apply, List.append_nil, ran]
  next => rw [bind_of_halted ran, ran]

theorem bind_assoc_eq {γ : Type} (first : Logged α) (next : α → Logged β) (last : β → Logged γ) :
    first >>= next >>= last = first >>= fun value => next value >>= last := by
  funext settings machine
  obtain ⟨value, middle, early, ran⟩ | ⟨after, early, ran⟩ := first.cases settings machine
  next =>
    have both := bind_of_done ran next
    rw [bind_of_done ran]
    obtain ⟨result, reached, late, went⟩ | ⟨after, late, went⟩ :=
      (next value).cases settings middle
    next =>
      rw [went] at both
      rw [bind_of_done both, bind_of_done went, List.append_assoc]
    next =>
      rw [went] at both
      rw [bind_of_halted both, bind_of_halted went]
  next => rw [bind_of_halted (bind_of_halted ran next), bind_of_halted ran]

instance : LawfulMonad Logged :=
  LawfulMonad.mk' Logged bind_pure_eq (fun _ _ => rfl) bind_assoc_eq

theorem observe_bind (entry : Value → Entry) (first : Logged α) (next : α → Logged Value) :
    Actions.observe entry (first >>= next) =
      first >>= fun value => Actions.observe entry (next value) :=
  bind_assoc_eq _ _ _

theorem of_bind_done {first : Logged α} {next : α → Logged β} {result : β}
    {settings : Settings} {machine after : Machine} {log : List Entry}
    (ran : (first >>= next) settings machine = (.done result after, log)) :
    ∃ value middle early late, first settings machine = (.done value middle, early) ∧
      next value settings middle = (.done result after, late) ∧ log = early ++ late := by
  obtain ⟨value, middle, early, went⟩ | ⟨stopped, early, went⟩ := first.cases settings machine
  next =>
    rw [bind_of_done went, Prod.mk.injEq] at ran
    exact ⟨value, middle, early, _, went, Prod.ext ran.1 rfl, ran.2.symm⟩
  next =>
    rw [bind_of_halted went, Prod.mk.injEq] at ran
    cases ran.1

def Returns (logged : Logged α) (value : α) : Prop :=
  ∃ settings machine after log, logged settings machine = (.done value after, log)

theorem answers : Answers (m := Logged) (n := Logged) fun logged _ => Returns logged where
  pure := by
    rintro _ _ _ ⟨_, _, _, _, same⟩
    cases same
    rfl
  bind := by
    rintro _ _ _ _ _ _ _ ⟨settings, machine, after, log, ran⟩
    obtain ⟨value, middle, early, late, first, next, -⟩ := of_bind_done ran
    exact ⟨value, ⟨settings, machine, middle, early, first⟩, settings, middle, after, late, next⟩

section Turns

variable {settings : Settings} {machine : Machine}

theorem turn_of_microtask {microtask : Microtask} {rest : List Microtask}
    (next : machine.microtasks.microtasks = microtask :: rest) :
    let ran := (do
      microtask.job.run
      Actions.record (.microtaskRun microtask.name machine.trace.size) microtask.job.ref?
      return true : Logged Bool) settings { machine with microtasks := ⟨rest⟩ }
    turn (m := Logged) settings machine = (ran.1, [.dequeue microtask] ++ ran.2) := by
  have takes : (Actions.dequeueMicrotask? : Logged (Option Microtask)) settings machine =
      (.done (some microtask) { machine with microtasks := ⟨rest⟩ }, [.dequeue microtask]) := by
    simp [Actions.dequeueMicrotask?, telling, Simulation.dequeueMicrotask?, Simulation.update,
      MicrotaskQueue.dequeue?, next]
  simp only [turn, bind_of_done takes, runMicrotask, bind_assoc]
  rfl

theorem dequeueMicrotask?_of_empty (drained : machine.microtasks.microtasks = []) :
    (Actions.dequeueMicrotask? : Logged (Option Microtask)) settings machine =
      (.done none machine, []) := by
  simp [Actions.dequeueMicrotask?, telling, Simulation.dequeueMicrotask?, Simulation.update,
    MicrotaskQueue.dequeue?, drained]

theorem turn_of_task {task : Task} {rest : List Task}
    (drained : machine.microtasks.microtasks = []) (next : machine.tasks.tasks = task :: rest) :
    let ran := (do
      let _ ← callValue task.callback task.arguments
      Actions.record (.taskRun task.name machine.trace.size) task.callback.callbackRef?
      return true : Logged Bool) settings
        { machine with
          tasks := { machine.tasks with tasks := rest }
          clock := machine.clock.advance task.delay }
    turn (m := Logged) settings machine = (ran.1, [.takeTask task] ++ ran.2) := by
  have takes : (Actions.dequeueTask? : Logged (Option Task)) settings machine =
      (.done (some task) { machine with
        tasks := { machine.tasks with tasks := rest }
        clock := machine.clock.advance task.delay }, [.takeTask task]) := by
    simp [Actions.dequeueTask?, telling, Simulation.dequeueTask?, Simulation.update,
      TaskQueue.dequeue?, next]
  simp only [turn, bind_of_done (dequeueMicrotask?_of_empty drained), bind_of_done takes, runTask,
    bind_assoc]
  rfl

theorem turn_of_empty (drained : machine.microtasks.microtasks = [])
    (nothing : machine.tasks.tasks = []) :
    turn (m := Logged) settings machine = (.done false machine, []) := by
  have takes : (Actions.dequeueTask? : Logged (Option Task)) settings machine =
      (.done none machine, []) := by
    simp [Actions.dequeueTask?, telling, Simulation.dequeueTask?, Simulation.update,
      TaskQueue.dequeue?, nothing]
  simp only [turn, bind_of_done (dequeueMicrotask?_of_empty drained), bind_of_done takes]
  rfl

end Turns

end Logged

open Simulation

def Erases {α : Type} (sim : Simulation α) (logged : Logged α) : Prop :=
  ∀ settings machine, (logged settings machine).1 = sim settings machine

namespace Erases

variable {α β : Type}

theorem telling (entries : Machine → α → List Entry) (sim : Simulation α) :
    Erases sim (.telling entries sim) := by
  intro settings machine
  unfold Logged.telling
  cases sim settings machine <;> rfl

theorem silent (sim : Simulation α) : Erases sim (.silent sim) := .telling _ sim

theorem pure (value : α) : Erases (Pure.pure value) (Pure.pure value) := fun _ _ => rfl

theorem bind {first : Simulation α} {first' : Logged α} {next : α → Simulation β}
    {next' : α → Logged β} (firsts : Erases first first')
    (nexts : ∀ value, Returns first value → Erases (next value) (next' value)) :
    Erases (first >>= next) (first' >>= next') := by
  intro settings machine
  have same := firsts settings machine
  rw [bind_apply, ← same]
  obtain ⟨value, middle, early, ran⟩ | ⟨after, early, ran⟩ := first'.cases settings machine
  next =>
    rw [ran] at same
    rw [Logged.bind_of_done ran, ran]
    exact nexts value ⟨settings, machine, middle, same.symm⟩ settings middle
  next => rw [Logged.bind_of_halted ran, ran]

theorem observe (entry : Value → Entry) {sim : Simulation Value} {code : Logged Value}
    (erases : Erases sim code) : Erases sim (Actions.observe entry code) := by
  have told (result : Value) :
      Erases (Pure.pure result) (do Logged.tell (entry result); return result) :=
    fun _ _ => rfl
  have whole := erases.bind fun result _ => told result
  rwa [bind_pure] at whole

theorem answers : Answers (m := Simulation) (n := Logged) fun sim _ => Returns sim where
  pure returns := returns.of_pure
  bind returns := returns.of_bind

theorem congruence : Congruence (fun sim _ => Returns sim) Erases where
  answers := answers
  pure := .pure
  bind := .bind
  report _ _ _ := .telling _ _
  inspect _ := .silent _
  writeLine _ _ := .telling _ _
  createPromise _ := .telling _ _
  keepReaction _ _ := .telling _ _
  addMicrotask _ _ := .bind (.telling _ _) fun _ _ => .telling _ _
  addTask _ _ _ _ := by
    refine .bind (.silent _) fun _ _ => .bind (.telling _ _) fun _ _ => ?_
    exact .bind (.telling _ _) fun _ _ => .pure _
  removeTask _ _ := by
    refine .bind (.telling _ _) fun cancelled _ => ?_
    cases cancelled with
    | none => exact .pure _
    | some task => exact .telling _ _
  uncallable := .pure _
  called _ _ _ _ := .observe _
  makeFunction _ _ _ := .silent _
  declare _ _ _ := .silent _
  assign _ _ _ := .silent _
  createScope _ := .silent _
  lookup _ _ := .silent _
  fulfill _ _ := .silent _
  withFrame _ _ _ _ bodies := by
    refine .bind (.silent _) fun _ _ => .bind (.telling _ _) fun _ _ => .bind bodies fun _ _ => ?_
    exact .bind (.silent _) fun _ _ => .bind (.telling _ _) fun _ _ => .pure _

theorem call (room : Nat) (callable : Callable) (arguments : List Value) :
    Erases (callable.call room arguments) (callable.call room arguments) := by
  induction room generalizing callable arguments with
  | zero => exact .bind (.silent _) fun limits _ => congruence.skip _ _ rfl
  | succ room ih => exact congruence.call_succ room room ih callable arguments

theorem calls {next : FunctionCalls Simulation → Simulation α}
    {next' : FunctionCalls Logged → Logged α}
    (nexts : ∀ room, Erases (next (Callable.call room)) (next' (Callable.call room))) :
    Erases (Interpreter.calls >>= next) (Interpreter.calls >>= next') :=
  fun settings machine => nexts settings.maxCallDepth settings machine

theorem loopRespects : LoopRespects (fun sim _ => Returns sim) Erases where
  toRespects := congruence.toRespects
  entry callable arguments := calls fun room => call room callable arguments
  invoked _ _ _ _ := .observe _
  settled _ _ := fun _ _ => rfl
  microtaskRun _ _ _ := .telling _ _
  taskRun _ _ _ := .telling _ _
  traceSize := .silent _
  dequeueMicrotask := .telling _ _
  dequeueTask := .telling _ _

theorem prologue (program : Program) : Erases program.prologue program.prologue := by
  refine .bind (.telling _ _) fun _ _ => calls fun room => ?_
  exact congruence.program _ _ (call room) program

theorem simulate (program : Program) : Erases program.simulate program.simulate := by
  refine (prologue program).bind fun _ _ => .bind (.silent _) fun _ _ => ?_
  exact .bind (.silent _) fun _ _ => loopRespects.turns _

end Erases

end EventLoop
