import EventLoop.Proofs.Judgement

set_option autoImplicit false

/-!
# Judgements about builtins and turns

Builtins, jobs and turns are made of few actions on the promises and on the queues.
-/

namespace EventLoop

structure Sorts (World : Type) where
  Good : World → Value → Prop
  Held : World → Value → Prop
  Callback : World → Value → Prop

section Sorts

variable {World : Type} (sorts : Sorts World) (world : World)

def Handler.Fits : Handler → Prop
  | .callback value => sorts.Callback world value
  | .passThrough => True
  | .restore saved => sorts.Held world saved

structure Reaction.Fits (reaction : Reaction) : Prop where
  handler : reaction.handler.Fits sorts world
  derived : sorts.Good world (.promise reaction.derived)

def Job.Fits : Job → Prop
  | .callback value => sorts.Callback world value
  | .reaction waiting value => waiting.Fits sorts world ∧ sorts.Held world value
  | .follow promise other =>
      sorts.Good world (.promise promise) ∧ sorts.Good world (.promise other)

structure Task.Fits (task : Task) : Prop where
  callback : sorts.Callback world task.callback
  arguments : ∀ argument ∈ task.arguments, sorts.Good world argument

end Sorts

section Calculi

variable {m n : Type → Type} [Monad m] [Monad n] {World : Type} [Preorder World]

structure HostCalculus [Actions m] [Actions n] (sorts : Sorts World)
    (Holds : ∀ {α : Type}, World → (World → α → Prop) → m α → n α → Prop) : Prop
    extends Rules sorts.Good Holds where
  owner {world : World} {kind : ReactionKind} {id : PromiseId} :
    sorts.Good world (.builtin (.promiseMethod kind id)) → sorts.Good world (.promise id)
  hold {world : World} {value : Value} :
    value.Final → sorts.Good world value → sorts.Held world value
  held {world : World} {value : Value} : sorts.Held world value → sorts.Good world value
  await {world : World} {value : Value} :
    value.isCallable = true → sorts.Good world value → sorts.Callback world value
  awaited {world : World} {value : Value} : sorts.Callback world value → sorts.Good world value
  growHeld {world later : World} {value : Value} :
    world ≤ later → sorts.Held world value → sorts.Held later value
  growCallback {world later : World} {value : Value} :
    world ≤ later → sorts.Callback world value → sorts.Callback later value
  report {world : World} (problem : Problem) (span : Option Span) :
    problem.isStepLimit = false →
      Holds world (fun _ _ => True) (Actions.report problem span) (Actions.report problem span)
  write {world : World} (level : ConsoleLevel) {arguments : List Value} :
    (∀ argument ∈ arguments, sorts.Good world argument) →
      Holds world (fun _ _ => True) (level.write arguments) (level.write arguments)
  createPending {world : World} :
    Holds world (fun later id => sorts.Good later (.promise id))
      (Actions.createPromise (.pending [])) (Actions.createPromise (.pending []))
  createFulfilled {world : World} {value : Value} : sorts.Held world value →
    Holds world (fun later id => sorts.Good later (.promise id))
      (Actions.createPromise (.fulfilled value)) (Actions.createPromise (.fulfilled value))
  keepReaction {world : World} {source : PromiseId} {reaction : Reaction} :
    sorts.Good world (.promise source) → reaction.Fits sorts world →
      Holds world (fun later settled => ∀ value ∈ settled, sorts.Held later value)
        (Actions.keepReaction source reaction) (Actions.keepReaction source reaction)
  -- Queues are not open to single changes: each change is recorded at once.
  addMicrotask {world : World} {microtask : Microtask} (node : Option NodeRef) :
    microtask.job.Fits sorts world →
      Holds world (fun _ _ => True) (addMicrotask microtask node) (addMicrotask microtask node)
  addTask {world : World} (entry : TaskEntry) {callback : Value} {arguments : List Value}
    (node : Option NodeRef) : sorts.Callback world callback →
      (∀ argument ∈ arguments, sorts.Good world argument) →
      Holds world (fun _ _ => True) (addTask entry callback arguments node)
        (addTask entry callback arguments node)
  removeTask {world : World} (id : TimerId) (node : Option NodeRef) :
    Holds world (fun _ _ => True) (removeTask id node) (removeTask id node)
  called {world : World} (builtin : Builtin) (arguments : List Value) {code : m Value}
    {code' : n Value} : Holds world sorts.Good code code' →
      Holds world sorts.Good (Actions.observe (.call builtin arguments) code)
        (Actions.observe (.call builtin arguments) code')

structure JobCalculus [Interpreter m] [Interpreter n] (sorts : Sorts World)
    (Holds : ∀ {α : Type}, World → (World → α → Prop) → m α → n α → Prop) : Prop
    extends HostCalculus sorts Holds where
  fulfill {world : World} {id : PromiseId} {value : Value} : sorts.Good world (.promise id) →
    sorts.Held world value →
      Holds world (fun later released => ∀ reaction ∈ released, reaction.Fits sorts later)
        (Actions.fulfill id value) (Actions.fulfill id value)
  entry {world : World} {callable : Callable} {arguments : List Value} :
    sorts.Good world (.function callable) → (∀ argument ∈ arguments, sorts.Good world argument) →
      Holds world sorts.Good (invoke (.function callable) arguments)
        (invoke (.function callable) arguments)
  uncallable {world : World} {callee : Value} : sorts.Callback world callee →
    callee.isCallable = false → Holds world sorts.Good Actions.uncallable Actions.uncallable
  invoked {world : World} (callee : Value) (arguments : List Value) {code : m Value}
    {code' : n Value} : Holds world sorts.Good code code' →
      Holds world sorts.Good (Actions.observe (.invoke callee arguments) code)
        (Actions.observe (.invoke callee arguments) code')
  settled {world : World} (id : PromiseId) (value : Value) :
    Holds world (fun _ _ => True) (Actions.note (.settle id value))
      (Actions.note (.settle id value))

structure LoopCalculus [Interpreter m] [Interpreter n] (sorts : Sorts World)
    (Holds : ∀ {α : Type}, World → (World → α → Prop) → m α → n α → Prop) : Prop
    extends JobCalculus sorts Holds where
  microtaskRun {world : World} (name : String) (firstStep : Nat) (node : Option NodeRef) :
    Holds world (fun _ _ => True) (Actions.record (.microtaskRun name firstStep) node)
      (Actions.record (.microtaskRun name firstStep) node)
  taskRun {world : World} (name : String) (firstStep : Nat) (node : Option NodeRef) :
    Holds world (fun _ _ => True) (Actions.record (.taskRun name firstStep) node)
      (Actions.record (.taskRun name firstStep) node)
  traceSize {world : World} : Holds world (fun _ _ => True) Actions.traceSize Actions.traceSize
  dequeueMicrotask {world : World} :
    Holds world (fun later next => ∀ microtask ∈ next, microtask.job.Fits sorts later)
      Actions.dequeueMicrotask? Actions.dequeueMicrotask?
  dequeueTask {world : World} :
    Holds world (fun later next => ∀ task ∈ next, task.Fits sorts later)
      Actions.dequeueTask? Actions.dequeueTask?

end Calculi

namespace HostCalculus

variable {m n : Type → Type} [Monad m] [Actions m] [Monad n] [Actions n]
variable {World : Type} [Preorder World] {sorts : Sorts World}
variable {Holds : ∀ {α : Type}, World → (World → α → Prop) → m α → n α → Prop}
variable (calculus : HostCalculus sorts Holds) {world later : World} {arguments : List Value}

include calculus

theorem growReaction (grown : world ≤ later) {reaction : Reaction}
    (fits : reaction.Fits sorts world) : reaction.Fits sorts later := by
  obtain ⟨kind, handler, derived⟩ := reaction
  obtain ⟨handled, known⟩ := fits
  refine ⟨?_, calculus.grow grown known⟩
  cases handler with
  | callback callback => exact calculus.growCallback grown handled
  | passThrough => trivial
  | restore saved => exact calculus.growHeld grown handled

theorem growJob (grown : world ≤ later) {job : Job} (fits : job.Fits sorts world) :
    job.Fits sorts later := by
  cases job with
  | callback value => exact calculus.growCallback grown fits
  | reaction waiting value =>
      exact ⟨calculus.growReaction grown fits.1, calculus.growHeld grown fits.2⟩
  | follow promise other => exact ⟨calculus.grow grown fits.1, calculus.grow grown fits.2⟩

theorem head (all : ∀ argument ∈ arguments, sorts.Good world argument) :
    sorts.Good world (arguments.head?.getD .undefined) := by
  cases same : arguments.head? with
  | none => exact calculus.plain trivial
  | some argument => exact all argument (List.mem_of_mem_head? same)

theorem enqueue {reaction : Reaction} {value : Value} (fits : reaction.Fits sorts world)
    (held : sorts.Held world value) :
    Holds world (fun _ _ => True) (Reactions.enqueue reaction value)
      (Reactions.enqueue reaction value) :=
  calculus.addMicrotask none ⟨fits, held⟩

theorem subscribe {source : PromiseId} {reaction : Reaction}
    (known : sorts.Good world (.promise source)) (fits : reaction.Fits sorts world) :
    Holds world (fun _ _ => True) (Reactions.subscribe source reaction)
      (Reactions.subscribe source reaction) := by
  refine calculus.bind (calculus.keepReaction known fits) fun _ settled grown held => ?_
  cases settled with
  | none => exact calculus.pure trivial
  | some value => exact calculus.enqueue (calculus.growReaction grown fits) (held value rfl)

theorem promiseOf {value : Value} (good : sorts.Good world value) :
    Holds world (fun later id => sorts.Good later (.promise id)) (Reactions.promiseOf value)
      (Reactions.promiseOf value) := by
  cases value with
  | promise id => exact calculus.pure good
  | _ => exact calculus.createFulfilled (calculus.hold trivial good)

theorem handler (all : ∀ argument ∈ arguments, sorts.Good world argument) :
    (Handler.ofArguments arguments).Fits sorts world := by
  cases arguments with
  | nil => trivial
  | cons argument rest =>
      simp only [Handler.ofArguments, List.head?_cons]
      split
      next callable => exact calculus.await callable (all argument List.mem_cons_self)
      next => trivial

theorem register (kind : ReactionKind) {source : PromiseId}
    (known : sorts.Good world (.promise source))
    (all : ∀ argument ∈ arguments, sorts.Good world argument) :
    Holds world sorts.Good (Reactions.register kind source arguments)
      (Reactions.register kind source arguments) := by
  refine calculus.bind calculus.createPending fun _ derived created new => ?_
  have handled := calculus.handler fun argument member =>
    calculus.grow created (all argument member)
  refine calculus.bind (calculus.subscribe (calculus.grow created known) ⟨handled, new⟩)
    fun _ _ grown _ => ?_
  exact calculus.pure (calculus.grow grown new)

theorem setTimeout (all : ∀ argument ∈ arguments, sorts.Good world argument)
    (site : Option CallSite) :
    Holds world sorts.Good (Timers.setTimeout arguments site)
      (Timers.setTimeout arguments site) := by
  unfold Timers.setTimeout
  dsimp only
  split
  next callable =>
    refine calculus.bind (calculus.addTask _ _ (calculus.await callable (calculus.head all)) ?_)
      fun _ _ _ _ => calculus.pure (calculus.plain trivial)
    exact fun argument member => all argument (List.mem_of_mem_drop member)
  next => exact calculus.thenPlain (calculus.report _ _ rfl) trivial

theorem clearTimeout (arguments : List Value) (site : Option CallSite) :
    Holds world sorts.Good (Timers.clearTimeout arguments site)
      (Timers.clearTimeout arguments site) := by
  unfold Timers.clearTimeout
  split
  next => exact calculus.pure (calculus.plain trivial)
  next => exact calculus.thenPlain (calculus.removeTask _ _) trivial

theorem queueMicrotask (all : ∀ argument ∈ arguments, sorts.Good world argument)
    (site : Option CallSite) :
    Holds world sorts.Good (Timers.queueMicrotask arguments site)
      (Timers.queueMicrotask arguments site) := by
  unfold Timers.queueMicrotask
  dsimp only
  split
  next callable =>
    have awaits : Job.Fits sorts world (.callback (arguments.head?.getD .undefined)) :=
      calculus.await callable (calculus.head all)
    exact calculus.thenPlain (calculus.addMicrotask _ awaits) trivial
  next => exact calculus.thenPlain (calculus.report _ _ rfl) trivial

theorem perform {builtin : Builtin} (callable : builtin.isCallable = true)
    (good : sorts.Good world (.builtin builtin))
    (all : ∀ argument ∈ arguments, sorts.Good world argument) (site : Option CallSite) :
    Holds world sorts.Good (builtin.perform arguments site) (builtin.perform arguments site) := by
  cases builtin with
  | setTimeout => exact calculus.setTimeout all site
  | clearTimeout => exact calculus.clearTimeout arguments site
  | queueMicrotask => exact calculus.queueMicrotask all site
  | consoleMethod level => exact calculus.thenPlain (calculus.write level all) trivial
  | promiseResolve =>
      exact calculus.bind (calculus.promiseOf (calculus.head all)) fun _ _ _ known =>
        calculus.pure known
  | promiseMethod kind id => exact calculus.register kind (calculus.owner good) all
  | console => cases callable
  | promise => cases callable

theorem builtin {builtin : Builtin} (callable : builtin.isCallable = true)
    (good : sorts.Good world (.builtin builtin))
    (all : ∀ argument ∈ arguments, sorts.Good world argument) (site : Option CallSite) :
    Holds world sorts.Good (builtin.call arguments site) (builtin.call arguments site) :=
  calculus.called _ _ (calculus.perform callable good all site)

theorem restoreAfter {outcome saved : Value} (good : sorts.Good world outcome)
    (held : sorts.Held world saved) :
    Holds world sorts.Good (Reactions.restoreAfter outcome saved)
      (Reactions.restoreAfter outcome saved) := by
  refine calculus.bind (calculus.promiseOf good) fun _ waited grown known => ?_
  refine calculus.bind calculus.createPending fun _ restored created new => ?_
  have saves := calculus.growHeld created (calculus.growHeld grown held)
  refine calculus.bind (calculus.subscribe (calculus.grow created known) ⟨saves, new⟩)
    fun _ _ grown _ => ?_
  exact calculus.pure (calculus.grow grown new)

end HostCalculus

namespace JobCalculus

variable {m n : Type → Type} [Monad m] [Interpreter m] [Monad n] [Interpreter n]
variable {World : Type} [Preorder World] {sorts : Sorts World}
variable {Holds : ∀ {α : Type}, World → (World → α → Prop) → m α → n α → Prop}
variable (calculus : JobCalculus sorts Holds) {world : World}

include calculus

theorem invoke {callee : Value} {arguments : List Value} (awaits : sorts.Callback world callee)
    (all : ∀ argument ∈ arguments, sorts.Good world argument) :
    Holds world sorts.Good (EventLoop.invoke callee arguments)
      (EventLoop.invoke callee arguments) := by
  have good := calculus.awaited awaits
  cases callable : callee.isCallable with
  | true =>
      cases callee with
      | function callable => exact calculus.entry good all
      | builtin builtin => exact calculus.builtin callable good all none
      | _ => cases callable
  | false =>
      have nothing := calculus.uncallable awaits callable
      cases callee with
      | function => cases callable
      | builtin builtin =>
          cases builtin with
          | console | promise => exact calculus.called _ _ nothing
          | _ => cases callable
      | _ => exact nothing

theorem callValue {callee : Value} {arguments : List Value} (awaits : sorts.Callback world callee)
    (all : ∀ argument ∈ arguments, sorts.Good world argument) :
    Holds world sorts.Good (EventLoop.callValue callee arguments)
      (EventLoop.callValue callee arguments) :=
  calculus.invoked _ _ (calculus.invoke awaits all)

theorem enqueueAll {value : Value} (held : sorts.Held world value) {reactions : List Reaction}
    (all : ∀ reaction ∈ reactions, reaction.Fits sorts world) :
    Holds world (fun _ _ => True) (Reactions.enqueueAll value reactions)
      (Reactions.enqueueAll value reactions) := by
  induction reactions generalizing world with
  | nil => exact calculus.pure trivial
  | cons reaction rest ih =>
      obtain ⟨fits, others⟩ := List.forall_mem_cons.mp all
      refine calculus.bind (calculus.enqueue fits held) fun _ _ grown _ => ?_
      exact ih (calculus.growHeld grown held) fun other member =>
        calculus.growReaction grown (others other member)

theorem settle {id : PromiseId} {value : Value} (known : sorts.Good world (.promise id))
    (good : sorts.Good world value) :
    Holds world (fun _ _ => True) (Reactions.settle id value) (Reactions.settle id value) := by
  refine calculus.bind (calculus.settled _ _) fun later _ grown _ => ?_
  have known := calculus.grow grown known
  have good := calculus.grow grown good
  -- Any value but a promise is one that the promise can hold.
  have fulfills (final : value.Final) : Holds later (fun _ _ => True)
      (do Reactions.enqueueAll value (← Actions.fulfill id value))
      (do Reactions.enqueueAll value (← Actions.fulfill id value)) := by
    have held := calculus.hold final good
    exact calculus.bind (calculus.fulfill known held) fun _ _ grown released =>
      calculus.enqueueAll (calculus.growHeld grown held) released
  cases value with
  | promise other =>
      dsimp only
      split
      next => exact calculus.pure trivial
      next => exact calculus.addMicrotask none ⟨known, good⟩
  | _ => exact fulfills trivial

theorem result {reaction : Reaction} {value : Value} (fits : reaction.Fits sorts world)
    (held : sorts.Held world value) :
    Holds world sorts.Good (Reactions.result EventLoop.callValue reaction value)
      (Reactions.result EventLoop.callValue reaction value) := by
  obtain ⟨kind, handler, derived⟩ := reaction
  have good := calculus.held held
  have handled := fits.handler
  cases handler with
  | passThrough => cases kind <;> exact calculus.pure good
  | restore saved => cases kind <;> exact calculus.pure (calculus.held handled)
  | callback callback =>
      cases kind with
      | onThen => exact calculus.callValue handled (by simpa using good)
      | onCatch => exact calculus.pure good
      | onFinally =>
          exact calculus.bind (calculus.callValue handled (by simp)) fun _ _ grown outcome =>
            calculus.restoreAfter outcome (calculus.growHeld grown held)

theorem job {job : Job} (fits : job.Fits sorts world) :
    Holds world (fun _ _ => True) job.run job.run := by
  cases job with
  | callback callback =>
      exact calculus.bind (calculus.callValue fits (by simp)) fun _ _ _ _ => calculus.pure trivial
  | reaction reaction value =>
      exact calculus.bind (calculus.result fits.1 fits.2) fun _ _ grown outcome =>
        calculus.settle (calculus.grow grown fits.1.derived) outcome
  | follow promise other => exact calculus.subscribe fits.2 ⟨trivial, fits.1⟩

end JobCalculus

namespace LoopCalculus

variable {m n : Type → Type} [Monad m] [Interpreter m] [Monad n] [Interpreter n]
variable {World : Type} [Preorder World] {sorts : Sorts World}
variable {Holds : ∀ {α : Type}, World → (World → α → Prop) → m α → n α → Prop}
variable (calculus : LoopCalculus sorts Holds) {world : World}

include calculus

theorem runMicrotask {microtask : Microtask} (fits : microtask.job.Fits sorts world) :
    Holds world (fun _ _ => True) (runMicrotask microtask) (runMicrotask microtask) := by
  refine calculus.bind calculus.traceSize fun _ firstStep grown _ => ?_
  exact calculus.bind (calculus.job (calculus.growJob grown fits)) fun _ _ _ _ =>
    calculus.microtaskRun _ _ _

theorem runTask {task : Task} (fits : task.Fits sorts world) :
    Holds world (fun _ _ => True) (runTask task) (runTask task) := by
  refine calculus.bind calculus.traceSize fun _ firstStep grown _ => ?_
  have called := calculus.callValue (calculus.growCallback grown fits.callback)
    fun argument member => calculus.grow grown (fits.arguments argument member)
  exact calculus.bind called fun _ _ _ _ => calculus.taskRun _ _ _

theorem turn : Holds world (fun _ _ => True) turn turn := by
  refine calculus.bind calculus.dequeueMicrotask fun _ next _ microtasks => ?_
  cases next with
  | some microtask =>
      exact calculus.bind (calculus.runMicrotask (microtasks microtask rfl)) fun _ _ _ _ =>
        calculus.pure trivial
  | none =>
      refine calculus.bind calculus.dequeueTask fun _ next _ tasks => ?_
      cases next with
      | none => exact calculus.pure trivial
      | some task =>
          exact calculus.bind (calculus.runTask (tasks task rfl)) fun _ _ _ _ =>
            calculus.pure trivial

theorem turns (count : Nat) : Holds world (fun _ _ => True) (turns count) (turns count) := by
  induction count generalizing world with
  | zero => exact calculus.pure trivial
  | succ count ih =>
      refine calculus.bind calculus.turn fun _ more _ _ => ?_
      cases more with
      | false => exact calculus.pure trivial
      | true => exact ih

end LoopCalculus

end EventLoop
