import EventLoop.Proofs.Effects
import EventLoop.Proofs.Logged

set_option autoImplicit false

/-!
# What a turn writes to its log

A turn takes a microtask or a task out of its queue and does what that asks for.
-/

namespace EventLoop

/-- What the code of the program and the builtins that it calls can write. -/
def Entry.OfCode : Entry → Prop
  | .invoke .. | .settle .. | .dequeue _ | .takeTask _ => False
  | _ => True

def Microtask.queuing (microtask : Microtask) : List Entry :=
  [.enqueue microtask, .record (.microtaskEnqueued microtask.name)]

def Reaction.queuing (reaction : Reaction) (value : Value) : List Entry :=
  Microtask.queuing ⟨reaction.name, .reaction reaction value⟩

inductive Subscribed (source : PromiseId) (reaction : Reaction) : List Entry → Prop where
  | kept : Subscribed source reaction [.subscribe source reaction]
  | queued (value : Value) :
      Subscribed source reaction (.subscribe source reaction :: reaction.queuing value)

inductive Settled (id : PromiseId) : Value → List Entry → Prop where
  | self : Settled id (.promise id) [.settle id (.promise id)]
  | follow {other : PromiseId} (different : other ≠ id) :
      Settled id (.promise other)
        (.settle id (.promise other) :: Microtask.queuing ⟨"resolveThenable", .follow id other⟩)
  | fulfilled {value : Value} (final : value.Final) (reactions : List Reaction) :
      Settled id value (.settle id value :: reactions.flatMap (·.queuing value))

inductive Held : Value → PromiseId → List Entry → Prop where
  | promise (id : PromiseId) : Held (.promise id) id []
  | made {value : Value} (final : value.Final) (id : PromiseId) : Held value id [.hold id value]

inductive Job.Did : Job → List Entry → Prop where
  | callback {code : List Entry} (callback result : Value)
      (ofCode : ∀ entry ∈ code, entry.OfCode) :
      Job.Did (.callback callback) (code ++ [.invoke callback [] result])
  | called {code settled : List Entry} {callback value result : Value} {derived : PromiseId}
      (ofCode : ∀ entry ∈ code, entry.OfCode) (settles : Settled derived result settled) :
      Job.Did (.reaction ⟨.onThen, .callback callback, derived⟩ value)
        (code ++ .invoke callback [value] result :: settled)
  | restored {code held waits settled : List Entry} {callback value outcome : Value}
      {derived waited restored : PromiseId} (ofCode : ∀ entry ∈ code, entry.OfCode)
      (holds : Held outcome waited held)
      (subscribed : Subscribed waited ⟨.onFinally, .restore value, restored⟩ waits)
      (settles : Settled derived (.promise restored) settled) :
      Job.Did (.reaction ⟨.onFinally, .callback callback, derived⟩ value)
        (code ++ .invoke callback [] outcome :: (held ++ (waits ++ settled)))
  | given {settled : List Entry} {reaction : Reaction} {value result : Value}
      (gives : reaction.Gives value result) (settles : Settled reaction.derived result settled) :
      Job.Did (.reaction reaction value) settled
  | follow {promise other : PromiseId} {waits : List Entry}
      (subscribed : Subscribed other ⟨.onThen, .passThrough, promise⟩ waits) :
      Job.Did (.follow promise other) waits

/-- What a turn that is not cut off writes. -/
inductive Turned : List Entry → Prop where
  | microtask {log : List Entry} {microtask : Microtask} (did : microtask.job.Did log)
      (firstStep : Nat) :
      Turned (.dequeue microtask :: (log ++ [.record (.microtaskRun microtask.name firstStep)]))
  | task {code : List Entry} (ofCode : ∀ entry ∈ code, entry.OfCode) (task : Task) (result : Value)
      (firstStep : Nat) :
      Turned (.takeTask task :: (code ++ [.invoke task.callback task.arguments result,
        .record (.taskRun task.name firstStep)]))
  | idle : Turned []

inductive Scripted : List Entry → Prop where
  | program {code : List Entry} (ofCode : ∀ entry ∈ code, entry.OfCode) : Scripted code
  | turn {past log : List Entry} (scripted : Scripted past) (turned : Turned log) :
      Scripted (past ++ log)

def Lawful (law : List Entry → Entry → List Entry → Prop) (past : List Entry) : List Entry → Prop
  | [] => True
  | entry :: future => law past entry future ∧ Lawful law (past ++ [entry]) future

namespace Lawful

variable {law weaker : List Entry → Entry → List Entry → Prop} {past log more : List Entry}

theorem entry (lawful : Lawful law past log) {before after : List Entry} {entry : Entry}
    (split : log = before ++ entry :: after) : law (past ++ before) entry after := by
  induction before generalizing past log with
  | nil =>
      subst split
      simpa using lawful.1
  | cons first before ih =>
      subst split
      simpa using ih lawful.2 rfl

theorem append (first : Lawful law past log)
    (grows : ∀ {before after : List Entry} {entry : Entry}, law before entry after →
      weaker before entry (after ++ more)) (second : Lawful weaker (past ++ log) more) :
    Lawful weaker past (log ++ more) := by
  induction log generalizing past with
  | nil => simpa using second
  | cons entry rest ih => exact ⟨grows first.1, ih first.2 (by simpa using second)⟩

theorem left (lawful : Lawful law past (log ++ more))
    (shrinks : ∀ {before after : List Entry} {entry : Entry}, law before entry (after ++ more) →
      weaker before entry after) : Lawful weaker past log := by
  induction log generalizing past with
  | nil => trivial
  | cons entry rest ih => exact ⟨shrinks lawful.1, ih lawful.2⟩

theorem of_forall (all : ∀ entry ∈ log, ∀ before after, law before entry after) :
    Lawful law past log := by
  induction log generalizing past with
  | nil => trivial
  | cons entry rest ih =>
      obtain ⟨first, others⟩ := List.forall_mem_cons.mp all
      exact ⟨first _ _, ih others⟩

end Lawful

namespace Logged

variable {α β : Type} {settings : Settings} {machine after : Machine} {log : List Entry}

theorem of_telling_done {entries : Machine → α → List Entry} {sim : Simulation α} {value : α}
    (ran : telling entries sim settings machine = (.done value after, log)) :
    log = entries machine value := by
  unfold telling at ran
  split at ran <;> cases ran
  rfl

theorem of_silent_done {sim : Simulation α} {value : α}
    (ran : silent sim settings machine = (.done value after, log)) : log = [] :=
  of_telling_done ran

def OfCode (logged : Logged α) : Prop :=
  ∀ settings machine, ∀ entry ∈ (logged settings machine).2, entry.OfCode

namespace OfCode

theorem telling {entries : Machine → α → List Entry} {sim : Simulation α}
    (ofCode : ∀ machine value, ∀ entry ∈ entries machine value, entry.OfCode) :
    OfCode (.telling entries sim) := by
  intro settings machine
  unfold Logged.telling
  cases sim settings machine with
  | done value after => exact ofCode machine value
  | halted after => simp

theorem silent (sim : Simulation α) : OfCode (.silent sim) := telling (by simp)

theorem pure (value : α) : OfCode (Pure.pure value) := fun _ _ => by simp [pure_apply]

theorem bind {first : Logged α} {next : α → Logged β} (firsts : OfCode first)
    (nexts : ∀ value, Returns first value → OfCode (next value)) : OfCode (first >>= next) := by
  intro settings machine
  have before := firsts settings machine
  obtain ⟨value, middle, early, ran⟩ | ⟨after, early, ran⟩ := first.cases settings machine
  next =>
    rw [ran] at before
    rw [bind_of_done ran]
    have late := nexts value ⟨settings, machine, middle, early, ran⟩ settings middle
    exact List.forall_mem_append.mpr ⟨before, late⟩
  next =>
    rw [bind_of_halted ran]
    rwa [ran] at before

theorem observe {entry : Value → Entry} {code : Logged Value} (ofCode : OfCode code)
    (entries : ∀ result, (entry result).OfCode) : OfCode (Actions.observe entry code) :=
  ofCode.bind fun result _ => by
    intro settings machine told member
    obtain rfl := List.mem_singleton.mp member
    exact entries result

theorem congruence :
    Congruence (m := Logged) (n := Logged) (fun logged _ => Returns logged) fun code _ =>
      OfCode code where
  answers := answers
  pure := .pure
  bind := .bind
  report _ _ _ := telling (by simp [Entry.OfCode])
  inspect _ := silent _
  writeLine _ _ := telling (by simp [Entry.OfCode])
  createPromise state := telling fun _ _ => by cases state <;> simp [Entry.OfCode]
  keepReaction _ _ := telling (by simp [Entry.OfCode])
  addMicrotask _ _ :=
    .bind (telling (by simp [Entry.OfCode])) fun _ _ => telling (by simp [Entry.OfCode])
  addTask _ _ _ _ := by
    refine .bind (silent _) fun _ _ => .bind (telling (by simp [Entry.OfCode])) fun _ _ => ?_
    exact .bind (telling (by simp [Entry.OfCode])) fun _ _ => .pure _
  removeTask _ _ := by
    refine .bind (telling fun _ task => by cases task <;> simp [Entry.OfCode]) fun cancelled _ => ?_
    cases cancelled with
    | none => exact .pure _
    | some task => exact telling (by simp [Entry.OfCode])
  uncallable := .pure _
  called _ _ _ _ ofCode := ofCode.observe fun _ => trivial
  makeFunction _ _ _ := silent _
  declare _ _ _ := silent _
  assign _ _ _ := silent _
  createScope _ := silent _
  lookup _ _ := silent _
  fulfill _ _ := silent _
  withFrame _ _ _ _ body := by
    refine .bind (silent _) fun _ _ => .bind (telling (by simp [Entry.OfCode])) fun _ _ => ?_
    refine .bind body fun _ _ => .bind (silent _) fun _ _ => ?_
    exact .bind (telling (by simp [Entry.OfCode])) fun _ _ => .pure _

theorem call (room : Nat) (callable : Callable) (arguments : List Value) :
    OfCode (callable.call room arguments) := by
  induction room generalizing callable arguments with
  | zero => exact .bind (silent _) fun limits _ => congruence.skip _ _ rfl
  | succ room ih => exact congruence.call_succ room room ih callable arguments

theorem invoke (callee : Value) (arguments : List Value) :
    OfCode (invoke (m := Logged) callee arguments) := by
  cases callee with
  | function callable =>
      exact fun settings machine => call settings.maxCallDepth callable arguments settings machine
  | builtin builtin => exact congruence.builtin builtin arguments none
  | _ => exact .pure _

theorem prologue (program : Program) : OfCode program.prologue := by
  refine .bind (telling (by simp [Entry.OfCode])) fun _ _ settings machine => ?_
  have called := call settings.maxCallDepth
  exact congruence.program _ (Callable.call settings.maxCallDepth) called program settings machine

end OfCode

theorem of_callValue {callee result : Value} {arguments : List Value}
    (ran : callValue (m := Logged) callee arguments settings machine = (.done result after, log)) :
    ∃ code, (∀ entry ∈ code, entry.OfCode) ∧ log = code ++ [.invoke callee arguments result] := by
  obtain ⟨value, middle, code, late, went, told, rfl⟩ := of_bind_done ran
  have ofCode := OfCode.invoke callee arguments settings machine
  rw [went] at ofCode
  cases told
  exact ⟨code, ofCode, rfl⟩

theorem of_addMicrotask {microtask : Microtask} {node : Option NodeRef} {value : Unit}
    (ran : addMicrotask (m := Logged) microtask node settings machine = (.done value after, log)) :
    log = microtask.queuing := by
  obtain ⟨_, middle, early, late, went, recorded, rfl⟩ := of_bind_done ran
  cases went
  rw [of_telling_done recorded]
  rfl

theorem of_subscribe {source : PromiseId} {reaction : Reaction} {value : Unit}
    (ran : Reactions.subscribe (m := Logged) source reaction settings machine =
      (.done value after, log)) : Subscribed source reaction log := by
  obtain ⟨settled, middle, early, late, kept, went, rfl⟩ := of_bind_done ran
  rw [of_telling_done kept]
  cases settled with
  | some given =>
      rw [of_addMicrotask went]
      exact .queued given
  | none =>
      cases went
      exact .kept

theorem of_enqueueAll {given : Value} {reactions : List Reaction} {value : Unit}
    (ran : Reactions.enqueueAll (m := Logged) given reactions settings machine =
      (.done value after, log)) : log = reactions.flatMap (·.queuing given) := by
  induction reactions generalizing machine log with
  | nil =>
      cases ran
      rfl
  | cons reaction rest ih =>
      obtain ⟨_, middle, early, late, first, others, rfl⟩ := of_bind_done ran
      rw [of_addMicrotask first, ih others]
      rfl

theorem of_settle {id : PromiseId} {given : Value} {value : Unit}
    (ran : Reactions.settle (m := Logged) id given settings machine = (.done value after, log)) :
    Settled id given log := by
  obtain final | ⟨other, rfl⟩ := given.final_or_promise
  next =>
    rw [Reactions.settle_of_final final] at ran
    obtain ⟨_, middle, early, late, noted, went, rfl⟩ := of_bind_done ran
    cases noted
    obtain ⟨reactions, middle, early, late, released, others, rfl⟩ := of_bind_done went
    rw [of_silent_done released, of_enqueueAll others]
    exact .fulfilled final reactions
  next =>
    obtain ⟨_, middle, early, late, noted, went, rfl⟩ := of_bind_done ran
    cases noted
    by_cases same : other = id
    · subst same
      simp only [beq_self_eq_true, if_true] at went
      cases went
      exact .self
    · simp only [beq_eq_false_iff_ne.mpr same, Bool.false_eq_true, if_false] at went
      rw [of_addMicrotask went]
      exact .follow same

theorem of_promiseOf {value : Value} {id : PromiseId}
    (ran : Reactions.promiseOf (m := Logged) value settings machine = (.done id after, log)) :
    Held value id log := by
  obtain final | ⟨other, rfl⟩ := value.final_or_promise
  next =>
    rw [Reactions.promiseOf_of_final final] at ran
    rw [of_telling_done ran]
    exact .made final id
  next =>
    cases ran
    exact .promise _

theorem of_restoreAfter {outcome saved result : Value}
    (ran : Reactions.restoreAfter (m := Logged) outcome saved settings machine =
      (.done result after, log)) :
    ∃ waited restored held waits, result = .promise restored ∧ log = held ++ waits ∧
      Held outcome waited held ∧ Subscribed waited ⟨.onFinally, .restore saved, restored⟩
        waits := by
  obtain ⟨waited, middle, held, rest, holds, waiting, rfl⟩ := of_bind_done ran
  obtain ⟨restored, entered, early, late, created, subscribing, rfl⟩ := of_bind_done waiting
  obtain ⟨_, subscribed, waits, last, kept, returned, rfl⟩ := of_bind_done subscribing
  have silent : early = [] := of_telling_done created
  cases returned
  rw [silent]
  exact ⟨waited, restored, held, waits, rfl, by simp, of_promiseOf holds, of_subscribe kept⟩

theorem of_reaction {reaction : Reaction} {given : Value} {value : Unit}
    (ran : Reactions.run (m := Logged) callValue reaction given settings machine =
      (.done value after, log)) : (Job.reaction reaction given).Did log := by
  obtain ⟨result, middle, early, settled, found, settling, rfl⟩ := of_bind_done ran
  have settles := of_settle settling
  obtain ⟨kind, handler, derived⟩ := reaction
  have plain (gives : Reaction.Gives ⟨kind, handler, derived⟩ given result) (nothing : early = []) :
      (Job.reaction ⟨kind, handler, derived⟩ given).Did (early ++ settled) := by
    rw [nothing]
    exact .given gives settles
  cases handler with
  | passThrough => cases kind <;> (cases found; exact plain rfl rfl)
  | restore saved => cases kind <;> (cases found; exact plain rfl rfl)
  | callback callback =>
      cases kind with
      | onThen =>
          obtain ⟨code, ofCode, rfl⟩ := of_callValue found
          rw [List.append_assoc]
          exact .called ofCode settles
      | onCatch =>
          cases found
          exact plain rfl rfl
      | onFinally =>
          obtain ⟨outcome, called, early, late, calling, restores, rfl⟩ := of_bind_done found
          obtain ⟨code, ofCode, rfl⟩ := of_callValue calling
          obtain ⟨waited, restored, held, waits, rfl, rfl, holds, subscribed⟩ :=
            of_restoreAfter restores
          simp only [List.append_assoc, List.cons_append, List.nil_append]
          exact .restored ofCode holds subscribed settles

theorem of_job {job : Job} {value : Unit}
    (ran : job.run (m := Logged) settings machine = (.done value after, log)) : job.Did log := by
  cases job with
  | callback callback =>
      obtain ⟨result, middle, early, late, called, returned, rfl⟩ := of_bind_done ran
      obtain ⟨code, ofCode, rfl⟩ := of_callValue called
      cases returned
      rw [List.append_nil]
      exact .callback callback result ofCode
  | reaction waiting given => exact of_reaction ran
  | follow promise other => exact .follow (of_subscribe ran)

theorem turned {more : Bool}
    (ran : turn (m := Logged) settings machine = (.done more after, log)) : Turned log := by
  cases microtasks : machine.microtasks.microtasks with
  | cons microtask rest =>
      rw [turn_of_microtask microtasks, Prod.mk.injEq] at ran
      obtain ⟨outcome, told⟩ := ran
      obtain ⟨_, middle, log, late, went, ends, same⟩ := of_bind_done (Prod.ext outcome rfl)
      obtain ⟨_, last, recorded, nothing, records, returned, rfl⟩ := of_bind_done ends
      cases returned
      rw [told.symm.trans (congrArg _ same), of_telling_done records]
      exact .microtask (of_job went) _
  | nil =>
      cases tasks : machine.tasks.tasks with
      | nil =>
          rw [turn_of_empty microtasks tasks, Prod.mk.injEq] at ran
          rw [← ran.2]
          exact .idle
      | cons task rest =>
          rw [turn_of_task microtasks tasks, Prod.mk.injEq] at ran
          obtain ⟨outcome, told⟩ := ran
          obtain ⟨result, middle, log, late, went, ends, same⟩ :=
            of_bind_done (Prod.ext outcome rfl)
          obtain ⟨_, last, recorded, nothing, records, returned, rfl⟩ := of_bind_done ends
          obtain ⟨code, ofCode, rfl⟩ := of_callValue went
          cases returned
          rw [told.symm.trans (congrArg _ same), of_telling_done records, List.append_assoc]
          exact .task ofCode task result _

end Logged

end EventLoop
