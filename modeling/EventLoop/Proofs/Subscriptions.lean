import EventLoop.Proofs.History
import Mathlib.Data.List.Perm.Basic

set_option autoImplicit false

/-!
# Reactions fire once and in order

The reactions of a promise are queued in the order in which they subscribed to it, each of them once
and with the value of the promise.
-/

namespace EventLoop

open scoped List

namespace Entry

def subscribed? (source : PromiseId) : Entry → Option Reaction
  | subscribe other reaction => if other = source then some reaction else none
  | _ => none

def enqueued? : Entry → Option Microtask
  | enqueue microtask => some microtask
  | _ => none

def dequeued? : Entry → Option Microtask
  | dequeue microtask => some microtask
  | _ => none

end Entry

def Microtask.reaction? (microtask : Microtask) : Option (Reaction × Value) :=
  match microtask.job with
  | .reaction waiting value => some (waiting, value)
  | _ => none

/-- The reactions that subscribed to a promise, by `then`, `catch` and `finally`, by a finally that
waits for the outcome of its callback, and by promises that follow this one. -/
def subscriptions (source : PromiseId) (log : List Entry) : List Reaction :=
  log.filterMap (Entry.subscribed? source)

def enqueuedMicrotasks (log : List Entry) : List Microtask := log.filterMap Entry.enqueued?

def dequeuedMicrotasks (log : List Entry) : List Microtask := log.filterMap Entry.dequeued?

def enqueuedReactions (log : List Entry) : List (Reaction × Value) :=
  (enqueuedMicrotasks log).filterMap Microtask.reaction?

def Act.reacted? (source : PromiseId) : Act → Option (Reaction × Value)
  | react other reaction value => if other = source then some (reaction, value) else none
  | _ => none

def firings (source : PromiseId) (acts : List Act) : List (Reaction × Value) :=
  acts.filterMap (Act.reacted? source)

section Lists

variable (source : PromiseId) (log rest : List Entry) (acts more : List Act)

@[simp]
theorem subscriptions_append :
    subscriptions source (log ++ rest) = subscriptions source log ++ subscriptions source rest :=
  List.filterMap_append

@[simp]
theorem enqueuedMicrotasks_append :
    enqueuedMicrotasks (log ++ rest) = enqueuedMicrotasks log ++ enqueuedMicrotasks rest :=
  List.filterMap_append

@[simp]
theorem dequeuedMicrotasks_append :
    dequeuedMicrotasks (log ++ rest) = dequeuedMicrotasks log ++ dequeuedMicrotasks rest :=
  List.filterMap_append

@[simp]
theorem firings_append : firings source (acts ++ more) =
    firings source acts ++ firings source more :=
  List.filterMap_append

end Lists

def Duty.owed (source : PromiseId) : Duty → List (Reaction × Value)
  | .release other value reactions =>
      if other = source then reactions.map (·, value) else []
  | _ => []

def PromiseState.Delivered (subscribed : List Reaction) (fired owed : List (Reaction × Value)) :
    Option PromiseState → Prop
  | some (.pending reactions) => reactions = subscribed ∧ fired = [] ∧ owed = []
  | some (.fulfilled value) => fired ++ owed = subscribed.map (·, value)
  | none => subscribed = [] ∧ fired = [] ∧ owed = []

def Delivers (acts : List Act) (config : Config) : Prop :=
  ∀ source, PromiseState.Delivered (subscriptions source (acts.map Act.entry)) (firings source acts)
    (config.duty.owed source) (config.machine.promises.get? source)

theorem Duty.Evaluates.owes_nothing {duty : Duty} (evaluates : duty.Evaluates)
    (source : PromiseId) : duty.owed source = [] := by
  cases duty with
  | release => exact evaluates.elim
  | _ => rfl

section Delivery

variable {log acts : List Act} {notice : Notice} {machine changed : Machine} {duty : Duty}

theorem Delivers.withPromise (delivers : Delivers log ⟨machine, duty⟩) {state : PromiseState}
    (fresh : PromiseState.Delivered [] [] [] (some state)) :
    Delivers log ⟨machine.withPromise state, duty⟩ := by
  intro source
  have old := delivers source
  by_cases new : source = machine.promises.size
  · subst new
    have unknown : machine.promises.get? machine.promises.size = none := Promises.get?_size
    simp only [unknown, PromiseState.Delivered] at old
    obtain ⟨subscribed, fired, owed⟩ := old
    simpa [Machine.withPromise, Promises.get?_create_self, subscribed, fired, owed] using fresh
  · simpa [Machine.withPromise, Promises.get?_create_of_ne new] using old

theorem Delivers.unrelated {config after : Config} (delivers : Delivers log config)
    (subscribed : ∀ source, subscriptions source (acts.map Act.entry) = [])
    (fired : ∀ source, firings source acts = [])
    (owed : ∀ source, after.duty.owed source = config.duty.owed source)
    (promises : after.machine.promises = config.machine.promises) :
    Delivers (log ++ acts) after := by
  intro source
  simpa [subscribed, fired, owed, promises] using delivers source

theorem Delivers.call (delivers : Delivers log ⟨machine, duty⟩) (builtin : Builtin)
    (arguments : List Value) (result : Value) :
    Delivers (log ++ [.call builtin arguments result]) ⟨machine, duty⟩ :=
  delivers.unrelated (fun _ => rfl) (fun _ => rfl) (fun _ => rfl) rfl

theorem Delivers.kept (delivers : Delivers log ⟨machine, duty⟩) {source : PromiseId}
    {reaction : Reaction} {act : Act} {reactions : List Reaction}
    (told : act.entry = .subscribe source reaction) (fired : ∀ id, act.reacted? id = none)
    (pending : machine.promises.get? source = some (.pending reactions)) :
    Delivers (log ++ [act])
      ⟨{ machine with
          promises := machine.promises.put source (.pending (reactions ++ [reaction])) },
            duty⟩ := by
  intro id
  have old := delivers id
  have known := Promises.lt_size_of_get? pending
  have nothing : firings id [act] = [] := by simp [firings, fired]
  have subscribed : subscriptions id ([act].map Act.entry) =
      if source = id then [reaction] else [] := by
    by_cases same : source = id <;> simp [subscriptions, told, Entry.subscribed?, same]
  rw [List.map_append, subscriptions_append, subscribed, firings_append, nothing]
  by_cases same : source = id
  · subst same
    simp_all [Promises.get?_put_self, PromiseState.Delivered]
  · simpa [Promises.get?_put_of_ne same, same] using old

theorem Delivers.queued (delivers : Delivers log ⟨machine, duty⟩) {source : PromiseId}
    {reaction : Reaction} {act : Act} {value : Value} (nothing : ∀ id, duty.owed id = [])
    (told : act.entry = .subscribe source reaction) (unfired : ∀ id, act.reacted? id = none)
    (settled : machine.promises.get? source = some (.fulfilled value)) (microtask : Microtask) :
    Delivers (log ++ [act, .react source reaction value])
      ⟨machine.withMicrotask microtask, duty⟩ := by
  intro id
  have old := delivers id
  have reacts : (Act.react source reaction value).reacted? id =
      if source = id then some (reaction, value) else none := rfl
  have queues : (Act.react source reaction value).entry =
      .enqueue ⟨reaction.name, .reaction reaction value⟩ := rfl
  have fired : firings id [act, .react source reaction value] =
      if source = id then [(reaction, value)] else [] := by
    simp only [firings, List.filterMap_cons, unfired, reacts, List.filterMap_nil]
    split_ifs <;> rfl
  have subscribed : subscriptions id ([act, .react source reaction value].map Act.entry) =
      if source = id then [reaction] else [] := by
    simp only [subscriptions, List.map_cons, List.map_nil, told, queues, List.filterMap_cons,
      Entry.subscribed?, List.filterMap_nil]
    split_ifs <;> rfl
  rw [List.map_append, subscriptions_append, subscribed, firings_append, fired]
  simp only [nothing] at old ⊢
  by_cases same : source = id
  · subst same
    simp_all [Machine.withMicrotask, PromiseState.Delivered]
  · simpa [Machine.withMicrotask, same] using old

theorem Subscribes.delivers {source : PromiseId} {reaction : Reaction} {act : Act}
    {late : List Act} (subscribes : Subscribes source reaction act late machine acts notice changed)
    (told : act.entry = .subscribe source reaction) (unfired : ∀ id, act.reacted? id = none)
    (calls : ∀ {log : List Act} {config : Config}, Delivers log config →
      Delivers (log ++ late) config)
    (nothing : ∀ id, duty.owed id = []) (delivers : Delivers log ⟨machine, duty⟩) :
    Delivers (log ++ acts) ⟨changed, duty⟩ := by
  cases subscribes with
  | kept pending =>
      rw [List.append_cons]
      exact calls (delivers.kept told unfired pending)
  | queued settled => exact delivers.queued nothing told unfired settled _

theorem Operation.delivers (operation : Operation machine acts notice changed)
    (nothing : ∀ id, duty.owed id = []) (delivers : Delivers log ⟨machine, duty⟩) :
    Delivers (log ++ acts) ⟨changed, duty⟩ := by
  cases operation with
  | @hold value held =>
      have fresh : PromiseState.Delivered [] [] [] (some (.fulfilled value)) := rfl
      exact (delivers.withPromise fresh).unrelated (fun _ => rfl) (fun _ => rfl) (fun _ => rfl) rfl
  | register known within subscribes =>
      have fresh : PromiseState.Delivered [] [] [] (some (.pending [])) := ⟨rfl, rfl, rfl⟩
      exact subscribes.delivers rfl (fun _ => rfl) (fun delivers => delivers.call _ _ _) nothing
        (delivers.withPromise fresh)
  | _ => exact delivers.unrelated (fun _ => rfl) (fun _ => rfl) (fun _ => rfl) rfl

theorem Effect.delivers {config after : Config} (effect : Effect config acts notice after)
    (sound : config.Sound) (delivers : Delivers log config) : Delivers (log ++ acts) after := by
  have same {log : List Act} {config : Config} (delivers : Delivers log config) :
      Delivers (log ++ []) config := by
    simpa using delivers
  cases effect with
  | operation evaluates operation =>
      exact operation.delivers evaluates.owes_nothing delivers
  | @takeMicrotask machine microtask rest next =>
      refine delivers.unrelated (fun _ => rfl) (fun _ => rfl) (fun _ => ?_) rfl
      cases microtask.job <;> rfl
  | @holdOutcome machine reaction outcome value held =>
      have fresh : PromiseState.Delivered [] [] [] (some (.fulfilled outcome)) := rfl
      exact (delivers.withPromise fresh).unrelated (fun _ => rfl) (fun _ => rfl) (fun _ => rfl) rfl
  | restore known subscribes =>
      have fresh : PromiseState.Delivered [] [] [] (some (.pending [])) := ⟨rfl, rfl, rfl⟩
      exact subscribes.delivers rfl (fun _ => rfl) same (fun _ => rfl) (delivers.withPromise fresh)
  | @fulfill machine id value final =>
      obtain ⟨reactions, pending⟩ | ⟨old, settled⟩ := Promises.get?_cases sound.duty.1
      next =>
        -- All reactions that waited are owed now, in the order in which they came.
        rw [Promises.fulfill_of_pending pending]
        intro source
        have before := delivers source
        have subscribed : subscriptions source ([.settle id value].map Act.entry) = [] := rfl
        have fired : firings source [.settle id value] = [] := rfl
        rw [List.map_append, subscriptions_append, subscribed, firings_append, fired]
        by_cases same : id = source
        · subst same
          have known := Promises.lt_size_of_get? pending
          simp_all [Promises.get?_put_self, PromiseState.Delivered, Duty.owed]
        · simpa [Promises.get?_put_of_ne same, Duty.owed, same] using before
      next =>
        rw [Promises.fulfill_of_fulfilled settled]
        refine delivers.unrelated (fun _ => rfl) (fun _ => rfl) (fun _ => ?_) rfl
        simp [Duty.owed]
  | release machine source value reaction rest =>
      intro id
      have before := delivers id
      have subscribed : subscriptions id ([.react source reaction value].map Act.entry) = [] := rfl
      rw [List.map_append, subscriptions_append, subscribed, firings_append]
      by_cases same : source = id
      · subst same
        have fired : firings source [.react source reaction value] = [(reaction, value)] := by
          simp [firings, Act.reacted?]
        cases state : machine.promises.get? source with
        | none => simp [state, PromiseState.Delivered, Duty.owed] at before
        | some found =>
            cases found with
            | pending reactions => simp [state, PromiseState.Delivered, Duty.owed] at before
            | fulfilled held =>
                simpa [Machine.withMicrotask, state, PromiseState.Delivered, Duty.owed, fired]
                  using before
      · have fired : firings id [.react source reaction value] = [] := by
          simp [firings, Act.reacted?, same]
        simpa [Machine.withMicrotask, Duty.owed, same, fired] using before
  | released machine source value =>
      refine delivers.unrelated (fun _ => rfl) (fun _ => rfl) (fun _ => ?_) rfl
      simp [Duty.owed]
  | follow known subscribes =>
      exact subscribes.delivers rfl (fun _ => rfl) same (fun _ => rfl) delivers
  | finish machine ends =>
      refine delivers.unrelated (fun _ => rfl) (fun _ => rfl) (fun _ => ?_) rfl
      obtain rfl | ⟨task, rfl⟩ := ends.cases <;> rfl
  | _ => exact delivers.unrelated (fun _ => rfl) (fun _ => rfl) (fun _ => rfl) rfl

theorem Subscribes.queue {source : PromiseId} {reaction : Reaction} {act : Act} {late : List Act}
    (subscribes : Subscribes source reaction act late machine acts notice changed)
    (told : act.entry = .subscribe source reaction)
    (calls : enqueuedMicrotasks (late.map Act.entry) = [] ∧
      dequeuedMicrotasks (late.map Act.entry) = []) :
    dequeuedMicrotasks (acts.map Act.entry) = [] ∧
      changed.microtasks.microtasks =
        machine.microtasks.microtasks ++ enqueuedMicrotasks (acts.map Act.entry) := by
  cases subscribes with
  | kept pending =>
      have enqueued : enqueuedMicrotasks ((act :: late).map Act.entry) = [] := by
        rw [List.map_cons, told]
        exact calls.1
      refine ⟨?_, by rw [enqueued, List.append_nil]⟩
      rw [List.map_cons, told]
      exact calls.2
  | queued settled =>
      rw [List.map_cons, told]
      exact ⟨rfl, rfl⟩

theorem Operation.queue (operation : Operation machine acts notice changed) :
    dequeuedMicrotasks (acts.map Act.entry) = [] ∧
      changed.microtasks.microtasks =
        machine.microtasks.microtasks ++ enqueuedMicrotasks (acts.map Act.entry) := by
  cases operation with
  | queueMicrotask arguments within => exact ⟨rfl, rfl⟩
  | register known within subscribes => exact subscribes.queue rfl ⟨rfl, rfl⟩
  | _ => exact ⟨rfl, (List.append_nil _).symm⟩

theorem Effect.queue {config after : Config} (effect : Effect config acts notice after) :
    dequeuedMicrotasks (acts.map Act.entry) ++ after.machine.microtasks.microtasks =
      config.machine.microtasks.microtasks ++ enqueuedMicrotasks (acts.map Act.entry) := by
  cases effect with
  | operation evaluates operation =>
      obtain ⟨dequeued, enqueued⟩ := operation.queue
      rw [dequeued, enqueued, List.nil_append]
  | takeMicrotask next =>
      rw [next]
      exact (List.append_nil _).symm
  | restore known subscribes =>
      obtain ⟨dequeued, enqueued⟩ := subscribes.queue rfl ⟨rfl, rfl⟩
      rw [dequeued, enqueued, List.nil_append]
      rfl
  | follow known subscribes =>
      obtain ⟨dequeued, enqueued⟩ := subscribes.queue rfl ⟨rfl, rfl⟩
      rw [dequeued, enqueued, List.nil_append]
  | settleFollow machine different => rfl
  | release machine source value reaction rest => rfl
  | _ => exact (List.append_nil _).symm

theorem Effect.enqueue_reaction? {config after : Config} (effect : Effect config acts notice after)
    {microtask : Microtask} (member : Act.enqueue microtask ∈ acts) :
    microtask.reaction? = none := by
  have subscribing {source : PromiseId} {reaction : Reaction} {act : Act} {late acts : List Act}
      {machine changed : Machine} {notice : Notice}
      (subscribes : Subscribes source reaction act late machine acts notice changed)
      (first : act ≠ .enqueue microtask) (rest : Act.enqueue microtask ∉ late) :
      Act.enqueue microtask ∉ acts := by
    cases subscribes <;> simp [first.symm, rest]
  cases effect with
  | operation evaluates operation =>
      cases operation with
      | queueMicrotask arguments within =>
          obtain rfl : microtask = _ := by simpa using member
          rfl
      | register known within subscribes =>
          exact absurd member (subscribing subscribes (by simp) (by simp))
      | _ => simp at member
  | restore known subscribes => exact absurd member (subscribing subscribes (by simp) (by simp))
  | follow known subscribes => exact absurd member (subscribing subscribes (by simp) (by simp))
  | settleFollow machine different =>
      obtain rfl : microtask = _ := by simpa using member
      rfl
  | _ => simp at member

end Delivery

structure Fires (acts : List Act) (config : Config) : Prop where
  delivers : Delivers acts config
  queue : enqueuedMicrotasks (acts.map Act.entry) =
    dequeuedMicrotasks (acts.map Act.entry) ++ config.machine.microtasks.microtasks
  reactions : ∀ microtask, Act.enqueue microtask ∈ acts → microtask.reaction? = none

namespace Fires

variable {log acts : List Act} {config after : Config}

theorem initial : Fires [] .initial := by
  refine ⟨fun source => ?_, rfl, by simp⟩
  simp [Config.initial, Machine.initial, Promises.initial, Promises.get?, subscriptions, firings,
    Duty.owed, PromiseState.Delivered]

theorem effect {notice : Notice} (effect : Effect config acts notice after) (sound : config.Sound)
    (fires : Fires log config) : Fires (log ++ acts) after := by
  refine ⟨effect.delivers sound fires.delivers, ?_, ?_⟩
  next =>
    rw [List.map_append, enqueuedMicrotasks_append, dequeuedMicrotasks_append, fires.queue,
      List.append_assoc, List.append_assoc, effect.queue]
  next =>
    intro microtask member
    obtain earlier | now := List.mem_append.mp member
    · exact fires.reactions microtask earlier
    · exact effect.enqueue_reaction? now

theorem other (fires : Fires log config) {act : Act}
    (silent : act.entry.enqueued? = none ∧ act.entry.dequeued? = none ∧
      ∀ source, act.entry.subscribed? source = none ∧ act.reacted? source = none)
    (duty : after.duty = config.duty) (promises : after.machine.promises = config.machine.promises)
    (microtasks : after.machine.microtasks = config.machine.microtasks) :
    Fires (log ++ [act]) after := by
  obtain ⟨enqueued, dequeued, unrelated⟩ := silent
  refine ⟨fires.delivers.unrelated ?_ ?_ ?_ promises, ?_, ?_⟩
  · exact fun source => by simp [subscriptions, unrelated]
  · exact fun source => by simp [firings, unrelated]
  · exact fun source => by rw [duty]
  · simpa [enqueuedMicrotasks, dequeuedMicrotasks, enqueued, dequeued, microtasks] using fires.queue
  · intro microtask member
    obtain earlier | now := List.mem_append.mp member
    · exact fires.reactions microtask earlier
    · obtain rfl : Act.enqueue microtask = act := by simpa using now
      cases enqueued

theorem record (event : Event) (node : Option NodeRef) (fires : Fires log config) :
    Fires (log ++ [.record event]) (config.record event node) :=
  fires.other ⟨rfl, rfl, fun _ => ⟨rfl, rfl⟩⟩ rfl rfl rfl

theorem call (builtin : Builtin) (arguments : List Value) (result : Value)
    (fires : Fires log config) : Fires (log ++ [.call builtin arguments result]) config :=
  fires.other ⟨rfl, rfl, fun _ => ⟨rfl, rfl⟩⟩ rfl rfl rfl

theorem pending (fires : Fires log config) {source : PromiseId} {reactions : List Reaction}
    (pending : config.machine.promises.get? source = some (.pending reactions)) :
    firings source log = [] ∧ reactions = subscriptions source (log.map Act.entry) := by
  have delivered := fires.delivers source
  rw [pending] at delivered
  exact ⟨delivered.2.1, delivered.1⟩

theorem fulfilled (fires : Fires log config) {source : PromiseId} {value : Value}
    (fulfilled : config.machine.promises.get? source = some (.fulfilled value)) :
    firings source log ++ config.duty.owed source =
      (subscriptions source (log.map Act.entry)).map (·, value) := by
  have delivered := fires.delivers source
  rw [fulfilled] at delivered
  exact delivered

theorem source_lt (fires : Fires log config) {source : PromiseId} {reaction : Reaction}
    {value : Value} (member : Act.react source reaction value ∈ log) :
    source < config.machine.promises.size := by
  by_contra unknown
  have delivered := fires.delivers source
  have none : config.machine.promises.get? source = none := by
    simpa [Promises.get?, Promises.size] using unknown
  rw [none] at delivered
  have fired : (reaction, value) ∈ firings source log :=
    List.mem_filterMap.mpr ⟨_, member, by simp [Act.reacted?]⟩
  rw [delivered.2.1] at fired
  cases fired

end Fires

def Act.queuedReaction? (act : Act) : Option (Reaction × Value) :=
  act.entry.enqueued?.bind Microtask.reaction?

theorem enqueuedReactions_map (acts : List Act) :
    enqueuedReactions (acts.map Act.entry) = acts.filterMap Act.queuedReaction? := by
  rw [enqueuedReactions, enqueuedMicrotasks, List.filterMap_map, List.filterMap_filterMap]
  rfl

theorem firings_sublist (source : PromiseId) (acts : List Act) :
    firings source acts <+ enqueuedReactions (acts.map Act.entry) := by
  rw [enqueuedReactions_map, firings]
  induction acts with
  | nil => exact .slnil
  | cons act rest ih =>
      rw [List.filterMap_cons, List.filterMap_cons]
      cases found : act.reacted? source with
      | none =>
          cases act.queuedReaction? with
          | none => exact ih
          | some queued => exact ih.cons queued
      | some fired =>
          -- An act that is a reaction of the source queues that reaction.
          have same : act.queuedReaction? = some fired := by
            cases act with
            | react other reaction value =>
                simp only [Act.reacted?] at found
                split at found <;> cases found
                rfl
            | _ => cases found
          rw [same]
          exact ih.cons_cons fired

theorem flatMap_range_single {α : Type} {source count : Nat} (known : source < count) (item : α) :
    (List.range count).flatMap (fun id => if source = id then [item] else []) = [item] := by
  induction count with
  | zero => omega
  | succ count ih =>
      rw [List.range_succ, List.flatMap_append, List.flatMap_singleton]
      by_cases last : source = count
      · subst last
        have others : (List.range source).flatMap
            (fun id => if source = id then [item] else []) = [] := by
          refine List.flatMap_eq_nil_iff.mpr fun id member => ?_
          have smaller := List.mem_range.mp member
          simp [Nat.ne_of_gt smaller]
        simp [others]
      · rw [ih (by omega)]
        simp [last]

theorem enqueuedReactions_perm {acts : List Act} {count : Nat}
    (reactions : ∀ microtask, Act.enqueue microtask ∈ acts → microtask.reaction? = none)
    (known : ∀ source reaction value, Act.react source reaction value ∈ acts → source < count) :
    enqueuedReactions (acts.map Act.entry) ~ (List.range count).flatMap (firings · acts) := by
  rw [enqueuedReactions_map]
  induction acts with
  | nil => simp [firings]
  | cons act rest ih =>
      have others := ih (fun microtask member => reactions microtask (.tail _ member))
        fun source reaction value member => known source reaction value (.tail _ member)
      have first : [act].filterMap Act.queuedReaction? ~
          (List.range count).flatMap (firings · [act]) := by
        have plain (unqueued : act.queuedReaction? = none)
            (unfired : ∀ id, act.reacted? id = none) : [act].filterMap Act.queuedReaction? ~
              (List.range count).flatMap (firings · [act]) := by
          simp [firings, unqueued, unfired]
        cases act with
        | react source reaction value =>
            have inside := known source reaction value List.mem_cons_self
            have single (id : PromiseId) : firings id [.react source reaction value] =
                if source = id then [(reaction, value)] else [] := by
              by_cases same : source = id <;> simp [firings, Act.reacted?, same]
            simp only [single, flatMap_range_single inside]
            exact .refl _
        | enqueue microtask =>
            exact plain (reactions microtask List.mem_cons_self) fun _ => rfl
        | _ => exact plain rfl fun _ => rfl
      calc (act :: rest).filterMap Act.queuedReaction?
        _ = [act].filterMap Act.queuedReaction? ++ rest.filterMap Act.queuedReaction? := by
          rw [← List.filterMap_append, List.singleton_append]
        _ ~ (List.range count).flatMap (firings · [act]) ++
              (List.range count).flatMap (firings · rest) := first.append others
        _ ~ (List.range count).flatMap (fun source =>
              firings source [act] ++ firings source rest) := List.flatMap_append_perm ..
        _ = (List.range count).flatMap (firings · (act :: rest)) := by
          simp only [← firings_append, List.singleton_append]

def registrationLaw (past : List Entry) : Entry → Prop
  | .call (.promiseMethod kind source) arguments result => ∃ early waits derived,
      past = early ++ waits ∧ result = .promise derived ∧
        Subscribed source ⟨kind, .ofArguments arguments, derived⟩ waits
  | _ => True

abbrev Registers (past log : List Entry) : Prop :=
  Lawful (fun before entry _ => registrationLaw before entry) past log

section Registrations

variable {acts : List Act} {notice : Notice} {config after : Config}

theorem Registers.of_forall {past log : List Entry}
    (other : ∀ entry ∈ log, ∀ kind source arguments result,
      entry ≠ .call (.promiseMethod kind source) arguments result) : Registers past log := by
  refine Lawful.of_forall fun entry member before after => ?_
  unfold registrationLaw
  split
  next => exact absurd rfl (other _ member _ _ _ _)
  next => trivial

theorem Subscribes.registers {source : PromiseId} {kind : ReactionKind}
    {arguments : List Value} {derived : PromiseId} {machine changed : Machine}
    (subscribes : Subscribes source ⟨kind, .ofArguments arguments, derived⟩
      (.register kind source arguments derived)
      [.call (.promiseMethod kind source) arguments (.promise derived)] machine acts notice changed)
    (past : List Entry) : Registers past ((acts ++ notice.acts).map Act.entry) := by
  cases subscribes with
  | kept pending => exact ⟨trivial, ⟨past, _, derived, rfl, rfl, .kept⟩, trivial⟩
  | @queued value settled =>
      refine ⟨trivial, trivial, trivial, ⟨past, _, derived, ?_, rfl, .queued value⟩, trivial⟩
      simp [Act.entry, Reaction.queuing, Microtask.queuing]

theorem Effect.registers (effect : Effect config acts notice after) (past : List Entry) :
    Registers past ((acts ++ notice.acts).map Act.entry) := by
  have plain {source : PromiseId} {reaction : Reaction} {machine changed : Machine}
      {acts : List Act} {notice : Notice}
      (subscribes : Subscribes source reaction (.subscribe source reaction) [] machine acts notice
        changed) : Registers past ((acts ++ notice.acts).map Act.entry) := by
    cases subscribes <;> exact .of_forall (by simp [Act.entry, Notice.acts])
  cases effect with
  | operation evaluates operation =>
      cases operation with
      | @answer builtin arguments result answers =>
          refine .of_forall ?_
          rintro entry member kind source arguments result rfl
          obtain ⟨rfl, -⟩ : Builtin.promiseMethod kind source = builtin ∧ _ := by
            simpa [Act.entry, Notice.acts] using member
          exact answers.elim
      | register known within subscribes => exact subscribes.registers past
      | _ => exact .of_forall (by simp [Act.entry, Notice.acts])
  | restore known subscribes => exact plain subscribes
  | follow known subscribes => exact plain subscribes
  | _ => exact .of_forall (by simp [Act.entry, Notice.acts])

end Registrations

section Runs

variable {program : Program} {settings : Settings} {machine : Machine} {history : List Act}

theorem Program.Performs.registers (performs : program.Performs settings history machine) :
    Registers [] (history.map Act.entry) := by
  let Nothing (_ : List Act) (_ : Config) : Prop := True
  have nothing : Nothing [] .initial := trivial
  refine performs.lawful nothing (fun _ _ _ => trivial) (fun _ _ _ => trivial)
    (fun _ _ _ _ => trivial) id (fun effect _ _ => effect.registers _) trivial id ?_
  intro log acts late event config after effect _ _
  have whole := effect.registers (log.map Act.entry)
  rw [List.map_append] at whole
  exact Lawful.left whole id

/-- A run is the same with a log. A call of `then`, `catch` or `finally` returns the promise of a
reaction that subscribed just before. Every reaction that ever subscribed to a promise fires once
the promise is fulfilled: it is queued once, with the value of the promise, in the order of
subscription, and no other reaction is ever queued. A run that the step limit ends may stop in the
middle of them. While a promise is pending its reactions are stored, in the same order, and none of
them is queued. Microtasks run first in, first out, and a run that completes has run every one of
them, each by its script. -/
theorem Program.reactions_fire_once_in_order (program : Program) (settings : Settings) :
    let machine := (program.simulate (m := Simulation) settings .initial).machine
    let log := program.log settings
    program.simulate (m := Logged) settings .initial =
      (program.simulate (m := Simulation) settings .initial, log) ∧
    (∀ past kind source arguments result future,
      log = past ++ .call (.promiseMethod kind source) arguments result :: future →
      ∃ early waits derived, past = early ++ waits ∧ result = .promise derived ∧
        Subscribed source ⟨kind, .ofArguments arguments, derived⟩ waits) ∧
    (∃ fired : PromiseId → List (Reaction × Value),
      enqueuedReactions log ~ (List.range machine.promises.size).flatMap fired ∧
      (∀ source, fired source <+ enqueuedReactions log) ∧
      (∀ source reactions, machine.promises.get? source = some (.pending reactions) →
        fired source = [] ∧ reactions = subscriptions source log) ∧
      (∀ source value, machine.promises.get? source = some (.fulfilled value) →
        fired source <+: (subscriptions source log).map (·, value)) ∧
      ((program.run settings).truncated = false → ∀ source value,
        machine.promises.get? source = some (.fulfilled value) →
        fired source = (subscriptions source log).map (·, value))) ∧
    enqueuedMicrotasks log = dequeuedMicrotasks log ++ machine.microtasks.microtasks ∧
    ((program.run settings).truncated = false →
      dequeuedMicrotasks log = enqueuedMicrotasks log ∧ Scripted log) := by
  intro machine log
  obtain ⟨history, told, performs⟩ := program.exists_performs settings
  obtain ⟨duty, fires⟩ := performs.keeps Fires.initial Fires.effect Fires.record Fires.call
  have registers := performs.registers
  have told : log = history.map Act.entry := told
  have queue : enqueuedMicrotasks log =
      dequeuedMicrotasks log ++ machine.microtasks.microtasks := told ▸ fires.queue
  refine ⟨program.simulate_logged settings,
    fun past kind source arguments result future split => ?_,
    ⟨(firings · history), ?_, fun source => ?_, fun source reactions pending => ?_,
      fun source value fulfilled => ?_, fun completed source value fulfilled => ?_⟩,
    queue, fun completed => ?_⟩
  next =>
    rw [← told] at registers
    exact registers.entry split
  next =>
    rw [told]
    exact enqueuedReactions_perm fires.reactions fun _ _ _ => fires.source_lt
  next =>
    rw [told]
    exact firings_sublist source history
  next =>
    rw [told]
    exact fires.pending pending
  next =>
    rw [told]
    exact ⟨_, fires.fulfilled fulfilled⟩
  next =>
    -- Nothing is owed between two turns.
    have fires := (performs.completed_history completed).keeps Fires.initial Fires.effect
      Fires.record Fires.call
    rw [told]
    simpa [Duty.owed] using fires.fulfilled fulfilled
  next =>
    obtain ⟨logs, noMicrotask, -⟩ := Program.completed_logs completed
    refine ⟨?_, logs.scripted⟩
    rw [queue, noMicrotask, List.append_nil]

end Runs

end EventLoop
