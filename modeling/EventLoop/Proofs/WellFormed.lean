import EventLoop.Proofs.Soundness
import EventLoop.Proofs.Strict

set_option autoImplicit false

/-!
# Well-formed machines

A machine is well-formed if it is sound and every scope but the global one is enclosed by an older
one. Then chains of scopes end, and chains of promises are short.
-/

namespace EventLoop

structure Scopes.Nested (scopes : Scopes) : Prop where
  global : ∃ scope, scopes.all[Scopes.global]? = some scope ∧ scope.outer = none
  outer : ∀ index scope, index ≠ Scopes.global → scopes.all[index]? = some scope →
    ∃ outer, scope.outer = some outer ∧ outer < index

structure Machine.WellFormed (machine : Machine) : Prop where
  sound : machine.Sound
  nested : machine.scopes.Nested

namespace Scopes.Nested

variable {scopes : Scopes} (nested : scopes.Nested)

include nested

theorem global_lt : Scopes.global < scopes.size := by
  obtain ⟨scope, found, -⟩ := nested.global
  exact (Array.getElem?_eq_some_iff.mp found).1

theorem declare (scope : ScopeId) (name : String) (value : Value) :
    (scopes.declare scope name value).Nested := by
  -- A binding more or less changes no outer scope.
  have kept (index : ScopeId) (found : Scope)
      (position : (scopes.declare scope name value).all[index]? = some found) :
      ∃ old, scopes.all[index]? = some old ∧ old.outer = found.outer := by
    simp only [Scopes.declare, Array.getElem?_modify] at position
    split at position
    next =>
      obtain ⟨old, earlier, rfl⟩ := Option.map_eq_some_iff.mp position
      exact ⟨old, earlier, rfl⟩
    next => exact ⟨found, position, rfl⟩
  constructor
  next =>
    have bound : Scopes.global < (scopes.declare scope name value).size := by
      rw [Scopes.size_declare]
      exact nested.global_lt
    have position := Array.getElem?_eq_getElem bound
    obtain ⟨old, earlier, same⟩ := kept _ _ position
    obtain ⟨first, found, none⟩ := nested.global
    rw [earlier] at found
    cases found
    exact ⟨_, position, same.symm.trans none⟩
  next =>
    intro index found inner position
    obtain ⟨old, earlier, same⟩ := kept index found position
    rw [← same]
    exact nested.outer index old inner earlier

theorem create {outer : ScopeId} (known : outer < scopes.size) :
    (scopes.create outer).2.Nested := by
  constructor
  next =>
    obtain ⟨scope, found, none⟩ := nested.global
    refine ⟨scope, ?_, none⟩
    simp only [Scopes.create, Array.getElem?_push]
    exact (if_neg (Nat.ne_of_lt nested.global_lt)).trans found
  next =>
    intro index scope inner position
    simp only [Scopes.create, Array.getElem?_push] at position
    split at position
    next fresh =>
      cases position
      exact ⟨outer, rfl, fresh ▸ known⟩
    next => exact nested.outer index scope inner position

theorem search {steps : Nat} {scope : ScopeId} (known : scope < scopes.size)
    (enough : scope < steps) (name : String) :
    scopes.search name steps scope = some (scopes.resolve? name scope) := by
  -- Outer scopes go down in number, so there are no more of them than the number says.
  induction steps generalizing scope with
  | zero => exact absurd enough (Nat.not_lt_zero _)
  | succ steps ih =>
      obtain ⟨found, position⟩ : ∃ found, scopes.all[scope]? = some found :=
        ⟨_, Array.getElem?_eq_getElem known⟩
      rw [Scopes.search, Scopes.resolve?]
      simp only [position, Option.bind_eq_bind, Option.bind_some]
      split
      next => rfl
      next =>
        cases enclosing : found.outer with
        | none => rfl
        | some outer =>
            by_cases inner : scope = Scopes.global
            next =>
              subst inner
              obtain ⟨first, same, none⟩ := nested.global
              rw [position] at same
              cases same
              rw [none] at enclosing
              cases enclosing
            next =>
              obtain ⟨older, same, less⟩ := nested.outer scope _ inner position
              rw [enclosing] at same
              cases same
              simp only [less, if_true]
              have covered : outer < steps := Nat.lt_of_lt_of_le less (Nat.le_of_lt_succ enough)
              exact ih (Nat.lt_trans less known) covered

omit nested in
theorem resolve?_lt {name : String} {scope owner : ScopeId}
    (found : scopes.resolve? name scope = some owner) : owner < scopes.size := by
  induction scope using Nat.strongRecOn with
  | ind scope ih =>
      rw [Scopes.resolve?] at found
      cases position : scopes.all[scope]? with
      | none => simp [position] at found
      | some inner =>
          simp only [position] at found
          split at found
          next =>
            cases found
            exact (Array.getElem?_eq_some_iff.mp position).1
          next =>
            split at found
            next => cases found
            next =>
              split at found
              next less => exact ih _ less found
              next => cases found

theorem target_lt (name : String) (scope : ScopeId) :
    (scopes.resolve? name scope).getD Scopes.global < scopes.size := by
  cases found : scopes.resolve? name scope with
  | none => exact nested.global_lt
  | some owner => exact resolve?_lt found

end Scopes.Nested

theorem Scopes.initial_nested : Scopes.initial.Nested := by
  refine ⟨⟨_, rfl, rfl⟩, fun index scope inner position => ?_⟩
  have bound := (Array.getElem?_eq_some_iff.mp position).1
  obtain rfl : index = Scopes.global := by simpa [Scopes.initial, Scopes.global] using bound
  exact absurd rfl inner

theorem Machine.initial_wellFormed : Machine.initial.WellFormed :=
  ⟨Machine.initial_sound, Scopes.initial_nested⟩

namespace Promises

theorem display_final (promises : Promises) {value : Value} (final : value.Final)
    (inspectPromise : PromiseId → String) (steps : Nat) :
    promises.display (steps + 1) true value = some (value.inspectWith inspectPromise) := by
  cases value with
  | promise id => exact final.elim
  | builtin host => cases host <;> simp [display, Value.inspectWith]
  | _ => simp [display, Value.inspectWith]

theorem display_of_final {promises : Promises} {value : Value} {steps : Nat}
    (final : ∀ id held, promises.get? id = some (.fulfilled held) → held.Final)
    (known : ∀ id, value = .promise id → id < promises.size ∧ 0 < steps) :
    promises.display (steps + 1) false value = some (value.inspect promises) := by
  cases value with
  | promise id =>
      obtain ⟨created, more⟩ := known id rfl
      obtain ⟨steps, rfl⟩ := Nat.exists_eq_add_one.mpr more
      rw [display]
      obtain ⟨reactions, pending⟩ | ⟨held, fulfilled⟩ := get?_cases created
      next => simp [pending, Value.inspect, Value.inspectWith, inspect]
      next =>
        have shown := promises.display_final (final id held fulfilled)
          (promises.inspect promises.size) steps
        simp [fulfilled, shown, Value.inspect, Value.inspectWith, inspect]
  | builtin host => cases host <;> simp [display, Value.inspect, Value.inspectWith]
  | _ => simp [display, Value.inspect, Value.inspectWith]

theorem display_eq {machine : Machine} (sound : machine.Sound) {value : Value}
    (within : value.Within machine.extent) :
    machine.promises.display (machine.promises.size + 1) false value =
      some (value.inspect machine.promises) := by
  refine display_of_final (fun id held fulfilled => (sound.promises id _ fulfilled).1) ?_
  rintro id rfl
  exact ⟨within, Nat.zero_lt_of_lt within⟩

theorem mapM_display {machine : Machine} (sound : machine.Sound) {arguments : List Value}
    (all : ∀ argument ∈ arguments, argument.Within machine.extent) :
    arguments.mapM (machine.promises.display (machine.promises.size + 1) false) =
      some (arguments.map (·.inspect machine.promises)) := by
  induction arguments with
  | nil => rfl
  | cons argument rest ih =>
      obtain ⟨within, others⟩ := List.forall_mem_cons.mp all
      simp [List.mapM_cons, display_eq sound within, ih others]

end Promises

open Simulation

inductive Kept {α : Type} (world : Extent) (stack : List String) (Post : Extent → α → Prop) :
    Outcome α → Prop where
  | done {value : α} {after : Machine} (wellFormed : after.WellFormed)
      (grown : world ≤ after.extent) (frames : after.stack = stack)
      (post : Post after.extent value) : Kept world stack Post (.done value after)
  | halted {after : Machine} (wellFormed : after.WellFormed) : Kept world stack Post (.halted after)

section Kept

variable {α : Type} {world : Extent} {stack : List String} {Post Weaker : Extent → α → Prop}
variable {outcome : Outcome α}

theorem Kept.wellFormed (kept : Kept world stack Post outcome) : outcome.machine.WellFormed := by
  cases kept with
  | done wellFormed => exact wellFormed
  | halted wellFormed => exact wellFormed

theorem Kept.mono {early : Extent} (kept : Kept world stack Post outcome) (older : early ≤ world)
    (weaker : ∀ extent value, Post extent value → Weaker extent value) :
    Kept early stack Weaker outcome := by
  cases kept with
  | done wellFormed grown frames post =>
      exact .done wellFormed (le_trans older grown) frames (weaker _ _ post)
  | halted wellFormed => exact .halted wellFormed

end Kept

namespace Machine.WellFormed

variable {machine : Machine} (wellFormed : machine.WellFormed) (settings : Settings)

include wellFormed

theorem record (event : Event) (node : Option NodeRef) :
    Kept machine.extent machine.stack (fun _ _ => True) (record event node settings machine) := by
  unfold Simulation.record
  split
  · exact .halted wellFormed
  · exact .done ⟨wellFormed.sound.recorded event node, wellFormed.nested⟩ (le_refl _) rfl trivial

theorem report (problem : Problem) (span : Option Span) :
    Kept machine.extent machine.stack (fun _ _ => True) (report problem span settings machine) := by
  obtain ⟨⟨scopes, tasks, microtasks, promises, tidy⟩, nested⟩ := wellFormed
  exact .done ⟨⟨scopes, tasks, microtasks, promises, tidy⟩, nested⟩ (le_refl _) rfl trivial

theorem writeLine (level : ConsoleLevel) (text : String) :
    Kept machine.extent machine.stack (fun _ _ => True)
      (writeLine level text settings machine) := by
  obtain ⟨⟨scopes, tasks, microtasks, promises, tidy⟩, nested⟩ := wellFormed
  exact .done ⟨⟨scopes, tasks, microtasks, promises, tidy⟩, nested⟩ (le_refl _) rfl trivial

theorem makeFunction {scope : ScopeId} (known : scope < machine.extent.scopes)
    (binding : Option String) (node : FunctionNode) :
    Kept machine.extent machine.stack Value.Within
      (makeFunction binding node scope settings machine) := by
  obtain ⟨⟨scopes, tasks, microtasks, promises, tidy⟩, nested⟩ := wellFormed
  exact .done ⟨⟨scopes, tasks, microtasks, promises, tidy⟩, nested⟩ (le_refl _) rfl known

theorem withScopes (scopes : Scopes) (grown : machine.scopes.size ≤ scopes.size)
    (within : scopes.Within ⟨scopes.size, machine.promises.size⟩) (nested : scopes.Nested) :
    Machine.WellFormed { machine with scopes := scopes } := by
  have larger : machine.extent ≤ ⟨scopes.size, machine.promises.size⟩ := ⟨grown, Nat.le_refl _⟩
  have sound := wellFormed.sound
  exact ⟨⟨within, fun task member => (sound.tasks task member).grow larger,
    fun microtask member => (sound.microtasks microtask member).grow larger,
    fun id state found => (sound.promises id state found).grow larger, sound.tidy⟩, nested⟩

theorem declare (scope : ScopeId) (name : String) {value : Value}
    (within : value.Within machine.extent) :
    Kept machine.extent machine.stack (fun _ _ => True)
      (declare scope name value settings machine) := by
  have size : (machine.scopes.declare scope name value).size = machine.scopes.size := by simp
  have same := Nat.le_of_eq size.symm
  have nested := wellFormed.nested.declare scope name value
  refine .done (wellFormed.withScopes _ same ?_ nested) ⟨same, Nat.le_refl _⟩ rfl trivial
  rw [size]
  exact wellFormed.sound.scopes.declare scope name within

theorem createScope {outer : ScopeId} (known : outer < machine.extent.scopes) :
    Kept machine.extent machine.stack (fun extent scope => scope < extent.scopes)
      (createScope outer settings machine) := by
  have size : (machine.scopes.create outer).2.size = machine.scopes.size + 1 := by simp
  have larger : machine.extent ≤ ⟨machine.scopes.size + 1, machine.promises.size⟩ :=
    ⟨Nat.le_succ _, Nat.le_refl _⟩
  have less : machine.scopes.size < (machine.scopes.create outer).2.size := by omega
  refine .done (wellFormed.withScopes (machine.scopes.create outer).2 (Nat.le_of_lt less) ?_
    (wellFormed.nested.create known)) ⟨Nat.le_of_lt less, Nat.le_refl _⟩ rfl less
  rw [size]
  exact (wellFormed.sound.scopes.create outer).grow larger

theorem createPromise {state : PromiseState}
    (within : state.Within ⟨machine.scopes.size, machine.promises.size + 1⟩) :
    Kept machine.extent machine.stack (fun extent id => id < extent.promises)
      (createPromise state settings machine) := by
  have extent := machine.extent_withPromise state
  refine .done ⟨wellFormed.sound.withPromise (extent ▸ within), wellFormed.nested⟩
    (machine.extent_le_withPromise state) rfl ?_
  show machine.promises.size < (machine.withPromise state).extent.promises
  rw [extent]
  exact Nat.lt_succ_self _

theorem enqueueMicrotask {microtask : Microtask} (within : microtask.job.Within machine.extent) :
    Kept machine.extent machine.stack (fun _ _ => True)
      (enqueueMicrotask microtask settings machine) :=
  .done ⟨wellFormed.sound.withMicrotask within, wellFormed.nested⟩ (le_refl _) rfl trivial

theorem putPromise (id : PromiseId) (state : PromiseState) (within : state.Within machine.extent) :
    Machine.WellFormed { machine with promises := machine.promises.put id state } ∧
      Machine.extent { machine with promises := machine.promises.put id state } =
        machine.extent :=
  ⟨⟨wellFormed.sound.putPromise within, wellFormed.nested⟩, by simp [Machine.extent]⟩

theorem keepReaction {source : PromiseId} {reaction : Reaction}
    (known : source < machine.promises.size) (within : reaction.Within machine.extent) :
    Kept machine.extent machine.stack
      (fun extent settled => ∀ value, settled = some value → value.Held extent)
      (keepReaction source reaction settings machine) := by
  have stored := wellFormed.sound.promises source
  obtain ⟨reactions, pending⟩ | ⟨held, fulfilled⟩ := Promises.get?_cases known
  next =>
    have waiting : PromiseState.Within machine.extent (.pending (reactions ++ [reaction])) := by
      intro waiting member
      obtain old | new := List.mem_append.mp member
      · exact stored _ pending waiting old
      · exact List.mem_singleton.mp new ▸ within
    obtain ⟨changed, extent⟩ := wellFormed.putPromise source _ waiting
    simp only [Simulation.keepReaction, update,
      Promises.subscribe_of_pending wellFormed.sound.tidy pending]
    exact .done changed (le_of_eq extent.symm) rfl (by simp)
  next =>
    simp only [Simulation.keepReaction, update, Promises.subscribe_of_fulfilled fulfilled]
    refine .done wellFormed (le_refl _) rfl ?_
    rintro _ ⟨⟩
    exact stored _ fulfilled

theorem fulfill {id : PromiseId} {value : Value} (known : id < machine.promises.size)
    (held : value.Held machine.extent) :
    Kept machine.extent machine.stack (fun extent reactions => value.Held extent ∧
      ∀ reaction ∈ reactions, reaction.Within extent) (fulfill id value settings machine) := by
  obtain ⟨reactions, pending⟩ | ⟨old, fulfilled⟩ := Promises.get?_cases known
  next =>
    obtain ⟨changed, extent⟩ := wellFormed.putPromise id (.fulfilled value) held
    simp only [Simulation.fulfill, update, Promises.fulfill_of_pending pending]
    refine .done changed (le_of_eq extent.symm) rfl ?_
    rw [extent]
    exact ⟨held, wellFormed.sound.promises id _ pending⟩
  next =>
    simp only [Simulation.fulfill, update, Promises.fulfill_of_fulfilled fulfilled]
    exact .done wellFormed (le_refl _) rfl ⟨held, by simp⟩

theorem withTasks (tasks : TaskQueue) (within : ∀ task ∈ tasks.tasks, task.Within machine.extent)
    (clock : Clock) : Machine.WellFormed { machine with tasks := tasks, clock := clock } :=
  ⟨wellFormed.sound.withTasks within clock, wellFormed.nested⟩

theorem nextTimer :
    Kept machine.extent machine.stack (fun _ _ => True) (nextTimer settings machine) :=
  .done (wellFormed.withTasks machine.tasks.nextId.2 wellFormed.sound.tasks machine.clock)
    (le_refl _) rfl trivial

theorem enqueueTask {task : Task} (within : task.Within machine.extent) :
    Kept machine.extent machine.stack (fun _ _ => True) (enqueueTask task settings machine) := by
  refine .done (wellFormed.withTasks (machine.tasks.enqueue task) (fun queued member => ?_)
    machine.clock) (le_refl _) rfl trivial
  obtain rfl | old := TaskQueue.mem_insert.mp member
  · exact within
  · exact wellFormed.sound.tasks queued old

theorem cancelTask? (id : TimerId) :
    Kept machine.extent machine.stack (fun _ _ => True) (cancelTask? id settings machine) := by
  cases pending : machine.tasks.cancel? id with
  | none =>
      simp only [Simulation.cancelTask?, update, pending]
      exact .done wellFormed (le_refl _) rfl trivial
  | some found =>
      obtain ⟨task, tasks⟩ := found
      obtain ⟨-, rfl⟩ := TaskQueue.cancel?_eq_some pending
      simp only [Simulation.cancelTask?, update, pending]
      have within : ∀ queued ∈ machine.tasks.tasks.eraseP (·.id == id),
          queued.Within machine.extent :=
        fun queued member => wellFormed.sound.tasks queued (List.mem_of_mem_eraseP member)
      exact .done (wellFormed.withTasks _ within machine.clock) (le_refl _) rfl trivial

theorem dequeueMicrotask? :
    Kept machine.extent machine.stack
      (fun extent next => ∀ microtask, next = some microtask → microtask.job.Within extent)
      (dequeueMicrotask? settings machine) := by
  have all := wellFormed.sound.microtasks
  cases queue : machine.microtasks.microtasks with
  | nil =>
      simp only [Simulation.dequeueMicrotask?, update, MicrotaskQueue.dequeue?, queue]
      exact .done wellFormed (le_refl _) rfl (by simp)
  | cons microtask rest =>
      simp only [Simulation.dequeueMicrotask?, update, MicrotaskQueue.dequeue?, queue]
      rw [queue] at all
      obtain ⟨first, others⟩ := List.forall_mem_cons.mp all
      obtain ⟨⟨scopes, tasks, -, promises, tidy⟩, nested⟩ := wellFormed
      refine .done ⟨⟨scopes, tasks, others, promises, tidy⟩, nested⟩ (le_refl _) rfl ?_
      rintro _ ⟨⟩
      exact first

theorem dequeueTask? :
    Kept machine.extent machine.stack
      (fun extent next => ∀ task, next = some task → task.Within extent)
      (dequeueTask? settings machine) := by
  have all := wellFormed.sound.tasks
  cases queue : machine.tasks.tasks with
  | nil =>
      simp only [Simulation.dequeueTask?, update, TaskQueue.dequeue?, queue]
      exact .done wellFormed (le_refl _) rfl (by simp)
  | cons task rest =>
      simp only [Simulation.dequeueTask?, update, TaskQueue.dequeue?, queue]
      rw [queue] at all
      obtain ⟨first, others⟩ := List.forall_mem_cons.mp all
      refine .done (wellFormed.withTasks _ others _) (le_refl _) rfl ?_
      rintro _ ⟨⟩
      exact first

end Machine.WellFormed

end EventLoop
