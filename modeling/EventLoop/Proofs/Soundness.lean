import EventLoop.Proofs.Effects

set_option autoImplicit false

/-!
# Sound configurations

Every effect leads from a sound configuration to a sound one, and no extent ever shrinks. So all
that a run gets hold of stays in bounds.
-/

namespace EventLoop

namespace Promises

variable {promises : Promises} {id other : PromiseId} {state : PromiseState}

@[simp]
theorem size_put : (promises.put id state).size = promises.size := by
  simp [put, size]

@[simp]
theorem size_create : (promises.create state).2.size = promises.size + 1 := by
  simp [create, size]

@[simp]
theorem size_fulfill (value : Value) : (promises.fulfill id value).2.size = promises.size := by
  unfold fulfill
  split
  next => split <;> simp [size]
  next => rfl

theorem get?_eq_some : promises.get? id = some state ↔
    ∃ record, promises.records[id]? = some record ∧ record.state = state :=
  Option.map_eq_some_iff

theorem lt_size_of_get? (found : promises.get? id = some state) : id < promises.size := by
  obtain ⟨record, position, -⟩ := get?_eq_some.mp found
  exact (Array.getElem?_eq_some_iff.mp position).1

theorem exists_get? (known : id < promises.size) : ∃ state, promises.get? id = some state :=
  ⟨_, get?_eq_some.mpr ⟨_, Array.getElem?_eq_getElem known, rfl⟩⟩

theorem get?_size : promises.get? promises.size = none := by
  simp [get?, size]

theorem get?_put_self (known : id < promises.size) :
    (promises.put id state).get? id = some state := by
  have bound : id < promises.records.size := known
  simp [put, get?, bound, state.state_record]

theorem get?_put_of_ne (different : id ≠ other) :
    (promises.put id state).get? other = promises.get? other := by
  simp [put, get?, different]

theorem get?_create_self : (promises.create state).2.get? promises.size = some state := by
  simp [create, get?, size, state.state_record]

theorem get?_create_of_ne (different : other ≠ promises.size) :
    (promises.create state).2.get? other = promises.get? other := by
  have beyond : other ≠ promises.records.size := different
  simp [create, get?, Array.getElem?_push, beyond]

theorem fulfill_of_pending {reactions : List Reaction} {value : Value}
    (pending : promises.get? id = some (.pending reactions)) :
    promises.fulfill id value = (reactions, promises.put id (.fulfilled value)) := by
  obtain ⟨⟨status, old, stored⟩, found, same⟩ := get?_eq_some.mp pending
  cases status with
  | fulfilled => cases same
  | pending =>
      cases same
      simp only [fulfill, found]
      rfl

theorem fulfill_of_fulfilled {value held : Value}
    (settled : promises.get? id = some (.fulfilled held)) :
    promises.fulfill id value = ([], promises) := by
  obtain ⟨⟨status, old, stored⟩, found, same⟩ := get?_eq_some.mp settled
  cases status with
  | pending => cases same
  | fulfilled => simp only [fulfill, found]

theorem fulfill_of_unknown {value : Value} (unknown : promises.get? id = none) :
    promises.fulfill id value = ([], promises) := by
  simp only [fulfill, Option.map_eq_none_iff.mp unknown]

theorem Tidy.put (tidy : promises.Tidy) (id : PromiseId) (state : PromiseState) :
    (promises.put id state).Tidy := by
  intro other record found
  simp only [Promises.put, Array.getElem?_setIfInBounds] at found
  split at found
  next =>
    split at found
    next =>
      cases found
      exact state.tidy_record
    next => cases found
  next => exact tidy other record found

theorem Tidy.create (tidy : promises.Tidy) (state : PromiseState) :
    (promises.create state).2.Tidy := by
  intro other record found
  simp only [Promises.create, Array.getElem?_push] at found
  split at found
  next =>
    cases found
    exact state.tidy_record
  next => exact tidy other record found

theorem subscribe_of_pending {reactions : List Reaction} (tidy : promises.Tidy)
    (pending : promises.get? id = some (.pending reactions)) (reaction : Reaction) :
    promises.subscribe id reaction =
      (none, promises.put id (.pending (reactions ++ [reaction]))) := by
  obtain ⟨⟨status, old, stored⟩, found, same⟩ := get?_eq_some.mp pending
  have clean := tidy id _ found
  cases status with
  | fulfilled => cases same
  | pending =>
      cases same
      cases clean
      simp only [subscribe, found]
      rfl

theorem subscribe_of_fulfilled {value : Value}
    (settled : promises.get? id = some (.fulfilled value)) (reaction : Reaction) :
    promises.subscribe id reaction = (some value, promises) := by
  obtain ⟨⟨status, old, stored⟩, found, same⟩ := get?_eq_some.mp settled
  cases status with
  | pending => cases same
  | fulfilled =>
      cases same
      simp only [subscribe, found]

theorem Tidy.fulfill (tidy : promises.Tidy) (id : PromiseId) (value : Value) :
    (promises.fulfill id value).2.Tidy := by
  cases found : promises.get? id with
  | none => rwa [fulfill_of_unknown found]
  | some state =>
      cases state with
      | pending reactions =>
          rw [fulfill_of_pending found]
          exact tidy.put id _
      | fulfilled held => rwa [fulfill_of_fulfilled found]

theorem Tidy.subscribe (tidy : promises.Tidy) (id : PromiseId) (reaction : Reaction) :
    (promises.subscribe id reaction).2.Tidy := by
  cases found : promises.get? id with
  | none =>
      simp only [Promises.subscribe, Option.map_eq_none_iff.mp found]
      exact tidy
  | some state =>
      cases state with
      | pending reactions =>
          rw [subscribe_of_pending tidy found]
          exact tidy.put id _
      | fulfilled held => rwa [subscribe_of_fulfilled found]

theorem create_keeps {value : Value} (fulfilled : promises.get? id = some (.fulfilled value)) :
    (promises.create state).2.get? id = some (.fulfilled value) :=
  (get?_create_of_ne (Nat.ne_of_lt (lt_size_of_get? fulfilled))).trans fulfilled

theorem get?_setIfInBounds_of_ne (different : other ≠ id) (record : PromiseRecord) :
    (⟨promises.records.setIfInBounds other record⟩ : Promises).get? id = promises.get? id := by
  simp [get?, different]

theorem fulfill_keeps {value : Value} (fulfilled : promises.get? id = some (.fulfilled value))
    (other : PromiseId) (result : Value) :
    (promises.fulfill other result).2.get? id = some (.fulfilled value) := by
  by_cases same : other = id
  next =>
    subst same
    rwa [fulfill_of_fulfilled fulfilled]
  next =>
    unfold fulfill
    split
    next =>
      split
      next => exact (get?_setIfInBounds_of_ne same _).trans fulfilled
      next => exact fulfilled
    next => exact fulfilled

theorem subscribe_keeps {value : Value} (fulfilled : promises.get? id = some (.fulfilled value))
    (other : PromiseId) (reaction : Reaction) :
    (promises.subscribe other reaction).2.get? id = some (.fulfilled value) := by
  by_cases same : other = id
  next =>
    subst same
    rwa [subscribe_of_fulfilled fulfilled]
  next =>
    unfold subscribe
    split
    next =>
      split
      next => exact (get?_setIfInBounds_of_ne same _).trans fulfilled
      next => exact fulfilled
    next => exact fulfilled

theorem get?_cases (known : id < promises.size) :
    (∃ reactions, promises.get? id = some (.pending reactions)) ∨
      ∃ value, promises.get? id = some (.fulfilled value) := by
  obtain ⟨state, found⟩ := exists_get? known
  cases state with
  | pending reactions => exact .inl ⟨reactions, found⟩
  | fulfilled value => exact .inr ⟨value, found⟩

end Promises

theorem Machine.extent_withPromise (machine : Machine) (state : PromiseState) :
    (machine.withPromise state).extent =
      ⟨machine.scopes.size, machine.promises.size + 1⟩ := by
  simp [Machine.extent, Machine.withPromise]

theorem Machine.extent_le_withPromise (machine : Machine) (state : PromiseState) :
    machine.extent ≤ (machine.withPromise state).extent := by
  rw [machine.extent_withPromise]
  exact ⟨Nat.le_refl _, Nat.le_succ _⟩

theorem Subscribes.extent {source : PromiseId} {reaction : Reaction} {act : Act}
    {late acts : List Act}
    {machine changed : Machine} {notice : Notice}
    (subscribes : Subscribes source reaction act late machine acts notice changed) :
    changed.extent = machine.extent := by
  cases subscribes with
  | kept pending => simp [Machine.extent]
  | queued settled => rfl

theorem Operation.extent_le {machine changed : Machine} {acts : List Act} {notice : Notice}
    (operation : Operation machine acts notice changed) : machine.extent ≤ changed.extent := by
  cases operation with
  | quiet stack scopes callables grown within => exact ⟨grown, Nat.le_refl _⟩
  | hold held => exact machine.extent_le_withPromise _
  | register known within subscribes =>
      rw [subscribes.extent]
      exact machine.extent_le_withPromise _
  | _ => exact le_refl _

theorem Effect.extent_le {config after : Config} {acts : List Act} {notice : Notice}
    (effect : Effect config acts notice after) : config.machine.extent ≤ after.machine.extent := by
  cases effect with
  | operation evaluates operation => exact operation.extent_le
  | holdOutcome held => exact Machine.extent_le_withPromise _ _
  | restore known subscribes =>
      rw [subscribes.extent]
      exact Machine.extent_le_withPromise _ _
  | follow known subscribes => exact le_of_eq subscribes.extent.symm
  | fulfill machine id final => simp [Machine.extent]
  | _ => exact le_refl _

def Duty.Within (extent : Extent) : Duty → Prop
  | .free | .ran _ | .ended => True
  | .callback value => value.Callback extent
  | .task running => running.Within extent
  | .react reaction value => reaction.Within extent ∧ value.Held extent
  | .await reaction outcome value =>
      (reaction.kind = .onFinally ∧ ∃ callback, reaction.handler = .callback callback) ∧
        reaction.Within extent ∧ outcome.Within extent ∧ value.Held extent
  | .settle id value => id < extent.promises ∧ value.Within extent
  | .release _ value reactions =>
      value.Held extent ∧ ∀ reaction ∈ reactions, reaction.Within extent
  | .follow promise other => promise < extent.promises ∧ other < extent.promises

structure Config.Sound (config : Config) : Prop where
  machine : config.machine.Sound
  duty : config.duty.Within config.machine.extent

theorem Duty.Within.grow {extent later : Extent} (grown : extent ≤ later) {duty : Duty}
    (within : duty.Within extent) : duty.Within later := by
  cases duty with
  | free | ran _ | ended => trivial
  | callback value => exact Value.Callback.grow grown within
  | task task => exact Task.Fits.grow grown within
  | react reaction value => exact ⟨within.1.grow grown, within.2.grow grown⟩
  | await reaction outcome value =>
      exact ⟨within.1, within.2.1.grow grown, within.2.2.1.grow grown, within.2.2.2.grow grown⟩
  | settle id value => exact ⟨Nat.lt_of_lt_of_le within.1 grown.2, within.2.grow grown⟩
  | release source value reactions =>
      exact ⟨within.1.grow grown, fun reaction member => (within.2 reaction member).grow grown⟩
  | follow promise other =>
      exact ⟨Nat.lt_of_lt_of_le within.1 grown.2, Nat.lt_of_lt_of_le within.2 grown.2⟩

theorem Handler.ofArguments_within {extent : Extent} {arguments : List Value}
    (within : ∀ argument ∈ arguments, argument.Within extent) :
    (Handler.ofArguments arguments).Within extent := by
  cases arguments with
  | nil => trivial
  | cons argument rest =>
      simp only [Handler.ofArguments, List.head?_cons]
      split
      next callable => exact ⟨callable, within argument List.mem_cons_self⟩
      next => trivial

namespace Machine.Sound

variable {machine : Machine} (sound : machine.Sound)

include sound

theorem recorded (event : Event) (node : Option NodeRef) : (machine.recorded event node).Sound :=
  ⟨sound.scopes, sound.tasks, sound.microtasks, sound.promises, sound.tidy⟩

theorem withMicrotask {microtask : Microtask} (within : microtask.job.Within machine.extent) :
    (machine.withMicrotask microtask).Sound := by
  refine ⟨sound.scopes, sound.tasks, ?_, sound.promises, sound.tidy⟩
  intro queued member
  obtain old | new := List.mem_append.mp member
  · exact sound.microtasks queued old
  · obtain rfl := List.mem_singleton.mp new
    exact within

theorem withPromise {state : PromiseState}
    (within : state.Within (machine.withPromise state).extent) :
    (machine.withPromise state).Sound := by
  have grown := machine.extent_le_withPromise state
  refine ⟨sound.scopes.grow grown, fun task member => (sound.tasks task member).grow grown,
    fun microtask member => (sound.microtasks microtask member).grow grown, ?_,
    sound.tidy.create state⟩
  intro id found position
  by_cases fresh : id = machine.promises.size
  · subst fresh
    obtain rfl := Option.some.inj (Promises.get?_create_self.symm.trans position)
    exact within
  · have old := (Promises.get?_create_of_ne fresh).symm.trans position
    exact (sound.promises id found old).grow grown

theorem putPromise {id : PromiseId} {state : PromiseState} (within : state.Within machine.extent) :
    Machine.Sound { machine with promises := machine.promises.put id state } := by
  have extent : Machine.extent { machine with promises := machine.promises.put id state } =
      machine.extent := by simp [Machine.extent]
  refine ⟨extent ▸ sound.scopes, extent ▸ sound.tasks, extent ▸ sound.microtasks, ?_,
    sound.tidy.put id state⟩
  intro other found position
  rw [extent]
  have known := Promises.lt_size_of_get? position
  by_cases same : id = other
  · subst same
    rw [Promises.get?_put_self (by simpa using known)] at position
    exact Option.some.inj position ▸ within
  · rw [Promises.get?_put_of_ne same] at position
    exact sound.promises other found position

theorem withTasks {tasks : TaskQueue} (within : ∀ task ∈ tasks.tasks, task.Within machine.extent)
    (clock : Clock) : Machine.Sound { machine with tasks := tasks, clock := clock } :=
  ⟨sound.scopes, within, sound.microtasks, sound.promises, sound.tidy⟩

end Machine.Sound

theorem Subscribes.sound {source : PromiseId} {reaction : Reaction} {act : Act}
    {late acts : List Act}
    {machine changed : Machine} {notice : Notice}
    (subscribes : Subscribes source reaction act late machine acts notice changed)
    (sound : machine.Sound)
    (within : reaction.Within machine.extent) : changed.Sound := by
  cases subscribes with
  | kept pending =>
      refine sound.putPromise fun stored member => ?_
      obtain old | new := List.mem_append.mp member
      · exact sound.promises _ _ pending stored old
      · obtain rfl := List.mem_singleton.mp new
        exact within
  | queued settled => exact sound.withMicrotask ⟨within, sound.promises _ _ settled⟩

theorem TaskQueue.mem_insert {task queued : Task} {tasks : List Task} :
    queued ∈ TaskQueue.insert task tasks ↔ queued = task ∨ queued ∈ tasks := by
  induction tasks with
  | nil => simp [TaskQueue.insert]
  | cons head rest ih =>
      unfold TaskQueue.insert
      split
      · simp [ih, or_left_comm]
      · simp

theorem TaskQueue.cancel?_eq_some {queue tasks : TaskQueue} {id : TimerId} {task : Task}
    (cancelled : queue.cancel? id = some (task, tasks)) :
    queue.tasks.find? (·.id == id) = some task ∧
      tasks = { queue with tasks := queue.tasks.eraseP (·.id == id) } := by
  obtain ⟨found, position, same⟩ := Option.map_eq_some_iff.mp cancelled
  cases same
  exact ⟨position, rfl⟩

theorem Operation.sound {machine changed : Machine} {acts : List Act} {notice : Notice}
    (operation : Operation machine acts notice changed) (sound : machine.Sound) :
    changed.Sound := by
  cases operation with
  | quiet stack scopes callables grown within =>
      -- Nothing but the number of scopes has grown, and what fitted before still fits.
      have larger : machine.extent ≤ ⟨scopes.size, machine.promises.size⟩ :=
        ⟨grown, Nat.le_refl _⟩
      exact ⟨within, fun task member => (sound.tasks task member).grow larger,
        fun microtask member => (sound.microtasks microtask member).grow larger,
        fun id state found => (sound.promises id state found).grow larger, sound.tidy⟩
  | report diagnostics =>
      exact ⟨sound.scopes, sound.tasks, sound.microtasks, sound.promises, sound.tidy⟩
  | writeLine console echoed =>
      exact ⟨sound.scopes, sound.tasks, sound.microtasks, sound.promises, sound.tidy⟩
  | frame frame => exact sound
  | answer answers => exact sound
  | addTask fresh delay callback rest within =>
      refine sound.withTasks (fun queued member => ?_) machine.clock
      obtain rfl | old := TaskQueue.mem_insert.mp member
      · exact within
      · exact sound.tasks queued old
  | removeTask named pending =>
      obtain ⟨-, rfl⟩ := TaskQueue.cancel?_eq_some pending
      exact sound.withTasks (fun queued member =>
        sound.tasks queued (List.mem_of_mem_eraseP member))
        machine.clock
  | queueMicrotask arguments within => exact sound.withMicrotask within
  | hold held => exact sound.withPromise (held.grow (machine.extent_le_withPromise _))
  | register known within subscribes =>
      have grown := machine.extent_le_withPromise (.pending [])
      have created : (machine.withPromise (.pending [])).Sound :=
        sound.withPromise fun reaction member => by simp at member
      refine subscribes.sound created ⟨?_, ?_⟩
      · exact Handler.ofArguments_within fun argument member => (within argument member).grow grown
      · simp [Sorts.within, Value.Within, Machine.extent_withPromise]

theorem Job.Fits.duty {extent : Extent} {job : Job} (within : job.Within extent) :
    job.duty.Within extent := by
  cases job with
  | callback callback => exact within
  | reaction reaction value => exact within
  | follow promise other => exact within

theorem Reaction.Gives.within {extent : Extent} {reaction : Reaction} {value result : Value}
    (gives : reaction.Gives value result) (fits : reaction.Within extent)
    (held : value.Held extent) : result.Within extent := by
  have handler := fits.handler
  unfold Reaction.Gives at gives
  split at gives
  next => exact gives.elim
  next => exact gives.elim
  next same =>
    rw [same] at handler
    exact gives ▸ handler.2
  next => exact gives ▸ held.2

theorem Effect.sound {config after : Config} {acts : List Act} {notice : Notice}
    (effect : Effect config acts notice after) (sound : config.Sound) : after.Sound := by
  have machineSound := sound.machine
  have duty := sound.duty
  cases effect with
  | operation evaluates operation =>
      exact ⟨operation.sound machineSound, duty.grow operation.extent_le⟩
  | @takeMicrotask machine microtask rest next =>
      have all := machineSound.microtasks
      rw [next] at all
      obtain ⟨first, others⟩ := List.forall_mem_cons.mp all
      exact ⟨⟨machineSound.scopes, machineSound.tasks, others, machineSound.promises,
        machineSound.tidy⟩, first.duty⟩
  | @takeTask machine task rest drained next =>
      have all := machineSound.tasks
      rw [next] at all
      obtain ⟨first, others⟩ := List.forall_mem_cons.mp all
      exact ⟨machineSound.withTasks others _, first⟩
  | calledBack machine callback result => exact ⟨machineSound, trivial⟩
  | ranTask machine task result => exact ⟨machineSound, trivial⟩
  | calledThen kind handler within => exact ⟨machineSound, duty.1.derived, within⟩
  | calledFinally kind handler within =>
      exact ⟨machineSound, ⟨kind, _, handler⟩, duty.1, within, duty.2⟩
  | @holdOutcome machine reaction outcome value held =>
      have grown := machine.extent_le_withPromise (.fulfilled outcome)
      refine ⟨machineSound.withPromise (held.grow grown), duty.1, duty.2.1.grow grown, ?_,
        duty.2.2.2.grow grown⟩
      simp [Value.Within, Machine.extent_withPromise]
  | @restore machine _ _ value _ _ _ known subscribes =>
      -- The value of a finally waits in a reaction for the promise that is created here.
      have grown := machine.extent_le_withPromise (.pending [])
      have created : (machine.withPromise (.pending [])).Sound :=
        machineSound.withPromise fun reaction member => by simp at member
      have held : value.Held (machine.withPromise (.pending [])).extent := duty.2.2.2.grow grown
      refine ⟨subscribes.sound created ⟨held, ?_⟩, ?_, ?_⟩
      · simp [Sorts.within, Value.Within, Machine.extent_withPromise]
      · rw [subscribes.extent]
        exact (duty.2.1.grow grown).derived
      · rw [subscribes.extent]
        simp [Value.Within, Machine.extent_withPromise]
  | result gives => exact ⟨machineSound, duty.1.derived, gives.within duty.1 duty.2⟩
  | settleSelf machine id => exact ⟨machineSound, trivial⟩
  | settleFollow machine different =>
      exact ⟨machineSound.withMicrotask ⟨duty.1, duty.2⟩, trivial⟩
  | @fulfill machine id value final =>
      have held : value.Held machine.extent := ⟨final, duty.2⟩
      -- The reactions of a pending promise pass into the duty; a settled promise has none to
      -- release.
      obtain ⟨reactions, pending⟩ | ⟨old, settled⟩ := Promises.get?_cases duty.1
      · rw [Promises.fulfill_of_pending pending]
        refine ⟨machineSound.putPromise held, ?_⟩
        have extent : Machine.extent { machine with
            promises := machine.promises.put id (.fulfilled value) } = machine.extent := by
          simp [Machine.extent]
        rw [extent]
        exact ⟨held, machineSound.promises _ _ pending⟩
      · rw [Promises.fulfill_of_fulfilled settled]
        exact ⟨machineSound, held, by simp⟩
  | release machine source value reaction rest =>
      obtain ⟨held, all⟩ := duty
      obtain ⟨first, others⟩ := List.forall_mem_cons.mp all
      exact ⟨machineSound.withMicrotask ⟨first, held⟩, held, others⟩
  | released machine source value => exact ⟨machineSound, trivial⟩
  | follow known subscribes =>
      exact ⟨subscribes.sound machineSound ⟨trivial, duty.1⟩, trivial⟩
  | finish machine ends => exact ⟨machineSound, trivial⟩

theorem Config.Sound.record {config : Config} (sound : config.Sound) (event : Event)
    (node : Option NodeRef) : (config.record event node).Sound :=
  ⟨sound.machine.recorded event node, sound.duty⟩

theorem Journey.sound {settings : Settings} {start reached : Config} {acts : List Act}
    (journey : Journey settings start acts reached) (sound : start.Sound) : reached.Sound := by
  induction journey with
  | refl => exact sound
  | silent _ effect ih => exact effect.sound ih
  | recorded _ effect node _ ih => exact (effect.sound ih).record _ node

theorem Journey.extent_le {settings : Settings} {start reached : Config} {acts : List Act}
    (journey : Journey settings start acts reached) :
    start.machine.extent ≤ reached.machine.extent := by
  induction journey with
  | refl => exact le_refl _
  | silent _ effect ih => exact le_trans ih effect.extent_le
  | recorded _ effect node _ ih => exact le_trans ih effect.extent_le

end EventLoop
