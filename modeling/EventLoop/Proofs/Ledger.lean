import EventLoop.Proofs.History
import Mathlib.Algebra.BigOperators.Group.Finset.Basic
import Mathlib.Algebra.Order.Group.Multiset

set_option autoImplicit false

/-!
# The ledger of promises

Of all that a run does, what becomes of its promises can be told from three things: how many
promises there are, which of them have a value, and what is on its way to settle one.
-/

namespace EventLoop

-- What is on its way to settle a promise: a reaction that waits for another promise, a reaction
-- that is queued or runs, the job of following another promise, or a value that was found.
inductive Settler where
  | stored (source : PromiseId) (reaction : Reaction)
  | due (reaction : Reaction) (value : Value)
  | follow (promise other : PromiseId)
  | settle (id : PromiseId) (value : Value)

namespace Settler

def target : Settler → PromiseId
  | stored _ reaction | due reaction _ => reaction.derived
  | follow promise _ => promise
  | settle id _ => id

def fire (source : PromiseId) (value : Value) : Settler → Settler
  | stored other reaction => if other = source then due reaction value else stored other reaction
  | settler => settler

@[simp]
theorem target_due (reaction : Reaction) (value : Value) :
    (due reaction value).target = reaction.derived := rfl

@[simp]
theorem target_follow (promise other : PromiseId) : (follow promise other).target = promise := rfl

@[simp]
theorem target_settle (id : PromiseId) (value : Value) : (settle id value).target = id := rfl

@[simp]
theorem target_fire (source : PromiseId) (value : Value) (settler : Settler) :
    (settler.fire source value).target = settler.target := by
  cases settler with
  | stored other reaction =>
      simp only [fire]
      split <;> rfl
  | _ => rfl

theorem fire_comp_stored_self (source : PromiseId) (value : Value) :
    fire source value ∘ stored source = (due · value) := by
  funext reaction
  simp [fire]

theorem fire_comp_stored_of_ne {source other : PromiseId} (different : other ≠ source)
    (value : Value) : fire source value ∘ stored other = stored other := by
  funext reaction
  simp [fire, different]

end Settler

def PromiseState.reactions : PromiseState → List Reaction
  | .pending reactions => reactions
  | .fulfilled _ => []

def PromiseState.value? : PromiseState → Option Value
  | .pending _ => none
  | .fulfilled value => some value

namespace Promises

def waiting (promises : Promises) (id : PromiseId) : List Reaction :=
  (promises.get? id).elim [] PromiseState.reactions

def value? (promises : Promises) (id : PromiseId) : Option Value :=
  (promises.get? id).bind PromiseState.value?

def storedOn (promises : Promises) (id : PromiseId) : Multiset Settler :=
  ((promises.waiting id).map (Settler.stored id) : List Settler)

def stored (promises : Promises) : Multiset Settler :=
  ∑ id ∈ Finset.range promises.size, promises.storedOn id

end Promises

def Job.settlers : Job → List Settler
  | .callback _ => []
  | .reaction waiting value => [.due waiting value]
  | .follow promise other => [.follow promise other]

def Duty.settlers : Duty → List Settler
  | .free | .callback _ | .task _ | .ran _ | .ended => []
  | .react reaction value | .await reaction _ value => [.due reaction value]
  | .settle id value => [.settle id value]
  | .release _ value reactions => reactions.map (.due · value)
  | .follow promise other => [.follow promise other]

def MicrotaskQueue.settlers (queue : MicrotaskQueue) : List Settler :=
  queue.microtasks.flatMap (·.job.settlers)

structure Ledger where
  size : Nat
  value? : PromiseId → Option Value
  settlers : Multiset Settler

def Machine.ledger (machine : Machine) : Ledger :=
  ⟨machine.promises.size, machine.promises.value?,
    machine.promises.stored + machine.microtasks.settlers⟩

def Config.ledger (config : Config) : Ledger :=
  { config.machine.ledger with
    settlers := config.duty.settlers + config.machine.ledger.settlers }

namespace Ledger

def subscribe (ledger : Ledger) (source : PromiseId) (reaction : Reaction) : Settler :=
  match ledger.value? source with
  | some value => .due reaction value
  | none => .stored source reaction

@[simp]
theorem target_subscribe (ledger : Ledger) (source : PromiseId) (reaction : Reaction) :
    (ledger.subscribe source reaction).target = reaction.derived := by
  unfold subscribe
  split <;> rfl

inductive Step : Ledger → List Act → Ledger → Prop where
  | idle (ledger : Ledger) : Step ledger [] ledger
  | hold (ledger : Ledger) {value : Value} (final : value.Final) :
      Step ledger [.hold ledger.size value]
        { ledger with
          size := ledger.size + 1
          value? := Function.update ledger.value? ledger.size (some value) }
  | register (ledger : Ledger) (kind : ReactionKind) {source : PromiseId} (arguments : List Value)
      (known : source < ledger.size) :
      Step ledger [.register kind source arguments ledger.size]
        { ledger with
          size := ledger.size + 1
          settlers := ledger.subscribe source ⟨kind, .ofArguments arguments, ledger.size⟩ ::ₘ
            ledger.settlers }
  | restore {ledger : Ledger} {reaction : Reaction} {value callback : Value} {waited : PromiseId}
      {rest : Multiset Settler} (kind : reaction.kind = .onFinally)
      (handler : reaction.handler = .callback callback) (known : waited < ledger.size)
      (due : ledger.settlers = .due reaction value ::ₘ rest) :
      Step ledger []
        { ledger with
          size := ledger.size + 1
          settlers := ledger.subscribe waited ⟨.onFinally, .restore value, ledger.size⟩ ::ₘ
            .settle reaction.derived (.promise ledger.size) ::ₘ rest }
  | called {ledger : Ledger} {reaction : Reaction} {value callback : Value}
      {rest : Multiset Settler} (kind : reaction.kind = .onThen)
      (handler : reaction.handler = .callback callback) (result : Value)
      (due : ledger.settlers = .due reaction value ::ₘ rest) :
      Step ledger [] { ledger with settlers := .settle reaction.derived result ::ₘ rest }
  | result {ledger : Ledger} {reaction : Reaction} {value result : Value}
      {rest : Multiset Settler} (gives : reaction.Gives value result)
      (due : ledger.settlers = .due reaction value ::ₘ rest) :
      Step ledger [] { ledger with settlers := .settle reaction.derived result ::ₘ rest }
  | settleSelf {ledger : Ledger} {id : PromiseId} {rest : Multiset Settler}
      (due : ledger.settlers = .settle id (.promise id) ::ₘ rest) :
      Step ledger [.settle id (.promise id)] { ledger with settlers := rest }
  | settleFollow {ledger : Ledger} {id other : PromiseId} {rest : Multiset Settler}
      (different : other ≠ id) (due : ledger.settlers = .settle id (.promise other) ::ₘ rest) :
      Step ledger [.settle id (.promise other)]
        { ledger with settlers := .follow id other ::ₘ rest }
  | fulfill {ledger : Ledger} {id : PromiseId} {value : Value} {rest : Multiset Settler}
      (final : value.Final) (pending : ledger.value? id = none)
      (due : ledger.settlers = .settle id value ::ₘ rest) :
      Step ledger [.settle id value]
        { ledger with
          value? := Function.update ledger.value? id (some value)
          settlers := rest.map (Settler.fire id value) }
  | ignored {ledger : Ledger} {id : PromiseId} {value held : Value} {rest : Multiset Settler}
      (final : value.Final) (settled : ledger.value? id = some held)
      (due : ledger.settlers = .settle id value ::ₘ rest) :
      Step ledger [.settle id value] { ledger with settlers := rest }
  | follow {ledger : Ledger} {promise other : PromiseId} {rest : Multiset Settler}
      (known : other < ledger.size) (due : ledger.settlers = .follow promise other ::ₘ rest) :
      Step ledger []
        { ledger with
          settlers := ledger.subscribe other ⟨.onThen, .passThrough, promise⟩ ::ₘ rest }

end Ledger

def Act.isDeed : Act → Bool
  | .hold .. | .settle .. | .register .. => true
  | _ => false

def deeds (acts : List Act) : List Act := acts.filter Act.isDeed

@[simp]
theorem deeds_append (acts more : List Act) : deeds (acts ++ more) = deeds acts ++ deeds more :=
  List.filter_append ..

namespace Promises

variable {promises : Promises} {id : PromiseId} {state : PromiseState}

theorem get?_create (promises : Promises) (state : PromiseState) :
    (promises.create state).2.get? = Function.update promises.get? promises.size (some state) := by
  funext id
  by_cases new : id = promises.size
  · subst new
    simp [get?_create_self]
  · simp [get?_create_of_ne new, Function.update_of_ne new]

theorem get?_put (known : id < promises.size) (state : PromiseState) :
    (promises.put id state).get? = Function.update promises.get? id (some state) := by
  funext other
  by_cases same : id = other
  · subst same
    simp [get?_put_self known]
  · simp [get?_put_of_ne same, Function.update_of_ne (Ne.symm same)]

theorem value?_put (known : id < promises.size) (state : PromiseState) :
    (promises.put id state).value? = Function.update promises.value? id state.value? := by
  funext other
  by_cases same : other = id
  · subst same
    simp [value?, get?_put known]
  · simp [value?, get?_put known, Function.update_of_ne same]

theorem value?_create (promises : Promises) (state : PromiseState) :
    (promises.create state).2.value? =
      Function.update promises.value? promises.size state.value? := by
  funext other
  by_cases same : other = promises.size
  · subst same
    simp [value?, get?_create]
  · simp [value?, get?_create, Function.update_of_ne same]

theorem stored_create (empty : state.reactions = []) :
    (promises.create state).2.stored = promises.stored := by
  have last : (promises.create state).2.storedOn promises.size = 0 := by
    simp [storedOn, waiting, get?_create, empty]
  unfold stored
  rw [size_create, Finset.sum_range_succ, last, add_zero]
  refine Finset.sum_congr rfl fun other member => ?_
  have old : other ≠ promises.size := Nat.ne_of_lt (Finset.mem_range.mp member)
  simp [storedOn, waiting, get?_create, Function.update_of_ne old]

theorem stored_eq_add (known : id < promises.size) :
    promises.stored =
      promises.storedOn id + ∑ other ∈ (Finset.range promises.size).erase id,
        promises.storedOn other :=
  (Finset.add_sum_erase _ _ (Finset.mem_range.mpr known)).symm

theorem stored_put (known : id < promises.size) (state : PromiseState) :
    (promises.put id state).stored =
      (state.reactions.map (Settler.stored id) : List Settler) +
        ∑ other ∈ (Finset.range promises.size).erase id, promises.storedOn other := by
  rw [stored_eq_add (by simpa using known), size_put]
  congr 1
  · simp [storedOn, waiting, get?_put known]
  · refine Finset.sum_congr rfl fun other member => ?_
    have different : other ≠ id := Finset.ne_of_mem_erase member
    simp [storedOn, waiting, get?_put known, Function.update_of_ne different]

theorem stored_concat {reactions : List Reaction} (reaction : Reaction)
    (pending : promises.get? id = some (.pending reactions)) :
    (promises.put id (.pending (reactions ++ [reaction]))).stored =
      .stored id reaction ::ₘ promises.stored := by
  have known := lt_size_of_get? pending
  have before : promises.storedOn id = (reactions.map (Settler.stored id) : List Settler) := by
    simp [storedOn, waiting, pending, PromiseState.reactions]
  rw [stored_put known, stored_eq_add known, before, ← Multiset.cons_add]
  congr 1
  simp only [PromiseState.reactions, List.map_append, List.map_cons, List.map_nil]
  rw [← Multiset.coe_add, add_comm]
  rfl

theorem stored_fire {reactions : List Reaction} (value : Value)
    (pending : promises.get? id = some (.pending reactions)) :
    promises.stored.map (Settler.fire id value) =
      (reactions.map (Settler.due · value) : List Settler) +
        (promises.put id (.fulfilled value)).stored := by
  have known := lt_size_of_get? pending
  have before : promises.storedOn id = (reactions.map (Settler.stored id) : List Settler) := by
    simp [storedOn, waiting, pending, PromiseState.reactions]
  rw [stored_put known, stored_eq_add known, Multiset.map_add, before]
  simp only [PromiseState.reactions, List.map_nil, Multiset.coe_nil, zero_add]
  congr 1
  · simp [Settler.fire_comp_stored_self]
  · rw [← Multiset.coe_mapAddMonoidHom, map_sum]
    refine Finset.sum_congr rfl fun other member => ?_
    have different : other ≠ id := Finset.ne_of_mem_erase member
    simp [storedOn, Settler.fire_comp_stored_of_ne different]

end Promises

section Refinement

variable {machine changed : Machine} {duty : Duty} {acts : List Act} {notice : Notice}

theorem Config.ledger_of_nil (machine : Machine) (nothing : duty.settlers = []) :
    Config.ledger ⟨machine, duty⟩ = machine.ledger := by
  simp [Config.ledger, nothing]

theorem Config.ledger_of_single (machine : Machine) {settler : Settler}
    (single : duty.settlers = [settler]) :
    Config.ledger ⟨machine, duty⟩ =
      { machine.ledger with settlers := settler ::ₘ machine.ledger.settlers } := by
  simp [Config.ledger, single]

theorem Machine.ledger_withMicrotask (machine : Machine) (microtask : Microtask) :
    (machine.withMicrotask microtask).ledger =
      { machine.ledger with
        settlers := microtask.job.settlers + machine.ledger.settlers } := by
  simp only [Machine.ledger, Machine.withMicrotask, MicrotaskQueue.settlers, MicrotaskQueue.enqueue,
    List.flatMap_append, List.flatMap_singleton, ← Multiset.coe_add]
  rw [← add_assoc, add_comm]

theorem Machine.ledger_withPromise (machine : Machine) {state : PromiseState}
    (empty : state.reactions = []) :
    (machine.withPromise state).ledger =
      { machine.ledger with
        size := machine.promises.size + 1
        value? := Function.update machine.promises.value? machine.promises.size state.value? } := by
  simp [Machine.ledger, Machine.withPromise, Promises.stored_create empty, Promises.value?_create]

theorem Machine.ledger_withPending (machine : Machine) :
    (machine.withPromise (.pending [])).ledger =
      { machine.ledger with size := machine.promises.size + 1 } := by
  have unknown : machine.promises.value? machine.promises.size = none := by
    simp [Promises.value?, Promises.get?, Promises.size]
  have same : Function.update machine.promises.value? machine.promises.size none =
      machine.promises.value? := Function.update_eq_self_iff.mpr unknown.symm
  rw [Machine.ledger_withPromise machine rfl, PromiseState.value?, same]
  rfl

theorem Subscribes.ledger {source : PromiseId} {reaction : Reaction} {act : Act} {late : List Act}
    (subscribes : Subscribes source reaction act late machine acts notice changed)
    (calls : deeds late = []) :
    deeds acts = deeds [act] ∧
      changed.ledger =
        { machine.ledger with
          settlers := machine.ledger.subscribe source reaction ::ₘ machine.ledger.settlers } := by
  cases subscribes with
  | @kept reactions pending =>
      refine ⟨by rw [← List.singleton_append, deeds_append, calls, List.append_nil], ?_⟩
      have unsettled : machine.promises.value? source = none := by
        simp [Promises.value?, pending, PromiseState.value?]
      have same : (machine.promises.put source (.pending (reactions ++ [reaction]))).value? =
          machine.promises.value? := by
        rw [Promises.value?_put (Promises.lt_size_of_get? pending)]
        exact Function.update_eq_self_iff.mpr unsettled.symm
      simp [Machine.ledger, same, Ledger.subscribe, unsettled,
        Promises.stored_concat reaction pending]
  | @queued value settled =>
      refine ⟨by cases act <;> rfl, ?_⟩
      have found : machine.ledger.value? source = some value := by
        simp [Machine.ledger, Promises.value?, settled, PromiseState.value?]
      simp [Machine.ledger_withMicrotask, Ledger.subscribe, found, Job.settlers]

theorem Operation.ledger (operation : Operation machine acts notice changed) (duty : Duty) :
    Ledger.Step (Config.ledger ⟨machine, duty⟩) (deeds acts) (Config.ledger ⟨changed, duty⟩) := by
  cases operation with
  | @queueMicrotask callback arguments within =>
      have same : (machine.withMicrotask ⟨callback.callbackName, .callback callback⟩).ledger =
          machine.ledger := by
        simp [Machine.ledger_withMicrotask, Job.settlers]
      simp only [Config.ledger, same]
      exact .idle _
  | @hold value held =>
      have bare : (PromiseState.fulfilled value).reactions = [] := rfl
      have created := machine.ledger_withPromise bare
      simp only [Config.ledger, created]
      exact .hold _ held.1
  | register known within subscribes =>
      obtain ⟨registered, same⟩ := subscribes.ledger rfl
      rw [registered]
      simp only [Config.ledger, same, Machine.ledger_withPending, Multiset.add_cons]
      exact .register _ _ _ known
  | _ => exact .idle _

theorem Job.settlers_duty (job : Job) : job.duty.settlers = job.settlers := by
  cases job <;> rfl

theorem MicrotaskQueue.fire_settlers (queue : MicrotaskQueue) (source : PromiseId) (value : Value) :
    queue.settlers.map (Settler.fire source value) = queue.settlers := by
  have same (job : Job) : job.settlers.map (Settler.fire source value) = job.settlers := by
    cases job <;> rfl
  simp [MicrotaskQueue.settlers, List.map_flatMap, same]

theorem Machine.ledger_fulfill (machine : Machine) {id : PromiseId} {reactions : List Reaction}
    (value : Value) (pending : machine.promises.get? id = some (.pending reactions)) :
    Config.ledger
        ⟨{ machine with promises := machine.promises.put id (.fulfilled value) },
          .release id value reactions⟩ =
      { machine.ledger with
        value? := Function.update machine.ledger.value? id (some value)
        settlers := machine.ledger.settlers.map (Settler.fire id value) } := by
  have queued := machine.microtasks.fire_settlers id value
  simp only [Config.ledger, Machine.ledger, Multiset.map_add, Promises.stored_fire value pending,
    Multiset.map_coe, queued, Duty.settlers, Promises.size_put,
    Promises.value?_put (Promises.lt_size_of_get? pending), PromiseState.value?, add_assoc]

theorem Effect.ledger {config after : Config} (effect : Effect config acts notice after)
    (sound : config.Sound) : Ledger.Step config.ledger (deeds acts) after.ledger := by
  cases effect with
  | operation evaluates operation => exact operation.ledger _
  | @takeMicrotask machine microtask rest next =>
      -- The job goes from the queue to the duty.
      have same : Config.ledger ⟨machine, .free⟩ =
          Config.ledger ⟨{ machine with microtasks := ⟨rest⟩ }, microtask.job.duty⟩ := by
        rw [Config.ledger_of_nil _ rfl]
        simp only [Config.ledger, Machine.ledger, MicrotaskQueue.settlers, next, List.flatMap_cons,
          ← Multiset.coe_add, Job.settlers_duty, add_left_comm]
      rw [same]
      exact .idle _
  | takeTask drained next => exact .idle _
  | calledBack machine callback result => exact .idle _
  | ranTask machine task result => exact .idle _
  | calledThen kind handler within =>
      rw [Config.ledger_of_single _ rfl, Config.ledger_of_single _ rfl]
      exact .called kind handler _ rfl
  | calledFinally kind handler within => exact .idle _
  | @holdOutcome machine reaction outcome value held =>
      have bare : (PromiseState.fulfilled outcome).reactions = [] := rfl
      have created := machine.ledger_withPromise bare
      simp only [Config.ledger, created]
      exact .hold _ held.1
  | restore known subscribes =>
      obtain ⟨⟨kind, callback, handler⟩, -⟩ := sound.duty
      obtain ⟨none, same⟩ := subscribes.ledger rfl
      rw [none, Config.ledger_of_single _ rfl, Config.ledger_of_single _ rfl, same,
        Machine.ledger_withPending, Multiset.cons_swap]
      exact .restore kind handler known rfl
  | result gives =>
      rw [Config.ledger_of_single _ rfl, Config.ledger_of_single _ rfl]
      exact .result gives rfl
  | settleSelf machine id =>
      rw [Config.ledger_of_single _ rfl, Config.ledger_of_nil _ rfl]
      exact .settleSelf rfl
  | @settleFollow machine id other different =>
      rw [Config.ledger_of_single _ rfl, Config.ledger_of_nil _ rfl, Machine.ledger_withMicrotask]
      exact .settleFollow different rfl
  | @fulfill machine id value final =>
      rw [Config.ledger_of_single machine rfl]
      obtain ⟨reactions, pending⟩ | ⟨held, settled⟩ := Promises.get?_cases sound.duty.1
      next =>
        rw [Promises.fulfill_of_pending pending, machine.ledger_fulfill value pending]
        refine .fulfill final ?_ rfl
        simp [Machine.ledger, Promises.value?, pending, PromiseState.value?]
      next =>
        rw [Promises.fulfill_of_fulfilled settled, Config.ledger_of_nil _ rfl]
        have found : machine.ledger.value? id = some held := by
          simp [Machine.ledger, Promises.value?, settled, PromiseState.value?]
        exact .ignored final found rfl
  | release machine source value reaction rest =>
      -- The reaction goes from the duty to the queue.
      have same : Config.ledger ⟨machine, .release source value (reaction :: rest)⟩ =
          Config.ledger ⟨machine.withMicrotask ⟨reaction.name, .reaction reaction value⟩,
            .release source value rest⟩ := by
        simp only [Config.ledger, Machine.ledger_withMicrotask]
        simp [Duty.settlers, Job.settlers, ← Multiset.cons_coe]
      rw [same]
      exact .idle _
  | released machine source value => exact .idle _
  | follow known subscribes =>
      obtain ⟨none, same⟩ := subscribes.ledger rfl
      rw [none, Config.ledger_of_single _ rfl, Config.ledger_of_nil _ rfl, same]
      exact .follow known rfl
  | finish machine ends =>
      obtain rfl | ⟨task, rfl⟩ := ends.cases <;> exact .idle _

end Refinement

inductive Ledger.Reached : List Act → Ledger → Prop where
  | initial : Reached [] ⟨0, fun _ => none, 0⟩
  | step {past acts : List Act} {ledger after : Ledger} (reached : Reached past ledger)
      (step : Ledger.Step ledger acts after) : Reached (past ++ acts) after

def Tracks (log : List Act) (config : Config) : Prop :=
  Ledger.Reached (deeds log) config.ledger

theorem Tracks.initial : Tracks [] .initial := by
  have empty : Config.initial.ledger = ⟨0, fun _ => none, 0⟩ := Config.ledger_of_nil _ rfl
  unfold Tracks
  rw [empty]
  exact .initial

theorem Effect.tracks {config after : Config} {log acts : List Act} {notice : Notice}
    (effect : Effect config acts notice after) (sound : config.Sound) (tracks : Tracks log config) :
    Tracks (log ++ acts) after := by
  unfold Tracks
  rw [deeds_append]
  exact Ledger.Reached.step tracks (effect.ledger sound)

theorem Tracks.record {config : Config} {log : List Act} (event : Event) (node : Option NodeRef)
    (tracks : Tracks log config) : Tracks (log ++ [.record event]) (config.record event node) := by
  have none : deeds [.record event] = [] := rfl
  unfold Tracks
  rw [deeds_append, none, List.append_nil]
  exact tracks

theorem Tracks.call {config : Config} {log : List Act} (builtin : Builtin) (arguments : List Value)
    (result : Value) (tracks : Tracks log config) :
    Tracks (log ++ [.call builtin arguments result]) config := by
  have none : deeds [.call builtin arguments result] = [] := rfl
  unfold Tracks
  rw [deeds_append, none, List.append_nil]
  exact tracks

section Runs

variable {program : Program} {settings : Settings} {machine : Machine} {history : List Act}

theorem Program.History.ledger (reached : program.History settings history machine) :
    Ledger.Reached (deeds history) machine.ledger := by
  have tracks := reached.keeps Tracks.initial Effect.tracks Tracks.record Tracks.call
  unfold Tracks at tracks
  rwa [Config.ledger_of_nil _ rfl] at tracks

end Runs

end EventLoop
