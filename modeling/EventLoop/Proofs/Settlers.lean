import EventLoop.Proofs.Ledger

set_option autoImplicit false

/-!
# One settler for each promise

Whatever is on its way to settle a promise is the only thing that is. A promise without a settler
has a value or was settled with itself, which leaves it pending for good.
-/

namespace EventLoop

def Ledger.targets (ledger : Ledger) : Multiset PromiseId := ledger.settlers.map Settler.target

def Settler.Proper : Settler → Prop
  | .stored source reaction => reaction.derived ≠ source
  | .follow promise other => promise ≠ other
  | _ => True

/-- The promises that something is on its way to are those that are neither settled nor stuck, and
each of them has one settler. -/
structure Ledger.Balanced (log : List Act) (ledger : Ledger) : Prop where
  nodup : ledger.targets.Nodup
  open_iff : ∀ id, id ∈ ledger.targets ↔
    id < ledger.size ∧ ledger.value? id = none ∧ Act.settle id (.promise id) ∉ log
  known : ∀ id value, ledger.value? id = some value → id < ledger.size
  stuck : ∀ id, Act.settle id (.promise id) ∈ log → id < ledger.size
  proper : ∀ settler ∈ ledger.settlers, settler.Proper

namespace Ledger

variable {ledger after : Ledger} {log acts : List Act}

theorem Balanced.size_not_mem (balanced : Balanced log ledger) : ledger.size ∉ ledger.targets := by
  intro member
  exact Nat.lt_irrefl _ ((balanced.open_iff _).mp member).1

theorem Balanced.value?_size (balanced : Balanced log ledger) : ledger.value? ledger.size =
    none := by
  by_contra found
  obtain ⟨value, same⟩ := Option.ne_none_iff_exists'.mp found
  exact Nat.lt_irrefl _ (balanced.known _ _ same)

theorem proper_subscribe {source : PromiseId} {reaction : Reaction}
    (different : reaction.derived ≠ source) : (ledger.subscribe source reaction).Proper := by
  unfold subscribe
  split
  next => trivial
  next => exact different

theorem Balanced.replace (balanced : Balanced log ledger) (size : after.size = ledger.size)
    (values : after.value? = ledger.value?) (targets : after.targets = ledger.targets)
    (others : ∀ id, Act.settle id (.promise id) ∉ acts)
    (proper : ∀ settler ∈ after.settlers, settler.Proper) : Balanced (log ++ acts) after := by
  refine ⟨targets ▸ balanced.nodup, fun id => ?_, ?_, fun id member => ?_, proper⟩
  · simpa [targets, size, values, others] using balanced.open_iff id
  · simpa [size, values] using balanced.known
  · simp only [List.mem_append, others, or_false] at member
    exact size ▸ balanced.stuck id member

theorem Balanced.create (balanced : Balanced log ledger) (size : after.size = ledger.size + 1)
    (values : after.value? = ledger.value?)
    (targets : after.targets = ledger.size ::ₘ ledger.targets)
    (others : ∀ id, Act.settle id (.promise id) ∉ acts)
    (proper : ∀ settler ∈ after.settlers, settler.Proper) : Balanced (log ++ acts) after := by
  have unsettled := balanced.value?_size
  have unstuck : Act.settle ledger.size (.promise ledger.size) ∉ log :=
    fun member => Nat.lt_irrefl _ (balanced.stuck _ member)
  refine ⟨?_, fun id => ?_, fun id value found => ?_, fun id member => ?_, proper⟩
  · rw [targets]
    exact Multiset.nodup_cons.mpr ⟨balanced.size_not_mem, balanced.nodup⟩
  · rw [targets, Multiset.mem_cons, balanced.open_iff id, size, values]
    by_cases new : id = ledger.size
    · subst new
      simp [unsettled, unstuck, others]
    · have bound : id < ledger.size + 1 ↔ id < ledger.size :=
        ⟨fun less => Nat.lt_of_le_of_ne (Nat.le_of_lt_succ less) new, Nat.lt_succ_of_lt⟩
      simp [new, bound, others]
  · rw [size]
    exact Nat.lt_succ_of_lt (balanced.known id value (values ▸ found))
  · simp only [List.mem_append, others, or_false] at member
    rw [size]
    exact Nat.lt_succ_of_lt (balanced.stuck id member)

theorem Balanced.close (balanced : Balanced log ledger) {id : PromiseId}
    (size : after.size = ledger.size) (targets : ledger.targets = id ::ₘ after.targets)
    (others : ∀ other, other ≠ id → after.value? other = ledger.value? other ∧
      Act.settle other (.promise other) ∉ acts)
    (closed : after.value? id ≠ none ∨ Act.settle id (.promise id) ∈ acts)
    (proper : ∀ settler ∈ after.settlers, settler.Proper) : Balanced (log ++ acts) after := by
  have nodup := balanced.nodup
  rw [targets, Multiset.nodup_cons] at nodup
  have open_iff := balanced.open_iff
  have bound : id < ledger.size := ((open_iff id).mp (by simp [targets])).1
  -- For every other promise all is as before; this one is no target any more.
  refine ⟨nodup.2, fun other => ?_, fun other value found => ?_, fun other member => ?_, proper⟩
  · by_cases same : other = id
    · subst same
      simp only [nodup.1, false_iff, List.mem_append, not_or]
      rintro ⟨-, none, -, new⟩
      exact closed.elim (· none) new
    · have before := open_iff other
      simp only [targets, Multiset.mem_cons, same, false_or] at before
      simp [before, size, others other same]
  · by_cases same : other = id
    · subst same
      exact size ▸ bound
    · rw [(others other same).1] at found
      exact size ▸ balanced.known other value found
  · by_cases same : other = id
    · subst same
      exact size ▸ bound
    · simp only [List.mem_append, (others other same).2, or_false] at member
      exact size ▸ balanced.stuck other member

theorem proper_fire {settler : Settler} (proper : settler.Proper) (source : PromiseId)
    (value : Value) : (settler.fire source value).Proper := by
  cases settler with
  | stored other reaction =>
      simp only [Settler.fire]
      split
      next => trivial
      next => exact proper
  | _ => exact proper

theorem Balanced.hold (balanced : Balanced log ledger) (value : Value) :
    Balanced (log ++ [.hold ledger.size value])
      { ledger with
        size := ledger.size + 1
        value? := Function.update ledger.value? ledger.size (some value) } := by
  refine ⟨balanced.nodup, fun id => ?_, fun id found same => ?_, fun id member => ?_,
    balanced.proper⟩
  · by_cases new : id = ledger.size
    · subst new
      simpa [targets] using balanced.size_not_mem
    · have bound : id < ledger.size + 1 ↔ id < ledger.size :=
        ⟨fun less => Nat.lt_of_le_of_ne (Nat.le_of_lt_succ less) new, Nat.lt_succ_of_lt⟩
      simpa [targets, bound, Function.update_of_ne new] using balanced.open_iff id
  · by_cases new : id = ledger.size
    · exact new ▸ Nat.lt_succ_self _
    · simp only [Function.update_of_ne new] at same
      exact Nat.lt_succ_of_lt (balanced.known id found same)
  · simp only [List.mem_append, List.mem_singleton, reduceCtorEq, or_false] at member
    exact Nat.lt_succ_of_lt (balanced.stuck id member)

theorem Balanced.step (balanced : Balanced log ledger) (step : Step ledger acts after) :
    Balanced (log ++ acts) after := by
  have proper := balanced.proper
  cases step with
  | idle => simpa using balanced
  | hold final => exact balanced.hold _
  | register kind arguments bound =>
      refine balanced.create rfl rfl (by simp [targets]) (by simp) ?_
      exact Multiset.forall_mem_cons.mpr ⟨proper_subscribe (Nat.ne_of_gt bound), proper⟩
  | restore kind handler bound due =>
      rw [due, Multiset.forall_mem_cons] at proper
      refine balanced.create rfl rfl (by simp [targets, due]) (by simp) ?_
      refine Multiset.forall_mem_cons.mpr ⟨proper_subscribe (Nat.ne_of_gt bound), ?_⟩
      exact Multiset.forall_mem_cons.mpr ⟨trivial, proper.2⟩
  | called kind handler result due =>
      rw [due, Multiset.forall_mem_cons] at proper
      refine balanced.replace rfl rfl (by simp [targets, due]) (by simp) ?_
      exact Multiset.forall_mem_cons.mpr ⟨trivial, proper.2⟩
  | result gives due =>
      rw [due, Multiset.forall_mem_cons] at proper
      refine balanced.replace rfl rfl (by simp [targets, due]) (by simp) ?_
      exact Multiset.forall_mem_cons.mpr ⟨trivial, proper.2⟩
  | @settleSelf id rest due =>
      rw [due, Multiset.forall_mem_cons] at proper
      have removed : ledger.targets = id ::ₘ rest.map Settler.target := by
        simp [targets, due]
      refine balanced.close rfl removed (fun other different => ⟨rfl, ?_⟩) (.inr (by simp)) proper.2
      simpa using different
  | settleFollow different due =>
      rw [due, Multiset.forall_mem_cons] at proper
      refine balanced.replace rfl rfl (by simp [targets, due]) ?_ ?_
      · rintro id member
        simp only [List.mem_singleton, Act.settle.injEq, Value.promise.injEq] at member
        exact different (member.2.symm.trans member.1)
      · exact Multiset.forall_mem_cons.mpr ⟨different.symm, proper.2⟩
  | @fulfill id value rest final pending due =>
      rw [due, Multiset.forall_mem_cons] at proper
      have removed : ledger.targets =
          id ::ₘ (rest.map (Settler.fire id value)).map Settler.target := by
        simp [targets, due]
      refine balanced.close rfl removed (fun other different => ⟨?_, ?_⟩) (.inl (by simp)) ?_
      · exact Function.update_of_ne different _ _
      · simp [different]
      · intro settler member
        obtain ⟨earlier, found, rfl⟩ := Multiset.mem_map.mp member
        exact proper_fire (proper.2 earlier found) id value
  | @ignored id value held rest final settled due =>
      -- A promise that has a value has no settler.
      have member : id ∈ ledger.targets := by simp [targets, due]
      have unsettled := ((balanced.open_iff id).mp member).2.1
      rw [settled] at unsettled
      cases unsettled
  | follow bound due =>
      rw [due, Multiset.forall_mem_cons] at proper
      refine balanced.replace rfl rfl (by simp [targets, due]) (by simp) ?_
      exact Multiset.forall_mem_cons.mpr ⟨proper_subscribe proper.1, proper.2⟩

theorem Reached.balanced (reached : Reached log ledger) : Balanced log ledger := by
  induction reached with
  | initial => refine ⟨?_, ?_, ?_, ?_, ?_⟩ <;> simp [targets]
  | step _ step ih => exact ih.step step

end Ledger

def Job.isReactionFor (id : PromiseId) : Job → Bool
  | .reaction waiting _ => waiting.derived == id
  | _ => false

def Job.isFollowFor (id : PromiseId) : Job → Bool
  | .follow promise _ => promise == id
  | _ => false

namespace Machine

def storedFor (machine : Machine) (id : PromiseId) : Nat :=
  ∑ source ∈ Finset.range machine.promises.size,
    (machine.promises.waiting source).countP (·.derived == id)

/-- How many stored reactions, queued reactions and queued jobs of following another promise are to
settle the given promise. -/
def settlersFor (machine : Machine) (id : PromiseId) : Nat :=
  machine.storedFor id + machine.microtasks.microtasks.countP (·.job.isReactionFor id) +
    machine.microtasks.microtasks.countP (·.job.isFollowFor id)

theorem count_stored (machine : Machine) (id : PromiseId) :
    (machine.promises.stored.map Settler.target).count id = machine.storedFor id := by
  unfold Promises.stored storedFor
  rw [← Multiset.coe_mapAddMonoidHom, map_sum, Multiset.count_sum']
  refine Finset.sum_congr rfl fun source _ => ?_
  have targets : Settler.target ∘ Settler.stored source = Reaction.derived := rfl
  simp [Promises.storedOn, targets, List.count, List.countP_map, Function.comp_def]

theorem count_queued (machine : Machine) (id : PromiseId) :
    (machine.microtasks.settlers.map Settler.target).count id =
      machine.microtasks.microtasks.countP (·.job.isReactionFor id) +
        machine.microtasks.microtasks.countP (·.job.isFollowFor id) := by
  have single (job : Job) : (job.settlers.map Settler.target).count id =
      (if job.isReactionFor id then 1 else 0) + if job.isFollowFor id then 1 else 0 := by
    cases job <;>
      simp [Job.settlers, Job.isReactionFor, Job.isFollowFor, List.count_cons]
  unfold MicrotaskQueue.settlers
  induction machine.microtasks.microtasks with
  | nil => rfl
  | cons microtask rest ih =>
      simp only [List.flatMap_cons, List.map_append, List.count_append, single, ih,
        List.countP_cons]
      omega

theorem count_targets (machine : Machine) (id : PromiseId) :
    machine.ledger.targets.count id = machine.settlersFor id := by
  have queued := machine.count_queued id
  simp only [ledger, Ledger.targets, Multiset.map_add, Multiset.count_add, count_stored,
    Multiset.map_coe, Multiset.coe_count, settlersFor, queued, add_assoc]

end Machine

namespace Promises

variable {promises : Promises} {id : PromiseId}

theorem value?_of_fulfilled {value : Value}
    (fulfilled : promises.get? id = some (.fulfilled value)) : promises.value? id = some value := by
  simp [value?, fulfilled, PromiseState.value?]

theorem value?_of_pending {reactions : List Reaction}
    (pending : promises.get? id = some (.pending reactions)) : promises.value? id = none := by
  simp [value?, pending, PromiseState.value?]

theorem get?_of_value? {value : Value} (found : promises.value? id = some value) :
    promises.get? id = some (.fulfilled value) := by
  obtain ⟨state, stored, held⟩ := Option.bind_eq_some_iff.mp found
  cases state with
  | pending reactions => cases held
  | fulfilled given =>
      cases held
      exact stored

theorem exists_pending (known : id < promises.size) (unsettled : promises.value? id = none) :
    ∃ reactions, promises.get? id = some (.pending reactions) := by
  obtain pending | ⟨value, fulfilled⟩ := get?_cases known
  · exact pending
  · rw [value?_of_fulfilled fulfilled] at unsettled
    cases unsettled

theorem get?_of_mem_waiting {reaction : Reaction} (waits : reaction ∈ promises.waiting id) :
    promises.get? id = some (.pending (promises.waiting id)) := by
  unfold waiting at waits ⊢
  cases found : promises.get? id with
  | none => simp [found] at waits
  | some state =>
      cases state with
      | pending reactions => rfl
      | fulfilled value => simp [found, PromiseState.reactions] at waits

theorem stored_mem_stored {reaction : Reaction} (waits : reaction ∈ promises.waiting id) :
    Settler.stored id reaction ∈ promises.stored := by
  have known := lt_size_of_get? (get?_of_mem_waiting waits)
  refine Multiset.mem_sum.mpr ⟨id, Finset.mem_range.mpr known, ?_⟩
  simpa [storedOn] using waits

end Promises

theorem settle_mem_deeds {history : List Act} {id : PromiseId} {value : Value} :
    Act.settle id value ∈ deeds history ↔ Entry.settle id value ∈ history.map Act.entry := by
  have told (act : Act) : act.entry = .settle id value ↔ act = .settle id value := by
    cases act <;> simp [Act.entry]
  simp [deeds, Act.isDeed, told]

section Runs

variable {program : Program} {settings : Settings} {machine : Machine} {log : List Entry}

theorem Program.Logs.balanced (logs : program.Logs settings log machine) :
    ∃ deeds, Ledger.Balanced deeds machine.ledger ∧
      ∀ id value, Act.settle id value ∈ deeds ↔ Entry.settle id value ∈ log := by
  obtain ⟨history, rfl, reached⟩ := logs.exists_history
  exact ⟨deeds history, reached.ledger.balanced, fun _ _ => settle_mem_deeds⟩

theorem Program.Logs.settlersFor_of_fulfilled (logs : program.Logs settings log machine)
    {id : PromiseId} {value : Value}
    (fulfilled : machine.promises.get? id = some (.fulfilled value)) :
    machine.settlersFor id = 0 := by
  obtain ⟨deeds, balanced, -⟩ := logs.balanced
  rw [← machine.count_targets]
  refine Multiset.count_eq_zero.mpr fun member => ?_
  have unsettled : machine.promises.value? id = none := ((balanced.open_iff id).mp member).2.1
  rw [Promises.value?_of_fulfilled fulfilled] at unsettled
  cases unsettled

theorem Program.Logs.settlersFor_of_pending (logs : program.Logs settings log machine)
    {id : PromiseId} {reactions : List Reaction}
    (pending : machine.promises.get? id = some (.pending reactions)) :
    machine.settlersFor id ≤ 1 ∧
      (machine.settlersFor id = 1 ↔ Entry.settle id (.promise id) ∉ log) := by
  obtain ⟨deeds, balanced, told⟩ := logs.balanced
  have atMost := Multiset.nodup_iff_count_le_one.mp balanced.nodup id
  have present : id ∈ machine.ledger.targets ↔ Entry.settle id (.promise id) ∉ log := by
    rw [balanced.open_iff id, told]
    have known := Promises.lt_size_of_get? pending
    have unsettled := Promises.value?_of_pending pending
    simp [Machine.ledger, known, unsettled]
  rw [← present, ← Multiset.one_le_count_iff_mem, ← machine.count_targets]
  exact ⟨atMost, by omega⟩

theorem Boundary.derived_pending (boundary : Boundary program settings machine) {name : String}
    {reaction : Reaction} {value outcome : Value} {rest : List Microtask} {ran : Machine}
    (next : machine.microtasks.microtasks = ⟨name, .reaction reaction value⟩ :: rest)
    (result : Reactions.result (m := Simulation) callValue reaction value settings
      { machine with microtasks := ⟨rest⟩ } = .done outcome ran) :
    ∃ reactions, ran.promises.get? reaction.derived = some (.pending reactions) := by
  obtain ⟨history, reached⟩ := boundary.exists_history
  have taken : Effect ⟨machine, .free⟩ _ none _ := .takeMicrotask next
  have sound := taken.sound ⟨reached.sound, trivial⟩
  have tracks := taken.tracks ⟨reached.sound, trivial⟩
    (reached.keeps Tracks.initial Effect.tracks Tracks.record Tracks.call)
  have enacted : Enacted settings _ _ _ := Enacted.result sound
  obtain ⟨log, logged⟩ := (Erases.loopRespects.result reaction value).exists_log result
  rw [logged] at enacted
  obtain ⟨acts, duty, -, journey, settles⟩ := enacted.of_done
  obtain rfl : duty = .settle reaction.derived outcome := settles
  have later : Tracks _ _ := journey.keeps Effect.tracks Tracks.record Tracks.call sound tracks
  have targeted : reaction.derived ∈
      (Config.ledger ⟨ran, .settle reaction.derived outcome⟩).targets := by
    simp [Config.ledger, Duty.settlers, Ledger.targets]
  obtain ⟨known, unsettled, -⟩ := (later.balanced.open_iff _).mp targeted
  exact Promises.exists_pending known unsettled

theorem Program.Logs.stored_elsewhere (logs : program.Logs settings log machine)
    (drained : machine.microtasks.microtasks = []) {id : PromiseId}
    (one : machine.settlersFor id = 1) :
    machine.storedFor id = 1 ∧ ∃ source others reaction, source ≠ id ∧
      machine.promises.get? source = some (.pending others) ∧ reaction ∈ others ∧
      reaction.derived = id := by
  obtain ⟨deeds, balanced, -⟩ := logs.balanced
  have stored : machine.storedFor id = 1 := by simpa [Machine.settlersFor, drained] using one
  refine ⟨stored, ?_⟩
  have nonzero : machine.storedFor id ≠ 0 := by omega
  obtain ⟨source, -, some⟩ := Finset.exists_ne_zero_of_sum_ne_zero nonzero
  obtain ⟨reaction, waits, derived⟩ := List.countP_pos_iff.mp (Nat.pos_of_ne_zero some)
  have same : reaction.derived = id := by simpa using derived
  have proper : reaction.derived ≠ source :=
    balanced.proper (.stored source reaction)
      (Multiset.mem_add.mpr (.inl (Promises.stored_mem_stored waits)))
  exact ⟨source, _, reaction, same ▸ proper.symm, Promises.get?_of_mem_waiting waits, waits, same⟩

/-- A run is the same with a log, and its logs follow their script, which settles a promise with
what the callback of its reaction returned. At every boundary of a run nothing is on its way to a
fulfilled promise, and one thing at most to a pending one: none if the promise was settled with
itself, and one otherwise. So a reaction that has its result finds its promise pending, and what a
completed run leaves pending was settled with itself or waits, through a single reaction, for
another pending promise. -/
theorem Program.one_settler_for_each_promise (program : Program) (settings : Settings) :
    program.simulate (m := Logged) settings .initial =
      (program.simulate (m := Simulation) settings .initial, program.log settings) ∧
    (∀ machine, Boundary program settings machine →
      ∃ log, program.Logs settings log machine) ∧
    (∀ log machine, program.Logs settings log machine →
      Boundary program settings machine ∧ Scripted log ∧ ∀ id,
        (∀ value, machine.promises.get? id = some (.fulfilled value) →
          machine.settlersFor id = 0) ∧
        ∀ reactions, machine.promises.get? id = some (.pending reactions) →
          machine.settlersFor id ≤ 1 ∧
          (machine.settlersFor id = 1 ↔ Entry.settle id (.promise id) ∉ log)) ∧
    (∀ machine name reaction value rest outcome ran, Boundary program settings machine →
      machine.microtasks.microtasks = ⟨name, .reaction reaction value⟩ :: rest →
      Reactions.result (m := Simulation) callValue reaction value settings
          { machine with microtasks := ⟨rest⟩ } = .done outcome ran →
      ∃ reactions, ran.promises.get? reaction.derived = some (.pending reactions)) ∧
    ((program.run settings).truncated = false →
      let machine := (program.simulate (m := Simulation) settings .initial).machine
      program.Logs settings (program.log settings) machine ∧
      ∀ id reactions, machine.promises.get? id = some (.pending reactions) →
        Entry.settle id (.promise id) ∈ program.log settings ∨
        machine.storedFor id = 1 ∧ ∃ source others reaction, source ≠ id ∧
          machine.promises.get? source = some (.pending others) ∧ reaction ∈ others ∧
          reaction.derived = id) := by
  refine ⟨program.simulate_logged settings, fun machine => Boundary.exists_logs,
    fun log machine logs => ⟨logs.boundary, logs.scripted, fun id => ⟨?_, ?_⟩⟩,
    fun machine name reaction value rest outcome ran boundary next result =>
      boundary.derived_pending next result,
    fun completed => ?_⟩
  next => exact fun value => logs.settlersFor_of_fulfilled
  next => exact fun reactions => logs.settlersFor_of_pending
  next =>
    obtain ⟨logs, drained, -⟩ := Program.completed_logs completed
    refine ⟨logs, fun id reactions pending => ?_⟩
    obtain ⟨-, one_iff⟩ := logs.settlersFor_of_pending pending
    by_cases stuck : Entry.settle id (.promise id) ∈ program.log settings
    · exact .inl stuck
    · exact .inr (logs.stored_elsewhere drained (one_iff.mpr stuck))

end Runs

end EventLoop
