import EventLoop.Proofs.Definedness
import EventLoop.Proofs.Ledger
import EventLoop.Proofs.Passages

set_option autoImplicit false

/-!
# Settlement

A promise that is fulfilled stays as it is, and what it holds is never a promise. The console has
therefore at most one promise to look into when it shows a value.
-/

namespace EventLoop

open Simulation

/-- Promises that are fulfilled in the first machine have the same values in the second. -/
def KeepsSettled (early late : Machine) : Prop :=
  ∀ id value, early.promises.get? id = some (.fulfilled value) →
    late.promises.get? id = some (.fulfilled value)

instance : Std.Refl KeepsSettled := ⟨fun _ _ _ fulfilled => fulfilled⟩

instance : Trans KeepsSettled KeepsSettled KeepsSettled :=
  ⟨fun early late id value fulfilled => late id value (early id value fulfilled)⟩

theorem KeepsSettled.of_same {early late : Machine} (same : late.promises = early.promises) :
    KeepsSettled early late := by
  intro id value fulfilled
  rwa [same]

theorem Simulation.Single.keepsSettled {α : Type} {sim : Simulation α} (single : Single sim)
    (settings : Settings) (machine : Machine) :
    KeepsSettled machine (sim settings machine).machine := by
  cases single with
  | pushFrame name => exact .of_same rfl
  | popFrame => exact .of_same rfl
  | record event node =>
      unfold Simulation.record
      split <;> exact .of_same rfl
  | action action =>
      cases action with
      | createPromise state => exact fun _ _ fulfilled => Promises.create_keeps fulfilled
      | fulfill id value => exact fun _ _ fulfilled => Promises.fulfill_keeps fulfilled id value
      | keepReaction id reaction =>
          exact fun _ _ fulfilled => Promises.subscribe_keeps fulfilled id reaction
      | dequeueMicrotask =>
          simp only [dequeueMicrotask?, update]
          cases machine.microtasks.dequeue? <;> exact .of_same rfl
      | dequeueTask =>
          simp only [dequeueTask?, update]
          cases machine.tasks.dequeue? <;> exact .of_same rfl
      | cancelTask id =>
          simp only [cancelTask?, update]
          cases machine.tasks.cancel? id <;> exact .of_same rfl
      | _ => exact .of_same rfl

theorem Passes.pairwise_keepsSettled {settings : Settings} {α : Type} {sim : Simulation α}
    {machine : Machine} {passed : List Machine} (passes : Passes settings sim machine passed) :
    (machine :: passed).Pairwise KeepsSettled :=
  List.isChain_iff_pairwise.mp
    (passes.isChain fun single machine => single.keepsSettled settings machine)

theorem Simulation.Single.tidy {α : Type} {sim : Simulation α} (single : Single sim)
    (settings : Settings) {machine : Machine} (tidy : machine.promises.Tidy) :
    (sim settings machine).machine.promises.Tidy := by
  cases single with
  | pushFrame name => exact tidy
  | popFrame => exact tidy
  | record event node =>
      unfold Simulation.record
      split <;> exact tidy
  | action action =>
      cases action with
      | createPromise state => exact tidy.create state
      | fulfill id value => exact tidy.fulfill id value
      | keepReaction id reaction => exact tidy.subscribe id reaction
      | dequeueMicrotask =>
          simp only [dequeueMicrotask?, update]
          cases machine.microtasks.dequeue? <;> exact tidy
      | dequeueTask =>
          simp only [dequeueTask?, update]
          cases machine.tasks.dequeue? <;> exact tidy
      | cancelTask id =>
          simp only [cancelTask?, update]
          cases machine.tasks.cancel? id <;> exact tidy
      | _ => exact tidy

theorem Passes.tidy {settings : Settings} {α : Type} {sim : Simulation α} {machine : Machine}
    {passed : List Machine} (passes : Passes settings sim machine passed)
    (tidy : machine.promises.Tidy) : ∀ reached ∈ machine :: passed, reached.promises.Tidy := by
  have chain : (machine :: passed).IsChain fun early late =>
      early.promises.Tidy → late.promises.Tidy :=
    passes.isChain fun single _ => single.tidy settings
  have trans : IsTrans Machine fun early late => early.promises.Tidy → late.promises.Tidy :=
    ⟨fun _ _ _ first second tidy => second (first tidy)⟩
  have later := (List.pairwise_cons.mp (List.isChain_iff_pairwise.mp chain)).1
  exact List.forall_mem_cons.mpr ⟨tidy, fun reached member => later reached member tidy⟩

def Promises.HoldFinal (promises : Promises) : Prop :=
  ∀ id held, promises.get? id = some (.fulfilled held) → held.Final

theorem Program.simulate_wellFormed (program : Program) (settings : Settings) :
    (program.simulate (m := Simulation) settings .initial).machine.WellFormed := by
  let guard : Guard := ⟨fun _ => true, settings.fuel⟩
  have unwatched (machine : Machine) (_ : machine.WellFormed) : guard.watch machine = true := rfl
  obtain ⟨enough, covers⟩ := settings.lt_fuel_add 0
  exact (program.interpret_agrees unwatched enough covers).2.wellFormed

theorem Program.passed_holdFinal {program : Program} {settings : Settings} {passed : List Machine}
    (passes : Passes settings program.simulate .initial passed) {machine : Machine}
    (member : machine ∈ .initial :: passed) : machine.promises.HoldFinal := by
  -- The value is still there in the end, where the whole machine is known to be sound.
  intro id held fulfilled
  have nonempty : Machine.initial :: passed ≠ [] := List.cons_ne_nil _ _
  have last : (Machine.initial :: passed).getLast nonempty =
      (program.simulate (m := Simulation) settings .initial).machine := by
    have ends := passes.getLast?_eq
    rw [List.getLast?_eq_some_getLast nonempty] at ends
    exact Option.some.inj ends
  have kept := passes.pairwise_keepsSettled.rel_getLast member
  rw [last] at kept
  have sound := (program.simulate_wellFormed settings).sound
  exact (sound.promises id _ (kept id held fulfilled)).1

/-- How the console shows a promise, given how it shows one that another promise holds. -/
def Promises.inspectOnce (promises : Promises) (inner : PromiseId → String) (id : PromiseId) :
    String :=
  match promises.get? id with
  | some (.fulfilled value) => "Promise \x7b " ++ value.inspectWith inner ++ " \x7d"
  | _ => "Promise \x7b <pending> \x7d"

def Value.inspectOnce (promises : Promises) (inner : PromiseId → String) : Value → String
  | .string value => value
  | value => value.inspectWith (promises.inspectOnce inner)

theorem Value.Final.inspectWith_eq {value : Value} (final : value.Final)
    (inner other : PromiseId → String) : value.inspectWith inner = value.inspectWith other := by
  cases value with
  | promise id => exact final.elim
  | builtin host => cases host <;> rfl
  | _ => rfl

theorem Promises.HoldFinal.inspect_eq {promises : Promises} (final : promises.HoldFinal)
    (inner : PromiseId → String) (value : Value) :
    value.inspect promises = value.inspectOnce promises inner := by
  cases value with
  | string text => rfl
  | promise id =>
      change promises.inspect (promises.size + 1) id = promises.inspectOnce inner id
      unfold Promises.inspect Promises.inspectOnce
      cases found : promises.get? id with
      | none => rfl
      | some state =>
          cases state with
          | pending reactions => rfl
          | fulfilled held => simp only [(final id held found).inspectWith_eq _ inner]
  | builtin host => cases host <;> rfl
  | _ => rfl

/-- What holds of the promises of every machine that a run passes. -/
structure Machine.Settled (machine : Machine) : Prop where
  unawaited {id : PromiseId} {record : PromiseRecord} :
    machine.promises.records[id]? = some record → record.status = .fulfilled → record.reactions = []
  final {id : PromiseId} {value : Value} :
    machine.promises.get? id = some (.fulfilled value) → ∀ other, value ≠ .promise other
  -- A promise within a promise is never shown: it makes no difference how it would be.
  once (value : Value) (inner : PromiseId → String) :
    value.inspect machine.promises = value.inspectOnce machine.promises inner
  -- Two values are all that there is to look at, the one that is shown and what it holds.
  finite {value : Value} : (∀ id, value = .promise id → id < machine.promises.size) →
    machine.promises.display 2 false value = some (value.inspect machine.promises)

theorem Promises.HoldFinal.settled {machine : Machine} (final : machine.promises.HoldFinal)
    (tidy : machine.promises.Tidy) : machine.Settled where
  unawaited found fulfilled := (tidy _ _ found).reactions fulfilled
  final fulfilled := by
    rintro other rfl
    exact final _ _ fulfilled
  once value inner := final.inspect_eq inner value
  finite known := Promises.display_of_final final fun id same => ⟨known id same, Nat.one_pos⟩

/-- Settlement is final: of all the machines that a run passes, up to the one that it ends with,
each keeps the fulfilled promises of those before it, and none has a fulfilled promise that holds a
promise or that reactions still wait for. -/
theorem Program.run_settlement (program : Program) (settings : Settings) :
    (∃ passed, Passes settings program.simulate .initial passed) ∧
    ∀ passed, Passes settings program.simulate .initial passed →
      (Machine.initial :: passed).getLast? =
        some (program.simulate (m := Simulation) settings .initial).machine ∧
      (Machine.initial :: passed).Pairwise KeepsSettled ∧
      ∀ machine ∈ Machine.initial :: passed, machine.Settled := by
  refine ⟨Passable.simulate program settings .initial, fun passed passes => ?_⟩
  refine ⟨passes.getLast?_eq, passes.pairwise_keepsSettled, fun machine member => ?_⟩
  have tidy := passes.tidy Machine.initial_sound.tidy machine member
  exact (Program.passed_holdFinal passes member).settled tidy

def resolvedTwice : Program :=
  let resolve (argument : Expr) : Expr :=
    .call (.member (.identifier ⟨"Promise", default⟩) ⟨"resolve", default⟩ default) [argument]
      default
  ⟨[.expression (resolve (resolve (.literal (.string "kept") default))) default], default⟩

-- The outer call gives the promise of the inner one, so there is one promise and one level.
example :
    let ended := (resolvedTwice.simulate (m := Simulation) {} .initial).machine
    ended.promises.size = 1 ∧
      (Value.promise 0).inspect ended.promises = "Promise \x7b 'kept' \x7d" := by
  decide +kernel

end EventLoop
