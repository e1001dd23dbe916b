import EventLoop.Proofs.Subscriptions
import EventLoop.Proofs.Transparency

set_option autoImplicit false

/-!
# Catch never calls

Nothing is ever rejected. A reaction of catch settles its promise with the value that it is run
with, whatever its argument is, and no other reaction settles that promise.
-/

namespace EventLoop

def Caught (log : List Act) (derived : PromiseId) : Prop :=
  ∃ source arguments, Act.register .onCatch source arguments derived ∈ log

def Settler.Catches : Settler → Prop
  | .stored _ reaction => reaction.kind = .onCatch ∧ reaction.Forwards
  | .due reaction value => reaction.kind = .onCatch ∧ reaction.Forwards ∧ value.Final
  | .follow .. => False
  | .settle _ value => value.Final

theorem caught_append {log acts : List Act} {derived : PromiseId}
    (others : ∀ kind source arguments derived,
      Act.register kind source arguments derived ∉ acts)
    (caught : Caught (log ++ acts) derived) : Caught log derived := by
  simpa [Caught, others] using caught

theorem Settler.Catches.fire {settler : Settler} (catches : settler.Catches) (source : PromiseId)
    {value : Value} (final : value.Final) : (settler.fire source value).Catches := by
  cases settler with
  | stored other reaction =>
      simp only [Settler.fire]
      split
      · exact ⟨catches.1, catches.2, final⟩
      · exact catches
  | _ => exact catches

namespace Ledger

variable {ledger after : Ledger} {log acts : List Act}

structure Catching (log : List Act) (ledger : Ledger) : Prop where
  known : ∀ derived, Caught log derived → derived < ledger.size
  settlers : ∀ settler ∈ ledger.settlers, Caught log settler.target → settler.Catches

theorem Catching.register (catching : Catching log ledger) (balanced : Balanced log ledger)
    (values : ∀ id value, ledger.value? id = some value → value.Final) (kind : ReactionKind)
    (source : PromiseId) (arguments : List Value) :
    Catching (log ++ [.register kind source arguments ledger.size])
      { ledger with
        size := ledger.size + 1
        settlers := ledger.subscribe source ⟨kind, .ofArguments arguments, ledger.size⟩ ::ₘ
          ledger.settlers } := by
  -- A caught promise is an earlier one, or the one that is created here by a catch.
  have cases_of {derived : PromiseId}
      (caught : Caught (log ++ [.register kind source arguments ledger.size]) derived) :
      Caught log derived ∨ kind = .onCatch ∧ derived = ledger.size := by
    obtain ⟨first, given, member⟩ := caught
    obtain earlier | new := List.mem_append.mp member
    · exact .inl ⟨first, given, earlier⟩
    · simp only [List.mem_singleton, Act.register.injEq] at new
      exact .inr ⟨new.1.symm, new.2.2.2⟩
  constructor
  case known =>
    intro derived caught
    obtain earlier | ⟨-, rfl⟩ := cases_of caught
    · exact Nat.lt_succ_of_lt (catching.known derived earlier)
    · exact Nat.lt_succ_self _
  case settlers =>
    intro settler member caught
    obtain rfl | old := Multiset.mem_cons.mp member
    next =>
      rw [target_subscribe] at caught
      obtain earlier | ⟨rfl, -⟩ := cases_of caught
      · exact absurd (catching.known _ earlier) (Nat.lt_irrefl _)
      · have forwards : Reaction.Forwards ⟨.onCatch, .ofArguments arguments, ledger.size⟩ :=
          HandsOn.forwards (fun same => by cases same) _
        unfold subscribe
        split
        next value found => exact ⟨rfl, forwards, values source value found⟩
        next => exact ⟨rfl, forwards⟩
    next =>
      obtain earlier | ⟨-, same⟩ := cases_of caught
      · exact catching.settlers settler old earlier
      · exact absurd same (Nat.ne_of_lt (balanced.target_lt old))

section Steps

variable {gone : Settler} {rest : Multiset Settler} (catching : Catching log ledger)
variable (due : ledger.settlers = gone ::ₘ rest)
variable (others : ∀ kind source arguments derived,
  Act.register kind source arguments derived ∉ acts)

include catching due others

theorem Catching.drop : Catching (log ++ acts) { ledger with settlers := rest } := by
  refine ⟨fun derived caught => catching.known derived (caught_append others caught), ?_⟩
  intro settler member caught
  exact catching.settlers settler (by simp [due, member]) (caught_append others caught)

theorem Catching.replace {settler : Settler} (target : settler.target = gone.target)
    (catches : gone.Catches → settler.Catches) :
    Catching (log ++ acts) { ledger with settlers := settler ::ₘ rest } := by
  refine ⟨fun derived caught => catching.known derived (caught_append others caught), ?_⟩
  intro added member caught
  have earlier := caught_append others caught
  obtain rfl | old := Multiset.mem_cons.mp member
  · rw [target] at earlier
    exact catches (catching.settlers gone (by simp [due]) earlier)
  · exact catching.settlers added (by simp [due, old]) earlier

end Steps

theorem Catching.step (catching : Catching log ledger) (balanced : Balanced log ledger)
    (values : ∀ id value, ledger.value? id = some value → value.Final)
    (step : Step ledger acts after) : Catching (log ++ acts) after := by
  cases step with
  | idle =>
      rw [List.append_nil]
      exact catching
  | hold final =>
      refine ⟨fun derived caught => ?_, fun settler member caught => ?_⟩
      · exact Nat.lt_succ_of_lt (catching.known derived (caught_append (by simp) caught))
      · exact catching.settlers settler member (caught_append (by simp) caught)
  | register kind arguments bound => exact catching.register balanced values kind _ arguments
  | @restore reaction value callback waited rest kind handler bound due =>
      -- The promise of a finally is not that of a catch, and the new one is from no registration.
      rw [List.append_nil]
      refine ⟨fun derived caught => Nat.lt_succ_of_lt (catching.known derived caught), ?_⟩
      intro settler member caught
      obtain rfl | member := Multiset.mem_cons.mp member
      · rw [target_subscribe] at caught
        exact absurd (catching.known _ caught) (Nat.lt_irrefl _)
      obtain rfl | old := Multiset.mem_cons.mp member
      · have catches := catching.settlers (.due reaction value) (by simp [due]) caught
        rw [catches.1] at kind
        cases kind
      · exact catching.settlers settler (by simp [due, old]) caught
  | called kind handler result due =>
      refine catching.replace due (by simp) rfl fun catches => ?_
      rw [catches.1] at kind
      cases kind
  | result gives due =>
      refine catching.replace due (by simp) rfl fun catches => ?_
      rw [gives.eq_of_forwards catches.2.1]
      exact catches.2.2
  | settleSelf due => exact catching.drop due (by simp)
  | settleFollow different due =>
      exact catching.replace due (by simp) rfl fun catches => catches.elim
  | fulfill final pending due =>
      refine ⟨fun derived caught => catching.known derived (caught_append (by simp) caught), ?_⟩
      intro settler member caught
      obtain ⟨before, kept, rfl⟩ := Multiset.mem_map.mp member
      rw [Settler.target_fire] at caught
      have catches := catching.settlers before (by simp [due, kept])
        (caught_append (by simp) caught)
      exact catches.fire _ final
  | ignored final settled due => exact catching.drop due (by simp)
  | follow bound due =>
      exact catching.replace due (by simp) (target_subscribe ..) fun catches => catches.elim

theorem Reached.catching (reached : Reached log ledger) : Catching log ledger := by
  induction reached with
  | initial => constructor <;> simp [Caught]
  | step reached step ih =>
      obtain ⟨Bound, transparent⟩ := reached.transparent
      exact ih.step reached.balanced transparent.values step

end Ledger

theorem caught_deeds {log : List Act} {derived : PromiseId} :
    Caught (deeds log) derived ↔ Caught log derived := by
  simp [Caught, deeds, Act.isDeed]

theorem Effect.caught_cases {config after : Config} {log acts : List Act} {notice : Notice}
    (effect : Effect config acts notice after) (sound : config.Sound) {derived : PromiseId}
    (caught : Caught (log ++ acts) derived) :
    Caught log derived ∨ derived = config.machine.promises.size := by
  obtain ⟨source, arguments, member⟩ := caught
  obtain earlier | new := List.mem_append.mp member
  next => exact .inl ⟨source, arguments, earlier⟩
  next =>
    have deed : Act.register .onCatch source arguments derived ∈ deeds acts :=
      List.mem_filter.mpr ⟨new, rfl⟩
    have step := effect.ledger sound
    have size : config.ledger.size = config.machine.promises.size := rfl
    generalize deeds acts = done, config.ledger = before, after.ledger = now at deed step size
    cases step with
    | register kind arguments bound =>
        simp only [List.mem_singleton, Act.register.injEq] at deed
        exact .inr (deed.2.2.2.trans size)
    | _ => simp at deed

theorem Effect.dequeued_cases {config after : Config} {acts : List Act} {notice : Notice}
    (effect : Effect config acts notice after) {microtask : Microtask}
    (member : microtask ∈ dequeuedMicrotasks (acts.map Act.entry)) :
    microtask ∈ config.machine.microtasks.microtasks := by
  cases effect with
  | operation evaluates operation => simp [operation.queue.1] at member
  | takeMicrotask next =>
      obtain rfl : microtask = _ := by
        simpa [dequeuedMicrotasks, Act.entry, Entry.dequeued?] using member
      simp [next]
  | restore known subscribes => simp [(subscribes.queue rfl ⟨rfl, rfl⟩).1] at member
  | follow known subscribes => simp [(subscribes.queue rfl ⟨rfl, rfl⟩).1] at member
  | _ => simp [dequeuedMicrotasks, Act.entry, Entry.dequeued?] at member

theorem Config.due_mem_settlers {config : Config} {microtask : Microtask} {reaction : Reaction}
    {value : Value} (queued : microtask ∈ config.machine.microtasks.microtasks)
    (job : microtask.job = .reaction reaction value) :
    Settler.due reaction value ∈ config.ledger.settlers := by
  have member : Settler.due reaction value ∈ config.machine.microtasks.settlers :=
    List.mem_flatMap.mpr ⟨microtask, queued, by simp [job, Job.settlers]⟩
  simp [Config.ledger, Machine.ledger, member]

structure RunsCatches (log : List Act) (config : Config) : Prop where
  tracks : Tracks log config
  ran : ∀ microtask ∈ dequeuedMicrotasks (log.map Act.entry), ∀ reaction value,
    microtask.job = .reaction reaction value → reaction.derived < config.machine.promises.size ∧
      (Caught log reaction.derived → reaction.kind = .onCatch ∧ reaction.Forwards)

theorem RunsCatches.initial : RunsCatches [] .initial :=
  ⟨Tracks.initial, by simp [dequeuedMicrotasks]⟩

theorem Effect.runsCatches {config after : Config} {log acts : List Act} {notice : Notice}
    (effect : Effect config acts notice after) (sound : config.Sound)
    (runs : RunsCatches log config) : RunsCatches (log ++ acts) after := by
  refine ⟨effect.tracks sound runs.tracks, fun microtask member reaction value job => ?_⟩
  have earlier : reaction.derived < config.machine.promises.size ∧
      (Caught log reaction.derived → reaction.kind = .onCatch ∧ reaction.Forwards) := by
    rw [List.map_append, dequeuedMicrotasks_append] at member
    obtain before | now := List.mem_append.mp member
    next => exact runs.ran microtask before reaction value job
    next =>
      have queued := effect.dequeued_cases now
      have due := config.due_mem_settlers queued job
      have within := sound.machine.microtasks microtask queued
      rw [job] at within
      refine ⟨within.1.derived, fun caught => ?_⟩
      have catches := runs.tracks.catching.settlers _ due (caught_deeds.mpr caught)
      exact ⟨catches.1, catches.2.1⟩
  refine ⟨Nat.lt_of_lt_of_le earlier.1 effect.extent_le.2, fun caught => ?_⟩
  obtain before | new := effect.caught_cases sound caught
  · exact earlier.2 before
  · exact absurd new (Nat.ne_of_lt earlier.1)

theorem RunsCatches.other {log : List Act} {config after : Config} {act : Act}
    (runs : RunsCatches log config) (tracks : Tracks (log ++ [act]) after)
    (undone : act.entry.dequeued? = none)
    (unregistered : act.isDeed = false)
    (promises : after.machine.promises = config.machine.promises) :
    RunsCatches (log ++ [act]) after := by
  refine ⟨tracks, fun microtask member reaction value job => ?_⟩
  have none : dequeuedMicrotasks ([act].map Act.entry) = [] := by
    simp [dequeuedMicrotasks, undone]
  rw [List.map_append, dequeuedMicrotasks_append, none, List.append_nil] at member
  obtain ⟨known, only⟩ := runs.ran microtask member reaction value job
  refine ⟨promises ▸ known, fun caught => only (caught_append ?_ caught)⟩
  rintro kind source arguments derived new
  obtain rfl := List.mem_singleton.mp new
  cases unregistered

theorem RunsCatches.record {log : List Act} {config : Config} (event : Event)
    (node : Option NodeRef) (runs : RunsCatches log config) :
    RunsCatches (log ++ [.record event]) (config.record event node) :=
  runs.other (runs.tracks.record event node) rfl rfl rfl

theorem RunsCatches.call {log : List Act} {config : Config} (builtin : Builtin)
    (arguments : List Value) (result : Value) (runs : RunsCatches log config) :
    RunsCatches (log ++ [.call builtin arguments result]) config :=
  runs.other (runs.tracks.call builtin arguments result) rfl rfl rfl

section Scripts

variable {reaction : Reaction} (kind : reaction.kind = .onCatch) (forwards : reaction.Forwards)

include kind forwards

theorem Reactions.run_of_catch (calls : Calls Simulation) (value : Value) :
    Reactions.run calls reaction value = Reactions.settle reaction.derived value := by
  obtain ⟨_, handler, derived⟩ := reaction
  obtain rfl := kind
  cases handler with
  | restore saved => exact forwards.elim
  | _ => rfl

theorem Job.Did.settled_of_catch {value : Value} {entries : List Entry}
    (did : (Job.reaction reaction value).Did entries) : Settled reaction.derived value entries := by
  cases did with
  | called ofCode settles => cases kind
  | restored ofCode holds subscribed settles => cases kind
  | given gives settles =>
      rw [gives.eq_of_forwards forwards] at settles
      exact settles

end Scripts

theorem registered_deeds {log : List Act} {source derived : PromiseId} :
    Registered (deeds log) source derived ↔ Registered log source derived := by
  simp [Registered, deeds, Act.isDeed]

def Answered (log : List Act) (_ : Config) : Prop :=
  ∀ kind source arguments result, Act.call (.promiseMethod kind source) arguments result ∈ log →
    ∃ derived, result = .promise derived ∧ Act.register kind source arguments derived ∈ log

section Returns

variable {log acts : List Act} {notice : Notice} {config after : Config}

theorem Effect.returns (effect : Effect config acts notice after) {kind : ReactionKind}
    {source : PromiseId} {arguments : List Value} {result : Value}
    (member : Act.call (.promiseMethod kind source) arguments result ∈ acts ++ notice.acts) :
    ∃ derived, result = .promise derived ∧ Act.register kind source arguments derived ∈ acts := by
  have plain {source' : PromiseId} {reaction : Reaction} {machine changed : Machine}
      {acts : List Act} {notice : Notice}
      (subscribes : Subscribes source' reaction (.subscribe source' reaction) [] machine acts notice
        changed) :
      Act.call (.promiseMethod kind source) arguments result ∉ acts ++ notice.acts := by
    cases subscribes <;> simp [Notice.acts]
  cases effect with
  | operation evaluates operation =>
      cases operation with
      | @answer builtin given returned answers =>
          obtain ⟨rfl, -⟩ : Builtin.promiseMethod kind source = builtin ∧ _ := by
            simpa [Notice.acts] using member
          exact answers.elim
      | register known within subscribes =>
          cases subscribes <;>
          · simp only [Notice.acts, List.mem_append, List.mem_cons, List.not_mem_nil, or_false,
              reduceCtorEq, false_or, Act.call.injEq, Builtin.promiseMethod.injEq] at member
            obtain ⟨⟨rfl, rfl⟩, rfl, rfl⟩ := member
            exact ⟨_, rfl, List.mem_cons_self⟩
      | _ => simp [Notice.acts] at member
  | restore known subscribes => exact absurd member (plain subscribes)
  | follow known subscribes => exact absurd member (plain subscribes)
  | _ => simp [Notice.acts] at member

theorem Answered.append (returned : Answered log config) (effect : Effect config acts notice after)
    {more : List Act} (part : more ⊆ acts ++ notice.acts) (whole : acts ⊆ more) (last : Config) :
    Answered (log ++ more) last := by
  intro kind source arguments result member
  obtain earlier | now := List.mem_append.mp member
  · obtain ⟨derived, same, registered⟩ := returned kind source arguments result earlier
    exact ⟨derived, same, List.mem_append_left _ registered⟩
  · obtain ⟨derived, same, registered⟩ := effect.returns (part now)
    exact ⟨derived, same, List.mem_append_right _ (whole registered)⟩

theorem Answered.silent (effect : Effect config acts none after) (_ : config.Sound)
    (returned : Answered log config) : Answered (log ++ acts) after :=
  returned.append effect (List.subset_append_left ..) (List.Subset.refl _) after

theorem Answered.recorded {settings : Settings} {late : List Act} {event : Event}
    (node : Option NodeRef) (effect : Effect config acts (some (event, late)) after)
    (_ : config.Sound)
    (_ : after.machine.trace.size < settings.maxSteps) (returned : Answered log config) :
    Answered (log ++ (acts ++ .record event :: late)) (after.record event node) :=
  returned.append effect (List.Subset.refl _) (List.subset_append_left ..) _

end Returns

section Runs

variable {program : Program} {settings : Settings} {machine : Machine} {history : List Act}

theorem Program.History.returned (reached : program.History settings history machine) :
    Answered history ⟨machine, .free⟩ :=
  reached.invariant (by simp [Answered]) Answered.silent Answered.recorded

theorem Program.Performs.returned (performs : program.Performs settings history machine)
    (config : Config) : Answered history config := by
  have started : Answered [.record .start] ⟨.started, .free⟩ := by simp [Answered]
  obtain ⟨-, rfl, -⟩ | ⟨past, acts, event, late, before, after, rfl, -, -, returned, effect, -⟩ |
    returned := performs.invariant started Answered.silent Answered.recorded
  next => simp [Answered]
  next =>
    exact returned.append effect (List.subset_append_left ..) (List.Subset.refl _) config
  next => exact returned

theorem call_mem_map {history : List Act} {builtin : Builtin} {arguments : List Value}
    {result : Value} : Entry.call builtin arguments result ∈ history.map Act.entry ↔
      Act.call builtin arguments result ∈ history := by
  have told (act : Act) : act.entry = .call builtin arguments result ↔
      act = .call builtin arguments result := by
    cases act <;> simp [Act.entry]
  simp [told]

/-- A run is the same with a log. At every boundary of a run and at its end, the promise that a call
of `catch`, of `finally` or of a `then` whose argument cannot be called returned is fulfilled only
if the promise it was called on is, and with the same value. The microtasks that run for a
registration by `catch` do nothing but settle its promise with the value they carry, whatever it is
that calling a value does. -/
theorem Program.catch_and_finally_hand_values_on (program : Program) (settings : Settings) :
    program.simulate (m := Logged) settings .initial =
      (program.simulate (m := Simulation) settings .initial, program.log settings) ∧
    (∀ machine, Boundary program settings machine →
      ∃ log, program.Logs settings log machine ∧ Scripted log) ∧
    ∀ log machine, program.Logs settings log machine ∨
        log = program.log settings ∧
          machine = (program.simulate (m := Simulation) settings .initial).machine →
      ∀ kind source arguments result,
        Entry.call (.promiseMethod kind source) arguments result ∈ log →
        ∃ derived, result = .promise derived ∧
          Entry.subscribe source ⟨kind, .ofArguments arguments, derived⟩ ∈ log ∧
          (HandsOn kind arguments → ∀ value,
            machine.promises.get? derived = some (.fulfilled value) →
            machine.promises.get? source = some (.fulfilled value)) ∧
          (kind = .onCatch → ∀ microtask ∈ dequeuedMicrotasks log, ∀ reaction value,
            microtask.job = .reaction reaction value → reaction.derived = derived →
            (∀ entries, microtask.job.Did entries → Settled derived value entries) ∧
            ∀ calls : Calls Simulation,
              Reactions.run calls reaction value = Reactions.settle derived value) := by
  refine ⟨program.simulate_logged settings, fun machine boundary => ?_, fun log machine run => ?_⟩
  next =>
    obtain ⟨log, logs⟩ := boundary.exists_logs
    exact ⟨log, logs, logs.scripted⟩
  obtain ⟨history, duty, rfl, runs, returned⟩ : ∃ history duty, log = history.map Act.entry ∧
      RunsCatches history ⟨machine, duty⟩ ∧ Answered history ⟨machine, duty⟩ := by
    obtain logs | ⟨rfl, rfl⟩ := run
    · obtain ⟨history, rfl, reached⟩ := logs.exists_history
      exact ⟨history, .free, rfl, reached.keeps RunsCatches.initial Effect.runsCatches
        RunsCatches.record RunsCatches.call, reached.returned⟩
    · obtain ⟨history, told, performs⟩ := program.exists_performs settings
      obtain ⟨duty, runs⟩ := performs.keeps RunsCatches.initial Effect.runsCatches
        RunsCatches.record RunsCatches.call
      exact ⟨history, duty, told, runs, performs.returned _⟩
  intro kind source arguments result member
  obtain ⟨derived, rfl, registered⟩ :=
    returned kind source arguments result (call_mem_map.mp member)
  refine ⟨derived, rfl, List.mem_map.mpr ⟨_, registered, rfl⟩, fun hands value fulfilled => ?_, ?_⟩
  next =>
    have registration := registered_deeds.mpr ⟨kind, arguments, hands, registered⟩
    have found : machine.promises.value? source = some value :=
      runs.tracks.value?_source registration (Promises.value?_of_fulfilled fulfilled)
    exact Promises.get?_of_value? found
  next =>
    rintro rfl microtask ran reaction value job rfl
    obtain ⟨-, only⟩ := runs.ran microtask ran reaction value job
    obtain ⟨kind, forwards⟩ := only ⟨source, arguments, registered⟩
    rw [job]
    exact ⟨fun entries did => did.settled_of_catch kind forwards, fun calls =>
      Reactions.run_of_catch kind forwards calls value⟩

end Runs

end EventLoop
