import EventLoop.Proofs.Turns
import EventLoop.Proofs.WellFormed

set_option autoImplicit false

/-!
# Agreement with strict evaluation

On well-formed machines the interpreter and strict evaluation agree, and leave the machine
well-formed.
-/

namespace EventLoop

open Simulation

namespace Strict

variable {α β : Type} {guard : Guard} {settings : Settings} {machine : Machine}

theorem bind_of_done {first : Strict α} {value : α} {after : Machine}
    (ran : first guard settings machine = some (.done value after)) (next : α → Strict β) :
    (first >>= next) guard settings machine = next value guard settings after := by
  change Strict.bind first next guard settings machine = _
  simp only [Strict.bind, ran]

theorem bind_of_halted {first : Strict α} {after : Machine}
    (ran : first guard settings machine = some (.halted after)) (next : α → Strict β) :
    (first >>= next) guard settings machine = some (.halted after) := by
  change Strict.bind first next guard settings machine = _
  simp only [Strict.bind, ran]

theorem act_of_watched {sim : Simulation α}
    (watched : guard.watch (sim settings machine).machine = true) :
    act sim guard settings machine = some (sim settings machine) := if_pos watched

theorem require_bind {condition : Machine → Bool} (holds : condition machine = true)
    (next : Strict α) :
    (do require condition; next) guard settings machine = next guard settings machine := by
  have ran : require condition guard settings machine = some (.done () machine) := if_pos holds
  exact bind_of_done ran _

theorem call_eq (watched : guard.watch machine = true) (fuel : Nat) (callable : Callable)
    (arguments : List Value) :
    call (fuel + 1) callable arguments guard settings machine =
      if settings.maxCallDepth ≤ machine.stack.length then
        skip (m := Strict) (.callDepthExceeded settings.maxCallDepth) callable.node.span guard
          settings machine
      else withFrame (m := Strict) callable.name (some callable.node.ref)
        (callable.enter (call fuel) arguments) guard settings machine := by
  have limits : (Actions.settings : Strict Settings) guard settings machine =
      some (.done settings machine) := act_of_watched watched
  have frames : act (Simulation.read (·.stack)) guard settings machine =
      some (.done machine.stack machine) := act_of_watched watched
  rw [call, bind_of_done limits, bind_of_done frames]
  split <;> rfl

end Strict

theorem Machine.scope_lt {machine : Machine} {world : Extent} (extent : machine.extent = world)
    {scope : ScopeId} (known : scope < world.scopes) : scope < machine.scopes.size := by
  rw [← extent] at known
  exact known

theorem Machine.promise_lt {machine : Machine} {world : Extent} (extent : machine.extent = world)
    {id : PromiseId} (known : id < world.promises) : id < machine.promises.size := by
  rw [← extent] at known
  exact known

def AgreesAt (guard : Guard) (settings : Settings) {α : Type} (machine : Machine) (world : Extent)
    (stack : List String) (Post : Extent → α → Prop) (sim : Simulation α) (strict : Strict α) :
    Prop :=
  strict guard settings machine = some (sim settings machine) ∧
    Kept world stack Post (sim settings machine)

-- The two agree on every well-formed machine of the given extent whose stack has room for the given
-- number of frames.
def Agrees (guard : Guard) (settings : Settings) {α : Type} (room : Nat) (world : Extent)
    (Post : Extent → α → Prop) (sim : Simulation α) (strict : Strict α) : Prop :=
  ∀ machine : Machine, machine.WellFormed → machine.extent = world →
    machine.stack.length + room = settings.maxCallDepth →
    AgreesAt guard settings machine world machine.stack Post sim strict

theorem AgreesAt.bind {α β : Type} {guard : Guard} {settings : Settings} {machine : Machine}
    {world : Extent} {middle stack : List String} {Mid : Extent → α → Prop}
    {Post : Extent → β → Prop} {first : Simulation α} {next : α → Simulation β}
    {first' : Strict α} {next' : α → Strict β}
    (early : AgreesAt guard settings machine world middle Mid first first')
    (late : ∀ (value : α) (after : Machine), first settings machine = .done value after →
      after.WellFormed → world ≤ after.extent → after.stack = middle → Mid after.extent value →
      AgreesAt guard settings after after.extent stack Post (next value) (next' value)) :
    AgreesAt guard settings machine world stack Post (first >>= next) (first' >>= next') := by
  obtain ⟨ran, kept⟩ := early
  unfold AgreesAt
  rw [bind_apply]
  generalize first settings machine = outcome at ran kept late
  cases kept with
  | halted wellFormed => exact ⟨Strict.bind_of_halted ran _, .halted wellFormed⟩
  | @done value after wellFormed grown frames mid =>
      obtain ⟨same, kept⟩ := late value after rfl wellFormed grown frames mid
      exact ⟨(Strict.bind_of_done ran _).trans same, kept.mono grown fun _ _ post => post⟩

namespace Agrees

variable {α β : Type} {guard : Guard} {settings : Settings} {room : Nat} {world : Extent}

theorem pure {Post : Extent → α → Prop} {value : α} (post : Post world value) :
    Agrees guard settings room world Post (Pure.pure value) (Pure.pure value) := by
  rintro machine wellFormed rfl -
  exact ⟨rfl, .done wellFormed (le_refl _) rfl post⟩

theorem bind {Mid : Extent → α → Prop} {Post : Extent → β → Prop} {first : Simulation α}
    {next : α → Simulation β} {first' : Strict α} {next' : α → Strict β}
    (firstAgrees : Agrees guard settings room world Mid first first')
    (nextAgrees : ∀ later value, world ≤ later → Mid later value →
      Agrees guard settings room later Post (next value) (next' value)) :
    Agrees guard settings room world Post (first >>= next) (first' >>= next') := by
  intro machine wellFormed extent room
  refine (firstAgrees machine wellFormed extent room).bind
    fun value after _ wellFormed grown frames mid => ?_
  rw [← frames] at room ⊢
  exact nextAgrees after.extent value grown mid after wellFormed rfl room

theorem require {condition : Machine → Bool} {Post : Extent → α → Prop} {sim : Simulation α}
    {strict : Strict α}
    (holds : ∀ machine : Machine, machine.WellFormed → machine.extent = world →
      condition machine = true) (agrees : Agrees guard settings room world Post sim strict) :
    Agrees guard settings room world Post sim (do Strict.require condition; strict) := by
  intro machine wellFormed extent frames
  obtain ⟨ran, kept⟩ := agrees machine wellFormed extent frames
  exact ⟨(Strict.require_bind (holds machine wellFormed extent) strict).trans ran, kept⟩

section Watched

variable (watched : ∀ machine : Machine, machine.WellFormed → guard.watch machine = true)

include watched

theorem act {Post : Extent → α → Prop} {sim : Simulation α}
    (kept : ∀ machine : Machine, machine.WellFormed → machine.extent = world →
      Kept machine.extent machine.stack Post (sim settings machine)) :
    Agrees guard settings room world Post sim (Strict.act sim) := by
  rintro machine wellFormed rfl -
  have done := kept machine wellFormed rfl
  exact ⟨Strict.act_of_watched (watched _ done.wellFormed), done⟩

theorem record (event : Event) (node : Option NodeRef) :
    Agrees guard settings room world (fun _ _ => True) (Actions.record event node)
      (Actions.record event node) :=
  act watched fun _ wellFormed _ => wellFormed.record settings event node

theorem report (problem : Problem) (span : Option Span) :
    Agrees guard settings room world (fun _ _ => True) (Actions.report problem span)
      (Actions.report problem span) :=
  act watched fun _ wellFormed _ => wellFormed.report settings problem span

theorem inspect {values : List Value} (all : ∀ value ∈ values, value.Within world) :
    Agrees guard settings room world (fun _ _ => True) (Actions.inspect values)
      (Actions.inspect values) := by
  rintro machine wellFormed rfl -
  have looked : Strict.act (Simulation.read (·.promises)) guard settings machine =
      some (.done machine.promises machine) := Strict.act_of_watched (watched machine wellFormed)
  refine ⟨(Strict.bind_of_done looked _).trans ?_, .done wellFormed (le_refl _) rfl trivial⟩
  rw [Promises.mapM_display wellFormed.sound all]
  rfl

theorem declare {scope : ScopeId} (known : scope < world.scopes) (name : String) {value : Value}
    (within : value.Within world) :
    Agrees guard settings room world (fun _ _ => True) (Actions.declare scope name value)
      (Actions.declare scope name value) := by
  refine require (fun machine _ extent => decide_eq_true (Machine.scope_lt extent known)) ?_
  exact act watched fun _ wellFormed extent =>
    wellFormed.declare settings scope name (extent ▸ within)

theorem search_bind {γ : Type} {scope : ScopeId} {name : String} {machine : Machine}
    {next : Scopes → Option ScopeId → Strict γ} (wellFormed : machine.WellFormed)
    (known : scope < machine.scopes.size) :
    (do
      let scopes ← Strict.act (Simulation.read (·.scopes))
      let found ← Strict.ofOption (scopes.search name scopes.size scope)
      next scopes found) guard settings machine =
      next machine.scopes (machine.scopes.resolve? name scope) guard settings machine := by
  have looked : Strict.act (Simulation.read (·.scopes)) guard settings machine =
      some (.done machine.scopes machine) := Strict.act_of_watched (watched machine wellFormed)
  rw [Strict.bind_of_done looked, wellFormed.nested.search known known]
  rfl

theorem lookup {scope : ScopeId} (known : scope < world.scopes) (name : String) :
    Agrees guard settings room world Value.Within (Actions.lookup scope name)
      (Actions.lookup scope name) := by
  rintro machine wellFormed rfl -
  refine ⟨search_bind watched wellFormed known, .done wellFormed (le_refl _) rfl ?_⟩
  show Value.Within machine.extent ((machine.scopes.lookup? scope name).getD (globalValue name))
  cases found : machine.scopes.lookup? scope name with
  | none => exact (globalValue_plain name).within _
  | some value => exact wellFormed.sound.scopes.lookup? found

theorem assign {scope : ScopeId} (known : scope < world.scopes) (name : String) {value : Value}
    (within : value.Within world) :
    Agrees guard settings room world (fun _ _ => True) (Actions.assign scope name value)
      (Actions.assign scope name value) := by
  rintro machine wellFormed rfl frames
  have target : (machine.scopes.resolve? name scope).getD Scopes.global < machine.scopes.size :=
    wellFormed.nested.target_lt name scope
  have declares := declare watched target name within machine wellFormed rfl frames
  exact ⟨(search_bind watched wellFormed known).trans declares.1, declares.2⟩

theorem createFulfilled {value : Value} (held : value.Held world) :
    Agrees guard settings room world (fun later id => id < later.promises)
      (Actions.createPromise (.fulfilled value)) (Actions.createPromise (.fulfilled value)) := by
  refine act watched fun machine wellFormed extent => wellFormed.createPromise settings ?_
  have larger : world ≤ ⟨machine.scopes.size, machine.promises.size + 1⟩ := by
    rw [← extent]
    exact ⟨Nat.le_refl _, Nat.le_succ _⟩
  exact Value.Held.grow larger held

theorem onPromise {Post : Extent → α → Prop} {sim : Simulation α} {id : PromiseId}
    (known : id < world.promises)
    (kept : ∀ machine : Machine, machine.WellFormed → machine.extent = world →
      id < machine.promises.size → Kept machine.extent machine.stack Post (sim settings machine)) :
    Agrees guard settings room world Post sim (Strict.onPromise id sim) := by
  refine require (fun machine _ extent => decide_eq_true (Machine.promise_lt extent known)) ?_
  exact act watched fun machine wellFormed extent =>
    kept machine wellFormed extent (Machine.promise_lt extent known)

theorem addMicrotask {microtask : Microtask} (node : Option NodeRef)
    (fits : microtask.job.Within world) :
    Agrees guard settings room world (fun _ _ => True) (EventLoop.addMicrotask microtask node)
      (EventLoop.addMicrotask microtask node) :=
  bind (act watched fun _ wellFormed extent => wellFormed.enqueueMicrotask settings (extent ▸ fits))
    fun _ _ _ _ => record watched _ _

theorem addTask (entry : TaskEntry) {callback : Value} {arguments : List Value}
    (node : Option NodeRef) (awaits : callback.Callback world)
    (all : ∀ argument ∈ arguments, argument.Within world) :
    Agrees guard settings room world (fun _ _ => True)
      (EventLoop.addTask entry callback arguments node)
      (EventLoop.addTask entry callback arguments node) := by
  refine bind (act watched fun _ wellFormed _ => wellFormed.nextTimer settings)
    fun later id grown _ => ?_
  have fits : Task.Within later ⟨entry, id, callback, arguments⟩ :=
    ⟨awaits.grow grown, fun argument member => (all argument member).grow grown⟩
  refine bind (act watched fun _ wellFormed extent =>
    wellFormed.enqueueTask settings (extent ▸ fits)) fun _ _ _ _ => ?_
  exact (record watched _ _).bind fun _ _ _ _ => pure trivial

theorem removeTask (id : TimerId) (node : Option NodeRef) :
    Agrees guard settings room world (fun _ _ => True) (EventLoop.removeTask id node)
      (EventLoop.removeTask id node) := by
  refine bind (act watched fun _ wellFormed _ => wellFormed.cancelTask? settings id)
    fun _ cancelled _ _ => ?_
  cases cancelled with
  | none => exact pure trivial
  | some task => exact record watched _ _

theorem hostCalculus :
    HostCalculus (m := Simulation) (n := Strict) .within fun world Post sim strict =>
      Agrees guard settings room world Post sim strict where
  plain plain := plain.within _
  method _ good := good
  grow grown good := good.grow grown
  pure := pure
  bind := bind
  owner good := good
  hold final good := ⟨final, good⟩
  held held := held.2
  await callable good := ⟨callable, good⟩
  awaited awaits := awaits.2
  growHeld grown held := Value.Held.grow grown held
  growCallback grown awaits := Value.Callback.grow grown awaits
  report problem span _ := report watched problem span
  write level _ all := (inspect watched all).bind fun _ texts _ _ =>
    act watched fun _ wellFormed _ => wellFormed.writeLine settings level _
  createPending := act watched fun _ wellFormed _ =>
    wellFormed.createPromise settings (by simp [PromiseState.Within])
  createFulfilled held := createFulfilled watched held
  keepReaction known fits := onPromise watched known fun _ wellFormed extent known =>
    wellFormed.keepReaction settings known (extent ▸ fits)
  addMicrotask node fits := addMicrotask watched node fits
  addTask entry _ _ node awaits all := addTask watched entry node awaits all
  removeTask id node := removeTask watched id node
  called _ _ _ _ agrees := agrees

theorem callCalculus :
    CallCalculus (m := Simulation) (n := Strict) (fun _ => True)
      (fun world value => value.Within world) (fun world scope => scope < world.scopes)
      fun world Post sim strict => Agrees guard settings room world Post sim strict where
  toRules := (hostCalculus watched).toRules
  part _ _ := trivial
  closure good := good
  code _ := trivial
  growScope grown known := Nat.lt_of_lt_of_le known grown.1
  report problem _ span _ _ _ := report watched problem (some span)
  makeFunction _ _ known := act watched fun _ wellFormed extent =>
    wellFormed.makeFunction settings (extent ▸ known) _ _
  declare name known good := declare watched known name good
  assign name _ _ known good := assign watched known name good
  createScope known := act watched fun _ wellFormed extent =>
    wellFormed.createScope settings (extent ▸ known)
  lookup name known := lookup watched known name
  builtin _ callable good all := (hostCalculus watched).builtin callable good all _

theorem changeStack {machine : Machine} (wellFormed : machine.WellFormed)
    (change : List String → List String) :
    AgreesAt guard settings machine machine.extent (change machine.stack) (fun _ _ => True)
      (modify fun machine => { machine with stack := change machine.stack })
      (Strict.act (modify fun machine => { machine with stack := change machine.stack })) := by
  obtain ⟨⟨scopes, tasks, microtasks, promises, tidy⟩, nested⟩ := wellFormed
  have changed : Machine.WellFormed { machine with stack := change machine.stack } :=
    ⟨⟨scopes, tasks, microtasks, promises, tidy⟩, nested⟩
  exact ⟨Strict.act_of_watched (watched _ changed), .done changed (le_refl _) rfl trivial⟩

theorem withFrame (name : String) (node : Option NodeRef) {body : Simulation Value}
    {body' : Strict Value}
    (agrees : ∀ later, world ≤ later → Agrees guard settings room later Value.Within body body') :
    Agrees guard settings (room + 1) world Value.Within (EventLoop.withFrame name node body)
      (EventLoop.withFrame name node body') := by
  rintro machine wellFormed rfl frames
  have records (event : Event) {reached : Machine} (wellFormed : reached.WellFormed) :
      AgreesAt guard settings reached reached.extent reached.stack (fun _ _ => True)
        (Simulation.record event node) (Strict.act (Simulation.record event node)) := by
    have kept := wellFormed.record settings event node
    exact ⟨Strict.act_of_watched (watched _ kept.wellFormed), kept⟩
  refine (changeStack watched wellFormed (name :: ·)).bind
    fun _ pushed _ wellFormed grown stack _ => ?_
  refine (records (.push name) wellFormed).bind fun _ started _ wellFormed more same _ => ?_
  -- The body starts with the frame on the stack, and with one place less for further ones.
  have room : started.stack.length + room = settings.maxCallDepth := by
    rw [same, stack, List.length_cons]
    omega
  refine (agrees started.extent (le_trans grown more) started wellFormed rfl room).bind
    fun result finished _ wellFormed _ kept within => ?_
  refine (changeStack watched wellFormed List.tail).bind
    fun _ popped _ wellFormed grown less _ => ?_
  refine (records (.pop name) wellFormed).bind fun _ ended _ wellFormed more last _ => ?_
  refine ⟨rfl, .done wellFormed (le_refl _) ?_ (within.grow (le_trans grown more))⟩
  rw [last, less, kept, same, stack, List.tail_cons]

theorem call {room fuel : Nat} (enough : room < fuel) {callable : Callable}
    {arguments : List Value} (within : Value.Within world (.function callable))
    (all : ∀ argument ∈ arguments, argument.Within world) :
    Agrees guard settings room world Value.Within (callable.call room arguments)
      (Strict.call fuel callable arguments) := by
  -- The room is what the limit leaves above the frames, so both refuse the same calls.
  induction room generalizing fuel callable arguments world with
  | zero =>
      obtain ⟨fuel, rfl⟩ := Nat.exists_eq_add_one.mpr enough
      intro machine wellFormed extent full
      have refused : settings.maxCallDepth ≤ machine.stack.length := Nat.le_of_eq full.symm
      have place : (SyntaxNode.function callable.node).span = callable.node.span := rfl
      have skips : Agrees guard settings 0 world _ _ _ := (callCalculus watched).skip
        (.callDepthExceeded settings.maxCallDepth) rfl trivial place
      rw [AgreesAt, Strict.call_eq (watched machine wellFormed), if_pos refused]
      exact skips machine wellFormed extent full
  | succ room ih =>
      obtain ⟨fuel, rfl⟩ := Nat.exists_eq_add_one.mpr (Nat.zero_lt_of_lt enough)
      intro machine wellFormed extent frames
      have allowed : ¬settings.maxCallDepth ≤ machine.stack.length := by omega
      have enters (later : Extent) (grown : world ≤ later) :
          Agrees guard settings room later _ _ _ :=
        (callCalculus watched).enter (ih (Nat.lt_of_succ_lt_succ enough)) (within.grow grown)
          fun argument member => (all argument member).grow grown
      rw [AgreesAt, Strict.call_eq (watched machine wellFormed), if_neg allowed, Callable.call]
      exact withFrame watched _ _ enters machine wellFormed extent frames

theorem loopCalculus (enough : settings.maxCallDepth < guard.fuel) :
    LoopCalculus (m := Simulation) (n := Strict) .within fun world Post sim strict =>
      Agrees guard settings settings.maxCallDepth world Post sim strict where
  toHostCalculus := hostCalculus watched
  fulfill known held := onPromise watched known fun _ wellFormed extent known =>
    (wellFormed.fulfill settings known (extent ▸ held)).mono (le_refl _) fun _ _ post => post.2
  entry good all machine := call watched enough good all machine
  uncallable awaits callable := absurd (callable.symm.trans awaits.1) Bool.false_ne_true
  invoked _ _ _ _ agrees := agrees
  settled _ _ := pure trivial
  microtaskRun _ _ _ := record watched _ _
  taskRun _ _ _ := record watched _ _
  traceSize := act watched fun _ wellFormed _ => .done wellFormed (le_refl _) rfl trivial
  dequeueMicrotask := act watched fun _ wellFormed _ => wellFormed.dequeueMicrotask? settings
  dequeueTask := act watched fun _ wellFormed _ => wellFormed.dequeueTask? settings

end Watched

end Agrees

end EventLoop
