import EventLoop.Proofs.Settlers

set_option autoImplicit false

/-!
# Catch and finally hand values on

A promise that comes from `catch`, from `finally` or from a `then` without a callback can only get
the value of the promise it was registered with.
-/

namespace EventLoop

def Reaction.Forwards (reaction : Reaction) : Prop :=
  match reaction.handler with
  | .callback _ => reaction.kind ≠ .onThen
  | .passThrough => True
  | .restore _ => False

-- The settler brings the value to its promise, given the values that other promises are bound to.
def Settler.Yields (Bound : PromiseId → Value → Prop) (value : Value) : Settler → Prop
  | .stored source reaction =>
      reaction.handler = .restore value ∨ reaction.handler = .passThrough ∧ Bound source value
  | .due reaction given => reaction.handler = .restore value ∨ reaction.Forwards ∧ given = value
  | .follow _ other => Bound other value
  | .settle _ given => given = value ∨ ∃ other, given = .promise other ∧ Bound other value

def Settler.isStored : Settler → Bool
  | .stored .. => true
  | _ => false

theorem Settler.Yields.mono {Bound Wider : PromiseId → Value → Prop} {value : Value}
    {settler : Settler} (yields : settler.Yields Bound value)
    (wider : ∀ id value, Bound id value → Wider id value) : settler.Yields Wider value := by
  cases settler with
  | stored source reaction => exact yields.imp_right fun through => ⟨through.1, wider _ _ through.2⟩
  | due reaction given => exact yields
  | follow promise other => exact wider _ _ yields
  | settle id given =>
      exact yields.imp_right fun ⟨other, same, bound⟩ => ⟨other, same, wider _ _ bound⟩

theorem Settler.Yields.fire {Bound : PromiseId → Value → Prop} {id : PromiseId}
    {value given : Value} {settler : Settler} (yields : settler.Yields Bound given)
    (agrees : Bound id given → value = given) : (settler.fire id value).Yields Bound given := by
  cases settler with
  | stored source reaction =>
      by_cases same : source = id
      · subst same
        simp only [Settler.fire, if_true]
        refine yields.imp_right fun forwarded => ⟨?_, agrees forwarded.2⟩
        simp [Reaction.Forwards, forwarded.1]
      · simpa only [Settler.fire, same, if_false] using yields
  | _ => exact yields

namespace Ledger

structure Transparent (Pair : PromiseId → PromiseId → Prop) (Bound : PromiseId → Value → Prop)
    (ledger : Ledger) : Prop where
  known : ∀ id value, Bound id value → id < ledger.size
  final : ∀ id value, Bound id value → value.Final
  held : ∀ id value other, Bound id value → ledger.value? id = some other → other = value
  settlers : ∀ settler ∈ ledger.settlers, ∀ value, Bound settler.target value →
    settler.Yields Bound value
  pairs : ∀ source derived, Pair source derived → source < ledger.size ∧ derived < ledger.size
  passed : ∀ source derived value, Pair source derived → ledger.value? source = some value →
    Bound derived value
  waiting : ∀ source derived, Pair source derived → ledger.value? source = none →
    ledger.value? derived = none ∧ ∀ settler ∈ ledger.settlers, settler.target = derived →
      ∃ reaction, settler = .stored source reaction ∧ reaction.Forwards
  values : ∀ id value, ledger.value? id = some value → value.Final

variable {Pair : PromiseId → PromiseId → Prop} {Bound Wider : PromiseId → Value → Prop}
variable {ledger after : Ledger} {log : List Act} {old new rest : Multiset Settler}

theorem Balanced.target_lt (balanced : Balanced log ledger) {settler : Settler}
    (member : settler ∈ ledger.settlers) : settler.target < ledger.size :=
  ((balanced.open_iff _).mp (Multiset.mem_map_of_mem _ member)).1

-- Settlers may be exchanged for others that yield what is bound, as long as the new ones are for a
-- new promise or for one whose settler was on its way already.
theorem Transparent.exchange (transparent : Transparent Pair Bound ledger)
    (balanced : Balanced log ledger) (before : ledger.settlers = old + rest)
    (now : after.settlers = new + rest) (values : after.value? = ledger.value?)
    (size : ledger.size ≤ after.size) (wider : ∀ id value, Bound id value → Wider id value)
    (fresh : ∀ id value, Wider id value →
      Bound id value ∨ id = ledger.size ∧ id < after.size ∧ value.Final)
    (yields : ∀ settler ∈ new, ∀ value, Wider settler.target value → settler.Yields Wider value)
    (targets : ∀ settler ∈ new, settler.target = ledger.size ∨
      ∃ gone ∈ old, gone.isStored = false ∧ gone.target = settler.target) :
    Transparent Pair Wider after := by
  have restMember : ∀ settler ∈ rest, settler ∈ ledger.settlers := by
    intro settler member
    rw [before]
    exact Multiset.mem_add.mpr (.inr member)
  constructor
  case known =>
    intro id value bound
    obtain earlier | ⟨-, inside, -⟩ := fresh id value bound
    · exact Nat.lt_of_lt_of_le (transparent.known id value earlier) size
    · exact inside
  case final =>
    intro id value bound
    obtain earlier | ⟨-, -, final⟩ := fresh id value bound
    · exact transparent.final id value earlier
    · exact final
  case held =>
    intro id value other bound found
    rw [values] at found
    obtain earlier | ⟨rfl, -, -⟩ := fresh id value bound
    · exact transparent.held id value other earlier found
    · rw [balanced.value?_size] at found
      cases found
  case settlers =>
    intro settler member value bound
    rw [now] at member
    obtain added | kept := Multiset.mem_add.mp member
    · exact yields settler added value bound
    · obtain earlier | ⟨same, -, -⟩ := fresh _ value bound
      · exact (transparent.settlers settler (restMember settler kept) value earlier).mono wider
      · exact absurd same (Nat.ne_of_lt (balanced.target_lt (restMember settler kept)))
  case pairs =>
    intro source derived pair
    obtain ⟨first, second⟩ := transparent.pairs source derived pair
    exact ⟨Nat.lt_of_lt_of_le first size, Nat.lt_of_lt_of_le second size⟩
  case passed =>
    intro source derived value pair found
    exact wider _ _ (transparent.passed source derived value pair (values ▸ found))
  case waiting =>
    intro source derived pair unsettled
    rw [values] at unsettled
    obtain ⟨pending, stored⟩ := transparent.waiting source derived pair unsettled
    refine ⟨values ▸ pending, fun settler member target => ?_⟩
    rw [now] at member
    obtain added | kept := Multiset.mem_add.mp member
    · -- What is on its way to the derived promise is stored, so none of it was exchanged.
      obtain new | ⟨gone, found, moving, same⟩ := targets settler added
      · have inside := (transparent.pairs source derived pair).2
        exact absurd (target.symm.trans new) (Nat.ne_of_lt inside)
      · have member : gone ∈ ledger.settlers := by
          rw [before]
          exact Multiset.mem_add.mpr (.inl found)
        obtain ⟨reaction, rfl, -⟩ := stored gone member (same.trans target)
        cases moving
    · exact stored settler (restMember settler kept) target
  case values =>
    intro id value found
    exact transparent.values id value (values ▸ found)

theorem Transparent.final_of_update (transparent : Transparent Pair Bound ledger) {id : PromiseId}
    {value : Value} (final : value.Final) (other : PromiseId) (held : Value)
    (found : Function.update ledger.value? id (some value) other = some held) : held.Final := by
  by_cases same : other = id
  · subst same
    obtain rfl : value = held := by simpa using found
    exact final
  · rw [Function.update_of_ne same] at found
    exact transparent.values other held found

theorem Transparent.hold (transparent : Transparent Pair Bound ledger) {value : Value}
    (final : value.Final) (size : after.size = ledger.size + 1)
    (values : after.value? = Function.update ledger.value? ledger.size (some value))
    (same : after.settlers = ledger.settlers) : Transparent Pair Bound after := by
  have old {id : PromiseId} (inside : id < ledger.size) : after.value? id = ledger.value? id := by
    rw [values, Function.update_of_ne (Nat.ne_of_lt inside)]
  have grown {id : PromiseId} (inside : id < ledger.size) : id < after.size :=
    size ▸ Nat.lt_succ_of_lt inside
  constructor
  case known => exact fun id found bound => grown (transparent.known id found bound)
  case final => exact transparent.final
  case held =>
    intro id found other bound same
    rw [old (transparent.known id found bound)] at same
    exact transparent.held id found other bound same
  case settlers => exact same ▸ transparent.settlers
  case pairs =>
    intro source derived pair
    obtain ⟨first, second⟩ := transparent.pairs source derived pair
    exact ⟨grown first, grown second⟩
  case passed =>
    intro source derived found pair same
    rw [old (transparent.pairs source derived pair).1] at same
    exact transparent.passed source derived found pair same
  case waiting =>
    intro source derived pair unsettled
    obtain ⟨first, second⟩ := transparent.pairs source derived pair
    rw [old first] at unsettled
    rw [old second, same]
    exact transparent.waiting source derived pair unsettled
  case values =>
    rw [values]
    exact transparent.final_of_update final

theorem Transparent.fulfill (transparent : Transparent Pair Bound ledger) {id : PromiseId}
    {value : Value} (final : value.Final) (pending : ledger.value? id = none)
    (due : ledger.settlers = .settle id value ::ₘ rest) (size : after.size = ledger.size)
    (values : after.value? = Function.update ledger.value? id (some value))
    (fired : after.settlers = rest.map (Settler.fire id value)) :
    Transparent Pair (fun derived given => Bound derived given ∨ Pair id derived ∧ given = value)
      after := by
  have restMember : ∀ settler ∈ rest, settler ∈ ledger.settlers := by
    intro settler member
    simp [due, member]
  -- What the promise was bound to is the value that it gets.
  have agrees (given : Value) (bound : Bound id given) : value = given := by
    have yields := transparent.settlers (.settle id value) (by simp [due]) given bound
    obtain same | ⟨other, rfl, -⟩ := yields
    · exact same
    · exact final.elim
  constructor
  case known =>
    rintro derived given (bound | ⟨pair, -⟩)
    · exact size ▸ transparent.known derived given bound
    · exact size ▸ (transparent.pairs id derived pair).2
  case final =>
    rintro derived given (bound | ⟨-, rfl⟩)
    · exact transparent.final derived given bound
    · exact final
  case held =>
    intro derived given other bound found
    rw [values] at found
    by_cases same : derived = id
    · subst same
      obtain rfl : value = other := by simpa using found
      obtain earlier | ⟨-, rfl⟩ := bound
      · exact agrees given earlier
      · rfl
    · rw [Function.update_of_ne same] at found
      obtain earlier | ⟨pair, rfl⟩ := bound
      · exact transparent.held derived given other earlier found
      · rw [(transparent.waiting id derived pair pending).1] at found
        cases found
  case settlers =>
    intro settler member given bound
    rw [fired] at member
    obtain ⟨before, kept, rfl⟩ := Multiset.mem_map.mp member
    have inside := restMember before kept
    rw [Settler.target_fire] at bound
    obtain earlier | ⟨pair, rfl⟩ := bound
    next =>
      have yields := transparent.settlers before inside given earlier
      exact (yields.fire (agrees given)).mono fun _ _ => .inl
    next =>
      -- All that is on its way to a derived promise waits for this one, and now gets its value.
      obtain ⟨reaction, rfl, forwards⟩ :=
        (transparent.waiting id _ pair pending).2 before inside rfl
      simp only [Settler.fire, if_true]
      exact .inr ⟨forwards, rfl⟩
  case pairs => exact size ▸ transparent.pairs
  case passed =>
    intro source derived given pair found
    rw [values] at found
    by_cases same : source = id
    · subst same
      obtain rfl : value = given := by simpa using found
      exact .inr ⟨pair, rfl⟩
    · rw [Function.update_of_ne same] at found
      exact .inl (transparent.passed source derived given pair found)
  case waiting =>
    intro source derived pair unsettled
    rw [values] at unsettled
    by_cases same : source = id
    · subst same
      simp at unsettled
    · rw [Function.update_of_ne same] at unsettled
      obtain ⟨empty, stored⟩ := transparent.waiting source derived pair unsettled
      -- The derived promise of a pending source is not the one that gets its value here.
      have other : derived ≠ id := by
        rintro rfl
        obtain ⟨reaction, found, -⟩ := stored (.settle derived value) (by simp [due]) rfl
        cases found
      rw [values, fired]
      refine ⟨by rwa [Function.update_of_ne other], fun settler member target => ?_⟩
      obtain ⟨before, kept, rfl⟩ := Multiset.mem_map.mp member
      rw [Settler.target_fire] at target
      obtain ⟨reaction, rfl, forwards⟩ := stored before (restMember before kept) target
      exact ⟨reaction, by simp [Settler.fire, same], forwards⟩
  case values =>
    rw [values]
    exact transparent.final_of_update final

theorem Transparent.addPair (transparent : Transparent Pair Bound ledger)
    {source derived : PromiseId} (inside : source < ledger.size ∧ derived < ledger.size)
    (passed : ∀ value, ledger.value? source = some value → Bound derived value)
    (waiting : ledger.value? source = none → ledger.value? derived = none ∧
      ∀ settler ∈ ledger.settlers, settler.target = derived →
        ∃ reaction, settler = .stored source reaction ∧ reaction.Forwards) :
    Transparent (fun first second => Pair first second ∨ first = source ∧ second = derived) Bound
      ledger where
  known := transparent.known
  final := transparent.final
  held := transparent.held
  settlers := transparent.settlers
  pairs := by
    rintro first second (pair | ⟨rfl, rfl⟩)
    · exact transparent.pairs first second pair
    · exact inside
  passed := by
    rintro first second value (pair | ⟨rfl, rfl⟩) found
    · exact transparent.passed first second value pair found
    · exact passed value found
  waiting := by
    rintro first second (pair | ⟨rfl, rfl⟩) unsettled
    · exact transparent.waiting first second pair unsettled
    · exact waiting unsettled
  values := transparent.values

end Ledger

/-- Registrations that hand values on: all but those of `then` with a callback. -/
def HandsOn (kind : ReactionKind) (arguments : List Value) : Prop :=
  kind = .onThen → (arguments.head?.getD .undefined).isCallable = false

def Registered (log : List Act) (source derived : PromiseId) : Prop :=
  ∃ kind arguments, HandsOn kind arguments ∧
    Act.register kind source arguments derived ∈ log

theorem HandsOn.forwards {kind : ReactionKind} {arguments : List Value}
    (hands : HandsOn kind arguments) (derived : PromiseId) :
    Reaction.Forwards ⟨kind, .ofArguments arguments, derived⟩ := by
  cases arguments with
  | nil => trivial
  | cons argument rest =>
      by_cases callable : argument.isCallable = true
      · have other : kind ≠ .onThen := by
          intro same
          have not := hands same
          simp [callable] at not
        simpa [Reaction.Forwards, Handler.ofArguments, callable] using other
      · simp [Reaction.Forwards, Handler.ofArguments, callable]

theorem registered_append {log acts : List Act}
    (others : ∀ kind source arguments derived,
      Act.register kind source arguments derived ∉ acts) :
    Registered (log ++ acts) = Registered log := by
  funext source derived
  simp [Registered, others]

theorem registered_concat {log : List Act} {kind : ReactionKind} {source : PromiseId}
    {arguments : List Value} {derived : PromiseId} {first second : PromiseId}
    (registered : Registered
      (log ++ [.register kind source arguments derived]) first second) :
    Registered log first second ∨ HandsOn kind arguments ∧ first = source ∧ second = derived := by
  obtain ⟨kind', arguments', hands, member⟩ := registered
  obtain earlier | new := List.mem_append.mp member
  · exact .inl ⟨kind', arguments', hands, earlier⟩
  · simp only [List.mem_singleton, Act.register.injEq] at new
    obtain ⟨rfl, rfl, rfl, rfl⟩ := new
    exact .inr ⟨hands, rfl, rfl⟩

namespace Ledger

variable {Pair Fewer : PromiseId → PromiseId → Prop} {Bound : PromiseId → Value → Prop}
variable {ledger after : Ledger} {log acts : List Act}

theorem Transparent.of_fewer (transparent : Transparent Pair Bound ledger)
    (fewer : ∀ source derived, Fewer source derived → Pair source derived) :
    Transparent Fewer Bound ledger where
  known := transparent.known
  final := transparent.final
  held := transparent.held
  settlers := transparent.settlers
  pairs _ _ pair := transparent.pairs _ _ (fewer _ _ pair)
  passed _ _ _ pair := transparent.passed _ _ _ (fewer _ _ pair)
  waiting _ _ pair := transparent.waiting _ _ (fewer _ _ pair)
  values := transparent.values

theorem Transparent.register (transparent : Transparent (Registered log) Bound ledger)
    (balanced : Balanced log ledger) (kind : ReactionKind) {source : PromiseId}
    (arguments : List Value) (known : source < ledger.size) :
    ∃ Wider, Transparent
      (Registered (log ++ [.register kind source arguments ledger.size])) Wider
      { ledger with
        size := ledger.size + 1
        settlers := ledger.subscribe source ⟨kind, .ofArguments arguments, ledger.size⟩ ::ₘ
          ledger.settlers } := by
  let after : Ledger :=
    { ledger with
      size := ledger.size + 1
      settlers := ledger.subscribe source ⟨kind, .ofArguments arguments, ledger.size⟩ ::ₘ
        ledger.settlers }
  -- If the source has its value already, the new promise is bound to it from the start.
  let Wider (id : PromiseId) (value : Value) : Prop :=
    Bound id value ∨
      id = ledger.size ∧ HandsOn kind arguments ∧ ledger.value? source = some value
  refine ⟨Wider, ?_⟩
  have unbound (value : Value) : ¬Bound ledger.size value := fun bound =>
    Nat.lt_irrefl _ (transparent.known _ _ bound)
  have extended : Transparent (Registered log) Wider after := by
    refine transparent.exchange balanced (zero_add _).symm (Multiset.singleton_add _ _).symm rfl
      (Nat.le_succ _) (fun _ _ => .inl) ?_ ?_ ?_
    · rintro id value (bound | ⟨rfl, -, found⟩)
      · exact .inl bound
      · exact .inr ⟨rfl, Nat.lt_succ_self _, transparent.values _ _ found⟩
    · intro settler member value bound
      obtain rfl := Multiset.mem_singleton.mp member
      rw [target_subscribe] at bound
      obtain ⟨-, hands, found⟩ := bound.resolve_left (unbound value)
      simp only [subscribe, found]
      exact .inr ⟨hands.forwards _, rfl⟩
    · intro settler member
      obtain rfl := Multiset.mem_singleton.mp member
      exact .inl (target_subscribe ..)
  -- Otherwise the two become a pair, provided that the registration hands values on.
  by_cases hands : HandsOn kind arguments
  next =>
    refine Transparent.of_fewer (extended.addPair ⟨Nat.lt_succ_of_lt known, Nat.lt_succ_self _⟩
      (fun value found => .inr ⟨rfl, hands, found⟩) fun unsettled => ⟨balanced.value?_size, ?_⟩)
      fun first second registered => (registered_concat registered).imp_right And.right
    intro settler member target
    obtain rfl | old := Multiset.mem_cons.mp member
    · have unsettled : ledger.value? source = none := unsettled
      exact ⟨⟨kind, .ofArguments arguments, ledger.size⟩, by simp [subscribe, unsettled],
        hands.forwards _⟩
    · exact absurd target (Nat.ne_of_lt (balanced.target_lt old))
  next =>
    refine extended.of_fewer fun first second registered => ?_
    exact (registered_concat registered).resolve_right fun new => hands new.1

-- A finally that waits for the outcome of its callback goes through a promise of its own, which is
-- bound to the same value.
theorem Transparent.restore (transparent : Transparent Pair Bound ledger)
    (balanced : Balanced log ledger) {reaction : Reaction} {value callback : Value}
    {waited : PromiseId} {rest : Multiset Settler}
    (handler : reaction.handler = .callback callback)
    (due : ledger.settlers = .due reaction value ::ₘ rest) :
    ∃ Wider, Transparent Pair Wider
      { ledger with
        size := ledger.size + 1
        settlers := ledger.subscribe waited ⟨.onFinally, .restore value, ledger.size⟩ ::ₘ
          .settle reaction.derived (.promise ledger.size) ::ₘ rest } := by
  -- The promise in between is bound to the value if the derived one is.
  let Wider (id : PromiseId) (given : Value) : Prop :=
    Bound id given ∨ id = ledger.size ∧ given = value ∧ Bound reaction.derived value
  let waiter := ledger.subscribe waited ⟨.onFinally, .restore value, ledger.size⟩
  let settler := Settler.settle reaction.derived (.promise ledger.size)
  have member : Settler.due reaction value ∈ ledger.settlers := by simp [due]
  have derived : reaction.derived < ledger.size := balanced.target_lt member
  have unbound (given : Value) : ¬Bound ledger.size given := fun bound =>
    Nat.lt_irrefl _ (transparent.known _ _ bound)
  have now : waiter ::ₘ settler ::ₘ rest = (waiter ::ₘ {settler}) + rest := by simp
  refine ⟨Wider, transparent.exchange balanced (due.trans (Multiset.singleton_add _ _).symm) now rfl
    (Nat.le_succ _) (fun _ _ => .inl) ?_ ?_ ?_⟩
  · rintro id given (bound | ⟨rfl, rfl, bound⟩)
    · exact .inl bound
    · exact .inr ⟨rfl, Nat.lt_succ_self _, transparent.final _ _ bound⟩
  · intro added new given bound
    obtain rfl | last := Multiset.mem_cons.mp new
    · obtain ⟨-, rfl, -⟩ := (target_subscribe .. ▸ bound).resolve_left (unbound given)
      unfold waiter subscribe
      split
      · exact .inl rfl
      · exact .inl rfl
    · obtain rfl := Multiset.mem_singleton.mp last
      have earlier : Bound reaction.derived given :=
        bound.resolve_right fun new => absurd new.1 (Nat.ne_of_lt derived)
      obtain restores | ⟨-, rfl⟩ := transparent.settlers _ member given earlier
      · rw [handler] at restores
        cases restores
      · exact .inr ⟨_, rfl, .inr ⟨rfl, rfl, earlier⟩⟩
  · intro added new
    obtain rfl | last := Multiset.mem_cons.mp new
    · exact .inl (target_subscribe ..)
    · obtain rfl := Multiset.mem_singleton.mp last
      exact .inr ⟨_, Multiset.mem_singleton_self _, rfl, rfl⟩

theorem Transparent.replace (transparent : Transparent Pair Bound ledger)
    (balanced : Balanced log ledger) {gone settler : Settler} {rest : Multiset Settler}
    (due : ledger.settlers = gone ::ₘ rest) (moving : gone.isStored = false)
    (target : settler.target = gone.target)
    (yields : ∀ value, Bound gone.target value → gone.Yields Bound value →
      settler.Yields Bound value) :
    Transparent Pair Bound { ledger with settlers := settler ::ₘ rest } := by
  refine transparent.exchange balanced (due.trans (Multiset.singleton_add _ _).symm)
    (Multiset.singleton_add _ _).symm rfl (Nat.le_refl _) (fun _ _ => id) (fun _ _ => .inl) ?_ ?_
  · intro added new value bound
    obtain rfl := Multiset.mem_singleton.mp new
    rw [target] at bound
    exact yields value bound (transparent.settlers gone (by simp [due]) value bound)
  · intro added new
    obtain rfl := Multiset.mem_singleton.mp new
    exact .inr ⟨gone, Multiset.mem_singleton_self _, moving, target.symm⟩

theorem Transparent.drop (transparent : Transparent Pair Bound ledger)
    (balanced : Balanced log ledger) {gone : Settler} {rest : Multiset Settler}
    (due : ledger.settlers = gone ::ₘ rest) :
    Transparent Pair Bound { ledger with settlers := rest } :=
  transparent.exchange balanced (due.trans (Multiset.singleton_add _ _).symm) (zero_add _).symm rfl
    (Nat.le_refl _) (fun _ _ => id) (fun _ _ => .inl) (by simp) (by simp)

end Ledger

theorem Reaction.Gives.eq_of_restore {reaction : Reaction} {value result saved : Value}
    (gives : reaction.Gives value result)
    (restores : reaction.handler = .restore saved) : result = saved := by
  obtain ⟨kind, handler, derived⟩ := reaction
  obtain rfl : handler = .restore saved := restores
  cases kind <;> exact gives

theorem Reaction.Gives.eq_of_forwards {reaction : Reaction} {value result : Value}
    (gives : reaction.Gives value result) (forwards : reaction.Forwards) :
    result = value := by
  obtain ⟨kind, handler, derived⟩ := reaction
  cases handler with
  | callback callback =>
      cases kind with
      | onThen => exact absurd rfl forwards
      | onCatch => exact gives
      | onFinally => exact gives.elim
  | passThrough => cases kind <;> exact gives
  | restore saved => exact forwards.elim

namespace Ledger

variable {Bound : PromiseId → Value → Prop} {ledger after : Ledger} {log acts : List Act}

theorem Transparent.step (transparent : Transparent (Registered log) Bound ledger)
    (balanced : Balanced log ledger) (step : Step ledger acts after) :
    ∃ Wider, Transparent (Registered (log ++ acts)) Wider after := by
  cases step with
  | idle =>
      rw [List.append_nil]
      exact ⟨Bound, transparent⟩
  | hold final =>
      rw [registered_append (by simp)]
      exact ⟨Bound, transparent.hold final rfl rfl rfl⟩
  | register kind arguments known => exact transparent.register balanced kind arguments known
  | restore kind handler known due =>
      rw [List.append_nil]
      exact transparent.restore balanced handler due
  | called kind handler result due =>
      -- A then with a callback is bound to no value.
      rw [List.append_nil]
      refine ⟨Bound, transparent.replace balanced due rfl rfl fun value _ yields => ?_⟩
      obtain restores | ⟨forwards, -⟩ := yields
      · rw [handler] at restores
        cases restores
      · simp [Reaction.Forwards, handler, kind] at forwards
  | result gives due =>
      rw [List.append_nil]
      refine ⟨Bound, transparent.replace balanced due rfl rfl fun value _ yields => .inl ?_⟩
      obtain restores | ⟨forwards, rfl⟩ := yields
      · exact gives.eq_of_restore restores
      · exact gives.eq_of_forwards forwards
  | settleSelf due =>
      rw [registered_append (by simp)]
      exact ⟨Bound, transparent.drop balanced due⟩
  | settleFollow different due =>
      rw [registered_append (by simp)]
      refine ⟨Bound, transparent.replace balanced due rfl rfl fun value bound yields => ?_⟩
      obtain rfl | ⟨other, same, onward⟩ := yields
      · exact (transparent.final _ _ bound).elim
      · cases same
        exact onward
  | fulfill final pending due =>
      rw [registered_append (by simp)]
      exact ⟨_, transparent.fulfill final pending due rfl rfl rfl⟩
  | ignored final settled due =>
      rw [registered_append (by simp)]
      exact ⟨Bound, transparent.drop balanced due⟩
  | @follow promise other rest known due =>
      rw [List.append_nil]
      refine ⟨Bound, transparent.replace balanced due rfl (target_subscribe ..)
        fun value _ bound => ?_⟩
      cases found : ledger.value? other with
      | none =>
          simp only [subscribe, found]
          exact .inr ⟨rfl, bound⟩
      | some held =>
          simp only [subscribe, found]
          exact .inr ⟨trivial, transparent.held other value held bound found⟩

theorem Reached.transparent (reached : Reached log ledger) :
    ∃ Bound, Transparent (Registered log) Bound ledger := by
  induction reached with
  | initial =>
      refine ⟨fun _ _ => False, ?_⟩
      constructor <;> simp [Registered]
  | step reached step ih =>
      obtain ⟨Bound, transparent⟩ := ih
      exact transparent.step reached.balanced step

theorem Reached.value?_source (reached : Reached log ledger) {source derived : PromiseId}
    (registered : Registered log source derived) {value : Value}
    (fulfilled : ledger.value? derived = some value) : ledger.value? source = some value := by
  obtain ⟨Bound, transparent⟩ := reached.transparent
  cases found : ledger.value? source with
  | none =>
      rw [(transparent.waiting source derived registered found).1] at fulfilled
      cases fulfilled
  | some given =>
      have bound := transparent.passed source derived given registered found
      rw [transparent.held derived given value bound fulfilled]

end Ledger

end EventLoop
