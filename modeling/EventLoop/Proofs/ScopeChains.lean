import EventLoop.Proofs.WellFormed

set_option autoImplicit false

/-!
# Assignment along chains of scopes

A name is searched from a scope outwards.
-/

namespace EventLoop

namespace Scopes

/-- The arenas that come of creating scopes, declaring and assigning, with numbers of scopes that
are there. -/
inductive Reachable : Scopes → Prop where
  | initial : Reachable .initial
  | create {scopes : Scopes} {outer : ScopeId} (reached : Reachable scopes)
      (known : outer < scopes.size) : Reachable (scopes.create outer).2
  | declare {scopes : Scopes} {scope : ScopeId} (reached : Reachable scopes)
      (known : scope < scopes.size) (name : String) (value : Value) :
      Reachable (scopes.declare scope name value)
  | assign {scopes : Scopes} {scope : ScopeId} (reached : Reachable scopes)
      (known : scope < scopes.size) (name : String) (value : Value) :
      Reachable (scopes.assign scope name value)

inductive Walk (scopes : Scopes) (name : String) : ScopeId → Option (ScopeId × Value) → Prop where
  | bound {scope : ScopeId} {found : Scope} {value : Value}
      (position : scopes.all[scope]? = some found)
      (holds : found.bindings.get? name = some value) : Walk scopes name scope (some (scope, value))
  | outermost {scope : ScopeId} {found : Scope} (position : scopes.all[scope]? = some found)
      (unbound : found.bindings.get? name = none) (last : found.outer = none) :
      Walk scopes name scope none
  | outward {scope outer : ScopeId} {found : Scope} {result : Option (ScopeId × Value)}
      (position : scopes.all[scope]? = some found) (unbound : found.bindings.get? name = none)
      (enclosing : found.outer = some outer) (rest : Walk scopes name outer result) :
      Walk scopes name scope result

theorem Reachable.nested {scopes : Scopes} (reached : scopes.Reachable) : scopes.Nested := by
  induction reached with
  | initial => exact initial_nested
  | create _ known nested => exact nested.create known
  | declare _ _ name value nested => exact nested.declare _ name value
  | assign _ _ name value nested => exact nested.declare _ name value

theorem declare_self {scopes : Scopes} {scope : ScopeId} {found : Scope}
    (position : scopes.all[scope]? = some found) (name : String) (value : Value) :
    (scopes.declare scope name value).all[scope]? =
      some { found with bindings := found.bindings.insert name value } := by
  simp [declare, Array.getElem?_modify, position]

theorem declare_of_ne {scopes : Scopes} {scope other : ScopeId} (different : scope ≠ other)
    (name : String) (value : Value) :
    (scopes.declare scope name value).all[other]? = scopes.all[other]? := by
  simp [declare, Array.getElem?_modify, different]

section Nested

variable {scopes : Scopes} (nested : scopes.Nested)

include nested

theorem Nested.outer_lt {scope outer : ScopeId} {found : Scope}
    (position : scopes.all[scope]? = some found) (enclosing : found.outer = some outer) :
    outer < scope := by
  have inner : scope ≠ Scopes.global := by
    rintro rfl
    obtain ⟨first, same, none⟩ := nested.global
    rw [position] at same
    cases same
    rw [enclosing] at none
    cases none
  obtain ⟨older, same, less⟩ := nested.outer scope found inner position
  rw [enclosing] at same
  cases same
  exact less

theorem Nested.eq_global {scope : ScopeId} {found : Scope}
    (position : scopes.all[scope]? = some found) (last : found.outer = none) :
    scope = Scopes.global := by
  by_contra inner
  obtain ⟨older, same, -⟩ := nested.outer scope found inner position
  rw [last] at same
  cases same

theorem Nested.walk {scope : ScopeId} (known : scope < scopes.size) (name : String) :
    ∃ result, scopes.Walk name scope result := by
  induction scope using Nat.strongRecOn with
  | ind scope ih =>
    have position : scopes.all[scope]? = some scopes.all[scope] := Array.getElem?_eq_getElem known
    cases holds : scopes.all[scope].bindings.get? name with
    | some value => exact ⟨_, .bound position holds⟩
    | none =>
      cases enclosing : scopes.all[scope].outer with
      | none => exact ⟨_, .outermost position holds enclosing⟩
      | some outer =>
        -- Outer scopes are older, so the search is at an end after finitely many of them.
        have less := nested.outer_lt position enclosing
        obtain ⟨result, rest⟩ := ih outer less (Nat.lt_trans less known)
        exact ⟨result, .outward position holds enclosing rest⟩

theorem Walk.resolve?_eq {scope : ScopeId} {name : String} {result : Option (ScopeId × Value)}
    (walk : scopes.Walk name scope result) :
    scopes.resolve? name scope = result.map Prod.fst := by
  induction walk with
  | bound position holds => rw [resolve?]; simp [position, holds]
  | outermost position unbound last => rw [resolve?]; simp [position, unbound, last]
  | outward position unbound enclosing rest ih =>
    have less := nested.outer_lt position enclosing
    rw [resolve?]
    simpa [position, unbound, enclosing, less] using ih

omit nested in
theorem Walk.get?_eq {scope owner : ScopeId} {name : String} {value : Value}
    {result : Option (ScopeId × Value)} (walk : scopes.Walk name scope result)
    (found : result = some (owner, value)) : scopes.get? owner name = some value := by
  induction walk with
  | bound position holds =>
    cases found
    simp [get?, position, holds]
  | outermost position unbound last => cases found
  | outward position unbound enclosing rest ih => exact ih found

theorem Walk.lookup?_eq {scope : ScopeId} {name : String} {result : Option (ScopeId × Value)}
    (walk : scopes.Walk name scope result) :
    scopes.lookup? scope name = result.map Prod.snd := by
  rw [lookup?, walk.resolve?_eq nested]
  cases result with
  | none => rfl
  | some found => exact walk.get?_eq rfl

end Nested

section Declared

variable {scopes : Scopes} {name key : String} {scope other : ScopeId}
variable {result : Option (ScopeId × Value)}

theorem Walk.declare_other (walk : scopes.Walk key other result) (different : name ≠ key)
    (scope : ScopeId) (value : Value) :
    (scopes.declare scope name value).Walk key other result := by
  have kept {index : ScopeId} {found : Scope} (position : scopes.all[index]? = some found) :
      ∃ changed, (scopes.declare scope name value).all[index]? = some changed ∧
        changed.outer = found.outer ∧ changed.bindings.get? key = found.bindings.get? key := by
    by_cases same : scope = index
    next =>
      subst same
      exact ⟨_, declare_self position name value, rfl,
        Bindings.get?_insert_of_ne different value found.bindings⟩
    next => exact ⟨found, (declare_of_ne same name value).trans position, rfl, rfl⟩
  induction walk with
  | bound position holds =>
    obtain ⟨changed, place, -, same⟩ := kept position
    exact .bound place (same.trans holds)
  | outermost position unbound last =>
    obtain ⟨changed, place, outer, same⟩ := kept position
    exact .outermost place (same.trans unbound) (outer.trans last)
  | outward position unbound enclosing rest ih =>
    obtain ⟨changed, place, outer, same⟩ := kept position
    exact .outward place (same.trans unbound) (outer.trans enclosing) ih

theorem Walk.declare_bound (walk : scopes.Walk name other result)
    (bound : (scopes.get? scope name).isSome) (value : Value) :
    (scopes.declare scope name value).Walk name other
      (result.map fun found => (found.1, if found.1 = scope then value else found.2)) := by
  have kept {index : ScopeId} {found : Scope} (position : scopes.all[index]? = some found)
      (unbound : found.bindings.get? name = none) :
      (scopes.declare scope name value).all[index]? = some found := by
    have different : scope ≠ index := by
      rintro rfl
      simp [get?, position, unbound] at bound
    exact (declare_of_ne different name value).trans position
  induction walk with
  | @bound index found held position holds =>
    by_cases same : index = scope
    next =>
      subst same
      have place := declare_self position name value
      simpa using Walk.bound place (Bindings.get?_insert_self name value found.bindings)
    next =>
      have place := (declare_of_ne (Ne.symm same) name value).trans position
      simpa [same] using Walk.bound place holds
  | outermost position unbound last => exact .outermost (kept position unbound) unbound last
  | outward position unbound enclosing rest ih =>
    exact .outward (kept position unbound) unbound enclosing ih

-- Where the global scope is the first to bind the name, it ends the searches that had found
-- nothing. No other search gets that far.
theorem Walk.declare_global (nested : scopes.Nested) (walk : scopes.Walk name other result)
    (free : scopes.get? global name = none) (value : Value) :
    (scopes.declare global name value).Walk name other (result.or (some (global, value))) := by
  have kept {index : ScopeId} {found : Scope} (position : scopes.all[index]? = some found)
      (inner : global ≠ index) :
      (scopes.declare global name value).all[index]? = some found :=
    (declare_of_ne inner name value).trans position
  induction walk with
  | @bound index found held position holds =>
    have inner : global ≠ index := by
      rintro rfl
      simp [get?, position, holds] at free
    exact .bound (kept position inner) holds
  | @outermost index found position unbound last =>
    obtain rfl := nested.eq_global position last
    exact .bound (declare_self position name value) (Bindings.get?_insert_self name value _)
  | outward position unbound enclosing rest ih =>
    have less := nested.outer_lt position enclosing
    exact .outward (kept position (Nat.ne_of_lt (Nat.zero_lt_of_lt less))) unbound enclosing ih

end Declared

section Nested

variable {scopes : Scopes} (nested : scopes.Nested) {scope other : ScopeId} {name : String}

include nested

theorem Nested.get?_global {result : Option (ScopeId × Value)}
    (walk : scopes.Walk name scope result) (nothing : result = none) :
    scopes.get? Scopes.global name = none := by
  induction walk with
  | bound position holds => cases nothing
  | outermost position unbound last =>
    obtain rfl := nested.eq_global position last
    simp [get?, position, unbound]
  | outward position unbound enclosing rest ih => exact ih nothing

-- What is found after an assignment depends on whether the search ends where that of the assignment
-- did.
theorem Nested.lookup?_assign (known : scope < scopes.size) (knownToo : other < scopes.size)
    (value : Value) :
    (scopes.assign scope name value).lookup? other name =
      if scopes.resolve? name other = scopes.resolve? name scope then some value
      else scopes.lookup? other name := by
  obtain ⟨result, walk⟩ := nested.walk known name
  obtain ⟨found, walkToo⟩ := nested.walk knownToo name
  have after (target : ScopeId) := nested.declare target name value
  rw [walk.resolve?_eq nested, walkToo.resolve?_eq nested, walkToo.lookup?_eq nested, assign,
    walk.resolve?_eq nested]
  cases result with
  | none =>
    have ends := walkToo.declare_global nested (nested.get?_global walk rfl) value
    rw [Option.map_none, Option.getD_none, ends.lookup?_eq (after Scopes.global)]
    cases found <;> simp
  | some owned =>
    have bound : (scopes.get? owned.1 name).isSome := by simp [walk.get?_eq rfl]
    have ends := walkToo.declare_bound bound value
    rw [Option.map_some, Option.getD_some, ends.lookup?_eq (after owned.1)]
    cases found with
    | none => simp
    | some held =>
      by_cases same : held.1 = owned.1 <;> simp [same]

theorem Nested.lookup?_assign_of_ne {key : String} (different : name ≠ key) (scope : ScopeId)
    (known : other < scopes.size) (value : Value) :
    (scopes.assign scope name value).lookup? other key = scopes.lookup? other key := by
  obtain ⟨result, walk⟩ := nested.walk known key
  have ends := walk.declare_other different ((scopes.resolve? name scope).getD Scopes.global) value
  rw [walk.lookup?_eq nested, assign, ends.lookup?_eq (nested.declare _ name value)]

theorem Nested.lookup?_eq_none (known : scope < scopes.size) :
    scopes.lookup? scope name = none ↔ scopes.resolve? name scope = none := by
  obtain ⟨result, walk⟩ := nested.walk known name
  rw [walk.lookup?_eq nested, walk.resolve?_eq nested, Option.map_eq_none_iff,
    Option.map_eq_none_iff]

end Nested

/-- Every search ends, and looking up and resolving are that search. After an assignment the name
has the value from the scope where it was assigned. Of all that can be looked up, this changes the
name itself, from the scopes where it was found in the same scope, or, if it was not found, from
those where it was not found either. There it has the new value too. -/
theorem Reachable.assign_exact {scopes : Scopes} (reached : scopes.Reachable) {scope : ScopeId}
    (known : scope < scopes.size) (name : String) (value : Value) :
    (∀ other, other < scopes.size → ∀ key, ∃ result, scopes.Walk key other result ∧
      scopes.lookup? other key = result.map Prod.snd ∧
      scopes.resolve? key other = result.map Prod.fst) ∧
    (scopes.assign scope name value).lookup? scope name = some value ∧
    ∀ other, other < scopes.size → ∀ key,
      let affected : Prop := key = name ∧
        ((∃ owner, scopes.resolve? name scope = some owner ∧
            scopes.resolve? name other = some owner) ∨
          scopes.lookup? scope name = none ∧ scopes.lookup? other name = none)
      (affected → (scopes.assign scope name value).lookup? other key = some value) ∧
      (¬affected → (scopes.assign scope name value).lookup? other key =
        scopes.lookup? other key) := by
  have nested := reached.nested
  have shared {other : ScopeId} (knownToo : other < scopes.size) :
      ((∃ owner, scopes.resolve? name scope = some owner ∧
          scopes.resolve? name other = some owner) ∨
        scopes.lookup? scope name = none ∧ scopes.lookup? other name = none) ↔
      scopes.resolve? name other = scopes.resolve? name scope := by
    rw [nested.lookup?_eq_none known, nested.lookup?_eq_none knownToo]
    cases scopes.resolve? name scope <;> simp
  refine ⟨fun other knownToo key => ?_, ?_, fun other knownToo key => ?_⟩
  next =>
    obtain ⟨result, walk⟩ := nested.walk knownToo key
    exact ⟨result, walk, walk.lookup?_eq nested, walk.resolve?_eq nested⟩
  next =>
    rw [nested.lookup?_assign known known, if_pos rfl]
  next =>
    dsimp only
    rw [shared knownToo]
    by_cases same : key = name
    next =>
      subst same
      rw [nested.lookup?_assign known knownToo]
      constructor
      next => exact fun affected => if_pos affected.2
      next => exact fun unaffected => if_neg fun ends => unaffected ⟨rfl, ends⟩
    next =>
      have kept := nested.lookup?_assign_of_ne (Ne.symm same) scope knownToo value
      exact ⟨fun affected => absurd affected.1 same, fun _ => kept⟩

def shadowed : Scopes :=
  let outer := (initial.declare 0 "x" .null).create 0
  let inner := (outer.2.declare 1 "x" .undefined).create 1
  (inner.2.create 0).2

theorem shadowed_assign :
    (shadowed.assign 2 "x" (.boolean true)).lookup? 2 "x" = some (.boolean true) ∧
    (shadowed.assign 2 "x" (.boolean true)).lookup? 1 "x" = some (.boolean true) ∧
    (shadowed.assign 2 "x" (.boolean true)).lookup? 3 "x" = some .null := by
  have reached : shadowed.Reachable := by
    refine .create (.create (.declare (.create (.declare .initial ?_ _ _) ?_) ?_ _ _) ?_) ?_
    all_goals decide
  have inner : shadowed.Walk "x" 2 (some (1, .undefined)) := .outward rfl rfl rfl (.bound rfl rfl)
  have outer : shadowed.Walk "x" 1 (some (1, .undefined)) := .bound rfl rfl
  have beside : shadowed.Walk "x" 3 (some (0, .null)) := .outward rfl rfl rfl (.bound rfl rfl)
  have nested := reached.nested
  obtain ⟨-, assigned, others⟩ :=
    reached.assign_exact (show 2 < shadowed.size by decide) "x" (.boolean true)
  have sharing := (others 1 (by decide) "x").1
  have apart := (others 3 (by decide) "x").2
  rw [inner.resolve?_eq nested, outer.resolve?_eq nested] at sharing
  rw [inner.resolve?_eq nested, beside.resolve?_eq nested, inner.lookup?_eq nested,
    beside.lookup?_eq nested] at apart
  exact ⟨assigned, sharing (by simp), apart (by simp)⟩

end Scopes

end EventLoop
