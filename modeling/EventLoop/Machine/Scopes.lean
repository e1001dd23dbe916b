import EventLoop.Value.Basic

set_option autoImplicit false

namespace EventLoop

abbrev Bindings := List (String × Value)

namespace Bindings

def get? (name : String) : Bindings → Option Value
  | [] => none
  | (key, value) :: rest => if key == name then some value else get? name rest

def insert (name : String) (value : Value) : Bindings → Bindings
  | [] => [(name, value)]
  | (key, old) :: rest =>
      if key == name then (name, value) :: rest else (key, old) :: insert name value rest

@[simp] theorem get?_insert_self (name : String) (value : Value) (bindings : Bindings) :
    (bindings.insert name value).get? name = some value := by
  induction bindings with
  | nil => simp [insert, get?]
  | cons binding rest ih =>
      by_cases same : binding.1 = name <;> simp [insert, get?, same, ih]

theorem get?_insert_of_ne {name other : String} (different : name ≠ other) (value : Value)
    (bindings : Bindings) : (bindings.insert name value).get? other = bindings.get? other := by
  induction bindings with
  | nil => simp [insert, get?, different]
  | cons binding rest ih =>
      by_cases same : binding.1 = name
      next =>
        subst same
        simp [insert, get?, different]
      next => simp [insert, get?, same, ih]

end Bindings

structure Scope where
  bindings : Bindings
  -- The enclosing scope; only the global one has none.
  outer : Option ScopeId
deriving Repr, Inhabited

structure Scopes where
  all : Array Scope
deriving Repr, Inhabited

namespace Scopes

def initial : Scopes := ⟨#[⟨[], none⟩]⟩

def global : ScopeId := 0

def size (scopes : Scopes) : Nat := scopes.all.size

def create (scopes : Scopes) (outer : ScopeId) : ScopeId × Scopes :=
  (scopes.size, ⟨scopes.all.push ⟨[], some outer⟩⟩)

def declare (scopes : Scopes) (scope : ScopeId) (name : String) (value : Value) : Scopes :=
  ⟨scopes.all.modify scope fun found =>
    { found with bindings := found.bindings.insert name value }⟩

/-- The nearest scope that binds a name. An enclosing scope is older than what it encloses, so the
search goes down in number. -/
def resolve? (scopes : Scopes) (name : String) (scope : ScopeId) : Option ScopeId :=
  match scopes.all[scope]? with
  | none => none
  | some found =>
      if (found.bindings.get? name).isSome then some scope
      else match found.outer with
        | none => none
        | some outer => if outer < scope then resolve? scopes name outer else none
termination_by scope

def get? (scopes : Scopes) (scope : ScopeId) (name : String) : Option Value :=
  scopes.all[scope]?.bind (·.bindings.get? name)

def lookup? (scopes : Scopes) (scope : ScopeId) (name : String) : Option Value :=
  (scopes.resolve? name scope).bind (scopes.get? · name)

/-- Binds a name anew in the nearest scope that binds it, and in the global one if none does. -/
def assign (scopes : Scopes) (scope : ScopeId) (name : String) (value : Value) : Scopes :=
  scopes.declare ((scopes.resolve? name scope).getD global) name value

end Scopes

end EventLoop
