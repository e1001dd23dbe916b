import EventLoop.Proofs.Hosts

set_option autoImplicit false

/-!
# Values in bounds

Scopes and promises are known by number. The extent of a machine says how many of them it has; a
value is within an extent if every number in it is.
-/

namespace EventLoop

structure Extent where
  scopes : Nat
  promises : Nat

instance : Preorder Extent where
  le early late := early.scopes ≤ late.scopes ∧ early.promises ≤ late.promises
  le_refl _ := ⟨Nat.le_refl _, Nat.le_refl _⟩
  le_trans _ _ _ first second :=
    ⟨Nat.le_trans first.1 second.1, Nat.le_trans first.2 second.2⟩

def Value.Within (extent : Extent) : Value → Prop
  | .function callable => callable.scope < extent.scopes
  | .promise id | .builtin (.promiseMethod _ id) => id < extent.promises
  | _ => True

def Value.Callback (extent : Extent) (value : Value) : Prop :=
  value.isCallable = true ∧ value.Within extent

def Value.Held (extent : Extent) (value : Value) : Prop := value.Final ∧ value.Within extent

def Sorts.within : Sorts Extent where
  Good := fun extent value => value.Within extent
  Held := fun extent value => value.Held extent
  Callback := fun extent value => value.Callback extent

abbrev Handler.Within (extent : Extent) (handler : Handler) : Prop := handler.Fits .within extent

abbrev Reaction.Within (extent : Extent) (reaction : Reaction) : Prop :=
    reaction.Fits .within extent

def PromiseState.Within (extent : Extent) : PromiseState → Prop
  | .pending reactions => ∀ reaction ∈ reactions, reaction.Within extent
  | .fulfilled value => value.Held extent

abbrev Job.Within (extent : Extent) (job : Job) : Prop := job.Fits .within extent

abbrev Task.Within (extent : Extent) (task : Task) : Prop := task.Fits .within extent

def Scopes.All (Good : Value → Prop) (scopes : Scopes) : Prop :=
  ∀ (index : ScopeId) (scope : Scope), scopes.all[index]? = some scope →
    ∀ (name : String) (value : Value), (name, value) ∈ scope.bindings → Good value

def Scopes.Within (extent : Extent) (scopes : Scopes) : Prop :=
  ∀ (index : ScopeId) (scope : Scope), scopes.all[index]? = some scope →
    ∀ (name : String) (value : Value), (name, value) ∈ scope.bindings → value.Within extent

def Machine.extent (machine : Machine) : Extent := ⟨machine.scopes.size, machine.promises.size⟩

theorem PromiseState.state_record (state : PromiseState) : state.record.state = state := by
  cases state <;> rfl

/-- A pending promise has no value yet, and a fulfilled one no reactions any more. -/
def PromiseRecord.Tidy (record : PromiseRecord) : Prop := record.state.record = record

theorem PromiseState.tidy_record (state : PromiseState) : state.record.Tidy :=
  congrArg PromiseState.record state.state_record

theorem PromiseRecord.Tidy.reactions {record : PromiseRecord} (tidy : record.Tidy)
    (fulfilled : record.status = .fulfilled) : record.reactions = [] := by
  have stored := congrArg PromiseRecord.reactions tidy
  rw [PromiseRecord.state, fulfilled] at stored
  exact stored.symm

def Promises.Tidy (promises : Promises) : Prop :=
  ∀ (id : PromiseId) (record : PromiseRecord), promises.records[id]? = some record → record.Tidy

structure Machine.Sound (machine : Machine) : Prop where
  scopes : machine.scopes.Within machine.extent
  tasks : ∀ task ∈ machine.tasks.tasks, task.Within machine.extent
  microtasks : ∀ microtask ∈ machine.microtasks.microtasks, microtask.job.Within machine.extent
  promises : ∀ id state, machine.promises.get? id = some state → state.Within machine.extent
  tidy : machine.promises.Tidy

section Growth

variable {extent later : Extent} (grown : extent ≤ later)

include grown

theorem Value.Within.grow {value : Value} (within : value.Within extent) : value.Within later := by
  cases value with
  | function callable => exact Nat.lt_of_lt_of_le within grown.1
  | promise id => exact Nat.lt_of_lt_of_le within grown.2
  | builtin builtin =>
      cases builtin with
      | promiseMethod kind id => exact Nat.lt_of_lt_of_le within grown.2
      | _ => trivial
  | _ => trivial

theorem Value.Callback.grow {value : Value} (callback : value.Callback extent) :
    value.Callback later := ⟨callback.1, callback.2.grow grown⟩

theorem Value.Held.grow {value : Value} (held : value.Held extent) : value.Held later :=
  ⟨held.1, held.2.grow grown⟩

theorem Reaction.Fits.grow {reaction : Reaction} (within : reaction.Within extent) :
    reaction.Within later := by
  refine ⟨?_, Nat.lt_of_lt_of_le within.derived grown.2⟩
  have handler := within.handler
  cases same : reaction.handler with
  | callback callback =>
      rw [same] at handler
      exact Value.Callback.grow grown handler
  | passThrough => trivial
  | restore saved =>
      rw [same] at handler
      exact Value.Held.grow grown handler

theorem PromiseState.Within.grow {state : PromiseState} (within : state.Within extent) :
    state.Within later := by
  cases state with
  | pending reactions => exact fun reaction member => (within reaction member).grow grown
  | fulfilled value => exact Value.Held.grow grown within

theorem Job.Fits.grow {job : Job} (within : job.Within extent) : job.Within later := by
  cases job with
  | callback callback => exact Value.Callback.grow grown within
  | reaction reaction value => exact ⟨within.1.grow grown, within.2.grow grown⟩
  | follow promise other =>
      exact ⟨Nat.lt_of_lt_of_le within.1 grown.2, Nat.lt_of_lt_of_le within.2 grown.2⟩

theorem Task.Fits.grow {task : Task} (within : task.Within extent) : task.Within later :=
  ⟨within.callback.grow grown, fun argument member => (within.arguments argument member).grow grown⟩

theorem Scopes.Within.grow {scopes : Scopes} (within : scopes.Within extent) :
    scopes.Within later := by
  intro index scope found name value member
  exact (within index scope found name value member).grow grown

end Growth

theorem Value.Plain.within {value : Value} (plain : value.Plain) (extent : Extent) :
    value.Within extent := by
  cases value with
  | function callable => exact plain.elim
  | promise id => exact plain.elim
  | builtin builtin =>
      cases builtin with
      | promiseMethod kind id => exact plain.elim
      | _ => trivial
  | _ => trivial

namespace Bindings

theorem mem_of_get? {bindings : Bindings} {name : String} {value : Value}
    (found : bindings.get? name = some value) : (name, value) ∈ bindings := by
  induction bindings with
  | nil => simp [get?] at found
  | cons binding rest ih =>
      obtain ⟨key, old⟩ := binding
      by_cases same : key = name
      · simp_all [get?]
      · simp_all [get?]

theorem mem_insert {bindings : Bindings} {name key : String} {value found : Value}
    (member : (key, found) ∈ bindings.insert name value) :
    (key, found) = (name, value) ∨ (key, found) ∈ bindings := by
  induction bindings with
  | nil => simpa [insert] using member
  | cons binding rest ih =>
      obtain ⟨other, old⟩ := binding
      by_cases same : other = name
      · simp_all [insert]
        grind
      · simp_all [insert]
        grind

end Bindings

namespace Scopes

variable {scopes : Scopes} {Good : Value → Prop} {extent : Extent}

@[simp]
theorem size_declare (scope : ScopeId) (name : String) (value : Value) :
    (scopes.declare scope name value).size = scopes.size := by
  simp [declare, size]

@[simp]
theorem size_assign (scope : ScopeId) (name : String) (value : Value) :
    (scopes.assign scope name value).size = scopes.size := by
  simp [assign]

@[simp]
theorem size_create (outer : ScopeId) : (scopes.create outer).2.size = scopes.size + 1 := by
  simp [create, size]

theorem All.declare (all : scopes.All Good) (scope : ScopeId) (name : String) {value : Value}
    (good : Good value) : (scopes.declare scope name value).All Good := by
  intro index found position key stored member
  simp only [Scopes.declare, Array.getElem?_modify] at position
  split at position
  next =>
    obtain ⟨old, earlier, rfl⟩ := Option.map_eq_some_iff.mp position
    obtain same | older := Bindings.mem_insert member
    next =>
      cases same
      exact good
    next => exact all index old earlier key stored older
  next => exact all index found position key stored member

theorem All.create (all : scopes.All Good) (outer : ScopeId) :
    (scopes.create outer).2.All Good := by
  intro index found position key stored member
  simp only [Scopes.create, Array.getElem?_push] at position
  split at position
  next =>
    cases position
    simp at member
  next => exact all index found position key stored member

theorem All.lookup? (all : scopes.All Good) {scope : ScopeId} {name : String} {value : Value}
    (found : scopes.lookup? scope name = some value) : Good value := by
  obtain ⟨owner, -, bound⟩ := Option.bind_eq_some_iff.mp found
  obtain ⟨holder, position, stored⟩ := Option.bind_eq_some_iff.mp bound
  exact all owner holder position name value (Bindings.mem_of_get? stored)

theorem initial_all : Scopes.initial.All Good := by
  intro index scope found name value member
  have bound := (Array.getElem?_eq_some_iff.mp found).1
  obtain rfl : index = 0 := by simpa [Scopes.initial] using bound
  obtain rfl : ⟨[], none⟩ = scope := by simpa [Scopes.initial] using found
  simp at member

theorem Within.declare (within : scopes.Within extent) (scope : ScopeId) (name : String)
    {value : Value} (fits : value.Within extent) :
    (scopes.declare scope name value).Within extent :=
  All.declare within scope name fits

theorem Within.assign (within : scopes.Within extent) (scope : ScopeId) (name : String)
    {value : Value} (fits : value.Within extent) : (scopes.assign scope name value).Within extent :=
  within.declare _ name fits

theorem Within.create (within : scopes.Within extent) (outer : ScopeId) :
    (scopes.create outer).2.Within extent :=
  All.create within outer

theorem Within.lookup? (within : scopes.Within extent) {scope : ScopeId} {name : String}
    {value : Value} (found : scopes.lookup? scope name = some value) : value.Within extent :=
  All.lookup? within found

end Scopes

theorem Machine.initial_sound : Machine.initial.Sound := by
  constructor
  · exact Scopes.initial_all
  · simp [Machine.initial, TaskQueue.empty]
  · simp [Machine.initial, MicrotaskQueue.empty]
  · simp [Machine.initial, Promises.initial, Promises.get?]
  · simp [Machine.initial, Promises.initial, Promises.Tidy]

end EventLoop
