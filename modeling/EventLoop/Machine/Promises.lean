import EventLoop.Value.Basic

set_option autoImplicit false

namespace EventLoop

inductive Handler where
  | callback (callback : Value)
  | passThrough
  -- Gives a value that was kept while another promise was waited for.
  | restore (saved : Value)
deriving Repr, Inhabited

structure Reaction where
  kind : ReactionKind
  handler : Handler
  derived : PromiseId
deriving Repr, Inhabited

def Reaction.callback? (reaction : Reaction) : Option Value :=
  match reaction.handler with
  | .callback callback => some callback
  | _ => none

def Reaction.name (reaction : Reaction) : String :=
  reaction.callback?.elim reaction.kind.name Value.callbackName

inductive PromiseStatus where
  | pending
  | fulfilled
deriving Repr, DecidableEq, Inhabited

structure PromiseRecord where
  status : PromiseStatus
  value : Value
  reactions : List Reaction
deriving Repr, Inhabited

/-- A promise is pending, with the reactions that wait for it in order, or it has a value. -/
inductive PromiseState where
  | pending (reactions : List Reaction)
  | fulfilled (value : Value)
deriving Repr, Inhabited

def PromiseRecord.state (record : PromiseRecord) : PromiseState :=
  match record.status with
  | .pending => .pending record.reactions
  | .fulfilled => .fulfilled record.value

def PromiseState.record : PromiseState → PromiseRecord
  | .pending reactions => ⟨.pending, .undefined, reactions⟩
  | .fulfilled value => ⟨.fulfilled, value, []⟩

structure Promises where
  records : Array PromiseRecord
deriving Repr, Inhabited

namespace Promises

def initial : Promises := ⟨#[]⟩

def size (promises : Promises) : Nat := promises.records.size

def all (promises : Promises) : Array PromiseState := promises.records.map PromiseRecord.state

def get? (promises : Promises) (id : PromiseId) : Option PromiseState :=
  promises.records[id]?.map PromiseRecord.state

def create (promises : Promises) (state : PromiseState) : PromiseId × Promises :=
  (promises.size, ⟨promises.records.push state.record⟩)

/-- Gives a pending promise its value and releases the reactions that waited for it. A settled
promise stays as it is. -/
def fulfill (promises : Promises) (id : PromiseId) (value : Value) : List Reaction × Promises :=
  match promises.records[id]? with
  | some record =>
      match record.status with
      | .pending =>
          let settled := { record with status := .fulfilled, value := value, reactions := [] }
          (record.reactions, ⟨promises.records.setIfInBounds id settled⟩)
      | .fulfilled => ([], promises)
  | none => ([], promises)

def subscribe (promises : Promises) (id : PromiseId) (reaction : Reaction) :
    Option Value × Promises :=
  match promises.records[id]? with
  | some record =>
      match record.status with
      | .pending =>
          let waited := { record with reactions := record.reactions ++ [reaction] }
          (none, ⟨promises.records.setIfInBounds id waited⟩)
      | .fulfilled => (some record.value, promises)
  | none => (none, promises)

end Promises

end EventLoop
