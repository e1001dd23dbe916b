import EventLoop.Parsing.Level

set_option autoImplicit false

namespace EventLoop

def arrowAfterGroup (depth : Nat) (cursor : Cursor) : Bool :=
  match step : cursor.next with
  | (token, after) =>
      if last : token.kind.isEnd then false
      else
        have shorter : after.rest.length < cursor.rest.length := by
          have shorter := cursor.length_rest_next
          rw [step] at shorter
          exact shorter (by simpa using last)
        if token.kind.isPunctuator .parenOpen then arrowAfterGroup (depth + 1) after
        else if token.kind.isPunctuator .parenClose then
          if depth ≤ 1 then after.next.1.kind.isPunctuator .arrow
          else arrowAfterGroup (depth - 1) after
        else arrowAfterGroup depth after
termination_by cursor.rest.length

def TokenStream.isAtArrow (stream : TokenStream) : Bool :=
  if stream.isAtIdentifier then stream.peek.kind.isPunctuator .arrow
  else stream.isAt .parenOpen && arrowAfterGroup 1 stream.ahead

namespace Parser

variable {m : Type → Type} [NestedParser m]

def isAtArrow : m Bool := return (← look).isAtArrow

def blockRound (level : Level m) (body : List Statement) :
    m (List Statement ⊕ List Statement) := do
  if ← eat .braceClose then return .inr body.reverse
  if (← look).isAtEnd then fail .unclosedBlock
  return .inl ((← level.statement) :: body)

def blockBody (level : Level m) : m (List Statement) := loop (blockRound level) []

def block (level : Level m) : m (List Statement × Span) := do
  let start ← start
  expect .braceOpen
  let body ← blockBody level
  return (body, ← spanFrom start)

def listRound {α : Type} (item : m α) (items : List α) : m (List α ⊕ List α) := do
  if ← eat .parenClose then return .inr items.reverse
  let items := (← item) :: items
  if ← eat .comma then return .inl items
  expect .parenClose
  return .inr items.reverse

/-- Items in parentheses; a comma may stand after the last. -/
def list {α : Type} (item : m α) : m (List α) := do
  expect .parenOpen
  loop (listRound item) []

def param : m Identifier := do
  unless ← isAtIdentifier do fail .unsupportedParameter
  identifier

def params : m (List Identifier) := list param

def functionName (form : FunctionForm) : m (Option Identifier) := do
  if ← isAtIdentifier then some <$> identifier
  else if form == .declaration then unexpected .functionName
  else return none

def functionRest (level : Level m) (form : FunctionForm) (start : Span) : m FunctionNode := do
  let id ← functionName form
  let params ← params
  let (body, bodySpan) ← block level
  return ⟨form, id, params, .block body bodySpan, ← spanFrom start⟩

def function (level : Level m) (form : FunctionForm) : m FunctionNode := do
  let start ← start
  unless (← look).current.kind.isKeyword .functionWord do unexpected (.keyword .functionWord)
  advance
  functionRest level form start

def arrowParams : m (List Identifier) := do
  if ← isAt .parenOpen then params
  else return [← identifier]

def arrowBody (level : Level m) : m FunctionBody := do
  if ← isAt .braceOpen then
    let (body, bodySpan) ← block level
    return .block body bodySpan
  else .expression <$> level.assignment

def arrowFunction (level : Level m) : m FunctionNode := do
  let start ← start
  let params ← arrowParams
  expect .arrow
  let body ← arrowBody level
  return ⟨.arrow, none, params, body, ← spanFrom start⟩

end Parser

end EventLoop
