import EventLoop.Parsing.Statements

set_option autoImplicit false

namespace EventLoop

namespace Level

variable {m : Type → Type} [NestedParser m]

def ofDeeper (deeper : Option (Level m)) : Level m :=
  let assignment := Parser.nested deeper Parser.assignment
  { statement := Parser.nested deeper Parser.statement
    assignment := assignment
    unary := Parser.nested deeper Parser.unary
    operators := Parser.operators deeper
    links := Parser.links deeper assignment
    members := Parser.members deeper }

def above : Nat → Level m
  | 0 => ofDeeper none
  | depth + 1 => ofDeeper (some (above depth))

end Level

def maxNesting : Nat := 128

namespace Parser

variable {m : Type → Type} [NestedParser m]

def programRound (level : Level m) (body : List Statement) :
    m (List Statement ⊕ List Statement) := do
  if (← look).isAtEnd then return .inr body.reverse
  return .inl ((← level.statement) :: body)

def program : m Program := do
  let body ← loop (programRound (Level.above maxNesting)) []
  return ⟨body, ⟨0, (← look).current.span.stop, 1, 1⟩⟩

end Parser

def Program.parse (source : String) : Except SyntaxError Program :=
  (Parser.program : Parser Program).run' (.ofText source)

end EventLoop
