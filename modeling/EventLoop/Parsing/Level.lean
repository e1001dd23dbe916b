import EventLoop.Parsing.Skip

set_option autoImplicit false

/-!
# Levels of nesting

The grammar is recursive, and its depth is limited. Each depth has a record of parsers, built from
the record of the next depth, so that the recursion is on the depth that is left.
-/

namespace EventLoop

/-- The parsers that are at hand at one depth of nesting. Statements, assignments and unary
operands go one level deeper, and so does each link of a chain until the chain ends. -/
structure Level (m : Type → Type) where
  statement : m Statement
  assignment : m Expr
  unary : m Expr
  -- Carries on a chain of operators, given what stands to the left, the least precedence that
  -- belongs to the chain, and where it starts.
  operators : Expr → Nat → Span → m Expr
  links : Expr → Span → m Expr
  members : m Unit

/-- Parsers that can go deeper: for the rest of a chain, for one parser, or for a chain as a whole,
after which they are as deep as before it. -/
class NestedParser (m : Type → Type) extends TokenParser m where
  descend (deeper : Option (Level m)) : m (Level m)
  nested {α : Type} (deeper : Option (Level m)) (parser : Level m → m α) : m α
  chain {α : Type} (links : m α) : m α

namespace Parser

export NestedParser (descend nested chain)

def below : Option (Level Parser) → Parser (Level Parser)
  | some level => pure level
  | none => fail .tooDeep

instance : NestedParser Parser where
  descend := below
  nested deeper parser := below deeper >>= parser
  chain links := links

end Parser

end EventLoop
