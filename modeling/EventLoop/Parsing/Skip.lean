import EventLoop.Parsing.Words

set_option autoImplicit false

/-!
# Skipped parts of a program

Statements and groups outside the language that is run are read for their brackets only.
-/

namespace EventLoop

def NodeKind.hasBlock : NodeKind → Bool
  | .variableDeclaration | .throwStatement | .importDeclaration | .breakStatement
  | .continueStatement | .debuggerStatement => false
  | _ => true

def TokenKind.endsExpression : TokenKind → Bool
  | .identifier _ | .number _ | .string _ | .template _ | .regexp .. => true
  | .keyword .trueWord | .keyword .falseWord | .keyword .nullWord => true
  | .punctuator .bracketClose | .punctuator .increment | .punctuator .decrement => true
  | _ => false

def NodeKind.continuedBy (kind : NodeKind) (word : String) : Bool :=
  word == "else" || word == "catch" || word == "finally" ||
    (word == "while" && kind == .doWhileStatement)

namespace Parser

variable {m : Type → Type} [TokenParser m]

def skipToken (kind : NodeKind) (depth : Nat) (boundary : Bool) :
    m ((Nat × Bool) ⊕ Unit) := do
  advance
  let stream ← look
  if boundary && !stream.word?.any kind.continuedBy then return .inr ()
  else return .inl (depth, true)

def skipRound (kind : NodeKind) (state : Nat × Bool) : m ((Nat × Bool) ⊕ Unit) := do
  let (depth, consumed) := state
  let stream ← look
  if depth == 0 && consumed && stream.current.newlineBefore &&
      stream.previousKind.endsExpression then
    return .inr ()
  match stream.current.kind with
  | .endOfInput => if depth == 0 then return .inr () else fail .unclosedStatement
  | .invalid _ | .unterminated _ => unexpected .statement
  | .punctuator punctuator =>
      if punctuator.isOpening then skipToken kind (depth + 1) false
      else if punctuator.isClosing then
        match depth with
        | 0 => if punctuator == .braceClose then return .inr () else unexpected .statement
        | depth + 1 =>
            skipToken kind depth (depth == 0 && kind.hasBlock && punctuator == .braceClose)
      else skipToken kind depth (depth == 0 && punctuator == .semicolon)
  | _ => skipToken kind depth false

/-- Reads a statement that is not run, keeping brackets balanced. It ends at a semicolon or a
closing brace outside all brackets, at a line break after an expression, or after its last block. -/
def skipStatement (kind : NodeKind) (start : Span) : m Statement := do
  skip .statement (loop (skipRound kind) (0, false))
  return .unsupported kind (← spanFrom start)

def skipGroupRound (depth : Nat) : m (Nat ⊕ Unit) := do
  let stream ← look
  match stream.current.kind with
  | .endOfInput => fail .unclosedGroup
  | .invalid _ | .unterminated _ => unexpected .expression
  | .punctuator punctuator =>
      advance
      if punctuator.isOpening then return .inl (depth + 1)
      else if punctuator.isClosing then
        if depth ≤ 1 then return .inr () else return .inl (depth - 1)
      else return .inl depth
  | _ =>
      advance
      return .inl depth

def skipGroup : m Unit := skip .group (loop skipGroupRound 0)

end Parser

end EventLoop
