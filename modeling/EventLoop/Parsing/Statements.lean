import EventLoop.Parsing.Operands

set_option autoImplicit false

namespace EventLoop.Parser

variable {m : Type → Type} [NestedParser m]

def conditionalTail (level : Level m) (test : Expr) (start : Span) : m Expr := do
  if ← eat .question then
    let consequent ← level.assignment
    expect .colon
    let alternate ← level.assignment
    return .conditional test consequent alternate (← spanFrom start)
  else return test

def assignmentTail (level : Level m) (left : Expr) (start : Span) : m Expr := do
  match AssignOp.ofToken? (← look).current.kind with
  | none => return left
  | some op =>
      advance
      let value ← level.assignment
      match left with
      | .identifier target => return .assignment op target value (← spanFrom start)
      | _ => unsupported .assignmentExpression start

def tails (level : Level m) (test : Expr) (start : Span) : m Expr := do
  assignmentTail level (← conditionalTail level test start) start

def asyncExpression (level : Level m) (start : Span) : m Expr := do
  advance
  let stream ← look
  if stream.current.kind.isKeyword .functionWord then
    discard (function level .expression)
    unsupported .asyncFunctionExpression start
  else if stream.isAtArrow then
    discard (arrowFunction level)
    unsupported .asyncArrowFunctionExpression start
  else
    let name := Expr.identifier ⟨Keyword.asyncWord.text, stream.spanFrom start⟩
    let operand ← chain (level.links name start)
    let left ← chain (level.operators operand 0 start)
    tails level left start

def assignment (level : Level m) : m Expr := do
  let stream ← look
  let start := stream.current.span
  if stream.isAtArrow then return .function (← arrowFunction level)
  else if stream.current.kind.isKeyword .asyncWord then asyncExpression level start
  else tails level (← binary level 0) start

def declarator (level : Level m) : m Declarator := do
  let start ← start
  let id ← identifier
  let init ← do
    if ← eat .assign then some <$> level.assignment
    else pure none
  return ⟨id, init, ← spanFrom start⟩

def declaratorsRound (level : Level m) (declarators : List Declarator) :
    m (List Declarator ⊕ List Declarator) := do
  let declarators := (← declarator level) :: declarators
  if ← eat .comma then return .inl declarators
  return .inr declarators.reverse

def declarators (level : Level m) : m (List Declarator) := loop (declaratorsRound level) []

def variableDeclaration (level : Level m) (kind : VariableKind) : m Statement := do
  let start ← start
  advance
  if (← isAt .braceOpen) || (← isAt .bracketOpen) then skipStatement .variableDeclaration start
  else
    let declarators ← declarators level
    endStatement
    return .declaration kind declarators (← spanFrom start)

def returnArgument (level : Level m) : m (Option Expr) := do
  let stream ← look
  if stream.isAt .semicolon || stream.isAt .braceClose || stream.isAtEnd ||
      stream.current.newlineBefore then return none
  else some <$> expression level

def returns (level : Level m) : m Statement := do
  let start ← start
  advance
  let argument ← returnArgument level
  endStatement
  return .returns argument (← spanFrom start)

def expressionStatement (level : Level m) : m Statement := do
  let start ← start
  let value ← expression level
  endStatement
  return .expression value (← spanFrom start)

def plainStatement (level : Level m) : m Statement := do
  let stream ← look
  let start := stream.current.span
  match stream.current.kind with
  | .keyword .varWord => variableDeclaration level .varKind
  | .keyword .letWord => variableDeclaration level .letKind
  | .keyword .constWord => variableDeclaration level .constKind
  | .keyword .functionWord =>
      if stream.peek.kind.isPunctuator .times then
        skipStatement .generatorFunctionDeclaration start
      else return .function (← function level .declaration)
  | .keyword .asyncWord =>
      if stream.peek.kind.isKeyword .functionWord then
        skipStatement .asyncFunctionDeclaration start
      else expressionStatement level
  | .keyword .returnWord => returns level
  | .punctuator .braceOpen =>
      let (body, span) ← block level
      return .block body span
  | .punctuator .semicolon =>
      advance
      return .empty start
  | _ => expressionStatement level

/-- An import with a parenthesis is an expression, every other skipped word starts a statement of
its own. A name before a colon is a label. -/
def statement (level : Level m) : m Statement := do
  let stream ← look
  let start := stream.current.span
  match stream.word?.bind skippedStatement? with
  | some kind =>
      if kind == .importDeclaration && stream.peek.kind.isPunctuator .parenOpen then
        plainStatement level
      else skipStatement kind start
  | none =>
      if stream.isAtIdentifier && stream.peek.kind.isPunctuator .colon then
        skipStatement .labeledStatement start
      else plainStatement level

end EventLoop.Parser
