import EventLoop.Parsing.Functions
import EventLoop.Parsing.Operators

set_option autoImplicit false

namespace EventLoop.Parser

variable {m : Type → Type} [NestedParser m]

def sequenceRound (level : Level m) (items : List Expr) : m (List Expr ⊕ List Expr) := do
  if ← eat .comma then return .inl ((← level.assignment) :: items)
  return .inr items.reverse

def expression (level : Level m) : m Expr := do
  let start ← start
  let first ← level.assignment
  if ← isAt .comma then
    let items ← loop (sequenceRound level) [first]
    return .sequence items (← spanFrom start)
  else return first

def argument (assignment : m Expr) : m Expr := do
  let start ← start
  if ← eat .ellipsis then
    discard assignment
    unsupported .spreadElement start
  else assignment

def arguments (assignment : m Expr) : m (List Expr) := list (argument assignment)

def literal (value : Literal) : m Expr := do
  let start ← start
  advance
  return .literal value start

def group (kind : NodeKind) (start : Span) : m Expr := do
  skipGroup
  unsupported kind start

def classHeadRound (_ : Unit) : m (Unit ⊕ Unit) := do
  if ← isAt .braceOpen then return .inr ()
  if (← look).isAtEnd then fail .unclosedClass
  advance
  return .inl ()

def classHead : m Unit := skip .classHead (loop classHeadRound ())

def wordOperand (name : String) : m Expr := do
  let start ← start
  match reservedOperand? name with
  | some .classExpression =>
      classHead
      group .classExpression start
  | some kind =>
      advance
      unsupported kind start
  | none => return .identifier (← identifier)

def functionExpression (level : Level m) : m Expr := do
  let start ← start
  advance
  if ← eat .times then
    discard (functionRest level .expression start)
    unsupported .generatorFunctionExpression start
  else return .function (← functionRest level .expression start)

def parenthesised (level : Level m) : m Expr := do
  advance
  let inner ← expression level
  expect .parenClose
  return inner

def regexp : m Expr := do
  let start ← start
  rescan
  match (← look).current.kind with
  | .unterminated _ => fail .unclosedRegexp
  | _ =>
      advance
      unsupported .regExpLiteral start

def primary (level : Level m) : m Expr := do
  let start ← start
  match (← look).current.kind with
  | .number value => literal (.number value)
  | .string value => literal (.string value)
  | .keyword .trueWord => literal (.boolean true)
  | .keyword .falseWord => literal (.boolean false)
  | .keyword .nullWord => literal .null
  | .identifier name => wordOperand name
  | .keyword .functionWord => functionExpression level
  | .punctuator .parenOpen => parenthesised level
  | .punctuator .bracketOpen => group .arrayExpression start
  | .punctuator .braceOpen => group .objectExpression start
  | .punctuator .slash | .punctuator .slashAssign => regexp
  | .template _ =>
      advance
      unsupported .templateLiteral start
  | _ => unexpected .expression

def membersRound (deeper : Option (Level m)) (_ : Unit) : m (Unit ⊕ Unit) := do
  if ← eat .dot then
    let level ← descend deeper
    discard propertyName
    return .inr (← level.members)
  if ← isAt .bracketOpen then
    skipGroup
    return .inl ()
  return .inr ()

def members (deeper : Option (Level m)) : m Unit := loop (membersRound deeper) ()

def optionalLink (assignment : m Expr) : m Unit := do
  if ← isAt .parenOpen then discard (arguments assignment)
  else if ← isAt .bracketOpen then skipGroup
  else discard propertyName

def linksRound (deeper : Option (Level m)) (assignment : m Expr) (start : Span) (operand : Expr) :
    m (Expr ⊕ Expr) := do
  match (← look).current.kind with
  | .punctuator .dot =>
      let level ← descend deeper
      advance
      let property ← propertyName
      return .inr (← level.links (.member operand property (← spanFrom start)) start)
  | .punctuator .parenOpen =>
      let level ← descend deeper
      let arguments ← arguments level.assignment
      return .inr (← level.links (.call operand arguments (← spanFrom start)) start)
  | .punctuator .optionalChain =>
      advance
      optionalLink assignment
      return .inl (← unsupported .chainExpression start)
  | .punctuator .bracketOpen => return .inl (← group .memberExpression start)
  | .template _ =>
      advance
      return .inl (← unsupported .taggedTemplateExpression start)
  | _ => return .inr operand

def links (deeper : Option (Level m)) (assignment : m Expr) (operand : Expr) (start : Span) :
    m Expr :=
  loop (linksRound deeper assignment start) operand

def leftHandSide (level : Level m) : m Expr := do
  let start ← start
  let operand ← do
    if (← look).current.kind.isKeyword .newWord then
      advance
      discard (primary level)
      chain level.members
      if ← isAt .parenOpen then discard (arguments level.assignment)
      unsupported .newExpression start
    else primary level
  chain (level.links operand start)

def update (op : UpdateOp) (order : UpdateOrder) (argument : Expr) (start : Span) :
    m Expr := do
  match argument with
  | .identifier target => return .update op order target (← spanFrom start)
  | _ => unsupported .updateExpression start

def postfixed (level : Level m) (start : Span) : m Expr := do
  let operand ← leftHandSide level
  let stream ← look
  match UpdateOp.ofToken? stream.current.kind with
  | some op =>
      if stream.current.newlineBefore then return operand
      advance
      update op .readFirst operand start
  | none => return operand

def unary (level : Level m) : m Expr := do
  let start ← start
  let kind := (← look).current.kind
  match UnaryOp.ofToken? kind, UpdateOp.ofToken? kind with
  | some op, _ =>
      advance
      let argument ← level.unary
      return .unary op argument (← spanFrom start)
  | none, some op =>
      advance
      update op .updateFirst (← level.unary) start
  | none, none =>
      if kind.isKeyword .awaitWord then
        advance
        discard level.unary
        unsupported .awaitExpression start
      else postfixed level start

def binary (level : Level m) (minimum : Nat) : m Expr := do
  let start ← start
  let left ← level.unary
  chain (level.operators left minimum start)

def operators (deeper : Option (Level m)) (left : Expr) (minimum : Nat) (start : Span) :
    m Expr := do
  match Operator.ofToken? (← look).current.kind with
  | none => return left
  | some op =>
      if op.precedence < minimum then return left
      let level ← descend deeper
      advance
      let right ← binary level op.rightMinimum
      level.operators (op.apply left right (← spanFrom start)) minimum start

end EventLoop.Parser
