import EventLoop.Source.Position
import EventLoop.Syntax.NodeKind
import EventLoop.Syntax.Operator

set_option autoImplicit false

/-!
# Syntax trees

Expressions, functions and statements with their spans. What is read but never run is kept as a node
of its own kind.
-/

namespace EventLoop

structure Identifier where
  name : String
  span : Span
deriving DecidableEq, Repr, Inhabited

inductive Literal where
  | null
  | boolean (value : Bool)
  | number (value : Float)
  | string (value : String)
deriving Repr, Inhabited

inductive FunctionForm where
  | declaration
  | expression
  | arrow
deriving DecidableEq, Repr, Inhabited

mutual

inductive Expr where
  | literal (value : Literal) (span : Span)
  | identifier (id : Identifier)
  | function (node : FunctionNode)
  | unary (op : UnaryOp) (argument : Expr) (span : Span)
  | binary (op : BinaryOp) (left right : Expr) (span : Span)
  | logical (op : LogicalOp) (left right : Expr) (span : Span)
  | conditional (test consequent alternate : Expr) (span : Span)
  | assignment (op : AssignOp) (target : Identifier) (value : Expr) (span : Span)
  | update (op : UpdateOp) (order : UpdateOrder) (target : Identifier) (span : Span)
  | sequence (items : List Expr) (span : Span)
  | member (object : Expr) (property : Identifier) (span : Span)
  | call (callee : Expr) (arguments : List Expr) (span : Span)
  -- A form that is read and reported, but not run.
  | unsupported (kind : NodeKind) (span : Span)
deriving Repr

inductive FunctionBody where
  | block (body : List Statement) (span : Span)
  | expression (value : Expr)
deriving Repr

structure FunctionNode where
  form : FunctionForm
  id : Option Identifier
  params : List Identifier
  body : FunctionBody
  span : Span
deriving Repr

structure Declarator where
  id : Identifier
  init : Option Expr
  span : Span
deriving Repr

inductive Statement where
  | declaration (kind : VariableKind) (declarators : List Declarator) (span : Span)
  | function (node : FunctionNode)
  | expression (value : Expr) (span : Span)
  | returns (argument : Option Expr) (span : Span)
  | block (body : List Statement) (span : Span)
  | empty (span : Span)
  | unsupported (kind : NodeKind) (span : Span)
deriving Repr

end

structure Program where
  body : List Statement
  span : Span
deriving Repr

instance : Inhabited Expr := ⟨.unsupported default default⟩

structure NodeRef where
  kind : NodeKind
  span : Span
deriving DecidableEq, Repr, Inhabited

def FunctionNode.kind (node : FunctionNode) : NodeKind :=
  match node.form with
  | .declaration => .functionDeclaration
  | .expression => .functionExpression
  | .arrow => .arrowFunctionExpression

def FunctionNode.ref (node : FunctionNode) : NodeRef := ⟨node.kind, node.span⟩

namespace Expr

def kind : Expr → NodeKind
  | .literal .. => .literal
  | .identifier .. => .identifier
  | .function node => node.kind
  | .unary .. => .unaryExpression
  | .binary .. => .binaryExpression
  | .logical .. => .logicalExpression
  | .conditional .. => .conditionalExpression
  | .assignment .. => .assignmentExpression
  | .update .. => .updateExpression
  | .sequence .. => .sequenceExpression
  | .member .. => .memberExpression
  | .call .. => .callExpression
  | .unsupported kind _ => kind

def span : Expr → Span
  | .identifier id => id.span
  | .function node => node.span
  | .literal _ span | .unary _ _ span | .binary _ _ _ span | .logical _ _ _ span
  | .conditional _ _ _ span | .assignment _ _ _ span | .update _ _ _ span | .sequence _ span
  | .member _ _ span | .call _ _ span | .unsupported _ span => span

def dottedName? : Expr → Option String
  | .identifier id => some id.name
  | .member object property _ => object.dottedName?.map (· ++ "." ++ property.name)
  | _ => none

def calleeName (callee : Expr) : String :=
  callee.dottedName?.getD ("<" ++ callee.kind.name ++ ">")

end Expr

namespace Statement

def kind : Statement → NodeKind
  | .declaration .. => .variableDeclaration
  | .function .. => .functionDeclaration
  | .expression .. => .expressionStatement
  | .returns .. => .returnStatement
  | .block .. => .blockStatement
  | .empty .. => .emptyStatement
  | .unsupported kind _ => kind

def span : Statement → Span
  | .function node => node.span
  | .declaration _ _ span | .expression _ span | .returns _ span | .block _ span | .empty span
  | .unsupported _ span => span

end Statement

end EventLoop
