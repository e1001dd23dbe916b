import EventLoop.Syntax.Tree

set_option autoImplicit false

/-!
# Nodes of a program

The nodes of a syntax tree in one type, each with the nodes that stand right below it. The nodes of
a program are its statements and all that stands below them.
-/

namespace EventLoop

inductive SyntaxNode where
  | identifier (id : Identifier)
  | expression (expr : Expr)
  | function (node : FunctionNode)
  | declarator (declared : Declarator)
  | statement (stated : Statement)

def FunctionBody.node : FunctionBody → SyntaxNode
  | .block body span => .statement (.block body span)
  | .expression value => .expression value

@[simp] def Expr.children : Expr → List SyntaxNode
  | .literal .. | .unsupported .. => []
  | .identifier id => [.identifier id]
  | .function node => [.function node]
  | .unary _ argument _ => [.expression argument]
  | .binary _ left right _ | .logical _ left right _ => [.expression left, .expression right]
  | .conditional test consequent alternate _ =>
      [.expression test, .expression consequent, .expression alternate]
  | .assignment _ target value _ => [.identifier target, .expression value]
  | .update _ _ target _ => [.identifier target]
  | .sequence items _ => items.map .expression
  | .member object property _ => [.expression object, .identifier property]
  | .call callee arguments _ => .expression callee :: arguments.map .expression

@[simp] def FunctionNode.children (node : FunctionNode) : List SyntaxNode :=
  node.id.toList.map .identifier ++ node.params.map .identifier ++ [node.body.node]

@[simp] def Declarator.children (declarator : Declarator) : List SyntaxNode :=
  .identifier declarator.id :: declarator.init.toList.map .expression

@[simp] def Statement.children : Statement → List SyntaxNode
  | .declaration _ declarators _ => declarators.map .declarator
  | .function node => [.function node]
  | .expression value _ => [.expression value]
  | .returns argument _ => argument.toList.map .expression
  | .block body _ => body.map .statement
  | .empty _ | .unsupported .. => []

namespace SyntaxNode

@[simp] def children : SyntaxNode → List SyntaxNode
  | .identifier _ => []
  | .expression expr => expr.children
  | .function node => node.children
  | .declarator declared => declared.children
  | .statement stated => stated.children

def span : SyntaxNode → Span
  | .identifier id => id.span
  | .expression expr => expr.span
  | .function node => node.span
  | .declarator declared => declared.span
  | .statement stated => stated.span

end SyntaxNode

def Expr.assigns : Expr → Bool
  | .assignment .. | .update .. => true
  | _ => false

inductive Program.HasNode (program : Program) : SyntaxNode → Prop where
  | top {statement : Statement} (member : statement ∈ program.body) :
      HasNode program (.statement statement)
  | child {parent node : SyntaxNode} (above : HasNode program parent)
      (member : node ∈ parent.children) : HasNode program node

end EventLoop
