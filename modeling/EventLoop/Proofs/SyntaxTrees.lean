import EventLoop.Proofs.Sources
import EventLoop.Proofs.Spellings
import EventLoop.Syntax.Tree

set_option autoImplicit false

/-!
# Programs as trees of spans

A program is looked at as a tree whose nodes have a role, a span and children in the order of the
source.
-/

namespace EventLoop

open Text (isLineTerminator IsWord)

inductive NodeRole where
  | statement
  | function
  | declarator
  | identifier (name : String)
  | expression
deriving DecidableEq, Repr

def NodeRole.counts : NodeRole → Bool
  | .statement | .function | .expression => true
  | .declarator | .identifier _ => false

def NodeRole.name? : NodeRole → Option String
  | .identifier name => some name
  | _ => none

inductive SyntaxTree where
  | node (role : NodeRole) (span : Span) (children : List SyntaxTree)

namespace SyntaxTree

def role : SyntaxTree → NodeRole
  | .node role _ _ => role

def span : SyntaxTree → Span
  | .node _ span _ => span

def children : SyntaxTree → List SyntaxTree
  | .node _ _ children => children

@[simp] theorem role_node (role : NodeRole) (span : Span) (children : List SyntaxTree) :
    (node role span children).role = role := rfl

@[simp] theorem span_node (role : NodeRole) (span : Span) (children : List SyntaxTree) :
    (node role span children).span = span := rfl

@[simp] theorem children_node (role : NodeRole) (span : Span) (children : List SyntaxTree) :
    (node role span children).children = children := rfl

inductive Contains : SyntaxTree → SyntaxTree → Prop where
  | self (tree : SyntaxTree) : Contains tree tree
  | child {role : NodeRole} {span : Span} {children : List SyntaxTree} {child tree : SyntaxTree}
      (member : child ∈ children) (inside : child.Contains tree) :
      Contains (.node role span children) tree

end SyntaxTree

def Identifier.tree (id : Identifier) : SyntaxTree := .node (.identifier id.name) id.span []

mutual

def Expr.tree : Expr → SyntaxTree
  | .literal _ span => .node .expression span []
  | .identifier id => .node .expression id.span [id.tree]
  | .function node => .node .expression node.span [node.tree]
  | .unary _ argument span => .node .expression span [argument.tree]
  | .binary _ left right span => .node .expression span [left.tree, right.tree]
  | .logical _ left right span => .node .expression span [left.tree, right.tree]
  | .conditional test consequent alternate span =>
      .node .expression span [test.tree, consequent.tree, alternate.tree]
  | .assignment _ target value span => .node .expression span [target.tree, value.tree]
  | .update _ _ target span => .node .expression span [target.tree]
  | .sequence items span => .node .expression span (exprTrees items)
  | .member object property span => .node .expression span [object.tree, property.tree]
  | .call callee arguments span => .node .expression span (callee.tree :: exprTrees arguments)
  | .unsupported _ span => .node .expression span []

def exprTrees : List Expr → List SyntaxTree
  | [] => []
  | expr :: rest => expr.tree :: exprTrees rest

def FunctionBody.tree : FunctionBody → SyntaxTree
  | .block body span => .node .statement span (statementTrees body)
  | .expression value => value.tree

def FunctionNode.tree : FunctionNode → SyntaxTree
  | ⟨_, id, params, body, span⟩ =>
      .node .function span
        (id.toList.map Identifier.tree ++ (params.map Identifier.tree ++ [body.tree]))

def Declarator.tree : Declarator → SyntaxTree
  | ⟨id, none, span⟩ => .node .declarator span [id.tree]
  | ⟨id, some init, span⟩ => .node .declarator span [id.tree, init.tree]

def declaratorTrees : List Declarator → List SyntaxTree
  | [] => []
  | declarator :: rest => declarator.tree :: declaratorTrees rest

def Statement.tree : Statement → SyntaxTree
  | .declaration _ declarators span => .node .statement span (declaratorTrees declarators)
  | .function node => .node .statement node.span [node.tree]
  | .expression value span => .node .statement span [value.tree]
  | .returns none span => .node .statement span []
  | .returns (some argument) span => .node .statement span [argument.tree]
  | .block body span => .node .statement span (statementTrees body)
  | .empty span => .node .statement span []
  | .unsupported _ span => .node .statement span []

def statementTrees : List Statement → List SyntaxTree
  | [] => []
  | statement :: rest => statement.tree :: statementTrees rest

end

theorem exprTrees_eq_map (exprs : List Expr) : exprTrees exprs = exprs.map Expr.tree := by
  induction exprs with
  | nil => rfl
  | cons expr rest ih => simp [exprTrees, ih]

theorem declaratorTrees_eq_map (declarators : List Declarator) :
    declaratorTrees declarators = declarators.map Declarator.tree := by
  induction declarators with
  | nil => rfl
  | cons declarator rest ih => simp [declaratorTrees, ih]

theorem statementTrees_eq_map (statements : List Statement) :
    statementTrees statements = statements.map Statement.tree := by
  induction statements with
  | nil => rfl
  | cons statement rest ih => simp [statementTrees, ih]

theorem FunctionNode.span_tree (node : FunctionNode) : node.tree.span = node.span := by
  cases node
  rfl

namespace SyntaxTree

mutual

def height : SyntaxTree → Nat
  | .node role _ children => role.counts.toNat + heightOfAll children

def heightOfAll : List SyntaxTree → Nat
  | [] => 0
  | tree :: rest => max tree.height (heightOfAll rest)

end

inductive Path : SyntaxTree → List SyntaxTree → Prop where
  | leaf (role : NodeRole) (span : Span) : Path (.node role span []) [.node role span []]
  | child (role : NodeRole) (span : Span) {children : List SyntaxTree} {child : SyntaxTree}
      {path : List SyntaxTree} (member : child ∈ children) (later : child.Path path) :
      Path (.node role span children) (.node role span children :: path)

theorem height_le_heightOfAll {tree : SyntaxTree} {trees : List SyntaxTree}
    (member : tree ∈ trees) :
    tree.height ≤ heightOfAll trees := by
  induction trees with
  | nil => cases member
  | cons first rest ih =>
    rw [heightOfAll]
    obtain rfl | later := List.mem_cons.mp member
    next => exact Nat.le_max_left ..
    next => exact (ih later).trans (Nat.le_max_right ..)

theorem Path.count_le_height {tree : SyntaxTree} {path : List SyntaxTree} (way : tree.Path path) :
    path.countP (·.role.counts) ≤ tree.height := by
  induction way with
  | leaf role span => cases counts : role.counts <;> simp [height, heightOfAll, counts]
  | child role span member later ih =>
    have lower := ih.trans (height_le_heightOfAll member)
    rw [height, List.countP_cons, role_node]
    cases counts : role.counts <;> simp
    all_goals omega

end SyntaxTree

structure Span.Marks (span : Span) (source : String) : Prop where
  nonempty : span.start < span.stop
  start : String.Pos.Raw.Valid source ⟨span.start⟩
  stop : String.Pos.Raw.Valid source ⟨span.stop⟩
  line : span.line = 1 + (textBetween source 0 span.start).countP isLineTerminator
  column : span.column =
    1 + ((textBetween source 0 span.start).rtakeWhile (!isLineTerminator ·)).length

namespace SyntaxTree

/-- The span of the tree marks text of the source, that of an identifier its name, and its children
lie inside of it, each one after the end of the one before it. -/
structure Placed (tree : SyntaxTree) (source : String) : Prop where
  marks : tree.span.Marks source
  spelled : ∀ name, tree.role = .identifier name →
    textBetween source tree.span.start tree.span.stop = name.toList
  inside : ∀ child ∈ tree.children,
    tree.span.start ≤ child.span.start ∧ child.span.stop ≤ tree.span.stop
  ordered : tree.children.Pairwise fun left right => left.span.stop ≤ right.span.start

def Nests (tree : SyntaxTree) (source : String) : Prop :=
  ∀ part, tree.Contains part → part.Placed source

theorem Nests.placed {tree : SyntaxTree} {source : String} (nests : tree.Nests source) :
    tree.Placed source :=
  nests tree (.self tree)

theorem Nests.node {role : NodeRole} {span : Span} {children : List SyntaxTree} {source : String}
    (placed : (SyntaxTree.node role span children).Placed source)
    (nests : ∀ child ∈ children, child.Nests source) :
    (SyntaxTree.node role span children).Nests source := by
  intro part contains
  cases contains with
  | self => exact placed
  | child member inside => exact nests _ member part inside

theorem Nests.child {role : NodeRole} {span : Span} {children : List SyntaxTree} {source : String}
    (nests : (SyntaxTree.node role span children).Nests source) {child : SyntaxTree}
    (member : child ∈ children) : child.Nests source :=
  fun part inside => nests part (.child member inside)

def Worded (tree : SyntaxTree) : Prop :=
  ∀ part, tree.Contains part → ∀ name ∈ part.role.name?, IsWord name.toList

theorem Worded.node {role : NodeRole} {span : Span} {children : List SyntaxTree}
    (word : ∀ name ∈ role.name?, IsWord name.toList) (worded : ∀ child ∈ children, child.Worded) :
    (SyntaxTree.node role span children).Worded := by
  intro part contains
  cases contains with
  | self => exact word
  | child member inside => exact worded _ member part inside

theorem Worded.child {role : NodeRole} {span : Span} {children : List SyntaxTree}
    (worded : (SyntaxTree.node role span children).Worded) {child : SyntaxTree}
    (member : child ∈ children) : child.Worded :=
  fun part inside => worded part (.child member inside)

-- The tree lies between two offsets of the source with words for names, and it is not too high.
structure Fits (tree : SyntaxTree) (source : String) (height first last : Nat) : Prop where
  nests : tree.Nests source
  worded : tree.Worded
  after : first ≤ tree.span.start
  before : tree.span.stop ≤ last
  low : tree.height ≤ height

inductive FitsAll (source : String) (height : Nat) : Nat → List SyntaxTree → Nat → Prop where
  | nil {first last : Nat} (ordered : first ≤ last) : FitsAll source height first [] last
  | cons {first middle last : Nat} {tree : SyntaxTree} {rest : List SyntaxTree}
      (fits : tree.Fits source height first middle)
      (others : FitsAll source height middle rest last) :
      FitsAll source height first (tree :: rest) last

variable {tree : SyntaxTree} {trees others : List SyntaxTree} {source : String}
  {height height' first first' last last' : Nat}

theorem Fits.lt (fits : tree.Fits source height first last) : first < last := by
  have nonempty := fits.nests.placed.marks.nonempty
  have after := fits.after
  have before := fits.before
  omega

theorem Fits.mono (fits : tree.Fits source height first last) (higher : height ≤ height')
    (earlier : first' ≤ first) (later : last ≤ last') : tree.Fits source height' first' last' :=
  ⟨fits.nests, fits.worded, earlier.trans fits.after, fits.before.trans later,
    fits.low.trans higher⟩

namespace FitsAll

theorem le (fits : FitsAll source height first trees last) : first ≤ last := by
  induction fits with
  | nil ordered => exact ordered
  | cons fits _ ih => exact fits.lt.le.trans ih

theorem mono (fits : FitsAll source height first trees last) (higher : height ≤ height')
    (earlier : first' ≤ first) (later : last ≤ last') :
    FitsAll source height' first' trees last' := by
  induction fits generalizing first' with
  | nil ordered => exact .nil (earlier.trans (ordered.trans later))
  | cons fits _ ih => exact .cons (fits.mono higher earlier le_rfl) (ih le_rfl later)

theorem singleton (fits : tree.Fits source height first last) :
    FitsAll source height first [tree] last :=
  .cons fits (.nil le_rfl)

theorem append {middle : Nat} (fits : FitsAll source height first trees middle)
    (more : FitsAll source height middle others last) :
    FitsAll source height first (trees ++ others) last := by
  induction fits with
  | nil ordered => exact more.mono le_rfl ordered le_rfl
  | cons fits _ ih => exact .cons fits (ih more)

theorem heightOfAll_le (fits : FitsAll source height first trees last) :
    heightOfAll trees ≤ height := by
  induction fits with
  | nil => exact Nat.zero_le _
  | cons fits _ ih => exact Nat.max_le.mpr ⟨fits.low, ih⟩

theorem nests (fits : FitsAll source height first trees last) :
    ∀ tree ∈ trees, tree.Nests source := by
  induction fits with
  | nil => simp
  | cons fits _ ih => exact List.forall_mem_cons.mpr ⟨fits.nests, ih⟩

theorem worded (fits : FitsAll source height first trees last) : ∀ tree ∈ trees, tree.Worded := by
  induction fits with
  | nil => simp
  | cons fits _ ih => exact List.forall_mem_cons.mpr ⟨fits.worded, ih⟩

theorem inside (fits : FitsAll source height first trees last) :
    ∀ tree ∈ trees, first ≤ tree.span.start ∧ tree.span.stop ≤ last := by
  induction fits with
  | nil => simp
  | cons fits others ih =>
    refine List.forall_mem_cons.mpr ⟨⟨fits.after, fits.before.trans others.le⟩, ?_⟩
    intro tree member
    exact ⟨fits.lt.le.trans (ih tree member).1, (ih tree member).2⟩

theorem ordered (fits : FitsAll source height first trees last) :
    trees.Pairwise fun left right => left.span.stop ≤ right.span.start := by
  induction fits with
  | nil => exact .nil
  | cons fits others ih =>
    exact .cons (fun tree member => fits.before.trans (others.inside tree member).1) ih

end FitsAll

theorem Fits.node {role : NodeRole} {span : Span} (marks : span.Marks source)
    (children : FitsAll source height span.start trees span.stop)
    (unnamed : role.name? = none) (higher : height + 1 ≤ height') :
    (SyntaxTree.node role span trees).Fits source height' span.start span.stop where
  nests := by
    refine .node ⟨marks, ?_, children.inside, children.ordered⟩ children.nests
    intro name named
    rw [role_node] at named
    rw [named] at unnamed
    cases unnamed
  worded := .node (by simp [unnamed]) children.worded
  after := le_rfl
  before := le_rfl
  low := by
    have lower := children.heightOfAll_le
    have single : role.counts.toNat ≤ 1 := Bool.toNat_le _
    rw [SyntaxTree.height]
    omega

theorem Fits.wrap (fits : tree.Fits source height first last) {role : NodeRole}
    (unnamed : role.name? = none) :
    (SyntaxTree.node role tree.span [tree]).Fits source (height + 1) first last := by
  have inside : tree.Fits source height tree.span.start tree.span.stop :=
    ⟨fits.nests, fits.worded, le_rfl, le_rfl, fits.low⟩
  exact (Fits.node fits.nests.placed.marks (.singleton inside) unnamed le_rfl).mono le_rfl
    fits.after fits.before

theorem Fits.unwrap {role : NodeRole}
    (fits : (SyntaxTree.node role tree.span [tree]).Fits source height first last) :
    tree.Fits source tree.height first last :=
  ⟨fits.nests.child List.mem_cons_self, fits.worded.child List.mem_cons_self, fits.after,
    fits.before, le_rfl⟩

end SyntaxTree

theorem Expr.one_le_height (expr : Expr) : 1 ≤ expr.tree.height := by
  cases expr <;> simp [Expr.tree, SyntaxTree.height, NodeRole.counts]

end EventLoop
