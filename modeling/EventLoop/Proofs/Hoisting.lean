import EventLoop.Syntax.Tree

set_option autoImplicit false

/-!
# Moving function declarations to the front

In any statement list the function declarations may stand before the other statements.
-/

namespace EventLoop

def Statement.isFunction : Statement → Bool
  | .function _ => true
  | _ => false

def front (body : List Statement) : List Statement :=
  body.filter (·.isFunction) ++ body.filter (!·.isFunction)

inductive Fragment where
  | expr (expr : Expr)
  | exprs (exprs : List Expr)
  | function (node : FunctionNode)
  | declarators (declarators : List Declarator)
  | statement (statement : Statement)
  | body (body : List Statement)

/-- In some statement lists of the second tree the declarations were moved to the front. Nothing
else differs, spans included. -/
inductive Moved : Fragment → Fragment → Prop where
  | sameExpr (expr : Expr) : Moved (.expr expr) (.expr expr)
  | functionExpr {node node' : FunctionNode} (moved : Moved (.function node) (.function node')) :
      Moved (.expr (.function node)) (.expr (.function node'))
  | unary (op : UnaryOp) {argument argument' : Expr}
      (moved : Moved (.expr argument) (.expr argument')) (span : Span) :
      Moved (.expr (.unary op argument span)) (.expr (.unary op argument' span))
  | binary (op : BinaryOp) {left left' right right' : Expr}
      (movedLeft : Moved (.expr left) (.expr left'))
      (movedRight : Moved (.expr right) (.expr right')) (span : Span) :
      Moved (.expr (.binary op left right span)) (.expr (.binary op left' right' span))
  | logical (op : LogicalOp) {left left' right right' : Expr}
      (movedLeft : Moved (.expr left) (.expr left'))
      (movedRight : Moved (.expr right) (.expr right')) (span : Span) :
      Moved (.expr (.logical op left right span)) (.expr (.logical op left' right' span))
  | conditional {test test' consequent consequent' alternate alternate' : Expr}
      (movedTest : Moved (.expr test) (.expr test'))
      (movedConsequent : Moved (.expr consequent) (.expr consequent'))
      (movedAlternate : Moved (.expr alternate) (.expr alternate')) (span : Span) :
      Moved (.expr (.conditional test consequent alternate span))
        (.expr (.conditional test' consequent' alternate' span))
  | assignment (op : AssignOp) (target : Identifier) {value value' : Expr}
      (moved : Moved (.expr value) (.expr value')) (span : Span) :
      Moved (.expr (.assignment op target value span)) (.expr (.assignment op target value' span))
  | sequence {items items' : List Expr} (moved : Moved (.exprs items) (.exprs items'))
      (span : Span) : Moved (.expr (.sequence items span)) (.expr (.sequence items' span))
  | member {object object' : Expr} (moved : Moved (.expr object) (.expr object'))
      (property : Identifier) (span : Span) :
      Moved (.expr (.member object property span)) (.expr (.member object' property span))
  | call {callee callee' : Expr} {arguments arguments' : List Expr}
      (movedCallee : Moved (.expr callee) (.expr callee'))
      (movedArguments : Moved (.exprs arguments) (.exprs arguments')) (span : Span) :
      Moved (.expr (.call callee arguments span)) (.expr (.call callee' arguments' span))
  | noExprs : Moved (.exprs []) (.exprs [])
  | consExpr {expr expr' : Expr} {rest rest' : List Expr} (moved : Moved (.expr expr) (.expr expr'))
      (others : Moved (.exprs rest) (.exprs rest')) :
      Moved (.exprs (expr :: rest)) (.exprs (expr' :: rest'))
  | functionBlock (form : FunctionForm) (id : Option Identifier) (params : List Identifier)
      {body body' : List Statement} (moved : Moved (.body body) (.body body'))
      (inner span : Span) :
      Moved (.function ⟨form, id, params, .block body inner, span⟩)
        (.function ⟨form, id, params, .block body' inner, span⟩)
  | functionValue (form : FunctionForm) (id : Option Identifier) (params : List Identifier)
      {value value' : Expr} (moved : Moved (.expr value) (.expr value')) (span : Span) :
      Moved (.function ⟨form, id, params, .expression value, span⟩)
        (.function ⟨form, id, params, .expression value', span⟩)
  | noDeclarators : Moved (.declarators []) (.declarators [])
  | consBare (id : Identifier) (span : Span) {rest rest' : List Declarator}
      (others : Moved (.declarators rest) (.declarators rest')) :
      Moved (.declarators (⟨id, none, span⟩ :: rest)) (.declarators (⟨id, none, span⟩ :: rest'))
  | consInit (id : Identifier) {value value' : Expr} (moved : Moved (.expr value) (.expr value'))
      (span : Span) {rest rest' : List Declarator}
      (others : Moved (.declarators rest) (.declarators rest')) :
      Moved (.declarators (⟨id, some value, span⟩ :: rest))
        (.declarators (⟨id, some value', span⟩ :: rest'))
  | sameStatement (statement : Statement) : Moved (.statement statement) (.statement statement)
  | declaration (kind : VariableKind) {declarators declarators' : List Declarator}
      (moved : Moved (.declarators declarators) (.declarators declarators')) (span : Span) :
      Moved (.statement (.declaration kind declarators span))
        (.statement (.declaration kind declarators' span))
  | functionStatement {node node' : FunctionNode}
      (moved : Moved (.function node) (.function node')) :
      Moved (.statement (.function node)) (.statement (.function node'))
  | expression {value value' : Expr} (moved : Moved (.expr value) (.expr value')) (span : Span) :
      Moved (.statement (.expression value span)) (.statement (.expression value' span))
  | returns {argument argument' : Expr} (moved : Moved (.expr argument) (.expr argument'))
      (span : Span) :
      Moved (.statement (.returns (some argument) span))
        (.statement (.returns (some argument') span))
  | block {body body' : List Statement} (moved : Moved (.body body) (.body body'))
      (span : Span) : Moved (.statement (.block body span)) (.statement (.block body' span))
  | noStatements : Moved (.body []) (.body [])
  | consStatement {statement statement' : Statement} {rest rest' : List Statement}
      (moved : Moved (.statement statement) (.statement statement'))
      (others : Moved (.body rest) (.body rest')) :
      Moved (.body (statement :: rest)) (.body (statement' :: rest'))
  | front {body body' : List Statement} (moved : Moved (.body body) (.body body')) :
      Moved (.body body) (.body (front body'))

inductive Program.Moved : Program → Program → Prop where
  | body {body body' : List Statement} (moved : EventLoop.Moved (.body body) (.body body'))
      (span : Span) : Program.Moved ⟨body, span⟩ ⟨body', span⟩

mutual

def Expr.hoisted : Expr → Expr
  | .literal value span => .literal value span
  | .identifier id => .identifier id
  | .function node => .function node.hoisted
  | .unary op argument span => .unary op argument.hoisted span
  | .binary op left right span => .binary op left.hoisted right.hoisted span
  | .logical op left right span => .logical op left.hoisted right.hoisted span
  | .conditional test consequent alternate span =>
      .conditional test.hoisted consequent.hoisted alternate.hoisted span
  | .assignment op target value span => .assignment op target value.hoisted span
  | .update op order target span => .update op order target span
  | .sequence items span => .sequence (hoistedExprs items) span
  | .member object property span => .member object.hoisted property span
  | .call callee arguments span => .call callee.hoisted (hoistedExprs arguments) span
  | .unsupported kind span => .unsupported kind span

def hoistedExprs : List Expr → List Expr
  | [] => []
  | expr :: rest => expr.hoisted :: hoistedExprs rest

def FunctionBody.hoisted : FunctionBody → FunctionBody
  | .block body span => .block (front (hoistedStatements body)) span
  | .expression value => .expression value.hoisted

def FunctionNode.hoisted : FunctionNode → FunctionNode
  | ⟨form, id, params, body, span⟩ => ⟨form, id, params, body.hoisted, span⟩

def Declarator.hoisted : Declarator → Declarator
  | ⟨id, none, span⟩ => ⟨id, none, span⟩
  | ⟨id, some init, span⟩ => ⟨id, some init.hoisted, span⟩

def hoistedDeclarators : List Declarator → List Declarator
  | [] => []
  | declarator :: rest => declarator.hoisted :: hoistedDeclarators rest

def Statement.hoisted : Statement → Statement
  | .declaration kind declarators span => .declaration kind (hoistedDeclarators declarators) span
  | .function node => .function node.hoisted
  | .expression value span => .expression value.hoisted span
  | .returns none span => .returns none span
  | .returns (some argument) span => .returns (some argument.hoisted) span
  | .block body span => .block (front (hoistedStatements body)) span
  | .empty span => .empty span
  | .unsupported kind span => .unsupported kind span

def hoistedStatements : List Statement → List Statement
  | [] => []
  | statement :: rest => statement.hoisted :: hoistedStatements rest

end

def Program.hoisted (program : Program) : Program :=
  { program with body := front (hoistedStatements program.body) }

def Fragment.hoisted : Fragment → Fragment
  | .expr tree => .expr tree.hoisted
  | .exprs trees => .exprs (hoistedExprs trees)
  | .function node => .function node.hoisted
  | .declarators list => .declarators (hoistedDeclarators list)
  | .statement tree => .statement tree.hoisted
  | .body list => .body (front (hoistedStatements list))

theorem hoistedStatements_eq_map (body : List Statement) :
    hoistedStatements body = body.map Statement.hoisted := by
  induction body with
  | nil => rfl
  | cons statement rest ih => simp [hoistedStatements, ih]

theorem hoistedExprs_eq_map (exprs : List Expr) : hoistedExprs exprs = exprs.map Expr.hoisted := by
  induction exprs with
  | nil => rfl
  | cons expr rest ih => simp [hoistedExprs, ih]

@[simp]
theorem Statement.isFunction_hoisted (statement : Statement) :
    statement.hoisted.isFunction = statement.isFunction := by
  cases statement with
  | returns argument span => cases argument <;> rfl
  | _ => rfl

@[simp]
theorem filter_isFunction_front (body : List Statement) :
    (front body).filter (·.isFunction) = body.filter (·.isFunction) := by
  simp [front, List.filter_append, List.filter_filter]

@[simp]
theorem filter_not_isFunction_front (body : List Statement) :
    (front body).filter (!·.isFunction) = body.filter (!·.isFunction) := by
  simp [front, List.filter_append, List.filter_filter]

theorem front_front (body : List Statement) : front (front body) = front body := by
  rw [front, filter_isFunction_front, filter_not_isFunction_front, front]

theorem front_cons {statement : Statement} {rest rest' : List Statement}
    (same : front rest' = front rest) : front (statement :: rest') = front (statement :: rest) := by
  have declarations := congrArg (List.filter (·.isFunction)) same
  have others := congrArg (List.filter (!·.isFunction)) same
  simp only [filter_isFunction_front, filter_not_isFunction_front] at declarations others
  simp only [front, List.filter_cons, declarations, others]

theorem hoistedStatements_front (body : List Statement) :
    hoistedStatements (front body) = front (hoistedStatements body) := by
  simp [hoistedStatements_eq_map, front, List.filter_map, Function.comp_def]

theorem Moved.hoisted_eq {before after : Fragment} (moved : Moved before after) :
    after.hoisted = before.hoisted := by
  induction moved with
  | sameExpr | sameStatement | noExprs | noDeclarators | noStatements => rfl
  | functionExpr _ ih | functionStatement _ ih =>
      simp only [Fragment.hoisted, Fragment.function.injEq] at ih ⊢
      simp only [Expr.hoisted, Statement.hoisted, ih]
  | unary _ _ _ ih | assignment _ _ _ _ ih | member _ _ _ ih | expression _ _ ih
  | returns _ _ ih =>
      simp only [Fragment.hoisted, Fragment.expr.injEq] at ih ⊢
      simp only [Expr.hoisted, Statement.hoisted, ih]
  | binary _ _ _ _ left right | logical _ _ _ _ left right =>
      simp only [Fragment.hoisted, Fragment.expr.injEq] at left right ⊢
      simp only [Expr.hoisted, left, right]
  | conditional _ _ _ _ test consequent alternate =>
      simp only [Fragment.hoisted, Fragment.expr.injEq] at test consequent alternate ⊢
      simp only [Expr.hoisted, test, consequent, alternate]
  | sequence _ _ ih =>
      simp only [Fragment.hoisted, Fragment.exprs.injEq] at ih
      simp only [Fragment.hoisted, Expr.hoisted, ih]
  | call _ _ _ callee arguments =>
      simp only [Fragment.hoisted, Fragment.expr.injEq, Fragment.exprs.injEq] at callee arguments
      simp only [Fragment.hoisted, Expr.hoisted, callee, arguments]
  | consExpr _ _ head rest =>
      simp only [Fragment.hoisted, Fragment.expr.injEq, Fragment.exprs.injEq] at head rest
      simp only [Fragment.hoisted, hoistedExprs, head, rest]
  | functionBlock _ _ _ _ _ _ ih =>
      simp only [Fragment.hoisted, Fragment.body.injEq] at ih
      simp only [Fragment.hoisted, FunctionNode.hoisted, FunctionBody.hoisted, ih]
  | functionValue _ _ _ _ _ ih =>
      simp only [Fragment.hoisted, Fragment.expr.injEq] at ih
      simp only [Fragment.hoisted, FunctionNode.hoisted, FunctionBody.hoisted, ih]
  | consBare _ _ _ rest =>
      simp only [Fragment.hoisted, Fragment.declarators.injEq] at rest
      simp only [Fragment.hoisted, hoistedDeclarators, rest]
  | consInit _ _ _ _ init rest =>
      simp only [Fragment.hoisted, Fragment.expr.injEq, Fragment.declarators.injEq] at init rest
      simp only [Fragment.hoisted, hoistedDeclarators, Declarator.hoisted, init, rest]
  | declaration _ _ _ ih =>
      simp only [Fragment.hoisted, Fragment.declarators.injEq] at ih
      simp only [Fragment.hoisted, Statement.hoisted, ih]
  | block _ _ ih =>
      simp only [Fragment.hoisted, Fragment.body.injEq] at ih
      simp only [Fragment.hoisted, Statement.hoisted, ih]
  | consStatement _ _ head rest =>
      simp only [Fragment.hoisted, Fragment.statement.injEq, Fragment.body.injEq] at head rest ⊢
      rw [hoistedStatements, hoistedStatements, head]
      exact front_cons rest
  | front _ ih =>
      -- Lists inside the statements and the list itself may be moved in either order.
      simp only [Fragment.hoisted, Fragment.body.injEq] at ih ⊢
      rw [hoistedStatements_front, front_front, ih]

theorem Program.Moved.hoisted_eq {program program' : Program}
    (moved : Program.Moved program program') : program'.hoisted = program.hoisted := by
  cases moved with
  | body moved span =>
      have same := moved.hoisted_eq
      simp only [Fragment.hoisted, Fragment.body.injEq] at same
      simp only [Program.hoisted, same]

end EventLoop
