import EventLoop.Evaluation.Turn
import EventLoop.Proofs.SyntaxNodes
import Mathlib.Order.Basic

set_option autoImplicit false

/-!
# Judgements about evaluation

What evaluation does follows from what its actions do. A judgement relates evaluation in two monads,
in a world that says which values and scopes are at hand.
-/

namespace EventLoop

def Problem.isStepLimit : Problem → Bool
  | .stepLimitReached _ => true
  | _ => false

def Value.Plain : Value → Prop
  | .function _ | .promise _ | .builtin (.promiseMethod ..) => False
  | _ => True

theorem Literal.value_plain (literal : Literal) : literal.value.Plain := by
  cases literal <;> trivial

theorem UnaryOp.apply_plain (op : UnaryOp) (value : Value) : (op.apply value).Plain := by
  cases op <;> trivial

theorem Value.add_plain (left right : Value) : (left.add right).Plain := by
  unfold Value.add
  split <;> trivial

theorem BinaryOp.result?_plain {op : BinaryOp} {left right value : Value}
    (result : op.result? left right = some value) : value.Plain := by
  cases op with
  | add =>
      obtain rfl : left.add right = value := by simpa [BinaryOp.result?] using result
      exact left.add_plain right
  | power | bitAnd | bitOr | bitXor | shiftLeft | shiftRight | unsignedShiftRight | membership
  | «instanceof» => simp [BinaryOp.result?] at result
  | _ =>
      simp only [BinaryOp.result?, Option.some.injEq] at result
      subst result
      trivial

theorem BinaryOp.getD_result?_plain (op : BinaryOp) (left right : Value) :
    ((op.result? left right).getD .undefined).Plain := by
  cases result : op.result? left right with
  | none => trivial
  | some value => exact BinaryOp.result?_plain result

theorem Builtin.global?_plain {name : String} {builtin : Builtin}
    (found : Builtin.global? name = some builtin) : (Value.builtin builtin).Plain := by
  unfold Builtin.global? at found
  split at found <;> cases found <;> trivial

theorem Simulation.globalValue_plain (name : String) : (globalValue name).Plain := by
  unfold globalValue
  cases found : Builtin.global? name with
  | some builtin => exact Builtin.global?_plain found
  | none =>
      dsimp only
      split <;> trivial

theorem Value.property_cases (object : Value) (name : String) :
    (object.property name).Plain ∨
      ∃ id kind, object = .promise id ∧ object.property name =
        .builtin (.promiseMethod kind id) := by
  -- Members of the console and of the promise constructor are builtins without a promise of their
  -- own.
  cases object with
  | builtin host =>
      left
      unfold Value.property Builtin.member?
      cases host with
      | console =>
          simp only
          cases ConsoleLevel.ofName? name <;> trivial
      | promise =>
          simp only
          split <;> trivial
      | _ => trivial
  | promise id =>
      unfold Value.property
      cases ReactionKind.ofName? name with
      | none => exact .inl trivial
      | some kind => exact .inr ⟨id, kind, rfl, rfl⟩
  | string value =>
      left
      simp only [Value.property]
      split <;> trivial
  | function callable =>
      left
      simp only [Value.property]
      split <;> trivial
  | _ => exact .inl trivial

def Value.Final : Value → Prop
  | .promise _ => False
  | _ => True

theorem Value.final_or_promise (value : Value) : value.Final ∨ ∃ id, value = .promise id := by
  cases value with
  | promise id => exact .inr ⟨id, rfl⟩
  | _ => exact .inl trivial

section Rules

variable {m n : Type → Type} [Monad m] [Actions m] [Monad n] [Actions n]
variable {World : Type} [Preorder World]

structure Rules (Good : World → Value → Prop)
    (Holds : ∀ {α : Type}, World → (World → α → Prop) → m α → n α → Prop) : Prop where
  plain {world : World} {value : Value} : value.Plain → Good world value
  method {world : World} {id : PromiseId} (kind : ReactionKind) :
    Good world (.promise id) → Good world (.builtin (.promiseMethod kind id))
  grow {world later : World} {value : Value} : world ≤ later → Good world value → Good later value
  pure {α : Type} {world : World} {Post : World → α → Prop} {value : α} :
    Post world value → Holds world Post (Pure.pure value) (Pure.pure value)
  bind {α β : Type} {world : World} {Mid : World → α → Prop} {Post : World → β → Prop}
    {first : m α} {first' : n α} {next : α → m β} {next' : α → n β} :
    Holds world Mid first first' →
      (∀ later value, world ≤ later → Mid later value →
        Holds later Post (next value) (next' value)) →
      Holds world Post (first >>= next) (first' >>= next')

structure Calculus (Present : SyntaxNode → Prop) (Good : World → Value → Prop)
    (Known : World → ScopeId → Prop)
    (Holds : ∀ {α : Type}, World → (World → α → Prop) → m α → n α → Prop) : Prop
    extends Rules Good Holds where
  part {node child : SyntaxNode} : Present node → child ∈ node.children → Present child
  growScope {world later : World} {scope : ScopeId} :
    world ≤ later → Known world scope → Known later scope
  -- The step limit is reported when a run ends, never by evaluation.
  report {world : World} (problem : Problem) {node : SyntaxNode} {span : Span} :
    problem.isStepLimit = false → Present node → node.span = span →
      Holds world (fun _ _ => True) (Actions.report problem (some span))
        (Actions.report problem (some span))
  makeFunction {world : World} {scope : ScopeId} {binding : Option String} {node : FunctionNode} :
    (∀ name ∈ binding, ∃ id, Present (.identifier id) ∧ id.name = name) →
      Present (.function node) → Known world scope →
      Holds world Good (Actions.makeFunction binding node scope)
        (Actions.makeFunction binding node scope)
  declare {world : World} {value : Value} {scope : ScopeId} (name : String) :
    Known world scope → Good world value →
      Holds world (fun _ _ => True) (Actions.declare scope name value)
        (Actions.declare scope name value)
  assign {world : World} {value : Value} {expr : Expr} {scope : ScopeId} (name : String) :
    Present (.expression expr) → expr.assigns = true → Known world scope → Good world value →
      Holds world (fun _ _ => True) (Actions.assign scope name value)
        (Actions.assign scope name value)
  lookup {world : World} {scope : ScopeId} (name : String) : Known world scope →
    Holds world Good (Actions.lookup scope name) (Actions.lookup scope name)
  builtin {world : World} {builtin : Builtin} {arguments : List Value} {callee : Expr}
    {operands : List Expr} {span : Span} : Present (.expression (.call callee operands span)) →
      builtin.isCallable = true → Good world (.builtin builtin) →
      (∀ argument ∈ arguments, Good world argument) →
      Holds world Good (builtin.call arguments (some ⟨operands, span⟩))
        (builtin.call arguments (some ⟨operands, span⟩))

structure CallCalculus (Present : SyntaxNode → Prop) (Good : World → Value → Prop)
    (Known : World → ScopeId → Prop)
    (Holds : ∀ {α : Type}, World → (World → α → Prop) → m α → n α → Prop) : Prop
    extends Calculus Present Good Known Holds where
  closure {world : World} {callable : Callable} :
    Good world (.function callable) → Known world callable.scope
  code {world : World} {callable : Callable} :
    Good world (.function callable) → Present (.function callable.node)
  createScope {world : World} {outer : ScopeId} :
    Known world outer → Holds world Known (Actions.createScope outer) (Actions.createScope outer)

structure Judgement (Present : SyntaxNode → Prop) (Good : World → Value → Prop)
    (Known : World → ScopeId → Prop)
    (Holds : ∀ {α : Type}, World → (World → α → Prop) → m α → n α → Prop) : Prop
    extends CallCalculus Present Good Known Holds where
  withFrame {α : Type} {world : World} {Post : World → α → Prop} (name : String)
    (node : Option NodeRef) {body : m α} {body' : n α} :
    Holds world Post body body' →
      Holds world Post (withFrame name node body) (withFrame name node body')

abbrev CallsHold (Good : World → Value → Prop)
    (Holds : ∀ {α : Type}, World → (World → α → Prop) → m α → n α → Prop)
    (calls : FunctionCalls m) (calls' : FunctionCalls n) : Prop :=
  ∀ {world : World} {callable : Callable} {arguments : List Value},
    Good world (.function callable) → (∀ argument ∈ arguments, Good world argument) →
      Holds world Good (calls callable arguments) (calls' callable arguments)

end Rules

namespace Rules

variable {m n : Type → Type} [Monad m] [Monad n] {World : Type} [Preorder World]
variable {Good : World → Value → Prop}
variable {Holds : ∀ {α : Type}, World → (World → α → Prop) → m α → n α → Prop}
variable (rules : Rules Good Holds) {world : World}

include rules

theorem property {object : Value} (good : Good world object) (name : String) :
    Good world (object.property name) := by
  obtain plain | ⟨id, kind, rfl, same⟩ := object.property_cases name
  next => exact rules.plain plain
  next =>
    rw [same]
    exact rules.method kind good

theorem thenPlain {α : Type} {Post : World → α → Prop} {code : m α} {code' : n α}
    (holds : Holds world Post code code') {value : Value} (plain : value.Plain) :
    Holds world Good (code >>= fun _ => Pure.pure value) (code' >>= fun _ => Pure.pure value) :=
  rules.bind holds fun _ _ _ _ => rules.pure (rules.plain plain)

end Rules

namespace Calculus

variable {m n : Type → Type} [Monad m] [Actions m] [Monad n] [Actions n]
variable {World : Type} [Preorder World] {Present : SyntaxNode → Prop}
variable {Good : World → Value → Prop} {Known : World → ScopeId → Prop}
variable {Holds : ∀ {α : Type}, World → (World → α → Prop) → m α → n α → Prop}
variable (calculus : Calculus Present Good Known Holds)
variable {world : World} {scope : ScopeId}

include calculus

theorem skip (problem : Problem) (running : problem.isStepLimit = false) {node : SyntaxNode}
    (present : Present node) {span : Span} (place : node.span = span) :
    Holds world Good (EventLoop.skip problem span) (EventLoop.skip problem span) :=
  calculus.thenPlain (calculus.report _ running present place) trivial

theorem named (known : Known world scope) {id : Identifier} (bound : Present (.identifier id))
    {expr : Expr} (present : Present (.expression expr)) {evaluated : m Value}
    {evaluated' : n Value}
    (evaluates : Holds world Good evaluated evaluated') :
    Holds world Good (expr.named id.name scope evaluated)
      (expr.named id.name scope evaluated') := by
  cases expr with
  | function node =>
      by_cases anonymous : node.id.isNone
      next =>
        simp only [Expr.named, anonymous, if_true]
        refine calculus.makeFunction ?_ (calculus.part present (by simp)) known
        rintro _ ⟨⟩
        exact ⟨id, bound, rfl⟩
      next =>
        simp only [Expr.named, anonymous, Bool.false_eq_true, if_false]
        exact evaluates
  | _ => exact evaluates

section Calls

variable {calls : FunctionCalls m} {calls' : FunctionCalls n}

theorem callFrom (called : CallsHold Good Holds calls calls')
    {callee : Expr} {operands : List Expr} {span : Span}
    (present : Present (.expression (.call callee operands span))) {found : Value}
    {arguments : List Value} (callable : found.isCallable = true) (good : Good world found)
    (all : ∀ argument ∈ arguments, Good world argument) :
    Holds world Good (EventLoop.callFrom calls found arguments ⟨operands, span⟩)
      (EventLoop.callFrom calls' found arguments ⟨operands, span⟩) := by
  cases found with
  | builtin builtin => exact calculus.builtin present callable good all
  | function callable => exact called good all
  | _ => cases callable

mutual

theorem eval (called : CallsHold Good Holds calls calls')
    {world : World} (known : Known world scope) (expr : Expr)
    (present : Present (.expression expr)) :
    Holds world Good (expr.eval calls scope) (expr.eval calls' scope) := by
  have part {child : SyntaxNode} (member : child ∈ expr.children) : Present child :=
    calculus.part present member
  cases expr with
  | literal value span =>
      simp only [Expr.eval]
      exact calculus.pure (calculus.plain value.value_plain)
  | identifier id =>
      simp only [Expr.eval]
      exact calculus.lookup _ known
  | function node =>
      simp only [Expr.eval]
      exact calculus.makeFunction (by simp) (part (by simp)) known
  | unary op argument span =>
      simp only [Expr.eval]
      split
      next =>
        exact calculus.bind (eval called known argument (part (by simp))) fun _ value _ _ =>
          calculus.pure (calculus.plain (op.apply_plain value))
      next => exact calculus.skip _ rfl present rfl
  | binary op left right span =>
      simp only [Expr.eval]
      refine calculus.bind (eval called known left (part (by simp))) fun _ _ grown _ => ?_
      refine calculus.bind (eval called (calculus.growScope grown known) right (part (by simp)))
        fun _ _ _ _ => ?_
      split
      next result => exact calculus.pure (calculus.plain (BinaryOp.result?_plain result))
      next => exact calculus.skip _ rfl present rfl
  | logical op left right span =>
      simp only [Expr.eval]
      refine calculus.bind (eval called known left (part (by simp))) fun _ _ grown good => ?_
      split
      next => exact calculus.pure good
      next => exact eval called (calculus.growScope grown known) right (part (by simp))
  | conditional test consequent alternate span =>
      simp only [Expr.eval]
      refine calculus.bind (eval called known test (part (by simp))) fun _ _ grown _ => ?_
      split
      next => exact eval called (calculus.growScope grown known) consequent (part (by simp))
      next => exact eval called (calculus.growScope grown known) alternate (part (by simp))
  | assignment op target value span =>
      have inner : Present (.expression value) := part (by simp)
      -- Only a plain assignment names the function that it assigns.
      by_cases plain : op = .assign
      next =>
        subst plain
        simp only [Expr.eval]
        refine calculus.bind (calculus.named known (part (by simp)) inner
          (eval called known value inner))
          fun _ _ grown good => ?_
        have assigned := calculus.assign target.name present rfl (calculus.growScope grown known)
          good
        exact calculus.bind assigned fun _ _ grown _ => calculus.pure (calculus.grow grown good)
      next =>
        simp only [Expr.eval]
        split
        next => exact calculus.skip _ rfl present rfl
        next _ binary _ =>
          refine calculus.bind (calculus.lookup _ known) fun _ current grown _ => ?_
          have still := calculus.growScope grown known
          refine calculus.bind (eval called still value inner) fun _ right grown _ => ?_
          have plain := binary.getD_result?_plain current right
          have assigned := calculus.assign target.name present rfl (calculus.growScope grown still)
            (calculus.plain plain)
          exact calculus.bind assigned fun _ _ _ _ => calculus.pure (calculus.plain plain)
  | update op order target span =>
      simp only [Expr.eval]
      refine calculus.bind (calculus.lookup _ known) fun _ old grown _ => ?_
      have still := calculus.growScope grown known
      refine calculus.bind (calculus.assign _ present rfl still ?_) fun _ _ _ _ => calculus.pure ?_
      · exact calculus.plain trivial
      · exact calculus.plain trivial
  | sequence items span =>
      simp only [Expr.eval]
      refine evalLast called known ?_ items fun item member => part (by simpa using member)
      exact calculus.plain trivial
  | member object property span =>
      simp only [Expr.eval]
      exact calculus.bind (eval called known object (part (by simp))) fun _ _ _ good =>
        calculus.pure (calculus.property good property.name)
  | call callee arguments span =>
      simp only [Expr.eval]
      refine calculus.bind (eval called known callee (part (by simp))) fun _ found grown good => ?_
      split
      next callable =>
        have operands (argument : Expr) (member : argument ∈ arguments) :
            Present (.expression argument) := part (by simpa using .inr member)
        refine calculus.bind (evalAll called (calculus.growScope grown known) arguments operands)
          fun _ values grown all => ?_
        exact calculus.callFrom called present callable (calculus.grow grown good) all
      next => exact calculus.skip _ rfl present rfl
  | unsupported kind span =>
      simp only [Expr.eval]
      exact calculus.skip _ rfl present rfl

theorem evalAll (called : CallsHold Good Holds calls calls')
    {world : World} (known : Known world scope) (exprs : List Expr)
    (present : ∀ expr ∈ exprs, Present (.expression expr)) :
    Holds world (fun world values => ∀ value ∈ values, Good world value)
      (EventLoop.evalAll calls scope exprs) (EventLoop.evalAll calls' scope exprs) := by
  cases exprs with
  | nil =>
      simp only [EventLoop.evalAll]
      exact calculus.pure (by simp)
  | cons expr rest =>
      obtain ⟨first, others⟩ := List.forall_mem_cons.mp present
      simp only [EventLoop.evalAll]
      refine calculus.bind (eval called known expr first) fun _ value grown good => ?_
      refine calculus.bind (evalAll called (calculus.growScope grown known) rest others)
        fun _ values grown all => calculus.pure ?_
      exact List.forall_mem_cons.mpr ⟨calculus.grow grown good, all⟩

theorem evalLast (called : CallsHold Good Holds calls calls')
    {world : World} (known : Known world scope) {last : Value}
    (good : Good world last) (exprs : List Expr)
    (present : ∀ expr ∈ exprs, Present (.expression expr)) :
    Holds world Good (EventLoop.evalLast calls scope last exprs)
      (EventLoop.evalLast calls' scope last exprs) := by
  cases exprs with
  | nil =>
      simp only [EventLoop.evalLast]
      exact calculus.pure good
  | cons expr rest =>
      obtain ⟨first, others⟩ := List.forall_mem_cons.mp present
      simp only [EventLoop.evalLast]
      exact calculus.bind (eval called known expr first) fun _ _ grown good =>
        evalLast called (calculus.growScope grown known) good rest others

end

theorem hoist (known : Known world scope) (body : List Statement)
    (present : ∀ statement ∈ body, Present (.statement statement)) :
    Holds world (fun _ _ => True) (EventLoop.hoist scope body) (EventLoop.hoist scope body) := by
  induction body generalizing world with
  | nil => exact calculus.pure trivial
  | cons statement rest ih =>
      obtain ⟨first, others⟩ := List.forall_mem_cons.mp present
      cases statement with
      | function node =>
          simp only [EventLoop.hoist]
          cases node.id with
          | none => exact ih known others
          | some id =>
              have code := calculus.part first List.mem_cons_self
              refine calculus.bind (calculus.makeFunction (by simp) code known)
                fun _ _ made good => ?_
              have still := calculus.growScope made known
              refine calculus.bind (calculus.declare _ still good) fun _ _ declared _ => ?_
              exact ih (calculus.growScope declared still) others
      | _ => exact ih known others

theorem execDeclarators (called : CallsHold Good Holds calls calls')
    (known : Known world scope) (declarators : List Declarator)
    (present : ∀ declarator ∈ declarators, Present (.declarator declarator)) :
    Holds world (fun _ _ => True) (EventLoop.execDeclarators calls scope declarators)
      (EventLoop.execDeclarators calls' scope declarators) := by
  induction declarators generalizing world with
  | nil => exact calculus.pure trivial
  | cons declarator rest ih =>
      obtain ⟨first, others⟩ := List.forall_mem_cons.mp present
      simp only [EventLoop.execDeclarators]
      cases value : declarator.init with
      | none =>
          refine calculus.bind (calculus.pure (calculus.plain trivial)) fun _ _ evaluated good => ?_
          have still := calculus.growScope evaluated known
          refine calculus.bind (calculus.declare _ still good) fun _ _ declared _ => ?_
          exact ih (calculus.growScope declared still) others
      | some init =>
          have inner : Present (.expression init) := calculus.part first (by simp [value])
          have bound := calculus.part first List.mem_cons_self
          refine calculus.bind
            (calculus.named known bound inner (calculus.eval called known init inner))
            fun _ _ evaluated good => ?_
          have still := calculus.growScope evaluated known
          refine calculus.bind (calculus.declare _ still good) fun _ _ declared _ => ?_
          exact ih (calculus.growScope declared still) others

mutual

theorem exec (called : CallsHold Good Holds calls calls')
    {world : World} (known : Known world scope) (statement : Statement)
    (present : Present (.statement statement)) :
    Holds world (fun world completion => ∀ value, completion = .returned value → Good world value)
      (statement.exec calls scope) (statement.exec calls' scope) := by
  have part {child : SyntaxNode} (member : child ∈ statement.children) : Present child :=
    calculus.part present member
  cases statement with
  | declaration kind declarators span =>
      simp only [Statement.exec]
      have each (declarator : Declarator) (member : declarator ∈ declarators) :
          Present (.declarator declarator) := part (by simpa using member)
      exact calculus.bind (calculus.execDeclarators called known declarators each) fun _ _ _ _ =>
        calculus.pure (by simp)
  | function node =>
      simp only [Statement.exec]
      exact calculus.pure (by simp)
  | expression value span =>
      simp only [Statement.exec]
      exact calculus.bind (calculus.eval called known value (part (by simp))) fun _ _ _ _ =>
        calculus.pure (by simp)
  | returns argument span =>
      cases argument with
      | none =>
          simp only [Statement.exec]
          exact calculus.pure (by rintro _ ⟨⟩; exact calculus.plain trivial)
      | some argument =>
          simp only [Statement.exec]
          exact calculus.bind (calculus.eval called known argument (part (by simp)))
            fun _ _ _ good => calculus.pure (by rintro _ ⟨⟩; exact good)
  | block body span =>
      simp only [Statement.exec]
      -- A block has no scope of its own: its functions are declared in the scope around it.
      have inner (statement : Statement) (member : statement ∈ body) :
          Present (.statement statement) := part (by simpa using member)
      exact calculus.bind (calculus.hoist known body inner) fun _ _ grown _ =>
        execAll called (calculus.growScope grown known) body inner
  | empty span =>
      simp only [Statement.exec]
      exact calculus.pure (by simp)
  | unsupported kind span =>
      simp only [Statement.exec]
      exact calculus.bind (calculus.report _ rfl present rfl) fun _ _ _ _ =>
        calculus.pure (by simp)

theorem execAll (called : CallsHold Good Holds calls calls')
    {world : World} (known : Known world scope) (body : List Statement)
    (present : ∀ statement ∈ body, Present (.statement statement)) :
    Holds world (fun world completion => ∀ value, completion = .returned value → Good world value)
      (EventLoop.execAll calls scope body) (EventLoop.execAll calls' scope body) := by
  cases body with
  | nil =>
      simp only [EventLoop.execAll]
      exact calculus.pure (by simp)
  | cons statement rest =>
      obtain ⟨first, others⟩ := List.forall_mem_cons.mp present
      simp only [EventLoop.execAll]
      -- A return ends the list of statements, on both sides with the same value.
      refine calculus.bind (exec called known statement first) fun _ completion grown returned => ?_
      cases completion with
      | normal => exact execAll called (calculus.growScope grown known) rest others
      | returned value => exact calculus.pure returned

end

theorem execBody (called : CallsHold Good Holds calls calls')
    (known : Known world scope) (body : List Statement)
    (present : ∀ statement ∈ body, Present (.statement statement)) :
    Holds world (fun world completion => ∀ value, completion = .returned value → Good world value)
      (EventLoop.execBody calls scope body) (EventLoop.execBody calls' scope body) :=
  calculus.bind (calculus.hoist known body present) fun _ _ grown _ =>
    calculus.execAll called (calculus.growScope grown known) body present

theorem bindParams (known : Known world scope) (params : List Identifier) {arguments : List Value}
    (all : ∀ argument ∈ arguments, Good world argument) :
    Holds world (fun _ _ => True) (EventLoop.bindParams scope params arguments)
      (EventLoop.bindParams scope params arguments) := by
  induction params generalizing arguments world with
  | nil =>
      simp only [EventLoop.bindParams]
      exact calculus.pure trivial
  | cons param rest ih =>
      cases arguments with
      | nil =>
          exact calculus.bind (calculus.declare _ known (calculus.plain trivial))
            fun _ _ grown _ => ih (calculus.growScope grown known) (by simp)
      | cons argument others =>
          obtain ⟨good, all⟩ := List.forall_mem_cons.mp all
          exact calculus.bind (calculus.declare _ known good) fun _ _ grown _ =>
            ih (calculus.growScope grown known) fun other member =>
              calculus.grow grown (all other member)

theorem runBody (called : CallsHold Good Holds calls calls')
    (known : Known world scope) (body : FunctionBody) (present : Present body.node) :
    Holds world Good (body.run calls scope) (body.run calls' scope) := by
  cases body with
  | block body span =>
      have inner (statement : Statement) (member : statement ∈ body) :
          Present (.statement statement) := calculus.part present (by simpa [FunctionBody.node])
      refine calculus.bind (calculus.execBody called known body inner)
        fun _ completion _ returned => ?_
      cases completion with
      | normal => exact calculus.pure (calculus.plain trivial)
      | returned value => exact calculus.pure (returned value rfl)
  | expression value => exact calculus.eval called known value present

end Calls

end Calculus

namespace CallCalculus

variable {m n : Type → Type} [Monad m] [Actions m] [Monad n] [Actions n]
variable {World : Type} [Preorder World] {Present : SyntaxNode → Prop}
variable {Good : World → Value → Prop} {Known : World → ScopeId → Prop}
variable {Holds : ∀ {α : Type}, World → (World → α → Prop) → m α → n α → Prop}
variable {world : World} {callable : Callable} {arguments : List Value}

theorem enter (calculus : CallCalculus Present Good Known Holds) {calls : FunctionCalls m}
    {calls' : FunctionCalls n}
    (called : CallsHold Good Holds calls calls') (good : Good world (.function callable))
    (all : ∀ argument ∈ arguments, Good world argument) :
    Holds world Good (callable.enter calls arguments) (callable.enter calls' arguments) := by
  refine calculus.bind (calculus.createScope (calculus.closure good))
    fun _ scope created known => ?_
  refine calculus.bind
    (calculus.bindParams known _ fun argument member =>
      calculus.grow created (all argument member))
    fun _ _ grown _ => ?_
  have body : Present callable.node.body.node := calculus.part (calculus.code good) (by simp)
  exact calculus.runBody called (calculus.growScope grown known) _ body

end CallCalculus

-- The body of a call may only call with one frame less of room, which is what `inner` covers.
theorem Judgement.call_succ {m n : Type → Type} [Monad m] [Actions m] [Monad n] [Actions n]
    {World : Type} [Preorder World] {Present : SyntaxNode → Prop} {Good : World → Value → Prop}
    {Known : World → ScopeId → Prop}
    {Holds : ∀ {α : Type}, World → (World → α → Prop) → m α → n α → Prop}
    (judgement : Judgement Present Good Known Holds) {world : World} (room room' : Nat)
    (inner : CallsHold Good Holds (Callable.call room) (Callable.call room'))
    {callable : Callable} {arguments : List Value} (good : Good world (.function callable))
    (all : ∀ argument ∈ arguments, Good world argument) :
    Holds world Good (Callable.call (room + 1) callable arguments)
      (Callable.call (room' + 1) callable arguments) := by
  rw [Callable.call, Callable.call]
  exact judgement.withFrame _ _ (judgement.enter inner good all)

end EventLoop
