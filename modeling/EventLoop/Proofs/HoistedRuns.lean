import EventLoop.Proofs.Mirror

set_option autoImplicit false

/-!
# Runs of hoisted programs

Functions are bound before the list that declares them runs, so the place of a declaration in its
list has no effect.
-/

namespace EventLoop

open Simulation

section Places

variable {m : Type → Type} [Monad m] [Actions m]

theorem hoist_eq_filter (scope : ScopeId) (body : List Statement) :
    (hoist scope body : m Unit) = hoist scope (body.filter (·.isFunction)) := by
  induction body with
  | nil => rfl
  | cons statement rest ih =>
      cases statement with
      | function node =>
          rw [List.filter_cons_of_pos rfl]
          simp only [hoist, ← ih]
      | _ => exact ih

theorem execAll_eq_filter [LawfulMonad m] (calls : FunctionCalls m) (scope : ScopeId)
    (body : List Statement) :
    execAll calls scope body = execAll calls scope (body.filter (!·.isFunction)) := by
  induction body with
  | nil => rfl
  | cons statement rest ih =>
      cases statement with
      | function node =>
          -- A declaration does nothing when its turn comes.
          simp only [execAll, Statement.exec, pure_bind]
          exact ih
      | _ =>
          rw [List.filter_cons_of_pos rfl]
          simp only [execAll, ← ih]

@[simp]
theorem hoist_front (scope : ScopeId) (body : List Statement) :
    (hoist scope (front body) : m Unit) = hoist scope body := by
  rw [hoist_eq_filter, filter_isFunction_front, ← hoist_eq_filter]

@[simp]
theorem execAll_front [LawfulMonad m] (calls : FunctionCalls m) (scope : ScopeId)
    (body : List Statement) :
    execAll calls scope (front body) = execAll calls scope body := by
  rw [execAll_eq_filter, filter_not_isFunction_front, ← execAll_eq_filter]

end Places

theorem head?_map_hoisted (arguments : List Value) :
    (arguments.map Value.hoisted).head?.getD .undefined =
      (arguments.head?.getD .undefined).hoisted := by
  cases arguments <;> rfl

@[simp]
theorem map_ref_hoisted (site : Option CallSite) :
    (site.map CallSite.hoisted).map CallSite.ref = site.map CallSite.ref := by
  cases site <;> rfl

@[simp]
theorem map_span_hoisted (site : Option CallSite) :
    (site.map CallSite.hoisted).map CallSite.span = site.map CallSite.span := by
  cases site <;> rfl

theorem Timers.delayFor_hoisted (site : Option CallSite) (argument : Option Value) :
    delayFor (site.map CallSite.hoisted) (argument.map Value.hoisted) = delayFor site argument := by
  unfold delayFor
  congr 1
  cases site with
  | none => cases argument <;> simp
  | some site =>
      simp only [Option.map_some, CallSite.hoisted, hoistedExprs_eq_map, List.getElem?_map]
      cases site.arguments[1]? <;> simp

theorem Timers.timerNamed?_hoisted (arguments : List Value) :
    timerNamed? (arguments.map Value.hoisted) = timerNamed? arguments := by
  cases arguments <;> simp [timerNamed?]

theorem Handler.ofArguments_hoisted (arguments : List Value) :
    ofArguments (arguments.map Value.hoisted) = (ofArguments arguments).hoisted := by
  cases arguments with
  | nil => rfl
  | cons callback rest =>
      simp only [ofArguments, List.map_cons, List.head?_cons, Value.isCallable_hoisted]
      split <;> rfl

namespace Simulation.Mirrors

theorem fixed {value : Value} (same : value.hoisted = value) :
    Mirrors Value.hoisted (Pure.pure value) (Pure.pure value) := by
  intro _ machine
  rw [pure_apply, pure_apply, Outcome.hoisted, same]

theorem plain {value : Value} (plain : value.Plain) :
    Mirrors Value.hoisted (Pure.pure value) (Pure.pure value) :=
  fixed plain.hoisted_eq

theorem skip (problem : Problem) (span : Span) :
    Mirrors Value.hoisted (EventLoop.skip problem span) (EventLoop.skip problem span) :=
  bind (report problem (some span)) fun _ => pure _

theorem setTimeout (arguments : List Value) (site : Option CallSite) :
    Mirrors Value.hoisted (Timers.setTimeout arguments site)
      (Timers.setTimeout (arguments.map Value.hoisted) (site.map CallSite.hoisted)) := by
  unfold Timers.setTimeout
  simp only [head?_map_hoisted, Value.isCallable_hoisted, Value.callbackName_hoisted,
    List.getElem?_map, Timers.delayFor_hoisted, map_ref_hoisted, map_span_hoisted, ← List.map_drop]
  split
  next =>
    exact bind (addTask _ _ _ _) fun timer => pure _
  next => exact bind (report _ _) fun _ => pure _

theorem clearTimeout (arguments : List Value) (site : Option CallSite) :
    Mirrors Value.hoisted (Timers.clearTimeout arguments site)
      (Timers.clearTimeout (arguments.map Value.hoisted) (site.map CallSite.hoisted)) := by
  unfold Timers.clearTimeout
  rw [Timers.timerNamed?_hoisted, map_ref_hoisted]
  split
  next => exact pure _
  next timer _ => exact bind (removeTask timer _) fun _ => pure _

theorem queueMicrotask (arguments : List Value) (site : Option CallSite) :
    Mirrors Value.hoisted (Timers.queueMicrotask arguments site)
      (Timers.queueMicrotask (arguments.map Value.hoisted) (site.map CallSite.hoisted)) := by
  unfold Timers.queueMicrotask
  simp only [head?_map_hoisted, Value.isCallable_hoisted, Value.callbackName_hoisted,
    map_ref_hoisted, map_span_hoisted]
  split
  next =>
    exact bind (addMicrotask ⟨_, .callback _⟩ _) fun _ => pure _
  next => exact bind (report _ _) fun _ => pure _

theorem write (level : ConsoleLevel) (arguments : List Value) :
    Mirrors id (level.write arguments) (level.write (arguments.map Value.hoisted)) :=
  bind (inspect arguments) fun _ => writeLine level _

theorem promiseOf (value : Value) :
    Mirrors id (Reactions.promiseOf value) (Reactions.promiseOf value.hoisted) := by
  cases value with
  | promise promise => exact pure promise
  | _ => exact createPromise (.fulfilled _)

theorem enqueue (reaction : Reaction) (value : Value) :
    Mirrors id (Reactions.enqueue reaction value)
      (Reactions.enqueue reaction.hoisted value.hoisted) := by
  unfold Reactions.enqueue
  rw [Reaction.name_hoisted]
  exact addMicrotask ⟨_, .reaction reaction value⟩ _

theorem subscribe (source : PromiseId) (reaction : Reaction) :
    Mirrors id (Reactions.subscribe source reaction)
      (Reactions.subscribe source reaction.hoisted) := by
  refine bind (keepReaction source reaction) fun settled => ?_
  cases settled with
  | none => exact pure ()
  | some value => exact enqueue reaction value

theorem register (kind : ReactionKind) (source : PromiseId) (arguments : List Value) :
    Mirrors Value.hoisted (Reactions.register kind source arguments)
      (Reactions.register kind source (arguments.map Value.hoisted)) := by
  unfold Reactions.register
  rw [Handler.ofArguments_hoisted]
  refine bind (createPromise (.pending [])) fun derived => ?_
  exact bind (subscribe source ⟨kind, _, derived⟩) fun _ => pure _

theorem builtin (builtin : Builtin) (arguments : List Value) (site : Option CallSite) :
    Mirrors Value.hoisted (builtin.call arguments site)
      (builtin.call (arguments.map Value.hoisted) (site.map CallSite.hoisted)) := by
  show Mirrors _ (builtin.perform arguments site) (builtin.perform _ _)
  cases builtin with
  | setTimeout => exact setTimeout arguments site
  | clearTimeout => exact clearTimeout arguments site
  | queueMicrotask => exact queueMicrotask arguments site
  | consoleMethod level => exact bind (write level arguments) fun _ => pure _
  | promiseResolve =>
      simp only [Builtin.perform, Reactions.resolve, head?_map_hoisted]
      exact bind (promiseOf _) fun promise => pure _
  | promiseMethod kind promise => exact register kind promise arguments
  | console | promise => exact pure _

theorem named (name : String) (scope : ScopeId) (expr : Expr)
    {evaluated evaluated' : Simulation Value}
    (evaluates : Mirrors Value.hoisted evaluated evaluated') :
    Mirrors Value.hoisted (expr.named name scope evaluated)
      (expr.hoisted.named name scope evaluated') := by
  cases expr with
  | function node =>
      simp only [Expr.hoisted, Expr.named, FunctionNode.id_hoisted]
      split
      next => exact makeFunction (some name) node scope
      next => exact evaluates
  | _ => exact evaluates

theorem hoist (scope : ScopeId) (body : List Statement) :
    Mirrors id (EventLoop.hoist scope body) (EventLoop.hoist scope (hoistedStatements body)) := by
  induction body with
  | nil => exact pure ()
  | cons statement rest ih =>
      cases statement with
      | function node =>
          simp only [hoistedStatements, Statement.hoisted, EventLoop.hoist, FunctionNode.id_hoisted]
          cases node.id with
          | none => exact ih
          | some name =>
              refine bind (makeFunction none node scope) fun made => ?_
              exact bind (declare scope name.name made) fun _ => ih
      | returns argument span => cases argument <;> exact ih
      | _ => exact ih

abbrev MirrorCalls (calls calls' : FunctionCalls Simulation) : Prop :=
  ∀ callable arguments, Mirrors Value.hoisted (calls callable arguments)
    (calls' callable.hoisted (arguments.map Value.hoisted))

section Calls

variable {calls calls' : FunctionCalls Simulation} {scope : ScopeId}

theorem callFrom (called : MirrorCalls calls calls') (callee : Value) (arguments : List Value)
    (site : CallSite) :
    Mirrors Value.hoisted (EventLoop.callFrom calls callee arguments site)
      (EventLoop.callFrom calls' callee.hoisted (arguments.map Value.hoisted) site.hoisted) := by
  cases callee with
  | builtin host => exact builtin host arguments (some site)
  | function callable => exact called callable arguments
  | _ => exact pure _

mutual

theorem eval (called : MirrorCalls calls calls') (expr : Expr) :
    Mirrors Value.hoisted (expr.eval calls scope) (expr.hoisted.eval calls' scope) := by
  cases expr with
  | literal value span =>
      simp only [Expr.hoisted, Expr.eval]
      exact plain value.value_plain
  | identifier id =>
      simp only [Expr.hoisted, Expr.eval]
      exact lookup scope id.name
  | function node =>
      simp only [Expr.hoisted, Expr.eval]
      exact makeFunction none node scope
  | unary op argument span =>
      simp only [Expr.hoisted, Expr.eval]
      split
      next =>
        refine bind (eval called argument) fun value => ?_
        rw [op.apply_hoisted]
        exact plain (op.apply_plain value)
      next => exact skip _ _
  | binary op left right span =>
      simp only [Expr.hoisted, Expr.eval]
      refine bind (eval called left) fun left => bind (eval called right) fun right => ?_
      rw [op.result?_hoisted]
      split
      next result => exact plain (BinaryOp.result?_plain result)
      next => exact skip _ _
  | logical op left right span =>
      simp only [Expr.hoisted, Expr.eval]
      refine bind (eval called left) fun left => ?_
      rw [op.decides_hoisted]
      split
      next => exact pure left
      next => exact eval called right
  | conditional test consequent alternate span =>
      simp only [Expr.hoisted, Expr.eval]
      refine bind (eval called test) fun test => ?_
      rw [test.toBoolean_hoisted]
      split
      next => exact eval called consequent
      next => exact eval called alternate
  | assignment op target value span =>
      -- Only a plain assignment names the function that it assigns.
      by_cases simple : op = .assign
      next =>
        subst simple
        simp only [Expr.hoisted, Expr.eval]
        refine bind (named target.name scope value (eval called value)) fun value => ?_
        exact bind (assign scope target.name value) fun _ => pure value
      next =>
        simp only [Expr.hoisted, Expr.eval]
        split
        next => exact skip _ _
        next _ binary _ =>
          refine bind (lookup scope target.name) fun current =>
            bind (eval called value) fun right => ?_
          rw [binary.result?_hoisted]
          have result := binary.getD_result?_plain current right
          have assigned := assign scope target.name ((binary.result? current right).getD .undefined)
          rw [result.hoisted_eq] at assigned
          exact bind assigned fun _ => plain result
  | update op order target span =>
      simp only [Expr.hoisted, Expr.eval]
      refine bind (lookup scope target.name) fun old => ?_
      rw [old.toNumber_hoisted]
      exact bind (assign scope target.name (.number _)) fun _ => pure _
  | sequence items span =>
      simp only [Expr.hoisted, Expr.eval]
      exact evalLast called .undefined items
  | member object property span =>
      simp only [Expr.hoisted, Expr.eval]
      refine bind (eval called object) fun object => ?_
      rw [object.property_hoisted]
      exact fixed (object.hoisted_property property.name)
  | call callee arguments span =>
      simp only [Expr.hoisted, Expr.eval]
      refine bind (eval called callee) fun found => ?_
      rw [found.isCallable_hoisted, callee.calleeName_hoisted]
      split
      next =>
        exact bind (evalAll called arguments) fun values =>
          callFrom called found values ⟨arguments, span⟩
      next => exact skip _ _
  | unsupported kind span =>
      simp only [Expr.hoisted, Expr.eval]
      exact skip _ _

theorem evalAll (called : MirrorCalls calls calls') (exprs : List Expr) :
    Mirrors (List.map Value.hoisted) (EventLoop.evalAll calls scope exprs)
      (EventLoop.evalAll calls' scope (hoistedExprs exprs)) := by
  cases exprs with
  | nil =>
      simp only [hoistedExprs, EventLoop.evalAll]
      exact pure []
  | cons expr rest =>
      simp only [hoistedExprs, EventLoop.evalAll]
      refine bind (eval called expr) fun value => bind (evalAll called rest) fun values => ?_
      exact pure (value :: values)

theorem evalLast (called : MirrorCalls calls calls') (last : Value) (exprs : List Expr) :
    Mirrors Value.hoisted (EventLoop.evalLast calls scope last exprs)
      (EventLoop.evalLast calls' scope last.hoisted (hoistedExprs exprs)) := by
  cases exprs with
  | nil =>
      simp only [hoistedExprs, EventLoop.evalLast]
      exact pure last
  | cons expr rest =>
      simp only [hoistedExprs, EventLoop.evalLast]
      exact bind (eval called expr) fun value => evalLast called value rest

end

theorem execDeclarators (called : MirrorCalls calls calls') (declarators : List Declarator) :
    Mirrors id (EventLoop.execDeclarators calls scope declarators)
      (EventLoop.execDeclarators calls' scope (hoistedDeclarators declarators)) := by
  induction declarators with
  | nil => exact pure ()
  | cons declarator rest ih =>
      obtain ⟨target, init, span⟩ := declarator
      cases init with
      | none =>
          simp only [hoistedDeclarators, Declarator.hoisted, EventLoop.execDeclarators]
          refine bind (fixed rfl) fun value => ?_
          exact bind (declare scope target.name value) fun _ => ih
      | some init =>
          simp only [hoistedDeclarators, Declarator.hoisted, EventLoop.execDeclarators]
          refine bind (named target.name scope init (eval called init)) fun value => ?_
          exact bind (declare scope target.name value) fun _ => ih

mutual

theorem exec (called : MirrorCalls calls calls') (statement : Statement) :
    Mirrors Completion.hoisted (statement.exec calls scope)
      (statement.hoisted.exec calls' scope) := by
  cases statement with
  | declaration kind declarators span =>
      simp only [Statement.hoisted, Statement.exec]
      exact bind (execDeclarators called declarators) fun _ => pure _
  | function node =>
      simp only [Statement.hoisted, Statement.exec]
      exact pure _
  | expression value span =>
      simp only [Statement.hoisted, Statement.exec]
      exact bind (eval called value) fun _ => pure _
  | returns argument span =>
      cases argument with
      | none =>
          simp only [Statement.hoisted, Statement.exec]
          exact pure _
      | some argument =>
          simp only [Statement.hoisted, Statement.exec]
          exact bind (eval called argument) fun value => pure _
  | block body span =>
      -- Bringing the declarations to the front changes neither what is hoisted nor what is
      -- executed.
      simp only [Statement.hoisted, Statement.exec, hoist_front, execAll_front]
      exact bind (hoist scope body) fun _ => execAll called body
  | empty span =>
      simp only [Statement.hoisted, Statement.exec]
      exact pure _
  | unsupported kind span =>
      simp only [Statement.hoisted, Statement.exec]
      exact bind (report _ _) fun _ => pure _

theorem execAll (called : MirrorCalls calls calls') (body : List Statement) :
    Mirrors Completion.hoisted (EventLoop.execAll calls scope body)
      (EventLoop.execAll calls' scope (hoistedStatements body)) := by
  cases body with
  | nil =>
      simp only [hoistedStatements, EventLoop.execAll]
      exact pure _
  | cons statement rest =>
      simp only [hoistedStatements, EventLoop.execAll]
      refine bind (exec called statement) fun completion => ?_
      cases completion with
      | normal => exact execAll called rest
      | returned value => exact pure _

end

theorem execBody (called : MirrorCalls calls calls') (body : List Statement) :
    Mirrors Completion.hoisted (EventLoop.execBody calls scope body)
      (EventLoop.execBody calls' scope (front (hoistedStatements body))) := by
  simp only [EventLoop.execBody, hoist_front, execAll_front]
  exact bind (hoist scope body) fun _ => execAll called body

theorem runBody (called : MirrorCalls calls calls') (body : FunctionBody) :
    Mirrors Value.hoisted (body.run calls scope) (body.hoisted.run calls' scope) := by
  cases body with
  | block body span =>
      simp only [FunctionBody.hoisted, FunctionBody.run]
      refine bind (execBody called body) fun completion => ?_
      cases completion with
      | normal => exact pure _
      | returned value => exact pure value
  | expression value =>
      simp only [FunctionBody.hoisted, FunctionBody.run]
      exact eval called value

end Calls

theorem bindParams (scope : ScopeId) (params : List Identifier) (arguments : List Value) :
    Mirrors id (EventLoop.bindParams scope params arguments)
      (EventLoop.bindParams scope params (arguments.map Value.hoisted)) := by
  induction params generalizing arguments with
  | nil =>
      simp only [EventLoop.bindParams]
      exact pure ()
  | cons param rest ih =>
      cases arguments with
      | nil => exact bind (declare scope param.name .undefined) fun _ => ih []
      | cons argument others => exact bind (declare scope param.name argument) fun _ => ih others

theorem call (room : Nat) (callable : Callable) (arguments : List Value) :
    Mirrors Value.hoisted (Callable.call room callable arguments)
      (Callable.call room callable.hoisted (arguments.map Value.hoisted)) := by
  induction room generalizing callable arguments with
  | zero =>
      simp only [Callable.call, Callable.hoisted, FunctionNode.span_hoisted]
      exact bind settings fun limits => skip _ _
  | succ room ih =>
      rw [Callable.call, Callable.call]
      simp only [Callable.enter, Callable.hoisted, FunctionNode.ref_hoisted,
        FunctionNode.params_hoisted, FunctionNode.body_hoisted]
      -- The body calls with one frame less of room.
      apply withFrame
      refine bind (createScope callable.scope) fun scope => ?_
      exact bind (bindParams scope _ arguments) fun _ => runBody ih callable.node.body

theorem callValue (callee : Value) (arguments : List Value) :
    Mirrors Value.hoisted (EventLoop.callValue callee arguments)
      (EventLoop.callValue callee.hoisted (arguments.map Value.hoisted)) := by
  cases callee with
  | function callable =>
      exact fun settings machine => call settings.maxCallDepth callable arguments settings machine
  | builtin host => exact builtin host arguments none
  | _ => exact pure _

theorem enqueueAll (value : Value) (reactions : List Reaction) :
    Mirrors id (Reactions.enqueueAll value reactions)
      (Reactions.enqueueAll value.hoisted (reactions.map Reaction.hoisted)) := by
  induction reactions with
  | nil => exact pure ()
  | cons reaction rest ih => exact bind (enqueue reaction value) fun _ => ih

theorem settle (promise : PromiseId) (value : Value) :
    Mirrors id (Reactions.settle promise value) (Reactions.settle promise value.hoisted) := by
  have noted : Mirrors id (Actions.note (.settle promise value))
      (Actions.note (.settle promise value.hoisted)) := fun _ _ => rfl
  refine bind noted fun _ => ?_
  cases value with
  | promise other =>
      simp only [Value.hoisted]
      split
      next => exact pure ()
      next => exact addMicrotask ⟨_, .follow promise other⟩ _
  | _ => exact bind (fulfill promise _) fun reactions => enqueueAll _ reactions

theorem restoreAfter (outcome saved : Value) :
    Mirrors Value.hoisted (Reactions.restoreAfter outcome saved)
      (Reactions.restoreAfter outcome.hoisted saved.hoisted) := by
  refine bind (promiseOf outcome) fun waited => ?_
  refine bind (createPromise (.pending [])) fun restored => ?_
  refine bind (subscribe waited ⟨.onFinally, .restore saved, restored⟩) fun _ => ?_
  exact pure _

theorem result (reaction : Reaction) (value : Value) :
    Mirrors Value.hoisted (Reactions.result EventLoop.callValue reaction value)
      (Reactions.result EventLoop.callValue reaction.hoisted value.hoisted) := by
  obtain ⟨kind, handler, derived⟩ := reaction
  cases handler with
  | callback callback =>
      cases kind with
      | onThen => exact callValue callback [value]
      | onCatch => exact pure value
      | onFinally =>
          exact bind (callValue callback []) fun outcome => restoreAfter outcome value
  | passThrough => cases kind <;> exact pure value
  | restore saved => cases kind <;> exact pure saved

theorem job (job : Job) : Mirrors id job.run job.hoisted.run := by
  cases job with
  | callback value => exact bind (callValue value []) fun _ => pure ()
  | reaction waiting value =>
      exact bind (result waiting value) fun outcome => settle waiting.derived outcome
  | follow promise other => exact subscribe other ⟨.onThen, .passThrough, promise⟩

theorem runMicrotask (microtask : Microtask) :
    Mirrors id (EventLoop.runMicrotask microtask) (EventLoop.runMicrotask microtask.hoisted) := by
  refine bind traceSize fun firstStep => bind (job microtask.job) fun _ => ?_
  simp only [Microtask.hoisted, Job.ref?_hoisted]
  exact record _ _

theorem runTask (task : Task) :
    Mirrors id (EventLoop.runTask task) (EventLoop.runTask task.hoisted) := by
  refine bind traceSize fun firstStep => ?_
  refine bind (callValue task.callback task.arguments) fun _ => ?_
  simp only [Task.hoisted, Value.callbackRef?_hoisted]
  exact record _ _

theorem turn : Mirrors id turn turn := by
  refine bind dequeueMicrotask? fun microtask => ?_
  cases microtask with
  | some microtask => exact bind (runMicrotask microtask) fun _ => pure true
  | none =>
      refine bind dequeueTask? fun task => ?_
      cases task with
      | some task => exact bind (runTask task) fun _ => pure true
      | none => exact pure false

theorem turns (most : Nat) : Mirrors id (turns most) (turns most) := by
  induction most with
  | zero => exact pure ()
  | succ more ih =>
      refine bind turn fun ran => ?_
      cases ran with
      | true => exact ih
      | false => exact pure ()

theorem runQueues : Mirrors id runQueues runQueues :=
  bind settings fun _ => bind traceSize fun _ => turns _

theorem prologue (program : Program) : Mirrors id program.prologue program.hoisted.prologue := by
  refine bind (record .start none) fun _ settings machine => ?_
  exact bind (execBody (call settings.maxCallDepth) program.body) (fun _ => pure ()) settings
    machine

theorem simulate (program : Program) : Mirrors id program.simulate program.hoisted.simulate :=
  bind (prologue program) fun _ => runQueues

end Simulation.Mirrors

@[simp]
theorem Machine.initial_hoisted : Machine.initial.hoisted = .initial := by
  simp [Machine.hoisted, Machine.initial, Scopes.hoisted, Scopes.initial, Scope.hoisted,
    Bindings.hoisted, TaskQueue.hoisted, TaskQueue.empty, MicrotaskQueue.hoisted,
    MicrotaskQueue.empty, Promises.hoisted, Promises.initial]

@[simp]
theorem Outcome.toRun_hoisted (outcome : Outcome Unit) :
    (outcome.hoisted id).toRun = outcome.toRun := by
  cases outcome <;> rfl

theorem Program.run_hoisted (program : Program) (settings : Settings) :
    program.hoisted.run settings = program.run settings := by
  have mirrored := Mirrors.simulate program settings .initial
  rw [Machine.initial_hoisted] at mirrored
  rw [Program.run, mirrored, Outcome.toRun_hoisted, Program.run]

/-- The place of function declarations in their lists, at any depth, has no effect on a run. -/
theorem Program.run_eq_of_moved (program program' : Program) (moved : program.Moved program')
    (settings : Settings) : program'.run settings = program.run settings := by
  calc program'.run settings
    _ = program'.hoisted.run settings := (program'.run_hoisted settings).symm
    _ = program.hoisted.run settings := by rw [moved.hoisted_eq]
    _ = program.run settings := program.run_hoisted settings

def callsFirst (arrange : List Statement → List Statement) : Program :=
  let named (name : String) : Expr := .identifier ⟨name, default⟩
  let call (callee : Expr) (arguments : List Expr) : Statement :=
    .expression (.call callee arguments default) default
  let declare (name : String) (body : List Statement) : Statement :=
    .function ⟨.declaration, some ⟨name, default⟩, [], .block (arrange body) default, default⟩
  let say := declare "say"
    [call (.member (named "console") ⟨"log", default⟩ default) [.literal (.string "said") default]]
  let later := declare "later" [.block (arrange [call (named "say") [], say]) default]
  let start := declare "start"
    [call (named "setTimeout") [named "later"], .returns none default, later]
  ⟨arrange [call (named "start") [], start], default⟩

theorem callsFirst_moved : (callsFirst id).Moved (callsFirst front) := by
  refine .body (.front (.consStatement (.sameStatement _) (.consStatement ?_ .noStatements))) _
  -- The body of `start`, and of `later` in it.
  refine .functionStatement (.functionBlock _ _ _ (.front ?_) _ _)
  refine .consStatement (.sameStatement _) (.consStatement (.sameStatement _) ?_)
  refine .consStatement (.functionStatement ?_) .noStatements
  refine .functionBlock _ _ _ (.front (.consStatement (.block (.front ?_) _) .noStatements)) _ _
  -- The block, and the body of `say` in it.
  refine .consStatement (.sameStatement _) (.consStatement (.functionStatement ?_) .noStatements)
  exact .functionBlock _ _ _ (.front (.consStatement (.sameStatement _) .noStatements)) _ _

theorem callsFirst_run_front :
    (callsFirst id).body.map (·.isFunction) = [false, true] ∧
    (callsFirst front).body.map (·.isFunction) = [true, false] ∧
    (callsFirst id).Moved (callsFirst front) ∧
    ((callsFirst id).run {}).console.toList.map (·.text) = ["said"] ∧
    (callsFirst front).run {} = (callsFirst id).run {} := by
  refine ⟨rfl, rfl, callsFirst_moved, by decide +kernel, ?_⟩
  exact Program.run_eq_of_moved _ _ callsFirst_moved {}

end EventLoop
