import EventLoop.Proofs.Invocations
import EventLoop.Proofs.Passages
import EventLoop.Proofs.ScopeChains

set_option autoImplicit false

/-!
# Calls leave the scopes of others alone

What a function declares, its parameters and the functions in its body are bound in the scope that
the call makes.
-/

namespace EventLoop

open Simulation

def Program.Unassigning (program : Program) : Prop :=
  ∀ expr, program.HasNode (.expression expr) → expr.assigns = false

def Scopes.SameBelow (floor : Nat) (before after : Scopes) : Prop :=
  ∀ scope, scope < floor → after.all[scope]? = before.all[scope]?

namespace Scopes.SameBelow

variable {floor : Nat} {before middle after : Scopes}

theorem refl (floor : Nat) (scopes : Scopes) : SameBelow floor scopes scopes := fun _ _ => rfl

theorem trans (early : SameBelow floor before middle) (late : SameBelow floor middle after) :
    SameBelow floor before after :=
  fun scope below => (late scope below).trans (early scope below)

theorem le_size (same : SameBelow floor before after) (known : floor ≤ before.size) :
    floor ≤ after.size := by
  by_contra lost
  have below : after.size < floor := Nat.lt_of_not_le lost
  have kept := same after.size below
  have missing : after.all[after.size]? = none := Array.getElem?_eq_none (Nat.le_refl _)
  have found := Array.getElem?_eq_getElem (Nat.lt_of_lt_of_le below known)
  rw [missing, found] at kept
  cases kept

theorem declare {scope : ScopeId} (above : floor ≤ scope) (scopes : Scopes) (name : String)
    (value : Value) : SameBelow floor scopes (scopes.declare scope name value) :=
  fun _ below => Scopes.declare_of_ne (Nat.ne_of_gt (Nat.lt_of_lt_of_le below above)) name value

theorem create {scopes : Scopes} (known : floor ≤ scopes.size) (outer : ScopeId) :
    SameBelow floor scopes (scopes.create outer).2 := by
  intro scope below
  have different : scope ≠ scopes.all.size := Nat.ne_of_lt (Nat.lt_of_lt_of_le below known)
  simp only [Scopes.create, Array.getElem?_push]
  exact if_neg different

end Scopes.SameBelow

-- Nothing comes in that does not come from the program, and every machine on the way has the same
-- scopes below the floor.
def Confined (program : Program) (floor : Nat) {α : Type} (Post : α → Prop) (sim : Simulation α) :
    Prop :=
  ∀ settings machine, machine.From program → floor ≤ machine.scopes.size →
    (sim settings machine).From program Post ∧
      ∃ passed, Passes settings sim machine passed ∧
        ∀ reached ∈ passed, machine.scopes.SameBelow floor reached.scopes

def LeavesScopes {α : Type} (sim : Simulation α) : Prop :=
  ∀ settings machine, ∃ passed, Passes settings sim machine passed ∧
    ∀ reached ∈ passed, reached.scopes = machine.scopes

theorem Passes.end_mem {settings : Settings} {α : Type} {sim : Simulation α} {machine : Machine}
    {passed : List Machine} (passes : Passes settings sim machine passed) :
    (sim settings machine).machine ∈ machine :: passed :=
  List.mem_of_getLast? passes.getLast?_eq

namespace LeavesScopes

variable {α β : Type}

theorem single {sim : Simulation α} (single : Single sim)
    (same : ∀ settings machine, (sim settings machine).machine.scopes = machine.scopes) :
    LeavesScopes sim :=
  fun settings machine => ⟨_, .single single machine, by simpa using same settings machine⟩

theorem bind {first : Simulation α} {next : α → Simulation β} (firsts : LeavesScopes first)
    (nexts : ∀ value, Returns first value → LeavesScopes (next value)) :
    LeavesScopes (first >>= next) := by
  intro settings machine
  obtain ⟨early, passesFirst, same⟩ := firsts settings machine
  cases ran : first settings machine with
  | halted after => exact ⟨early, .halt ran passesFirst, same⟩
  | done value middle =>
    obtain ⟨late, passesNext, sameToo⟩ := nexts value ⟨_, _, _, ran⟩ settings middle
    have between : middle.scopes = machine.scopes := by
      have ends := passesFirst.end_mem
      rw [ran] at ends
      rcases List.mem_cons.mp ends with rfl | member
      · rfl
      · exact same middle member
    refine ⟨early ++ late, .next ran passesFirst passesNext, ?_⟩
    rw [List.forall_mem_append]
    exact ⟨same, fun reached member => (sameToo reached member).trans between⟩

theorem record (event : Event) (node : Option NodeRef) : LeavesScopes (record event node) := by
  refine single (.record event node) fun settings machine => ?_
  unfold Simulation.record
  split <;> rfl

theorem pure (value : α) : LeavesScopes (Pure.pure value) :=
  fun _ machine => ⟨[], .pure value machine, by simp⟩

theorem hostRespects : HostRespects Returned fun sim _ => LeavesScopes sim where
  answers := Returned.answers
  pure := pure
  uncallable := pure _
  called _ _ _ _ leaves := leaves
  bind firsts nexts := bind firsts fun value returns => nexts value (.inl returns)
  report problem span running := single (.action (.report problem span running)) fun _ _ => rfl
  writeLine level text := single (.action (.writeLine level text)) fun _ _ => rfl
  inspect _ := single (.action (.read _)) fun _ _ => rfl
  createPromise state := single (.action (.createPromise state)) fun _ _ => rfl
  keepReaction id reaction := single (.action (.keepReaction id reaction)) fun _ _ => rfl
  addMicrotask microtask node :=
    bind (single (.action (.enqueueMicrotask microtask)) fun _ _ => rfl) fun _ _ => record _ node
  addTask entry callback arguments node := by
    refine bind (single (.action .nextTimer) fun _ _ => rfl) fun id _ => ?_
    refine bind (single (.action (.enqueueTask _)) fun _ _ => rfl) fun _ _ => ?_
    exact bind (record _ node) fun _ _ => pure id
  removeTask id node := by
    refine bind (single (.action (.cancelTask id)) fun _ machine => ?_) fun cancelled _ => ?_
    · simp only [Actions.cancelTask?, cancelTask?, update]
      cases machine.tasks.cancel? id <;> rfl
    · cases cancelled with
      | none => exact pure ()
      | some task => exact record _ node

end LeavesScopes

namespace Confined

variable {program : Program} {floor : Nat} {α β : Type}

theorem pure {Post : α → Prop} {value : α} (post : Post value) :
    Confined program floor Post (Pure.pure value) :=
  fun _ machine source _ => ⟨⟨source, post⟩, [], .pure value machine, by simp⟩

theorem single {Post : α → Prop} {sim : Simulation α} (single : Single sim)
    (sourced : Sourced program Post sim)
    (same : ∀ settings (machine : Machine), floor ≤ machine.scopes.size →
      machine.scopes.SameBelow floor (sim settings machine).machine.scopes) :
    Confined program floor Post sim :=
  fun settings machine source known => ⟨sourced settings machine source, _,
    .single single machine, by simpa using same settings machine known⟩

theorem of_leavesScopes {Post : α → Prop} {sim : Simulation α} (sourced : Sourced program Post sim)
    (leaves : LeavesScopes sim) : Confined program floor Post sim := by
  intro settings machine source known
  obtain ⟨passed, passes, same⟩ := leaves settings machine
  refine ⟨sourced settings machine source, passed, passes, fun reached member => ?_⟩
  rw [same reached member]
  exact .refl floor _

theorem bind {Mid : α → Prop} {Post : β → Prop} {first : Simulation α} {next : α → Simulation β}
    (firsts : Confined program floor Mid first)
    (nexts : ∀ value, Mid value → Confined program floor Post (next value)) :
    Confined program floor Post (first >>= next) := by
  intro settings machine source known
  obtain ⟨ends, early, passesFirst, same⟩ := firsts settings machine source known
  rw [bind_apply]
  cases ran : first settings machine with
  | halted after =>
    rw [ran] at ends
    exact ⟨ends, early, .halt ran passesFirst, same⟩
  | done value middle =>
    have between : machine.scopes.SameBelow floor middle.scopes := by
      have all := List.forall_mem_cons.mpr ⟨.refl floor machine.scopes, same⟩
      have last := passesFirst.end_mem
      rw [ran] at last
      exact all middle last
    rw [ran] at ends
    obtain ⟨endsToo, late, passesNext, sameToo⟩ :=
      nexts value ends.2 settings middle ends.1 (between.le_size known)
    refine ⟨endsToo, early ++ late, .next ran passesFirst passesNext, ?_⟩
    rw [List.forall_mem_append]
    exact ⟨same, fun reached member => between.trans (sameToo reached member)⟩

theorem record {event : Event} {node : Option NodeRef}
    (sourced : Sourced program (fun _ => True) (record event node)) :
    Confined program floor (fun _ => True) (Simulation.record event node) :=
  of_leavesScopes sourced (LeavesScopes.record event node)

theorem builtin {arguments : List Value} (all : ∀ argument ∈ arguments, argument.From program)
    {site : Option CallSite} (sited : ∀ place ∈ site, place.From program) (builtin : Builtin) :
    Confined program floor (Value.From program) (builtin.call arguments site) :=
  of_leavesScopes (.builtin all sited builtin)
    (LeavesScopes.hostRespects.builtin builtin arguments site)

theorem calculus {World : Type} [Preorder World] (unassigning : program.Unassigning) (floor : Nat) :
    Calculus (m := Simulation) (n := Simulation) program.HasNode
      (fun (_ : World) value => value.From program)
      (fun _ scope => floor ≤ scope)
      fun world Post sim _ => Confined program floor (Post world) sim where
  part present member := present.child member
  plain plain := plain.comesFrom
  method _ _ := trivial
  grow _ good := good
  growScope _ known := known
  pure post := pure post
  bind firsts nexts := firsts.bind fun value mid => nexts _ value le_rfl mid
  report problem node span running present place := by
    have sourced : Sourced program (fun _ => True) (report problem (some span)) :=
      .report problem (by rintro _ ⟨⟩; exact ⟨node, present, place⟩)
    exact single (.action (.report problem (some span) running)) sourced fun _ _ _ => .refl _ _
  makeFunction bound present _ :=
    single (.action (.makeFunction _ _ _)) (.makeFunction present bound _) fun _ _ _ => .refl _ _
  declare name above good :=
    single (.action (.declare _ name _)) (.declare _ name good) fun _ machine _ =>
      .declare above machine.scopes name _
  -- There are no assignments, so only declarations write, and those to the scope of the call.
  assign _ present assigns _ _ := by
    rw [unassigning _ present] at assigns
    cases assigns
  lookup name _ := single (.action (.read _)) (.lookup _ name) fun _ _ _ => .refl _ _
  builtin present _ _ all := builtin all (by rintro _ ⟨⟩; exact ⟨_, present⟩) _

theorem createScope (outer : ScopeId) :
    Confined program floor (floor ≤ ·) (createScope outer) := by
  intro settings machine source known
  refine ⟨⟨(Sourced.createScope outer settings machine source).1, known⟩, _,
    .single (.action (.createScope outer)) machine, ?_⟩
  rw [List.forall_mem_singleton]
  exact .create known outer

theorem withFrame {callable : Callable} (good : Value.From program (.function callable))
    {body : Simulation α} {Post : α → Prop} (bodies : Confined program floor Post body) :
    Confined program floor Post (withFrame callable.name (some callable.node.ref) body) := by
  have pushes : Confined program floor (fun _ => True) (pushFrame callable.name) :=
    single (.pushFrame callable.name) (.pushFrame good.2) fun _ _ _ => .refl _ _
  have pops : Confined program floor (fun _ => True) popFrame :=
    single .popFrame .popFrame fun _ _ _ => .refl _ _
  refine pushes.bind fun _ _ => (record (.recordFrame good (.inl rfl))).bind fun _ _ => ?_
  refine bodies.bind fun _ post => pops.bind fun _ _ => ?_
  exact (record (.recordFrame good (.inr rfl))).bind fun _ _ => pure post

section Calls

variable (unassigning : program.Unassigning)

include unassigning

theorem enter {room : Nat}
    (inner : ∀ {callable : Callable} {arguments : List Value},
      Value.From program (.function callable) → (∀ argument ∈ arguments, argument.From program) →
        Confined program floor (Value.From program) (callable.call room arguments))
    {callable : Callable} {arguments : List Value}
    (good : Value.From program (.function callable))
    (all : ∀ argument ∈ arguments, argument.From program) :
    Confined program floor (Value.From program)
      (callable.enter (Callable.call room) arguments) := by
  have rules := @calculus program Unit _ unassigning floor
  have body : program.HasNode callable.node.body.node := good.1.child (by simp)
  -- The closure's own scope may be below the floor, but only as the outer one of the new scope.
  refine (createScope callable.scope).bind fun scope above => ?_
  have binds := @Calculus.bindParams _ _ _ _ _ _ _ _ _ _ _ _ rules () scope above
    callable.node.params _ all
  let calls : FunctionCalls Simulation := Callable.call room
  exact binds.bind fun _ _ =>
    @Calculus.runBody _ _ _ _ _ _ _ _ _ _ _ _ rules () scope calls calls inner above _ body

theorem call (room : Nat) {callable : Callable} {arguments : List Value}
    (good : Value.From program (.function callable))
    (all : ∀ argument ∈ arguments, argument.From program) :
    Confined program floor (Value.From program) (callable.call room arguments) := by
  induction room generalizing callable arguments with
  | zero =>
    have asks : Confined program floor (fun _ => True) settings :=
      fun _ machine source _ => ⟨⟨source, trivial⟩, [], .settings machine, by simp⟩
    have rules := @calculus program Unit _ unassigning floor
    exact asks.bind fun _ _ => @Calculus.skip _ _ _ _ _ _ _ _ _ _ _ _ rules () _ rfl _ good.1 _ rfl
  | succ room ih =>
    rw [Callable.call]
    exact withFrame good (enter unassigning ih good all)

end Calls

end Confined

/-- In a run of a program without assignments no invocation changes the scopes that are there when
it starts, neither in the end nor after any single action on the way. This is so for calls from
code, from timers, microtasks and reactions, and whether they end, are refused or are halted. -/
theorem Program.calls_keep_scopes (program : Program) (unassigning : program.Unassigning)
    (settings : Settings) {room : Nat} {invocation : FunctionInvocation}
    (invoked : program.Invokes settings room invocation) :
    let call : Simulation Value := invocation.callable.call room invocation.arguments
    let before := invocation.machine.scopes
    (∀ scope, scope < before.size →
      (call settings invocation.machine).machine.scopes.all[scope]? = before.all[scope]?) ∧
    ∃ passed, Passes settings call invocation.machine passed ∧
      ∀ reached ∈ passed, ∀ scope, scope < before.size →
        reached.scopes.all[scope]? = before.all[scope]? := by
  have comes := invoked.comesFrom
  obtain ⟨-, passed, passes, same⟩ := Confined.call unassigning room comes.callable comes.arguments
    settings invocation.machine comes.machine (Nat.le_refl _)
  refine ⟨?_, passed, passes, same⟩
  have all := List.forall_mem_cons.mpr ⟨.refl _ invocation.machine.scopes, same⟩
  exact all _ passes.end_mem

def declaringFunction : FunctionNode :=
  let declared : Declarator := ⟨⟨"y", default⟩, some (.identifier ⟨"x", default⟩), default⟩
  ⟨.expression, none, [⟨"x", default⟩],
    .block [.declaration .varKind [declared] default] default, default⟩

def declaringCall : Program :=
  ⟨[.expression (.call (.function declaringFunction) [.literal (.boolean true) default] default)
    default], default⟩

theorem declaringCall_unassigning : declaringCall.Unassigning := by
  let call : Expr := .call (.function declaringFunction) [.literal (.boolean true) default] default
  let declared : Declarator := ⟨⟨"y", default⟩, some (.identifier ⟨"x", default⟩), default⟩
  let declares : Statement := .declaration .varKind [declared] default
  have known {node : SyntaxNode} (present : declaringCall.HasNode node) :
      node ∈ [.statement (.expression call default), .expression call,
        .expression (.function declaringFunction), .expression (.literal (.boolean true) default),
        .function declaringFunction, .statement (.block [declares] default), .statement declares,
        .declarator declared, .expression (.identifier ⟨"x", default⟩),
        .identifier ⟨"x", default⟩, .identifier ⟨"y", default⟩] := by
    induction present with
    | top member => simp_all [declaringCall, call]
    | child above member ih =>
      simp only [List.mem_cons, List.not_mem_nil, or_false] at ih
      rcases ih with rfl | rfl | rfl | rfl | rfl | rfl | rfl | rfl | rfl | rfl | rfl
      all_goals simp [call, declares, declared, declaringFunction, FunctionBody.node] at member ⊢
      all_goals grind
  intro expr present
  have member := known present
  simp only [List.mem_cons, List.not_mem_nil, or_false, SyntaxNode.expression.injEq, reduceCtorEq,
    false_or] at member
  rcases member with rfl | rfl | rfl | rfl
  all_goals rfl

def declaringInvocation : FunctionInvocation :=
  ⟨⟨0, "anonymous", declaringFunction, 0⟩, [.boolean true], { Machine.started with callables := 1 }⟩

theorem declaringCall_invokes : declaringCall.Invokes {} 256 declaringInvocation := by
  refine @Program.Invokes.program declaringCall {} declaringInvocation fun left => ?_
  have starts : record .start none {} .initial = .done () .started := record_start (by decide)
  have breaks : declaringInvocation.breaking left (Callable.call 256) declaringInvocation.callable
      declaringInvocation.arguments {} declaringInvocation.machine = .halted left := if_pos rfl
  generalize declaringInvocation.breaking left (Callable.call 256) = calls at breaks
  have called : Expr.eval calls Scopes.global
      (.call (.function declaringFunction) [.literal (.boolean true) default] default) {}
      .started = .halted left := breaks
  have stops {α β : Type} {sim : Simulation α} {next : α → Simulation β}
      (halts : sim {} .started = .halted left) : (sim >>= next) {} .started = .halted left := by
    rw [bind_apply, halts]
  have body : execBody calls Scopes.global declaringCall.body {} .started = .halted left := by
    have hoisted : hoist (m := Simulation) Scopes.global declaringCall.body {} .started =
        .done () .started := rfl
    rw [execBody, bind_apply, hoisted]
    exact stops (stops called)
  rw [Program.prologueWith, bind_apply, starts]
  exact stops body

theorem declaringCall_keeps_scopes :
    (declaringInvocation.callable.call (m := Simulation) 256 declaringInvocation.arguments {}
      declaringInvocation.machine).machine.scopes.size = 2 ∧
    (declaringInvocation.callable.call (m := Simulation) 256 declaringInvocation.arguments {}
      declaringInvocation.machine).machine.scopes.all[0]? =
      declaringInvocation.machine.scopes.all[0]? := by
  have keeps := (declaringCall.calls_keep_scopes declaringCall_unassigning {}
    declaringCall_invokes).1
  exact ⟨by decide +kernel, keeps 0 (by decide)⟩

end EventLoop
