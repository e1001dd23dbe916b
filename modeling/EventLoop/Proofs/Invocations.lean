import EventLoop.Proofs.Provenance

set_option autoImplicit false

/-!
# Invocations

The calls of functions that take place in a run, each with its arguments and with the machine at
that moment.
-/

namespace EventLoop

open Simulation

structure FunctionInvocation where
  callable : Callable
  arguments : List Value
  machine : Machine

open Classical in
noncomputable def FunctionInvocation.breaking (invocation : FunctionInvocation) (left : Machine)
    (calls : FunctionCalls Simulation) : FunctionCalls Simulation :=
      fun callable arguments settings machine =>
  if (⟨callable, arguments, machine⟩ : FunctionInvocation) = invocation then .halted left
  else calls callable arguments settings machine

/-- Code gets to an invocation: if that one broke off, so would the code, whatever was left. -/
def GetsTo {α : Type} (code : FunctionCalls Simulation → Simulation α)
    (calls : FunctionCalls Simulation) (settings : Settings) (machine : Machine)
    (invocation : FunctionInvocation) : Prop :=
  ∀ left, code (invocation.breaking left calls) settings machine = .halted left

def Program.prologueWith (program : Program) (calls : FunctionCalls Simulation) :
    Simulation Unit := do
  record .start none
  let _ ← execBody calls Scopes.global program.body
  return

def Callable.callWith (callable : Callable) (arguments : List Value)
    (calls : FunctionCalls Simulation) : Simulation Value :=
  withFrame callable.name (some callable.node.ref) (callable.enter calls arguments)

inductive Program.Invokes (program : Program) (settings : Settings) :
    Nat → FunctionInvocation → Prop where
  | program {invocation : FunctionInvocation}
      (getsTo : GetsTo program.prologueWith (Callable.call settings.maxCallDepth) settings .initial
        invocation) : Invokes program settings settings.maxCallDepth invocation
  | function {room : Nat} {caller invocation : FunctionInvocation}
      (invoked : Invokes program settings (room + 1) caller)
      (getsTo : GetsTo (caller.callable.callWith caller.arguments) (Callable.call room) settings
        caller.machine invocation) : Invokes program settings room invocation
  | timer {before : Machine} {task : Task} {rest : List Task} {callable : Callable}
      (boundary : Boundary program settings before) (drained : before.microtasks.microtasks = [])
      (next : before.tasks.tasks = task :: rest) (callback : task.callback = .function callable) :
      Invokes program settings settings.maxCallDepth
        ⟨callable, task.arguments,
          { before with
            tasks := { before.tasks with tasks := rest }
            clock := before.clock.advance task.delay }⟩
  | microtask {before : Machine} {name : String} {callable : Callable} {rest : List Microtask}
      (boundary : Boundary program settings before)
      (next : before.microtasks.microtasks = ⟨name, .callback (.function callable)⟩ :: rest) :
      Invokes program settings settings.maxCallDepth
        ⟨callable, [], { before with microtasks := ⟨rest⟩ }⟩
  | reaction {before : Machine} {name : String} {kind : ReactionKind} {callable : Callable}
      {derived : PromiseId} {value : Value} {arguments : List Value} {rest : List Microtask}
      (boundary : Boundary program settings before)
      (next : before.microtasks.microtasks =
        ⟨name, .reaction ⟨kind, .callback (.function callable), derived⟩ value⟩ :: rest)
      (handed : kind = .onThen ∧ arguments = [value] ∨ kind = .onFinally ∧ arguments = []) :
      Invokes program settings settings.maxCallDepth
        ⟨callable, arguments, { before with microtasks := ⟨rest⟩ }⟩

structure FunctionInvocation.From (program : Program) (invocation : FunctionInvocation) : Prop where
  callable : Value.From program (.function invocation.callable)
  arguments : ∀ argument ∈ invocation.arguments, argument.From program
  machine : invocation.machine.From program

def Coincides (program : Program) (settings : Settings) {α : Type} (Post : α → Prop)
    (sim sim' : Simulation α) : Prop :=
  ∀ machine, machine.From program →
    sim' settings machine = sim settings machine ∧ (sim settings machine).From program Post

namespace Coincides

variable {program : Program} {settings : Settings} {α β : Type}

theorem of_sourced {Post : α → Prop} {sim : Simulation α} (sourced : Sourced program Post sim) :
    Coincides program settings Post sim sim :=
  fun machine source => ⟨rfl, sourced settings machine source⟩

theorem bind {Mid : α → Prop} {Post : β → Prop} {first first' : Simulation α}
    {next next' : α → Simulation β} (firsts : Coincides program settings Mid first first')
    (nexts : ∀ value, Mid value → Coincides program settings Post (next value) (next' value)) :
    Coincides program settings Post (first >>= next) (first' >>= next') := by
  intro machine source
  obtain ⟨same, ends⟩ := firsts machine source
  rw [bind_apply, bind_apply, same]
  cases result : first settings machine with
  | halted after =>
    rw [result] at ends
    exact ⟨rfl, ends⟩
  | done value middle =>
    rw [result] at ends
    exact nexts value ends.2 middle ends.1

theorem calculus {World : Type} [Preorder World] (program : Program) (settings : Settings) :
    CallCalculus program.HasNode (fun (_ : World) value => value.From program) (fun _ _ => True)
      fun world Post sim sim' => Coincides program settings (Post world) sim sim' where
  part present member := present.child member
  plain plain := plain.comesFrom
  method _ _ := trivial
  closure _ := trivial
  code good := good.1
  grow _ good := good
  growScope _ _ := trivial
  pure post := of_sourced (Sourced.pure post)
  bind firsts nexts := firsts.bind fun value mid => nexts _ value le_rfl mid
  report problem node _ _ present place :=
    of_sourced (.report problem (by rintro _ ⟨⟩; exact ⟨node, present, place⟩))
  makeFunction bound present _ := of_sourced (.makeFunction present bound _)
  declare name _ good := of_sourced (.declare _ name good)
  assign name _ _ _ good := of_sourced (.assign _ name good)
  createScope _ := of_sourced (.createScope _)
  lookup name _ := of_sourced (.lookup _ name)
  builtin present _ _ all :=
    of_sourced (.builtin all (by rintro _ ⟨⟩; exact ⟨_, present⟩) _)

section Calls

variable {calls calls' : FunctionCalls Simulation}
variable (called : ∀ {callable : Callable} {arguments : List Value},
  Value.From program (.function callable) → (∀ argument ∈ arguments, argument.From program) →
    Coincides program settings (Value.From program) (calls callable arguments)
      (calls' callable arguments))

include called

theorem prologueWith :
    Coincides program settings (fun _ => True) (program.prologueWith calls)
      (program.prologueWith calls') := by
  have starts : Sourced program (fun _ => True) (record .start none) :=
    .record rfl (by simp [Event.name?])
  have body := @Calculus.execBody _ _ _ _ _ _ _ _ _ _ _ _ (calculus program settings).toCalculus ()
    Scopes.global calls calls' called trivial program.body fun _ => .top
  exact (of_sourced starts).bind fun _ _ => body.bind fun _ _ => of_sourced (.pure trivial)

theorem callWith {callable : Callable} {arguments : List Value}
    (good : Value.From program (.function callable))
    (all : ∀ argument ∈ arguments, argument.From program) :
    Coincides program settings (Value.From program) (callable.callWith arguments calls)
      (callable.callWith arguments calls') := by
  refine (of_sourced (.pushFrame good.2)).bind fun _ _ => ?_
  refine (of_sourced (.recordFrame good (.inl rfl))).bind fun _ _ => ?_
  refine bind (@CallCalculus.enter _ _ _ _ _ _ _ _ _ _ _ _ () callable arguments
    (calculus program settings) calls calls' called good all) fun _ post => ?_
  refine (of_sourced .popFrame).bind fun _ _ => ?_
  exact (of_sourced (.recordFrame good (.inr rfl))).bind fun _ _ => of_sourced (.pure post)

end Calls

end Coincides

theorem GetsTo.comesFrom {program : Program} {settings : Settings} {α : Type}
    {code : FunctionCalls Simulation → Simulation α} {Post : α → Prop} {room : Nat}
    {machine : Machine}
    {invocation : FunctionInvocation}
    (getsTo : GetsTo code (Callable.call room) settings machine invocation)
    (uniform : ∀ {calls : FunctionCalls Simulation},
      (∀ {callable : Callable} {arguments : List Value}, Value.From program (.function callable) →
        (∀ argument ∈ arguments, argument.From program) →
        Coincides program settings (Value.From program) (callable.call room arguments)
          (calls callable arguments)) →
      Coincides program settings Post (code (Callable.call room)) (code calls))
    (source : machine.From program) : invocation.From program := by
  by_contra foreign
  have unchanged (left : Machine) : code (Callable.call room) settings machine = .halted left := by
    rw [← getsTo left]
    refine ((uniform fun good all entered comes => ?_) machine source).1.symm
    refine ⟨if_neg ?_, Sourced.call room good all settings entered comes⟩
    rintro rfl
    exact foreign ⟨good, all, comes⟩
  -- The code cannot end with two machines.
  have same := (unchanged .initial).symm.trans (unchanged .started)
  cases same

theorem Boundary.comesFrom {program : Program} {settings : Settings} {machine : Machine}
    (boundary : Boundary program settings machine) : machine.From program := by
  induction boundary with
  | program ran =>
    have ends := Sourced.prologue program settings .initial (Machine.initial_from program)
    rw [ran] at ends
    exact ends.1
  | turn _ ran ih =>
    have ends := Sourced.turn settings _ ih
    rw [ran] at ends
    exact ends.1

theorem Program.Invokes.comesFrom {program : Program} {settings : Settings} {room : Nat}
    {invocation : FunctionInvocation} (invoked : program.Invokes settings room invocation) :
    invocation.From program := by
  induction invoked with
  | program getsTo =>
    exact getsTo.comesFrom Coincides.prologueWith (Machine.initial_from program)
  | function _ getsTo caller =>
    exact getsTo.comesFrom (fun called =>
      Coincides.callWith called caller.callable caller.arguments)
      caller.machine
  | timer boundary drained next callback =>
    have source := boundary.comesFrom
    have tasks := source.tasks
    rw [next, List.forall_mem_cons] at tasks
    obtain ⟨first, others⟩ := tasks
    exact ⟨callback ▸ first.callback, first.arguments, Sourced.withTasks source others _⟩
  | microtask boundary next =>
    have source := boundary.comesFrom
    have microtasks := source.microtasks
    rw [next, List.forall_mem_cons] at microtasks
    obtain ⟨first, others⟩ := microtasks
    exact ⟨first.job, by simp, Sourced.withMicrotasks source others⟩
  | reaction boundary next handed =>
    have source := boundary.comesFrom
    have microtasks := source.microtasks
    rw [next, List.forall_mem_cons] at microtasks
    obtain ⟨first, others⟩ := microtasks
    obtain ⟨handler, value⟩ := first.job
    refine ⟨handler, ?_, Sourced.withMicrotasks source others⟩
    -- A then hands the value on to its callback, a finally hands nothing on.
    rcases handed with ⟨-, rfl⟩ | ⟨-, rfl⟩
    · simpa using value
    · simp

end EventLoop
