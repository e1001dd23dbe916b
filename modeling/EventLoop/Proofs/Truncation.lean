import EventLoop.Proofs.Trace

set_option autoImplicit false

/-!
# Two step limits

Two runs that differ in their step limit do the same until the smaller limit strikes.
-/

namespace EventLoop

open Simulation

structure Extends (limit : Nat) (before after : Machine) : Prop where
  steps : before.steps <+: after.steps
  console : ∃ lines, after.console.toList = before.console.toList ++ lines ∧
    ∀ line ∈ lines, limit ≤ line.step
  diagnostics : ∃ found, after.diagnostics.toList = before.diagnostics.toList ++ found ∧
    ∀ diagnostic ∈ found, limit ≤ diagnostic.step

namespace Extends

variable {limit : Nat}

theorem of_same {before after : Machine} (steps : before.steps <+: after.steps)
    (console : after.console = before.console)
    (diagnostics : after.diagnostics = before.diagnostics) : Extends limit before after :=
  ⟨steps, ⟨[], by simp [console]⟩, ⟨[], by simp [diagnostics]⟩⟩

theorem refl (machine : Machine) : Extends limit machine machine :=
  of_same List.prefix_rfl rfl rfl

theorem trans {first second third : Machine} (left : Extends limit first second)
    (right : Extends limit second third) : Extends limit first third := by
  obtain ⟨lines, console, late⟩ := left.console
  obtain ⟨lines', console', late'⟩ := right.console
  obtain ⟨found, diagnostics, after⟩ := left.diagnostics
  obtain ⟨found', diagnostics', after'⟩ := right.diagnostics
  refine ⟨left.steps.trans right.steps, ⟨lines ++ lines', ?_, ?_⟩, ⟨found ++ found', ?_, ?_⟩⟩
  · rw [console', console, List.append_assoc]
  · exact fun line member => (List.mem_append.mp member).elim (late line) (late' line)
  · rw [diagnostics', diagnostics, List.append_assoc]
  · exact fun entry member => (List.mem_append.mp member).elim (after entry) (after' entry)

theorem trace_size {before after : Machine} (extend : Extends limit before after) :
    before.trace.size ≤ after.trace.size := by
  simpa using extend.steps.length_le

end Extends

def Resumes {α : Type} (limit : Nat) : Outcome α → Outcome α → Prop
  | .done value after, longer => longer = .done value after
  | .halted after, longer => Extends limit after longer.machine ∧
      ∀ value machine, longer = .done value machine → limit < machine.trace.size

/-- The first simulation under the smaller limit is resumed by the second one under the greater
limit, which from the smaller limit on only adds to later steps. -/
structure Resumed (settings : Settings) (short long : Nat) {α : Type}
    (sim sim' : Simulation α) : Prop where
  resumes (machine : Machine) :
    Resumes short (sim { settings with maxSteps := short } machine)
      (sim' { settings with maxSteps := long } machine)
  extend (machine : Machine) (beyond : short < machine.trace.size) :
    Extends short machine (sim' { settings with maxSteps := long } machine).machine

namespace Resumed

variable {settings : Settings} {short long : Nat}

theorem bind_of_returns {α β : Type} {first first' : Simulation α} {next next' : α → Simulation β}
    (firsts : Resumed settings short long first first')
    (nexts : ∀ value, Returns first value ∨ Returns first' value →
      Resumed settings short long (next value) (next' value)) :
    Resumed settings short long (first >>= next) (first' >>= next') := by
  constructor
  next =>
    intro machine
    have resumes := firsts.resumes machine
    rw [bind_apply, bind_apply]
    cases result : first { settings with maxSteps := short } machine with
    | done value middle =>
        rw [result] at resumes
        have longer : first' { settings with maxSteps := long } machine = .done value middle :=
          resumes
        rw [longer]
        exact (nexts value (.inl ⟨_, _, _, result⟩)).resumes middle
    | halted middle =>
        rw [result] at resumes
        obtain ⟨extend, beyond⟩ := resumes
        cases longer : first' { settings with maxSteps := long } machine with
        | halted after =>
            rw [longer] at extend
            exact ⟨extend, fun value machine same => by cases same⟩
        | done value after =>
            -- Only the longer run goes on, with more steps than the smaller limit allows.
            rw [longer] at extend
            have late := beyond value after longer
            have further := (nexts value (.inr ⟨_, _, _, longer⟩)).extend after late
            refine ⟨extend.trans further, fun result final same => ?_⟩
            have grown := further.trace_size
            simp only [same, Outcome.machine] at grown
            omega
  next =>
    intro machine beyond
    have extend := firsts.extend machine beyond
    rw [bind_apply]
    cases longer : first' { settings with maxSteps := long } machine with
    | halted after =>
        rw [longer] at extend
        exact extend
    | done value after =>
        rw [longer] at extend
        have grown := extend.trace_size
        exact extend.trans ((nexts value (.inr ⟨_, _, _, longer⟩)).extend after
          (by simp only [Outcome.machine] at grown; omega))

theorem bind {α β : Type} {first first' : Simulation α} {next next' : α → Simulation β}
    (firsts : Resumed settings short long first first')
    (nexts : ∀ value, Resumed settings short long (next value) (next' value)) :
    Resumed settings short long (first >>= next) (first' >>= next') :=
  bind_of_returns firsts fun value _ => nexts value

theorem of_done {α : Type} {sim : Simulation α}
    (done : ∀ machine, ∃ value after, (∀ limit,
      sim { settings with maxSteps := limit } machine = .done value after) ∧
        (short < machine.trace.size → Extends short machine after)) :
    Resumed settings short long sim sim := by
  constructor
  next =>
    intro machine
    obtain ⟨value, after, same, -⟩ := done machine
    rw [same short, same long]
    exact rfl
  next =>
    intro machine beyond
    obtain ⟨value, after, same, extend⟩ := done machine
    rw [same long]
    exact extend beyond

theorem of_hidden {α : Type} {sim : Simulation α}
    (done : ∀ machine, ∃ value after, (∀ limit,
      sim { settings with maxSteps := limit } machine = .done value after) ∧
        after.trace = machine.trace ∧ after.console = machine.console ∧
        after.diagnostics = machine.diagnostics) :
    Resumed settings short long sim sim := by
  refine of_done fun machine => ?_
  obtain ⟨value, after, same, trace, console, diagnostics⟩ := done machine
  have steps : after.steps = machine.steps := congrArg Array.toList trace
  exact ⟨value, after, same, fun _ => .of_same (steps ▸ List.prefix_rfl) console diagnostics⟩

theorem record (ordered : short ≤ long) (event : Event) (node : Option NodeRef) :
    Resumed settings short long (record event node) (record event node) := by
  have grows (machine : Machine) : Extends short machine (machine.recorded event node) := by
    refine Extends.of_same ?_ rfl rfl
    rw [Machine.steps_recorded]
    exact List.prefix_append _ _
  constructor
  next =>
    intro machine
    -- The one action that looks at the limit: both halt, only the smaller limit is hit, or none.
    by_cases full : short ≤ machine.trace.size
    next =>
      by_cases fullToo : long ≤ machine.trace.size
      next =>
        simp only [Simulation.record, full, fullToo, if_true]
        exact ⟨Extends.refl machine, fun value after same => by cases same⟩
      next =>
        simp only [Simulation.record, full, fullToo, if_true, if_false]
        refine ⟨grows machine, fun value after same => ?_⟩
        cases same
        simp only [Array.size_push]
        omega
    next =>
      have room : ¬long ≤ machine.trace.size := by omega
      simp only [Simulation.record, full, room, if_false]
      exact rfl
  next =>
    intro machine beyond
    by_cases full : long ≤ machine.trace.size
    next =>
      simp only [Simulation.record, full, if_true]
      exact Extends.refl machine
    next =>
      simp only [Simulation.record, full, if_false]
      exact grows machine

theorem pure {α : Type} (value : α) :
    Resumed settings short long (Pure.pure value) (Pure.pure value) :=
  of_hidden fun machine => ⟨value, machine, fun _ => rfl, rfl, rfl, rfl⟩

theorem congruence (settings : Settings) (ordered : short ≤ long) :
    Congruence Returned fun sim sim' => Resumed settings short long sim sim' where
  answers := Returned.answers
  pure := Resumed.pure
  bind := Resumed.bind_of_returns
  withFrame name node _ _ body :=
    bind (of_hidden fun _ => ⟨_, _, fun _ => rfl, rfl, rfl, rfl⟩) fun _ =>
      bind (record ordered _ _) fun _ => bind body fun _ =>
        bind (of_hidden fun _ => ⟨_, _, fun _ => rfl, rfl, rfl, rfl⟩) fun _ =>
          bind (record ordered _ _) fun _ => Resumed.pure _
  report problem span _ := of_done fun machine => by
    refine ⟨(), _, fun _ => rfl, fun beyond => ?_⟩
    refine ⟨List.prefix_rfl, ⟨[], by simp⟩, ?_⟩
    refine ⟨[⟨problem, span, machine.lastStep⟩], by simp, fun diagnostic member => ?_⟩
    obtain rfl := List.mem_singleton.mp member
    simp only [Machine.lastStep]
    omega
  writeLine level text := of_done fun machine => by
    let written := (writeLine level text settings machine).machine
    refine ⟨(), written, fun _ => rfl, fun beyond => ?_⟩
    refine ⟨List.prefix_rfl, ?_, ⟨[], by simp [written, writeLine, Outcome.machine]⟩⟩
    refine ⟨[⟨level, text, machine.lastStep⟩], ?_, fun line member => ?_⟩
    · simp [written, writeLine, Outcome.machine]
    obtain rfl := List.mem_singleton.mp member
    simp only [Machine.lastStep]
    omega
  makeFunction _ _ _ := of_hidden fun _ => ⟨_, _, fun _ => rfl, rfl, rfl, rfl⟩
  declare _ _ _ := of_hidden fun _ => ⟨_, _, fun _ => rfl, rfl, rfl, rfl⟩
  assign _ _ _ := of_hidden fun _ => ⟨_, _, fun _ => rfl, rfl, rfl, rfl⟩
  createScope _ := of_hidden fun _ => ⟨_, _, fun _ => rfl, rfl, rfl, rfl⟩
  lookup _ _ := of_hidden fun _ => ⟨_, _, fun _ => rfl, rfl, rfl, rfl⟩
  inspect _ := of_hidden fun _ => ⟨_, _, fun _ => rfl, rfl, rfl, rfl⟩
  uncallable := Resumed.pure _
  called _ _ _ _ resumed := resumed
  createPromise _ := of_hidden fun _ => ⟨_, _, fun _ => rfl, rfl, rfl, rfl⟩
  fulfill _ _ := of_hidden fun _ => ⟨_, _, fun _ => rfl, rfl, rfl, rfl⟩
  keepReaction _ _ := of_hidden fun _ => ⟨_, _, fun _ => rfl, rfl, rfl, rfl⟩
  addMicrotask _ _ :=
    bind (of_hidden fun _ => ⟨_, _, fun _ => rfl, rfl, rfl, rfl⟩) fun _ => record ordered _ _
  addTask _ _ _ _ :=
    bind (of_hidden fun _ => ⟨_, _, fun _ => rfl, rfl, rfl, rfl⟩) fun _ =>
      bind (of_hidden fun _ => ⟨_, _, fun _ => rfl, rfl, rfl, rfl⟩) fun _ =>
        bind (record ordered _ _) fun _ => Resumed.pure _
  removeTask id _ := by
    refine bind (of_hidden fun machine => ?_) fun cancelled => ?_
    next =>
      refine ⟨_, _, fun _ => rfl, ?_⟩
      cases machine.tasks.cancel? id <;> exact ⟨rfl, rfl, rfl⟩
    next =>
      cases cancelled with
      | none => exact Resumed.pure _
      | some task => exact record ordered _ _

theorem call (settings : Settings) (ordered : short ≤ long) (room : Nat) (callable : Callable)
    (arguments : List Value) :
    Resumed settings short long (callable.call room arguments)
      (callable.call room arguments) := by
  induction room generalizing callable arguments with
  | zero =>
      -- The message names the depth, which both runs have in common.
      have refused := (congruence settings ordered).skip (.callDepthExceeded settings.maxCallDepth)
        callable.node.span rfl
      exact ⟨fun machine => refused.resumes machine, fun machine => refused.extend machine⟩
  | succ room ih => exact (congruence settings ordered).call_succ room room ih callable arguments

theorem entry (ordered : short ≤ long) (callable : Callable) (arguments : List Value) :
    Resumed settings short long (invoke (.function callable) arguments)
      (invoke (.function callable) arguments) := by
  have called := call settings ordered settings.maxCallDepth callable arguments
  exact ⟨fun machine => called.resumes machine, fun machine => called.extend machine⟩

theorem prologue (ordered : short ≤ long) (program : Program) :
    Resumed settings short long program.prologue program.prologue := by
  refine bind (record ordered _ _) fun _ => ?_
  let calls : FunctionCalls Simulation := Callable.call settings.maxCallDepth
  have body := (congruence settings ordered).program calls calls
    (call settings ordered settings.maxCallDepth) program
  exact ⟨fun machine => body.resumes machine, fun machine => body.extend machine⟩

theorem loopRespects (settings : Settings) (ordered : short ≤ long) :
    LoopRespects Returned fun sim sim' => Resumed settings short long sim sim' where
  toRespects := (congruence settings ordered).toRespects
  microtaskRun _ _ := record ordered _
  taskRun _ _ := record ordered _
  traceSize := of_hidden fun _ => ⟨_, _, fun _ => rfl, rfl, rfl, rfl⟩
  dequeueMicrotask := of_hidden fun machine => by
    refine ⟨_, _, fun _ => rfl, ?_⟩
    cases machine.microtasks.dequeue? <;> exact ⟨rfl, rfl, rfl⟩
  dequeueTask := of_hidden fun machine => by
    refine ⟨_, _, fun _ => rfl, ?_⟩
    cases machine.tasks.dequeue? <;> exact ⟨rfl, rfl, rfl⟩
  entry := entry ordered
  invoked _ _ _ _ resumed := resumed
  settled _ _ := Resumed.pure _

end Resumed

theorem Program.simulate_resumes (program : Program) (settings : Settings) {short long : Nat}
    (ordered : short ≤ long) :
    Resumes short (program.simulate (m := Simulation) { settings with maxSteps := short } .initial)
      (program.simulate (m := Simulation) { settings with maxSteps := long } .initial) := by
  -- Both loops are given the same number of turns, which is enough for either.
  have enough : ({ settings with maxSteps := short } : Settings).maxSteps < long + 1 := by
    dsimp only
    omega
  have enoughToo : ({ settings with maxSteps := long } : Settings).maxSteps < long + 1 := by
    dsimp only
    omega
  rw [program.simulate_eq_turns enough, program.simulate_eq_turns enoughToo]
  exact (Resumed.bind (Resumed.prologue ordered program) fun _ =>
    (Resumed.loopRespects settings ordered).turns (long + 1)).resumes .initial

/-- The diagnostics of a run without the one that reports the step limit. -/
def Run.problems (run : Run) : List Diagnostic :=
  run.diagnostics.toList.filter (!·.problem.isStepLimit)

@[simp]
theorem Outcome.toRun_trace (outcome : Outcome Unit) :
    outcome.toRun.trace = outcome.machine.trace := by
  cases outcome <;> rfl

@[simp]
theorem Outcome.toRun_console (outcome : Outcome Unit) :
    outcome.toRun.console = outcome.machine.console := by
  cases outcome <;> rfl

@[simp]
theorem Outcome.problems_toRun (outcome : Outcome Unit) :
    outcome.toRun.problems =
      outcome.machine.diagnostics.toList.filter (!·.problem.isStepLimit) := by
  cases outcome with
  | done value after => rfl
  | halted after =>
      simp [Outcome.toRun, Run.problems, Machine.toRun, Outcome.machine, Problem.isStepLimit]

structure Machine.Attributed (settings : Settings) (machine : Machine) : Prop where
  started : 0 < machine.trace.size
  bounded : machine.trace.size ≤ settings.maxSteps
  console : ∀ line ∈ machine.console.toList, line.step < machine.trace.size
  diagnostics : ∀ diagnostic ∈ machine.diagnostics.toList,
    diagnostic.step < machine.trace.size ∧ diagnostic.problem.isStepLimit = false

theorem Machine.Attributed.recorded {settings : Settings} {machine : Machine}
    (attributed : machine.Attributed settings) (room : machine.trace.size < settings.maxSteps)
    (event : Event) (node : Option NodeRef) :
    (machine.recorded event node).Attributed settings := by
  have size : (machine.recorded event node).trace.size = machine.trace.size + 1 := by
    simp [Machine.recorded]
  refine ⟨by omega, by omega, fun line member => ?_, fun diagnostic member => ?_⟩
  next =>
    have earlier := attributed.console line member
    omega
  next =>
    obtain ⟨earlier, running⟩ := attributed.diagnostics diagnostic member
    exact ⟨by omega, running⟩

theorem Move.attributed {settings : Settings} {machine after : Machine}
    (move : Move settings machine after) (attributed : machine.Attributed settings) :
    after.Attributed settings := by
  obtain ⟨started, bounded, console, diagnostics⟩ := attributed
  cases move with
  | internal scopes promises callables => exact ⟨started, bounded, console, diagnostics⟩
  | report problem span running =>
      refine ⟨started, bounded, console, ?_⟩
      simp only [Array.toList_push, List.forall_mem_append, List.forall_mem_singleton]
      exact ⟨diagnostics, by simp only [Machine.lastStep]; omega, running⟩
  | writeLine level text =>
      refine ⟨started, bounded, ?_, diagnostics⟩
      simp only [Array.toList_push, List.forall_mem_append, List.forall_mem_singleton]
      exact ⟨console, by simp only [Machine.lastStep]; omega⟩
  | @change changed event node change room =>
      have same : changed.Attributed settings := by
        cases change <;> exact ⟨started, bounded, console, diagnostics⟩
      refine same.recorded ?_ event node
      cases change <;> exact room

structure Run.Accounted (run : Run) (limit : Nat) : Prop where
  size : run.trace.size ≤ limit
  console : ∀ line ∈ run.console.toList, line.step < limit
  problems : ∀ diagnostic ∈ run.problems, diagnostic.step < limit
  completed (outcome : run.truncated = false) :
    ∀ diagnostic ∈ run.diagnostics.toList, diagnostic.problem.isStepLimit = false
  truncated (outcome : run.truncated = true) : run.trace.size = limit ∧
    ∃ others : Array Diagnostic,
      run.diagnostics = others.push ⟨.stepLimitReached limit, none, limit - 1⟩ ∧
      ∀ diagnostic ∈ others.toList, diagnostic.problem.isStepLimit = false

theorem Machine.Attributed.accounted {settings : Settings} (outcome : Outcome Unit)
    (attributed : outcome.machine.Attributed settings)
    (full : ∀ after, outcome = .halted after → settings.maxSteps ≤ after.trace.size) :
    outcome.toRun.Accounted settings.maxSteps := by
  obtain ⟨started, bounded, console, diagnostics⟩ := attributed
  refine ⟨by simpa using bounded, ?_, ?_, ?_, ?_⟩
  next =>
    intro line member
    have earlier := console line (by simpa using member)
    omega
  next =>
    intro diagnostic member
    rw [Outcome.problems_toRun] at member
    have earlier := (diagnostics diagnostic (List.mem_filter.mp member).1).1
    omega
  next =>
    intro completed
    cases outcome with
    | done value after => exact fun diagnostic member => (diagnostics diagnostic member).2
    | halted after => cases completed
  next =>
    intro truncated
    cases outcome with
    | done value after => cases truncated
    | halted after =>
        -- The run was halted with a full trace, and the limit is reported for its last step.
        have size : after.trace.size = settings.maxSteps :=
          Nat.le_antisymm bounded (full after rfl)
        refine ⟨size, after.diagnostics, ?_, fun diagnostic member =>
          (diagnostics diagnostic member).2⟩
        simp [Outcome.toRun, Machine.lastStep, size]

theorem Program.run_accounted (program : Program) (settings : Settings) :
    (program.run settings).Accounted settings.maxSteps := by
  -- Without any step there is none for the report of the limit to belong to; it names step 0.
  obtain noSteps | steps := Nat.eq_zero_or_pos settings.maxSteps
  next =>
    rw [program.run_unstarted noSteps, noSteps]
    refine ⟨by simp [Outcome.machine, Machine.initial], ?_, ?_, ?_, ?_⟩
    · simp [Outcome.machine, Machine.initial]
    · simp [Outcome.machine, Machine.initial]
    · exact fun completed => by cases completed
    · exact fun _ => ⟨rfl, #[], rfl, by simp⟩
  next =>
    have started : Machine.started.Attributed settings := by
      refine ⟨Nat.one_pos, steps, ?_, ?_⟩ <;> simp
        [Machine.started, Machine.initial, Machine.recorded]
    have ends := program.run_invariant started Move.attributed
      (fun dispatch attributed => by
        obtain ⟨started, bounded, console, diagnostics⟩ := attributed
        cases dispatch <;> exact ⟨started, bounded, console, diagnostics⟩)
      (fun event node room attributed => attributed.recorded room event node) steps
    obtain ⟨last, attributed, full, ran⟩ | ⟨last, attributed, ran⟩ := ends
    next =>
      rw [ran]
      refine Machine.Attributed.accounted (.halted last) attributed ?_
      rintro _ ⟨⟩
      exact full
    next =>
      rw [ran]
      refine Machine.Attributed.accounted (.done () last) attributed ?_
      rintro _ ⟨⟩

/-- The first run is the second one, cut off at the given number of steps. -/
structure Run.Truncates (limit : Nat) (short long : Run) : Prop where
  trace : short.trace.toList = long.trace.toList.take (min limit long.trace.size)
  console : short.console.toList = long.console.toList.filter (·.step < limit)
  console_isPrefix : short.console.toList <+: long.console.toList
  problems : short.problems = long.problems.filter (·.step < limit)
  problems_isPrefix : short.problems <+: long.problems
  completed (outcome : short.truncated = false) : long = short ∧
    ∀ diagnostic ∈ short.diagnostics.toList, diagnostic.problem.isStepLimit = false
  truncated (outcome : short.truncated = true) : short.trace.size = limit ∧
    ∃ others : Array Diagnostic,
      short.diagnostics = others.push ⟨.stepLimitReached limit, none, limit - 1⟩ ∧
      ∀ diagnostic ∈ others.toList, diagnostic.problem.isStepLimit = false

theorem filter_step_append {α : Type} (step : α → Nat) {limit : Nat} (early late : List α)
    (before : ∀ entry ∈ early, step entry < limit) (after : ∀ entry ∈ late, limit ≤ step entry) :
    (early ++ late).filter (step · < limit) = early := by
  have kept : early.filter (step · < limit) = early :=
    List.filter_eq_self.mpr fun entry member => decide_eq_true (before entry member)
  have dropped : late.filter (step · < limit) = [] :=
    List.filter_eq_nil_iff.mpr fun entry member => by simpa using after entry member
  rw [List.filter_append, kept, dropped, List.append_nil]

theorem Run.Accounted.truncates {run : Run} {limit : Nat} (accounted : run.Accounted limit)
    (completed : run.truncated = false) : run.Truncates limit run where
  trace := by
    rw [Nat.min_eq_right accounted.size, ← Array.length_toList, List.take_length]
  console := by
    simpa using (filter_step_append ConsoleLine.step _ [] accounted.console (by simp)).symm
  console_isPrefix := List.prefix_rfl
  problems := by
    simpa using (filter_step_append Diagnostic.step _ [] accounted.problems (by simp)).symm
  problems_isPrefix := List.prefix_rfl
  completed _ := ⟨rfl, accounted.completed completed⟩
  truncated := accounted.truncated

/-- A run under a smaller step limit is a prefix of the run under a greater one. -/
theorem Program.run_truncates (program : Program) (settings : Settings) {short long : Nat}
    (ordered : short ≤ long) :
    Run.Truncates short (program.run { settings with maxSteps := short })
      (program.run { settings with maxSteps := long }) := by
  have accounted := program.run_accounted { settings with maxSteps := short }
  have resumes := program.simulate_resumes settings ordered
  unfold Program.run at accounted ⊢
  generalize program.simulate (m := Simulation) { settings with maxSteps := long } .initial =
    longer at resumes ⊢
  cases ended : program.simulate (m := Simulation) { settings with maxSteps := short } .initial with
  | done value after =>
      rw [ended] at accounted resumes
      obtain rfl : longer = .done value after := resumes
      exact accounted.truncates rfl
  | halted after =>
      -- What the longer run adds belongs to steps from the limit on, all before it to earlier ones.
      rw [ended] at accounted resumes
      obtain ⟨⟨steps, ⟨lines, console, late⟩, ⟨found, diagnostics, lateToo⟩⟩, -⟩ := resumes
      have size : after.trace.size = short := (accounted.truncated rfl).1
      have problems : longer.toRun.problems = (Outcome.halted after).toRun.problems ++
          found.filter (!·.problem.isStepLimit) := by
        rw [Outcome.problems_toRun, Outcome.problems_toRun, diagnostics, List.filter_append]
        rfl
      refine ⟨?_, ?_, ?_, ?_, ?_, fun completed => (by cases completed),
        accounted.truncated⟩
      next =>
        have shorter : after.steps.length ≤ longer.machine.steps.length := steps.length_le
        simp only [Machine.steps, Array.length_toList, size] at shorter
        rw [Outcome.toRun_trace, Outcome.toRun_trace, Nat.min_eq_left shorter]
        rw [← size, ← Array.length_toList]
        exact List.prefix_iff_eq_take.mp steps
      next =>
        rw [Outcome.toRun_console longer, console]
        exact (filter_step_append ConsoleLine.step _ _ accounted.console late).symm
      next =>
        rw [Outcome.toRun_console longer, console]
        exact List.prefix_append _ _
      next =>
        rw [problems]
        refine (filter_step_append Diagnostic.step _ _ accounted.problems ?_).symm
        exact fun diagnostic member => lateToo diagnostic (List.mem_filter.mp member).1
      next =>
        rw [problems]
        exact List.prefix_append _ _

theorem timerAndMicrotask_truncates : 4 ≤ 9 ∧
    Run.Truncates 4 (timerAndMicrotask.run { maxSteps := 4 })
      (timerAndMicrotask.run { maxSteps := 9 }) :=
  ⟨by decide, timerAndMicrotask.run_truncates {} (by decide)⟩

end EventLoop
