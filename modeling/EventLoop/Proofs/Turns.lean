import EventLoop.Proofs.Moves

set_option autoImplicit false

/-!
# Turns of the event loop

A run goes from boundary to boundary: from the end of the program on, each turn takes one microtask
or task out of its queue, moves, and records that it is over.
-/

namespace EventLoop

open Simulation

/-- The machines between two turns of a run. -/
inductive Boundary (program : Program) (settings : Settings) : Machine → Prop where
  | program {after : Machine} (ran : program.prologue (m := Simulation) settings .initial =
      .done () after) :
      Boundary program settings after
  | turn {before after : Machine} (boundary : Boundary program settings before)
      (ran : turn (m := Simulation) settings before = .done true after) :
        Boundary program settings after

inductive Dispatch : Machine → Event → Machine → Prop where
  | microtask {machine : Machine} {microtask : Microtask} {rest : List Microtask}
      (next : machine.microtasks.microtasks = microtask :: rest) :
      Dispatch machine (.microtaskRun microtask.name machine.trace.size)
        { machine with microtasks := ⟨rest⟩ }
  | task {machine : Machine} {task : Task} {rest : List Task}
      (drained : machine.microtasks.microtasks = []) (next : machine.tasks.tasks = task :: rest) :
      Dispatch machine (.taskRun task.name machine.trace.size)
        { machine with
          tasks := { machine.tasks with tasks := rest }
          clock := machine.clock.advance task.delay }

inductive TurnEnd (settings : Settings) (before : Machine) : Outcome Bool → Prop where
  | idle (noMicrotask : before.microtasks.microtasks = []) (noTask : before.tasks.tasks = []) :
      TurnEnd settings before (.done false before)
  | finished {event : Event} {entered ran : Machine} (node : Option NodeRef)
      (dispatch : Dispatch before event entered) (path : Path settings entered ran)
      (stack : ran.stack = entered.stack) (room : ran.trace.size < settings.maxSteps) :
      TurnEnd settings before (.done true (ran.recorded event node))
  | halted {event : Event} {entered after : Machine} (dispatch : Dispatch before event entered)
      (stops : Stops settings entered after) : TurnEnd settings before (.halted after)

theorem TurnEnd.of_body (settings : Settings) {before entered : Machine} {event : Event}
    (dispatch : Dispatch before event entered) (node : Option NodeRef) {α : Type}
    {body : Simulation α}
    (follows : FollowsFrom settings body) :
    TurnEnd settings before
      ((do let _ ← body; record event node; return true : Simulation Bool) settings entered) := by
  have moved := follows entered
  simp only [bind_apply, pure_apply]
  cases result : body settings entered with
  | halted after =>
      rw [result] at moved
      exact .halted dispatch moved
  | done value ran =>
      rw [result] at moved
      obtain ⟨path, stack⟩ := moved
      by_cases full : settings.maxSteps ≤ ran.trace.size
      next =>
        -- The turn has done all its work, but there is no room for the step that ends it.
        simp only [record, full, if_true]
        exact .halted dispatch ⟨ran, path, full, rfl⟩
      next =>
        simp only [record, full, if_false]
        exact .finished node dispatch path stack (by omega)

theorem turn_end (settings : Settings) (before : Machine) :
    TurnEnd settings before (turn (m := Simulation) settings before) := by
  cases microtasks : before.microtasks.microtasks with
  | cons microtask rest =>
      rw [turn_of_microtask microtasks]
      exact .of_body settings (.microtask microtasks) microtask.job.ref?
        (FollowsFrom.job microtask.job)
  | nil =>
      cases tasks : before.tasks.tasks with
      | nil =>
          rw [turn_of_empty microtasks tasks]
          exact .idle microtasks tasks
      | cons task rest =>
          rw [turn_of_task microtasks tasks]
          exact .of_body settings (.task microtasks tasks) task.callback.callbackRef?
            (FollowsFrom.callback task.callback task.arguments)

theorem Path.trace_size {settings : Settings} {machine reached : Machine}
    (path : Path settings machine reached) : machine.trace.size ≤ reached.trace.size := by
  induction path with
  | refl => exact Nat.le_refl _
  | tail _ move ih =>
      cases move with
      | change node change room =>
          cases change <;> simp_all [Machine.recorded] <;> omega
      | _ => exact ih

theorem Dispatch.trace {before entered : Machine} {event : Event}
    (dispatch : Dispatch before event entered) : entered.trace = before.trace := by
  cases dispatch <;> rfl

theorem turn_idle {settings : Settings} {before after : Machine}
    (idle : turn (m := Simulation) settings before = .done false after) :
    after = before ∧ before.microtasks.microtasks = [] ∧ before.tasks.tasks = [] := by
  have ends := turn_end settings before
  rw [idle] at ends
  cases ends with
  | idle noMicrotask noTask => exact ⟨rfl, noMicrotask, noTask⟩

theorem turn_finished {settings : Settings} {before after : Machine}
    (ran : turn (m := Simulation) settings before = .done true after) :
    ∃ event entered last node, Dispatch before event entered ∧ Path settings entered last ∧
      last.stack = entered.stack ∧ last.trace.size < settings.maxSteps ∧
      after = last.recorded event node := by
  have ends := turn_end settings before
  rw [ran] at ends
  cases ends with
  | finished node dispatch path stack room =>
      exact ⟨_, _, _, node, dispatch, path, stack, room, rfl⟩

theorem turn_trace_size {settings : Settings} {before after : Machine}
    (ran : turn (m := Simulation) settings before = .done true after) :
    before.trace.size < after.trace.size ∧ after.trace.size ≤ settings.maxSteps := by
  obtain ⟨event, entered, last, node, dispatch, path, -, room, rfl⟩ := turn_finished ran
  have grown := path.trace_size
  rw [dispatch.trace] at grown
  simp only [Machine.recorded, Array.size_push]
  omega

theorem turns_end {program : Program} {settings : Settings} {before : Machine}
    (boundary : Boundary program settings before) (count : Nat)
    (enough : settings.maxSteps - before.trace.size < count) :
    (∃ after, Boundary program settings after ∧ turn (m := Simulation) settings after =
      .done false after ∧
      turns (m := Simulation) count settings before = .done () after) ∨
    (∃ last after, Boundary program settings last ∧ turn (m := Simulation) settings last =
      .halted after ∧
      turns (m := Simulation) count settings before = .halted after) := by
  -- Every turn records at least one step, so there are fewer turns than steps left.
  induction count generalizing before with
  | zero => omega
  | succ count ih =>
      cases result : turn (m := Simulation) settings before with
      | halted after =>
          refine .inr ⟨before, after, boundary, result, ?_⟩
          simp [turns, bind_apply, result]
      | done more after =>
          cases more with
          | false =>
              obtain ⟨rfl, -, -⟩ := turn_idle result
              refine .inl ⟨after, boundary, result, ?_⟩
              simp [turns, bind_apply, pure_apply, result]
          | true =>
              have grown := turn_trace_size result
              have rest := ih (boundary.turn result) (by omega)
              simpa [turns, bind_apply, result] using rest

theorem turns_of_enough {settings : Settings} {machine : Machine} {count more : Nat}
    (enough : settings.maxSteps - machine.trace.size < count) (greater : count ≤ more) :
    turns (m := Simulation) more settings machine =
      turns (m := Simulation) count settings machine := by
  induction count generalizing machine more with
  | zero => omega
  | succ count ih =>
      obtain ⟨more, rfl⟩ : ∃ rest, more = rest + 1 := ⟨more - 1, by omega⟩
      simp only [turns, bind_apply]
      cases result : turn (m := Simulation) settings machine with
      | halted after => rfl
      | done again after =>
          cases again with
          | false => rfl
          | true =>
              have grown := turn_trace_size result
              exact ih (by omega) (by omega)

inductive RunEnd (program : Program) (settings : Settings) : Run → Prop where
  | unstarted (noSteps : settings.maxSteps = 0) :
      RunEnd program settings (Outcome.halted .initial).toRun
  | program {reached : Machine} (steps : 0 < settings.maxSteps)
      (path : Path settings .started reached) (full : settings.maxSteps ≤ reached.trace.size) :
      RunEnd program settings (Outcome.halted reached).toRun
  | turn {before entered reached after : Machine} {event : Event}
      (boundary : Boundary program settings before) (dispatch : Dispatch before event entered)
      (path : Path settings entered reached) (full : settings.maxSteps ≤ reached.trace.size)
      (halts : EventLoop.turn (m := Simulation) settings before = .halted after)
      (shown : after.toRun true = reached.toRun true) :
      RunEnd program settings (Outcome.halted reached).toRun
  | completed {after : Machine} (boundary : Boundary program settings after)
      (noMicrotask : after.microtasks.microtasks = []) (noTask : after.tasks.tasks = []) :
      RunEnd program settings (Outcome.done () after).toRun

theorem Settings.maxSteps_pos {settings : Settings} (valid : settings.validate = .ok ()) :
    0 < settings.maxSteps := by
  obtain noSteps | steps := Nat.eq_zero_or_pos settings.maxSteps
  next => simp [Settings.validate, noSteps] at valid
  next => exact steps

theorem record_start {settings : Settings} (steps : 0 < settings.maxSteps) :
    record .start none settings .initial = .done () .started := by
  have room : ¬settings.maxSteps ≤ Machine.initial.trace.size := by
    simp only [Machine.initial, Array.size_empty]
    omega
  simp only [record, room, if_false]
  rfl

theorem Program.prologue_unstarted (program : Program) {settings : Settings}
    (noSteps : settings.maxSteps = 0) :
    program.prologue (m := Simulation) settings .initial = .halted .initial := by
  simp [Program.prologue, bind_apply, Actions.record, record, noSteps]

theorem Program.prologue_follows (program : Program) {settings : Settings}
    (steps : 0 < settings.maxSteps) :
    Follows settings .started (program.prologue (m := Simulation) settings .initial) := by
  let calls : FunctionCalls Simulation := Callable.call settings.maxCallDepth
  have body := (FollowsFrom.respects settings).program calls calls
    (FollowsFrom.call settings.maxCallDepth) program
  simp only [Program.prologue, bind_apply, Actions.record, record_start steps]
  exact body .started

theorem Program.run_unstarted (program : Program) {settings : Settings}
    (noSteps : settings.maxSteps = 0) :
    program.run settings = (Outcome.halted .initial).toRun := by
  rw [Program.run, Program.simulate, bind_apply, program.prologue_unstarted noSteps]

theorem Program.simulate_eq_turns (program : Program) {settings : Settings} {count : Nat}
    (enough : settings.maxSteps < count) :
    program.simulate (m := Simulation) settings .initial =
      (program.prologue >>= fun _ => turns (m := Simulation) count) settings .initial := by
  rw [Program.simulate, bind_apply, bind_apply]
  cases program.prologue (m := Simulation) settings .initial with
  | halted after => rfl
  | done value before =>
      have needed : settings.maxSteps - before.trace.size <
          settings.maxSteps - before.trace.size + 1 := by omega
      exact (turns_of_enough needed (by omega)).symm

theorem Boundary.simulate_eq {program : Program} {settings : Settings} {machine : Machine}
    (boundary : Boundary program settings machine) (count : Nat)
    (enough : settings.maxSteps - machine.trace.size < count) :
    program.simulate (m := Simulation) settings .initial =
      turns (m := Simulation) count settings machine := by
  induction boundary generalizing count with
  | @program after ran =>
      rw [Program.simulate, bind_apply, ran]
      have needed : settings.maxSteps - after.trace.size <
          settings.maxSteps - after.trace.size + 1 := by omega
      exact (turns_of_enough needed (by omega)).symm
  | @turn before after _ ran ih =>
      -- The turn may have made many steps, so the turns before it are given more than one extra.
      rw [ih (count + settings.maxSteps + 1) (by omega), ← turns_of_enough enough
        (Nat.le_add_right count settings.maxSteps)]
      simp [turns, bind_apply, ran]

theorem Boundary.run_of_halted {program : Program} {settings : Settings} {before after : Machine}
    (boundary : Boundary program settings before)
    (halts : EventLoop.turn (m := Simulation) settings before = .halted after) :
    program.run settings = (Outcome.halted after).toRun := by
  unfold Program.run
  rw [boundary.simulate_eq (settings.maxSteps - before.trace.size + 1) (by omega)]
  simp [turns, bind_apply, halts]

theorem Outcome.toRun_halted {after reached : Machine}
    (shown : after.toRun true = reached.toRun true) :
    (Outcome.halted after).toRun = (Outcome.halted reached).toRun := by
  simp only [Machine.toRun, Run.mk.injEq] at shown
  simp [Outcome.toRun, Machine.toRun, Machine.lastStep, shown]

theorem Program.run_end (program : Program) (settings : Settings) :
    RunEnd program settings (program.run settings) := by
  unfold Program.run
  rw [Program.simulate, bind_apply]
  obtain noSteps | steps := Nat.eq_zero_or_pos settings.maxSteps
  next =>
    rw [program.prologue_unstarted noSteps]
    exact .unstarted noSteps
  next =>
    have follows := program.prologue_follows steps
    -- The limit strikes in the program itself, in a later turn, or not at all.
    cases result : program.prologue (m := Simulation) settings .initial with
    | halted after =>
        rw [result] at follows
        obtain ⟨reached, path, full, shown⟩ := follows
        dsimp only
        rw [Outcome.toRun_halted shown]
        exact .program steps path full
    | done value before =>
        have boundary : Boundary program settings before := .program result
        obtain ⟨after, last, idle, ends⟩ | ⟨before, after, last, halts, ends⟩ :=
          turns_end boundary (settings.maxSteps - before.trace.size + 1) (by omega)
        next =>
          have queues : runQueues (m := Simulation) settings before = .done () after := ends
          obtain ⟨-, noMicrotask, noTask⟩ := turn_idle idle
          simp only [queues]
          exact .completed last noMicrotask noTask
        next =>
          have queues : runQueues (m := Simulation) settings _ = .halted after := ends
          have final := turn_end settings before
          rw [halts] at final
          cases final with
          | halted dispatch stops =>
              obtain ⟨reached, path, full, shown⟩ := stops
              simp only [queues]
              rw [Outcome.toRun_halted shown]
              exact .turn last dispatch path full halts shown

theorem Program.run_invariant (program : Program) {settings : Settings} {Inv : Machine → Prop}
    (started : Inv .started)
    (move : ∀ {machine after : Machine}, Move settings machine after → Inv machine → Inv after)
    (dispatch : ∀ {before entered : Machine} {event : Event},
      Dispatch before event entered → Inv before → Inv entered)
    (finish : ∀ {ran : Machine} (event : Event) (node : Option NodeRef),
      ran.trace.size < settings.maxSteps → Inv ran → Inv (ran.recorded event node))
    (steps : 0 < settings.maxSteps) :
    (∃ last, Inv last ∧ settings.maxSteps ≤ last.trace.size ∧
      program.run settings = (Outcome.halted last).toRun) ∨
    ∃ last, Inv last ∧ program.run settings = (Outcome.done () last).toRun := by
  -- The induction is on turns; within a turn the path keeps the invariant.
  have between {machine : Machine} (boundary : Boundary program settings machine) :
      Inv machine := by
    induction boundary with
    | program ran =>
        have follows := program.prologue_follows steps
        rw [ran] at follows
        exact follows.1.keeps move started
    | turn _ ran ih =>
        obtain ⟨event, entered, last, node, taken, path, -, room, rfl⟩ := turn_finished ran
        exact finish event node room (path.keeps move (dispatch taken ih))
  have ends := program.run_end settings
  generalize program.run settings = run at ends ⊢
  cases ends with
  | unstarted noSteps => omega
  | program _ path full => exact .inl ⟨_, path.keeps move started, full, rfl⟩
  | turn boundary taken path full halts shown =>
      exact .inl ⟨_, path.keeps move (dispatch taken (between boundary)), full, rfl⟩
  | completed boundary noMicrotask noTask => exact .inr ⟨_, between boundary, rfl⟩

theorem Program.run_completed {program : Program} {settings : Settings}
    (completed : (program.run settings).truncated = false) :
    ∃ after, Boundary program settings after ∧ after.microtasks.microtasks = [] ∧
      after.tasks.tasks = [] ∧ program.run settings = after.toRun false := by
  have ends := program.run_end settings
  generalize program.run settings = run at ends completed ⊢
  cases ends with
  | completed boundary noMicrotask noTask => exact ⟨_, boundary, noMicrotask, noTask, rfl⟩
  | _ => cases completed

def timerAndMicrotask : Program :=
  let queue (builtin callback : String) : Statement :=
    let node : FunctionNode :=
      ⟨.expression, some ⟨callback, default⟩, [], .block [] default, default⟩
    .expression (.call (.identifier ⟨builtin, default⟩) [.function node] default) default
  ⟨[queue "setTimeout" "later", queue "queueMicrotask" "soon"], default⟩

end EventLoop
