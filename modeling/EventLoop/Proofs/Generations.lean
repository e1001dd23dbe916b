import EventLoop.Proofs.Settlers

set_option autoImplicit false

/-!
# Generations of microtasks

A microtask that the program or a task queues is of the first generation. One that is queued while a
microtask runs is one generation younger than that microtask.
-/

namespace EventLoop

open Simulation

/-- A turn that ran a microtask. -/
structure Invocation where
  microtask : Microtask
  generation : Nat
  before : Machine
  after : Machine

inductive Program.Drains (program : Program) (settings : Settings) :
    List Invocation → Machine → List (Microtask × Nat) → Prop where
  | program {after : Machine} (ran : program.prologue (m := Simulation) settings .initial =
      .done () after) :
      Program.Drains program settings [] after (after.microtasks.microtasks.map (·, 1))
  | microtask {log : List Invocation} {before after : Machine} {microtask : Microtask}
      {generation : Nat} {rest : List (Microtask × Nat)} {new : List Microtask}
      (drains : Program.Drains program settings log before ((microtask, generation) :: rest))
      (ran : turn (m := Simulation) settings before = .done true after)
      (queued : after.microtasks.microtasks = rest.map Prod.fst ++ new) :
      Program.Drains program settings (log ++ [⟨microtask, generation, before, after⟩]) after
        (rest ++ new.map (·, generation + 1))
  | task {log : List Invocation} {before after : Machine}
      (drains : Program.Drains program settings log before [])
      (ran : turn (m := Simulation) settings before = .done true after) :
      Program.Drains program settings log after (after.microtasks.microtasks.map (·, 1))

theorem Simulation.bind_done {α β : Type} {first : Simulation α} {next : α → Simulation β}
    {settings : Settings} {machine after : Machine} {result : β}
    (done : (first >>= next) settings machine = .done result after) :
    ∃ value middle, first settings machine = .done value middle ∧
      next value settings middle = .done result after := by
  rw [bind_apply] at done
  cases early : first settings machine with
  | halted stopped => simp [early] at done
  | done value middle =>
      rw [early] at done
      exact ⟨value, middle, rfl, done⟩

theorem Simulation.record_done {event : Event} {node : Option NodeRef} {settings : Settings}
    {machine after : Machine} (done : record event node settings machine = .done () after) :
    after = machine.recorded event node := by
  unfold record at done
  split at done
  · cases done
  · cases done
    rfl

section Turn

variable {settings : Settings} {before after : Machine} {microtask : Microtask}
variable {rest : List Microtask}

theorem turn_job (ran : turn (m := Simulation) settings before = .done true after)
    (next : before.microtasks.microtasks = microtask :: rest) :
    ∃ last, microtask.job.run (m := Simulation) settings { before with microtasks := ⟨rest⟩ } =
      .done () last ∧
      after.promises = last.promises ∧ after.microtasks = last.microtasks := by
  rw [turn_of_microtask next] at ran
  obtain ⟨value, last, job, ends⟩ := bind_done ran
  obtain ⟨recorded, final, ended, returned⟩ := bind_done ends
  rw [record_done ended] at returned
  cases returned
  exact ⟨last, job, rfl, rfl⟩

theorem Path.microtasks_isPrefix {machine reached : Machine}
    (path : Path settings machine reached) :
    machine.microtasks.microtasks <+: reached.microtasks.microtasks := by
  induction path with
  | refl => exact List.prefix_rfl
  | tail _ move ih =>
      cases move with
      | change node change room =>
          cases change with
          | addMicrotask microtask => exact ih.trans (List.prefix_append _ _)
          | _ => exact ih
      | _ => exact ih

theorem turn_microtasks (ran : turn (m := Simulation) settings before = .done true after)
    (next : before.microtasks.microtasks = microtask :: rest) :
    ∃ new, after.microtasks.microtasks = rest ++ new := by
  obtain ⟨event, entered, last, node, dispatch, path, -, -, rfl⟩ := turn_finished ran
  cases dispatch with
  | task drained _ =>
      rw [drained] at next
      cases next
  | microtask found =>
      rw [found] at next
      cases next
      obtain ⟨new, same⟩ := path.microtasks_isPrefix
      exact ⟨new, same.symm⟩

end Turn

namespace Program.Drains

variable {program : Program} {settings : Settings} {log : List Invocation} {machine : Machine}
variable {pending : List (Microtask × Nat)}

theorem boundary (drains : program.Drains settings log machine pending) :
    Boundary program settings machine := by
  induction drains with
  | program ran => exact .program ran
  | microtask _ ran _ ih => exact ih.turn ran
  | task _ ran ih => exact ih.turn ran

theorem queue (drains : program.Drains settings log machine pending) :
    machine.microtasks.microtasks = pending.map Prod.fst := by
  cases drains with
  | program ran => simp [Function.comp_def]
  | microtask _ _ queued => simpa [Function.comp_def] using queued
  | task _ ran => simp [Function.comp_def]

theorem track (drains : program.Drains settings log machine pending)
    (Tracked : Invocation → List Invocation → Machine → List (Microtask × Nat) → Prop)
    (start : ∀ {microtask : Microtask} {generation : Nat} {before after : Machine}
      {rest : List (Microtask × Nat)} {new : List Microtask}, Boundary program settings before →
      before.microtasks.microtasks = microtask :: rest.map Prod.fst →
      turn (m := Simulation) settings before = .done true after →
      after.microtasks.microtasks = rest.map Prod.fst ++ new →
      Tracked ⟨microtask, generation, before, after⟩ [] after (rest ++ new.map (·, generation + 1)))
    (step : ∀ {first : Invocation} {later : List Invocation} {microtask : Microtask}
      {generation : Nat} {before after : Machine} {rest : List (Microtask × Nat)}
      {new : List Microtask}, Boundary program settings before →
      before.microtasks.microtasks = microtask :: rest.map Prod.fst →
      turn (m := Simulation) settings before = .done true after →
      after.microtasks.microtasks = rest.map Prod.fst ++ new →
      Tracked first later before ((microtask, generation) :: rest) →
      Tracked first (later ++ [⟨microtask, generation, before, after⟩]) after
        (rest ++ new.map (·, generation + 1)))
    (task : ∀ {first : Invocation} {later : List Invocation} {before after : Machine},
      Boundary program settings before → turn (m := Simulation) settings before = .done true after →
      Tracked first later before [] →
      Tracked first later after (after.microtasks.microtasks.map (·, 1)))
    {earlier later : List Invocation} {invocation : Invocation}
    (split : log = earlier ++ invocation :: later) :
    Tracked invocation later machine pending := by
  induction drains generalizing later with
  | program ran => simp at split
  | @microtask log before after microtask generation rest new drains ran queued ih =>
      have next := drains.queue
      -- The invocation is the one that the log ends with, or the log before it has it already.
      obtain rfl | ⟨shorter, last, rfl⟩ := List.eq_nil_or_concat' later
      · obtain ⟨rfl, same⟩ := List.append_inj' split rfl
        cases same
        exact start drains.boundary next ran queued
      · rw [← List.cons_append, ← List.append_assoc] at split
        obtain ⟨rfl, same⟩ := List.append_inj' split rfl
        cases same
        exact step drains.boundary next ran queued (ih rfl)
  | task drains ran ih => exact task drains.boundary ran (ih split)

end Program.Drains

section Runs

variable {program : Program} {settings : Settings} {machine : Machine}

theorem Boundary.exists_drains (boundary : Boundary program settings machine) :
    ∃ log pending, program.Drains settings log machine pending := by
  induction boundary with
  | program ran => exact ⟨_, _, .program ran⟩
  | turn _ ran ih =>
      obtain ⟨log, pending, drains⟩ := ih
      cases pending with
      | nil => exact ⟨_, _, .task drains ran⟩
      | cons first rest =>
          obtain ⟨new, queued⟩ := turn_microtasks ran drains.queue
          exact ⟨_, _, .microtask drains ran queued⟩

theorem Program.exists_drains (completed : (program.run settings).truncated = false) :
    ∃ log final, program.Drains settings log final [] ∧ final.tasks.tasks = [] ∧
      program.run settings = final.toRun false := by
  obtain ⟨final, boundary, noMicrotask, noTask, ends⟩ := Program.run_completed completed
  obtain ⟨log, pending, drains⟩ := boundary.exists_drains
  have drained := drains.queue
  rw [noMicrotask] at drained
  obtain rfl := List.map_eq_nil_iff.mp drained.symm
  exact ⟨log, final, drains, noTask, ends⟩

section Fulfilled

variable {id : PromiseId} {value : Value}

theorem Subscribes.fulfilled {source : PromiseId} {reaction : Reaction} {changed : Machine}
    {act : Act} {late acts : List Act} {notice : Notice}
    (subscribes : Subscribes source reaction act late machine acts notice changed)
    (fulfilled : machine.promises.get? id = some (.fulfilled value)) :
    changed.promises.get? id = some (.fulfilled value) := by
  cases subscribes with
  | queued settled => exact fulfilled
  | kept pending =>
      have different : source ≠ id := by
        rintro rfl
        rw [pending] at fulfilled
        cases fulfilled
      exact (Promises.get?_put_of_ne different).trans fulfilled

theorem Machine.withPromise_fulfilled {state : PromiseState}
    (fulfilled : machine.promises.get? id = some (.fulfilled value)) :
    (machine.withPromise state).promises.get? id = some (.fulfilled value) :=
  Promises.create_keeps fulfilled

theorem Operation.fulfilled {changed : Machine} {acts : List Act} {notice : Notice}
    (operation : Operation machine acts notice changed)
    (fulfilled : machine.promises.get? id = some (.fulfilled value)) :
    changed.promises.get? id = some (.fulfilled value) := by
  cases operation with
  | hold held => exact Machine.withPromise_fulfilled fulfilled
  | register known within subscribes =>
      exact subscribes.fulfilled (Machine.withPromise_fulfilled fulfilled)
  | _ => exact fulfilled

theorem Effect.fulfilled {config after : Config} {acts : List Act} {notice : Notice}
    (effect : Effect config acts notice after)
    (fulfilled : config.machine.promises.get? id = some (.fulfilled value)) :
    after.machine.promises.get? id = some (.fulfilled value) := by
  cases effect with
  | operation evaluates operation => exact operation.fulfilled fulfilled
  | holdOutcome held => exact Machine.withPromise_fulfilled fulfilled
  | restore known subscribes =>
      exact subscribes.fulfilled (Machine.withPromise_fulfilled fulfilled)
  | follow known subscribes => exact subscribes.fulfilled fulfilled
  | fulfill machine other final => exact Promises.fulfill_keeps fulfilled _ _
  | _ => exact fulfilled

theorem Journey.fulfilled {start reached : Config} {acts : List Act}
    (journey : Journey settings start acts reached)
    (fulfilled : start.machine.promises.get? id = some (.fulfilled value)) :
    reached.machine.promises.get? id = some (.fulfilled value) := by
  induction journey with
  | refl => exact fulfilled
  | silent _ effect ih => exact effect.fulfilled ih
  | recorded _ effect _ _ ih => exact effect.fulfilled ih

theorem Boundary.turn_fulfilled {after : Machine} (boundary : Boundary program settings machine)
    (ran : EventLoop.turn (m := Simulation) settings machine = .done true after)
    (fulfilled : machine.promises.get? id = some (.fulfilled value)) :
    after.promises.get? id = some (.fulfilled value) := by
  obtain ⟨past, reached⟩ := boundary.exists_history
  have enacted : Enacted settings _ _ _ := Enacted.turn reached.sound
  obtain ⟨log, logged⟩ := Erases.loopRespects.turn.exists_log ran
  rw [logged] at enacted
  obtain ⟨acts, duty, -, journey, -⟩ := enacted.of_done
  exact journey.fulfilled fulfilled

end Fulfilled

def Job.settles (id : PromiseId) (job : Job) : Bool := job.isReactionFor id || job.isFollowFor id

theorem Job.Within.lt_of_settles {extent : Extent} {job : Job} (within : job.Within extent)
    {id : PromiseId} (settles : job.settles id = true) : id < extent.promises := by
  cases job with
  | callback callback => cases settles
  | reaction reaction value =>
      obtain rfl : reaction.derived = id := by
        simpa [Job.settles, isReactionFor, isFollowFor] using settles
      exact within.1.derived
  | follow promise other =>
      obtain rfl : promise = id := by
        simpa [Job.settles, isReactionFor, isFollowFor] using settles
      exact within.1

theorem Machine.countP_settles_le (machine : Machine) (id : PromiseId) :
    machine.microtasks.microtasks.countP (·.job.settles id) ≤ machine.settlersFor id := by
  unfold settlersFor
  induction machine.microtasks.microtasks with
  | nil => simp
  | cons microtask rest ih =>
      simp only [List.countP_cons, Job.settles, Bool.or_eq_true] at ih ⊢
      by_cases reacts : microtask.job.isReactionFor id = true <;>
        by_cases follows : microtask.job.isFollowFor id = true <;> simp [reacts, follows] <;> omega

theorem Boundary.pending_of_queued (boundary : Boundary program settings machine) {id : PromiseId}
    {queued : Microtask} (member : queued ∈ machine.microtasks.microtasks)
    (settles : queued.job.settles id = true) :
    ∃ reactions, machine.promises.get? id = some (.pending reactions) := by
  obtain ⟨past, reached⟩ := boundary.exists_history
  have known := (reached.sound.microtasks queued member).lt_of_settles settles
  obtain pending | ⟨value, fulfilled⟩ := Promises.get?_cases known
  · exact pending
  · obtain ⟨log, logs⟩ := boundary.exists_logs
    have none := logs.settlersFor_of_fulfilled fulfilled
    have some : 0 < machine.microtasks.microtasks.countP (·.job.settles id) :=
      List.countP_pos_iff.mpr ⟨queued, member, settles⟩
    have most := machine.countP_settles_le id
    omega

theorem Boundary.settles_head (boundary : Boundary program settings machine) {id : PromiseId}
    {microtask queued : Microtask} {rest : List Microtask}
    (next : machine.microtasks.microtasks = microtask :: rest) (member : queued ∈ rest)
    (settles : queued.job.settles id = true) : microtask.job.settles id = false := by
  obtain ⟨log, logs⟩ := boundary.exists_logs
  have waits : queued ∈ machine.microtasks.microtasks := next ▸ List.mem_cons_of_mem _ member
  obtain ⟨reactions, pending⟩ := boundary.pending_of_queued waits settles
  have most := machine.countP_settles_le id
  have one := (logs.settlersFor_of_pending pending).1
  have some : 0 < rest.countP (·.job.settles id) :=
    List.countP_pos_iff.mpr ⟨queued, member, settles⟩
  rw [next, List.countP_cons] at most
  by_contra also
  simp only [Bool.not_eq_false] at also
  simp only [also, if_true] at most
  omega

theorem Boundary.not_settles_of_fulfilled (boundary : Boundary program settings machine)
    {id : PromiseId} {value : Value}
    (fulfilled : machine.promises.get? id = some (.fulfilled value)) {queued : Microtask}
    (member : queued ∈ machine.microtasks.microtasks) : queued.job.settles id = false := by
  by_contra settles
  obtain ⟨reactions, pending⟩ := boundary.pending_of_queued member (Bool.of_not_eq_false settles)
  rw [pending] at fulfilled
  cases fulfilled

end Runs

end EventLoop
