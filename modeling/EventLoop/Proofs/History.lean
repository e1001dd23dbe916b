import EventLoop.Proofs.Enactment
import EventLoop.Proofs.Scripts
import EventLoop.Proofs.Trace

set_option autoImplicit false

/-!
# The history of a run

The history of a run is the list of all acts from its start to a boundary or to its end, and its log
tells them. The history is put together from the journeys of the turns.
-/

namespace EventLoop

open Simulation

inductive Program.Logs (program : Program) (settings : Settings) : List Entry → Machine → Prop where
  | program {log : List Entry} {after : Machine}
      (ran : program.prologue (m := Logged) settings .initial = (.done () after, log)) :
      Program.Logs program settings log after
  | turn {past log : List Entry} {before after : Machine}
      (logs : Program.Logs program settings past before)
      (ran : EventLoop.turn (m := Logged) settings before = (.done true after, log)) :
      Program.Logs program settings (past ++ log) after

def Program.log (program : Program) (settings : Settings) : List Entry :=
  (program.simulate (m := Logged) settings .initial).2

theorem Program.simulate_logged (program : Program) (settings : Settings) :
    program.simulate (m := Logged) settings .initial =
      (program.simulate (m := Simulation) settings .initial, program.log settings) :=
  Prod.ext (Erases.simulate program settings .initial) rfl

inductive Program.History (program : Program) (settings : Settings) : List Act → Machine →
    Prop where
  | program {acts : List Act} {after : Machine}
      (ran : program.prologue (m := Simulation) settings .initial = .done () after)
      (journey : Journey settings ⟨.started, .free⟩ acts ⟨after, .free⟩) :
      Program.History program settings (.record .start :: acts) after
  | turn {past acts : List Act} {before after : Machine}
      (history : Program.History program settings past before)
      (ran : EventLoop.turn (m := Simulation) settings before = .done true after)
      (journey : Journey settings ⟨before, .free⟩ acts ⟨after, .free⟩) :
      Program.History program settings (past ++ acts) after

inductive Program.Performs (program : Program) (settings : Settings) :
    List Act → Machine → Prop where
  | unstarted (noSteps : settings.maxSteps = 0) : Program.Performs program settings [] .initial
  | program {acts : List Act} {after : Machine} {duty : Duty} (steps : 0 < settings.maxSteps)
      (halts : program.prologue (m := Simulation) settings .initial = .halted after)
      (cut : Cut settings ⟨.started, .free⟩ acts ⟨after, duty⟩) :
      Program.Performs program settings (.record .start :: acts) after
  | turn {past acts : List Act} {before after : Machine} {duty : Duty}
      (history : program.History settings past before)
      (halts : EventLoop.turn (m := Simulation) settings before = .halted after)
      (cut : Cut settings ⟨before, .free⟩ acts ⟨after, duty⟩) :
      Program.Performs program settings (past ++ acts) after
  | completed {past : List Act} {after : Machine} (history : program.History settings past after)
      (idle : EventLoop.turn (m := Simulation) settings after = .done false after) :
      Program.Performs program settings past after

theorem Machine.started_sound : Machine.started.Sound := Machine.initial_sound.recorded _ _

section Enactments

variable {α : Type} {settings : Settings} {start : Config} {Post : Config → α → Prop}
variable {machine : Machine} {log : List Entry}

theorem Enacted.of_done {value : α}
    (enacted : Enacted settings start Post (.done value machine, log)) :
    ∃ acts duty, log = acts.map Act.entry ∧ Journey settings start acts ⟨machine, duty⟩ ∧
      Post ⟨machine, duty⟩ value := by
  generalize same : (Outcome.done value machine, log) = result at enacted
  cases enacted with
  | @done acts _ after journey post =>
      cases same
      exact ⟨acts, after.duty, rfl, journey, post⟩
  | halted => cases same

theorem Enacted.of_halted (enacted : Enacted settings start Post (.halted machine, log)) :
    ∃ acts duty, log = acts.map Act.entry ∧ Cut settings start acts ⟨machine, duty⟩ := by
  generalize same : (Outcome.halted machine, log) = result at enacted
  cases enacted with
  | done => cases same
  | @halted acts after cut =>
      cases same
      exact ⟨acts, after.duty, rfl, cut⟩

end Enactments

variable {program : Program} {settings : Settings} {machine : Machine} {acts history : List Act}
variable {log : List Entry}

theorem Program.prologue_enacted (program : Program) (steps : 0 < settings.maxSteps) :
    ∃ result, program.prologue (m := Logged) settings .initial =
      (result.1, .record .start :: result.2) ∧
      Enacted settings ⟨.started, .free⟩ (fun after _ => after.duty = .free) result := by
  have known : Scopes.global < Machine.started.extent.scopes := by decide
  let code : Logged Unit := do
    let _ ← execBody (Callable.call settings.maxCallDepth) Scopes.global program.body
    return
  have enacts : Enacts settings Machine.started.extent (fun _ _ => True) code :=
    (Enacts.execBody known program.body).bind fun _ _ _ _ => Enacts.pure trivial
  have records : (Actions.record .start none : Logged Unit) settings .initial =
      (.done () .started, [.record .start]) := by
    simp [Actions.record, Logged.telling, record_start steps]
  refine ⟨code settings .started, Logged.bind_of_done records _, ?_⟩
  exact (enacts ⟨.started, .free⟩ trivial ⟨Machine.started_sound, trivial⟩ rfl).mono
    fun _ _ post => post.1

theorem Boundary.steps_pos (boundary : Boundary program settings machine) :
    0 < settings.maxSteps := by
  induction boundary with
  | program ran =>
      by_contra none
      rw [program.prologue_unstarted (by omega)] at ran
      cases ran
  | turn _ _ ih => exact ih

theorem Program.History.boundary (reached : program.History settings history machine) :
    Boundary program settings machine := by
  induction reached with
  | program ran _ => exact .program ran
  | turn _ ran _ ih => exact ih.turn ran

theorem Program.History.sound (reached : program.History settings history machine) :
    machine.Sound := by
  induction reached with
  | program _ journey => exact (journey.sound ⟨Machine.started_sound, trivial⟩).machine
  | turn _ _ journey ih => exact (journey.sound ⟨ih, trivial⟩).machine

theorem Erases.of_logged {α : Type} {sim : Simulation α} {logged : Logged α} {outcome : Outcome α}
    (erases : Erases sim logged) (ran : logged settings machine = (outcome, log)) :
    sim settings machine = outcome := by
  rw [← erases settings machine, ran]

theorem Erases.exists_log {α : Type} {sim : Simulation α} {logged : Logged α} {outcome : Outcome α}
    (erases : Erases sim logged) (ran : sim settings machine = outcome) :
    ∃ log, logged settings machine = (outcome, log) :=
  ⟨(logged settings machine).2, by rw [← ran, ← erases settings machine]⟩

theorem Program.Logs.boundary (logs : program.Logs settings log machine) :
    Boundary program settings machine := by
  induction logs with
  | program ran => exact .program ((Erases.prologue program).of_logged ran)
  | turn _ ran ih => exact ih.turn (Erases.loopRespects.turn.of_logged ran)

theorem Program.Logs.scripted (logs : program.Logs settings log machine) : Scripted log := by
  induction logs with
  | program ran =>
      have ofCode := Logged.OfCode.prologue program settings .initial
      rw [ran] at ofCode
      exact .program ofCode
  | turn _ ran ih => exact ih.turn (Logged.turned ran)

theorem Boundary.exists_logs (boundary : Boundary program settings machine) :
    ∃ log, program.Logs settings log machine := by
  induction boundary with
  | program ran =>
      obtain ⟨log, logged⟩ := (Erases.prologue program).exists_log ran
      exact ⟨log, .program logged⟩
  | turn _ ran ih =>
      obtain ⟨past, logs⟩ := ih
      obtain ⟨log, logged⟩ := Erases.loopRespects.turn.exists_log ran
      exact ⟨past ++ log, logs.turn logged⟩

theorem Program.Logs.exists_history (logs : program.Logs settings log machine) :
    ∃ acts, log = acts.map Act.entry ∧ program.History settings acts machine := by
  induction logs with
  | program ran =>
      have first : Boundary program settings _ := (Program.Logs.program ran).boundary
      obtain ⟨result, same, enacted⟩ := program.prologue_enacted first.steps_pos
      obtain ⟨outcome, rest⟩ := result
      rw [ran, Prod.mk.injEq] at same
      obtain ⟨rfl, rfl⟩ := same
      obtain ⟨acts, duty, rfl, journey, rfl⟩ := enacted.of_done
      exact ⟨.record .start :: acts, rfl,
        .program ((Erases.prologue program).of_logged ran) journey⟩
  | turn _ ran ih =>
      obtain ⟨past, rfl, reached⟩ := ih
      have enacted : Enacted settings _ _ _ := Enacted.turn reached.sound
      rw [ran] at enacted
      obtain ⟨acts, duty, rfl, journey, rfl⟩ := enacted.of_done
      exact ⟨past ++ acts, List.map_append.symm,
        reached.turn (Erases.loopRespects.turn.of_logged ran) journey⟩

theorem Boundary.exists_history (boundary : Boundary program settings machine) :
    ∃ history, program.History settings history machine := by
  obtain ⟨log, logs⟩ := boundary.exists_logs
  obtain ⟨history, -, reached⟩ := logs.exists_history
  exact ⟨history, reached⟩

inductive Program.LogsTo (program : Program) (settings : Settings) (past : List Entry) :
    Outcome Unit × List Entry → Prop where
  | completed {log : List Entry} {after : Machine}
      (logs : program.Logs settings (past ++ log) after)
      (idle : EventLoop.turn (m := Logged) settings after = (.done false after, [])) :
      Program.LogsTo program settings past (.done () after, log)
  | halted {early late : List Entry} {last after : Machine}
      (logs : program.Logs settings (past ++ early) last)
      (halts : EventLoop.turn (m := Logged) settings last = (.halted after, late)) :
      Program.LogsTo program settings past (.halted after, early ++ late)

theorem Program.LogsTo.after {past early : List Entry} {result : Outcome Unit × List Entry}
    (ends : program.LogsTo settings (past ++ early) result) :
    program.LogsTo settings past (result.1, early ++ result.2) := by
  cases ends with
  | completed logs idle =>
      rw [List.append_assoc] at logs
      exact .completed logs idle
  | halted logs halts =>
      rw [List.append_assoc] at logs
      rw [← List.append_assoc]
      exact .halted logs halts

theorem Program.Logs.turns {past : List Entry} {before : Machine}
    (logs : program.Logs settings past before) (count : Nat)
    (enough : settings.maxSteps - before.trace.size < count) :
    program.LogsTo settings past (turns (m := Logged) count settings before) := by
  induction count generalizing past before with
  | zero => omega
  | succ count ih =>
      obtain ⟨more, after, log, ran⟩ | ⟨after, log, ran⟩ :=
        Logged.cases (EventLoop.turn (m := Logged)) settings before
      next =>
        have turned := Erases.loopRespects.turn.of_logged ran
        simp only [EventLoop.turns]
        rw [Logged.bind_of_done ran]
        cases more with
        | false =>
            obtain ⟨rfl, noMicrotask, noTask⟩ := turn_idle turned
            have idle : EventLoop.turn (m := Logged) settings after = (.done false after, []) :=
              Logged.turn_of_empty noMicrotask noTask
            obtain rfl : log = [] := congrArg Prod.snd (ran.symm.trans idle)
            have ends : program.LogsTo settings past (.done () after, []) :=
              .completed (by simpa using logs) idle
            exact ends
        | true =>
            have grown := turn_trace_size turned
            exact (ih (logs.turn ran) (by omega)).after
      next =>
        simp only [EventLoop.turns]
        rw [Logged.bind_of_halted ran]
        have ends : program.LogsTo settings past (.halted after, [] ++ log) :=
          .halted (by simpa using logs) ran
        exact ends

theorem Program.Logs.simulate (program : Program) (settings : Settings) :
    (∃ log after, program.prologue (m := Logged) settings .initial = (.halted after, log) ∧
      program.simulate (m := Logged) settings .initial = (.halted after, log)) ∨
    program.LogsTo settings [] (program.simulate (m := Logged) settings .initial) := by
  obtain ⟨_, before, log, ran⟩ | ⟨after, log, ran⟩ :=
    Logged.cases (program.prologue (m := Logged)) settings .initial
  next =>
    have logs : program.Logs settings ([] ++ log) before := .program ran
    have ends := (logs.turns _ (Nat.lt_succ_self _)).after
    refine .inr ?_
    rw [Program.simulate, Logged.bind_of_done ran]
    exact ends
  next =>
    refine .inl ⟨log, after, ran, ?_⟩
    rw [Program.simulate, Logged.bind_of_halted ran]

theorem Program.exists_performs (program : Program) (settings : Settings) :
    ∃ history, program.log settings = history.map Act.entry ∧ program.Performs settings history
      (program.simulate (m := Simulation) settings .initial).machine := by
  rw [← Erases.simulate program, Program.log]
  obtain ⟨log, after, halts, ends⟩ | ends := Program.Logs.simulate program settings
  next =>
    rw [ends]
    have halted := (Erases.prologue program).of_logged halts
    obtain noSteps | steps := Nat.eq_zero_or_pos settings.maxSteps
    next =>
      have nothing : program.prologue (m := Logged) settings .initial = (.halted .initial, []) := by
        refine Logged.bind_of_halted ?_ _
        simp [Actions.record, Logged.telling, record, noSteps]
      rw [nothing, Prod.mk.injEq, Outcome.halted.injEq] at halts
      obtain ⟨rfl, rfl⟩ := halts
      exact ⟨[], rfl, .unstarted noSteps⟩
    next =>
      obtain ⟨⟨outcome, rest⟩, same, enacted⟩ := program.prologue_enacted steps
      rw [halts, Prod.mk.injEq] at same
      obtain ⟨rfl, rfl⟩ := same
      obtain ⟨acts, duty, rfl, cut⟩ := enacted.of_halted
      exact ⟨.record .start :: acts, rfl, .program steps halted cut⟩
  next =>
    generalize program.simulate (m := Logged) settings .initial = result at ends
    cases ends with
    | completed logs idle =>
        obtain ⟨acts, same, reached⟩ := logs.exists_history
        exact ⟨acts, same, .completed reached (Erases.loopRespects.turn.of_logged idle)⟩
    | halted logs halts =>
        obtain ⟨past, same, reached⟩ := logs.exists_history
        have enacted : Enacted settings _ _ _ := Enacted.turn reached.sound
        rw [halts] at enacted
        obtain ⟨acts, duty, rfl, cut⟩ := enacted.of_halted
        rw [List.nil_append] at same
        refine ⟨past ++ acts, ?_, .turn reached (Erases.loopRespects.turn.of_logged halts) cut⟩
        rw [same, List.map_append]

theorem Program.completed_logs (completed : (program.run settings).truncated = false) :
    let machine := (program.simulate (m := Simulation) settings .initial).machine
    program.Logs settings (program.log settings) machine ∧ machine.microtasks.microtasks = [] ∧
      machine.tasks.tasks = [] := by
  unfold Program.run at completed
  rw [← Erases.simulate program] at completed ⊢
  unfold Program.log
  obtain ⟨log, after, -, ends⟩ | ends := Program.Logs.simulate program settings
  next =>
    rw [ends] at completed
    cases completed
  next =>
    generalize program.simulate (m := Logged) settings .initial = result at ends completed
    cases ends with
    | completed logs idle =>
        obtain ⟨-, noMicrotask, noTask⟩ := turn_idle (Erases.loopRespects.turn.of_logged idle)
        exact ⟨logs, noMicrotask, noTask⟩
    | halted => cases completed

theorem Program.Performs.completed_history (performs : program.Performs settings history machine)
    (completed : (program.run settings).truncated = false) :
    program.History settings history machine := by
  unfold Program.run at completed
  cases performs with
  | unstarted noSteps =>
      rw [Program.simulate, bind_apply, program.prologue_unstarted noSteps] at completed
      cases completed
  | program _ halts _ =>
      rw [Program.simulate, bind_apply, halts] at completed
      cases completed
  | turn reached halts _ =>
      rw [reached.boundary.simulate_eq _ (Nat.lt_succ_self _), turns, bind_apply,
        halts] at completed
      cases completed
  | completed reached _ => exact reached

theorem Effect.late_call {config after : Config} {event : Event} {late : List Act}
    (effect : Effect config acts (some (event, late)) after) :
    ∀ act ∈ late, ∃ builtin arguments result, act = .call builtin arguments result := by
  have subscribing {source : PromiseId} {reaction : Reaction} {act : Act} {following : List Act}
      {machine changed : Machine}
      (subscribes : Subscribes source reaction act following machine acts (some (event, late))
        changed)
      (calls : ∀ act ∈ following, ∃ builtin arguments result, act =
        .call builtin arguments result) :
      ∀ act ∈ late, ∃ builtin arguments result, act = .call builtin arguments result := by
    cases subscribes
    exact calls
  cases effect with
  | operation evaluates operation =>
      cases operation with
      | register known within subscribes => exact subscribing subscribes (by simp)
      | _ => simp
  | restore known subscribes => exact subscribing subscribes (by simp)
  | follow known subscribes => exact subscribing subscribes (by simp)
  | _ => simp

section Invariants

variable {Inv : List Act → Config → Prop}

section Steps

variable (started : Inv [.record .start] ⟨.started, .free⟩)
variable (silent : ∀ {log acts : List Act} {config after : Config},
  Effect config acts none after → config.Sound → Inv log config → Inv (log ++ acts) after)
variable (recorded : ∀ {log acts late : List Act} {event : Event} {config after : Config}
  (node : Option NodeRef), Effect config acts (some (event, late)) after → config.Sound →
    after.machine.trace.size < settings.maxSteps → Inv log config →
      Inv (log ++ (acts ++ .record event :: late)) (after.record event node))

include silent recorded

theorem Journey.invariant {start reached : Config} {past : List Act}
    (journey : Journey settings start acts reached) (sound : start.Sound) (holds : Inv past start) :
    Inv (past ++ acts) reached := by
  induction journey with
  | refl => simpa using holds
  | silent journey effect ih =>
      rw [← List.append_assoc]
      exact silent effect (journey.sound sound) ih
  | recorded journey effect node room ih =>
      rw [← List.append_assoc]
      exact recorded node effect (journey.sound sound) room ih

include started

theorem Program.History.invariant (reached : program.History settings history machine) :
    Inv history ⟨machine, .free⟩ := by
  induction reached with
  | program _ journey =>
      exact journey.invariant silent recorded ⟨Machine.started_sound, trivial⟩ started
  | turn reached _ journey ih =>
      exact journey.invariant silent recorded ⟨reached.sound, trivial⟩ ih

theorem Program.Performs.invariant (performs : program.Performs settings history machine) :
    (settings.maxSteps = 0 ∧ history = [] ∧ machine = .initial) ∨
      (∃ past acts event late config after, history = past ++ acts ∧ after.machine = machine ∧
        config.Sound ∧ Inv past config ∧ Effect config acts (some (event, late)) after ∧
        settings.maxSteps ≤ after.machine.trace.size) ∨
      Inv history ⟨machine, .free⟩ := by
  have cutShort {start last : Config} {past acts : List Act} (cut : Cut settings start acts last)
      (sound : start.Sound) (holds : Inv past start) :
      ∃ log rest event late config after, past ++ acts = log ++ rest ∧
        after.machine = last.machine ∧ config.Sound ∧ Inv log config ∧
        Effect config rest (some (event, late)) after ∧
        settings.maxSteps ≤ after.machine.trace.size := by
    cases cut with
    | intro journey effect full =>
        exact ⟨_, _, _, _, _, _, (List.append_assoc ..).symm, rfl, journey.sound sound,
          journey.invariant silent recorded sound holds, effect, full⟩
  cases performs with
  | unstarted noSteps => exact .inl ⟨noSteps, rfl, rfl⟩
  | program _ _ cut => exact .inr (.inl (cutShort cut ⟨Machine.started_sound, trivial⟩ started))
  | turn reached _ cut =>
      exact .inr (.inl (cutShort cut ⟨reached.sound, trivial⟩
        (reached.invariant started silent recorded)))
  | completed reached _ => exact .inr (.inr (reached.invariant started silent recorded))

end Steps

section Effects

variable (initial : Inv [] .initial)
variable (effect : ∀ {log acts : List Act} {notice : Notice} {config after : Config},
  Effect config acts notice after → config.Sound → Inv log config → Inv (log ++ acts) after)
variable (record : ∀ {log : List Act} {config : Config} (event : Event) (node : Option NodeRef),
  Inv log config → Inv (log ++ [.record event]) (config.record event node))
variable (call : ∀ {log : List Act} {config : Config} (builtin : Builtin) (arguments : List Value)
  (result : Value), Inv log config → Inv (log ++ [.call builtin arguments result]) config)

include effect record call

theorem Effect.keeps {log late : List Act} {event : Event} {config after : Config}
    (node : Option NodeRef) (change : Effect config acts (some (event, late)) after)
    (sound : config.Sound) (holds : Inv log config) :
    Inv (log ++ (acts ++ .record event :: late)) (after.record event node) := by
  have stepped := record event node (effect change sound holds)
  have calls := change.late_call
  rw [← List.append_assoc, List.append_cons]
  clear change holds
  generalize log ++ acts ++ [.record event] = past at stepped
  induction late generalizing past with
  | nil => simpa using stepped
  | cons act rest ih =>
      obtain ⟨⟨builtin, arguments, result, rfl⟩, others⟩ := List.forall_mem_cons.mp calls
      rw [List.append_cons]
      exact ih others _ (call builtin arguments result stepped)

theorem Journey.keeps {start reached : Config} {past : List Act}
    (journey : Journey settings start acts reached) (sound : start.Sound) (holds : Inv past start) :
    Inv (past ++ acts) reached :=
  journey.invariant effect (fun node change sound _ => change.keeps effect record call node sound)
    sound holds

include initial

theorem Program.History.keeps (reached : program.History settings history machine) :
    Inv history ⟨machine, .free⟩ :=
  reached.invariant (record .start none initial) effect fun node change sound _ =>
    change.keeps effect record call node sound

-- An invariant of effects that neither recorded steps nor the results of calls disturb holds at the
-- end of every run.
theorem Program.Performs.keeps (performs : program.Performs settings history machine) :
    ∃ duty, Inv history ⟨machine, duty⟩ := by
  have ends := performs.invariant (record .start none initial) effect fun node change sound _ =>
    change.keeps effect record call node sound
  obtain ⟨-, rfl, rfl⟩ |
    ⟨past, acts, event, late, config, after, rfl, rfl, sound, holds, change, -⟩ | holds := ends
  next => exact ⟨.free, initial⟩
  next => exact ⟨after.duty, effect change sound holds⟩
  next => exact ⟨.free, holds⟩

section Laws

variable {law weaker : List Entry → Entry → List Entry → Prop}
variable (grows : ∀ {before after more : List Entry} {entry : Entry},
  law before entry after → law before entry (after ++ more))
variable (ensures : ∀ {log acts : List Act} {notice : Notice} {config after : Config},
  Effect config acts notice after → config.Sound → Inv log config →
    Lawful law (log.map Act.entry) ((acts ++ notice.acts).map Act.entry))

omit effect record call initial

def Abides (Inv : List Act → Config → Prop) (law : List Entry → Entry → List Entry → Prop)
    (acts : List Act) (config : Config) : Prop :=
  Inv acts config ∧ Lawful law [] (acts.map Act.entry)

include effect grows ensures

theorem Effect.abides_silent {log : List Act} {config after : Config}
    (change : Effect config acts none after) (sound : config.Sound)
    (abides : Abides Inv law log config) :
    Abides Inv law (log ++ acts) after := by
  obtain ⟨holds, lawful⟩ := abides
  have block := ensures change sound holds
  rw [Notice.acts, List.append_nil] at block
  refine ⟨effect change sound holds, ?_⟩
  rw [List.map_append]
  exact lawful.append grows block

include record call

theorem Effect.abides_recorded {log late : List Act} {event : Event} {config after : Config}
    (node : Option NodeRef) (change : Effect config acts (some (event, late)) after)
    (sound : config.Sound) (abides : Abides Inv law log config) :
    Abides Inv law (log ++ (acts ++ .record event :: late)) (after.record event node) := by
  obtain ⟨holds, lawful⟩ := abides
  refine ⟨change.keeps effect record call node sound holds, ?_⟩
  rw [List.map_append]
  exact lawful.append grows (ensures change sound holds)

include initial

theorem Program.History.lawful (start : law [] (.record .start) [])
    (reached : program.History settings history machine) :
    Lawful law [] (history.map Act.entry) := by
  have started : Abides Inv law [.record .start] ⟨.started, .free⟩ :=
    ⟨record .start none initial, start, trivial⟩
  have abides := reached.invariant started (Effect.abides_silent effect grows ensures)
    fun node change sound _ => change.abides_recorded effect record call grows ensures node sound
  exact abides.2

theorem Program.Performs.lawful (start : law [] (.record .start) [])
    (weakens : ∀ {before after more : List Entry} {entry : Entry},
      law before entry after → weaker before entry (after ++ more))
    (cut : ∀ {log acts late : List Act} {event : Event} {config after : Config},
      Effect config acts (some (event, late)) after → config.Sound → Inv log config →
        Lawful weaker (log.map Act.entry) (acts.map Act.entry))
    (performs : program.Performs settings history machine) :
    Lawful weaker [] (history.map Act.entry) := by
  have started : Abides Inv law [.record .start] ⟨.started, .free⟩ :=
    ⟨record .start none initial, start, trivial⟩
  obtain ⟨-, rfl, -⟩ |
    ⟨past, acts, event, late, config, after, rfl, -, sound, ⟨holds, lawful⟩, change, -⟩ |
    ⟨-, lawful⟩ := performs.invariant started (Effect.abides_silent effect grows ensures)
      fun node change sound _ => change.abides_recorded effect record call grows ensures node sound
  next => trivial
  next =>
    rw [List.map_append]
    exact lawful.append weakens (cut change sound holds)
  next =>
    have whole : Lawful weaker [] (history.map Act.entry ++ []) := lawful.append weakens trivial
    rwa [List.append_nil] at whole

end Laws

end Effects

end Invariants

end EventLoop
