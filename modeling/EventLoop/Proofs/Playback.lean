import EventLoop.Proofs.Trace
import EventLoop.Session
import Mathlib.Data.List.Induction

set_option autoImplicit false

/-!
# Sessions under commands

A session is moved by six commands, in any order. Whatever they are, the place in a run is one of
its steps, and the run is what the last run command made of the source at that time.
-/

namespace EventLoop

theorem simulate_eq_ok {source : String} {settings : Settings} {run : Run}
    (ran : simulate source settings = .ok run) :
    settings.validate = .ok () ∧
      ∃ program, Program.parse source = .ok program ∧ program.run settings = run := by
  unfold simulate at ran
  cases valid : settings.validate with
  | error error => simp [valid, Except.mapError, bind, Except.bind] at ran
  | ok =>
      cases parsed : Program.parse source with
      | error error => simp [valid, parsed, Except.mapError, bind, Except.bind] at ran
      | ok program =>
          refine ⟨rfl, program, rfl, ?_⟩
          simpa [valid, parsed, Except.mapError, bind, Except.bind, pure, Except.pure] using ran

theorem simulate_trace_pos {source : String} {settings : Settings} {run : Run}
    (ran : simulate source settings = .ok run) : 0 < run.trace.size := by
  obtain ⟨valid, program, -, rfl⟩ := simulate_eq_ok ran
  exact program.run_trace_size_pos (Settings.maxSteps_pos valid)

namespace Session

inductive Command where
  | setCode (code : String)
  | run
  | step
  | pause
  | seek (index : Nat)
  | reset
deriving DecidableEq, Repr

def Command.keepsRun : Command → Bool
  | .run | .reset => false
  | .setCode _ | .step | .pause | .seek _ => true

def perform (session : Session) : Command → Session
  | .setCode code => session.setCode code
  | .run => session.run.2
  | .step => session.step.2
  | .pause => session.pause
  | .seek index => session.seek index
  | .reset => session.reset

def performAll (session : Session) (commands : List Command) : Session :=
  commands.foldl perform session

@[simp]
theorem performAll_append (session : Session) (first second : List Command) :
    session.performAll (first ++ second) = (session.performAll first).performAll second := by
  simp [performAll]

@[simp]
theorem performAll_cons (session : Session) (command : Command) (rest : List Command) :
    session.performAll (command :: rest) = (session.perform command).performAll rest := rfl

@[simp]
theorem performAll_nil (session : Session) : session.performAll [] = session := rfl

variable {session : Session}

theorem run_of_ok {run : Run} (ran : simulate session.code session.settings = .ok run) :
    session.run =
      (.ok run, { session with run? := some run, stepIndex := 0, status := .running }) := by
  simp [Session.run, ran]

theorem run_of_error {error : RunError}
    (failed : simulate session.code session.settings = .error error) :
    session.run =
      (.error error, { session with run? := none, stepIndex := 0, status := .idle }) := by
  simp [Session.run, failed]

theorem run_answer (session : Session) :
    session.run.1 = simulate session.code session.settings := by
  cases ran : simulate session.code session.settings with
  | ok run => rw [run_of_ok ran]
  | error error => rw [run_of_error ran]

theorem step_of_none (idle : session.run? = none) : session.step = (false, session) := by
  simp [step, idle]

theorem step_of_more {run : Run} (stored : session.run? = some run)
    (more : session.stepIndex + 1 < run.trace.size) :
    session.step = (true, { session with stepIndex := session.stepIndex + 1 }) := by
  simp [step, stored, more]

theorem step_of_last {run : Run} (stored : session.run? = some run)
    (last : ¬session.stepIndex + 1 < run.trace.size) :
    session.step = (false, { session with status := .completed }) := by
  simp [step, stored, last]

theorem pause_cases (session : Session) :
    (session.status = .running ∧ session.pause = { session with status := .paused }) ∨
      (session.status ≠ .running ∧ session.pause = session) := by
  by_cases running : session.status = .running
  · exact .inl ⟨running, if_pos running⟩
  · exact .inr ⟨running, if_neg running⟩

theorem seek_of_none (idle : session.run? = none) (index : Nat) : session.seek index = session := by
  simp [seek, idle]

theorem seek_of_some {run : Run} (stored : session.run? = some run) (index : Nat) :
    session.seek index = { session with stepIndex := min index (run.trace.size - 1) } := by
  simp [seek, stored]

theorem perform_keeps {command : Command} (keeps : command.keepsRun = true) (session : Session) :
    (session.perform command).run? = session.run? ∧
      (session.perform command).settings = session.settings := by
  cases command with
  | run | reset => cases keeps
  | setCode code => exact ⟨rfl, rfl⟩
  | step =>
      cases stored : session.run? with
      | none => simp [perform, step_of_none stored, stored]
      | some run =>
          by_cases more : session.stepIndex + 1 < run.trace.size
          · simp [perform, step_of_more stored more, stored]
          · simp [perform, step_of_last stored more, stored]
  | pause => obtain ⟨-, same⟩ | ⟨-, same⟩ := session.pause_cases <;> simp [perform, same]
  | seek index =>
      cases stored : session.run? with
      | none => simp [perform, seek_of_none stored, stored]
      | some run => simp [perform, seek_of_some stored, stored]

theorem perform_settings (session : Session) (command : Command) :
    (session.perform command).settings = session.settings := by
  cases keeps : command.keepsRun with
  | true => exact (perform_keeps keeps session).2
  | false =>
      cases command with
      | run =>
          cases ran : simulate session.code session.settings with
          | ok run => rw [perform, run_of_ok ran]
          | error error => rw [perform, run_of_error ran]
      | reset => rfl
      | _ => cases keeps

theorem run?_perform_run {run : Run} :
    (session.perform .run).run? = some run ↔
      simulate session.code session.settings = .ok run := by
  cases ran : simulate session.code session.settings with
  | ok made => simp [perform, run_of_ok ran]
  | error error => simp [perform, run_of_error ran]

theorem step_cases (session : Session) :
    (session.step.1 = true ∧ session.step.2.stepIndex = session.stepIndex + 1) ∨
      (session.step.1 = false ∧ session.step.2.stepIndex = session.stepIndex ∧
        (session.run? ≠ none → session.step.2.status = .completed)) := by
  cases stored : session.run? with
  | none => exact .inr (by simp [step_of_none stored])
  | some run =>
      by_cases more : session.stepIndex + 1 < run.trace.size
      · exact .inl (by simp [step_of_more stored more])
      · exact .inr (by simp [step_of_last stored more])

structure InOrder (session : Session) : Prop where
  idle : session.status = .idle ↔ session.run? = none
  unplaced : session.run? = none → session.stepIndex = 0
  placed (run : Run) : session.run? = some run → session.stepIndex < run.trace.size

theorem new_inOrder (settings : Settings) : (new settings).InOrder where
  idle := ⟨fun _ => rfl, fun _ => rfl⟩
  unplaced _ := rfl
  placed _ stored := by cases stored

namespace InOrder

theorem step (inOrder : session.InOrder) : session.step.2.InOrder := by
  cases stored : session.run? with
  | none => rwa [step_of_none stored]
  | some run =>
      have busy : session.status ≠ .idle := fun idle => by
        rw [inOrder.idle.mp idle] at stored
        cases stored
      by_cases more : session.stepIndex + 1 < run.trace.size
      · rw [step_of_more stored more]
        constructor <;> simp_all
      · rw [step_of_last stored more]
        have bound := inOrder.placed run stored
        constructor <;> simp_all

theorem seek (inOrder : session.InOrder) (index : Nat) : (session.seek index).InOrder := by
  cases stored : session.run? with
  | none => rwa [seek_of_none stored]
  | some run =>
      -- The index is cut to the last step, and there is one since a step is shown now.
      have bound := inOrder.placed run stored
      have idle := inOrder.idle
      rw [seek_of_some stored]
      constructor <;> simp_all
      omega

theorem pause (inOrder : session.InOrder) : session.pause.InOrder := by
  have idle := inOrder.idle
  obtain ⟨running, same⟩ | ⟨-, same⟩ := session.pause_cases
  · rw [same]
    exact ⟨by simp_all, inOrder.unplaced, inOrder.placed⟩
  · rwa [same]

theorem perform (inOrder : session.InOrder) (command : Command) :
    (session.perform command).InOrder := by
  cases command with
  | setCode code => exact ⟨inOrder.idle, inOrder.unplaced, inOrder.placed⟩
  | run =>
      cases ran : simulate session.code session.settings with
      | ok run =>
          have nonempty := simulate_trace_pos ran
          rw [Session.perform, run_of_ok ran]
          constructor <;> simp [nonempty]
      | error error =>
          rw [Session.perform, run_of_error ran]
          constructor <;> simp
  | step => exact inOrder.step
  | pause => exact inOrder.pause
  | seek index => exact inOrder.seek index
  | reset => exact new_inOrder _

theorem performAll (inOrder : session.InOrder) (commands : List Command) :
    (session.performAll commands).InOrder := by
  induction commands generalizing session with
  | nil => exact inOrder
  | cons command rest ih => exact ih (inOrder.perform command)

end InOrder

theorem performAll_settings (session : Session) (commands : List Command) :
    (session.performAll commands).settings = session.settings := by
  induction commands generalizing session with
  | nil => rfl
  | cons command rest ih => rw [performAll_cons, ih, perform_settings]

theorem run?_performAll {commands : List Command}
    (keep : ∀ command ∈ commands, command.keepsRun = true) (session : Session) :
    (session.performAll commands).run? = session.run? := by
  induction commands generalizing session with
  | nil => rfl
  | cons command rest ih =>
      obtain ⟨keeps, others⟩ := List.forall_mem_cons.mp keep
      rw [performAll_cons, ih others, (perform_keeps keeps session).1]

/-- The last run command made the run, of the source at that time; no reset has come since. -/
def Ran (settings : Settings) (commands : List Command) (run : Run) : Prop :=
  ∃ earlier later, commands = earlier ++ .run :: later ∧
    (∀ command ∈ later, command.keepsRun = true) ∧
    simulate ((new settings).performAll earlier).code settings = .ok run

theorem run?_of_ran {settings : Settings} {commands : List Command} {run : Run}
    (ran : Ran settings commands run) : ((new settings).performAll commands).run? = some run := by
  obtain ⟨earlier, later, rfl, keep, made⟩ := ran
  rwa [performAll_append, performAll_cons, run?_performAll keep, run?_perform_run,
    performAll_settings]

theorem ran_of_run? {settings : Settings} {commands : List Command} {run : Run}
    (stored : ((new settings).performAll commands).run? = some run) :
    Ran settings commands run := by
  -- By induction on the commands from the last one back, up to the run command.
  induction commands using List.reverseRecOn with
  | nil => cases stored
  | append_singleton earlier command ih =>
      rw [performAll_append, performAll_cons, performAll_nil] at stored
      cases keeps : command.keepsRun with
      | true =>
          rw [(perform_keeps keeps _).1] at stored
          obtain ⟨first, later, rfl, keep, made⟩ := ih stored
          refine ⟨first, later ++ [command], by simp, ?_, made⟩
          rw [List.forall_mem_append, List.forall_mem_singleton]
          exact ⟨keep, keeps⟩
      | false =>
          cases command with
          | run =>
              rw [run?_perform_run, performAll_settings] at stored
              exact ⟨earlier, [], rfl, by simp, stored⟩
          | reset => cases stored
          | _ => cases keeps

/-- What is known of a session after the given commands. -/
structure Played (settings : Settings) (commands : List Command) (session : Session) : Prop
    extends InOrder session where
  stored (run : Run) : session.run? = some run ↔ Ran settings commands run
  answer : session.run.1 = simulate session.code settings
  success (run : Run) : simulate session.code settings = .ok run →
    session.run.2.run? = some run ∧ session.run.2.stepIndex = 0 ∧ session.run.2.status = .running
  failure (error : RunError) : simulate session.code settings = .error error →
    session.run.2.run? = none ∧ session.run.2.stepIndex = 0 ∧ session.run.2.status = .idle
  advance : session.step.1 = true ↔ session.step.2.stepIndex = session.stepIndex + 1
  complete : session.step.1 = false → session.step.2.stepIndex = session.stepIndex ∧
    (session.run? ≠ none → session.step.2.status = .completed)
  fresh : session.reset = new settings

/-- Whatever the settings, valid or not, and whatever the commands, the session that they lead to
from a new one has its status, its place and its run in order. -/
theorem performAll_played (settings : Settings) (commands : List Command) :
    Played settings commands ((new settings).performAll commands) := by
  have config : ((new settings).performAll commands).settings = settings :=
    performAll_settings (new settings) commands
  have stored (run : Run) :
      ((new settings).performAll commands).run? = some run ↔ Ran settings commands run :=
    ⟨ran_of_run?, run?_of_ran⟩
  have inOrder := (new_inOrder settings).performAll commands
  generalize (new settings).performAll commands = session at config stored inOrder ⊢
  have moves := session.step_cases
  refine ⟨inOrder, stored, config ▸ session.run_answer, fun run ran => ?_, fun error failed => ?_,
    ?_, ?_, ?_⟩
  next =>
    rw [run_of_ok (config ▸ ran)]
    exact ⟨rfl, rfl, rfl⟩
  next =>
    rw [run_of_error (config ▸ failed)]
    exact ⟨rfl, rfl, rfl⟩
  next =>
    obtain ⟨moved, next⟩ | ⟨stays, still, -⟩ := moves
    next => simp [moved, next]
    next => simp [stays, still]
  next =>
    intro stays
    obtain ⟨moved, -⟩ | ⟨-, still, completes⟩ := moves
    next => simp [moved] at stays
    next => exact ⟨still, completes⟩
  next => rw [reset, config]

end Session

end EventLoop
