import EventLoop.Proofs.Generations

set_option autoImplicit false

/-!
# How long adoption takes

A promise that is settled with a value is fulfilled at once.
-/

namespace EventLoop

open Simulation

namespace Reactions

variable {settings : Settings} {machine after : Machine} {id other : PromiseId} {value : Value}
variable {reaction : Reaction}

theorem enqueue_done (done : enqueue (m := Simulation) reaction value settings machine =
    .done () after) :
    after.promises = machine.promises ∧ after.microtasks.microtasks =
      machine.microtasks.microtasks ++ [⟨reaction.name, .reaction reaction value⟩] := by
  obtain ⟨_, queued, ran, recorded⟩ := bind_done done
  cases ran
  rw [record_done recorded]
  exact ⟨rfl, rfl⟩

theorem enqueueAll_done {reactions : List Reaction}
    (done : enqueueAll (m := Simulation) value reactions settings machine = .done () after) :
    after.promises = machine.promises := by
  induction reactions generalizing machine with
  | nil =>
      cases done
      rfl
  | cons reaction rest ih =>
      obtain ⟨_, queued, first, others⟩ := bind_done done
      rw [ih others, (enqueue_done first).1]

theorem settle_final_done (final : value.Final) {reactions : List Reaction}
    (pending : machine.promises.get? id = some (.pending reactions))
    (done : settle (m := Simulation) id value settings machine = .done () after) :
    after.promises.get? id = some (.fulfilled value) := by
  rw [settle_of_final final] at done
  obtain ⟨_, _, noted, done⟩ := bind_done done
  cases noted
  obtain ⟨released, changed, ran, queued⟩ := bind_done done
  simp only [Actions.fulfill, fulfill, update, Promises.fulfill_of_pending pending] at ran
  cases ran
  rw [enqueueAll_done queued]
  exact Promises.get?_put_self (Promises.lt_size_of_get? pending)

theorem settle_promise_done (different : other ≠ id)
    (done : settle (m := Simulation) id (.promise other) settings machine = .done () after) :
    after.promises = machine.promises ∧ after.microtasks.microtasks =
      machine.microtasks.microtasks ++ [⟨"resolveThenable", .follow id other⟩] := by
  simp only [settle, beq_iff_eq, different, if_false] at done
  obtain ⟨_, queued, ran, recorded⟩ := bind_done done
  cases ran
  rw [record_done recorded]
  exact ⟨rfl, rfl⟩

theorem subscribe_done (settled : machine.promises.get? id = some (.fulfilled value))
    (done : subscribe (m := Simulation) id reaction settings machine = .done () after) :
    after.promises = machine.promises ∧ after.microtasks.microtasks =
      machine.microtasks.microtasks ++ [⟨reaction.name, .reaction reaction value⟩] := by
  obtain ⟨kept, changed, ran, queued⟩ := bind_done done
  simp only [Actions.keepReaction, keepReaction, update,
    Promises.subscribe_of_fulfilled settled] at ran
  cases ran
  exact enqueue_done queued

theorem restoreAfter_done {outcome saved result : Value}
    (settled : outcome.Final ∨ ∃ other held, outcome = .promise other ∧
      machine.promises.get? other = some (.fulfilled held))
    (done : restoreAfter (m := Simulation) outcome saved settings machine = .done result after) :
    ∃ restored held, result = .promise restored ∧ machine.promises.size ≤ restored ∧
      after.microtasks.microtasks = machine.microtasks.microtasks ++
        [⟨"finally", .reaction ⟨.onFinally, .restore saved, restored⟩ held⟩] := by
  obtain ⟨waited, found, waits, rest⟩ := bind_done done
  obtain ⟨restored, created, creates, rest⟩ := bind_done rest
  obtain ⟨_, last, subscribed, returned⟩ := bind_done rest
  cases returned
  cases creates
  -- Either way the promise that is waited for has a value.
  have holds : ∃ held, found.promises.get? waited = some (.fulfilled held) ∧
      machine.promises.size ≤ found.promises.size ∧ found.microtasks = machine.microtasks := by
    obtain final | ⟨other, held, rfl, fulfilled⟩ := settled
    next =>
      rw [promiseOf_of_final final] at waits
      cases waits
      exact ⟨outcome, Promises.get?_create_self, by simp [Promises.size], rfl⟩
    next =>
      cases waits
      exact ⟨held, fulfilled, le_refl _, rfl⟩
  obtain ⟨held, fulfilled, grown, same⟩ := holds
  refine ⟨_, held, rfl, grown, ?_⟩
  rw [← same]
  exact (subscribe_done (Machine.withPromise_fulfilled fulfilled) subscribed).2

end Reactions

def Invocation.Fulfills (invocation : Invocation) (id : PromiseId) (value : Value) : Prop :=
  (∃ reactions, invocation.before.promises.get? id = some (.pending reactions)) ∧
    invocation.after.promises.get? id = some (.fulfilled value)

def settlements (id : PromiseId) (log : List Invocation) : List Invocation :=
  log.filter (·.microtask.job.settles id)

/-- Two microtasks fulfil the promise with the value of another one: the first makes it follow the
other promise, and the second, of the next generation, passes the value on. -/
def Adopts (id other : PromiseId) (value : Value) (generation : Nat) (log : List Invocation) :
    Prop :=
  ∃ following passing, settlements id log = [following, passing] ∧
    following.microtask = ⟨"resolveThenable", .follow id other⟩ ∧
    following.generation = generation + 1 ∧
    passing.microtask = ⟨"then", .reaction ⟨.onThen, .passThrough, id⟩ value⟩ ∧
    passing.generation = generation + 2 ∧ passing.Fulfills id value

inductive Adopting (id other : PromiseId) (value : Value) (generation : Nat) :
    List Invocation → Machine → List (Microtask × Nat) → Prop where
  | waiting {log : List Invocation} {machine : Machine} {ahead behind : List (Microtask × Nat)}
      (unsettled : settlements id log = [])
      (ready : machine.promises.get? other = some (.fulfilled value) ∨
        ∃ name kind held young,
          (⟨name, .reaction ⟨kind, .restore value, other⟩ held⟩, young) ∈ ahead) :
      Adopting id other value generation log machine
        (ahead ++ (⟨"resolveThenable", .follow id other⟩, generation + 1) :: behind)
  | following {log : List Invocation} {machine : Machine} {pending : List (Microtask × Nat)}
      {following : Invocation} (followed : settlements id log = [following])
      (microtask : following.microtask = ⟨"resolveThenable", .follow id other⟩)
      (next : following.generation = generation + 1)
      (passes : (⟨"then", .reaction ⟨.onThen, .passThrough, id⟩ value⟩, generation + 2) ∈ pending) :
      Adopting id other value generation log machine pending
  | adopted {log : List Invocation} {machine : Machine} {pending : List (Microtask × Nat)}
      (adopts : Adopts id other value generation log)
      (fulfilled : machine.promises.get? id = some (.fulfilled value)) :
      Adopting id other value generation log machine pending

section Steps

variable {program : Program} {settings : Settings} {before after : Machine}
variable {microtask : Microtask} {rest : List Microtask}

theorem Boundary.turn_fulfills (boundary : Boundary program settings before) {name : String}
    {reaction : Reaction} {value result : Value}
    (next : before.microtasks.microtasks = ⟨name, .reaction reaction value⟩ :: rest)
    (ran : EventLoop.turn (m := Simulation) settings before = .done true after)
    (final : result.Final)
    (gives : Reactions.result (m := Simulation) callValue reaction value = pure result) :
    after.promises.get? reaction.derived = some (.fulfilled result) := by
  obtain ⟨last, job, promises, -⟩ := turn_job ran next
  obtain ⟨outcome, found, given, settles⟩ := bind_done job
  obtain ⟨reactions, pending⟩ := boundary.derived_pending next given
  rw [gives] at given
  cases given
  rw [promises]
  exact Reactions.settle_final_done final pending settles

theorem Boundary.head_within (boundary : Boundary program settings before)
    (next : before.microtasks.microtasks = microtask :: rest) :
    microtask.job.Within before.extent := by
  obtain ⟨past, reached⟩ := boundary.exists_history
  exact reached.sound.microtasks microtask (by simp [next])

theorem settles_follow (id other : PromiseId) : (Job.follow id other).settles id = true := by
  simp [Job.settles, Job.isFollowFor]

theorem settles_reaction (reaction : Reaction) (value : Value) :
    (Job.reaction reaction value).settles reaction.derived = true := by
  simp [Job.settles, Job.isReactionFor]

theorem settlements_other {id : PromiseId} (log : List Invocation) (invocation : Invocation)
    (other : invocation.microtask.job.settles id = false) :
    settlements id (log ++ [invocation]) = settlements id log := by
  simp [settlements, List.filter_append, other]

theorem settlements_settler {id : PromiseId} (log : List Invocation) (invocation : Invocation)
    (settler : invocation.microtask.job.settles id = true) :
    settlements id (log ++ [invocation]) = settlements id log ++ [invocation] := by
  simp [settlements, List.filter_append, settler]

namespace Adopting

variable {id other : PromiseId} {value : Value} {generation young : Nat} {log : List Invocation}
variable {queue : List (Microtask × Nat)} {new : List Microtask}

theorem follow (unsettled : settlements id log = [])
    (fulfilled : before.promises.get? other = some (.fulfilled value))
    (next : before.microtasks.microtasks =
      ⟨"resolveThenable", .follow id other⟩ :: queue.map Prod.fst)
    (ran : turn (m := Simulation) settings before = .done true after)
    (queued : after.microtasks.microtasks = queue.map Prod.fst ++ new) :
    Adopting id other value generation
      (log ++ [⟨⟨"resolveThenable", .follow id other⟩, generation + 1, before, after⟩]) after
      (queue ++ new.map (·, generation + 1 + 1)) := by
  obtain ⟨last, job, -, microtasks⟩ := turn_job ran next
  have settled :
      ({ before with microtasks := ⟨queue.map Prod.fst⟩ } : Machine).promises.get? other =
        some (.fulfilled value) := fulfilled
  have subscribed := (Reactions.subscribe_done settled job).2
  rw [← microtasks, queued] at subscribed
  obtain rfl := List.append_cancel_left subscribed
  have followed := settlements_settler log
    ⟨⟨"resolveThenable", .follow id other⟩, generation + 1, before, after⟩ (settles_follow id other)
  rw [unsettled] at followed
  exact .following followed rfl rfl (List.mem_append_right _ List.mem_cons_self)

theorem pass (boundary : Boundary program settings before) {following : Invocation}
    (followed : settlements id log = [following])
    (microtask : following.microtask = ⟨"resolveThenable", .follow id other⟩)
    (first : following.generation = generation + 1)
    (next : before.microtasks.microtasks =
      ⟨"then", .reaction ⟨.onThen, .passThrough, id⟩ value⟩ :: rest)
    (ran : turn (m := Simulation) settings before = .done true after) :
    Adopting id other value generation
      (log ++ [⟨⟨"then", .reaction ⟨.onThen, .passThrough, id⟩ value⟩, generation + 2, before,
        after⟩]) after queue := by
  have fulfilled : after.promises.get? id = some (.fulfilled value) :=
    boundary.turn_fulfills next ran (boundary.head_within next).2.1 rfl
  have settles := settles_reaction ⟨.onThen, .passThrough, id⟩ value
  have pending := boundary.pending_of_queued (next ▸ List.mem_cons_self) settles
  refine .adopted ⟨following, ⟨_, generation + 2, before, after⟩, ?_, microtask, first, rfl, rfl,
    pending, fulfilled⟩ fulfilled
  rw [settlements_settler log _ settles, followed]
  rfl

theorem step (boundary : Boundary program settings before)
    (next : before.microtasks.microtasks = microtask :: queue.map Prod.fst)
    (ran : turn (m := Simulation) settings before = .done true after)
    (queued : after.microtasks.microtasks = queue.map Prod.fst ++ new)
    (adopting : Adopting id other value generation log before ((microtask, young) :: queue)) :
    Adopting id other value generation (log ++ [⟨microtask, young, before, after⟩]) after
      (queue ++ new.map (·, young + 1)) := by
  generalize head : (microtask, young) :: queue = pending at adopting
  cases adopting with
  | @waiting ahead behind unsettled ready =>
      -- Either the microtask that follows is next, or it waits behind another one.
      cases ahead with
      | nil =>
          cases head
          obtain fulfilled | ⟨_, _, _, _, none⟩ := ready
          · exact follow unsettled fulfilled next ran queued
          · cases none
      | cons first ahead =>
          rw [List.cons_append] at head
          obtain ⟨rfl, rfl⟩ := List.cons.inj head
          have later : ⟨"resolveThenable", .follow id other⟩ ∈
              (ahead ++ (⟨"resolveThenable", .follow id other⟩, generation + 1) :: behind).map
                Prod.fst := by simp
          have elsewhere := boundary.settles_head next later (settles_follow id other)
          rw [List.append_assoc, List.cons_append]
          refine .waiting ((settlements_other log _ elsewhere).trans unsettled) ?_
          obtain fulfilled | ⟨name, kind, held, stamp, member⟩ := ready
          · exact .inl (boundary.turn_fulfilled ran fulfilled)
          · cases member with
            | head =>
                -- The turn is that of the reaction which gives the other promise its value.
                have saved := (boundary.head_within next).1.handler
                exact .inl (boundary.turn_fulfills next ran saved.1 (by cases kind <;> rfl))
            | tail _ member => exact .inr ⟨name, kind, held, stamp, member⟩
  | following followed same first passes =>
      subst head
      cases passes with
      | head => exact pass boundary followed same first next ran
      | tail _ member =>
          have later := List.mem_map_of_mem (f := Prod.fst) member
          have elsewhere := boundary.settles_head next later
            (settles_reaction ⟨.onThen, .passThrough, id⟩ value)
          exact .following ((settlements_other log _ elsewhere).trans followed) same first
            (List.mem_append_left _ member)
  | adopted adopts fulfilled =>
      -- Nothing is on its way to a promise that has its value.
      have elsewhere := boundary.not_settles_of_fulfilled fulfilled (next ▸ List.mem_cons_self)
      refine .adopted ?_ (boundary.turn_fulfilled ran fulfilled)
      unfold Adopts
      rw [settlements_other log _ elsewhere]
      exact adopts

theorem task (boundary : Boundary program settings before)
    (ran : turn (m := Simulation) settings before = .done true after)
    (adopting : Adopting id other value generation log before []) :
    Adopting id other value generation log after queue := by
  generalize drained : [] = pending at adopting
  cases adopting with
  | waiting => simp at drained
  | following _ _ _ passes =>
      subst drained
      cases passes
  | adopted adopts fulfilled => exact .adopted adopts (boundary.turn_fulfilled ran fulfilled)

theorem adopts (adopting : Adopting id other value generation log before []) :
    Adopts id other value generation log := by
  generalize drained : [] = pending at adopting
  cases adopting with
  | waiting => simp at drained
  | following _ _ _ passes =>
      subst drained
      cases passes
  | adopted adopts _ => exact adopts

end Adopting

def Invocation.entered (invocation : Invocation) : Machine :=
  { invocation.before with microtasks := ⟨invocation.before.microtasks.microtasks.tail⟩ }

structure Invocation.Defers (invocation : Invocation) (id other : PromiseId) (value : Value) :
    Prop where
  settles : invocation.microtask.job.settles id = true
  ready : ∃ ahead, invocation.after.microtasks.microtasks =
      ahead ++ [⟨"resolveThenable", .follow id other⟩] ∧
    (invocation.after.promises.get? other = some (.fulfilled value) ∨
      ∃ name kind held, ⟨name, .reaction ⟨kind, .restore value, other⟩ held⟩ ∈ ahead)

theorem Invocation.Defers.adopting (boundary : Boundary program settings before)
    {queue : List (Microtask × Nat)} {new : List Microtask} {generation : Nat}
    {id other : PromiseId} {value : Value} (next : before.microtasks.microtasks =
      microtask :: queue.map Prod.fst)
    (queued : after.microtasks.microtasks = queue.map Prod.fst ++ new)
    (defers : Invocation.Defers ⟨microtask, generation, before, after⟩ id other value) :
    Adopting id other value generation [] after (queue ++ new.map (·, generation + 1)) := by
  obtain ⟨ahead, ends, ready⟩ := defers.ready
  rw [queued] at ends
  obtain rfl | ⟨others, last, rfl⟩ := List.eq_nil_or_concat' new
  next =>
    -- Otherwise the queue would hold two settlers of the promise before the turn.
    have old : ⟨"resolveThenable", .follow id other⟩ ∈ queue.map Prod.fst := by
      rw [List.append_nil] at ends
      simp [ends]
    have elsewhere := boundary.settles_head next old (settles_follow id other)
    rw [defers.settles] at elsewhere
    cases elsewhere
  next =>
    rw [← List.append_assoc] at ends
    obtain ⟨rfl, same⟩ := List.append_inj' ends rfl
    cases same
    rw [List.map_append, ← List.append_assoc]
    refine .waiting rfl (ready.imp_right ?_)
    rintro ⟨name, kind, held, member⟩
    obtain old | fresh := List.mem_append.mp member
    · obtain ⟨⟨_, young⟩, found, rfl⟩ := List.mem_map.mp old
      exact ⟨name, kind, held, young, List.mem_append_left _ found⟩
    · exact ⟨name, kind, held, _, List.mem_append_right _ (List.mem_map_of_mem fresh)⟩

end Steps

structure Invocation.Ran (program : Program) (settings : Settings) (invocation : Invocation) :
    Prop where
  boundary : Boundary program settings invocation.before
  next : ∃ rest, invocation.before.microtasks.microtasks = invocation.microtask :: rest
  done : turn (m := Simulation) settings invocation.before = .done true invocation.after

namespace Invocation.Ran

variable {program : Program} {settings : Settings} {invocation : Invocation} {name : String}
variable {reaction : Reaction} {callback value : Value} {derived : PromiseId}

theorem reaction_done (ran : invocation.Ran program settings)
    (job : invocation.microtask = ⟨name, .reaction reaction value⟩) :
    ∃ outcome found last,
      Reactions.result (m := Simulation) callValue reaction value settings invocation.entered =
        .done outcome found ∧
      Reactions.settle (m := Simulation) reaction.derived outcome settings found = .done () last ∧
      (∃ reactions, found.promises.get? reaction.derived = some (.pending reactions)) ∧
      invocation.after.promises = last.promises ∧
      invocation.after.microtasks = last.microtasks := by
  obtain ⟨rest, next⟩ := ran.next
  have entered : invocation.entered = { invocation.before with microtasks := ⟨rest⟩ } := by
    simp [Invocation.entered, next]
  rw [job] at next
  obtain ⟨last, run, promises, microtasks⟩ := turn_job ran.done next
  obtain ⟨outcome, found, given, settles⟩ := bind_done run
  exact ⟨outcome, found, last, entered ▸ given, settles, ran.boundary.derived_pending next given,
    promises, microtasks⟩

theorem settles (job : invocation.microtask = ⟨name, .reaction reaction value⟩) :
    invocation.microtask.job.settles reaction.derived = true := by
  rw [job]
  exact settles_reaction reaction value

theorem derived_pending (ran : invocation.Ran program settings)
    (job : invocation.microtask = ⟨name, .reaction reaction value⟩) :
    ∃ reactions, invocation.before.promises.get? reaction.derived = some (.pending reactions) := by
  obtain ⟨rest, next⟩ := ran.next
  exact ran.boundary.pending_of_queued (next ▸ List.mem_cons_self) (settles job)

theorem promises_size_le (ran : invocation.Ran program settings)
    (job : invocation.microtask = ⟨name, .reaction reaction value⟩) (calls : reaction.Calls)
    (handler : reaction.handler = .callback callback) {arguments : List Value} {outcome : Value}
    {called : Machine} (given : ∀ argument ∈ arguments, argument = value)
    (done : callValue (m := Simulation) callback arguments settings invocation.entered =
      .done outcome called) :
    invocation.before.promises.size ≤ called.promises.size := by
  obtain ⟨rest, next⟩ := ran.next
  have entered : invocation.entered = { invocation.before with microtasks := ⟨rest⟩ } := by
    simp [Invocation.entered, next]
  rw [job] at next
  obtain ⟨past, reached⟩ := ran.boundary.exists_history
  have taken : Effect ⟨invocation.before, .free⟩ _ none _ := .takeMicrotask next
  have sound := taken.sound ⟨reached.sound, trivial⟩
  obtain ⟨fits, held⟩ := sound.duty
  have within := fits.handler
  rw [handler] at within
  have enacted : Enacted settings _ _ _ :=
    Enacts.invoke within.2 (fun argument member => given argument member ▸ held.2)
      ⟨_, .react reaction value⟩ calls sound rfl
  obtain ⟨log, ran⟩ := (Erases.loopRespects.callValue callback arguments).exists_log done
  obtain ⟨result, middle, code, late, ran, told, -⟩ := Logged.of_bind_done ran
  cases told
  rw [← entered, ran] at enacted
  obtain ⟨acts, duty, -, journey, -⟩ := enacted.of_done
  exact journey.extent_le.2

theorem then_settles (ran : invocation.Ran program settings)
    (job : invocation.microtask = ⟨name, .reaction ⟨.onThen, .callback callback, derived⟩ value⟩) :
    ∃ outcome called, callValue (m := Simulation) callback [value] settings invocation.entered =
        .done outcome called ∧
      (outcome.Final → invocation.Fulfills derived outcome) ∧
      ∀ other held, outcome = .promise other → other ≠ derived →
        called.promises.get? other = some (.fulfilled held) →
        invocation.Defers derived other held := by
  obtain ⟨outcome, called, last, done, settle, ⟨reactions, pending⟩, promises, microtasks⟩ :=
    ran.reaction_done job
  refine ⟨outcome, called, done, fun final => ⟨ran.derived_pending job, ?_⟩, ?_⟩
  · rw [promises]
    exact Reactions.settle_final_done final pending settle
  · rintro other held rfl different fulfilled
    obtain ⟨same, queued⟩ := Reactions.settle_promise_done different settle
    refine ⟨settles job, _, microtasks ▸ queued, .inl ?_⟩
    rw [promises, same, fulfilled]

theorem finally_settles (ran : invocation.Ran program settings)
    (job : invocation.microtask =
      ⟨name, .reaction ⟨.onFinally, .callback callback, derived⟩ value⟩) :
    ∃ outcome called, callValue (m := Simulation) callback [] settings invocation.entered =
      .done outcome called ∧
      ((outcome.Final ∨ ∃ other held, outcome = .promise other ∧
          called.promises.get? other = some (.fulfilled held)) →
        ∃ restored, invocation.Defers derived restored value) := by
  obtain ⟨result, found, last, done, settle, -, promises, microtasks⟩ := ran.reaction_done job
  obtain ⟨outcome, called, callback_done, restores⟩ := bind_done done
  refine ⟨outcome, called, callback_done, fun settled => ?_⟩
  obtain ⟨restored, held, rfl, fresh, queued⟩ := Reactions.restoreAfter_done settled restores
  -- The promise that restores the value is new, so it is not the one to be settled.
  have grown := ran.promises_size_le job trivial rfl (by simp) callback_done
  obtain ⟨reactions, pending⟩ := ran.derived_pending job
  have known := Promises.lt_size_of_get? pending
  have different : restored ≠ derived := by
    apply Nat.ne_of_gt
    exact Nat.lt_of_lt_of_le known (Nat.le_trans grown fresh)
  have follows := (Reactions.settle_promise_done different settle).2
  refine ⟨restored, settles job, _, microtasks ▸ follows, .inr ⟨"finally", .onFinally, held, ?_⟩⟩
  simp [queued]

end Invocation.Ran

namespace Program.Drains

variable {program : Program} {settings : Settings} {log earlier later : List Invocation}
variable {machine : Machine} {pending : List (Microtask × Nat)} {invocation : Invocation}

theorem ran (drains : program.Drains settings log machine pending)
    (split : log = earlier ++ invocation :: later) : invocation.Ran program settings :=
  drains.track (fun invocation _ _ _ => invocation.Ran program settings)
    (fun boundary next ran _ => ⟨boundary, ⟨_, next⟩, ran⟩) (fun _ _ _ _ same => same)
    (fun _ _ same => same) split

theorem settlements_eq_nil (drains : program.Drains settings log machine pending)
    (split : log = earlier ++ invocation :: later) {id : PromiseId} {value : Value}
    (fulfilled : invocation.after.promises.get? id = some (.fulfilled value)) :
    settlements id later = [] := by
  have settled := drains.track
    (fun invocation later machine _ =>
      invocation.after.promises.get? id = some (.fulfilled value) →
      machine.promises.get? id = some (.fulfilled value) ∧ settlements id later = [])
    (fun _ _ _ _ fulfilled => ⟨fulfilled, rfl⟩)
    (fun boundary next ran _ holds fulfilled => by
      obtain ⟨still, none⟩ := holds fulfilled
      have elsewhere := boundary.not_settles_of_fulfilled still (next ▸ List.mem_cons_self)
      exact ⟨boundary.turn_fulfilled ran still, (settlements_other _ _ elsewhere).trans none⟩)
    (fun boundary ran holds fulfilled =>
      ⟨boundary.turn_fulfilled ran (holds fulfilled).1, (holds fulfilled).2⟩) split
  exact (settled fulfilled).2

theorem adopts (drains : program.Drains settings log machine [])
    (split : log = earlier ++ invocation :: later) {id other : PromiseId} {value : Value}
    (defers : invocation.Defers id other value) :
    Adopts id other value invocation.generation later := by
  have adopting := drains.track
    (fun invocation later machine pending => invocation.Defers id other value →
      Adopting id other value invocation.generation later machine pending)
    (fun boundary next _ queued defers => defers.adopting boundary next queued)
    (fun boundary next ran queued holds defers => (holds defers).step boundary next ran queued)
    (fun boundary ran holds defers => (holds defers).task boundary ran) split
  exact (adopting defers).adopts

end Program.Drains

/-- A reaction whose handler gives a value fulfils its promise in the same turn. If the handler
gives a fulfilled promise, or the reaction is that of a finally, its promise is fulfilled exactly
two generations later, by way of one microtask that follows and one that passes the value on. -/
theorem Program.adoption_takes_two_generations (program : Program) (settings : Settings)
    (completed : (program.run settings).truncated = false) :
    (∃ log final, program.Drains settings log final [] ∧ final.tasks.tasks = [] ∧
      program.run settings = final.toRun false) ∧
    ∀ log final, program.Drains settings log final [] →
      ∀ earlier invocation later, log = earlier ++ invocation :: later →
      ∀ name callback derived value,
        (invocation.microtask =
            ⟨name, .reaction ⟨.onThen, .callback callback, derived⟩ value⟩ →
          ∃ outcome called,
            callValue (m := Simulation) callback [value] settings invocation.entered =
              .done outcome called ∧
            (outcome.Final →
              invocation.Fulfills derived outcome ∧ settlements derived later = []) ∧
            ∀ other held, outcome = .promise other → other ≠ derived →
              called.promises.get? other = some (.fulfilled held) →
              Adopts derived other held invocation.generation later) ∧
        (invocation.microtask =
            ⟨name, .reaction ⟨.onFinally, .callback callback, derived⟩ value⟩ →
          ∃ outcome called,
            callValue (m := Simulation) callback [] settings invocation.entered =
              .done outcome called ∧
            ((outcome.Final ∨ ∃ other held, outcome = .promise other ∧
                called.promises.get? other = some (.fulfilled held)) →
              ∃ restored, Adopts derived restored value invocation.generation later)) := by
  refine ⟨Program.exists_drains completed, fun log final drains earlier invocation later split name
    callback derived value => ⟨fun job => ?_, fun job => ?_⟩⟩
  · obtain ⟨outcome, called, done, fulfills, defers⟩ := (drains.ran split).then_settles job
    refine ⟨outcome, called, done, fun isFinal => ?_, fun other held same different fulfilled =>
      drains.adopts split (defers other held same different fulfilled)⟩
    have settled := fulfills isFinal
    exact ⟨settled, drains.settlements_eq_nil split settled.2⟩
  · obtain ⟨outcome, called, done, defers⟩ := (drains.ran split).finally_settles job
    refine ⟨outcome, called, done, fun settled => ?_⟩
    obtain ⟨restored, deferred⟩ := defers settled
    exact ⟨restored, drains.adopts split deferred⟩

def adoptThenFinish : Program :=
  let call (object : Expr) (method : String) (arguments : List Expr) : Expr :=
    .call (.member object ⟨method, default⟩ default) arguments default
  let callback (name : String) (body : List Statement) : Expr :=
    .function ⟨.expression, some ⟨name, default⟩, [], .block body default, default⟩
  let resolved : Expr := call (.identifier ⟨"Promise", default⟩) "resolve" []
  let adopted := call resolved "then" [callback "adopt" [.returns (some resolved) default]]
  ⟨[.expression (call adopted "finally" [callback "last" []]) default], default⟩

def Run.microtaskNames (run : Run) : List String :=
  run.trace.toList.filterMap fun step =>
    match step.event with
    | .microtaskRun name _ => some name
    | _ => none

theorem adoptThenFinish_adopts :
    (adoptThenFinish.run {}).truncated = false ∧
    (adoptThenFinish.run {}).microtaskNames =
      ["adopt", "resolveThenable", "then", "last", "finally", "resolveThenable", "then"] ∧
    ∃ log final, adoptThenFinish.Drains {} log final [] ∧
      ∀ earlier invocation later, log = earlier ++ invocation :: later →
        ∀ name callback derived value, invocation.microtask =
            ⟨name, .reaction ⟨.onFinally, .callback callback, derived⟩ value⟩ →
          ∃ outcome called,
            callValue (m := Simulation) callback [] {} invocation.entered = .done outcome called ∧
            (outcome.Final → ∃ restored,
              Adopts derived restored value invocation.generation later) := by
  have completed : (adoptThenFinish.run {}).truncated = false := by decide +kernel
  refine ⟨completed, by decide +kernel, ?_⟩
  obtain ⟨⟨log, final, drains, -⟩, settles⟩ :=
    Program.adoption_takes_two_generations adoptThenFinish {} completed
  refine ⟨log, final, drains, ?_⟩
  intro earlier invocation later split name callback derived value job
  obtain ⟨outcome, called, done, adopts⟩ :=
    (settles log final drains earlier invocation later split name callback derived value).2 job
  exact ⟨outcome, called, done, fun isFinal => adopts (.inl isFinal)⟩

end EventLoop
