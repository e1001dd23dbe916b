import EventLoop.Proofs.Schedule
import Mathlib.Data.List.Sort

set_option autoImplicit false

/-!
# The queue as a stable sort

All doubles but NaN are in a linear order, in which the two zeros are one.
-/

namespace EventLoop

open Float.Model Float.Model.UnpackedFloat

namespace Number

theorem compare_neg (first second : Int) :
    compare (-first) (-second) = (compare first second).swap := by
  rw [← Std.OrientedCmp.eq_swap]
  simp only [compare, compareOfLessAndEq]
  grind

theorem compare_natCast (first second : Nat) :
    compare (first : Int) (second : Int) = compare first second := by
  simp only [compare, compareOfLessAndEq]
  grind

def orderOf : UnpackedFloat → Int ×ₗ (Int ×ₗ Int)
  | .infinity .negative => toLex (-2, toLex (0, 0))
  | .finite .negative mantissa exponent _ => toLex (-1, toLex (-exponent, -mantissa))
  | .zero _ | .notANumber => toLex (0, toLex (0, 0))
  | .finite .positive mantissa exponent _ => toLex (1, toLex (exponent, mantissa))
  | .infinity .positive => toLex (2, toLex (0, 0))

theorem compare_eq_orderOf {x y : UnpackedFloat} (first : x ≠ .notANumber)
    (second : y ≠ .notANumber) : x.compare y = some (compare (orderOf x) (orderOf y)) := by
  cases x with
  | notANumber => exact absurd rfl first
  | infinity sign =>
    cases y with
    | notANumber => exact absurd rfl second
    | infinity other => cases sign <;> cases other <;> rfl
    | zero other => cases sign <;> rfl
    | finite other => cases sign <;> cases other <;> rfl
  | zero sign =>
    cases y with
    | notANumber => exact absurd rfl second
    | infinity other | finite other => cases other <;> rfl
    | zero other => rfl
  | finite sign mantissa exponent =>
    cases y with
    | notANumber => exact absurd rfl second
    | infinity other => cases sign <;> cases other <;> rfl
    | zero other => cases sign <;> rfl
    | finite other mantissa' exponent' =>
      cases sign <;> cases other
      case negative.negative =>
        -- Among negative doubles the greater size comes first.
        change some ((compare exponent exponent').then (compare mantissa mantissa')).swap =
          some ((compare (-exponent) (-exponent')).then
            (compare (-(mantissa : Int)) (-(mantissa' : Int))))
        rw [compare_neg, compare_neg, compare_natCast, Ordering.swap_then]
      case positive.positive =>
        change some ((compare exponent exponent').then (compare mantissa mantissa')) =
          some ((compare exponent exponent').then (compare (mantissa : Int) (mantissa' : Int)))
        rw [compare_natCast]
      case negative.positive | positive.negative => rfl

def order (x : Float) : Int ×ₗ (Int ×ₗ Int) := orderOf x.toModel.unpack

variable {x y : Float}

theorem compare_eq_order (first : x.isNaN = false) (second : y.isNaN = false) :
    x.toModel.unpack.compare y.toModel.unpack = some (compare (order x) (order y)) := by
  have number {z : Float} (given : z.isNaN = false) : z.toModel.unpack ≠ .notANumber := by
    intro found
    have same : z.toModel.unpack.isNaN = false := given
    rw [found] at same
    cases same
  exact compare_eq_orderOf (number first) (number second)

theorem le_iff_order_le (first : x.isNaN = false) (second : y.isNaN = false) :
    x ≤ y ↔ order x ≤ order y := by
  rw [le_iff_compare, compare_eq_order first second, Option.any_some, ← compare_le_iff_le,
    Ordering.isLE_iff_ne_gt]

theorem lt_iff_order_lt (first : x.isNaN = false) (second : y.isNaN = false) :
    x < y ↔ order x < order y := by
  rw [lt_iff_compare, compare_eq_order first second, Option.some_inj, compare_lt_iff_lt]

end Number

section Sorting

variable {α K : Type} [LinearOrder K] (key : α → K)

abbrev sortOn (items : List α) : List α :=
  items.mergeSort fun first second => decide (key first ≤ key second)

abbrev insertBefore (item : α) (items : List α) : List α :=
  items.orderedInsert (fun first second => key first ≤ key second) item

abbrev insertBehind (item : α) (items : List α) : List α :=
  items.orderedInsert (fun first second => key first < key second) item

theorem pairwise_sortOn (items : List α) :
    (sortOn key items).Pairwise fun first second => key first ≤ key second := by
  have sorted := @List.pairwise_mergeSort _ (fun first second => decide (key first ≤ key second))
    (fun first second third => by simpa using le_trans)
    (fun first second => by simpa using le_total (key first) (key second)) items
  simpa using sorted

theorem insertBefore_append {item : α} {front back : List α}
    (smaller : ∀ other ∈ front, key other < key item)
    (notSmaller : ∀ other ∈ back, key item ≤ key other) :
    insertBefore key item (front ++ back) = front ++ item :: back := by
  induction front with
  | nil =>
    cases back with
    | nil => rfl
    | cons other rest => simp [notSmaller other List.mem_cons_self]
  | cons other rest ih =>
    obtain ⟨first, others⟩ := List.forall_mem_cons.mp smaller
    simpa [not_le.mpr first] using ih others

theorem sortOn_cons (item : α) (items : List α) :
    sortOn key (item :: items) = insertBefore key item (sortOn key items) := by
  obtain ⟨front, back, whole, others, smaller⟩ :=
    @List.mergeSort_cons _ (fun first second => decide (key first ≤ key second))
      (fun first second third => by simpa using le_trans)
      (fun first second => by simpa using le_total (key first) (key second)) item items
  have sorted := pairwise_sortOn key (item :: items)
  rw [sortOn, whole, List.pairwise_append, List.pairwise_cons] at sorted
  rw [sortOn, sortOn, whole, others, insertBefore_append]
  · simpa using smaller
  · exact sorted.2.1.1

theorem insertBehind_insertBefore (early late : α) (items : List α) :
    insertBehind key late (insertBefore key early items) =
      insertBefore key early (insertBehind key late items) := by
  induction items with
  | nil => grind
  | cons other rest ih => grind

theorem sortOn_concat (items : List α) (item : α) :
    sortOn key (items ++ [item]) = insertBehind key item (sortOn key items) := by
  induction items with
  | nil => simp
  | cons other rest ih =>
    rw [List.cons_append, sortOn_cons, ih, sortOn_cons, insertBehind_insertBefore]

variable {key} {counts : α → Bool} {item : α} {items : List α}

theorem find?_insertBefore_self (counted : counts item)
    (first : ∀ other ∈ items.find? counts, key item ≤ key other) :
    (insertBefore key item items).find? counts = some item ∧
      (insertBefore key item items).eraseP counts = items := by
  induction items with
  | nil => simp [counted]
  | cons other rest ih =>
    by_cases before : key item ≤ key other
    next => simp [before, counted]
    next =>
      have skipped : counts other = false := by
        by_contra found
        exact before (first other (by simp [Bool.not_eq_false _ |>.mp found]))
      simpa [before, skipped] using ih (by simpa [skipped] using first)

theorem find?_insertBefore_of_later
    (sorted : items.Pairwise fun first second => key first ≤ key second)
    (later : counts item → ∃ found ∈ items.find? counts, key found < key item) :
    (insertBefore key item items).find? counts = items.find? counts ∧
      (insertBefore key item items).eraseP counts =
        insertBefore key item (items.eraseP counts) := by
  induction items with
  | nil =>
    have skipped : counts item = false := by simpa using later
    simp [skipped]
  | cons other rest ih =>
    obtain ⟨least, sortedRest⟩ := List.pairwise_cons.mp sorted
    by_cases before : key item ≤ key other
    next =>
      -- All that follows is at least as great, so that the item cannot be later than what is found.
      have skipped : counts item = false := by
        by_contra counted
        obtain ⟨found, position, smaller⟩ := later (by simpa using counted)
        have great : key other ≤ key found := by
          obtain rfl | behind := List.mem_cons.mp (List.mem_of_find?_eq_some position)
          next => exact le_rfl
          next => exact least found behind
        exact absurd (before.trans great) (not_le.mpr smaller)
      have front : insertBefore key item rest = item :: rest :=
        @insertBefore_append _ _ _ key item [] rest (by simp) fun next member =>
          before.trans (least next member)
      cases found : counts other <;> simp [before, skipped, found, front]
    next =>
      cases found : counts other with
      | true => simp [before, found]
      | false =>
        obtain ⟨same, taken⟩ := ih sortedRest (by simpa [found] using later)
        simpa [before, found, taken] using same

end Sorting

namespace TaskQueue

/-- Of the pending tasks, in the order in which they were added, the first one is taken out that
counts and has the smallest delay. -/
inductive TakesFirst (counts : Task → Bool) : List Task → Task → List Task → Prop where
  | intro {before after : List Task} {task : Task} (counted : counts task)
      (earlier : ∀ other ∈ before, counts other → task.delay < other.delay)
      (later : ∀ other ∈ after, counts other → task.delay ≤ other.delay) :
      TakesFirst counts (before ++ task :: after) task (before ++ after)

inductive Request where
  | enqueue (task : Task)
  | dequeue
  | cancel (id : TimerId)

inductive Pends : Request → List Task → Option Task → List Task → Prop where
  | enqueue (task : Task) (pending : List Task) :
      Pends (.enqueue task) pending none (pending ++ [task])
  | dequeue {pending rest : List Task} {task : Task}
      (takes : TakesFirst (fun _ => true) pending task rest) :
      Pends .dequeue pending (some task) rest
  | idle : Pends .dequeue [] none []
  | cancel {id : TimerId} {pending rest : List Task} {task : Task}
      (takes : TakesFirst (·.id == id) pending task rest) :
      Pends (.cancel id) pending (some task) rest
  | unknown {id : TimerId} {pending : List Task} (absent : ∀ task ∈ pending, task.id ≠ id) :
      Pends (.cancel id) pending none pending

inductive PendsAll : List Request → List Task → List (Option Task) → List Task → Prop where
  | nil (pending : List Task) : PendsAll [] pending [] pending
  | cons {request : Request} {requests : List Request} {pending between rest : List Task}
      {answer : Option Task} {answers : List (Option Task)}
      (first : Pends request pending answer between)
      (others : PendsAll requests between answers rest) :
      PendsAll (request :: requests) pending (answer :: answers) rest

def sortByDelay (pending : List Task) : List Task :=
  pending.mergeSort fun first second => decide (first.delay ≤ second.delay)

def Numbered (tasks : List Task) : Prop := ∀ task ∈ tasks, task.delay.isNaN = false

abbrev delayOrder (task : Task) : Int ×ₗ (Int ×ₗ Int) := Number.order task.delay

variable {task : Task} {pending rest : List Task} {counts : Task → Bool}

theorem sortByDelay_eq (numbered : Numbered pending) :
    sortByDelay pending = sortOn delayOrder pending := by
  have same := @List.map_mergeSort _ _ (fun first second => decide (first.delay ≤ second.delay))
    (fun first second => decide (delayOrder first ≤ delayOrder second)) id pending
    fun first left second right => by
      simp [Number.le_iff_order_le (numbered first left) (numbered second right)]
  rw [List.map_id, List.map_id] at same
  exact same

theorem insert_eq {tasks : List Task} (numbered : Numbered (task :: tasks)) :
    insert task tasks = insertBehind delayOrder task tasks := by
  obtain ⟨number, others⟩ := List.forall_mem_cons.mp numbered
  induction tasks with
  | nil => rfl
  | cons queued rest ih =>
    obtain ⟨first, others⟩ := List.forall_mem_cons.mp others
    have same := ih (List.forall_mem_cons.mpr ⟨number, others⟩) others
    by_cases before : queued.delay ≤ task.delay
    next =>
      have order := (Number.le_iff_order_le first number).mp before
      simp [insert, before, same, not_lt.mpr order]
    next =>
      have order := not_le.mp fun le => before ((Number.le_iff_order_le first number).mpr le)
      simp [insert, before, order]

theorem mem_sortByDelay : task ∈ sortByDelay pending ↔ task ∈ pending := List.mem_mergeSort

theorem sortByDelay_concat (numbered : Numbered (task :: pending)) :
    sortByDelay (pending ++ [task]) = insert task (sortByDelay pending) := by
  obtain ⟨number, others⟩ := List.forall_mem_cons.mp numbered
  have whole : Numbered (pending ++ [task]) :=
    List.forall_mem_append.mpr ⟨others, List.forall_mem_singleton.mpr number⟩
  have sorted : Numbered (task :: sortByDelay pending) :=
    List.forall_mem_cons.mpr ⟨number, fun other member => others other (mem_sortByDelay.mp member)⟩
  rw [insert_eq sorted, sortByDelay_eq whole, sortByDelay_eq others, sortOn_concat]

theorem insert_parts {tasks : List Task} (numbered : Numbered (task :: tasks))
    (sorted : tasks.Pairwise fun first second => delayOrder first ≤ delayOrder second) :
    ∃ front back, tasks = front ++ back ∧ (∀ queued ∈ front, queued.delay ≤ task.delay) ∧
      (∀ queued ∈ back, ¬ queued.delay ≤ task.delay) ∧ insert task tasks =
        front ++ task :: back := by
  obtain ⟨number, others⟩ := List.forall_mem_cons.mp numbered
  induction tasks with
  | nil => exact ⟨[], [], rfl, by simp, by simp, rfl⟩
  | cons queued rest ih =>
    obtain ⟨first, others⟩ := List.forall_mem_cons.mp others
    obtain ⟨least, sortedRest⟩ := List.pairwise_cons.mp sorted
    by_cases before : queued.delay ≤ task.delay
    next =>
      obtain ⟨front, back, rfl, small, great, inserted⟩ :=
        ih (List.forall_mem_cons.mpr ⟨number, others⟩) sortedRest others
      refine ⟨queued :: front, back, rfl, List.forall_mem_cons.mpr ⟨before, small⟩, great, ?_⟩
      simp [insert, before, inserted]
    next =>
      refine ⟨[], queued :: rest, rfl, by simp, List.forall_mem_cons.mpr ⟨before, ?_⟩, ?_⟩
      · intro other member le
        have order := (least other member).trans
          ((Number.le_iff_order_le (others other member) number).mp le)
        exact before ((Number.le_iff_order_le first number).mpr order)
      · simp [insert, before]

theorem TakesFirst.mem_of_mem (takes : TakesFirst counts pending task rest) {other : Task}
    (member : other ∈ rest) : other ∈ pending := by
  cases takes with
  | intro counted earlier later =>
    rw [List.mem_append, List.mem_cons]
    exact (List.mem_append.mp member).imp_right .inr

theorem TakesFirst.le (takes : TakesFirst counts pending task rest) (numbered : Numbered pending)
    {other : Task} (member : other ∈ pending) (counted : counts other) :
    delayOrder task ≤ delayOrder other := by
  cases takes with
  | intro _ earlier later =>
    have number := numbered task (by simp)
    have otherNumber := numbered other member
    rw [List.mem_append, List.mem_cons] at member
    obtain before | rfl | after := member
    next =>
      exact ((Number.lt_iff_order_lt number otherNumber).mp (earlier other before counted)).le
    next => exact le_rfl
    next => exact (Number.le_iff_order_le number otherNumber).mp (later other after counted)

theorem TakesFirst.cons (takes : TakesFirst counts pending task rest) {first : Task}
    (later : counts first → task.delay < first.delay) :
    TakesFirst counts (first :: pending) task (first :: rest) := by
  cases takes with
  | intro counted earlier others =>
    exact @TakesFirst.intro counts (first :: _) _ task counted
      (List.forall_mem_cons.mpr ⟨later, earlier⟩) others

theorem takesFirst_of_find? (numbered : Numbered pending)
    (found : (sortByDelay pending).find? counts = some task) :
    ∃ rest, TakesFirst counts pending task rest ∧
      sortByDelay rest = (sortByDelay pending).eraseP counts := by
  -- By induction from the task that was added last: each one is put before those of the same delay.
  induction pending generalizing task with
  | nil => simp [sortByDelay] at found
  | cons first pending ih =>
    obtain ⟨number, others⟩ := List.forall_mem_cons.mp numbered
    have whole : sortByDelay (first :: pending) =
        insertBefore delayOrder first (sortByDelay pending) := by
      rw [sortByDelay_eq numbered, sortByDelay_eq others, sortOn_cons]
    rw [whole] at found ⊢
    by_cases front : counts first ∧
      ∀ other ∈ (sortByDelay pending).find? counts, delayOrder first ≤ delayOrder other
    case pos =>
      obtain ⟨counted, least⟩ := front
      obtain ⟨same, taken⟩ := find?_insertBefore_self counted least
      obtain rfl := Option.some.inj (same.symm.trans found)
      refine ⟨pending, @TakesFirst.intro counts [] _ first counted (by simp) ?_, taken.symm⟩
      intro other member otherCounted
      have present : ((sortByDelay pending).find? counts).isSome :=
        List.find?_isSome.mpr ⟨other, mem_sortByDelay.mpr member, otherCounted⟩
      obtain ⟨second, position⟩ := Option.isSome_iff_exists.mp present
      obtain ⟨rest, takes, -⟩ := ih others position
      exact (Number.le_iff_order_le number (others other member)).mpr
        ((least second position).trans (takes.le others member otherCounted))
    case neg =>
      have later (counted : counts first) : ∃ other ∈ (sortByDelay pending).find? counts,
          delayOrder other < delayOrder first := by
        simpa [counted] using front
      have sorted := pairwise_sortOn delayOrder pending
      rw [← sortByDelay_eq others] at sorted
      obtain ⟨same, taken⟩ := find?_insertBefore_of_later sorted later
      rw [same] at found
      obtain ⟨rest, takes, left⟩ := ih others found
      have restNumbered : Numbered (first :: rest) := List.forall_mem_cons.mpr
        ⟨number, fun other member => others other (takes.mem_of_mem member)⟩
      refine ⟨first :: rest, takes.cons fun counted => ?_, ?_⟩
      · obtain ⟨other, position, smaller⟩ := later counted
        obtain rfl := Option.some.inj (position.symm.trans found)
        have member := mem_sortByDelay.mp (List.mem_of_find?_eq_some found)
        exact (Number.lt_iff_order_lt (others other member) number).mpr smaller
      · rw [taken, ← left, sortByDelay_eq restNumbered, sortOn_cons,
          sortByDelay_eq (List.forall_mem_cons.mp restNumbered).2]

def Request.perform (queue : TaskQueue) : Request → Option Task × TaskQueue
  | .enqueue task => (none, queue.enqueue task)
  | .dequeue => queue.dequeue?.elim (none, queue) fun (task, rest) => (some task, rest)
  | .cancel id => (queue.cancel? id).elim (none, queue) fun (task, rest) => (some task, rest)

def performAll (queue : TaskQueue) : List Request → List (Option Task) × TaskQueue
  | [] => ([], queue)
  | request :: requests =>
      let (answer, next) := request.perform queue
      let (answers, last) := next.performAll requests
      (answer :: answers, last)

/-- The delay of a task that is to be added is a number. -/
def Request.Numbered : Request → Prop
  | .enqueue task => task.delay.isNaN = false
  | .dequeue | .cancel _ => True

structure Holds (queue : TaskQueue) (pending : List Task) : Prop where
  tasks : queue.tasks = sortByDelay pending
  numbered : Numbered pending

theorem Holds.take {queue taken : TaskQueue} (holds : queue.Holds pending)
    (found : queue.tasks.find? counts = some task)
    (left : queue.tasks.eraseP counts = taken.tasks) :
    ∃ rest, TakesFirst counts pending task rest ∧ taken.Holds rest := by
  rw [holds.tasks] at found left
  obtain ⟨rest, takes, same⟩ := takesFirst_of_find? holds.numbered found
  exact ⟨rest, takes, left.symm.trans same.symm,
    fun other member => holds.numbered other (takes.mem_of_mem member)⟩

theorem Holds.perform {queue : TaskQueue} (holds : queue.Holds pending) {request : Request}
    (numbered : request.Numbered) :
    ∃ rest, Pends request pending (request.perform queue).1 rest ∧
      (request.perform queue).2.Holds rest := by
  cases request with
  | enqueue task =>
    refine ⟨pending ++ [task], .enqueue task pending, ?_, ?_⟩
    · change insert task queue.tasks = _
      rw [holds.tasks, sortByDelay_concat (List.forall_mem_cons.mpr ⟨numbered, holds.numbered⟩)]
    · exact List.forall_mem_append.mpr ⟨holds.numbered, List.forall_mem_singleton.mpr numbered⟩
  | dequeue =>
    cases tasks : queue.tasks with
    | nil =>
      have nothing : pending = [] := by
        have length := congrArg List.length (holds.tasks.symm.trans tasks)
        simpa [sortByDelay] using length
      subst nothing
      refine ⟨[], ?_, ?_⟩
      · simpa [Request.perform, dequeue?, tasks] using Pends.idle
      · simpa [Request.perform, dequeue?, tasks] using holds
    | cons task rest =>
      -- To dequeue is to take the first task of all that count, which are all of them.
      have found : queue.tasks.find? (fun _ => true) = some task := by simp [tasks]
      have left : queue.tasks.eraseP (fun _ => true) =
          (⟨rest, queue.lastId⟩ : TaskQueue).tasks := by
        simp [tasks]
      obtain ⟨others, takes, after⟩ := holds.take found left
      refine ⟨others, ?_, ?_⟩
      · simpa [Request.perform, dequeue?, tasks] using Pends.dequeue takes
      · simpa [Request.perform, dequeue?, tasks] using after
  | cancel id =>
    cases cancelled : queue.cancel? id with
    | none =>
      refine ⟨pending, ?_, ?_⟩
      · simp only [Request.perform, cancelled]
        refine .unknown fun task member => ?_
        have missing := Option.map_eq_none_iff.mp cancelled
        rw [List.find?_eq_none, holds.tasks] at missing
        simpa using missing task (mem_sortByDelay.mpr member)
      · simpa [Request.perform, cancelled] using holds
    | some found =>
      obtain ⟨task, remaining⟩ := found
      obtain ⟨position, same⟩ := cancel?_eq_some cancelled
      obtain ⟨rest, takes, after⟩ := holds.take position (congrArg TaskQueue.tasks same).symm
      refine ⟨rest, ?_, ?_⟩
      · simpa [Request.perform, cancelled] using Pends.cancel takes
      · simpa [Request.perform, cancelled] using after

theorem Holds.performAll {queue : TaskQueue} (holds : queue.Holds pending) {requests : List Request}
    (numbered : ∀ request ∈ requests, request.Numbered) :
    ∃ rest, PendsAll requests pending (queue.performAll requests).1 rest ∧
      (queue.performAll requests).2.Holds rest := by
  induction requests generalizing queue pending with
  | nil => exact ⟨pending, .nil pending, holds⟩
  | cons request requests ih =>
    obtain ⟨first, others⟩ := List.forall_mem_cons.mp numbered
    obtain ⟨between, pends, next⟩ := holds.perform first
    obtain ⟨rest, pendsAll, last⟩ := ih next others
    exact ⟨rest, .cons pends pendsAll, last⟩

theorem Holds.empty : TaskQueue.empty.Holds [] :=
  ⟨by simp [TaskQueue.empty, sortByDelay], by simp [Numbered]⟩

/-- After any requests to a new queue its tasks are the pending ones, stably sorted by delay, and
the place of a further task is where the delays start to be greater than its own. -/
theorem performAll_stable (requests : List Request)
    (numbered : ∀ request ∈ requests, request.Numbered) :
    let (answers, queue) := TaskQueue.empty.performAll requests
    (∃ pending, PendsAll requests [] answers pending ∧ queue.tasks = sortByDelay pending) ∧
      ∀ task : Task, task.delay.isNaN = false →
        ∃ front back, queue.tasks = front ++ back ∧
          (∀ queued ∈ front, queued.delay ≤ task.delay) ∧
          (∀ queued ∈ back, ¬ queued.delay ≤ task.delay) ∧
          (queue.enqueue task).tasks = front ++ task :: back := by
  obtain ⟨pending, pendsAll, holds⟩ := Holds.empty.performAll numbered
  refine ⟨⟨pending, pendsAll, holds.tasks⟩, fun task number => ?_⟩
  have sorted := pairwise_sortOn delayOrder pending
  rw [← sortByDelay_eq holds.numbered] at sorted
  have others : Numbered (sortByDelay pending) :=
    fun other member => holds.numbered other (mem_sortByDelay.mp member)
  rw [← holds.tasks] at sorted others
  exact insert_parts (List.forall_mem_cons.mpr ⟨number, others⟩) sorted

def tiedRequests : List Request :=
  let task (name : String) (delay : Float) (id : TimerId) : Task :=
    ⟨⟨name, delay⟩, id, .undefined, []⟩
  [.enqueue (task "late" (1 / 0) 1), .enqueue (task "first" 5 2), .enqueue (task "second" 5 2),
    .enqueue (task "zero" 0 3), .enqueue (task "negative" (-0) 4), .cancel 2, .cancel 9, .dequeue]

theorem tiedRequests_stable :
    (∃ pending, PendsAll tiedRequests [] (TaskQueue.empty.performAll tiedRequests).1 pending ∧
      (TaskQueue.empty.performAll tiedRequests).2.tasks = sortByDelay pending) ∧
      (TaskQueue.empty.performAll tiedRequests).2.tasks.map (·.name) =
        ["negative", "second", "late"] :=
  ⟨(performAll_stable tiedRequests (by simp [tiedRequests, Request.Numbered]; decide)).1,
    by decide⟩

end TaskQueue

end EventLoop
