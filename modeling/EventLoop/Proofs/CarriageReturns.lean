import EventLoop.Proofs.Boundaries

set_option autoImplicit false

/-!
# Carriage returns in front of line feeds

What the scanners make of a text in which every line feed has a carriage return in front. Blanks,
comments and templates end at the same place, and so does a literal on one line.
-/

namespace EventLoop

open Text

namespace Text

def withReturns (text : List Char) : List Char :=
  text.flatMap fun c => if c = '\n' then ['\r', '\n'] else [c]

/-- A backslash stands at the end of a line, where backslashes hide the character after them. -/
def continues : List Char → Bool
  | '\\' :: c :: rest => c == '\n' || continues rest
  | _ :: rest => continues rest
  | [] => false

def returned (source : String) : String := String.ofList (withReturns source.toList)

@[simp] theorem withReturns_nil : withReturns [] = [] := rfl

@[simp] theorem withReturns_feed (rest : List Char) :
    withReturns ('\n' :: rest) = '\r' :: '\n' :: withReturns rest := rfl

theorem withReturns_cons {c : Char} (feed : c ≠ '\n') (rest : List Char) :
    withReturns (c :: rest) = c :: withReturns rest := by
  simp [withReturns, feed]

theorem withReturns_append (left right : List Char) :
    withReturns (left ++ right) = withReturns left ++ withReturns right := by
  simp [withReturns]

theorem withReturns_eq_self {text : List Char} (feeds : '\n' ∉ text) : withReturns text = text := by
  induction text with
  | nil => rfl
  | cons c rest ih =>
    rw [List.mem_cons, not_or] at feeds
    rw [withReturns_cons (Ne.symm feeds.1), ih feeds.2]

theorem head?_any_withReturns {p : Char → Bool} (feed : p '\n' = false) (carriage : p '\r' = false)
    (text : List Char) : (withReturns text).head?.any p = text.head?.any p := by
  cases text with
  | nil => rfl
  | cons c rest =>
    by_cases same : c = '\n'
    next => simp [same, feed, carriage]
    next => simp [withReturns_cons same]

theorem head?_all_withReturns {p : Char → Bool} (carriage : p '\r') {text : List Char}
    (stop : text.head?.all p) : (withReturns text).head?.all p := by
  cases text with
  | nil => rfl
  | cons c rest =>
    by_cases feed : c = '\n'
    next => simpa [feed] using carriage
    next => simpa [withReturns_cons feed] using stop

theorem head?_withReturns_eq_some {d : Char} (feed : d ≠ '\n') (carriage : d ≠ '\r')
    (text : List Char) : (withReturns text).head? = some d ↔ text.head? = some d := by
  cases text with
  | nil => simp
  | cons c rest =>
    by_cases same : c = '\n'
    next => simp [same, feed.symm, carriage.symm]
    next => simp [withReturns_cons same]

theorem any_withReturns (text : List Char) :
    (withReturns text).any isLineTerminator = text.any isLineTerminator := by
  have carriage : isLineTerminator '\r' = false := by decide
  induction text with
  | nil => rfl
  | cons c rest ih =>
    by_cases feed : c = '\n'
    next => simp [feed, carriage, ih]
    next => simp [withReturns_cons feed, ih]

theorem continues_cons {c : Char} (backslash : c ≠ '\\') (rest : List Char) :
    continues (c :: rest) = continues rest := by
  rw [continues]
  exact fun d more escapes => absurd escapes backslash

theorem continues_append_of_plain {text : List Char} (plain : '\\' ∉ text) (rest : List Char) :
    continues (text ++ rest) = continues rest := by
  induction text with
  | nil => rfl
  | cons c text ih =>
    rw [List.mem_cons, not_or] at plain
    rw [List.cons_append, continues_cons (Ne.symm plain.1), ih plain.2]

theorem continues_append {left : List Char} (carried : continues left) (right : List Char) :
    continues (left ++ right) := by
  fun_induction continues left with
  | case1 c rest ih =>
    rw [Bool.or_eq_true] at carried
    rw [List.cons_append, List.cons_append, continues, Bool.or_eq_true]
    exact carried.imp_right ih
  | case2 c rest last ih =>
    have backslash : c ≠ '\\' := by
      rintro rfl
      cases rest with
      | nil => cases carried
      | cons d more => exact last d more rfl rfl
    rw [List.cons_append, continues_cons backslash]
    exact ih carried
  | case3 => cases carried

theorem continues_eq_false {text : List Char} (feeds : '\n' ∉ text) : continues text = false := by
  fun_induction continues text with
  | case1 c rest ih =>
    simp only [List.mem_cons, not_or] at feeds
    rw [ih feeds.2.2, Bool.or_false, beq_eq_false_iff_ne]
    exact Ne.symm feeds.2.1
  | case2 c rest last ih => exact ih fun member => feeds (List.mem_cons_of_mem c member)
  | case3 => rfl

end Text

namespace Trivia

theorem starts_withReturns {c : Char} {rest : List Char} (stop : starts (c :: rest) = false) :
    starts (c :: withReturns rest) = false := by
  rw [starts_cons] at stop ⊢
  rwa [head?_any_withReturns (by decide) (by decide)]

def StopsAgain (place : Place) (count : Nat) (text : List Char) : Prop :=
  ∃ gap rest, text = gap ++ rest ∧ lengthFrom place count text = count + gap.length ∧
    ∀ again, lengthFrom place again (withReturns text) = again + (withReturns gap).length

theorem StopsAgain.append {place next : Place} {count : Nat} {rest : List Char}
    (taken : List Char)
    (step : lengthFrom place count (taken ++ rest) = lengthFrom next (count + taken.length) rest)
    (stepAgain : ∀ again, lengthFrom place again (withReturns taken ++ withReturns rest) =
      lengthFrom next (again + (withReturns taken).length) (withReturns rest))
    (stops : StopsAgain next (count + taken.length) rest) :
    StopsAgain place count (taken ++ rest) := by
  obtain ⟨gap, rest, rfl, length, same⟩ := stops
  refine ⟨taken ++ gap, rest, by simp, ?_, fun again => ?_⟩
  next =>
    rw [step, length]
    simp
    omega
  next =>
    rw [withReturns_append, stepAgain, same, withReturns_append]
    simp
    omega

theorem stopsAgain (place : Place) (count : Nat) (text : List Char) :
    StopsAgain place count text := by
  fun_induction lengthFrom place count text with
  | case1 place count =>
    refine ⟨[], [], rfl, by simp [lengthFrom], fun again => ?_⟩
    simp [lengthFrom]
  | case2 count rest ih => exact .append ['/', '/'] rfl (fun again => rfl) ih
  | case3 count rest ih => exact .append ['/', '*'] rfl (fun again => rfl) ih
  | case4 count c rest noLine noBlock blank ih =>
    refine .append [c] (lengthFrom_blank blank count rest) (fun again => ?_) ih
    -- Here and in comments a line feed takes two steps instead of one.
    by_cases feed : c = '\n'
    next =>
      subst feed
      exact (lengthFrom_blank (by decide) again _).trans (lengthFrom_blank (by decide) _ _)
    next =>
      rw [withReturns_cons feed]
      exact lengthFrom_blank blank again _
  | case5 count c rest noLine noBlock blank =>
    have feed : c ≠ '\n' := by
      rintro rfl
      exact blank (by decide)
    have stop : starts (c :: rest) = false := by
      unfold starts
      split <;> simp_all
    refine ⟨[], c :: rest, rfl, lengthFrom_of_stop stop count, fun again => ?_⟩
    rw [withReturns_cons feed, lengthFrom_of_stop (starts_withReturns stop)]
    rfl
  | case6 count c rest ih =>
    have step (again : Nat) (text : List Char) : lengthFrom .lineComment again (c :: text) =
        lengthFrom (if isLineTerminator c then .outside else .lineComment) (again + 1) text := by
      rw [lengthFrom]
    refine .append [c] (step count rest) (fun again => ?_) ih
    by_cases feed : c = '\n'
    next =>
      subst feed
      rfl
    next =>
      rw [withReturns_cons feed]
      exact step again _
  | case7 count rest ih => exact .append ['*', '/'] rfl (fun again => rfl) ih
  | case8 count c rest noClose ih =>
    have inside {text : List Char} (same : text.head? = some '/' ↔ rest.head? = some '/')
        (again : Nat) :
        lengthFrom .blockComment again (c :: text) = lengthFrom .blockComment (again + 1) text := by
      have open_ : ∀ tail, c = '*' → text = '/' :: tail → False := by
        rintro tail star rfl
        obtain ⟨more, split⟩ := List.head?_eq_some_iff.mp (same.mp rfl)
        exact noClose more star split
      simpa using @lengthFrom_block c text [] open_ rfl again
    refine .append [c] (inside .rfl count) (fun again => ?_) ih
    by_cases feed : c = '\n'
    next =>
      subst feed
      rfl
    next =>
      rw [withReturns_cons feed]
      exact inside (head?_withReturns_eq_some (by decide) (by decide) rest) again

end Trivia

-- A scanner of a literal that the end of a line leaves open, on a text of its own with another one
-- after it: with carriage returns it stops at the same place, or else a backslash stands at the end
-- of a line and the literal is left open.
structure LineScan {α : Type} (scan : Nat → List Char → α × Nat) (opened : α) (count : Nat)
    (own tail : List Char) : Prop where
  length : (scan count (own ++ tail)).2 = count + own.length
  same : continues own = false → ∀ again, scan again (withReturns (own ++ tail)) =
    ((scan count (own ++ tail)).1, again + (withReturns own).length)
  closed : continues own = false → (scan count (own ++ tail)).1 ≠ opened → '\n' ∉ own
  opens : continues own → ∀ again, (scan again (withReturns (own ++ tail))).1 = opened

namespace LineScan

variable {α : Type} {scan next : Nat → List Char → α × Nat} {opened : α} {count : Nat}
  {own tail : List Char}

theorem ended (step : ∀ again, scan again [] = (opened, again)) :
    LineScan scan opened count [] [] := by
  constructor
  case length => simp [step]
  case same => simp [step]
  case closed => simp
  case opens => simp [continues]

theorem stop {c : Char} {found : α} (feed : c ≠ '\n')
    (step : scan count (c :: tail) = (found, count + 1))
    (stepAgain : ∀ again, scan again (c :: withReturns tail) = (found, again + 1)) :
    LineScan scan opened count [c] tail := by
  constructor
  case length => simp [step]
  case same => simp [withReturns_cons feed, step, stepAgain]
  case closed => simp [feed.symm]
  case opens =>
    intro carried
    rw [continues_eq_false (by simpa using feed.symm)] at carried
    cases carried

theorem feed (step : ∀ again rest, scan again ('\n' :: rest) = (opened, again + 1))
    (carriage : ∀ again rest, scan again ('\r' :: rest) = next (again + 1) rest)
    (stepNext : ∀ again rest, next again ('\n' :: rest) = (opened, again + 1)) :
    LineScan scan opened count ['\n'] tail := by
  constructor
  case length => simp [step]
  case same => simp [step, carriage, stepNext]
  case closed => simp [step]
  case opens => simp [continues]

theorem cons {c : Char} (feed : c ≠ '\n') (backslash : c ≠ '\\')
    (step : ∀ again rest, scan again (c :: rest) = next (again + 1) rest)
    (line : LineScan next opened (count + 1) own tail) :
    LineScan scan opened count (c :: own) tail := by
  constructor
  case length =>
    rw [List.cons_append, step, line.length, List.length_cons]
    omega
  case same =>
    intro plain again
    rw [continues_cons backslash] at plain
    rw [List.cons_append, withReturns_cons feed, step, step, line.same plain, withReturns_cons feed,
      List.length_cons]
    congr 1
    omega
  case closed =>
    rw [continues_cons backslash, List.cons_append, step, List.mem_cons, not_or]
    exact fun plain closes => ⟨feed.symm, line.closed plain closes⟩
  case opens =>
    intro carried again
    rw [continues_cons backslash] at carried
    rw [List.cons_append, withReturns_cons feed, step, line.opens carried]

theorem escaped {c : Char} (taken : List Char) (feed : c ≠ '\n') (backslashes : '\\' ∉ taken)
    (feeds : '\n' ∉ taken)
    (step : scan count ('\\' :: c :: (taken ++ (own ++ tail))) =
      next (count + 2 + taken.length) (own ++ tail))
    (stepAgain : ∀ again, scan again ('\\' :: c :: (taken ++ withReturns (own ++ tail))) =
      next (again + 2 + taken.length) (withReturns (own ++ tail)))
    (line : LineScan next opened (count + 2 + taken.length) own tail) :
    LineScan scan opened count ('\\' :: c :: (taken ++ own)) tail := by
  have carries : continues ('\\' :: c :: (taken ++ own)) = continues own := by
    rw [continues, continues_append_of_plain backslashes, beq_eq_false_iff_ne.mpr feed,
      Bool.false_or]
  have returns (text : List Char) :
      withReturns ('\\' :: c :: (taken ++ text)) = '\\' :: c :: (taken ++ withReturns text) := by
    rw [withReturns_cons (by decide), withReturns_cons feed, withReturns_append,
      withReturns_eq_self feeds]
  have whole : '\\' :: c :: (taken ++ own) ++ tail = '\\' :: c :: (taken ++ (own ++ tail)) := by
    simp
  constructor
  case length =>
    rw [whole, step, line.length]
    simp
    omega
  case same =>
    intro plain again
    rw [carries] at plain
    rw [whole, returns, stepAgain, step, line.same plain, returns]
    simp
    omega
  case closed =>
    intro plain closes
    rw [carries] at plain
    rw [whole, step] at closes
    simp [feed.symm, feeds, line.closed plain closes]
  case opens =>
    intro carried again
    rw [carries] at carried
    rw [whole, returns, stepAgain, line.opens carried]

theorem carried (step : scan count ('\\' :: '\n' :: (own ++ tail)) = next (count + 2) (own ++ tail))
    (opens : ∀ again rest, (scan again ('\\' :: '\r' :: '\n' :: rest)).1 = opened)
    (line : LineScan next opened (count + 2) own tail) :
    LineScan scan opened count ('\\' :: '\n' :: own) tail := by
  have carries : continues ('\\' :: '\n' :: own) := rfl
  constructor
  case length =>
    rw [List.cons_append, List.cons_append, step, line.length]
    simp
    omega
  case same => simp [carries]
  case closed => simp [carries]
  case opens =>
    intro _ again
    rw [List.cons_append, List.cons_append, withReturns_cons (by decide), withReturns_feed, opens]

end LineScan

namespace StringLiteral

theorem isHexDigit_apart {digits : List Char} (inside : ∀ c ∈ digits, isHexDigit c) :
    '\\' ∉ digits ∧ '\n' ∉ digits := by
  constructor
  next =>
    intro member
    exact absurd (inside _ member) (by decide)
  next =>
    intro member
    exact absurd (inside _ member) (by decide)

theorem hexEscape_of_stop {digits rest : List Char} (inside : ∀ c ∈ digits, isHexDigit c)
    (stop : rest.head?.all (!isHexDigit ·)) (count : Nat) :
    hexEscape count (digits ++ rest) =
      if count ≤ digits.length then (scalar? (Text.digitsValue 16 (digits.take count)), count)
      else (none, 0) := by
  unfold hexEscape
  dsimp only
  by_cases enough : count ≤ digits.length
  next =>
    have all : (digits.take count).all isHexDigit :=
      List.all_eq_true.mpr fun c member => inside c (List.mem_of_mem_take member)
    rw [List.take_append_of_le_length enough, all, if_pos enough, List.length_take_of_le enough]
    simp
  next =>
    -- The digits end too early: the text is at its end, or its next character is no digit.
    rw [if_neg enough, if_neg]
    rw [List.take_append, List.take_of_length_le (by omega)]
    cases rest with
    | nil =>
      simp
      omega
    | cons c rest =>
      obtain ⟨more, left⟩ := Nat.exists_eq_add_of_lt (Nat.lt_of_not_le enough)
      have digit : isHexDigit c = false := by simpa using stop
      simp [left, Nat.add_assoc, digit]

theorem hexEscape_withReturns (count : Nat) (rest : List Char) :
    hexEscape count (withReturns rest) = hexEscape count rest := by
  obtain ⟨digits, rest, rfl, inside, stop⟩ := exists_stop isHexDigit rest
  have stopAgain := head?_all_withReturns (p := (!isHexDigit ·)) (by decide) stop
  rw [withReturns_append, withReturns_eq_self (isHexDigit_apart inside).2,
    hexEscape_of_stop inside stop, hexEscape_of_stop inside stopAgain]

theorem bracedEscape_withReturns (rest : List Char) :
    bracedEscape (withReturns rest) = bracedEscape rest := by
  obtain ⟨digits, rest, rfl, inside, stop⟩ := exists_stop isHexDigit rest
  have brace : ((withReturns rest).head? == some '\x7d') = (rest.head? == some '\x7d') := by
    rw [Bool.eq_iff_iff, beq_iff_eq, beq_iff_eq,
      head?_withReturns_eq_some (by decide) (by decide)]
  have stopAgain := head?_all_withReturns (p := (!isHexDigit ·)) (by decide) stop
  rw [withReturns_append, withReturns_eq_self (isHexDigit_apart inside).2,
    bracedEscape_of_stop inside stop, bracedEscape_of_stop inside stopAgain, brace]

theorem escape_withReturns (e : Char) (rest : List Char) :
    escape e (withReturns rest) = escape e rest := by
  -- A code point in braces is the one escape that looks at the next character before its digits.
  by_cases unicode : e = 'u'
  next =>
    subst unicode
    cases rest with
    | nil => rfl
    | cons c rest =>
      have digits := hexEscape_withReturns 4 (c :: rest)
      by_cases feed : c = '\n'
      next =>
        subst feed
        rw [withReturns_feed] at *
        rw [escape_unbraced (by decide), escape_unbraced (by decide), digits]
      next =>
        rw [withReturns_cons feed] at *
        by_cases brace : c = '\x7b'
        next =>
          subst brace
          rw [escape_braced, escape_braced, bracedEscape_withReturns]
        next => rw [escape_unbraced brace, escape_unbraced brace, digits]
  next =>
    unfold escape
    split
    case h_8 => exact hexEscape_withReturns 2 rest
    case h_9 => exact absurd rfl unicode
    all_goals rfl

theorem hexEscape_apart (count : Nat) (rest : List Char) :
    '\\' ∉ rest.take (hexEscape count rest).2 ∧ '\n' ∉ rest.take (hexEscape count rest).2 := by
  obtain ⟨digits, rest, rfl, inside, stop⟩ := exists_stop isHexDigit rest
  rw [hexEscape_of_stop inside stop]
  split
  next enough =>
    rw [List.take_append_of_le_length enough]
    exact isHexDigit_apart fun c member => inside c (List.mem_of_mem_take member)
  next => simp

theorem bracedEscape_apart (rest : List Char) :
    '\\' ∉ rest.take (bracedEscape rest).2 ∧ '\n' ∉ rest.take (bracedEscape rest).2 := by
  obtain ⟨digits, rest, rfl, inside, stop⟩ := exists_stop isHexDigit rest
  have apart := isHexDigit_apart inside
  rw [bracedEscape_of_stop inside stop]
  dsimp only
  split
  next brace =>
    obtain ⟨more, rfl⟩ := List.head?_eq_some_iff.mp (beq_iff_eq.mp brace)
    simp [List.take_length_add_append, apart]
  next => simpa using apart

theorem escape_apart (e : Char) (rest : List Char) :
    '\\' ∉ rest.take (escape e rest).2 ∧ '\n' ∉ rest.take (escape e rest).2 := by
  unfold escape
  split
  case h_8 => exact hexEscape_apart 2 rest
  case h_9 =>
    split
    next rest => simpa using bracedEscape_apart rest
    next => exact hexEscape_apart 4 rest
  all_goals simp

theorem escape_taken {e : Char} {rest left : List Char} {produced : Option Char} {more : Nat}
    (found : escape e rest = (produced, more)) (split : rest.drop more = left) :
    ∃ taken, rest = taken ++ left ∧ more = taken.length ∧ '\\' ∉ taken ∧ '\n' ∉ taken ∧
      escape e (taken ++ withReturns left) = (produced, taken.length) := by
  have apart := escape_apart e rest
  have short := escape_le e rest
  have again := escape_withReturns e rest
  rw [found] at apart short again
  have whole : rest = rest.take more ++ left := by rw [← split, List.take_append_drop]
  have length : more = (rest.take more).length := (List.length_take_of_le short).symm
  refine ⟨rest.take more, whole, length, apart.1, apart.2, ?_⟩
  rwa [← length, ← withReturns_eq_self apart.2, ← withReturns_append, ← whole]

theorem readFrom_lineScan {quote : Char} (quoted : quote = single ∨ quote = double)
    (value : List Char) (count : Nat) (text : List Char) :
    ∃ own tail, text = own ++ tail ∧
      LineScan (readFrom quote value) (.unterminated quote) count own tail := by
  have backslash : quote ≠ '\\' := by obtain rfl | rfl := quoted <;> decide
  have feed : quote ≠ '\n' := by obtain rfl | rfl := quoted <;> decide
  have carriage : quote ≠ '\r' := by obtain rfl | rfl := quoted <;> decide
  have break_ (value : List Char) (count : Nat) (rest : List Char) :
      readFrom quote value count ('\n' :: rest) = (.unterminated quote, count + 1) :=
    readFrom_break feed.symm (by decide) (by decide) rest
  fun_induction readFrom quote value count text with
  | case1 value count => exact ⟨[], [], rfl, .ended fun again => by rw [readFrom]⟩
  | case2 value count c rest closes =>
    obtain rfl := beq_iff_eq.mp closes
    exact ⟨[c], rest, rfl, .stop feed (readFrom_quote rest) fun again => readFrom_quote _⟩
  | case3 value count c closes slash =>
    obtain rfl := beq_iff_eq.mp slash
    have last (again : Nat) :
        readFrom quote value again ['\\'] = (.unterminated quote, again + 1) := by
      rw [readFrom.eq_def]
      simp [backslash.symm]
    exact ⟨['\\'], [], rfl, .stop (by decide) (last count) last⟩
  | case4 value count c closes slash e rest produced more found ih =>
    obtain rfl := beq_iff_eq.mp slash
    obtain ⟨own, tail, split, line⟩ := ih
    by_cases ends : e = '\n'
    next =>
      subst ends
      obtain ⟨rfl, rfl⟩ : produced = none ∧ more = 0 := by
        simpa [escape, isLineTerminator, eq_comm] using found
      obtain rfl : rest = own ++ tail := split
      -- The carriage return is escaped as any other character, and the line feed is bare.
      refine ⟨'\\' :: '\n' :: own, tail, rfl, .carried (readFrom_escape backslash found) ?_ line⟩
      intro again rest
      have carriage : escape '\r' ('\n' :: rest) = (some '\r', 0) := rfl
      rw [readFrom_escape backslash carriage, List.drop_zero, break_]
    next =>
      obtain ⟨taken, rfl, rfl, backslashes, feeds, again⟩ := escape_taken found split
      refine ⟨'\\' :: e :: (taken ++ own), tail, by simp,
        .escaped taken ends backslashes feeds ?_ ?_ line⟩
      next => rw [readFrom_escape backslash found, List.drop_left]
      next =>
        intro count
        rw [readFrom_escape backslash again, List.drop_left]
  | case5 value count c rest closes slash ends =>
    by_cases same : c = '\n'
    next =>
      subst same
      exact ⟨['\n'], rest, rfl, .feed (break_ value)
        (fun again rest => readFrom_plain carriage.symm (by decide) (by decide) rest) (break_ _)⟩
    next =>
      have step (again : Nat) (rest : List Char) :
          readFrom quote value again (c :: rest) = (.unterminated quote, again + 1) :=
        readFrom_break (by simpa using closes) (by simpa using slash) ends rest
      exact ⟨[c], rest, rfl, .stop same (step count rest) fun again => step again _⟩
  | case6 value count c rest closes slash ends ih =>
    obtain ⟨own, tail, rfl, line⟩ := ih
    have same : c ≠ '\n' := by
      rintro rfl
      exact ends (by decide)
    exact ⟨c :: own, tail, rfl, .cons same (by simpa using slash)
      (fun again rest => readFrom_plain (by simpa using closes) (by simpa using slash)
        (by simpa using ends) rest) line⟩

end StringLiteral

namespace TemplateLiteral

def EndsAgain (depth count : Nat) (text : List Char) : Prop :=
  (lengthFrom? depth count text = none ∧
      ∀ again, lengthFrom? depth again (withReturns text) = none) ∨
    ∃ raw tail, text = raw ++ backquote :: tail ∧
      lengthFrom? depth count text = some (count + raw.length + 1) ∧
      ∀ again, lengthFrom? depth again (withReturns text) =
        some (again + (withReturns raw).length + 1)

theorem EndsAgain.append {depth next count : Nat} {rest : List Char} (taken : List Char)
    (step : lengthFrom? depth count (taken ++ rest) = lengthFrom? next (count + taken.length) rest)
    (stepAgain : ∀ again, lengthFrom? depth again (withReturns taken ++ withReturns rest) =
      lengthFrom? next (again + (withReturns taken).length) (withReturns rest))
    (ends : EndsAgain next (count + taken.length) rest) :
    EndsAgain depth count (taken ++ rest) := by
  unfold EndsAgain
  rw [step, withReturns_append]
  obtain ⟨none, noneAgain⟩ | ⟨raw, tail, rfl, some, someAgain⟩ := ends
  next =>
    refine .inl ⟨none, fun again => ?_⟩
    rw [stepAgain, noneAgain]
  next =>
    refine .inr ⟨taken ++ raw, tail, by simp, ?_, fun again => ?_⟩
    next =>
      rw [some]
      simp
      omega
    next =>
      rw [stepAgain, someAgain, withReturns_append]
      simp
      omega

theorem endsAgain (depth count : Nat) (text : List Char) : EndsAgain depth count text := by
  -- The carriage return is plain everywhere, and so is the line feed after it.
  have feed (depth again : Nat) (rest : List Char) :
      lengthFrom? depth again ('\n' :: rest) = lengthFrom? depth (again + 1) rest :=
    lengthFrom?_plain (by decide) (by simp) (by simp) (by simp)
  have carriage (depth again : Nat) (rest : List Char) :
      lengthFrom? depth again ('\r' :: rest) = lengthFrom? depth (again + 1) rest :=
    lengthFrom?_plain (by decide) (by simp) (by simp) (by simp)
  fun_induction lengthFrom? depth count text with
  | case1 depth count => exact .inl ⟨rfl, fun again => rfl⟩
  | case2 depth count => exact .inl ⟨rfl, fun again => rfl⟩
  | case3 depth count c rest ih =>
    refine EndsAgain.append ['\\', c] rfl (fun again => ?_) ih
    by_cases same : c = '\n'
    next =>
      subst same
      exact feed depth (again + 2) (withReturns rest)
    next => simp [withReturns_cons, same, lengthFrom?]
  | case4 count rest => exact .inr ⟨[], rest, rfl, rfl, fun again => rfl⟩
  | case5 count rest ih =>
    exact EndsAgain.append ['$', '\x7b'] rfl (fun again => rfl) ih
  | case6 depth count rest ih =>
    exact EndsAgain.append ['\x7b'] rfl (fun again => rfl) ih
  | case7 depth count rest ih =>
    exact EndsAgain.append ['\x7d'] rfl (fun again => rfl) ih
  | case8 depth count c rest notLast notEscape notClose notOpen notBrace notEnd ih =>
    have plain {text : List Char} (same : text.head? = some '\x7b' ↔ rest.head? = some '\x7b')
        (again : Nat) :
        lengthFrom? depth again (c :: text) = lengthFrom? depth (again + 1) text := by
      apply lengthFrom?_plain
      case backslash =>
        rintro rfl
        cases rest with
        | nil => exact notLast rfl rfl
        | cons d more => exact notEscape d more rfl rfl
      case closes => exact notClose
      case substitutes =>
        rintro outside dollar opens
        obtain ⟨more, split⟩ := List.head?_eq_some_iff.mp (same.mp opens)
        exact notOpen more outside dollar split
      case opens =>
        intro inside
        obtain ⟨outer, rfl⟩ := Nat.exists_eq_add_one.mpr inside
        exact ⟨notBrace outer rfl, notEnd outer rfl⟩
    refine EndsAgain.append [c] (plain .rfl count) (fun again => ?_) ih
    by_cases same : c = '\n'
    next =>
      subst same
      exact (carriage depth again _).trans (feed depth (again + 1) _)
    next =>
      rw [withReturns_cons same]
      exact plain (head?_withReturns_eq_some (by decide) (by decide) rest) again

end TemplateLiteral

namespace RegexpLiteral

theorem readFrom_plain {inClass : Bool} {count : Nat} {c : Char} {rest : List Char}
    (backslash : c ≠ '\\') :
    readFrom inClass count (c :: rest) =
      if isLineTerminator c then (false, count + 1)
      else if c == '/' && !inClass then (true, count + 1)
      else readFrom (if c == '[' then true else if c == ']' then false else inClass)
        (count + 1) rest := by
  rw [readFrom.eq_def]
  split <;> simp_all

theorem readFrom_lineScan (inClass : Bool) (count : Nat) (text : List Char) :
    ∃ own tail, text = own ++ tail ∧ LineScan (readFrom inClass) false count own tail := by
  have break_ (inClass : Bool) (again : Nat) (rest : List Char) :
      readFrom inClass again ('\n' :: rest) = (false, again + 1) :=
    (readFrom_plain (by decide)).trans (if_pos (by decide))
  fun_induction readFrom inClass count text with
  | case1 inClass count => exact ⟨[], [], rfl, .ended fun again => rfl⟩
  | case2 inClass count =>
    exact ⟨['\\'], [], rfl, .stop (by decide) rfl fun again => rfl⟩
  | case3 inClass count c rest ih =>
    obtain ⟨own, tail, rfl, line⟩ := ih
    by_cases same : c = '\n'
    next =>
      subst same
      refine ⟨'\\' :: '\n' :: own, tail, rfl, .carried rfl (fun again rest => ?_) line⟩
      exact congrArg Prod.fst (break_ inClass (again + 2) rest)
    next =>
      exact ⟨'\\' :: c :: own, tail, rfl,
        .escaped [] same (by simp) (by simp) rfl (fun again => rfl) line⟩
  | case4 inClass count c rest notLast notEscape ends =>
    have backslash : c ≠ '\\' := by
      rintro rfl
      revert ends
      decide
    have step (again : Nat) (rest : List Char) :
        readFrom inClass again (c :: rest) = (false, again + 1) := by
      rw [readFrom_plain backslash, if_pos ends]
    by_cases same : c = '\n'
    next =>
      subst same
      refine ⟨['\n'], rest, rfl, .feed step (fun again rest => ?_) (break_ inClass)⟩
      exact readFrom_plain (c := '\r') (by decide)
    next => exact ⟨[c], rest, rfl, .stop same (step count rest) fun again => step again _⟩
  | case5 inClass count c rest notLast notEscape ends closes =>
    obtain ⟨rfl, -⟩ : c = '/' ∧ inClass = false := by simpa using closes
    have step (again : Nat) (rest : List Char) :
        readFrom inClass again ('/' :: rest) = (true, again + 1) := by
      rw [readFrom_plain (by decide), if_neg ends, if_pos closes]
    exact ⟨['/'], rest, rfl, .stop (by decide) (step count rest) fun again => step again _⟩
  | case6 inClass count c rest notLast notEscape ends closes ih =>
    obtain ⟨own, tail, rfl, line⟩ := ih
    have backslash : c ≠ '\\' := by
      rintro rfl
      cases split : own ++ tail with
      | nil => exact notLast rfl split
      | cons d more => exact notEscape d more rfl split
    have same : c ≠ '\n' := by
      rintro rfl
      exact ends (by decide)
    refine ⟨c :: own, tail, rfl, .cons same backslash (fun again rest => ?_) line⟩
    rw [readFrom_plain backslash, if_neg ends, if_neg closes]

end RegexpLiteral

end EventLoop
