import EventLoop.Source.Cursor

set_option autoImplicit false

namespace EventLoop

open Text (isBlank isLineTerminator)

namespace Trivia

inductive Place where
  | outside
  | lineComment
  | blockComment
deriving DecidableEq, Repr

def lengthFrom : Place → Nat → List Char → Nat
  | _, count, [] => count
  | .outside, count, '/' :: '/' :: rest => lengthFrom .lineComment (count + 2) rest
  | .outside, count, '/' :: '*' :: rest => lengthFrom .blockComment (count + 2) rest
  | .outside, count, c :: rest =>
      if isBlank c then lengthFrom .outside (count + 1) rest else count
  | .lineComment, count, c :: rest =>
      lengthFrom (if isLineTerminator c then .outside else .lineComment) (count + 1) rest
  | .blockComment, count, '*' :: '/' :: rest => lengthFrom .outside (count + 2) rest
  | .blockComment, count, _ :: rest => lengthFrom .blockComment (count + 1) rest

def length (text : List Char) : Nat := lengthFrom .outside 0 text

theorem lengthFrom_add (place : Place) (count more : Nat) (text : List Char) :
    lengthFrom place (count + more) text = lengthFrom place count text + more := by
  fun_induction lengthFrom place count text with
  | case1 => simp [lengthFrom]
  | case2 count rest ih => rw [← ih, Nat.add_right_comm]; rfl
  | case3 count rest ih => rw [← ih, Nat.add_right_comm]; rfl
  | case4 count c rest noLine noBlock blank ih =>
    rw [← ih, Nat.add_right_comm, lengthFrom.eq_def]
    split <;> simp_all
  | case5 count c rest noLine noBlock blank =>
    rw [lengthFrom.eq_def]
    split <;> simp_all
  | case6 count c rest ih => rw [← ih, Nat.add_right_comm, lengthFrom]
  | case7 count rest ih => rw [← ih, Nat.add_right_comm]; rfl
  | case8 count c rest noClose ih =>
    rw [← ih, Nat.add_right_comm, lengthFrom.eq_def]
    split <;> simp_all

theorem lengthFrom_eq_add (place : Place) (count : Nat) (text : List Char) :
    lengthFrom place count text = count + lengthFrom place 0 text := by
  rw [Nat.add_comm, ← lengthFrom_add, Nat.zero_add]

theorem lengthFrom_outside {c : Char} {more : List Char}
    (line : ¬(c == '/' && more.head? == some '/'))
    (block : ¬(c == '/' && more.head? == some '*')) (count : Nat) :
    lengthFrom .outside count (c :: more) =
      if isBlank c then lengthFrom .outside (count + 1) more else count := by
  apply lengthFrom.eq_4
  next =>
    rintro rest rfl rfl
    exact line rfl
  next =>
    rintro rest rfl rfl
    exact block rfl

theorem lengthFrom_inside {c : Char} {more : List Char}
    (inside : ¬(c == '*' && more.head? == some '/')) (count : Nat) :
    lengthFrom .blockComment count (c :: more) = lengthFrom .blockComment (count + 1) more := by
  apply lengthFrom.eq_7
  rintro rest rfl rfl
  exact inside rfl

theorem isBlank_of_isLineTerminator {c : Char} (ends : isLineTerminator c) : isBlank c := by
  simp only [isLineTerminator, Bool.or_eq_true, beq_iff_eq] at ends
  obtain (rfl | rfl) | rfl := ends <;> decide

theorem length_blank {c : Char} (blank : isBlank c) (more : List Char) :
    length (c :: more) = 1 + length more := by
  have slash : ¬c == '/' := by
    intro same
    rw [beq_iff_eq.mp same] at blank
    exact absurd blank (by decide)
  rw [length, lengthFrom_outside (by simp_all) (by simp_all), if_pos blank, lengthFrom_eq_add]
  rfl

theorem lengthFrom_line (text : List Char) :
    lengthFrom .lineComment 0 text = (text.takeWhile (!isLineTerminator ·)).length +
      length (text.drop (text.takeWhile (!isLineTerminator ·)).length) := by
  induction text with
  | nil => rfl
  | cons c text ih =>
    rw [lengthFrom]
    by_cases ends : isLineTerminator c
    next =>
      rw [List.takeWhile_cons_of_neg (by simpa using ends), if_pos ends, List.length_nil,
        List.drop_zero, length_blank (isBlank_of_isLineTerminator ends), lengthFrom_eq_add,
        Nat.zero_add, Nat.zero_add]
      rfl
    next =>
      rw [List.takeWhile_cons_of_pos (by simpa using ends), if_neg ends, lengthFrom_eq_add, ih,
        List.length_cons, List.drop_succ_cons]
      omega

theorem length_line (rest : List Char) :
    length ('/' :: '/' :: rest) = (('/' :: '/' :: rest).takeWhile (!isLineTerminator ·)).length +
      length (('/' :: '/' :: rest).drop
        (('/' :: '/' :: rest).takeWhile (!isLineTerminator ·)).length) := by
  have slash : (!isLineTerminator '/') = true := by decide
  rw [length, lengthFrom, lengthFrom_eq_add, lengthFrom_line]
  simp only [List.takeWhile_cons, slash, if_true, List.length_cons, List.drop_succ_cons]
  omega

end Trivia

namespace Cursor

def skipBlock (newline : Bool) (cursor : Cursor) : Bool × Cursor :=
  match _step : cursor.bump? with
  | none => (newline, cursor)
  | some (c, after) =>
      if c == '*' && after.first? == some '/' then (newline, after.bump)
      else if isLineTerminator c then after.skipBlock true
      else after.skipBlock newline
termination_by cursor.rest.length
decreasing_by all_goals exact length_bump? _step

theorem skipBlock_eq (newline : Bool) (cursor : Cursor) :
    ∃ count, cursor.skipBlock newline =
        (newline || (cursor.rest.take count).any isLineTerminator, cursor.skip count) ∧
      Trivia.lengthFrom .blockComment 0 cursor.rest =
        count + Trivia.length (cursor.rest.drop count) := by
  fun_induction skipBlock newline cursor with
  | case1 newline cursor step =>
    have ended := bump?_eq_none_iff.mp step
    refine ⟨0, by simp, ?_⟩
    rw [ended]
    rfl
  | case2 newline cursor c after step closes =>
    obtain ⟨found, rfl⟩ := bump?_eq_some step
    simp only [Bool.and_eq_true, beq_iff_eq] at closes
    obtain ⟨rfl, slash⟩ := closes
    obtain ⟨rest, second⟩ := List.head?_eq_some_iff.mp slash
    rw [second] at found
    refine ⟨2, ?_, ?_⟩
    next =>
      rw [bump_eq_skip, skip_skip, found]
      simp [show isLineTerminator '*' = false by decide, show isLineTerminator '/' = false by
        decide]
    next =>
      rw [found, Trivia.lengthFrom, Trivia.lengthFrom_eq_add]
      rfl
  | case3 newline cursor c after step inside ends ih
  | case4 newline cursor c after step inside ends ih =>
    obtain ⟨found, rfl⟩ := bump?_eq_some step
    obtain ⟨count, skipped, length⟩ := ih
    refine ⟨1 + count, ?_, ?_⟩
    next =>
      rw [skipped, skip_skip, found]
      simp [ends, Nat.add_comm 1 count]
    next =>
      have skipped : (cursor.skip 1).rest.drop count = cursor.rest.drop (1 + count) := by
        rw [rest_skip, List.drop_drop]
      rw [← skipped, found, Trivia.lengthFrom_inside inside, Trivia.lengthFrom_eq_add, length]
      omega

theorem skipAscii_mark {cursor : Cursor} {more : List Char} (found : cursor.rest = '/' :: more)
    (star : more.head? = some '*') : cursor.skipAscii ['/', '*'] = cursor.skip 2 := by
  obtain ⟨rest, rfl⟩ := List.head?_eq_some_iff.mp star
  exact skipAscii_eq_skip (found ▸ ⟨rest, rfl⟩) (by decide)

def skipTrivia (newline : Bool) (cursor : Cursor) : Bool × Cursor :=
  match _found : cursor.rest with
  | [] => (newline, cursor)
  | c :: more =>
      if isLineTerminator c then cursor.bump.skipTrivia true
      else if isBlank c then cursor.bump.skipTrivia newline
      else if c == '/' && more.head? == some '/' then
        (cursor.passWhile (!isLineTerminator ·)).skipTrivia newline
      else if c == '/' && more.head? == some '*' then
        let inside := (cursor.skipAscii ['/', '*']).skipBlock newline
        inside.2.skipTrivia inside.1
      else (newline, cursor)
termination_by cursor.rest.length
decreasing_by
  next => simp [bump_eq_skip, _found]
  next => simp [bump_eq_skip, _found]
  next inside _ _ =>
    rw [passWhile_eq_skip, _found, List.takeWhile_cons_of_pos (by simpa using inside), rest_skip,
      _found]
    simp only [List.length_cons, List.length_drop]
    omega
  next comment =>
    simp only [Bool.and_eq_true, beq_iff_eq] at comment
    obtain ⟨rfl, star⟩ := comment
    obtain ⟨count, skipped, -⟩ := skipBlock_eq newline (cursor.skip 2)
    rw [skipAscii_mark _found star, skipped, skip_skip]
    simp [_found]
    omega

theorem passed_of_skip {newline raised : Bool} {cursor : Cursor} {count : Nat}
    (length : Trivia.length cursor.rest = count + Trivia.length (cursor.rest.drop count))
    (flag : raised = (newline || (cursor.rest.take count).any isLineTerminator)) :
    let after := cursor.skip count
    (raised || (after.rest.take (Trivia.length after.rest)).any isLineTerminator,
        after.skip (Trivia.length after.rest)) =
      (newline || (cursor.rest.take (Trivia.length cursor.rest)).any isLineTerminator,
        cursor.skip (Trivia.length cursor.rest)) := by
  intro after
  have text : cursor.rest.take (Trivia.length cursor.rest) =
      cursor.rest.take count ++ after.rest.take (Trivia.length after.rest) := by
    rw [length, List.take_add]
    rfl
  rw [text, List.any_append, flag, Bool.or_assoc, skip_skip, length]
  rfl

theorem skipTrivia_eq (newline : Bool) (cursor : Cursor) :
    cursor.skipTrivia newline =
      (newline || (cursor.rest.take (Trivia.length cursor.rest)).any isLineTerminator,
        cursor.skip (Trivia.length cursor.rest)) := by
  fun_induction skipTrivia newline cursor with
  | case1 newline cursor ended => simp [ended, skip_of_nil]
  | case2 newline cursor c more found ends ih =>
    rw [ih, bump_eq_skip]
    apply passed_of_skip
    next =>
      rw [found]
      exact Trivia.length_blank (Trivia.isBlank_of_isLineTerminator ends) more
    next => simp [found, ends]
  | case3 newline cursor c more found ends blank ih =>
    rw [ih, bump_eq_skip]
    apply passed_of_skip
    next =>
      rw [found]
      exact Trivia.length_blank blank more
    next => simp [found, ends]
  | case4 newline cursor c more found ends blank comment ih =>
    simp only [Bool.and_eq_true, beq_iff_eq] at comment
    obtain ⟨rfl, slash⟩ := comment
    obtain ⟨rest, rfl⟩ := List.head?_eq_some_iff.mp slash
    rw [ih, passWhile_eq_skip]
    apply passed_of_skip
    next =>
      rw [found]
      exact Trivia.length_line rest
    next =>
      have line : (cursor.rest.takeWhile (!isLineTerminator ·)).any isLineTerminator = false := by
        rw [List.any_eq_not_all_not, List.all_takeWhile]
        rfl
      rw [Text.take_length_takeWhile, line, Bool.or_false]
  | case5 newline cursor c more found ends blank noLine comment inside ih =>
    simp only [Bool.and_eq_true, beq_iff_eq] at comment
    obtain ⟨rfl, star⟩ := comment
    obtain ⟨rest, rfl⟩ := List.head?_eq_some_iff.mp star
    obtain ⟨count, skipped, length⟩ := skipBlock_eq newline (cursor.skip 2)
    have passed : inside = (newline || ((cursor.skip 2).rest.take count).any isLineTerminator,
        cursor.skip (2 + count)) := by
      rw [← skip_skip, ← skipped, ← skipAscii_mark found star]
    rw [ih, passed]
    apply passed_of_skip
    next =>
      rw [← List.drop_drop, ← rest_skip, Nat.add_assoc, ← length, found, Trivia.length,
        Trivia.lengthFrom, Trivia.lengthFrom_eq_add, rest_skip, found]
      rfl
    next =>
      rw [List.take_add, rest_skip, found]
      simp [show isLineTerminator '*' = false by decide, show isLineTerminator '/' = false by
        decide]
  | case6 newline cursor c more found ends blank noLine noBlock =>
    have length : Trivia.length cursor.rest = 0 := by
      rw [found, Trivia.length, Trivia.lengthFrom_outside noLine noBlock, if_neg blank]
    simp [length]

end Cursor

end EventLoop
