import EventLoop.Source.Position

set_option autoImplicit false

namespace EventLoop

namespace Text

def byteCount (text : List Char) : Nat := text.foldr (fun c bytes => c.utf8Size + bytes) 0

def splitBytes? : Nat → List Char → Option (List Char × List Char)
  | 0, text => some ([], text)
  | _ + 1, [] => none
  | bytes + 1, c :: rest =>
      if c.utf8Size ≤ bytes + 1 then
        (splitBytes? (bytes + 1 - c.utf8Size) rest).map fun parts => (c :: parts.1, parts.2)
      else none

end Text

structure Cursor where
  rest : List Char
  position : Position
deriving DecidableEq, Repr, Inhabited

namespace Cursor

def ofText (source : String) : Cursor := ⟨source.toList, .origin⟩

def nth? (cursor : Cursor) (index : Nat) : Option Char := cursor.rest[index]?

def first? (cursor : Cursor) : Option Char := cursor.rest.head?

def bump? (cursor : Cursor) : Option (Char × Cursor) :=
  match cursor.rest with
  | [] => none
  | c :: rest => some (c, ⟨rest, cursor.position.next c⟩)

def bump (cursor : Cursor) : Cursor := (cursor.bump?.map (·.2)).getD cursor

def eat? (expected : Char) (cursor : Cursor) : Option Cursor :=
  if cursor.first? == some expected then some cursor.bump else none

theorem length_bump? {cursor after : Cursor} {c : Char} (step : cursor.bump? = some (c, after)) :
    after.rest.length < cursor.rest.length := by
  unfold bump? at step
  split at step
  next => cases step
  next c rest found =>
    cases step
    simp [found]

def passWhile (test : Char → Bool) (cursor : Cursor) : Cursor :=
  match _step : cursor.bump? with
  | none => cursor
  | some (c, after) => if test c then after.passWhile test else cursor
termination_by cursor.rest.length
decreasing_by exact length_bump? _step

def slice (start after : Cursor) : List Char :=
  ((Text.splitBytes? (after.position.offset - start.position.offset) start.rest).map (·.1)).getD []

def eatWhile (test : Char → Bool) (cursor : Cursor) : List Char × Cursor :=
  let after := cursor.passWhile test
  (cursor.slice after, after)

/-- Moves over a text that stands at the cursor. It must be ASCII on one line, for the column moves
by its bytes and the line stays. -/
def skipAscii (text : List Char) (cursor : Cursor) : Cursor :=
  let bytes := Text.byteCount text
  let position := cursor.position
  ⟨((Text.splitBytes? bytes cursor.rest).map (·.2)).getD [],
    ⟨position.offset + bytes, position.line, position.column + bytes⟩⟩

end Cursor

namespace Text

theorem splitBytes?_append (text after : List Char) :
    splitBytes? (byteCount text) (text ++ after) = some (text, after) := by
  induction text with
  | nil => simp [byteCount, splitBytes?]
  | cons c text ih =>
    have size : byteCount (c :: text) = c.utf8Size + byteCount text := rfl
    obtain ⟨bytes, more⟩ : ∃ bytes, byteCount (c :: text) = bytes + 1 :=
      Nat.exists_eq_add_one.mpr (by have := c.utf8Size_pos; omega)
    have rest : bytes + 1 - c.utf8Size = byteCount text := by omega
    rw [more, List.cons_append, splitBytes?, if_pos (by omega), rest, ih]
    rfl

theorem byteCount_append (left right : List Char) :
    byteCount (left ++ right) = byteCount left + byteCount right := by
  induction left with
  | nil => exact (Nat.zero_add _).symm
  | cons c left ih =>
    change c.utf8Size + byteCount (left ++ right) = c.utf8Size + byteCount left + byteCount right
    rw [ih, Nat.add_assoc]

theorem take_length_takeWhile (test : Char → Bool) (text : List Char) :
    text.take (text.takeWhile test).length = text.takeWhile test :=
  (List.prefix_iff_eq_take.mp (List.takeWhile_prefix test)).symm

def isPlain (c : Char) : Bool := c.utf8Size == 1 && !isLineTerminator c

theorem isPlain_of_isDigitOf {base : Nat} {c : Char} (digit : isDigitOf base c) : isPlain c := by
  have order (d e : Char) : d ≤ e ↔ d.toNat ≤ e.toNat := Iff.rfl
  have small : 48 ≤ c.toNat ∧ c.toNat ≤ 102 := by
    simp only [isDigitOf, digitValue?, order, Char.reduceToNat] at digit
    grind
  have size : c.utf8Size = 1 := by
    have code : c.val.toNat ≤ 127 := Nat.le_trans small.2 (by decide)
    rw [Char.utf8Size, if_pos (UInt32.le_iff_toNat_le.mpr code)]
  have line : isLineTerminator c = false := by
    simp only [isLineTerminator, Bool.or_eq_false_iff, beq_eq_false_iff_ne]
    refine ⟨⟨?_, ?_⟩, ?_⟩ <;> rintro rfl <;> revert small <;> decide
  simp [isPlain, size, line]

theorem byteCount_plain {text : List Char} (plain : text.all isPlain) :
    byteCount text = text.length := by
  induction text with
  | nil => rfl
  | cons c text ih =>
    simp only [List.all_cons, Bool.and_eq_true, isPlain, beq_iff_eq] at plain
    have bytes : byteCount (c :: text) = c.utf8Size + byteCount text := rfl
    rw [bytes, plain.1.1, ih (by simpa [isPlain] using plain.2), List.length_cons, Nat.add_comm]

theorem eq_append_of_splitBytes? {bytes : Nat} {text left right : List Char}
    (split : splitBytes? bytes text = some (left, right)) :
    text = left ++ right ∧ byteCount left = bytes := by
  fun_induction splitBytes? bytes text generalizing left right with
  | case1 text =>
    cases split
    exact ⟨rfl, rfl⟩
  | case2 => cases split
  | case3 bytes c rest fits ih =>
    obtain ⟨⟨first, last⟩, found, same⟩ := Option.map_eq_some_iff.mp split
    cases same
    obtain ⟨rfl, count⟩ := ih found
    have size : byteCount (c :: first) = c.utf8Size + byteCount first := rfl
    refine ⟨rfl, ?_⟩
    dsimp only
    omega
  | case4 => cases split

end Text

namespace Position

def advance (position : Position) (text : List Char) : Position := text.foldl next position

@[simp] theorem advance_nil (position : Position) : position.advance [] = position := rfl

@[simp] theorem advance_cons (position : Position) (c : Char) (text : List Char) :
    position.advance (c :: text) = (position.next c).advance text := rfl

@[simp] theorem advance_append (position : Position) (left right : List Char) :
    position.advance (left ++ right) = (position.advance left).advance right := by
  simp [advance]

theorem offset_next (position : Position) (c : Char) :
    (position.next c).offset = position.offset + c.utf8Size := by
  unfold next
  split <;> rfl

theorem offset_advance_byteCount (position : Position) (text : List Char) :
    (position.advance text).offset = position.offset + Text.byteCount text := by
  induction text generalizing position with
  | nil => rfl
  | cons c text ih =>
    rw [advance_cons, ih, offset_next, Nat.add_assoc]
    rfl

theorem advance_plain (position : Position) {text : List Char} (plain : text.all Text.isPlain) :
    position.advance text =
      ⟨position.offset + Text.byteCount text, position.line,
        position.column + Text.byteCount text⟩ := by
  induction text generalizing position with
  | nil => rfl
  | cons c text ih =>
    simp only [List.all_cons, Text.isPlain, Bool.and_eq_true, beq_iff_eq,
      Bool.not_eq_true'] at plain
    obtain ⟨⟨size, line⟩, plain⟩ := plain
    have bytes : Text.byteCount (c :: text) = 1 + Text.byteCount text := by
      rw [← size]
      rfl
    rw [advance_cons, ih _ plain, bytes]
    simp only [next, line, size, Bool.false_eq_true, if_false, Nat.add_assoc]

end Position

namespace Cursor

def skip (cursor : Cursor) (count : Nat) : Cursor :=
  ⟨cursor.rest.drop count, cursor.position.advance (cursor.rest.take count)⟩

@[simp] theorem rest_skip (cursor : Cursor) (count : Nat) :
    (cursor.skip count).rest = cursor.rest.drop count := rfl

@[simp] theorem position_skip (cursor : Cursor) (count : Nat) :
    (cursor.skip count).position = cursor.position.advance (cursor.rest.take count) := rfl

@[simp] theorem skip_zero (cursor : Cursor) : cursor.skip 0 = cursor := rfl

theorem skip_skip (cursor : Cursor) (first second : Nat) :
    (cursor.skip first).skip second = cursor.skip (first + second) := by
  simp [skip, List.take_add]

theorem skip_of_nil {cursor : Cursor} (ended : cursor.rest = []) (count : Nat) :
    cursor.skip count = cursor := by
  obtain ⟨rest, position⟩ := cursor
  obtain rfl : rest = [] := ended
  simp [skip]

theorem bump?_of_cons {cursor : Cursor} {c : Char} {more : List Char}
    (found : cursor.rest = c :: more) : cursor.bump? = some (c, cursor.skip 1) := by
  simp [bump?, skip, found]

theorem bump?_eq_none_iff {cursor : Cursor} : cursor.bump? = none ↔ cursor.rest = [] := by
  cases found : cursor.rest <;> simp [bump?, found]

theorem bump?_eq_some {cursor after : Cursor} {c : Char} (step : cursor.bump? = some (c, after)) :
    cursor.rest = c :: after.rest ∧ after = cursor.skip 1 := by
  cases found : cursor.rest with
  | nil => simp [bump?_eq_none_iff.mpr found] at step
  | cons d more =>
    cases (bump?_of_cons found).symm.trans step
    simp [found]

theorem rest_skip_succ {cursor : Cursor} {count : Nat} {c : Char} {more : List Char}
    (found : (cursor.skip count).rest = c :: more) : (cursor.skip (count + 1)).rest = more := by
  rw [← skip_skip, rest_skip, found]
  rfl

theorem bump_eq_skip (cursor : Cursor) : cursor.bump = cursor.skip 1 := by
  cases found : cursor.rest with
  | nil => simp [bump, bump?_eq_none_iff.mpr found, skip_of_nil found]
  | cons c more => simp [bump, bump?_of_cons found]

theorem length_bump_le (cursor : Cursor) : cursor.bump.rest.length ≤ cursor.rest.length := by
  rw [bump_eq_skip, rest_skip, List.length_drop]
  exact Nat.sub_le ..

theorem passWhile_eq_skip (test : Char → Bool) (cursor : Cursor) :
    cursor.passWhile test = cursor.skip (cursor.rest.takeWhile test).length := by
  fun_induction passWhile test cursor with
  | case1 cursor step => exact (skip_of_nil (bump?_eq_none_iff.mp step) _).symm
  | case2 cursor c after step passes ih =>
    obtain ⟨found, rfl⟩ := bump?_eq_some step
    rw [ih, skip_skip, found, List.takeWhile_cons_of_pos passes, List.length_cons, Nat.add_comm]
  | case3 cursor c after step passes =>
    obtain ⟨found, -⟩ := bump?_eq_some step
    rw [found, List.takeWhile_cons_of_neg passes]
    rfl

theorem slice_skip (cursor : Cursor) (count : Nat) :
    cursor.slice (cursor.skip count) = cursor.rest.take count := by
  have split := Text.splitBytes?_append (cursor.rest.take count) (cursor.rest.drop count)
  rw [List.take_append_drop] at split
  rw [slice, position_skip, Position.offset_advance_byteCount, Nat.add_sub_cancel_left, split]
  rfl

theorem slice_self (cursor : Cursor) : cursor.slice cursor = [] :=
  cursor.slice_skip 0

theorem eatWhile_eq (test : Char → Bool) (cursor : Cursor) :
    cursor.eatWhile test =
      (cursor.rest.takeWhile test, cursor.skip (cursor.rest.takeWhile test).length) := by
  rw [eatWhile, passWhile_eq_skip, slice_skip, Text.take_length_takeWhile]

theorem skipAscii_eq_skip {cursor : Cursor} {text : List Char} (starts : text <+: cursor.rest)
    (plain : text.all Text.isPlain) : cursor.skipAscii text = cursor.skip text.length := by
  obtain ⟨after, split⟩ := starts
  simp only [skipAscii, ← split, Text.splitBytes?_append, skip, List.take_left, List.drop_left,
    Position.advance_plain _ plain]
  rfl

end Cursor

end EventLoop
