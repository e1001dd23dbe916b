import EventLoop.Number.Numeral
import EventLoop.Token.Basic

set_option autoImplicit false

namespace EventLoop

namespace NumberLiteral

def isSeparated (base : Nat) (c : Char) : Bool := Text.isDigitOf base c || c == '_'

def base? (mark : Char) : Option Nat :=
  if mark == 'x' || mark == 'X' then some 16
  else if mark == 'o' || mark == 'O' then some 8
  else if mark == 'b' || mark == 'B' then some 2
  else none

def inBase (base : Nat) (digits : List Char) : TokenKind :=
  let digits := digits.filter (· != '_')
  let value := Text.digitsValue base digits
  if digits.isEmpty || Text.countLimit ≤ value then .invalid '0'
  else .number (Number.Decimal.toFloat ⟨value, 0⟩)

def fraction : List Char → List Char
  | '.' :: c :: rest =>
      if Number.isDigit c then c :: rest.takeWhile (isSeparated 10) else []
  | _ => []

def exponent : List Char → List Char × List Char
  | mark :: c :: rest =>
      if !(mark == 'e' || mark == 'E') then ([], [])
      else if Number.isDigit c then ([], c :: rest.takeWhile Number.isDigit)
      else if (c == '+' || c == '-') && rest.head?.any Number.isDigit then
        ([c], rest.takeWhile Number.isDigit)
      else ([], [])
  | _ => ([], [])

def decimal (text : List Char) : TokenKind × Nat :=
  let whole := text.takeWhile (isSeparated 10)
  let rest := text.drop whole.length
  let fraction := fraction rest
  let point := if fraction.isEmpty then 0 else 1 + fraction.length
  let (sign, digits) := exponent (rest.drop point)
  let mark := if digits.isEmpty then 0 else 1 + sign.length + digits.length
  let numeral : Number.Numeral :=
    { whole := whole.filter (· != '_')
      fraction := fraction.filter (· != '_')
      exponentNegative := sign == ['-']
      exponent := digits }
  (.number numeral.toFloat, whole.length + point + mark)

def read : List Char → TokenKind × Nat
  | '0' :: mark :: rest =>
      match base? mark with
      | some base =>
          let digits := rest.takeWhile (isSeparated base)
          (inBase base digits, 2 + digits.length)
      | none => decimal ('0' :: mark :: rest)
  | text => decimal text

end NumberLiteral

namespace Cursor

open NumberLiteral

def fraction (cursor : Cursor) : List Char × Cursor :=
  if cursor.first? == some '.' && (cursor.nth? 1).any Number.isDigit then
    cursor.bump.eatWhile (isSeparated 10)
  else ([], cursor)

def exponentMarks (cursor : Cursor) : Nat :=
  if !cursor.first?.any fun mark => mark == 'e' || mark == 'E' then 0
  else if (cursor.nth? 1).any Number.isDigit then 1
  else if ((cursor.nth? 1).any fun sign => sign == '+' || sign == '-') &&
    (cursor.nth? 2).any Number.isDigit then 2
  else 0

def bumps (cursor : Cursor) : Nat → Cursor
  | 0 => cursor
  | count + 1 => cursor.bump.bumps count

def exponent (cursor : Cursor) : List Char × List Char × Cursor :=
  match cursor.exponentMarks with
  | 0 => ([], [], cursor)
  | marks + 1 =>
      let start := cursor.bump
      let signed := start.bumps marks
      (start.slice signed, signed.eatWhile Number.isDigit)

def decimal (cursor : Cursor) : TokenKind × Cursor :=
  let (whole, point) := cursor.eatWhile (isSeparated 10)
  let (fraction, mark) := point.fraction
  let (sign, digits, after) := mark.exponent
  let numeral : Number.Numeral :=
    { whole := whole.filter (· != '_')
      fraction := fraction.filter (· != '_')
      exponentNegative := sign == ['-']
      exponent := digits }
  (.number numeral.toFloat, after)

def number (cursor : Cursor) : TokenKind × Cursor :=
  let base := if cursor.first? == some '0' then (cursor.nth? 1).bind base? else none
  match base with
  | some base =>
      let (digits, after) := (cursor.skipAscii ['0', 'x']).eatWhile (isSeparated base)
      (inBase base digits, after)
  | none => cursor.decimal

theorem bumps_eq_skip (cursor : Cursor) (count : Nat) : cursor.bumps count = cursor.skip count := by
  induction count generalizing cursor with
  | zero => rfl
  | succ count ih => rw [bumps, ih, bump_eq_skip, skip_skip, Nat.add_comm]

theorem isSeparated_of_isDigit {c : Char} (digit : Number.isDigit c) : isSeparated 10 c := by
  rw [Number.isDigit] at digit
  rw [isSeparated, digit, Bool.true_or]

theorem fraction_eq (cursor : Cursor) :
    cursor.fraction = (NumberLiteral.fraction cursor.rest,
      cursor.skip (if (NumberLiteral.fraction cursor.rest).isEmpty then 0
        else 1 + (NumberLiteral.fraction cursor.rest).length)) := by
  obtain ⟨text, position⟩ := cursor
  dsimp only
  fun_cases NumberLiteral.fraction text with
  | case1 c rest digit =>
    have own : (c :: rest).takeWhile (isSeparated 10) = c :: rest.takeWhile (isSeparated 10) :=
      List.takeWhile_cons_of_pos (isSeparated_of_isDigit digit)
    have found : fraction ⟨'.' :: c :: rest, position⟩ =
        (skip ⟨'.' :: c :: rest, position⟩ 1).eatWhile (isSeparated 10) := by
      simp [fraction, first?, nth?, digit, bump_eq_skip]
    rw [found, eatWhile_eq, skip_skip, rest_skip, List.drop_succ_cons, List.drop_zero, own]
    rfl
  | case2 c rest digit => simp [fraction, first?, nth?, digit]
  | case3 _ other =>
    have none : ¬(text.head? == some '.' && text[1]?.any Number.isDigit) := by
      simp only [Bool.and_eq_true, beq_iff_eq, Option.any_eq_true]
      rintro ⟨first, c, second, -⟩
      obtain ⟨rest, rfl⟩ := List.head?_eq_some_iff.mp first
      cases rest with
      | nil => cases second
      | cons d rest => exact other d rest rfl
    exact if_neg none

theorem exponent_eq (cursor : Cursor) :
    cursor.exponent = ((NumberLiteral.exponent cursor.rest).1,
      (NumberLiteral.exponent cursor.rest).2,
      cursor.skip (if (NumberLiteral.exponent cursor.rest).2.isEmpty then 0
        else 1 + (NumberLiteral.exponent cursor.rest).1.length +
          (NumberLiteral.exponent cursor.rest).2.length)) := by
  obtain ⟨text, position⟩ := cursor
  dsimp only
  fun_cases NumberLiteral.exponent text with
  | case1 mark c rest other =>
    have marks : exponentMarks ⟨mark :: c :: rest, position⟩ = 0 := if_pos other
    simp [exponent, marks]
  | case2 mark c rest found digit =>
    have marks : exponentMarks ⟨mark :: c :: rest, position⟩ = 1 := by
      simp_all [exponentMarks, first?, nth?]
    have own : (c :: rest).takeWhile Number.isDigit = c :: rest.takeWhile Number.isDigit :=
      List.takeWhile_cons_of_pos digit
    simp only [exponent, marks, bump_eq_skip, bumps, slice_self, eatWhile_eq, skip_skip, rest_skip,
      List.drop_succ_cons, List.drop_zero, own]
    rfl
  | case3 mark c rest found digit sign =>
    have marks : exponentMarks ⟨mark :: c :: rest, position⟩ = 2 := by
      simp_all [exponentMarks, first?, nth?, List.head?_eq_getElem?]
    have digits : (rest.takeWhile Number.isDigit).isEmpty = false := by
      cases rest with
      | nil => simp at sign
      | cons d rest => simp_all
    simp only [exponent, marks, bump_eq_skip, bumps_eq_skip, eatWhile_eq, slice_skip]
    simp [skip_skip, digits]
  | case4 mark c rest found digit sign =>
    have marks : exponentMarks ⟨mark :: c :: rest, position⟩ = 0 := by
      simp_all [exponentMarks, first?, nth?, List.head?_eq_getElem?]
    simp [exponent, marks]
  | case5 _ other =>
    have marks : exponentMarks ⟨text, position⟩ = 0 := by
      match text with
      | [] => rfl
      | [mark] => simp [exponentMarks, first?, nth?]
      | mark :: c :: rest => exact absurd rfl (other mark c rest)
    simp [exponent, marks]

theorem decimal_eq (cursor : Cursor) :
    cursor.decimal = ((NumberLiteral.decimal cursor.rest).1,
      cursor.skip (NumberLiteral.decimal cursor.rest).2) := by
  simp only [decimal, NumberLiteral.decimal, eatWhile_eq, fraction_eq, exponent_eq, skip_skip,
    rest_skip, List.drop_drop, Nat.add_assoc]
  rfl

theorem isPlain_of_base? {mark : Char} {base : Nat} (found : base? mark = some base) :
    Text.isPlain mark := by
  have marked : mark ∈ ['x', 'X', 'o', 'O', 'b', 'B'] := by
    simp only [base?] at found
    grind
  exact List.all_eq_true.mp (by decide) mark marked

theorem skipAscii_base {mark : Char} {base : Nat} (found : base? mark = some base)
    (rest : List Char) (position : Position) :
    skipAscii ['0', 'x'] ⟨'0' :: mark :: rest, position⟩ =
      skip ⟨'0' :: mark :: rest, position⟩ 2 := by
  have plain := isPlain_of_base? found
  have bytes : Text.byteCount ['0', 'x'] = Text.byteCount ['0', mark] := by
    simp only [Text.isPlain, Bool.and_eq_true, beq_iff_eq] at plain
    simp [Text.byteCount, plain.1]
    decide
  have same : skipAscii ['0', 'x'] ⟨'0' :: mark :: rest, position⟩ =
      skipAscii ['0', mark] ⟨'0' :: mark :: rest, position⟩ := by
    rw [skipAscii, bytes, skipAscii]
  rw [same]
  exact skipAscii_eq_skip ⟨rest, rfl⟩ (by simp [plain]; decide)

theorem number_eq (cursor : Cursor) :
    cursor.number = ((NumberLiteral.read cursor.rest).1,
      cursor.skip (NumberLiteral.read cursor.rest).2) := by
  obtain ⟨text, position⟩ := cursor
  dsimp only
  fun_cases NumberLiteral.read text with
  | case1 mark rest base found digits =>
    have based : number ⟨'0' :: mark :: rest, position⟩ =
        (inBase base ((skip ⟨'0' :: mark :: rest, position⟩ 2).eatWhile (isSeparated base)).1,
          ((skip ⟨'0' :: mark :: rest, position⟩ 2).eatWhile (isSeparated base)).2) := by
      simp [number, first?, nth?, found, skipAscii_base found]
    rw [based, eatWhile_eq, skip_skip]
    rfl
  | case2 mark rest found =>
    rw [← decimal_eq ⟨'0' :: mark :: rest, position⟩]
    simp [number, first?, nth?, found]
  | case3 _ other =>
    rw [← decimal_eq ⟨text, position⟩]
    match text with
    | [] => rfl
    | [c] => simp [number, first?, nth?]
    | c :: mark :: rest =>
      have zero : c ≠ '0' := fun zero => other mark rest (by rw [zero])
      simp [number, first?, zero]

end Cursor

namespace NumberLiteral

theorem decimal_pos {c : Char} {more : List Char}
    (starts : Number.isDigit c || (c == '.' && more.head?.any Number.isDigit)) :
    0 < (decimal (c :: more)).2 := by
  simp only [decimal]
  by_cases digit : Number.isDigit c
  next =>
    rw [List.takeWhile_cons_of_pos (Cursor.isSeparated_of_isDigit digit), List.length_cons]
    omega
  next =>
    rw [Bool.or_eq_true, Bool.and_eq_true, beq_iff_eq, Option.any_eq_true] at starts
    obtain ⟨rfl, d, first, second⟩ := starts.resolve_left digit
    obtain ⟨rest, rfl⟩ := List.head?_eq_some_iff.mp first
    have point : fraction ('.' :: d :: rest) = d :: rest.takeWhile (isSeparated 10) := by
      rw [fraction, if_pos second]
    rw [List.takeWhile_cons_of_neg (by decide), List.length_nil, List.drop_zero, point,
      List.length_cons]
    simp only [List.isEmpty_cons, Bool.false_eq_true, if_false]
    omega

theorem read_pos {c : Char} {more : List Char}
    (starts : Number.isDigit c || (c == '.' && more.head?.any Number.isDigit)) :
    0 < (read (c :: more)).2 := by
  have plain := decimal_pos starts
  unfold read
  split
  next mark rest same =>
    rw [same] at plain
    split
    next => exact Nat.lt_of_lt_of_le Nat.zero_lt_two (Nat.le_add_right ..)
    next => exact plain
  next => exact plain

end NumberLiteral

end EventLoop
