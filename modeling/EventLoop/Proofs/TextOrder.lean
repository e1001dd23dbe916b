import EventLoop.Value.Operations
import Mathlib.Data.List.Lex

set_option autoImplicit false

/-!
# The order of texts

Texts are equal when their characters are, and they are ordered by their UTF-16 code units.
-/

namespace EventLoop

namespace Text

def isHigh (unit : Nat) : Bool := 0xD800 ≤ unit && unit < 0xDC00

def pairCode (high low : Nat) : Nat := 0x10000 + (high - 0xD800) * 0x400 + (low - 0xDC00)

def ofUnits : List Nat → List Char
  | [] => []
  | [unit] => [Char.ofNat unit]
  | high :: low :: rest =>
      if isHigh high then Char.ofNat (pairCode high low) :: ofUnits rest
      else Char.ofNat high :: ofUnits (low :: rest)

theorem toNat_bounds (c : Char) : (c.toNat < 0xD800 ∨ 0xDFFF < c.toNat) ∧ c.toNat < 0x110000 := by
  have valid : c.toNat < 0xD800 ∨ 0xDFFF < c.toNat ∧ c.toNat < 0x110000 := c.valid
  omega

theorem ofUnits_single {unit : Nat} (whole : isHigh unit = false) (rest : List Nat) :
    ofUnits (unit :: rest) = Char.ofNat unit :: ofUnits rest := by
  cases rest with
  | nil => rfl
  | cons next rest => rw [ofUnits, if_neg (by simp [whole])]

theorem ofUnits_pair {high : Nat} (first : isHigh high) (low : Nat) (rest : List Nat) :
    ofUnits (high :: low :: rest) = Char.ofNat (pairCode high low) :: ofUnits rest := by
  rw [ofUnits, if_pos first]

theorem ofUnits_append (c : Char) (rest : List Nat) :
    ofUnits (unitsOf c ++ rest) = c :: ofUnits rest := by
  have bounds := toNat_bounds c
  unfold unitsOf
  split
  next plane =>
    have whole : isHigh c.toNat = false := by
      simp only [isHigh, Bool.and_eq_false_iff, decide_eq_false_iff_not]
      omega
    rw [List.singleton_append, ofUnits_single whole, Char.ofNat_toNat]
  next above =>
    have first : isHigh (0xD800 + (c.toNat - 0x10000) / 0x400) := by
      simp only [isHigh, Bool.and_eq_true, decide_eq_true_eq]
      omega
    have code : pairCode (0xD800 + (c.toNat - 0x10000) / 0x400)
        (0xDC00 + (c.toNat - 0x10000) % 0x400) = c.toNat := by
      unfold pairCode
      omega
    rw [List.cons_append, List.singleton_append, ofUnits_pair first, code, Char.ofNat_toNat]

theorem ofUnits_flatMap (chars : List Char) : ofUnits (chars.flatMap unitsOf) = chars := by
  induction chars with
  | nil => rfl
  | cons c chars ih => rw [List.flatMap_cons, ofUnits_append, ih]

theorem units_injective : Function.Injective units := by
  intro left right same
  have read := congrArg ofUnits same
  rw [units, units, ofUnits_flatMap, ofUnits_flatMap] at read
  exact String.toList_injective read

theorem unitsBefore_iff (left right : String) :
    unitsBefore left right ↔ units left < units right := by
  simp [unitsBefore]

theorem before_or_eq_or_after (left right : String) :
    unitsBefore left right ∨ left = right ∨ unitsBefore right left := by
  rw [unitsBefore_iff, unitsBefore_iff]
  obtain before | same | after := lt_trichotomy (units left) (units right)
  next => exact .inl before
  next => exact .inr (.inl (units_injective same))
  next => exact .inr (.inr after)

theorem unitsBefore_asymm {left right : String} (before : unitsBefore left right) :
    unitsBefore right left = false := by
  rw [unitsBefore_iff] at before
  rw [← Bool.not_eq_true, unitsBefore_iff]
  exact lt_asymm before

theorem unitsBefore_irrefl (text : String) : unitsBefore text text = false := by
  rw [← Bool.not_eq_true, unitsBefore_iff]
  exact lt_irrefl _

theorem ne_of_unitsBefore {left right : String} (before : unitsBefore left right) :
    left ≠ right := by
  rintro rfl
  rw [unitsBefore_irrefl] at before
  cases before

theorem unitsBefore_trans {first second third : String} (before : unitsBefore first second)
    (later : unitsBefore second third) : unitsBefore first third := by
  rw [unitsBefore_iff] at before later ⊢
  exact before.trans later

theorem unitsBefore_of_pair {single pair : Char} (low : 0xE000 ≤ single.toNat)
    (high : single.toNat ≤ 0xFFFF) (above : 0xFFFF < pair.toNat) :
    unitsBefore (String.singleton pair) (String.singleton single) := by
  have bounds := toNat_bounds pair
  have single_units : units (String.singleton single) = [single.toNat] := by
    simp only [units, String.toList_singleton, List.flatMap_singleton, unitsOf]
    rw [if_pos (by omega)]
  have pair_units : units (String.singleton pair) =
      [0xD800 + (pair.toNat - 0x10000) / 0x400, 0xDC00 + (pair.toNat - 0x10000) % 0x400] := by
    simp only [units, String.toList_singleton, List.flatMap_singleton, unitsOf]
    rw [if_neg (by omega)]
  rw [unitsBefore_iff, single_units, pair_units]
  apply List.Lex.rel
  omega

end Text

namespace BinaryOp

def Holds (op : BinaryOp) (left right : String) : Prop :=
  op.result? (.string left) (.string right) = some (.boolean true)

theorem less_holds_iff (left right : String) :
    less.Holds left right ↔ Text.unitsBefore left right := by
  simp [Holds, result?, Value.less]

/-- Texts are in a linear order, that of their code units, of which the operators are readings. -/
theorem orders_texts (a b c : String) :
    (∃ before same after : Bool,
      less.result? (.string a) (.string b) = some (.boolean before) ∧
      strictEqual.result? (.string a) (.string b) = some (.boolean same) ∧
      greater.result? (.string a) (.string b) = some (.boolean after) ∧
      [before, same, after].count true = 1 ∧
      lessEqual.result? (.string a) (.string b) = some (.boolean !after) ∧
      greaterEqual.result? (.string a) (.string b) = some (.boolean !before)) ∧
    (strictEqual.Holds a b ↔ a = b) ∧
    (less.Holds a b → less.Holds b c → less.Holds a c) ∧
    (less.Holds a b ↔ List.Lex (· < ·) (Text.units a) (Text.units b)) ∧
    ∀ single pair : Char, 0xE000 ≤ single.toNat → single.toNat ≤ 0xFFFF → 0xFFFF < pair.toNat →
      less.Holds (String.singleton pair) (String.singleton single) := by
  refine ⟨⟨_, _, _, rfl, rfl, rfl, ?_, rfl, rfl⟩, ?_, ?_, ?_, ?_⟩
  next =>
    dsimp only [Value.less, Value.strictEquals]
    obtain before | rfl | after := Text.before_or_eq_or_after a b
    next =>
      have apart := Text.ne_of_unitsBefore before
      simp [before, Text.unitsBefore_asymm before, apart]
    next => simp [Text.unitsBefore_irrefl]
    next =>
      have apart := (Text.ne_of_unitsBefore after).symm
      simp [after, Text.unitsBefore_asymm after, apart]
  next => simp [Holds, result?, Value.strictEquals]
  next =>
    rw [less_holds_iff, less_holds_iff, less_holds_iff]
    exact Text.unitsBefore_trans
  next =>
    rw [less_holds_iff, Text.unitsBefore_iff]
    exact Iff.rfl
  next =>
    intro single pair low high above
    rw [less_holds_iff]
    exact Text.unitsBefore_of_pair low high above

theorem orders_pair_first :
    less.Holds "😀" "\ue000" ∧ less.Holds "" "a" ∧ less.Holds "a" "ab" ∧ less.Holds "" "ab" := by
  have empty : less.Holds "" "a" := (less_holds_iff ..).mpr (by decide)
  have longer : less.Holds "a" "ab" := (less_holds_iff ..).mpr (by decide)
  obtain ⟨-, -, trans, -, pairs⟩ := orders_texts "" "a" "ab"
  exact ⟨pairs '\ue000' '😀' (by decide) (by decide) (by decide), empty, longer, trans empty longer⟩

end BinaryOp

end EventLoop
