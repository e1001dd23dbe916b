import EventLoop.Evaluation.Expr
import EventLoop.Proofs.Doubles

set_option autoImplicit false

/-!
# Texts without digits as numbers

A text without a decimal digit counts as zero if it is blank, as an infinity if it is one of two
words for it, and in all other cases as NaN.
-/

namespace EventLoop

theorem Text.mem_of_mem_trim {c : Char} {text : List Char} (member : c ∈ trim text) : c ∈ text := by
  rw [trim, List.mem_reverse] at member
  have inner := (List.dropWhile_suffix _).subset member
  rw [List.mem_reverse] at inner
  exact (List.dropWhile_suffix _).subset inner

namespace Number

def Digitless (text : List Char) : Prop := ∀ c ∈ text, c.isDigit = false

def infinityWords : List (List Char) := ["inf".toList, "infinity".toList]

def SpellsInfinity (text : List Char) : Prop :=
  ∃ sign ∈ [[], ['+'], ['-']], ∃ word ∈ infinityWords, text.map Char.toLower = sign ++ word

instance (text : List Char) : Decidable (SpellsInfinity text) :=
  inferInstanceAs (Decidable (∃ sign ∈ _, ∃ word ∈ _, _))

theorem isDigit_eq_false {c : Char} (other : c.isDigit = false) : isDigit c = false := by
  have outside : ¬('0' ≤ c ∧ c ≤ '9') := by
    rintro ⟨low, high⟩
    rw [Char.isDigit, Bool.and_eq_false_iff, decide_eq_false_iff_not,
      decide_eq_false_iff_not] at other
    exact other.elim (· low) (· high)
  rw [isDigit, Text.isDigitOf, Text.digitValue?, if_neg outside]
  split_ifs <;> simp_all

theorem takeWhile_isDigit {text : List Char} (digitless : Digitless text) :
    text.takeWhile isDigit = [] := by
  cases text with
  | nil => rfl
  | cons c text => rw [List.takeWhile_cons, isDigit_eq_false (digitless c (.head _))]; rfl

theorem dropWhile_isDigit {text : List Char} (digitless : Digitless text) :
    text.dropWhile isDigit = text := by
  cases text with
  | nil => rfl
  | cons c text => rw [List.dropWhile_cons, isDigit_eq_false (digitless c (.head _))]; rfl

theorem readNumeral?_eq_none {text : List Char} (digitless : Digitless text) :
    readNumeral? text = none := by
  unfold readNumeral?
  rw [takeWhile_isDigit digitless, dropWhile_isDigit digitless]
  cases text with
  | nil => rfl
  | cons c rest =>
    by_cases point : c = '.'
    next =>
      subst point
      have later : Digitless rest := fun d member => digitless d (.tail _ member)
      simp [takeWhile_isDigit later]
    next => simp [point]

theorem readUnsigned?_of_word {text : List Char} (word : text.map Char.toLower ∈ infinityWords) :
    readUnsigned? text = some infinity := by
  simp only [infinityWords, List.mem_cons, List.not_mem_nil, or_false] at word
  unfold readUnsigned?
  obtain short | long := word
  next => rw [short]; rfl
  next => rw [long]; rfl

theorem readUnsigned?_of_digitless {text : List Char} (digitless : Digitless text)
    (other : text.map Char.toLower ∉ infinityWords) :
    readUnsigned? text = none ∨ readUnsigned? text = some notANumber := by
  unfold readUnsigned?
  split
  next short => exact absurd (by simp [infinityWords, ← short]) other
  next long => exact absurd (by simp [infinityWords, ← long]) other
  next => exact .inr rfl
  next => exact .inl (by rw [readNumeral?_eq_none digitless]; rfl)

theorem eq_of_toLower_eq {c sign : Char} (signed : sign = '+' ∨ sign = '-')
    (lower : c.toLower = sign) : c = sign := by
  unfold Char.toLower at lower
  split at lower
  next upper =>
    have moved := congrArg Char.toNat lower
    have high : 65 ≤ c.toNat := upper.1
    have low : c.toNat ≤ 90 := upper.2
    obtain rfl | rfl := signed
    next => simp at moved; omega
    next => simp at moved; omega
  next => exact lower

theorem spellsInfinity_signed {sign : Char} (signed : sign = '+' ∨ sign = '-') (text : List Char) :
    SpellsInfinity (sign :: text) ↔ text.map Char.toLower ∈ infinityWords := by
  obtain rfl | rfl := signed <;> simp [SpellsInfinity, infinityWords]

theorem spellsInfinity_unsigned {text : List Char}
    (unsigned : ∀ sign rest, sign = '+' ∨ sign = '-' → text ≠ sign :: rest) :
    SpellsInfinity text ↔ text.map Char.toLower ∈ infinityWords := by
  have apart {sign : Char} (signed : sign = '+' ∨ sign = '-') (word : List Char) :
      text.map Char.toLower ≠ [sign] ++ word := by
    intro spelled
    obtain ⟨c, rest, rfl, lower, -⟩ := List.map_eq_cons_iff.mp spelled
    exact unsigned sign rest signed (by rw [eq_of_toLower_eq signed lower])
  constructor
  next =>
    rintro ⟨sign, member, word, found, spelled⟩
    simp only [List.mem_cons, List.not_mem_nil, or_false] at member
    obtain rfl | rfl | rfl := member
    next => rwa [spelled]
    next => exact absurd spelled (apart (.inl rfl) word)
    next => exact absurd spelled (apart (.inr rfl) word)
  next => exact fun found => ⟨[], by simp, _, found, rfl⟩

theorem exists_word (text : List Char) :
    ∃ word ⊆ text, (SpellsInfinity text ↔ word.map Char.toLower ∈ infinityWords) ∧
      readSigned? text =
        if text.head? = some '-' then (readUnsigned? word).map Float.neg else readUnsigned?
          word := by
  unfold readSigned?
  split
  next word =>
    exact ⟨word, List.subset_cons_self .., spellsInfinity_signed (.inl rfl) word, rfl⟩
  next word =>
    exact ⟨word, List.subset_cons_self .., spellsInfinity_signed (.inr rfl) word, rfl⟩
  next plus minus =>
    refine ⟨text, List.Subset.refl _, spellsInfinity_unsigned ?_, (if_neg ?_).symm⟩
    next =>
      rintro sign rest (rfl | rfl) rfl
      next => exact plus rest rfl
      next => exact minus rest rfl
    next =>
      intro negative
      obtain ⟨rest, rfl⟩ := List.head?_eq_some_iff.mp negative
      exact minus rest rfl

theorem readSigned?_of_spellsInfinity {text : List Char} (spells : SpellsInfinity text) :
    readSigned? text = some (if text.head? = some '-' then -infinity else infinity) := by
  obtain ⟨word, -, spelled, read⟩ := exists_word text
  rw [read, readUnsigned?_of_word (spelled.mp spells)]
  split <;> rfl

theorem readSigned?_of_digitless {text : List Char} (digitless : Digitless text)
    (other : ¬SpellsInfinity text) : (readSigned? text).getD notANumber = notANumber := by
  obtain ⟨word, inside, spelled, read⟩ := exists_word text
  have plain : Digitless word := fun c member => digitless c (inside member)
  rw [read]
  obtain nothing | nan := readUnsigned?_of_digitless plain (fun found => other (spelled.mpr found))
  next => rw [nothing]; split <;> rfl
  next => rw [nan]; split <;> rfl

end Number

namespace Value

open Number (Digitless SpellsInfinity infinity notANumber)

variable {text : String}

theorem numberOfText_eq (some : Text.trim text.toList ≠ []) :
    numberOfText text = (Number.readSigned? (Text.trim text.toList)).getD notANumber := by
  unfold numberOfText
  split
  next blank => exact absurd blank some
  next => rfl

theorem toNumber_of_spellsInfinity (spells : SpellsInfinity (Text.trim text.toList)) :
    (string text).toNumber =
      if (Text.trim text.toList).head? = some '-' then -infinity else infinity := by
  have some : Text.trim text.toList ≠ [] := by
    intro blank
    rw [blank] at spells
    exact absurd spells (by decide)
  rw [toNumber, numberOfText_eq some, Number.readSigned?_of_spellsInfinity spells, Option.getD_some]

theorem toNumber_of_digitless (digitless : Digitless text.toList)
    (some : Text.trim text.toList ≠ []) (other : ¬SpellsInfinity (Text.trim text.toList)) :
    (string text).toNumber = notANumber := by
  have inside : Digitless (Text.trim text.toList) :=
    fun c member => digitless c (Text.mem_of_mem_trim member)
  rw [toNumber, numberOfText_eq some, Number.readSigned?_of_digitless inside other]

end Value

namespace Number

open Float.Model Float.Model.UnpackedFloat

theorem unpack_notANumber : notANumber.toModel.unpack = .notANumber := rfl

theorem compare_left_notANumber (x : UnpackedFloat) :
    UnpackedFloat.compare .notANumber x = none := by
  cases x <;> rfl

theorem compare_right_notANumber (x : UnpackedFloat) :
    UnpackedFloat.compare x .notANumber = none := by
  cases x <;> rfl

theorem notANumber_apart (x : Float) :
    (¬notANumber < x ∧ ¬notANumber ≤ x) ∧ ¬x < notANumber ∧ ¬x ≤ notANumber := by
  simp [lt_iff_compare, le_iff_compare, unpack_notANumber, compare_left_notANumber,
    compare_right_notANumber]

end Number

def BinaryOp.relational : List BinaryOp := [.less, .lessEqual, .greater, .greaterEqual]

namespace Value

open Number (SpellsInfinity infinity notANumber)

theorem relational_of_notANumber {text : String} (nan : (string text).toNumber = notANumber)
    {op : BinaryOp} (relational : op ∈ BinaryOp.relational) (x : Float) :
    op.result? (.string text) (.number x) = some (.boolean false) ∧
      op.result? (.number x) (.string text) = some (.boolean false) := by
  have apart := Number.notANumber_apart x
  have number : (number x).toNumber = x := rfl
  simp only [BinaryOp.relational, List.mem_cons, List.not_mem_nil, or_false] at relational
  obtain rfl | rfl | rfl | rfl := relational <;>
    simp [BinaryOp.result?, Value.less, Value.lessEqual, nan, number, apart]

/-- A text without a digit that is not blank is NaN, and so in no order with any number, unless it
is a word for infinity. It never delays a timer. -/
theorem digitless_as_number {text : String} (digitless : ∀ c ∈ text.toList, c.isDigit = false)
    (visible : Text.trim text.toList ≠ []) :
    ((string text).toNumber.isNaN ↔ ¬SpellsInfinity (Text.trim text.toList)) ∧
    (SpellsInfinity (Text.trim text.toList) → (string text).toNumber =
      if (Text.trim text.toList).head? = some '-' then -infinity else infinity) ∧
    (¬SpellsInfinity (Text.trim text.toList) →
      UnaryOp.plus.apply (.string text) = .number notANumber ∧
      ∀ op ∈ BinaryOp.relational, ∀ x : Float,
        op.result? (.string text) (.number x) = some (.boolean false) ∧
        op.result? (.number x) (.string text) = some (.boolean false)) ∧
    (∀ callback span more place argument,
      Timers.delayFor (some ⟨callback :: .literal (.string text) span :: more, place⟩) argument =
        0) ∧
    Timers.delayFor none (some (.string text)) = 0 := by
  by_cases spells : SpellsInfinity (Text.trim text.toList)
  next =>
    have number := toNumber_of_spellsInfinity spells
    have delay : normalDelay (string text).toNumber = 0 := by
      rw [number]
      split <;> rfl
    refine ⟨?_, fun _ => number, fun other => absurd spells other, ?_, delay⟩
    next =>
      rw [number]
      simp only [spells, not_true_eq_false, iff_false]
      split <;> decide
    next =>
      rintro callback span more place argument
      exact delay
  next =>
    have number := toNumber_of_digitless digitless visible spells
    have delay : normalDelay (string text).toNumber = 0 := by
      rw [number]
      rfl
    refine ⟨?_, fun other => absurd other spells, fun _ => ⟨?_, ?_⟩, ?_, delay⟩
    next =>
      rw [number]
      simp only [spells, not_false_eq_true, iff_true]
      rfl
    next => rw [UnaryOp.apply, number]
    next => exact fun op relational => relational_of_notANumber number relational
    next =>
      rintro callback span more place argument
      exact delay

theorem word_as_number :
    (string " Nan\n").toNumber.isNaN ∧
      BinaryOp.less.result? (.string " Nan\n") (.number 1) = some (.boolean false) ∧
      Timers.delayFor none (some (.string " Nan\n")) = 0 := by
  have digitless : ∀ c ∈ " Nan\n".toList, c.isDigit = false := by simp [Char.isDigit]
  have visible : Text.trim " Nan\n".toList ≠ [] := by decide
  have other : ¬SpellsInfinity (Text.trim " Nan\n".toList) := by decide
  obtain ⟨nan, -, acts, -, delay⟩ := digitless_as_number digitless visible
  exact ⟨nan.mpr other, ((acts other).2 .less (by decide) 1).1, delay⟩

theorem lowercase_as_infinity :
    (∀ c ∈ "inf".toList, c.isDigit = false) ∧
      Text.trim "inf".toList ∉ ["Infinity".toList, "+Infinity".toList, "-Infinity".toList, []] ∧
      (string "inf").toNumber = infinity ∧ (string "inf").toNumber.isNaN = false ∧
      UnaryOp.plus.apply (.string "inf") = .number infinity ∧
      BinaryOp.greater.result? (.string "inf") (.number 1) = some (.boolean true) := by
  have number : (string "inf").toNumber = infinity := toNumber_of_spellsInfinity (by decide)
  refine ⟨by simp [Char.isDigit], by decide, number, ?_, ?_, ?_⟩
  next => rw [number]; rfl
  next => rw [UnaryOp.apply, number]
  next =>
    have one : (Value.number 1).toNumber = 1 := rfl
    have less : (1 : Float) < infinity := by decide
    simp [BinaryOp.result?, Value.less, number, one, less]

end Value

end EventLoop
