import EventLoop.Proofs.Spellings
import Mathlib.Data.Nat.Digits.Defs

set_option autoImplicit false

/-!
# String literals and what they hold

A character can be spelled in several ways between the quotes of a string literal, and line
continuations may stand between the characters.
-/

namespace EventLoop

open Text (isLineTerminator isWordStart digitValue? digitsValue)

namespace StringLiteral

def hexDigits : List (Char × Nat) :=
  "0123456789abcdef".toList.zipIdx ++ "0123456789ABCDEF".toList.zipIdx

/-- The digits spell the number in base sixteen, its highest digit first. -/
def Spells (digits : List Char) (number : Nat) : Prop :=
  ∃ values, List.Forall₂ (fun digit value => (digit, value) ∈ hexDigits) digits values ∧
    Nat.ofDigits 16 values.reverse = number

def namedEscapes : List (Char × Char) :=
  [('n', '\n'), ('r', '\r'), ('t', '\t'), ('b', '\x08'), ('f', '\x0c'), ('v', '\x0b'),
    ('0', '\x00')]

def escapeLetters : List Char := ['n', 'r', 't', 'b', 'f', 'v', '0', 'x', 'u']

def lineEnds : List Char := ['\n', '\u2028', '\u2029']

/-- One way to write a character between quotes. -/
inductive Writes (quote c : Char) : List Char → Prop where
  | raw (unquoted : c ≠ quote) (plain : c ≠ '\\') (inside : c ∉ lineEnds) : Writes quote c [c]
  | twoDigits {digits : List Char} (count : digits.length = 2) (spells : Spells digits c.toNat) :
      Writes quote c ('\\' :: 'x' :: digits)
  | fourDigits {digits : List Char} (count : digits.length = 4) (spells : Spells digits c.toNat) :
      Writes quote c ('\\' :: 'u' :: digits)
  | braced {digits : List Char} (some : digits ≠ []) (spells : Spells digits c.toNat) :
      Writes quote c ('\\' :: 'u' :: '\x7b' :: (digits ++ ['\x7d']))
  | named {letter : Char} (found : (letter, c) ∈ namedEscapes) : Writes quote c ['\\', letter]
  | itself (unnamed : c ∉ escapeLetters) (inside : c ∉ lineEnds) :
      Writes quote c ['\\', c]

inductive Written (quote : Char) : List Char → List Char → Prop where
  | nothing : Written quote [] []
  | continued {c : Char} {value text : List Char} (ends : c ∈ lineEnds)
      (later : Written quote value text) : Written quote value ('\\' :: c :: text)
  | character {c : Char} {value spelling text : List Char} (writes : Writes quote c spelling)
      (later : Written quote value text) : Written quote (c :: value) (spelling ++ text)

theorem digitValue?_of_mem_hexDigits :
    ∀ digit ∈ hexDigits, digitValue? 16 digit.1 = some digit.2 := by decide

theorem isHexDigit_of_mem_hexDigits {digit : Char} {value : Nat}
    (found : (digit, value) ∈ hexDigits) :
    isHexDigit digit := by
  rw [isHexDigit, Text.isDigitOf, digitValue?_of_mem_hexDigits _ found]
  rfl

theorem Spells.isHexDigit {digits : List Char} {number : Nat} (spells : Spells digits number) :
    ∀ digit ∈ digits, isHexDigit digit := by
  obtain ⟨values, paired, -⟩ := spells
  induction paired with
  | nil => simp
  | cons found _ ih => exact List.forall_mem_cons.mpr ⟨isHexDigit_of_mem_hexDigits found, ih⟩

theorem Spells.digitsValue_eq {digits : List Char} {number : Nat} (spells : Spells digits number) :
    digitsValue 16 digits = number := by
  obtain ⟨values, paired, rfl⟩ := spells
  -- The reader goes from the highest digit down and carries the value of those it has passed.
  let read (value : Nat) (digit : Char) : Nat := (digitValue? 16 digit).elim value (16 * value + ·)
  have carried (passed : Nat) : digits.foldl read passed =
        Nat.ofDigits 16 values.reverse + 16 ^ values.length * passed := by
    induction paired generalizing passed with
    | nil => simp
    | @cons digit value digits values found _ ih =>
      have step : read passed digit = 16 * passed + value := by
        simp only [read, digitValue?_of_mem_hexDigits _ found, Option.elim_some]
      rw [List.foldl_cons, step, ih, Nat.ofDigits_reverse_cons, List.length_cons, pow_succ]
      ring
  exact (carried 0).trans (by simp)

theorem scalar?_toNat (c : Char) : scalar? c.toNat = some c := by
  have valid : c.toNat.isValidChar := c.valid
  rw [scalar?, if_pos valid, Char.ofNat_toNat]

theorem hexEscape_of_spells {digits : List Char} {c : Char} (spells : Spells digits c.toNat)
    (rest : List Char) : hexEscape digits.length (digits ++ rest) = (some c, digits.length) := by
  have all : digits.all isHexDigit := List.all_eq_true.mpr spells.isHexDigit
  simp [hexEscape, all, spells.digitsValue_eq, scalar?_toNat]

theorem bracedEscape_of_spells {digits : List Char} {c : Char} (some : digits ≠ [])
    (spells : Spells digits c.toNat) (rest : List Char) :
    bracedEscape (digits ++ '\x7d' :: rest) = (Option.some c, digits.length + 1) := by
  rw [bracedEscape_of_stop spells.isHexDigit rfl, spells.digitsValue_eq, scalar?_toNat]
  simp [some]

theorem isLineTerminator_iff (c : Char) : isLineTerminator c ↔ c ∈ lineEnds := by
  simp [isLineTerminator, lineEnds, or_assoc]

theorem escape_of_named {letter c : Char} (found : (letter, c) ∈ namedEscapes) (rest : List Char) :
    escape letter rest = (some c, 0) := by
  simp only [namedEscapes, List.mem_cons, Prod.mk.injEq, List.not_mem_nil, or_false] at found
  rcases found with ⟨rfl, rfl⟩ | ⟨rfl, rfl⟩ | ⟨rfl, rfl⟩ | ⟨rfl, rfl⟩ | ⟨rfl, rfl⟩ | ⟨rfl, rfl⟩ |
    ⟨rfl, rfl⟩
  all_goals rfl

theorem escape_of_unnamed {c : Char} (unnamed : c ∉ escapeLetters)
    (rest : List Char) : escape c rest = (if isLineTerminator c then none else some c, 0) := by
  unfold escape
  split
  case h_10 => rfl
  all_goals exact absurd (by decide) unnamed

theorem Writes.readFrom_append {quote c : Char} {spelling : List Char}
    (writes : Writes quote c spelling) (quoted : quote ≠ '\\') (value : List Char) (count : Nat)
    (rest : List Char) :
    readFrom quote value count (spelling ++ rest) =
      readFrom quote (c :: value) (count + spelling.length) rest := by
  have escaped {e : Char} {own : List Char}
    (found : escape e (own ++ rest) = (some c, own.length)) :
      readFrom quote value count ('\\' :: e :: own ++ rest) =
        readFrom quote (c :: value) (count + ('\\' :: e :: own).length) rest := by
    rw [List.cons_append, List.cons_append, readFrom_escape quoted found, List.drop_left]
    congr 1
    simp
    omega
  cases writes with
  | raw unquoted plain inside =>
    rw [← isLineTerminator_iff, Bool.not_eq_true] at inside
    exact readFrom_plain unquoted plain inside rest
  | @twoDigits digits length spells =>
    apply escaped
    have found := hexEscape_of_spells spells rest
    rwa [length] at found ⊢
  | @fourDigits digits length spells =>
    apply escaped
    -- A brace after the letter would start the other form, but a digit is none.
    obtain ⟨first, more, rfl⟩ := List.exists_cons_of_length_eq_add_one length
    have unbraced : first ≠ '\x7b' := by
      rintro rfl
      exact absurd (spells.isHexDigit _ (.head more)) (by decide)
    have found := hexEscape_of_spells spells rest
    rw [length] at found ⊢
    exact (escape_unbraced unbraced (more ++ rest)).trans found
  | @braced digits some spells =>
    apply escaped
    have found := bracedEscape_of_spells some spells rest
    rw [List.cons_append, List.append_assoc, List.singleton_append, escape_braced, found]
    simp
  | named found => exact escaped (escape_of_named found rest)
  | itself unnamed inside =>
    rw [← isLineTerminator_iff] at inside
    have found := escape_of_unnamed unnamed rest
    rw [if_neg inside] at found
    exact escaped found

theorem Written.readFrom_append {quote : Char} {value text : List Char}
    (written : Written quote value text) (quoted : quote ≠ '\\') (before : List Char) (count : Nat)
    (after : List Char) :
    readFrom quote before count (text ++ quote :: after) =
      (.string (String.ofList (before.reverse ++ value)), count + text.length + 1) := by
  induction written generalizing before count with
  | nothing => rw [List.nil_append, readFrom_quote, List.append_nil]; rfl
  | @continued c value text ends later ih =>
    have unnamed : c ∉ escapeLetters := by
      simp only [lineEnds, List.mem_cons, List.not_mem_nil, or_false] at ends
      rcases ends with rfl | rfl | rfl <;> decide
    have escaped := escape_of_unnamed unnamed (text ++ quote :: after)
    rw [if_pos ((isLineTerminator_iff c).mpr ends)] at escaped
    rw [List.cons_append, List.cons_append, readFrom_escape quoted escaped, List.drop_zero, ih]
    simp
    omega
  | @character c value spelling text writes later ih =>
    rw [List.append_assoc, writes.readFrom_append quoted, ih]
    simp
    omega

/-- A string literal is one token, which holds the characters that are written in it. -/
theorem tokens_of_written {quote : Char} (quoted : quote = single ∨ quote = double)
    {value text : List Char} (written : Written quote value text) :
    let source := quote :: (text ++ [quote])
    let last := Position.origin.advance source
    tokens (String.ofList source) =
      [⟨.string (String.ofList value), ⟨0, (String.ofList source).utf8ByteSize, 1, 1⟩, false,
        source⟩,
        ⟨.endOfInput, .between last last.offset, false, []⟩] := by
  have backslash : quote ≠ '\\' := by rcases quoted with rfl | rfl <;> decide
  have stop : Trivia.starts (quote :: (text ++ [quote])) = false := by
    rw [Trivia.starts_cons]
    rcases quoted with rfl | rfl <;> rfl
  have word : isWordStart quote = false := by
    rcases quoted with rfl | rfl <;> decide
  have number : startsNumber quote (text ++ [quote]) = false := by
    rcases quoted with rfl | rfl <;> exact TokenKind.startsNumber_eq_false (by decide) (by decide) _
  apply tokens_ofList stop
  rw [TokenKind.read_string word number quoted, written.readFrom_append backslash]
  simp

theorem tokens_of_mixed_spellings :
    tokens "'\\x41\\u\x7b01F600\x7d\\\n\\n\\'\\u00e9z'" =
      [⟨.string "A😀\n'éz", ⟨0, 29, 1, 1⟩, false,
        "'\\x41\\u\x7b01F600\x7d\\\n\\n\\'\\u00e9z'".toList⟩,
        ⟨.endOfInput, ⟨29, 29, 2, 13⟩, false, []⟩] := by
  have letter : Spells ['4', '1'] 'A'.toNat := ⟨[4, 1], by simp; decide, rfl⟩
  have face : Spells ['0', '1', 'F', '6', '0', '0'] '😀'.toNat :=
    ⟨[0, 1, 15, 6, 0, 0], by simp; decide, rfl⟩
  have accented : Spells ['0', '0', 'e', '9'] 'é'.toNat := ⟨[0, 0, 14, 9], by simp; decide, rfl⟩
  have ending : Written single ['é', 'z'] ('\\' :: 'u' :: ['0', '0', 'e', '9'] ++ (['z'] ++ [])) :=
    .character (.fourDigits rfl accented) <|
      .character (.raw (by decide) (by decide) (by decide)) .nothing
  have written := Written.character (.twoDigits rfl letter) <|
    .character (.braced (by decide) face) <| .continued (.head _) <|
      .character (.named (.head _)) <| .character (.itself (c := single) (by decide) (by decide))
        ending
  have read := tokens_of_written (.inl rfl) written
  exact read

end StringLiteral

end EventLoop
