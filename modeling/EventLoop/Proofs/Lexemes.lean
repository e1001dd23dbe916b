import EventLoop.Proofs.Tiling

set_option autoImplicit false

/-!
# Tokens depend on their own text

Each scanner looks past the end of its token to find that end. What it finds there decides where the
token ends and nothing else: with a blank in its place the token is the same.
-/

namespace EventLoop

open Text (isBlank isLineTerminator isWordPart isWordStart)

-- What may stand after a token in place of what stood there: a blank, or nothing at all. At the end
-- of the input it must be nothing.
structure Separates (tail after : List Char) : Prop where
  apart : after = [] ∨ ∃ rest, after = ' ' :: rest
  atEnd : tail = [] → after = []

-- The scanner takes a part of the text as its own, and reads that part in the same way when it is
-- separated from the rest.
def Contained {α : Type} (scan : List Char → α × Nat) (text : List Char) : Prop :=
  ∃ own tail, text = own ++ tail ∧ (scan text).2 = own.length ∧
    ∀ after, Separates tail after → scan (own ++ after) = scan text

theorem Separates.head?_all {tail after : List Char} (separates : Separates tail after)
    {p : Char → Bool} (blank : p ' ') : after.head?.all p := by
  obtain rfl | ⟨rest, rfl⟩ := separates.apart
  next => rfl
  next => exact blank

theorem head?_append_all {p : Char → Bool} {left right : List Char} (first : left.head?.all p)
    (second : right.head?.all p) : (left ++ right).head?.all p := by
  cases left with
  | nil => exact second
  | cons c left => exact first

theorem head?_all_of_imp {p q : Char → Bool} {text : List Char} (first : text.head?.all p)
    (imp : ∀ c, p c → q c) : text.head?.all q := by
  cases text with
  | nil => rfl
  | cons c rest => exact imp c first

theorem takeWhile_append_of_stop {p : Char → Bool} {own after : List Char}
    (inside : ∀ c ∈ own, p c) (stop : after.head?.all (!p ·)) :
    (own ++ after).takeWhile p = own := by
  rw [List.takeWhile_append_of_pos inside]
  cases after with
  | nil => simp
  | cons c rest => simp_all

theorem exists_stop (p : Char → Bool) (text : List Char) :
    ∃ own rest, text = own ++ rest ∧ (∀ c ∈ own, p c) ∧ rest.head?.all (!p ·) := by
  refine ⟨text.takeWhile p, text.dropWhile p, List.takeWhile_append_dropWhile.symm,
    fun c inside => List.mem_takeWhile_imp inside, ?_⟩
  have stop := List.head?_dropWhile_not p text
  cases found : (text.dropWhile p).head? <;> simp_all

namespace Punctuator

def extendedBy (punctuator : Punctuator) (c : Char) : Bool :=
  all.any fun longer => (punctuator.chars ++ [c]).isPrefixOf longer.chars

theorem extendedBy_blank (punctuator : Punctuator) : punctuator.extendedBy ' ' = false := by
  cases punctuator <;> decide

theorem chars_ne_nil (punctuator : Punctuator) : punctuator.chars ≠ [] := by
  cases punctuator <;> simp [chars]

theorem first?_chars (punctuator : Punctuator) : first? punctuator.chars = some punctuator := by
  cases punctuator <;> decide

theorem eq_optionalChain (punctuator : Punctuator)
    (starts : optionalChain.chars <+: punctuator.chars) : punctuator = .optionalChain := by
  revert starts
  cases punctuator <;> decide

theorem extendedBy_of_prefix {punctuator longer : Punctuator} {c : Char}
    (starts : punctuator.chars ++ [c] <+: longer.chars) : punctuator.extendedBy c := by
  rw [extendedBy, List.any_eq_true]
  exact ⟨longer, mem_all longer, List.isPrefixOf_iff_prefix.mpr starts⟩

theorem prefix_of_prefix_append {punctuator other : Punctuator} {after : List Char}
    (free : after.head?.all (!punctuator.extendedBy ·))
    (starts : other.chars <+: punctuator.chars ++ after) : other.chars <+: punctuator.chars := by
  obtain shorter | ⟨more, longer⟩ :=
    List.prefix_or_prefix_of_prefix starts (List.prefix_append punctuator.chars after)
  next => exact shorter
  next =>
    cases more with
    | nil => exact ⟨[], by simpa using longer.symm⟩
    | cons c more =>
      rw [← longer, List.prefix_append_right_inj] at starts
      obtain ⟨rest, rfl⟩ := starts
      have extended : punctuator.extendedBy c :=
        extendedBy_of_prefix ⟨more, by rw [← longer, List.append_assoc]; rfl⟩
      simp [extended] at free

theorem starts_iff {punctuator : Punctuator} {text : List Char} :
    punctuator.starts text ↔ punctuator.chars <+: text ∧
      (punctuator = .optionalChain → ¬(text.drop 2).head?.any Char.isDigit) := by
  rw [starts, Bool.and_eq_true, List.isPrefixOf_iff_prefix]
  simp [imp_iff_not_or]

theorem starts_append {punctuator : Punctuator} {after : List Char}
    (free : after.head?.all (!punctuator.extendedBy ·))
    (chain : punctuator = .optionalChain → after.head?.all (!Char.isDigit ·))
    (other : Punctuator) :
    other.starts (punctuator.chars ++ after) = other.starts punctuator.chars := by
  rw [Bool.eq_iff_iff]
  by_cases starts : other.chars <+: punctuator.chars
  next =>
    have longer : other.chars <+: punctuator.chars ++ after :=
      starts.trans (List.prefix_append ..)
    by_cases same : other = .optionalChain
    next =>
      subst same
      obtain rfl := punctuator.eq_optionalChain starts
      have noDigit := chain rfl
      cases after <;> simp_all [starts_iff, chars]
    next => simp [starts_iff, starts, longer, same]
  next =>
    have apart : ¬other.chars <+: punctuator.chars ++ after :=
      fun longer => starts (prefix_of_prefix_append free longer)
    simp [starts_iff, starts, apart]

theorem first?_append {punctuator : Punctuator} {after : List Char}
    (free : after.head?.all (!punctuator.extendedBy ·))
    (chain : punctuator = .optionalChain → after.head?.all (!Char.isDigit ·)) :
    first? (punctuator.chars ++ after) = some punctuator := by
  rw [← first?_chars punctuator, first?, funext (starts_append free chain)]
  rfl

end Punctuator

namespace NumberLiteral

open Number (isDigit)

def pointLength (rest : List Char) : Nat :=
  if (fraction rest).isEmpty then 0 else 1 + (fraction rest).length

def markLength (rest : List Char) : Nat :=
  if (exponent rest).2.isEmpty then 0
  else 1 + (exponent rest).1.length + (exponent rest).2.length

theorem fraction_eq_nil {rest : List Char} (stop : rest.head?.all (· != '.')) :
    fraction rest = [] := by
  unfold fraction
  split
  next => simp at stop
  next => rfl

theorem exponent_eq_nil {rest : List Char} (stop : rest.head?.all fun c => c != 'e' && c != 'E') :
    exponent rest = ([], []) := by
  unfold exponent
  split
  next => simp_all
  next => rfl

theorem fraction_contained (rest : List Char) :
    ∃ own tail, rest = own ++ tail ∧ own.length = pointLength rest ∧ own.head?.all (· == '.') ∧
      ∀ after, after.head?.all (fun c => !isSeparated 10 c && c != '.') →
        fraction (own ++ after) = fraction rest := by
  have nothing (after : List Char)
      (stop : after.head?.all fun c => !isSeparated 10 c && c != '.') : fraction after = [] :=
    fraction_eq_nil (by cases after <;> simp_all)
  unfold pointLength
  fun_cases fraction rest with
  | case1 c rest digit =>
    obtain ⟨own, tail, rfl, inside, ends⟩ := exists_stop (isSeparated 10) rest
    refine ⟨'.' :: c :: own, tail, rfl, ?_, rfl, fun after stop => ?_⟩
    next =>
      rw [takeWhile_append_of_stop inside ends]
      simp; omega
    next =>
      have endsAgain : after.head?.all (!isSeparated 10 ·) := by cases after <;> simp_all
      simp only [List.cons_append, fraction]
      rw [if_pos digit, takeWhile_append_of_stop inside ends,
        takeWhile_append_of_stop inside endsAgain]
  | case2 c rest digit => exact ⟨[], _, rfl, rfl, rfl, nothing⟩
  | case3 => exact ⟨[], _, rfl, rfl, rfl, nothing⟩

theorem exponent_contained (rest : List Char) :
    ∃ own tail, rest = own ++ tail ∧ own.length = markLength rest ∧
      own.head?.all (fun c => c == 'e' || c == 'E') ∧
      ∀ after, after.head?.all (fun c => !isDigit c && (c != 'e' && c != 'E')) →
        exponent (own ++ after) = exponent rest := by
  have nothing (after : List Char)
      (stop : after.head?.all fun c => !isDigit c && (c != 'e' && c != 'E')) :
      exponent after = ([], []) :=
    exponent_eq_nil (by cases after <;> simp_all)
  unfold markLength
  fun_cases exponent rest with
  | case1 mark c rest other => exact ⟨[], _, rfl, rfl, rfl, nothing⟩
  | case2 mark c rest marked digit =>
    obtain ⟨own, tail, rfl, inside, ends⟩ := exists_stop isDigit rest
    refine ⟨mark :: c :: own, tail, rfl, ?_, by simpa [or_iff_not_imp_left] using marked,
      fun after stop => ?_⟩
    next =>
      rw [takeWhile_append_of_stop inside ends]
      simp; omega
    next =>
      have endsAgain : after.head?.all (!isDigit ·) := by cases after <;> simp_all
      simp only [List.cons_append, exponent]
      rw [if_neg marked, if_pos digit, takeWhile_append_of_stop inside ends,
        takeWhile_append_of_stop inside endsAgain]
  | case3 mark c rest marked digit sign =>
    obtain ⟨own, tail, rfl, inside, ends⟩ := exists_stop isDigit rest
    rw [takeWhile_append_of_stop inside ends]
    -- The digit that must follow the sign is one of its own.
    obtain ⟨d, own, rfl⟩ : ∃ d more, own = d :: more := by
      cases own with
      | nil => cases tail <;> simp_all
      | cons d more => exact ⟨d, more, rfl⟩
    refine ⟨mark :: c :: d :: own, tail, rfl, ?_, by simpa [or_iff_not_imp_left] using marked,
      fun after stop => ?_⟩
    next => simp; omega
    next =>
      have endsAgain : after.head?.all (!isDigit ·) := by cases after <;> simp_all
      simp only [List.cons_append, exponent] at sign ⊢
      rw [if_neg marked, if_neg digit, if_pos, ← List.cons_append,
        takeWhile_append_of_stop inside endsAgain]
      simpa using sign
  | case4 mark c rest marked digit sign => exact ⟨[], _, rfl, rfl, rfl, nothing⟩
  | case5 => exact ⟨[], _, rfl, rfl, rfl, nothing⟩

def numeralKind (whole fraction : List Char) (exponent : List Char × List Char) : TokenKind :=
  let numeral : Number.Numeral :=
    { whole := whole.filter (· != '_')
      fraction := fraction.filter (· != '_')
      exponentNegative := exponent.1 == ['-']
      exponent := exponent.2 }
  .number numeral.toFloat

theorem decimal_append {whole rest : List Char} (inside : ∀ c ∈ whole, isSeparated 10 c)
    (stop : rest.head?.all (!isSeparated 10 ·)) :
    decimal (whole ++ rest) =
      (numeralKind whole (fraction rest) (exponent (rest.drop (pointLength rest))),
        whole.length + pointLength rest + markLength (rest.drop (pointLength rest))) := by
  unfold decimal
  dsimp only
  rw [takeWhile_append_of_stop inside stop, List.drop_left]
  rfl

theorem decimal_contained (text : List Char) : Contained decimal text := by
  obtain ⟨whole, rest, rfl, inside, stop⟩ := exists_stop (isSeparated 10) text
  obtain ⟨point, rest, rfl, pointLen, pointHead, pointOwn⟩ := fraction_contained rest
  obtain ⟨mark, tail, rfl, markLen, markHead, markOwn⟩ := exponent_contained rest
  have read := decimal_append inside stop
  rw [← pointLen, List.drop_left, ← markLen] at read
  refine ⟨whole ++ point ++ mark, tail, by simp, by simp [read, Nat.add_assoc],
    fun after separates => ?_⟩
  -- Each part is followed by the first character of the next one, or by what separates.
  have markStop : (mark ++ after).head?.all fun c => !isSeparated 10 c && c != '.' := by
    refine head?_append_all (head?_all_of_imp markHead fun c marked => ?_)
      (separates.head?_all (by decide))
    simp only [Bool.or_eq_true, beq_iff_eq] at marked
    obtain rfl | rfl := marked <;> decide
  have pointStop : (point ++ (mark ++ after)).head?.all (!isSeparated 10 ·) := by
    refine head?_append_all (head?_all_of_imp pointHead fun c pointed => ?_)
      (head?_all_of_imp markStop fun c free => by simp_all)
    obtain rfl := beq_iff_eq.mp pointed
    decide
  have fractionAgain := pointOwn (mark ++ after) markStop
  have exponentAgain := markOwn after (separates.head?_all (by decide))
  have readAgain := decimal_append inside pointStop
  rw [pointLength, fractionAgain, ← pointLength, ← pointLen, List.drop_left, exponentAgain,
    markLength, exponentAgain, ← markLength, ← markLen] at readAgain
  rw [read, ← readAgain, List.append_assoc, List.append_assoc]

theorem isSeparated_blank (base : Nat) : isSeparated base ' ' = false := by
  simp [isSeparated, Text.isDigitOf, Text.digitValue?]

theorem read_eq_decimal {text : List Char}
    (plain : ∀ mark rest, text = '0' :: mark :: rest → base? mark = none) :
    read text = decimal text := by
  unfold read
  split
  next mark rest => rw [plain mark rest rfl]
  next => rfl

theorem read_contained_of_plain {text : List Char}
    (plain : ∀ mark rest, text = '0' :: mark :: rest → base? mark = none) :
    Contained read text := by
  obtain ⟨own, tail, rfl, length, again⟩ := decimal_contained text
  refine ⟨own, tail, rfl, by rw [read_eq_decimal plain, length], fun after separates => ?_⟩
  rw [read_eq_decimal plain, read_eq_decimal, again after separates]
  intro mark rest same
  match own with
  | [] => 
    obtain rfl | ⟨more, rfl⟩ := separates.apart <;> simp at same
  | [c] =>
    obtain rfl | ⟨more, rfl⟩ := separates.apart
    next => simp at same
    next =>
      simp only [List.cons_append, List.nil_append, List.cons.injEq] at same
      rw [← same.2.1]
      decide
  | c :: d :: own =>
    simp only [List.cons_append, List.cons.injEq] at same
    exact plain mark (own ++ tail) (by simp [same.1, same.2.1])

theorem read_contained (text : List Char) : Contained read text := by
  by_cases plain : ∀ mark rest, text = '0' :: mark :: rest → base? mark = none
  next => exact read_contained_of_plain plain
  next =>
    simp only [not_forall] at plain
    obtain ⟨mark, rest, rfl, based⟩ := plain
    obtain ⟨base, found⟩ := Option.ne_none_iff_exists'.mp based
    obtain ⟨own, tail, rfl, inside, stop⟩ := exists_stop (isSeparated base) rest
    refine ⟨'0' :: mark :: own, tail, rfl, ?_, fun after separates => ?_⟩
    next =>
      simp only [read, found, takeWhile_append_of_stop inside stop]
      simp; omega
    next =>
      have stopAgain : after.head?.all (!isSeparated base ·) :=
        separates.head?_all (by simp [isSeparated_blank])
      simp only [List.cons_append, read, found, takeWhile_append_of_stop inside stop,
        takeWhile_append_of_stop inside stopAgain]

end NumberLiteral

namespace StringLiteral

def blocks (c : Char) : Bool := !isHexDigit c && c != '\x7b'

theorem blocks_of_isLineTerminator {c : Char} (ends : isLineTerminator c) : blocks c := by
  simp only [isLineTerminator, Bool.or_eq_true, beq_iff_eq] at ends
  obtain (rfl | rfl) | rfl := ends <;> decide

theorem not_all_isHexDigit {own : List Char} (blocked : ∃ c ∈ own, blocks c) :
    own.all isHexDigit = false := by
  obtain ⟨c, member, blocking⟩ := blocked
  simp only [blocks, Bool.and_eq_true, Bool.not_eq_true'] at blocking
  exact List.all_eq_false.mpr ⟨c, member, by simp [blocking.1]⟩

theorem hexEscape_append {own : List Char} (blocked : ∃ c ∈ own, blocks c) (count : Nat)
    (tail after : List Char) : hexEscape count (own ++ after) = hexEscape count (own ++ tail) := by
  unfold hexEscape
  by_cases short : count ≤ own.length
  next => rw [List.take_append_of_le_length short, List.take_append_of_le_length short]
  next =>
    simp [List.take_append, List.take_of_length_le (Nat.le_of_not_le short),
      not_all_isHexDigit blocked]

theorem bracedEscape_of_stop {digits rest : List Char} (inside : ∀ c ∈ digits, isHexDigit c)
    (stop : rest.head?.all (!isHexDigit ·)) :
    bracedEscape (digits ++ rest) =
      (if digits.isEmpty then none else scalar? (Text.digitsValue 16 digits),
        digits.length + if rest.head? == some '\x7d' then 1 else 0) := by
  unfold bracedEscape
  dsimp only
  rw [takeWhile_append_of_stop inside stop, List.drop_left]

theorem bracedEscape_append {own : List Char} (blocked : ∃ c ∈ own, blocks c)
    (tail after : List Char) : bracedEscape (own ++ after) = bracedEscape (own ++ tail) := by
  obtain ⟨digits, rest, rfl, inside, stop⟩ := exists_stop isHexDigit own
  cases rest with
  | nil =>
    rw [List.append_nil] at blocked
    have all := not_all_isHexDigit blocked
    rw [List.all_eq_true.mpr inside] at all
    cases all
  | cons c rest =>
    have stopBefore (after : List Char) : (c :: rest ++ after).head?.all (!isHexDigit ·) := stop
    rw [List.append_assoc, List.append_assoc, bracedEscape_of_stop inside (stopBefore after),
      bracedEscape_of_stop inside (stopBefore tail)]
    rfl

theorem escape_braced (rest : List Char) :
    escape 'u' ('\x7b' :: rest) = ((bracedEscape rest).1, (bracedEscape rest).2 + 1) := rfl

theorem escape_unbraced {c : Char} (brace : c ≠ '\x7b') (rest : List Char) :
    escape 'u' (c :: rest) = hexEscape 4 (c :: rest) := by
  simp only [escape]
  split
  next => simp_all
  next => rfl

theorem escape_append {own : List Char} (blocked : ∃ c ∈ own, blocks c) (e : Char)
    (tail after : List Char) : escape e (own ++ after) = escape e (own ++ tail) := by
  by_cases unicode : e = 'u'
  next =>
    subst unicode
    obtain ⟨c, rest, rfl⟩ : ∃ c rest, own = c :: rest := by
      obtain ⟨c, member, -⟩ := blocked
      exact List.exists_cons_of_ne_nil (List.ne_nil_of_mem member)
    by_cases brace : c = '\x7b'
    next =>
      subst brace
      have blockedInside : ∃ c ∈ rest, blocks c := by
        simpa [show blocks '\x7b' = false by decide] using blocked
      rw [List.cons_append, List.cons_append, escape_braced, escape_braced,
        bracedEscape_append blockedInside tail after]
    next =>
      rw [List.cons_append, List.cons_append, escape_unbraced brace, escape_unbraced brace]
      exact hexEscape_append blocked 4 tail after
  next =>
    unfold escape
    split
    case h_8 => exact hexEscape_append blocked 2 tail after
    case h_9 => exact absurd rfl unicode
    all_goals rfl

theorem bracedEscape_le (rest : List Char) : (bracedEscape rest).2 ≤ rest.length := by
  obtain ⟨digits, rest, rfl, inside, stop⟩ := exists_stop isHexDigit rest
  rw [bracedEscape_of_stop inside stop]
  cases rest with
  | nil => simp
  | cons c rest =>
    simp
    split <;> omega

theorem escape_le (e : Char) (rest : List Char) : (escape e rest).2 ≤ rest.length := by
  have hex (count : Nat) : (hexEscape count rest).2 ≤ rest.length := by
    unfold hexEscape
    dsimp only
    split
    next whole =>
      simp at whole
      omega
    next => exact Nat.zero_le _
  unfold escape
  split
  case h_8 => exact hex 2
  case h_9 =>
    split
    next rest =>
      have := bracedEscape_le rest
      simp
      omega
    next => exact hex 4
  all_goals exact Nat.zero_le _

section Equations

variable {quote : Char} {value : List Char} {count : Nat}

theorem readFrom_quote (rest : List Char) :
    readFrom quote value count (quote :: rest) =
      (.string (String.ofList value.reverse), count + 1) := by
  rw [readFrom.eq_def]
  simp

theorem readFrom_escape {e : Char} {rest : List Char} {produced : Option Char} {more : Nat}
    (quoted : quote ≠ '\\') (escaped : escape e rest = (produced, more)) :
    readFrom quote value count ('\\' :: e :: rest) =
      readFrom quote (produced.toList ++ value) (count + 2 + more) (rest.drop more) := by
  rw [readFrom.eq_def]
  simp [quoted.symm, escaped]

theorem readFrom_break {c : Char} (quoted : c ≠ quote) (backslash : c ≠ '\\')
    (ends : isLineTerminator c) (rest : List Char) :
    readFrom quote value count (c :: rest) = (.unterminated quote, count + 1) := by
  rw [readFrom.eq_def]
  simp [quoted, backslash, ends]

theorem readFrom_plain {c : Char} (quoted : c ≠ quote) (backslash : c ≠ '\\')
    (inside : isLineTerminator c = false) (rest : List Char) :
    readFrom quote value count (c :: rest) = readFrom quote (c :: value) (count + 1) rest := by
  rw [readFrom.eq_def]
  simp [quoted, backslash, inside]

end Equations

theorem readFrom_own (quote : Char) (value : List Char) (count : Nat) (text : List Char)
    (quoted : blocks quote) :
    ∃ own tail, text = own ++ tail ∧ (readFrom quote value count text).2 = count + own.length ∧
      (tail ≠ [] → (∃ c ∈ own, blocks c) ∧
        ∀ after, readFrom quote value count (own ++ after) = readFrom quote value count text) := by
  fun_induction readFrom quote value count text with
  | case1 value count => exact ⟨[], [], rfl, rfl, fun more => absurd rfl more⟩
  | case2 value count c rest closes =>
    obtain rfl := beq_iff_eq.mp closes
    exact ⟨[c], rest, rfl, rfl, fun more => ⟨⟨c, by simp, quoted⟩, readFrom_quote⟩⟩
  | case3 value count c closes backslash =>
    exact ⟨[c], [], rfl, rfl, fun more => absurd rfl more⟩
  | case4 value count c closes backslash e rest produced more found ih =>
    obtain rfl := beq_iff_eq.mp backslash
    obtain ⟨own, tail, split, length, again⟩ := ih
    have short : more ≤ rest.length := by
      have := escape_le e rest
      rwa [found] at this
    have whole : rest = rest.take more ++ own ++ tail := by
      rw [List.append_assoc, ← split, List.take_append_drop]
    refine ⟨'\\' :: e :: (rest.take more ++ own), tail, ?_, ?_, fun longer => ?_⟩
    next => rw [List.cons_append, List.cons_append, ← whole]
    next =>
      rw [length]
      simp [short]
      omega
    next =>
      obtain ⟨⟨d, member, blocked⟩, again⟩ := again longer
      refine ⟨⟨d, by simp [member], blocked⟩, fun after => ?_⟩
      -- An escape reads no further than the character that blocks it, and one is still to come.
      have escaped : escape e (rest.take more ++ own ++ after) = (produced, more) := by
        rw [← found, escape_append ⟨d, by simp [member], blocked⟩ e tail after, ← whole]
      rw [List.cons_append, List.cons_append,
        readFrom_escape (fun same => closes (by simp [same])) escaped, List.append_assoc,
        List.drop_left' (by simp [short])]
      exact again after
  | case5 value count c rest closes backslash ends =>
    refine ⟨[c], rest, rfl, rfl,
      fun more => ⟨⟨c, by simp, blocks_of_isLineTerminator ends⟩, ?_⟩⟩
    exact readFrom_break (by simpa using closes) (by simpa using backslash) ends
  | case6 value count c rest closes backslash ends ih =>
    obtain ⟨own, tail, rfl, length, again⟩ := ih
    refine ⟨c :: own, tail, rfl, by simp [length]; omega, fun longer => ?_⟩
    obtain ⟨⟨d, member, blocked⟩, again⟩ := again longer
    refine ⟨⟨d, List.mem_cons_of_mem c member, blocked⟩, fun after => ?_⟩
    rw [List.cons_append, readFrom_plain (by simpa using closes) (by simpa using backslash)
      (by simpa using ends)]
    exact again after

theorem readFrom_contained {quote : Char} (quoted : blocks quote) (text : List Char) :
    Contained (readFrom quote [] 0) text := by
  obtain ⟨own, tail, rfl, length, again⟩ := readFrom_own quote [] 0 text quoted
  refine ⟨own, tail, rfl, by rw [length, Nat.zero_add], fun after separates => ?_⟩
  by_cases ended : tail = []
  next => rw [ended, separates.atEnd ended]
  next => exact (again ended).2 after

end StringLiteral

namespace TemplateLiteral

theorem lengthFrom?_plain {depth count : Nat} {c : Char} {rest : List Char} (backslash : c ≠ '\\')
    (closes : depth = 0 → c ≠ '\x60')
    (substitutes : depth = 0 → c = '$' → rest.head? ≠ some '\x7b')
    (opens : 0 < depth → c ≠ '\x7b' ∧ c ≠ '\x7d') :
    lengthFrom? depth count (c :: rest) = lengthFrom? depth (count + 1) rest := by
  rw [lengthFrom?.eq_def]
  split <;> simp_all

theorem lengthFrom?_own {depth count length : Nat} {text : List Char}
    (found : lengthFrom? depth count text = some length) :
    ∃ own tail, text = own ++ tail ∧ length = count + own.length ∧
      ∀ after, lengthFrom? depth count (own ++ after) = some length := by
  fun_induction lengthFrom? depth count text with
  | case1 => cases found
  | case2 => cases found
  | case3 depth count c rest ih =>
    obtain ⟨own, tail, rfl, same, again⟩ := ih found
    exact ⟨'\\' :: c :: own, tail, rfl, by simp [same]; omega, again⟩
  | case4 count rest =>
    obtain rfl := Option.some.inj found
    exact ⟨['\x60'], rest, rfl, rfl, fun after => rfl⟩
  | case5 count rest ih =>
    obtain ⟨own, tail, rfl, same, again⟩ := ih found
    exact ⟨'$' :: '\x7b' :: own, tail, rfl, by simp [same]; omega, again⟩
  | case6 depth count rest ih =>
    obtain ⟨own, tail, rfl, same, again⟩ := ih found
    exact ⟨'\x7b' :: own, tail, rfl, by simp [same]; omega, again⟩
  | case7 depth count rest ih =>
    obtain ⟨own, tail, rfl, same, again⟩ := ih found
    exact ⟨'\x7d' :: own, tail, rfl, by simp [same]; omega, again⟩
  | case8 depth count c rest notLast notEscape notClose notOpen notBrace notEnd ih =>
    obtain ⟨own, tail, rfl, same, again⟩ := ih found
    refine ⟨c :: own, tail, rfl, by simp [same]; omega, fun after => ?_⟩
    -- A dollar is followed by a character of its own, since the end is still to come.
    obtain ⟨d, own, rfl⟩ : ∃ d more, own = d :: more := by
      cases own with
      | nil => cases again []
      | cons d more => exact ⟨d, more, rfl⟩
    rw [List.cons_append, lengthFrom?_plain]
    case backslash => exact fun escapes => notEscape d (own ++ tail) escapes rfl
    case closes => exact notClose
    case substitutes =>
      rintro outside dollar opens
      obtain rfl := Option.some.inj opens
      exact notOpen (own ++ tail) outside dollar rfl
    case opens =>
      intro inside
      obtain ⟨outer, rfl⟩ := Nat.exists_eq_add_one.mpr inside
      exact ⟨notBrace outer rfl, notEnd outer rfl⟩
    exact again after

theorem read_contained (text : List Char) : Contained read text := by
  cases found : lengthFrom? 0 0 text with
  | none =>
    refine ⟨text, [], by simp, by simp [read, found], fun after separates => ?_⟩
    rw [separates.atEnd rfl, List.append_nil]
  | some length =>
    obtain ⟨own, tail, rfl, same, again⟩ := lengthFrom?_own found
    rw [Nat.zero_add] at same
    refine ⟨own, tail, rfl, by simp [read, found, same], fun after _ => ?_⟩
    simp [read, found, again, same, List.take_append_of_le_length]

end TemplateLiteral

theorem Punctuator.starts_of_first? {text : List Char} {found : Punctuator}
    (first : first? text = some found) : found.starts text := by
  rw [first?, List.find?_eq_some_iff_append] at first
  exact first.1

theorem Punctuator.exists_chars_eq_cons {c : Char} {rest : List Char} {found : Punctuator}
    (first : first? (c :: rest) = some found) :
    ∃ own tail, rest = own ++ tail ∧ found.chars = c :: own := by
  obtain ⟨tail, whole⟩ := (starts_iff.mp (starts_of_first? first)).1
  cases chars : found.chars with
  | nil => exact absurd chars found.chars_ne_nil
  | cons d own =>
    rw [chars, List.cons_append, List.cons.injEq] at whole
    obtain ⟨rfl, rfl⟩ := whole
    exact ⟨own, tail, rfl, rfl⟩

theorem Punctuator.exists_single (punctuator : Punctuator) :
    ∃ single : Punctuator, single ≠ .optionalChain ∧ single.chars = punctuator.chars.take 1 := by
  have found : ∃ single ∈ all, single ≠ .optionalChain ∧
      single.chars = punctuator.chars.take 1 := by
    cases punctuator <;> decide
  obtain ⟨single, -, found⟩ := found
  exact ⟨single, found⟩

theorem Punctuator.first?_eq_none {c : Char} {rest : List Char} (free : first? (c :: rest) = none)
    (after : List Char) : first? (c :: after) = none := by
  cases first : first? (c :: after) with
  | none => rfl
  | some found =>
    obtain ⟨own, tail, rfl, chars⟩ := exists_chars_eq_cons first
    obtain ⟨single, plain, same⟩ := found.exists_single
    rw [chars, List.take_succ_cons, List.take_zero] at same
    have starts : single.starts (c :: rest) :=
      starts_iff.mpr ⟨by simp [same], fun chain => absurd chain plain⟩
    exact absurd starts (List.find?_eq_none.mp free single (mem_all single))

def startsNumber (c : Char) (rest : List Char) : Bool :=
  Number.isDigit c || (c == '.' && rest.head?.any Number.isDigit)

namespace NumberLiteral

open Number (isDigit)

theorem isSeparated_of_isDigit {c : Char} (digit : isDigit c) : isSeparated 10 c := by
  rw [isSeparated, ← Number.isDigit, digit]
  rfl

theorem length_read {c : Char} {rest : List Char} (number : startsNumber c rest) :
    0 < (read (c :: rest)).2 ∧ (isDigit c = false → (read (c :: rest)).2 ≠ 1) := by
  by_cases plain : ∀ mark more, c :: rest = '0' :: mark :: more → base? mark = none
  next =>
    rw [read_eq_decimal plain]
    by_cases digit : isDigit c
    next => simp [decimal, digit, isSeparated_of_isDigit digit]
    next =>
      obtain ⟨rfl, d, more, rfl, digits⟩ : c = '.' ∧ ∃ d more, rest = d :: more ∧ isDigit d := by
        cases rest <;> simp_all [startsNumber]
      have point : isSeparated 10 '.' = false := by decide
      simp [decimal, fraction, digits, point]
      omega
  next =>
    simp only [not_forall] at plain
    obtain ⟨mark, more, same, based⟩ := plain
    obtain ⟨base, found⟩ := Option.ne_none_iff_exists'.mp based
    simp [same, read, found]
    omega

end NumberLiteral

namespace TokenKind

section Equations

variable {c : Char} {rest : List Char}

theorem read_word (word : isWordStart c) :
    read c rest =
      (wordKind (c :: rest.takeWhile isWordPart), (rest.takeWhile isWordPart).length) := by
  simp [read, word]

theorem read_number (word : isWordStart c = false) (number : startsNumber c rest) :
    read c rest = ((NumberLiteral.read (c :: rest)).1, (NumberLiteral.read (c :: rest)).2 - 1) := by
  rw [startsNumber] at number
  simp [read, word, number]

theorem read_string (word : isWordStart c = false) (number : startsNumber c rest = false)
    (quoted : c = StringLiteral.single ∨ c = StringLiteral.double) :
    read c rest = StringLiteral.readFrom c [] 0 rest := by
  rw [startsNumber] at number
  simp [read, word, number, quoted]

theorem startsNumber_eq_false (digit : Number.isDigit c = false) (point : c ≠ '.')
    (rest : List Char) : startsNumber c rest = false := by
  simp [startsNumber, digit, point]

theorem read_quoted (quoted : c = StringLiteral.single ∨ c = StringLiteral.double)
    (rest : List Char) : read c rest = StringLiteral.readFrom c [] 0 rest := by
  have word : isWordStart c = false := by obtain rfl | rfl := quoted <;> decide +kernel
  have plain : Number.isDigit c = false ∧ c ≠ '.' := by obtain rfl | rfl := quoted <;> decide
  exact read_string word (startsNumber_eq_false plain.1 plain.2 rest) quoted

theorem read_template (rest : List Char) :
    read TemplateLiteral.backquote rest = TemplateLiteral.read rest := by
  have word : isWordStart TemplateLiteral.backquote = false := by decide +kernel
  have number := startsNumber_eq_false (c := TemplateLiteral.backquote) (by decide) (by decide) rest
  have quotes : TemplateLiteral.backquote ≠ StringLiteral.single ∧
      TemplateLiteral.backquote ≠ StringLiteral.double := by decide
  rw [startsNumber] at number
  simp [read, word, number, quotes.1, quotes.2]

theorem read_punctuator (word : isWordStart c = false) (number : startsNumber c rest = false)
    (single : c ≠ StringLiteral.single) (double : c ≠ StringLiteral.double)
    (template : c ≠ TemplateLiteral.backquote) :
    read c rest = ((Punctuator.first? (c :: rest)).elim (.invalid c, 0) fun found =>
      (.punctuator found, found.chars.length - 1)) := by
  rw [startsNumber] at number
  simp only [read, word, number, single, double, template, beq_eq_false_iff_ne.mpr, ne_eq,
    not_false_iff, Bool.or_self, if_false, Bool.false_eq_true]
  cases Punctuator.first? (c :: rest) <;> rfl

end Equations

theorem startsNumber_of_separates {c : Char} {own tail after : List Char}
    (number : startsNumber c (own ++ tail) = false) (separates : Separates tail after) :
    startsNumber c (own ++ after) = false := by
  cases own with
  | nil =>
    have blank := separates.head?_all (p := fun c => !Number.isDigit c) (by decide)
    simp only [startsNumber, Bool.or_eq_false_iff] at number ⊢
    refine ⟨number.1, ?_⟩
    cases after <;> simp_all
  | cons d own => exact number

theorem word_contained {c : Char} (word : isWordStart c) (rest : List Char) :
    Contained (read c) rest := by
  obtain ⟨own, tail, rfl, inside, stop⟩ := exists_stop isWordPart rest
  refine ⟨own, tail, rfl, ?_, fun after separates => ?_⟩
  next => rw [read_word word, takeWhile_append_of_stop inside stop]
  next =>
    have stopAgain : after.head?.all (!isWordPart ·) := separates.head?_all (by decide +kernel)
    rw [read_word word, read_word word, takeWhile_append_of_stop inside stop,
      takeWhile_append_of_stop inside stopAgain]

theorem number_contained {c : Char} {rest : List Char} (word : isWordStart c = false)
    (number : startsNumber c rest) : Contained (read c) rest := by
  obtain ⟨own, tail, split, length, again⟩ := NumberLiteral.read_contained (c :: rest)
  have long := NumberLiteral.length_read number
  rw [length] at long
  obtain ⟨d, own, rfl⟩ := List.exists_cons_of_length_pos long.1
  rw [List.cons_append, List.cons.injEq] at split
  obtain ⟨rfl, rfl⟩ := split
  have numberAgain (after : List Char) : startsNumber c (own ++ after) := by
    cases own with
    | nil =>
      have digit : Number.isDigit c := by simpa using long.2
      simp [startsNumber, digit]
    | cons d own => exact number
  refine ⟨own, tail, rfl, ?_, fun after separates => ?_⟩
  next =>
    rw [read_number word number, length]
    rfl
  next =>
    rw [read_number word number, read_number word (numberAgain after), ← List.cons_append,
      again after separates]

theorem punctuator_contained {c : Char} {rest : List Char} (word : isWordStart c = false)
    (number : startsNumber c rest = false)
    (single : c ≠ StringLiteral.single) (double : c ≠ StringLiteral.double)
    (template : c ≠ TemplateLiteral.backquote) : Contained (read c) rest := by
  cases first : Punctuator.first? (c :: rest) with
  | none =>
    refine ⟨[], rest, rfl, ?_, fun after separates => ?_⟩
    next => simp [read_punctuator word number single double template, first]
    next =>
      have numberAgain : startsNumber c ([] ++ after) = false :=
        startsNumber_of_separates number separates
      rw [read_punctuator word number single double template,
        read_punctuator word numberAgain single double template, first, List.nil_append,
        Punctuator.first?_eq_none first after]
  | some found =>
    obtain ⟨own, tail, rfl, chars⟩ := Punctuator.exists_chars_eq_cons first
    refine ⟨own, tail, rfl, ?_, fun after separates => ?_⟩
    next => simp [read_punctuator word number single double template, first, chars]
    next =>
      have numberAgain := startsNumber_of_separates number separates
      -- What separates tokens neither makes a mark longer nor a digit follow it.
      have firstAgain : Punctuator.first? (c :: (own ++ after)) = some found := by
        rw [← List.cons_append, ← chars]
        apply Punctuator.first?_append
        next => exact separates.head?_all (by simp [Punctuator.extendedBy_blank])
        next => exact fun _ => separates.head?_all (by decide)
      rw [read_punctuator word number single double template,
        read_punctuator word numberAgain single double template, first, firstAgain]

theorem read_contained (c : Char) (rest : List Char) : Contained (read c) rest := by
  by_cases word : isWordStart c
  next => exact word_contained word rest
  rw [Bool.not_eq_true] at word
  by_cases number : startsNumber c rest
  next => exact number_contained word number
  rw [Bool.not_eq_true] at number
  by_cases quoted : c = StringLiteral.single ∨ c = StringLiteral.double
  next =>
    have blocks : StringLiteral.blocks c := by obtain rfl | rfl := quoted <;> decide
    rw [funext (read_quoted quoted)]
    exact StringLiteral.readFrom_contained blocks rest
  rw [not_or] at quoted
  by_cases template : c = TemplateLiteral.backquote
  next =>
    subst template
    rw [funext read_template]
    exact TemplateLiteral.read_contained rest
  exact punctuator_contained word number quoted.1 quoted.2 template

end TokenKind

end EventLoop
