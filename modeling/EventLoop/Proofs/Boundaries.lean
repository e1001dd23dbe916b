import EventLoop.Proofs.Streams

set_option autoImplicit false

/-!
# Where tokens end

A semicolon and a line feed carry no token on.
-/

namespace EventLoop

open Text (isBlank isLineTerminator isWordStart isWordPart)

def Breaks (after : List Char) : Prop := ∃ c rest, after = c :: rest ∧ (c = ';' ∨ c = '\n')

theorem Breaks.head?_all {after : List Char} (breaks : Breaks after) {p : Char → Bool}
    (semicolon : p ';') (feed : p '\n') : after.head?.all p := by
  obtain ⟨c, rest, rfl, rfl | rfl⟩ := breaks
  next => exact semicolon
  next => exact feed

theorem Breaks.length_pos {after : List Char} (breaks : Breaks after) : 0 < after.length := by
  obtain ⟨c, rest, rfl, -⟩ := breaks
  exact Nat.succ_pos _

def Delimits (after : List Char) : Prop :=
  after = [] ∨ ∃ c rest, after = c :: rest ∧ (c = ';' ∨ c = '\n' ∨ c = '\r')

theorem Delimits.head?_all {after : List Char} (delimits : Delimits after) {p : Char → Bool}
    (semicolon : p ';') (feed : p '\n') (carriage : p '\r') : after.head?.all p := by
  obtain rfl | ⟨c, rest, rfl, rfl | rfl | rfl⟩ := delimits
  next => rfl
  next => exact semicolon
  next => exact feed
  next => exact carriage

theorem Breaks.delimits {after : List Char} (breaks : Breaks after) : Delimits after := by
  obtain ⟨c, rest, rfl, ends⟩ := breaks
  exact .inr ⟨c, rest, rfl, ends.imp_right .inl⟩

theorem takeWhile_append_stop {p : Char → Bool} {after : List Char} (stop : after.head?.all (!p ·))
    (text : List Char) : (text ++ after).takeWhile p = text.takeWhile p := by
  obtain ⟨own, rest, rfl, inside, ends⟩ := exists_stop p text
  rw [List.append_assoc, takeWhile_append_of_stop inside ends,
    takeWhile_append_of_stop inside (head?_append_all ends stop)]

theorem head?_any_append {p : Char → Bool} {after : List Char} (stop : after.head?.all (!p ·))
    (text : List Char) : (text ++ after).head?.any p = text.head?.any p := by
  cases text with
  | nil => cases after <;> simp_all
  | cons c text => rfl

section Readers

variable {after : List Char} (delimits : Delimits after)
include delimits

namespace NumberLiteral

open Number (isDigit)

theorem fraction_append (text : List Char) : fraction (text ++ after) = fraction text := by
  match text with
  | [] => exact fraction_eq_nil (delimits.head?_all (by decide) (by decide) (by decide))
  | [c] =>
    obtain rfl | ⟨d, rest, rfl, ends⟩ := delimits
    next => rfl
    next =>
      have digit : isDigit d = false := by obtain rfl | rfl | rfl := ends <;> decide
      simp only [List.cons_append, List.nil_append, fraction]
      split <;> simp_all
  | c :: d :: text =>
    have stop : after.head?.all (!isSeparated 10 ·) :=
      delimits.head?_all (by decide) (by decide) (by decide)
    by_cases point : c = '.'
    next =>
      subst point
      simp only [List.cons_append, fraction, takeWhile_append_stop stop]
    next => rw [fraction_eq_nil (by simpa using point), fraction_eq_nil (by simpa using point)]

theorem exponent_append (text : List Char) : exponent (text ++ after) = exponent text := by
  match text with
  | [] => exact exponent_eq_nil (delimits.head?_all (by decide) (by decide) (by decide))
  | [c] =>
    obtain rfl | ⟨d, rest, rfl, ends⟩ := delimits
    next => rfl
    next =>
      have digit : isDigit d = false := by obtain rfl | rfl | rfl := ends <;> decide
      have sign : d ≠ '+' ∧ d ≠ '-' := by obtain rfl | rfl | rfl := ends <;> decide
      simp [exponent, digit, sign]
  | c :: d :: text =>
    have stop : after.head?.all (!isDigit ·) :=
      delimits.head?_all (by decide) (by decide) (by decide)
    simp only [List.cons_append, exponent, takeWhile_append_stop stop, head?_any_append stop]

theorem decimal_append_stop (text : List Char) : decimal (text ++ after) = decimal text := by
  have stop : after.head?.all (!isSeparated 10 ·) :=
    delimits.head?_all (by decide) (by decide) (by decide)
  obtain ⟨whole, rest, rfl, inside, ends⟩ := exists_stop (isSeparated 10) text
  have point : pointLength rest ≤ rest.length := by
    obtain ⟨own, tail, rfl, length, -⟩ := fraction_contained rest
    simp [← length]
  have same : pointLength (rest ++ after) = pointLength rest := by
    rw [pointLength, fraction_append delimits, pointLength]
  rw [List.append_assoc, decimal_append inside (head?_append_all ends stop),
    decimal_append inside ends, same, fraction_append delimits, List.drop_append_of_le_length point,
    exponent_append delimits, markLength, exponent_append delimits, markLength]

theorem read_append_stop {text : List Char} (some : text ≠ []) :
    read (text ++ after) = read text := by
  have decimal := decimal_append_stop delimits text
  match text with
  | [c] =>
    have alone : ∀ mark more, [c] = '0' :: mark :: more → base? mark = none := by simp
    rw [read_eq_decimal alone, read_eq_decimal, decimal]
    rintro mark more same
    -- A zero at the end of the text has no base: what follows is no letter for one.
    obtain rfl | ⟨d, rest, rfl, ends⟩ := delimits
    next => exact alone mark more same
    next =>
      simp only [List.cons_append, List.nil_append, List.cons.injEq] at same
      obtain ⟨-, rfl, -⟩ := same
      obtain rfl | rfl | rfl := ends <;> decide
  | c :: d :: text =>
    by_cases based : c = '0' ∧ (base? d).isSome
    next =>
      obtain ⟨rfl, based⟩ := based
      obtain ⟨base, found⟩ := Option.isSome_iff_exists.mp based
      have stop : after.head?.all (!isSeparated base ·) := by
        refine delimits.head?_all ?_ ?_ ?_ <;> simp [isSeparated, Text.isDigitOf, Text.digitValue?]
      simp only [List.cons_append, read, found, takeWhile_append_stop stop]
    next =>
      have plain (text : List Char) :
          ∀ mark more, c :: d :: text = '0' :: mark :: more → base? mark = none := by
        rintro mark more same
        simp only [List.cons.injEq] at same
        obtain ⟨rfl, rfl, -⟩ := same
        simpa using based
      rw [read_eq_decimal (plain text), ← decimal]
      exact read_eq_decimal (plain (text ++ after))

end NumberLiteral

namespace Punctuator

theorem chars_prefix_append {text : List Char} (some : text ≠ []) (mark : Punctuator) :
    mark.chars <+: text ++ after ↔ mark.chars <+: text := by
  refine ⟨fun longer => ?_, fun shorter => shorter.trans (List.prefix_append ..)⟩
  obtain shorter | ⟨more, chars⟩ :=
    List.prefix_or_prefix_of_prefix longer (List.prefix_append text after)
  next => exact shorter
  next =>
    cases more with
    | nil => exact ⟨[], by simpa using chars.symm⟩
    | cons d more =>
      -- No mark has a semicolon or the end of a line after its first character.
      have inside : mark.chars.tail.all fun c => c != ';' && c != '\n' && c != '\r' := by
        cases mark <;> decide
      rw [← chars, List.prefix_append_right_inj] at longer
      obtain rfl | ⟨c, rest, rfl, ends⟩ := delimits
      next => simp at longer
      next =>
        obtain ⟨e, text, rfl⟩ := List.exists_cons_of_ne_nil some
        rw [← chars] at inside
        obtain ⟨_, same⟩ := longer
        simp only [List.cons_append, List.cons.injEq] at same
        obtain rfl | rfl | rfl := ends <;> simp_all

theorem first?_append_stop {text : List Char} (some : text ≠ []) :
    first? (text ++ after) = first? text := by
  have same (mark : Punctuator) : mark.starts (text ++ after) = mark.starts text := by
    rw [Bool.eq_iff_iff, starts_iff, starts_iff, chars_prefix_append delimits some]
    refine and_congr_right fun starts => imp_congr_right fun chain => ?_
    subst chain
    obtain ⟨more, rfl⟩ := starts
    have stop : after.head?.all (!Char.isDigit ·) :=
      delimits.head?_all (by decide) (by decide) (by decide)
    have behind : (optionalChain.chars ++ (more ++ after)).drop 2 = more ++ after := rfl
    rw [List.append_assoc, behind, head?_any_append stop]
    rfl
  rw [first?, funext same, first?]

end Punctuator

theorem startsNumber_append_stop (c : Char) (rest : List Char) :
    startsNumber c (rest ++ after) = startsNumber c rest := by
  have stop : after.head?.all (!Number.isDigit ·) :=
    delimits.head?_all (by decide) (by decide) (by decide)
  rw [startsNumber, startsNumber, head?_any_append stop]

omit delimits in
theorem TokenKind.read_le (c : Char) (rest : List Char) : (read c rest).2 ≤ rest.length := by
  obtain ⟨own, tail, rfl, length, -⟩ := read_contained c rest
  simp [length]

theorem TokenKind.read_append_stop {c : Char} (single : c ≠ StringLiteral.single)
    (double : c ≠ StringLiteral.double) (template : c ≠ TemplateLiteral.backquote)
    (rest : List Char) : read c (rest ++ after) = read c rest := by
  by_cases word : isWordStart c
  next =>
    have stop : after.head?.all (!isWordPart ·) :=
      delimits.head?_all (by decide +kernel) (by decide +kernel) (by decide +kernel)
    rw [read_word word, read_word word, takeWhile_append_stop stop]
  rw [Bool.not_eq_true] at word
  have same := startsNumber_append_stop delimits c rest
  by_cases number : startsNumber c rest
  next =>
    rw [read_number word (same.trans number), read_number word number, ← List.cons_append,
      NumberLiteral.read_append_stop delimits (by simp)]
  next =>
    rw [Bool.not_eq_true] at number
    rw [read_punctuator word (same.trans number) single double template,
      read_punctuator word number single double template, ← List.cons_append,
      Punctuator.first?_append_stop delimits (by simp)]

end Readers

section Tokens

variable {first second : List Char} (breaks : Breaks first) (breaks' : Breaks second)
include breaks

theorem StringLiteral.readFrom_append_break {quote : Char} (quoted : blocks quote)
    {rest : List Char} (within : (readFrom quote [] 0 (rest ++ first)).2 ≤ rest.length) :
    readFrom quote [] 0 (rest ++ second) = readFrom quote [] 0 (rest ++ first) := by
  obtain ⟨own, tail, split, length, again⟩ := readFrom_own quote [] 0 (rest ++ first) quoted
  rw [length, Nat.zero_add] at within
  obtain ⟨more, rfl⟩ : own <+: rest :=
    List.prefix_of_prefix_length_le ⟨tail, split.symm⟩ (List.prefix_append rest first) within
  rw [List.append_assoc, List.append_cancel_left_eq] at split
  have left : tail ≠ [] := by
    rw [← split, ← List.length_pos_iff, List.length_append]
    have := breaks.length_pos
    omega
  rw [List.append_assoc]
  exact (again left).2 (more ++ second)

theorem TemplateLiteral.read_append_break {rest : List Char}
    (within : (read (rest ++ first)).2 ≤ rest.length) :
    read (rest ++ second) = read (rest ++ first) := by
  cases found : lengthFrom? 0 0 (rest ++ first) with
  | none =>
    have := breaks.length_pos
    simp only [read, found, List.length_append] at within
    omega
  | some length =>
    simp only [read, found] at within
    obtain ⟨own, tail, split, same, again⟩ := lengthFrom?_own found
    rw [Nat.zero_add] at same
    obtain ⟨more, rfl⟩ : own <+: rest :=
      List.prefix_of_prefix_length_le ⟨tail, split.symm⟩ (List.prefix_append rest first)
        (same ▸ within)
    rw [List.append_assoc, List.append_assoc] at *
    simp only [read, found, again, same, List.take_append_of_le_length, Nat.sub_le]

include breaks'

theorem TokenKind.read_append_break {c : Char} {rest : List Char}
    (within : (read c (rest ++ first)).2 ≤ rest.length) :
    read c (rest ++ second) = read c (rest ++ first) := by
  by_cases quoted : c = StringLiteral.single ∨ c = StringLiteral.double
  next =>
    have blocks : StringLiteral.blocks c := by obtain rfl | rfl := quoted <;> decide
    rw [read_quoted quoted] at within ⊢
    rw [read_quoted quoted]
    exact StringLiteral.readFrom_append_break breaks blocks within
  by_cases template : c = TemplateLiteral.backquote
  next =>
    subst template
    rw [read_template] at within ⊢
    rw [read_template]
    exact TemplateLiteral.read_append_break breaks within
  rw [not_or] at quoted
  rw [read_append_stop breaks.delimits quoted.1 quoted.2 template,
    read_append_stop breaks'.delimits quoted.1 quoted.2 template]

omit breaks breaks' in
theorem Trivia.lengthFrom_of_stop {text : List Char} (stop : starts text = false) (count : Nat) :
    lengthFrom .outside count text = count := by
  have added := lengthFrom_add .outside 0 count text
  rwa [Nat.zero_add, ← length, length_eq_zero stop, Nat.zero_add] at added

omit breaks breaks' in
theorem Trivia.lengthFrom_blank {c : Char} (blank : isBlank c) (count : Nat) (rest : List Char) :
    lengthFrom .outside count (c :: rest) = lengthFrom .outside (count + 1) rest := by
  have slash : c ≠ '/' := by
    rintro rfl
    revert blank
    decide
  rw [lengthFrom.eq_def]
  split <;> simp_all

omit breaks breaks' in
theorem Trivia.lengthFrom_block {c : Char} {rest after : List Char}
    (noClose : ∀ tail, c = '*' → rest = '/' :: tail → False) (apart : after.head?.all (· != '/'))
    (count : Nat) :
    lengthFrom .blockComment count (c :: (rest ++ after)) =
      lengthFrom .blockComment (count + 1) (rest ++ after) := by
  have inside (star : c = '*') : (rest ++ after).head? ≠ some '/' := by
    cases rest with
    | nil => cases after <;> simp_all
    | cons d rest =>
      intro slash
      obtain rfl := Option.some.inj slash
      exact noClose rest star rfl
  generalize rest ++ after = text at inside
  rw [lengthFrom.eq_def]
  split <;> simp_all

omit breaks breaks' in
theorem Trivia.le_lengthFrom (place : Place) (count : Nat) (text : List Char) :
    count ≤ lengthFrom place count text := by
  obtain ⟨gap, rest, -, length, -⟩ := lengthFrom_spec place count text
  omega

theorem Trivia.lengthFrom_append_break {place : Place} {count : Nat} {text : List Char}
    (within : lengthFrom place count (text ++ first) < count + text.length) :
    lengthFrom place count (text ++ second) = lengthFrom place count (text ++ first) := by
  fun_induction lengthFrom place count text with
  | case1 place count =>
    have := le_lengthFrom place count first
    simp only [List.nil_append, List.length_nil] at within
    omega
  | case2 count rest ih | case3 count rest ih | case7 count rest ih =>
    exact ih (by simp only [List.cons_append, lengthFrom, List.length_cons] at within; omega)
  | case4 count c rest noLine noBlock blank ih =>
    rw [List.cons_append, lengthFrom_blank blank, List.length_cons] at within
    rw [List.cons_append, List.cons_append, lengthFrom_blank blank, lengthFrom_blank blank]
    exact ih (by omega)
  | case5 count c rest noLine noBlock blank =>
    -- Neither break can make the last character of the text the start of a comment.
    have stop {after : List Char} (breaks : Breaks after) :
        starts (c :: (rest ++ after)) = false := by
      rw [starts_cons, head?_any_append (breaks.head?_all (by decide) (by decide))]
      cases rest <;> simp_all
    rw [List.cons_append, List.cons_append, lengthFrom_of_stop (stop breaks),
      lengthFrom_of_stop (stop breaks')]
  | case6 count c rest ih =>
    simp only [List.cons_append, lengthFrom, List.length_cons] at within ⊢
    exact ih (by omega)
  | case8 count c rest noClose ih =>
    have apart {after : List Char} (breaks : Breaks after) : after.head?.all (· != '/') :=
      breaks.head?_all (by decide) (by decide)
    rw [List.cons_append, lengthFrom_block noClose (apart breaks), List.length_cons] at within
    rw [List.cons_append, List.cons_append, lengthFrom_block noClose (apart breaks),
      lengthFrom_block noClose (apart breaks')]
    exact ih (by omega)

omit breaks breaks' in
theorem Trivia.lengthFrom_feed {place : Place} {count : Nat} {gap : List Char}
    (ends : lengthFrom place count (gap ++ [';']) = count + gap.length) (text : List Char) :
    lengthFrom place count (gap ++ '\n' :: text) =
      lengthFrom .outside (count + gap.length + 1) text := by
  fun_induction lengthFrom place count gap with
  | case1 place count =>
    -- Inside a comment the semicolon would belong to the trivia.
    cases place with
    | outside => exact lengthFrom_blank (by decide) count text
    | lineComment => simp [lengthFrom] at ends
    | blockComment => simp [lengthFrom] at ends
  | case2 count rest ih | case3 count rest ih | case7 count rest ih =>
    simp only [List.cons_append, lengthFrom, List.length_cons] at ends ⊢
    rw [ih (by omega)]
    congr 1
    omega
  | case4 count c rest noLine noBlock blank ih =>
    rw [List.cons_append, lengthFrom_blank blank, List.length_cons] at ends
    rw [List.cons_append, lengthFrom_blank blank, ih (by omega), List.length_cons]
    congr 1
    omega
  | case5 count c rest noLine noBlock blank =>
    have stop : starts (c :: (rest ++ [';'])) = false := by
      rw [starts_cons]
      cases rest <;> simp_all
    rw [List.cons_append, lengthFrom_of_stop stop, List.length_cons] at ends
    omega
  | case6 count c rest ih =>
    simp only [List.cons_append, lengthFrom, List.length_cons] at ends ⊢
    rw [ih (by omega)]
    congr 1
    omega
  | case8 count c rest noClose ih =>
    rw [List.cons_append, lengthFrom_block noClose (by decide), List.length_cons] at ends
    rw [List.cons_append, lengthFrom_block noClose (by rfl), ih (by omega), List.length_cons]
    congr 1
    omega

end Tokens

theorem StringLiteral.readFrom_closed (quote : Char) (value : List Char) (count : Nat)
    (text : List Char) :
    (readFrom quote value count text).1 = .unterminated quote ∨
      ∃ own tail, text = own ++ quote :: tail ∧
        (readFrom quote value count text).2 = count + own.length + 1 := by
  fun_induction readFrom quote value count text with
  | case1 value count => exact .inl rfl
  | case2 value count c rest closes => exact .inr ⟨[], rest, by simpa using closes, rfl⟩
  | case3 value count c closes backslash => exact .inl rfl
  | case4 value count c closes backslash e rest produced more found ih =>
    refine ih.imp_right ?_
    rintro ⟨own, tail, split, length⟩
    have short : more ≤ rest.length := by
      have := escape_le e rest
      rwa [found] at this
    refine ⟨c :: e :: (rest.take more ++ own), tail, ?_, ?_⟩
    next =>
      rw [List.cons_append, List.cons_append, List.append_assoc, ← split, List.take_append_drop]
    next =>
      rw [length]
      simp [short]
      omega
  | case5 value count c rest closes backslash ends => exact .inl rfl
  | case6 value count c rest closes backslash ends ih =>
    refine ih.imp_right ?_
    rintro ⟨own, tail, rfl, length⟩
    exact ⟨c :: own, tail, rfl, by rw [length, List.length_cons]; omega⟩

theorem TemplateLiteral.lengthFrom?_closed {depth count length : Nat} {text : List Char}
    (found : lengthFrom? depth count text = some length) :
    ∃ own tail, text = own ++ backquote :: tail ∧ length = count + own.length + 1 := by
  fun_induction lengthFrom? depth count text with
  | case1 => cases found
  | case2 => cases found
  | case3 depth count c rest ih =>
    obtain ⟨own, tail, rfl, same⟩ := ih found
    exact ⟨'\\' :: c :: own, tail, rfl, by simp [same]; omega⟩
  | case4 count rest =>
    obtain rfl := Option.some.inj found
    exact ⟨[], rest, rfl, rfl⟩
  | case5 count rest ih =>
    obtain ⟨own, tail, rfl, same⟩ := ih found
    exact ⟨'$' :: '\x7b' :: own, tail, rfl, by simp [same]; omega⟩
  | case6 depth count rest ih =>
    obtain ⟨own, tail, rfl, same⟩ := ih found
    exact ⟨'\x7b' :: own, tail, rfl, by simp [same]; omega⟩
  | case7 depth count rest ih =>
    obtain ⟨own, tail, rfl, same⟩ := ih found
    exact ⟨'\x7d' :: own, tail, rfl, by simp [same]; omega⟩
  | case8 depth count c rest _ _ _ _ _ _ ih =>
    obtain ⟨own, tail, rfl, same⟩ := ih found
    exact ⟨c :: own, tail, rfl, by simp [same]; omega⟩

theorem TokenKind.read_semicolon (c : Char) (rest : List Char) :
    (∃ delimiter, (read c (rest ++ [';'])).1 = .unterminated delimiter) ∨
      (read c (rest ++ [';'])).2 ≤ rest.length := by
  have breaks : Breaks [';'] := ⟨';', [], rfl, .inl rfl⟩
  -- A literal ends with its quote, which is not the semicolon, so it ends before that.
  have closed {quote : Char} {own tail : List Char} (apart : quote ≠ ';')
      (split : rest ++ [';'] = own ++ quote :: tail) : own.length + 1 ≤ rest.length := by
    obtain rfl | ⟨last, tail, rfl⟩ := tail.eq_nil_or_concat'
    next =>
      have same := List.append_inj_right' split rfl
      exact absurd (List.cons.inj same).1.symm apart
    next =>
      have length := congrArg List.length split
      simp only [List.length_append, List.length_cons, List.length_nil] at length
      omega
  by_cases quoted : c = StringLiteral.single ∨ c = StringLiteral.double
  next =>
    have apart : c ≠ ';' := by obtain rfl | rfl := quoted <;> decide
    rw [read_quoted quoted]
    obtain opened | ⟨own, tail, split, length⟩ :=
      StringLiteral.readFrom_closed c [] 0 (rest ++ [';'])
    next => exact .inl ⟨c, opened⟩
    next =>
      rw [length, Nat.zero_add]
      exact .inr (closed apart split)
  by_cases template : c = TemplateLiteral.backquote
  next =>
    subst template
    rw [read_template, TemplateLiteral.read]
    split
    next => exact .inl ⟨_, rfl⟩
    next length found =>
      obtain ⟨own, tail, split, rfl⟩ := TemplateLiteral.lengthFrom?_closed found
      rw [Nat.zero_add]
      exact .inr (closed (by decide) split)
  -- Any other token is read as if the text ended before the semicolon.
  rw [not_or] at quoted
  rw [read_append_stop breaks.delimits quoted.1 quoted.2 template]
  exact .inr (read_le c rest)

theorem Cursor.next_of_stop {text : String} {cursor : Cursor} {before : List Char}
    (stands : cursor.Stands (text ++ ";") before) (inside : cursor.next.1.kind.isEnd = false)
    (closed : ∀ delimiter, cursor.next.1.kind ≠ .unterminated delimiter)
    (stop : cursor.next.1.span.stop = text.utf8ByteSize + 1) :
    cursor.next.1.kind = .punctuator .semicolon ∧
      cursor.next.1.span.start = text.utf8ByteSize := by
  have token := ((Yields.plain cursor).stands stands).1
  have whole : (text ++ ";").toList = text.toList ++ [';'] := by simp
  have size : String.utf8Len (text.toList ++ [';']) = text.utf8ByteSize + 1 := by
    rw [String.utf8Len_append, String.utf8Len_toList]
    rfl
  have split := token.split
  rw [whole] at split
  -- The token reaches to the end of the source, so nothing is left after it.
  have ended : cursor.next.2.rest = [] := by
    rw [← String.utf8Len_eq_zero]
    have bytes := congrArg String.utf8Len split
    rw [size, String.utf8Len_append, ← token.stop, stop] at bytes
    omega
  rw [ended, List.append_nil] at split
  cases onToken : cursor.onToken.rest with
  | nil =>
    rw [isEnd_next, onToken] at inside
    cases inside
  | cons c rest =>
    have next := next_of_cons onToken
    have text : cursor.next.1.text = c :: rest := by
      have whole := cursor.next_text_append
      rwa [ended, List.append_nil, ← rest_skip, ← Cursor.onToken, onToken] at whole
    have beyond : rest.length ≤ (TokenKind.read c rest).2 := by
      rw [next] at ended
      rwa [token_after, rest_skip, onToken, List.drop_succ_cons, List.drop_eq_nil_iff] at ended
    rw [text] at split
    -- It is the semicolon alone, or it starts before the semicolon and would have to contain it.
    obtain rfl | ⟨front, last, rfl⟩ := rest.eq_nil_or_concat'
    next =>
      obtain ⟨before, last⟩ := List.append_inj' split rfl
      obtain ⟨rfl, -⟩ := List.cons.inj last
      rw [token.start, ← before, String.utf8Len_toList, next]
      exact ⟨rfl, rfl⟩
    next =>
      rw [← List.cons_append, ← List.append_assoc] at split
      obtain ⟨rfl, -⟩ := List.cons.inj (List.append_inj_right' split rfl)
      rw [next] at closed
      obtain ⟨delimiter, opened⟩ | within := TokenKind.read_semicolon c front
      next => exact absurd opened (closed delimiter)
      next =>
        rw [List.length_append] at beyond
        exact absurd within (Nat.not_le.mpr beyond)

namespace Cursor

theorem next_of_split {gap own after : List Char} {c : Char} {kind : TokenKind}
    (trivia : Trivia.length (gap ++ c :: (own ++ after)) = gap.length)
    (read : TokenKind.read c (own ++ after) = (kind, own.length)) (start : Position) :
    (next ⟨gap ++ c :: (own ++ after), start⟩).1.kind = kind ∧
      (next ⟨gap ++ c :: (own ++ after), start⟩).1.newlineBefore = gap.any isLineTerminator ∧
      (next ⟨gap ++ c :: (own ++ after), start⟩).1.span.position = start.advance gap ∧
      (next ⟨gap ++ c :: (own ++ after), start⟩).2 = ⟨after, start.advance (gap ++ c :: own)⟩ := by
  have onToken : onToken ⟨gap ++ c :: (own ++ after), start⟩ =
      ⟨c :: (own ++ after), start.advance gap⟩ := by
    simp [Cursor.onToken, skip, trivia]
  have found := next_of_cons (congrArg Cursor.rest onToken)
  rw [onToken, read] at found
  rw [found]
  refine ⟨rfl, ?_, rfl, ?_⟩
  next =>
    change (Cursor.gap _).any _ = _
    rw [Cursor.gap, trivia, List.take_left]
  next => simp [skip]

theorem exists_split_of_within {text after : List Char} {start : Position} (some : 0 < after.length)
    (found : (next ⟨text ++ after, start⟩).1.kind.isEnd = false)
    (within : after.length ≤ (next ⟨text ++ after, start⟩).2.rest.length) :
    ∃ gap c own more, text = gap ++ c :: (own ++ more) ∧
      Trivia.length (text ++ after) = gap.length ∧
      (TokenKind.read c (own ++ (more ++ after))).2 = own.length := by
  cases onToken : (onToken ⟨text ++ after, start⟩).rest with
  | nil =>
    rw [isEnd_next, onToken] at found
    cases found
  | cons c rest =>
    rw [next_of_cons onToken, token_after, rest_skip, onToken, List.drop_succ_cons,
      List.length_drop] at within
    rw [Cursor.onToken, rest_skip] at onToken
    dsimp only at onToken
    have length := congrArg List.length onToken
    simp only [List.length_drop, List.length_append, List.length_cons] at length
    have short : Trivia.length (text ++ after) < text.length := by omega
    obtain ⟨gap, tail, rfl, gapLength⟩ :
        ∃ gap tail, text = gap ++ tail ∧ gap.length = Trivia.length (text ++ after) :=
      ⟨_, _, (List.take_append_drop _ text).symm, List.length_take_of_le short.le⟩
    rw [← gapLength, List.append_assoc, List.drop_left] at onToken
    obtain ⟨d, tail, rfl⟩ : ∃ d more, tail = d :: more := by
      refine List.exists_cons_of_ne_nil (List.length_pos_iff.mp ?_)
      rw [List.length_append] at short
      omega
    rw [List.cons_append, List.cons.injEq] at onToken
    obtain ⟨rfl, rfl⟩ := onToken
    have inside : (TokenKind.read d (tail ++ after)).2 ≤ tail.length := by
      rw [List.length_append] at within
      omega
    refine ⟨gap, d, tail.take (TokenKind.read d (tail ++ after)).2, _,
      by rw [List.take_append_drop], gapLength.symm, ?_⟩
    rw [← List.append_assoc, List.take_append_drop, List.length_take_of_le inside]

theorem next_append_break {text first second : List Char} (breaks : Breaks first)
    (breaks' : Breaks second) (start start' : Position)
    (found : (next ⟨text ++ first, start⟩).1.kind.isEnd = false)
    (within : first.length ≤ (next ⟨text ++ first, start⟩).2.rest.length) :
    ∃ own more, text = own ++ more ∧
      (next ⟨text ++ first, start⟩).2 = ⟨more ++ first, start.advance own⟩ ∧
      (next ⟨text ++ second, start'⟩).2 = ⟨more ++ second, start'.advance own⟩ ∧
      (next ⟨text ++ second, start'⟩).1.kind = (next ⟨text ++ first, start⟩).1.kind ∧
      ((∀ c ∈ own, isLineTerminator c = false) →
        (next ⟨text ++ second, start'⟩).1.newlineBefore = false) := by
  obtain ⟨gap, d, own, more, rfl, gapLength, ownLength⟩ :=
    exists_split_of_within breaks.length_pos found within
  have sameTrivia := Trivia.lengthFrom_append_break breaks breaks'
    (show Trivia.length _ < _ by rw [gapLength]; simp)
  have inside : (TokenKind.read d (own ++ more ++ first)).2 ≤ (own ++ more).length := by
    rw [List.append_assoc, ownLength]
    simp
  have sameRead := TokenKind.read_append_break breaks breaks' inside
  have whole (after : List Char) :
      gap ++ d :: (own ++ more) ++ after = gap ++ d :: (own ++ (more ++ after)) := by simp
  rw [← Trivia.length, ← Trivia.length, whole, whole] at sameTrivia
  rw [whole] at gapLength
  rw [List.append_assoc, List.append_assoc] at sameRead
  have read : TokenKind.read d (own ++ (more ++ first)) =
      ((TokenKind.read d (own ++ (more ++ first))).1, own.length) := Prod.ext rfl ownLength
  obtain ⟨kind, -, -, after⟩ := next_of_split gapLength read start
  obtain ⟨kind', newline', -, after'⟩ :=
    next_of_split (sameTrivia.trans gapLength) (sameRead.trans read) start'
  refine ⟨gap ++ d :: own, more, by simp, ?_⟩
  rw [whole, whole, kind, kind', newline', after, after']
  refine ⟨rfl, rfl, rfl, fun line => List.any_eq_false.mpr fun c member => ?_⟩
  simp [line c (List.mem_append_left _ member)]

inductive Lists : Cursor → List Token → Cursor → Prop where
  | nothing (cursor : Cursor) : Lists cursor [] cursor
  | token {cursor after : Cursor} {tokens : List Token} (inside : cursor.next.1.kind.isEnd = false)
      (later : cursor.next.2.Lists tokens after) : Lists cursor (cursor.next.1 :: tokens) after

namespace Lists

variable {cursor after : Cursor} {tokens : List Token}

theorem length_le (lists : cursor.Lists tokens after) :
    after.rest.length ≤ cursor.rest.length := by
  induction lists with
  | nothing => exact le_rfl
  | token inside later ih => exact ih.trans (length_rest_next _ inside).le

theorem append_break (lists : cursor.Lists tokens after) {text first second : List Char}
    (split : cursor.rest = text ++ first) (within : first.length ≤ after.rest.length)
    (breaks : Breaks first) (breaks' : Breaks second) (start : Position)
    (line : ∀ c ∈ text, isLineTerminator c = false) :
    ∃ own gap again, text = own ++ gap ∧ after = ⟨gap ++ first, cursor.position.advance own⟩ ∧
      Lists ⟨text ++ second, start⟩ again ⟨gap ++ second, start.advance own⟩ ∧
      again.map (·.kind) = tokens.map (·.kind) ∧
      ∀ token ∈ again, token.newlineBefore = false := by
  induction lists generalizing text start with
  | nothing cursor =>
    exact ⟨[], text, [], rfl, congrArg (Cursor.mk · _) split, .nothing _, rfl, by simp⟩
  | @token cursor after tokens inside later ih =>
    obtain ⟨rest, place⟩ := cursor
    obtain rfl : rest = text ++ first := split
    obtain ⟨own, more, rfl, passed, passed', kind, newline⟩ :=
      next_append_break breaks breaks' place start inside (within.trans later.length_le)
    obtain ⟨lineOwn, lineMore⟩ := List.forall_mem_append.mp line
    obtain ⟨further, gap, again, rfl, stop, lists, kinds, lines⟩ :=
      ih (congrArg Cursor.rest passed) within (start.advance own) lineMore
    rw [passed, ← Position.advance_append] at stop
    rw [← Position.advance_append] at lists
    refine ⟨own ++ further, gap, _, by rw [List.append_assoc], stop,
      .token (kind ▸ inside) (passed' ▸ lists), ?_, ?_⟩
    next => rw [List.map_cons, List.map_cons, kind, kinds]
    next => exact List.forall_mem_cons.mpr ⟨newline lineOwn, lines⟩

theorem blank {text : List Char} {start : Position} (some : tokens ≠ [])
    (lists : Lists ⟨text, start.next ' '⟩ tokens after) :
    Lists ⟨' ' :: text, start⟩ tokens after := by
  cases lists with
  | nothing => exact absurd rfl some
  | token inside later =>
    rw [← next_blank] at *
    exact .token inside later

theorem stands {source : String} {before : List Char} (lists : cursor.Lists tokens after)
    (stands : cursor.Stands source before) : ∃ passed, after.Stands source passed := by
  induction lists generalizing before with
  | nothing => exact ⟨before, stands⟩
  | token inside later ih => exact ih ((Yields.plain _).stands stands).2

theorem stop {last : Token} (lists : cursor.Lists (tokens ++ [last]) after) :
    last.span.stop = after.position.offset := by
  generalize listed : tokens ++ [last] = all at lists
  induction lists generalizing tokens with
  | nothing => simp at listed
  | @token cursor after _ inside later ih =>
    cases tokens with
    | nil =>
      obtain ⟨rfl, rfl⟩ : last = cursor.next.1 ∧ _ = _ := by simpa using listed
      cases later
      obtain ⟨kind, length, read⟩ := cursor.next_eq_token
      rw [read]
      rfl
    | cons token tokens => exact ih (List.cons.inj listed).2

end Lists

theorem lists_of_tokens {cursor : Cursor} {front rest : List Token}
    (read : cursor.tokens = front ++ rest) (some : rest ≠ []) :
    ∃ after, cursor.Lists front after ∧ after.tokens = rest := by
  induction front generalizing cursor with
  | nil => exact ⟨cursor, .nothing cursor, read⟩
  | cons token front ih =>
    have found : cursor.next.1.kind.isEnd = false := by
      by_contra ended
      rw [tokens_of_isEnd (by simpa using ended), List.cons_append, List.cons.injEq,
        List.nil_eq_append_iff] at read
      exact some read.2.2
    rw [tokens_of_found found, List.cons_append, List.cons.injEq] at read
    obtain ⟨rfl, read⟩ := read
    obtain ⟨after, lists, rest⟩ := ih read
    exact ⟨after, .token found lists, rest⟩

theorem next_of_tokens {cursor : Cursor} {token : Token} {rest : List Token}
    (read : cursor.tokens = token :: rest) : cursor.next.1 = token := by
  rw [tokens_eq] at read
  split at read <;> exact (List.cons.inj read).1

end Cursor

theorem Cursor.next_feed {gap : List Char} (trivia : Trivia.length (gap ++ [';']) = gap.length)
    (text : List Char) (start : Position) :
    next ⟨gap ++ '\n' :: text, start⟩ =
      ({ (next ⟨text, (start.advance gap).next '\n'⟩).1 with newlineBefore := true },
        (next ⟨text, (start.advance gap).next '\n'⟩).2) := by
  have length : Trivia.length (gap ++ '\n' :: text) = gap.length + (Trivia.length text + 1) := by
    rw [Trivia.length, Trivia.lengthFrom_feed (trivia.trans (Nat.zero_add _).symm), Trivia.length,
      Nat.zero_add, ← Nat.zero_add (gap.length + 1), Trivia.lengthFrom_add]
    omega
  have place : onToken ⟨gap ++ '\n' :: text, start⟩ =
      onToken ⟨text, (start.advance gap).next '\n'⟩ := by
    simp [onToken, skip, length, List.take_length_add_append, Position.advance_append]
  have ends : (Cursor.gap ⟨gap ++ '\n' :: text, start⟩).any isLineTerminator := by
    simp [Cursor.gap, length, List.take_length_add_append, show isLineTerminator '\n' by decide]
  cases found : (onToken ⟨text, (start.advance gap).next '\n'⟩).rest with
  | nil => rw [next_of_nil found, next_of_nil (place ▸ found), place, ends]; rfl
  | cons c rest => rw [next_of_cons found, next_of_cons (place ▸ found), place, ends]; rfl

namespace TokenStream

def behind (cursor : Cursor) (kind : TokenKind) (size : Nat) : TokenStream :=
  ⟨cursor.next.1, cursor.next.2, kind, cursor.position.offset, size⟩

theorem ofText_eq_behind (source : String) :
    ofText source = behind (.ofText source) .endOfInput source.utf8ByteSize := rfl

theorem advance_behind (cursor : Cursor) (kind : TokenKind) (size : Nat) :
    (behind cursor kind size).advance = behind cursor.next.2 cursor.next.1.kind size := by
  obtain ⟨found, length, read⟩ := cursor.next_eq_token
  rw [advance, behind, behind, read]
  rfl

theorem behind_stands {source : String} {before : List Char} {cursor : Cursor}
    (stands : cursor.Stands source before) (kind : TokenKind) :
    (behind cursor kind source.utf8ByteSize).Stands source (before ++ cursor.gap) := by
  have next := (Cursor.Yields.plain cursor).stands stands
  exact ⟨rfl, next.1.start, next.2, cursor.next_text_ne_nil⟩

theorem spells_of_lists {source : String} {before : List Char} {cursor after : Cursor}
    {tokens : List Token} (lists : cursor.Lists tokens after) (stands : cursor.Stands source before)
    (line : ∀ token ∈ tokens, token.newlineBefore = false) (kind : TokenKind) :
    (behind cursor kind source.utf8ByteSize).Spells (tokens.map (·.kind))
      (behind after ((tokens.map (·.kind)).getLastD kind) source.utf8ByteSize) := by
  induction lists generalizing before kind with
  | nothing => exact .nothing _
  | @token cursor _ _ inside later ih =>
    obtain ⟨first, line⟩ := List.forall_mem_cons.mp line
    have spells := ih ((Cursor.Yields.plain cursor).stands stands).2 line cursor.next.1.kind
    rw [← advance_behind _ kind] at spells
    rw [List.map_cons, List.getLastD_cons]
    exact .token first ((behind_stands stands kind).remaining_advance inside) spells

end TokenStream

end EventLoop
