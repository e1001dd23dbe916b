import EventLoop.Token.Basic

set_option autoImplicit false

/-!
# Literals between delimiters

Strings, templates and regular expressions. Each reader gives the kind of the literal and how many
characters belong to it; a missing delimiter is a kind of its own.
-/

namespace EventLoop

def scalar? (code : Nat) : Option Char :=
  if code.isValidChar then some (Char.ofNat code) else none

namespace StringLiteral

def single : Char := '\x27'

def double : Char := '\x22'

def isHexDigit (c : Char) : Bool := Text.isDigitOf 16 c

def hexEscape (count : Nat) (rest : List Char) : Option Char × Nat :=
  let digits := rest.take count
  if digits.length == count && digits.all isHexDigit then
    (scalar? (Text.digitsValue 16 digits), count)
  else (none, 0)

def bracedEscape (rest : List Char) : Option Char × Nat :=
  let digits := rest.takeWhile isHexDigit
  let close := if (rest.drop digits.length).head? == some '\x7d' then 1 else 0
  (if digits.isEmpty then none else scalar? (Text.digitsValue 16 digits), digits.length + close)

/-- The character that an escape stands for, if any, given the character after the backslash and
what follows it. The count says how many characters of what follows belong to it. -/
def escape (c : Char) (rest : List Char) : Option Char × Nat :=
  match c with
  | 'n' => (some '\n', 0)
  | 'r' => (some '\r', 0)
  | 't' => (some '\t', 0)
  | 'b' => (some '\x08', 0)
  | 'f' => (some '\x0c', 0)
  | 'v' => (some '\x0b', 0)
  | '0' => (some '\x00', 0)
  | 'x' => hexEscape 2 rest
  | 'u' =>
      match rest with
      | '\x7b' :: rest =>
          let (produced, count) := bracedEscape rest
          (produced, count + 1)
      | rest => hexEscape 4 rest
  | c => (if Text.isLineTerminator c then none else some c, 0)

def readFrom (quote : Char) (value : List Char) (count : Nat) : List Char → TokenKind × Nat
  | [] => (.unterminated quote, count)
  | c :: rest =>
      if c == quote then (.string (String.ofList value.reverse), count + 1)
      else if c == '\\' then
        match rest with
        | [] => (.unterminated quote, count + 1)
        | e :: rest =>
            let (produced, more) := escape e rest
            readFrom quote (produced.toList ++ value) (count + 2 + more) (rest.drop more)
      else if Text.isLineTerminator c then (.unterminated quote, count + 1)
      else readFrom quote (c :: value) (count + 1) rest
termination_by text => text.length

end StringLiteral

namespace TemplateLiteral

def backquote : Char := '\x60'

/-- The length of what is left of a template with its closing backquote. Inside a substitution
braces are counted and backquotes are plain; a backslash hides the character after it. -/
def lengthFrom? : Nat → Nat → List Char → Option Nat
  | _, _, [] => none
  | _, _, ['\\'] => none
  | depth, count, '\\' :: _ :: rest => lengthFrom? depth (count + 2) rest
  | 0, count, '\x60' :: _ => some (count + 1)
  | 0, count, '$' :: '\x7b' :: rest => lengthFrom? 1 (count + 2) rest
  | depth + 1, count, '\x7b' :: rest => lengthFrom? (depth + 2) (count + 1) rest
  | depth + 1, count, '\x7d' :: rest => lengthFrom? depth (count + 1) rest
  | depth, count, _ :: rest => lengthFrom? depth (count + 1) rest

def read (rest : List Char) : TokenKind × Nat :=
  match lengthFrom? 0 0 rest with
  | none => (.unterminated backquote, rest.length)
  | some length => (.template (String.ofList (rest.take (length - 1))), length)

end TemplateLiteral

namespace RegexpLiteral

/-- Whether the pattern is closed, and the length of what is left of it with its closing slash. In
a class a slash is plain. -/
def readFrom (inClass : Bool) (count : Nat) : List Char → Bool × Nat
  | [] => (false, count)
  | ['\\'] => (false, count + 1)
  | '\\' :: _ :: rest => readFrom inClass (count + 2) rest
  | c :: rest =>
      if Text.isLineTerminator c then (false, count + 1)
      else if c == '/' && !inClass then (true, count + 1)
      else readFrom (if c == '[' then true else if c == ']' then false else inClass)
        (count + 1) rest

def read (rest : List Char) : TokenKind × Nat :=
  match readFrom false 0 rest with
  | (false, length) => (.unterminated '/', length)
  | (true, length) =>
      let flags := (rest.drop length).takeWhile Char.isAlpha
      (.regexp (String.ofList (rest.take (length - 1))) (String.ofList flags),
        length + flags.length)

end RegexpLiteral

namespace Cursor

open StringLiteral (isHexDigit)

def hexEscape (count : Nat) (cursor : Cursor) : Option Char × Cursor :=
  match Text.splitBytes? count cursor.rest with
  | some (digits, _) =>
      if digits.all isHexDigit then
        (scalar? (Text.digitsValue 16 digits), cursor.skipAscii digits)
      else (none, cursor)
  | none => (none, cursor)

def bracedEscape (cursor : Cursor) : Option Char × Cursor :=
  let (digits, after) := cursor.eatWhile isHexDigit
  (if digits.isEmpty then none else scalar? (Text.digitsValue 16 digits),
    (after.eat? '\x7d').getD after)

def escape (cursor : Cursor) : Option Char × Cursor :=
  match cursor.bump? with
  | none => (none, cursor)
  | some (c, after) =>
      match c with
      | 'n' => (some '\n', after)
      | 'r' => (some '\r', after)
      | 't' => (some '\t', after)
      | 'b' => (some '\x08', after)
      | 'f' => (some '\x0c', after)
      | 'v' => (some '\x0b', after)
      | '0' => (some '\x00', after)
      | 'x' => after.hexEscape 2
      | 'u' =>
          match after.eat? '\x7b' with
          | some inside => inside.bracedEscape
          | none => after.hexEscape 4
      | c => (if Text.isLineTerminator c then none else some c, after)

theorem all_isPlain_of_isHexDigit {text : List Char} (digits : text.all isHexDigit) :
    text.all Text.isPlain := by
  rw [List.all_eq_true] at digits ⊢
  exact fun c member => Text.isPlain_of_isDigitOf (digits c member)

theorem splitBytes?_hex {count : Nat} {text : List Char}
    (digits : (text.take count).length == count && (text.take count).all isHexDigit) :
    Text.splitBytes? count text = some (text.take count, text.drop count) := by
  simp only [Bool.and_eq_true, beq_iff_eq] at digits
  have split := Text.splitBytes?_append (text.take count) (text.drop count)
  rwa [List.take_append_drop, Text.byteCount_plain (all_isPlain_of_isHexDigit digits.2),
    digits.1] at split

theorem hexEscape_eq (count : Nat) (cursor : Cursor) :
    cursor.hexEscape count = ((StringLiteral.hexEscape count cursor.rest).1,
      cursor.skip (StringLiteral.hexEscape count cursor.rest).2) := by
  unfold hexEscape StringLiteral.hexEscape
  dsimp only
  by_cases digits :
      (cursor.rest.take count).length == count && (cursor.rest.take count).all isHexDigit
  next =>
    rw [if_pos digits, splitBytes?_hex digits]
    simp only [Bool.and_eq_true, beq_iff_eq] at digits
    have plain := all_isPlain_of_isHexDigit digits.2
    simp only [digits.2, if_true, skipAscii_eq_skip (List.take_prefix ..) plain, digits.1]
  next =>
    rw [if_neg digits]
    split
    next own after found =>
      obtain ⟨split, bytes⟩ := Text.eq_append_of_splitBytes? found
      rw [if_neg]
      next => rfl
      intro hex
      have length : own.length = count :=
        (Text.byteCount_plain (all_isPlain_of_isHexDigit hex)).symm.trans bytes
      rw [split, ← length, List.take_left] at digits
      simp [hex] at digits
    next => rfl

theorem bracedEscape_eq (cursor : Cursor) :
    cursor.bracedEscape = ((StringLiteral.bracedEscape cursor.rest).1,
      cursor.skip (StringLiteral.bracedEscape cursor.rest).2) := by
  simp only [bracedEscape, StringLiteral.bracedEscape, eatWhile_eq, eat?, first?, rest_skip,
    bump_eq_skip, skip_skip]
  congr 1
  split <;> rfl

theorem escape_eq {cursor : Cursor} {c : Char} {more : List Char}
    (found : cursor.rest = c :: more) :
    cursor.escape = ((StringLiteral.escape c more).1,
      cursor.skip (1 + (StringLiteral.escape c more).2)) := by
  have rest : (cursor.skip 1).rest = more := by simp [found]
  have step := bump?_of_cons found
  fun_cases StringLiteral.escape c more with
  | case8 => simp only [escape, step, hexEscape_eq, skip_skip, rest]
  | case9 more produced count braced =>
    have inside : (cursor.skip 1).eat? '\x7b' = some (cursor.skip 2) := by
      simp [eat?, first?, rest, bump_eq_skip, skip_skip, -rest_skip]
    have tail : (cursor.skip 2).rest = more := by simp [found]
    simp only [escape, step, inside, bracedEscape_eq, tail, braced, skip_skip]
    congr 2
    omega
  | case10 _ other =>
    have plain : (cursor.skip 1).eat? '\x7b' = none := by
      rw [eat?, first?, rest, if_neg]
      intro brace
      obtain ⟨tail, rfl⟩ := List.head?_eq_some_iff.mp (beq_iff_eq.mp brace)
      exact other tail rfl
    simp only [escape, step, plain, hexEscape_eq, skip_skip, rest]
  | case11 => simp only [escape, step]
  | _ => simp only [escape, step]

theorem length_escape (cursor : Cursor) : cursor.escape.2.rest.length ≤ cursor.rest.length := by
  cases found : cursor.rest with
  | nil => simp [escape, bump?_eq_none_iff.mpr found, found]
  | cons c more => simp [escape_eq found, found]

def stringFrom (quote : Char) (value : List Char) (cursor : Cursor) : TokenKind × Cursor :=
  match _step : cursor.bump? with
  | none => (.unterminated quote, cursor)
  | some (c, after) =>
      if c == quote then (.string (String.ofList value.reverse), after)
      else if c == '\\' then
        if after.first?.isNone then (.unterminated quote, after)
        else
          let escaped := after.escape
          escaped.2.stringFrom quote (escaped.1.toList ++ value)
      else if Text.isLineTerminator c then (.unterminated quote, after)
      else after.stringFrom quote (c :: value)
termination_by cursor.rest.length
decreasing_by
  next => exact Nat.lt_of_le_of_lt (length_escape after) (length_bump? _step)
  next => exact length_bump? _step

def string (quote : Char) (cursor : Cursor) : TokenKind × Cursor :=
  cursor.bump.stringFrom quote []

def templateFrom (depth : Nat) (cursor : Cursor) : Bool × Cursor :=
  match _step : cursor.bump? with
  | none => (false, cursor)
  | some (c, after) =>
      if c == TemplateLiteral.backquote && depth == 0 then (true, after)
      else if c == '\\' then after.bump.templateFrom depth
      else if c == '$' && depth == 0 && after.first? == some '\x7b' then after.bump.templateFrom 1
      else if c == '\x7b' && depth > 0 then after.templateFrom (depth + 1)
      else if c == '\x7d' && depth > 0 then after.templateFrom (depth - 1)
      else after.templateFrom depth
termination_by cursor.rest.length
decreasing_by
  all_goals
    have shorter := length_bump? _step
    have bumped := length_bump_le after
    omega

def inner (start after : Cursor) : String := String.ofList ((start.slice after).drop 1).dropLast

def template (cursor : Cursor) : TokenKind × Cursor :=
  match cursor.bump.templateFrom 0 with
  | (false, after) => (.unterminated TemplateLiteral.backquote, after)
  | (true, after) => (.template (cursor.inner after), after)

def patternFrom (inClass : Bool) (cursor : Cursor) : Bool × Cursor :=
  match _step : cursor.bump? with
  | none => (false, cursor)
  | some (c, after) =>
      if Text.isLineTerminator c then (false, after)
      else if c == '\\' then after.bump.patternFrom inClass
      else if c == '[' then after.patternFrom true
      else if c == ']' then after.patternFrom false
      else if c == '/' && !inClass then (true, after)
      else after.patternFrom inClass
termination_by cursor.rest.length
decreasing_by
  all_goals
    have shorter := length_bump? _step
    have bumped := length_bump_le after
    omega

def pattern (cursor : Cursor) : TokenKind × Cursor :=
  match cursor.bump.patternFrom false with
  | (false, after) => (.unterminated '/', after)
  | (true, after) =>
      let (flags, after') := after.eatWhile Char.isAlpha
      (.regexp (cursor.inner after) (String.ofList flags), after')

theorem stringFrom_of_nil {cursor : Cursor} (ended : cursor.rest = []) (quote : Char)
    (value : List Char) : cursor.stringFrom quote value = (.unterminated quote, cursor) := by
  rw [stringFrom]
  split
  next => rfl
  next step => simp [bump?_eq_none_iff.mpr ended] at step

theorem stringFrom_of_cons {cursor : Cursor} {c : Char} {more : List Char}
    (found : cursor.rest = c :: more) (quote : Char) (value : List Char) :
    cursor.stringFrom quote value =
      if c == quote then (.string (String.ofList value.reverse), cursor.skip 1)
      else if c == '\\' then
        if more.isEmpty then (.unterminated quote, cursor.skip 1)
        else (cursor.skip 1).escape.2.stringFrom quote
          ((cursor.skip 1).escape.1.toList ++ value)
      else if Text.isLineTerminator c then (.unterminated quote, cursor.skip 1)
      else (cursor.skip 1).stringFrom quote (c :: value) := by
  rw [stringFrom]
  split
  next step => simp [bump?_of_cons found] at step
  next step =>
    cases (bump?_of_cons found).symm.trans step
    simp [first?, found]

theorem stringFrom_skip (quote : Char) (value : List Char) (start : Cursor) (count : Nat) :
    (start.skip count).stringFrom quote value =
      ((StringLiteral.readFrom quote value count (start.skip count).rest).1,
        start.skip (StringLiteral.readFrom quote value count (start.skip count).rest).2) := by
  generalize left : (start.skip count).rest = text
  fun_induction StringLiteral.readFrom quote value count text with
  | case1 value count => exact stringFrom_of_nil left quote value
  | case2 value count c rest closes =>
    rw [stringFrom_of_cons left, if_pos closes, skip_skip]
  | case3 value count c closes backslash =>
    rw [stringFrom_of_cons left, if_neg closes, if_pos backslash, skip_skip]
    rfl
  | case4 value count c closes backslash e rest produced more escaped ih =>
    have after : (start.skip (count + 1)).rest = e :: rest := rest_skip_succ left
    have places : count + 1 + (1 + more) = count + 2 + more := by omega
    have tail : (start.skip (count + 2 + more)).rest = rest.drop more := by
      rw [← places, ← skip_skip, rest_skip, after, ← List.drop_drop]
      rfl
    rw [stringFrom_of_cons left, if_neg closes, if_pos backslash, skip_skip, escape_eq after,
      escaped, skip_skip, places]
    exact ih tail
  | case5 value count c rest closes backslash ends =>
    rw [stringFrom_of_cons left, if_neg closes, if_neg backslash, if_pos ends, skip_skip]
  | case6 value count c rest closes backslash ends ih =>
    rw [stringFrom_of_cons left, if_neg closes, if_neg backslash, if_neg ends, skip_skip]
    exact ih (rest_skip_succ left)

theorem string_eq {cursor : Cursor} {more : List Char} (rest : (cursor.skip 1).rest = more)
    (quote : Char) :
    cursor.string quote = ((StringLiteral.readFrom quote [] 0 more).1,
      cursor.skip (1 + (StringLiteral.readFrom quote [] 0 more).2)) := by
  have moved := stringFrom_skip quote [] (cursor.skip 1) 0
  rwa [skip_zero, rest, skip_skip, ← bump_eq_skip, ← string] at moved

theorem skip_of_ended {cursor : Cursor} {count : Nat} (ended : (cursor.skip count).rest = []) :
    cursor.skip count = cursor.skip cursor.rest.length := by
  have long : cursor.rest.length ≤ count := List.drop_eq_nil_iff.mp ended
  simp [skip, List.drop_eq_nil_of_le long, List.take_of_length_le long]

theorem templateFrom_of_nil {cursor : Cursor} (ended : cursor.rest = []) (depth : Nat) :
    cursor.templateFrom depth = (false, cursor) := by
  rw [templateFrom]
  split
  next => rfl
  next step => simp [bump?_eq_none_iff.mpr ended] at step

theorem templateFrom_of_cons {cursor : Cursor} {c : Char} {more : List Char}
    (found : cursor.rest = c :: more) (depth : Nat) :
    cursor.templateFrom depth =
      if c == TemplateLiteral.backquote && depth == 0 then (true, cursor.skip 1)
      else if c == '\\' then (cursor.skip 2).templateFrom depth
      else if c == '$' && depth == 0 && more.head? == some '\x7b' then
        (cursor.skip 2).templateFrom 1
      else if c == '\x7b' && depth > 0 then (cursor.skip 1).templateFrom (depth + 1)
      else if c == '\x7d' && depth > 0 then (cursor.skip 1).templateFrom (depth - 1)
      else (cursor.skip 1).templateFrom depth := by
  rw [templateFrom]
  split
  next step => simp [bump?_of_cons found] at step
  next step =>
    cases (bump?_of_cons found).symm.trans step
    simp only [first?, bump_eq_skip, skip_skip, rest_skip, found, List.drop_succ_cons,
      List.drop_zero]

theorem templateFrom_skip (depth : Nat) (start : Cursor) (count : Nat) :
    (start.skip count).templateFrom depth =
      match TemplateLiteral.lengthFrom? depth count (start.skip count).rest with
      | none => (false, start.skip start.rest.length)
      | some length => (true, start.skip length) := by
  generalize left : (start.skip count).rest = text
  fun_induction TemplateLiteral.lengthFrom? depth count text with
  | case1 depth count => rw [templateFrom_of_nil left, skip_of_ended left]
  | case2 depth count =>
    have ended : (start.skip (count + 2)).rest = [] := by
      rw [← skip_skip, rest_skip, left]
      rfl
    rw [templateFrom_of_cons left]
    simp only [skip_skip]
    rw [templateFrom_of_nil ended, skip_of_ended ended]
    rfl
  | case3 depth count c rest ih =>
    rw [templateFrom_of_cons left]
    simp only [skip_skip]
    exact ih (rest_skip_succ (rest_skip_succ left))
  | case4 count rest =>
    rw [templateFrom_of_cons left, skip_skip]
    rfl
  | case5 count rest ih =>
    rw [templateFrom_of_cons left]
    simp only [skip_skip]
    exact ih (rest_skip_succ (rest_skip_succ left))
  | case6 depth count rest ih =>
    rw [templateFrom_of_cons left, skip_skip]
    exact ih (rest_skip_succ left)
  | case7 depth count rest ih =>
    rw [templateFrom_of_cons left, skip_skip]
    exact ih (rest_skip_succ left)
  | case8 depth count c rest alone escape closes opens nests unnests ih =>
    have backslash : ¬c == '\\' := by
      intro same
      cases rest with
      | nil => exact alone (beq_iff_eq.mp same) rfl
      | cons d rest => exact escape d rest (beq_iff_eq.mp same) rfl
    have backquote : ¬(c == TemplateLiteral.backquote && depth == 0) := by
      simpa [TemplateLiteral.backquote, imp_not_comm] using closes
    have substitution : ¬(c == '$' && depth == 0 && rest.head? == some '\x7b') := by
      simp only [Bool.and_eq_true, beq_iff_eq]
      rintro ⟨⟨dollar, zero⟩, brace⟩
      obtain ⟨tail, rfl⟩ := List.head?_eq_some_iff.mp brace
      exact opens tail zero dollar rfl
    have inside (brace : Char) (none : ∀ depth', depth = depth' + 1 → c = brace → False) :
        ¬(c == brace && depth > 0) := by
      simp only [Bool.and_eq_true, beq_iff_eq, decide_eq_true_iff]
      rintro ⟨same, positive⟩
      exact none (depth - 1) (by omega) same
    rw [templateFrom_of_cons left, if_neg backquote, if_neg backslash, if_neg substitution,
      if_neg (inside _ nests), if_neg (inside _ unnests), skip_skip]
    exact ih (rest_skip_succ left)

theorem patternFrom_of_nil {cursor : Cursor} (ended : cursor.rest = []) (inClass : Bool) :
    cursor.patternFrom inClass = (false, cursor) := by
  rw [patternFrom]
  split
  next => rfl
  next step => simp [bump?_eq_none_iff.mpr ended] at step

theorem patternFrom_of_cons {cursor : Cursor} {c : Char} {more : List Char}
    (found : cursor.rest = c :: more) (inClass : Bool) :
    cursor.patternFrom inClass =
      if Text.isLineTerminator c then (false, cursor.skip 1)
      else if c == '\\' then (cursor.skip 2).patternFrom inClass
      else if c == '[' then (cursor.skip 1).patternFrom true
      else if c == ']' then (cursor.skip 1).patternFrom false
      else if c == '/' && !inClass then (true, cursor.skip 1)
      else (cursor.skip 1).patternFrom inClass := by
  rw [patternFrom]
  split
  next step => simp [bump?_of_cons found] at step
  next step =>
    cases (bump?_of_cons found).symm.trans step
    simp only [bump_eq_skip, skip_skip]

theorem patternFrom_skip (inClass : Bool) (start : Cursor) (count : Nat) :
    (start.skip count).patternFrom inClass =
      ((RegexpLiteral.readFrom inClass count (start.skip count).rest).1,
        start.skip (RegexpLiteral.readFrom inClass count (start.skip count).rest).2) := by
  have backslash : Text.isLineTerminator '\\' = false := by decide
  generalize left : (start.skip count).rest = text
  fun_induction RegexpLiteral.readFrom inClass count text with
  | case1 inClass count => exact patternFrom_of_nil left inClass
  | case2 inClass count =>
    have ended : (start.skip (count + 1)).rest = [] := rest_skip_succ left
    have past : (start.skip (count + 2)).rest = [] := by
      rw [← skip_skip, rest_skip, left]
      rfl
    rw [patternFrom_of_cons left, backslash]
    simp only [skip_skip]
    rw [patternFrom_of_nil past, skip_of_ended past, ← skip_of_ended ended]
    rfl
  | case3 inClass count c rest ih =>
    rw [patternFrom_of_cons left, backslash]
    simp only [skip_skip]
    exact ih (rest_skip_succ (rest_skip_succ left))
  | case4 inClass count c rest alone escape ends =>
    rw [patternFrom_of_cons left, if_pos ends, skip_skip]
  | case5 inClass count c rest alone escape ends closes =>
    simp only [Bool.and_eq_true, beq_iff_eq] at closes
    obtain ⟨rfl, outside⟩ := closes
    rw [patternFrom_of_cons left, if_neg ends, outside]
    simp only [skip_skip]
    rfl
  | case6 inClass count c rest alone escape ends closes ih =>
    have backslash : ¬c == '\\' := by
      intro same
      cases rest with
      | nil => exact alone (beq_iff_eq.mp same) rfl
      | cons d rest => exact escape d rest (beq_iff_eq.mp same) rfl
    rw [patternFrom_of_cons left, if_neg ends, if_neg backslash, if_neg closes, skip_skip,
      ← ih (rest_skip_succ left)]
    split
    next => rfl
    next => split <;> rfl

theorem inner_skip {cursor : Cursor} {more : List Char} {length : Nat}
    (rest : (cursor.skip 1).rest = more) (short : length ≤ more.length) :
    cursor.inner (cursor.skip (1 + length)) = String.ofList (more.take (length - 1)) := by
  rw [rest_skip] at rest
  rw [inner, slice_skip, List.drop_take, rest, Nat.add_sub_cancel_left, List.dropLast_eq_take,
    List.length_take, Nat.min_eq_left short, List.take_take, Nat.min_eq_left (Nat.sub_le ..)]

theorem lengthFrom?_le {depth count length : Nat} {text : List Char}
    (found : TemplateLiteral.lengthFrom? depth count text = some length) :
    length ≤ count + text.length := by
  fun_induction TemplateLiteral.lengthFrom? depth count text with
  | case1 | case2 => cases found
  | case4 count rest =>
    cases found
    simp
  | case3 _ _ _ _ ih | case5 _ _ ih | case6 _ _ _ ih | case7 _ _ _ ih
  | case8 _ _ _ _ _ _ _ _ _ _ ih =>
    have := ih found
    simp only [List.length_cons]
    omega

theorem template_eq {cursor : Cursor} {more : List Char} (rest : (cursor.skip 1).rest = more) :
    cursor.template = ((TemplateLiteral.read more).1,
      cursor.skip (1 + (TemplateLiteral.read more).2)) := by
  have moved := templateFrom_skip 0 (cursor.skip 1) 0
  rw [skip_zero, rest, ← bump_eq_skip] at moved
  rw [template, moved, TemplateLiteral.read]
  cases length : TemplateLiteral.lengthFrom? 0 0 more with
  | none => simp only [bump_eq_skip, skip_skip]
  | some length =>
    have short := lengthFrom?_le length
    rw [Nat.zero_add] at short
    simp only [bump_eq_skip, skip_skip, inner_skip rest short]

theorem readFrom_le (inClass : Bool) (count : Nat) (text : List Char) :
    (RegexpLiteral.readFrom inClass count text).2 ≤ count + text.length := by
  fun_induction RegexpLiteral.readFrom inClass count text with
  | case1 | case2 | case4 | case5 => simp
  | case3 _ _ _ _ ih | case6 _ _ _ _ _ _ _ _ ih =>
    simp only [List.length_cons]
    omega

theorem pattern_eq {cursor : Cursor} {more : List Char} (rest : (cursor.skip 1).rest = more) :
    cursor.pattern = ((RegexpLiteral.read more).1,
      cursor.skip (1 + (RegexpLiteral.read more).2)) := by
  have moved := patternFrom_skip false (cursor.skip 1) 0
  have short := readFrom_le false 0 more
  rw [skip_zero, rest, ← bump_eq_skip] at moved
  rw [Nat.zero_add] at short
  rw [pattern, moved, RegexpLiteral.read]
  generalize RegexpLiteral.readFrom false 0 more = found at short
  obtain ⟨closed, length⟩ := found
  cases closed with
  | false => simp only [bump_eq_skip, skip_skip]
  | true =>
    have after : (cursor.skip (1 + length)).rest = more.drop length := by
      rw [← skip_skip, rest_skip, rest]
    simp only [bump_eq_skip, skip_skip, eatWhile_eq, after, inner_skip rest short, Nat.add_assoc]

end Cursor

end EventLoop
