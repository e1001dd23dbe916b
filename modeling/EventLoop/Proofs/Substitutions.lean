import EventLoop.Proofs.Spellings

set_option autoImplicit false

/-!
# Templates and the code in them

A template is read character by character: between `${` and the brace that closes it braces are
counted wherever they stand, in code as in strings and comments of that code.
-/

namespace EventLoop

open Text (isWordPart isWordStart)

namespace TemplateLiteral

def marks : List Char := ['\\', '\x7b', '\x7d']

/-- Braces are paired and nested, where a backslash hides the character after it. -/
inductive Closed : List Char → Prop where
  | nothing : Closed []
  | hidden (c : Char) {text : List Char} (later : Closed text) : Closed ('\\' :: c :: text)
  | plain {c : Char} {text : List Char} (plain : c ∉ marks) (later : Closed text) :
      Closed (c :: text)
  | braces {inner text : List Char} (inside : Closed inner) (later : Closed text) :
      Closed ('\x7b' :: (inner ++ '\x7d' :: text))

/-- What may stand between the backquotes of a template: plain text with closed texts in
substitutions. -/
inductive Body : List Char → Prop where
  | nothing : Body []
  | hidden (c : Char) {text : List Char} (later : Body text) : Body ('\\' :: c :: text)
  | plain {c : Char} {text : List Char} (backslash : c ≠ '\\') (backquote : c ≠ backquote)
      (dollar : c = '$' → text.head? ≠ some '\x7b') (later : Body text) : Body (c :: text)
  | substitution {code text : List Char} (closed : Closed code) (later : Body text) :
      Body ('$' :: '\x7b' :: (code ++ '\x7d' :: text))

theorem Closed.of_forall {text : List Char} (plain : ∀ c ∈ text, c ∉ marks) : Closed text := by
  induction text with
  | nil => exact .nothing
  | cons c text ih =>
    obtain ⟨first, later⟩ := List.forall_mem_cons.mp plain
    exact .plain first (ih later)

theorem Closed.append {first second : List Char} (closed : Closed first) (later : Closed second) :
    Closed (first ++ second) := by
  induction closed with
  | nothing => exact later
  | hidden c _ ih => exact .hidden c ih
  | plain plain _ ih => exact .plain plain ih
  | braces inside _ _ ih =>
    rw [List.cons_append, List.append_assoc, List.cons_append]
    exact .braces inside ih

theorem Closed.lengthFrom?_append {code : List Char} (closed : Closed code) (depth count : Nat)
    (rest : List Char) :
    lengthFrom? (depth + 1) count (code ++ rest) =
      lengthFrom? (depth + 1) (count + code.length) rest := by
  induction closed generalizing depth count rest with
  | nothing => rfl
  | @hidden c text _ ih =>
    rw [List.cons_append, List.cons_append, lengthFrom?, ih]
    congr 1
    simp
    omega
  | @plain c text plain _ ih =>
    simp only [marks, List.mem_cons, List.not_mem_nil, or_false, not_or] at plain
    rw [List.cons_append, lengthFrom?_plain plain.1 (by simp) (by simp) fun _ => plain.2, ih]
    congr 1
    simp
    omega
  | @braces inner text _ _ ihInner ih =>
    rw [List.cons_append, List.append_assoc, List.cons_append, lengthFrom?, ihInner, lengthFrom?,
      ih]
    congr 1
    simp
    omega

theorem Body.lengthFrom?_append {text : List Char} (body : Body text) (count : Nat)
    (after : List Char) :
    lengthFrom? 0 count (text ++ backquote :: after) = some (count + text.length + 1) := by
  induction body generalizing count with
  | nothing => rfl
  | hidden c _ ih =>
    rw [List.cons_append, List.cons_append, lengthFrom?, ih]
    simp
    omega
  | @plain c text backslash backquote dollar _ ih =>
    rw [List.cons_append, lengthFrom?_plain backslash (fun _ => backquote) ?_ (by simp), ih]
    next =>
      simp
      omega
    next =>
      rintro - isDollar
      cases text with
      | nil => exact fun brace => absurd (Option.some.inj brace) (by decide)
      | cons d text => exact dollar isDollar
  | substitution closed _ ih =>
    rw [List.cons_append, List.cons_append, List.append_assoc, List.cons_append, lengthFrom?,
      closed.lengthFrom?_append, lengthFrom?, ih]
    simp
    omega

def Open : Nat → List Char → Prop
  | 0, text => Body text
  | depth + 1, text => ∃ code rest, text = code ++ '\x7d' :: rest ∧ Closed code ∧ Open depth rest

theorem Open.hidden {depth : Nat} {text : List Char} (c : Char) (opened : Open depth text) :
    Open depth ('\\' :: c :: text) := by
  cases depth with
  | zero => exact Body.hidden c opened
  | succ depth =>
    obtain ⟨code, rest, rfl, closed, outer⟩ := opened
    exact ⟨'\\' :: c :: code, rest, rfl, .hidden c closed, outer⟩

theorem open_of_lengthFrom? {depth count length : Nat} {text : List Char}
    (found : lengthFrom? depth count text = some length) :
    ∃ own tail, text = own ++ backquote :: tail ∧ length = count + own.length + 1 ∧
      Open depth own := by
  fun_induction lengthFrom? depth count text with
  | case1 => cases found
  | case2 => cases found
  | case3 depth count c rest ih =>
    obtain ⟨own, tail, rfl, same, opened⟩ := ih found
    exact ⟨'\\' :: c :: own, tail, rfl, by simp [same]; omega, opened.hidden c⟩
  | case4 count rest =>
    obtain rfl := Option.some.inj found
    exact ⟨[], rest, rfl, rfl, Body.nothing⟩
  | case5 count rest ih =>
    obtain ⟨own, tail, rfl, same, code, text, rfl, closed, body⟩ := ih found
    exact ⟨'$' :: '\x7b' :: (code ++ '\x7d' :: text), tail, rfl, by simp [same]; omega,
      Body.substitution closed body⟩
  | case6 depth count rest ih =>
    -- What is inside the brace and what follows it on the old level are one closed text.
    obtain ⟨own, tail, rfl, same, inner, outer, rfl, inside, code, text, rfl, closed, opened⟩ :=
      ih found
    refine ⟨'\x7b' :: (inner ++ '\x7d' :: (code ++ '\x7d' :: text)), tail, rfl, by
      simp [same]; omega,
      '\x7b' :: (inner ++ '\x7d' :: code), text, by simp, .braces inside closed, opened⟩
  | case7 depth count rest ih =>
    obtain ⟨own, tail, rfl, same, opened⟩ := ih found
    exact ⟨'\x7d' :: own, tail, rfl, by simp [same]; omega, [], own, rfl, .nothing, opened⟩
  | case8 depth count c rest notLast notEscape notClose notOpen notBrace notEnd ih =>
    obtain ⟨own, tail, rfl, same, opened⟩ := ih found
    refine ⟨c :: own, tail, rfl, by simp [same]; omega, ?_⟩
    have backslash : c ≠ '\\' := by
      rintro rfl
      cases own with
      | nil => exact notEscape backquote tail rfl rfl
      | cons d own => exact notEscape d (own ++ backquote :: tail) rfl rfl
    cases depth with
    | zero =>
      refine Body.plain backslash (notClose rfl) ?_ opened
      rintro dollar opens
      cases own with
      | nil => cases opens
      | cons d own =>
        obtain rfl := Option.some.inj opens
        exact notOpen (own ++ backquote :: tail) rfl dollar rfl
    | succ depth =>
      obtain ⟨code, text, rfl, closed, outer⟩ := opened
      refine ⟨c :: code, text, rfl, .plain ?_ closed, outer⟩
      simp only [marks, List.mem_cons, List.not_mem_nil, or_false, not_or]
      exact ⟨backslash, notBrace depth rfl, notEnd depth rfl⟩

def whole (body : List Char) : Token × Cursor :=
  let text := backquote :: (body ++ [backquote])
  (⟨.template (String.ofList body), ⟨0, (String.ofList text).utf8ByteSize, 1, 1⟩, false, text⟩,
    ⟨[], Position.origin.advance text⟩)

theorem kind_next (rest : List Char) :
    (Cursor.next (.ofText (String.ofList (backquote :: rest)))).1.kind = (read rest).1 := by
  have stop : Trivia.starts (Cursor.ofText (String.ofList (backquote :: rest))).rest = false := by
    rw [Cursor.ofText, String.toList_ofList, Trivia.starts_cons]
    rfl
  have onToken := Cursor.onToken_of_starts stop
  have first : (Cursor.onToken (.ofText (String.ofList (backquote :: rest)))).rest =
      backquote :: rest := by
    rw [onToken, Cursor.ofText, String.toList_ofList]
  rw [Cursor.next_of_cons first, TokenKind.read_template]
  rfl

theorem next_eq_whole_iff (body : List Char) :
    Cursor.next (.ofText (String.ofList (backquote :: (body ++ [backquote])))) = whole body ↔
      Body body := by
  constructor
  next =>
    intro next
    have kind := kind_next (body ++ [backquote])
    rw [next, read] at kind
    cases found : lengthFrom? 0 0 (body ++ [backquote]) with
    | none =>
      rw [found] at kind
      cases kind
    | some length =>
      -- The scanner ends at some backquote behind a body; the text of the token says it is the last
      -- one.
      obtain ⟨own, tail, split, same, opened⟩ := open_of_lengthFrom? found
      rw [found, split, same, Nat.zero_add] at kind
      have raw : String.ofList body = String.ofList own := by
        simpa [whole] using kind
      rw [String.ofList_injective raw]
      exact opened
  next =>
    intro bodied
    have length := bodied.lengthFrom?_append 0 []
    have stop : Trivia.starts (backquote :: (body ++ [backquote])) = false := by
      rw [Trivia.starts_cons]
      rfl
    refine Cursor.next_ofText stop ?_
    rw [TokenKind.read_template, read, length]
    simp

structure Chunk (text : List Char) : Prop where
  backquote : backquote ∉ text
  backslash : '\\' ∉ text
  dollar : ¬['$', '\x7b'] <:+: text

structure Substitution where
  code : String
  chunk : List Char

def Substitution.text (part : Substitution) : List Char :=
  '$' :: '\x7b' :: (part.code.toList ++ '\x7d' :: part.chunk)

def composed (first : List Char) (parts : List Substitution) : List Char :=
  first ++ parts.flatMap Substitution.text

theorem Chunk.body_append {chunk rest : List Char} (plain : Chunk chunk)
    (apart : rest.head? ≠ some '\x7b') (later : Body rest) : Body (chunk ++ rest) := by
  induction chunk with
  | nil => exact later
  | cons c chunk ih =>
    obtain ⟨backquote, backslash, dollar⟩ := plain
    rw [List.mem_cons, not_or] at backquote backslash
    rw [List.infix_cons_iff, not_or] at dollar
    refine .plain (Ne.symm backslash.1) (Ne.symm backquote.1) ?_
      (ih ⟨backquote.2, backslash.2, dollar.2⟩)
    rintro rfl opens
    -- A dollar at the end of the chunk meets what follows the chunk.
    cases chunk with
    | nil => exact apart opens
    | cons d chunk =>
      obtain rfl := Option.some.inj opens
      exact dollar.1 ⟨chunk, rfl⟩

theorem body_composed {first : List Char} {parts : List Substitution} (plain : Chunk first)
    (chunks : ∀ part ∈ parts, Chunk part.chunk)
    (closed : ∀ part ∈ parts, Closed part.code.toList) : Body (composed first parts) := by
  have apart (parts : List Substitution) :
      (parts.flatMap Substitution.text).head? ≠ some '\x7b' := by
    cases parts with
    | nil => exact nofun
    | cons part parts => exact fun brace => absurd (Option.some.inj brace) (by decide)
  refine plain.body_append (apart parts) ?_
  induction parts with
  | nil => exact .nothing
  | cons part parts ih =>
    obtain ⟨chunk, chunks⟩ := List.forall_mem_cons.mp chunks
    obtain ⟨code, codes⟩ := List.forall_mem_cons.mp closed
    rw [List.flatMap_cons, Substitution.text, List.cons_append, List.cons_append, List.append_assoc,
      List.cons_append]
    exact .substitution code (chunk.body_append (apart parts) (ih chunks codes))

end TemplateLiteral

namespace NumberLiteral

open TemplateLiteral (marks)

theorem not_mem_marks_of_isSeparated {base : Nat} {c : Char} (separated : isSeparated base c) :
    c ∉ marks := by
  intro mark
  simp only [marks, List.mem_cons, List.not_mem_nil, or_false] at mark
  rcases mark with rfl | rfl | rfl
  all_goals simp [isSeparated, Text.isDigitOf, Text.digitValue?] at separated

theorem not_mem_marks_of_isDigit {c : Char} (digit : Number.isDigit c) : c ∉ marks :=
  not_mem_marks_of_isSeparated (isSeparated_of_isDigit digit)

theorem plain_point (rest : List Char) : ∀ c ∈ rest.take (pointLength rest), c ∉ marks := by
  unfold pointLength
  fun_cases fraction rest with
  | case1 c rest digit =>
    obtain ⟨own, tail, rfl, inside, ends⟩ := exists_stop (isSeparated 10) rest
    rw [takeWhile_append_of_stop inside ends]
    have taken : ('.' :: c :: (own ++ tail)).take (1 + (c :: own).length) = '.' :: c :: own := by
      rw [Nat.add_comm]
      simp
    simp only [List.isEmpty_cons, Bool.false_eq_true, if_false, taken, List.forall_mem_cons]
    exact ⟨by decide, not_mem_marks_of_isDigit digit,
      fun d member => not_mem_marks_of_isSeparated (inside d member)⟩
  | case2 | case3 => simp

theorem plain_mark (rest : List Char) : ∀ c ∈ rest.take (markLength rest), c ∉ marks := by
  have isMark {mark : Char} (marked : ¬(!(mark == 'e' || mark == 'E'))) : mark ∉ marks := by
    simp only [Bool.not_eq_true', Bool.not_eq_false, Bool.or_eq_true, beq_iff_eq] at marked
    rcases marked with rfl | rfl <;> decide
  unfold markLength
  -- An exponent is a letter, a sign it may have, and digits; none of these marks anything.
  fun_cases exponent rest with
  | case2 mark c rest marked digit =>
    obtain ⟨own, tail, rfl, inside, ends⟩ := exists_stop Number.isDigit rest
    rw [takeWhile_append_of_stop inside ends]
    have taken : (mark :: c :: (own ++ tail)).take (1 + 0 + (c :: own).length) =
        mark :: c :: own := by
      rw [Nat.add_comm]
      simp
    simp only [List.isEmpty_cons, Bool.false_eq_true, if_false, List.length_nil, taken,
      List.forall_mem_cons]
    exact ⟨isMark marked, not_mem_marks_of_isDigit digit,
      fun d member => not_mem_marks_of_isDigit (inside d member)⟩
  | case3 mark c rest marked digit sign =>
    obtain ⟨own, tail, rfl, inside, ends⟩ := exists_stop Number.isDigit rest
    rw [takeWhile_append_of_stop inside ends]
    have signed : c ∉ marks := by
      simp only [Bool.and_eq_true, Bool.or_eq_true, beq_iff_eq] at sign
      rcases sign.1 with rfl | rfl <;> decide
    have taken : (mark :: c :: (own ++ tail)).take (1 + [c].length + own.length) =
        mark :: c :: own := by
      rw [Nat.add_comm]
      simp
    split
    next => simp
    next =>
      simp only [taken, List.forall_mem_cons]
      exact ⟨isMark marked, signed, fun d member => not_mem_marks_of_isDigit (inside d member)⟩
  | case1 | case4 | case5 => simp

theorem plain_decimal (text : List Char) : ∀ c ∈ text.take (decimal text).2, c ∉ marks := by
  obtain ⟨whole, rest, rfl, inside, stop⟩ := exists_stop (isSeparated 10) text
  rw [decimal_append inside stop]
  intro c member
  rw [Nat.add_assoc, List.take_length_add_append, List.take_add, List.mem_append,
    List.mem_append] at member
  rcases member with member | member | member
  next => exact not_mem_marks_of_isSeparated (inside c member)
  next => exact plain_point rest c member
  next => exact plain_mark _ c member

theorem plain_read (text : List Char) : ∀ c ∈ text.take (read text).2, c ∉ marks := by
  by_cases plain : ∀ mark rest, text = '0' :: mark :: rest → base? mark = none
  next =>
    rw [read_eq_decimal plain]
    exact plain_decimal text
  next =>
    simp only [not_forall] at plain
    obtain ⟨mark, rest, rfl, based⟩ := plain
    obtain ⟨base, found⟩ := Option.ne_none_iff_exists'.mp based
    obtain ⟨own, tail, rfl, inside, stop⟩ := exists_stop (isSeparated base) rest
    have marked : mark ∉ marks := by
      intro member
      revert found
      simp only [marks, List.mem_cons, List.not_mem_nil, or_false] at member
      rcases member with rfl | rfl | rfl <;> exact nofun
    have taken : ('0' :: mark :: (own ++ tail)).take (2 + own.length) = '0' :: mark :: own := by
      rw [Nat.add_comm]
      simp
    simp only [read, found, takeWhile_append_of_stop inside stop, taken, List.forall_mem_cons]
    exact ⟨by decide, marked, fun d member => not_mem_marks_of_isSeparated (inside d member)⟩

theorem read_ne_punctuator (text : List Char) (mark : Punctuator) :
    (read text).1 ≠ .punctuator mark := by
  unfold read
  split
  next =>
    split
    next base _ =>
      dsimp only [inBase]
      split <;> exact nofun
    next => exact nofun
  next => exact nofun

end NumberLiteral

namespace TokenKind

open TemplateLiteral (marks)

def isQuoted : TokenKind → Bool
  | .string _ | .template _ => true
  | _ => false

def IsSound (kind : TokenKind) : Prop :=
  (∀ c, kind ≠ .invalid c) ∧ ∀ delimiter, kind ≠ .unterminated delimiter

def Shows (kind : TokenKind) (text : List Char) : Prop :=
  (∀ mark, kind = .punctuator mark → text = mark.chars) ∧
    ((∀ mark, kind ≠ .punctuator mark) → ∀ c ∈ text, c ∉ marks)

theorem Shows.of_plain {kind : TokenKind} {text : List Char}
    (other : ∀ mark, kind ≠ .punctuator mark)
    (plain : ∀ c ∈ text, c ∉ marks) : Shows kind text :=
  ⟨fun mark same => absurd same (other mark), fun _ => plain⟩

theorem wordKind_ne_punctuator (word : List Char) (mark : Punctuator) :
    wordKind word ≠ .punctuator mark := by
  unfold wordKind
  split <;> exact nofun

theorem not_mem_marks_of_isWordPart {c : Char} (part : isWordPart c) : c ∉ marks := by
  intro mark
  have none : marks.all (!isWordPart ·) := by decide +kernel
  simpa [part] using List.all_eq_true.mp none c mark

theorem not_mem_marks_of_mem_chars {mark : Punctuator} (opening : mark ≠ .braceOpen)
    (closing : mark ≠ .braceClose) {c : Char} (member : c ∈ mark.chars) : c ∉ marks := by
  have all : Punctuator.all.all fun mark =>
      mark == .braceOpen || mark == .braceClose || mark.chars.all (!marks.contains ·) := by decide
  have plain : ∀ c ∈ mark.chars, c ∉ marks := by
    simpa [opening, closing] using List.all_eq_true.mp all mark (Punctuator.mem_all mark)
  exact plain c member

theorem quoted_readFrom (quote : Char) (value : List Char) (count : Nat) (text : List Char)
    (sound : IsSound (StringLiteral.readFrom quote value count text).1) :
    (StringLiteral.readFrom quote value count text).1.isQuoted := by
  fun_induction StringLiteral.readFrom quote value count text with
  | case1 | case3 | case5 => exact absurd rfl (sound.2 quote)
  | case2 => rfl
  | case4 _ _ _ _ _ _ _ _ _ _ ih => exact ih sound
  | case6 _ _ _ _ _ _ _ ih => exact ih sound

theorem quoted_template (text : List Char) (sound : IsSound (TemplateLiteral.read text).1) :
    (TemplateLiteral.read text).1.isQuoted := by
  revert sound
  unfold TemplateLiteral.read
  split
  next => exact fun sound => absurd rfl (sound.2 _)
  next => exact fun _ => rfl

theorem shows_read (c : Char) (rest : List Char) (sound : IsSound (read c rest).1)
    (unquoted : (read c rest).1.isQuoted = false) :
    Shows (read c rest).1 ((c :: rest).take ((read c rest).2 + 1)) := by
  -- One case for each kind of token, in the order in which the lexer tries them.
  by_cases word : isWordStart c
  next =>
    obtain ⟨own, tail, rfl, inside, stop⟩ := exists_stop isWordPart rest
    rw [read_word word, takeWhile_append_of_stop inside stop, List.take_succ_cons, List.take_left]
    refine .of_plain (wordKind_ne_punctuator _) (List.forall_mem_cons.mpr ⟨?_, ?_⟩)
    next => exact not_mem_marks_of_isWordPart (Text.isWordPart_of_isWordStart word)
    next => exact fun d member => not_mem_marks_of_isWordPart (inside d member)
  rw [Bool.not_eq_true] at word
  by_cases number : startsNumber c rest
  next =>
    have first := (NumberLiteral.length_read number).1
    rw [read_number word number, Nat.sub_add_cancel first]
    exact .of_plain (NumberLiteral.read_ne_punctuator _) (NumberLiteral.plain_read _)
  rw [Bool.not_eq_true] at number
  by_cases quoted : c = StringLiteral.single ∨ c = StringLiteral.double
  next =>
    rw [read_string word number quoted] at sound unquoted
    rw [quoted_readFrom _ _ _ _ sound] at unquoted
    cases unquoted
  rw [not_or] at quoted
  by_cases template : c = TemplateLiteral.backquote
  next =>
    subst template
    rw [read_template] at sound unquoted
    rw [quoted_template _ sound] at unquoted
    cases unquoted
  rw [read_punctuator word number quoted.1 quoted.2 template] at sound ⊢
  cases first : Punctuator.first? (c :: rest) with
  | none =>
    rw [first] at sound
    exact absurd rfl (sound.1 c)
  | some found =>
    obtain ⟨own, tail, rfl, chars⟩ := Punctuator.exists_chars_eq_cons first
    refine ⟨fun mark same => ?_, fun other => absurd rfl (other found)⟩
    obtain rfl := TokenKind.punctuator.inj same
    simp [chars]

end TokenKind

namespace TemplateLiteral

open TokenKind (IsSound Shows)

inductive Paired : List TokenKind → Prop where
  | nothing : Paired []
  | other {kind : TokenKind} {kinds : List TokenKind} (opening : kind ≠ .punctuator .braceOpen)
      (closing : kind ≠ .punctuator .braceClose) (later : Paired kinds) : Paired (kind :: kinds)
  | braces {inner kinds : List TokenKind} (inside : Paired inner) (later : Paired kinds) :
      Paired (.punctuator .braceOpen :: (inner ++ .punctuator .braceClose :: kinds))

/-- Code that is read without errors and pairs its braces. -/
structure PairsBraces (code : String) : Prop where
  sound : ∀ kind ∈ (tokens code).map (·.kind), kind.IsSound
  paired : Paired ((tokens code).map (·.kind))

def pieces (code : String) : List (List Char × Token) :=
  (List.range (tokens code).length).map fun index =>
    (((Cursor.ofText code).after index).gap, (Cursor.ofText code).reading index)

structure Quiet (code : String) : Prop where
  trivia : ∀ piece ∈ pieces code, Closed piece.1
  literals : ∀ piece ∈ pieces code, piece.2.kind.isQuoted → Closed piece.2.text

theorem map_pieces (code : String) : (pieces code).map (·.2) = tokens code := by
  obtain ⟨count, -, -, read⟩ := (Cursor.ofText code).exists_count
  have listed : tokens code = (List.range (count + 1)).map (Cursor.ofText code).reading := read
  rw [pieces, List.map_map, listed, List.length_map, List.length_range]
  rfl

theorem rest_eq_append_after (cursor : Cursor) (count : Nat) :
    cursor.rest = ((List.range count).flatMap fun index =>
      (cursor.after index).gap ++ (cursor.reading index).text) ++ (cursor.after count).rest := by
  induction count with
  | zero => rfl
  | succ count ih =>
    have step : (cursor.after count).rest = (cursor.after count).gap ++
        ((cursor.reading count).text ++ (cursor.after (count + 1)).rest) := by
      rw [Cursor.reading, Cursor.after, Cursor.next_text_append, Cursor.gap, List.take_append_drop]
    rw [List.range_succ, List.flatMap_append, List.flatMap_singleton, List.append_assoc,
      List.append_assoc, ← step]
    exact ih

theorem text_pieces (code : String) :
    (pieces code).flatMap (fun piece => piece.1 ++ piece.2.text) = code.toList := by
  obtain ⟨count, -, isEnd, read⟩ := (Cursor.ofText code).exists_count
  have length : (tokens code).length = count + 1 := by
    have listed : tokens code = (List.range (count + 1)).map (Cursor.ofText code).reading := read
    simp [listed]
  have whole := rest_eq_append_after (.ofText code) (count + 1)
  have spent : ((Cursor.ofText code).after (count + 1)).rest = [] := by
    have ended := ((Cursor.ofText code).after count).isEnd_next_iff.mp ((isEnd count).mpr le_rfl)
    simp [Cursor.after, Cursor.next_of_nil ended, ended]
  rw [spent, List.append_nil] at whole
  rw [pieces, length, List.flatMap_map]
  exact whole.symm

theorem shows_next (cursor : Cursor) (sound : cursor.next.1.kind.IsSound)
    (unquoted : cursor.next.1.kind.isQuoted = false) :
    Shows cursor.next.1.kind cursor.next.1.text := by
  cases found : cursor.onToken.rest with
  | nil =>
    rw [Cursor.next_of_nil found]
    exact .of_plain nofun (by simp [found])
  | cons c rest =>
    rw [Cursor.next_of_cons found] at sound unquoted ⊢
    rw [Cursor.token_text, found]
    exact TokenKind.shows_read c rest sound unquoted

theorem Paired.closed {kinds : List TokenKind} (paired : Paired kinds)
    {pieces : List (List Char × Token)} (same : pieces.map (·.2.kind) = kinds)
    (trivia : ∀ piece ∈ pieces, Closed piece.1)
    (marked : ∀ piece ∈ pieces, ∀ mark, piece.2.kind = .punctuator mark → piece.2.text = mark.chars)
    (others : ∀ piece ∈ pieces, (∀ mark, piece.2.kind ≠ .punctuator mark) → Closed piece.2.text) :
    Closed (pieces.flatMap fun piece => piece.1 ++ piece.2.text) := by
  induction paired generalizing pieces with
  | nothing =>
    obtain rfl := List.map_eq_nil_iff.mp same
    exact .nothing
  | @other kind kinds opening closing _ ih =>
    obtain ⟨⟨gap, token⟩, rest, rfl, rfl, sameLater⟩ := List.map_eq_cons_iff.mp same
    simp only [List.forall_mem_cons] at trivia marked others
    refine (trivia.1.append ?_).append (ih sameLater trivia.2 marked.2 others.2)
    by_cases punctuator : ∃ mark, token.kind = .punctuator mark
    next =>
      obtain ⟨mark, isMark⟩ := punctuator
      rw [marked.1 mark isMark]
      dsimp only at opening closing
      rw [isMark] at opening closing
      have notOpen : mark ≠ .braceOpen := fun same => opening (congrArg _ same)
      have notClose : mark ≠ .braceClose := fun same => closing (congrArg _ same)
      exact .of_forall fun c => TokenKind.not_mem_marks_of_mem_chars notOpen notClose
    next => exact others.1 (not_exists.mp punctuator)
  | @braces inner kinds _ _ ihInner ih =>
    obtain ⟨⟨gap, left⟩, rest, rfl, isLeft, same⟩ := List.map_eq_cons_iff.mp same
    obtain ⟨inside, rest, rfl, sameInner, same⟩ := List.map_eq_append_iff.mp same
    obtain ⟨⟨between, right⟩, rest, rfl, isRight, same⟩ := List.map_eq_cons_iff.mp same
    simp only [List.forall_mem_cons, List.forall_mem_append] at trivia marked others
    -- The trivia before the closing brace belongs to what the braces enclose.
    have inner := ihInner sameInner trivia.2.1 marked.2.1 others.2.1
    have outer := ih same trivia.2.2.2 marked.2.2.2 others.2.2.2
    have text : ((gap, left) :: (inside ++ (between, right) :: rest)).flatMap
        (fun piece => piece.1 ++ piece.2.text) =
        gap ++ '\x7b' :: ((inside.flatMap fun piece => piece.1 ++ piece.2.text) ++ between ++
          '\x7d' :: rest.flatMap fun piece => piece.1 ++ piece.2.text) := by
      simp [marked.1 _ isLeft, marked.2.2.1 _ isRight, Punctuator.chars]
    rw [text]
    exact trivia.1.append (.braces (inner.append trivia.2.2.1) outer)

theorem PairsBraces.closed {code : String} (pairs : PairsBraces code) (quiet : Quiet code) :
    Closed code.toList := by
  have kinds : (pieces code).map (·.2.kind) = (tokens code).map (·.kind) := by
    rw [← map_pieces, List.map_map]
    rfl
  have read {piece : List Char × Token} (member : piece ∈ pieces code) :
      piece.2.kind.IsSound ∧ (piece.2.kind.isQuoted = false → Shows piece.2.kind piece.2.text) := by
    have sound : piece.2.kind.IsSound := by
      apply pairs.sound
      rw [← kinds]
      exact List.mem_map_of_mem member
    obtain ⟨index, -, rfl⟩ := List.mem_map.mp member
    exact ⟨sound, shows_next _ sound⟩
  rw [← text_pieces]
  refine pairs.paired.closed kinds quiet.trivia (fun piece member mark isMark => ?_)
    fun piece member other => ?_
  next => exact ((read member).2 (by rw [isMark]; rfl)).1 mark isMark
  next =>
    by_cases quoted : piece.2.kind.isQuoted
    next => exact quiet.literals piece member quoted
    next => exact .of_forall (((read member).2 (by simpa using quoted)).2 other)

/-- A template of plain text and substitutions is one token exactly if it is a body. Where the
braces of the code are paired, that is so if its strings, templates and comments have no other
braces. -/
theorem next_composed {first : List Char} {parts : List Substitution} (plain : Chunk first)
    (chunks : ∀ part ∈ parts, Chunk part.chunk) (codes : ∀ part ∈ parts, PairsBraces part.code) :
    let body := composed first parts
    let source := String.ofList (backquote :: (body ++ [backquote]))
    (Cursor.next (.ofText source) = whole body ↔ Body body) ∧
      ((∀ part ∈ parts, Quiet part.code) → Cursor.next (.ofText source) = whole body) := by
  refine ⟨next_eq_whole_iff _, fun quiet => ?_⟩
  rw [next_eq_whole_iff]
  exact body_composed plain chunks fun part member => (codes part member).closed (quiet part member)

def hiddenBrace : String := "\x7b\"\\\x7d\"\x7d"

theorem hiddenBrace_after :
    (Cursor.ofText hiddenBrace).after 1 = ⟨"\"\\\x7d\"\x7d".toList, ⟨1, 1, 2⟩⟩ ∧
      (Cursor.ofText hiddenBrace).after 2 = ⟨['\x7d'], ⟨5, 1, 6⟩⟩ ∧
      (Cursor.ofText hiddenBrace).after 3 = ⟨[], ⟨6, 1, 7⟩⟩ ∧
      (Cursor.ofText hiddenBrace).reading 1 =
        ⟨.string "\x7d", ⟨1, 5, 1, 2⟩, false, "\"\\\x7d\"".toList⟩ := by
  have first : (Cursor.ofText hiddenBrace).after 1 = ⟨"\"\\\x7d\"\x7d".toList, ⟨1, 1, 2⟩⟩ := by
    rw [Cursor.after, Cursor.after, Cursor.next_eq]
    rfl
  have string : StringLiteral.readFrom '"' [] 0 ['\\', '\x7d', '"', '\x7d'] =
      (.string "\x7d", 3) := by
    rw [StringLiteral.readFrom_escape (by decide) (by rfl), List.drop_zero,
      StringLiteral.readFrom_quote]
    rfl
  have read : TokenKind.read '"' (['\\', '\x7d', '"'] ++ ['\x7d']) = (.string "\x7d", 3) := string
  have second := Cursor.next_token (by rfl) read ⟨1, 1, 2⟩
  have third : (Cursor.ofText hiddenBrace).after 2 = ⟨['\x7d'], ⟨5, 1, 6⟩⟩ := by
    rw [Cursor.after, first]
    exact congrArg (·.2) second
  refine ⟨first, third, ?_, ?_⟩
  next =>
    rw [Cursor.after, third, Cursor.next_eq]
    rfl
  next =>
    rw [Cursor.reading, first]
    exact congrArg (·.1) second

theorem hiddenBrace_pieces :
    pieces hiddenBrace =
      [([], ⟨.punctuator .braceOpen, ⟨0, 1, 1, 1⟩, false, ['\x7b']⟩),
        ([], ⟨.string "\x7d", ⟨1, 5, 1, 2⟩, false, "\"\\\x7d\"".toList⟩),
        ([], ⟨.punctuator .braceClose, ⟨5, 6, 1, 6⟩, false, ['\x7d']⟩),
        ([], ⟨.endOfInput, ⟨6, 6, 1, 7⟩, false, []⟩)] := by
  obtain ⟨first, second, third, string⟩ := hiddenBrace_after
  have close : (Cursor.ofText hiddenBrace).reading 2 =
      ⟨.punctuator .braceClose, ⟨5, 6, 1, 6⟩, false, ['\x7d']⟩ := by
    rw [Cursor.reading, second, Cursor.next_eq]
    rfl
  have last : (Cursor.ofText hiddenBrace).reading 3 = ⟨.endOfInput, ⟨6, 6, 1, 7⟩, false, []⟩ := by
    rw [Cursor.reading, third, Cursor.next_eq]
    rfl
  obtain ⟨count, -, isEnd, read⟩ := (Cursor.ofText hiddenBrace).exists_count
  obtain rfl : count = 3 := by
    have inside := isEnd 2
    have ended := isEnd 3
    rw [close] at inside
    rw [last] at ended
    simp [TokenKind.isEnd] at inside ended
    omega
  have length : (tokens hiddenBrace).length = 4 := (congrArg List.length read).trans rfl
  have listed : pieces hiddenBrace = (List.range 4).map fun index =>
      (((Cursor.ofText hiddenBrace).after index).gap,
        (Cursor.ofText hiddenBrace).reading index) := by
    rw [pieces, length]
  refine listed.trans ?_
  simp only [List.range_succ_eq_map, List.range_zero, List.map_cons, List.map_nil]
  rw [first, second, third, string, close, last, Cursor.reading, Cursor.after, Cursor.next_eq]
  rfl

theorem next_hiddenBrace :
    Cursor.next (.ofText "\x60a$\x7b\x7b\"\\\x7d\"\x7d\x7d\x60") =
      whole "a$\x7b\x7b\"\\\x7d\"\x7d\x7d".toList := by
  have kinds : (tokens hiddenBrace).map (·.kind) =
      [.punctuator .braceOpen, .string "\x7d", .punctuator .braceClose, .endOfInput] := by
    rw [← map_pieces, hiddenBrace_pieces]
    rfl
  have pairs : PairsBraces hiddenBrace := by
    constructor
    next =>
      rw [kinds]
      simp [TokenKind.IsSound]
    next =>
      rw [kinds]
      have inside : Paired [.string "\x7d"] := .other nofun nofun .nothing
      exact .braces inside (.other nofun nofun .nothing)
  have quiet : Quiet hiddenBrace := by
    constructor
    next =>
      rw [hiddenBrace_pieces]
      simp [Closed.nothing]
    next =>
      rw [hiddenBrace_pieces]
      simp [TokenKind.isQuoted]
      exact .plain (by decide) (.hidden _ (.plain (by decide) .nothing))
  have plain : Chunk ['a'] := ⟨by decide, by decide, by decide⟩
  have empty : Chunk [] := ⟨by decide, by decide, by decide⟩
  have next := @next_composed ['a'] [⟨hiddenBrace, []⟩] plain (by simp [empty]) (by simp [pairs])
  exact next.2 (by simp [quiet])

theorem template_left_open :
    Chunk [] ∧ PairsBraces "\"\x7b\"" ∧
      composed [] [⟨"\"\x7b\"", []⟩] = "$\x7b\"\x7b\"\x7d".toList ∧
      (Cursor.next (.ofText "\x60$\x7b\"\x7b\"\x7d\x60")).1.kind = .unterminated backquote := by
  have inside : ∀ c ∈ ['\x7b'],
      c ≠ StringLiteral.double ∧ c ≠ '\\' ∧ Text.isLineTerminator c = false :=
    List.forall_mem_singleton.mpr (by decide)
  have kinds : (tokens "\"\x7b\"").map (·.kind) = [.string "\x7b", .endOfInput] :=
    (@Lexes.tokens_eq _ "\"\x7b\"" (@Lexes.string ['\x7b'] inside [])).1
  refine ⟨⟨by decide, by decide, by decide⟩, ⟨?_, ?_⟩, rfl, kind_next _⟩
  next =>
    rw [kinds]
    simp [TokenKind.IsSound]
  next =>
    rw [kinds]
    exact .other nofun nofun (.other nofun nofun .nothing)

end TemplateLiteral

end EventLoop
