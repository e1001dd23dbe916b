import EventLoop.Proofs.Respelling

set_option autoImplicit false

/-!
# Reading words, marks and strings

How a text is read that is put together from words, punctuators, strings and blanks. Each part is
read as its own token when the character after it does not carry it on.
-/

namespace EventLoop

open Text (isBlank isLineTerminator isWordStart isWordPart)

namespace Text

def Ranges.codes (ranges : Ranges) : List Nat :=
  ranges.flatMap fun (first, last) => List.range' first (last + 1 - first)

theorem Ranges.mem_codes {ranges : Ranges} {code : Nat} (holds : ranges.holds code) :
    code ∈ ranges.codes := by
  induction ranges with
  | nil => cases holds
  | cons range rest ih =>
    obtain ⟨first, last⟩ := range
    simp only [holds_cons, Bool.and_eq_true, Bool.or_eq_true, decide_eq_true_eq] at holds
    obtain ⟨low, high | later⟩ := holds
    next =>
      apply List.mem_append_left
      rw [List.mem_range'_1]
      omega
    next => exact List.mem_append_right _ (ih later)

theorem isWordStart_of_mem_whiteSpace :
    ∀ code ∈ whiteSpace.codes, alphabetic.holds code = false ∧ code ≠ '_'.toNat ∧
      code ≠ '$'.toNat := by
  decide +kernel

def outsideWords : List Char :=
  ['\x7b', '\x7d', '(', ')', '[', ']', ';', ',', ':', '?', '.', '=', '<', '>', '+', '-', '*', '/',
    '%', '&', '|', '^', '!', '~', '"', '\ufeff']

theorem isWordStart_of_mem_outsideWords {c : Char} (outside : c ∈ outsideWords) :
    isWordStart c = false := by
  have none : outsideWords.all (!isWordStart ·) := by decide +kernel
  simpa using List.all_eq_true.mp none c outside

theorem isBlank_of_isWordStart {c : Char} (word : isWordStart c) : isBlank c = false := by
  by_contra blank
  simp only [isBlank, isWhiteSpace, Bool.not_eq_false, Bool.or_eq_true, beq_iff_eq] at blank
  obtain space | rfl := blank
  next =>
    obtain ⟨letter, line, dollar⟩ := isWordStart_of_mem_whiteSpace _ (Ranges.mem_codes space)
    simp only [isWordStart, isAlphabetic, letter, Bool.false_or, Bool.or_eq_true,
      beq_iff_eq] at word
    obtain rfl | rfl := word
    next => exact line rfl
    next => exact dollar rfl
  next => simp [isWordStart_of_mem_outsideWords (c := '\ufeff') (by decide)] at word

theorem isDigit_of_isWordStart {c : Char} (word : isWordStart c) : Number.isDigit c = false := by
  by_contra digit
  have bounds : '0' ≤ c ∧ c ≤ '9' := by
    by_contra outside
    simp only [Number.isDigit, isDigitOf, digitValue?, outside, if_false] at digit
    split_ifs at digit <;> simp_all
  have low : 48 ≤ c.toNat := bounds.1
  have high : c.toNat ≤ 57 := bounds.2
  have letter : isAlphabetic c = false := by
    rw [isAlphabetic, show alphabetic = (0x41, 0x5A) :: alphabetic.tail from rfl,
      Ranges.holds_cons, decide_eq_false (by omega), Bool.false_and]
  simp only [isWordStart, letter, Bool.false_or, Bool.or_eq_true, beq_iff_eq] at word
  obtain rfl | rfl := word
  next => exact absurd high (by decide)
  next => exact absurd low (by decide)

def IsWord (word : List Char) : Prop :=
  ∃ c rest, word = c :: rest ∧ isWordStart c ∧ ∀ d ∈ rest, isWordPart d

instance (word : List Char) : Decidable (IsWord word) :=
  match word with
  | [] => isFalse (by simp [IsWord])
  | c :: rest => decidable_of_iff (isWordStart c ∧ rest.all isWordPart) (by simp [IsWord])

end Text

open Text (IsWord)

theorem Keyword.isWord (keyword : Keyword) : IsWord keyword.chars := by
  cases keyword <;> decide +kernel

@[simp]
theorem wordKind_chars (keyword : Keyword) : wordKind keyword.chars = .keyword keyword := by
  rw [wordKind, Keyword.ofChars?_chars]

namespace Punctuator

def standsBefore (mark : Punctuator) (c : Char) : Bool :=
  !mark.extendedBy c && !(mark == .slash && (c == '/' || c == '*')) &&
    !(mark == .dot && Number.isDigit c) && !(mark == .optionalChain && c.isDigit)

theorem standsBefore_blank (mark : Punctuator) : mark.standsBefore ' ' := by
  cases mark <;> decide

theorem free_of_standsBefore {mark : Punctuator} {after : List Char}
    (stands : after.head?.all mark.standsBefore) : after.head?.all (!mark.extendedBy ·) := by
  refine head?_all_of_imp stands fun c stands => ?_
  simp only [standsBefore, Bool.and_eq_true] at stands
  exact stands.1.1.1

theorem head_chars (mark : Punctuator) :
    ∃ c own, mark.chars = c :: own ∧ isWordStart c = false ∧ Number.isDigit c = false ∧
      isBlank c = false ∧ c ≠ StringLiteral.single ∧ c ≠ StringLiteral.double ∧
      c ≠ TemplateLiteral.backquote := by
  cases mark <;> exact ⟨_, _, rfl, Text.isWordStart_of_mem_outsideWords (by decide), by decide,
    by decide, by decide, by decide, by decide⟩

theorem eq_slash (mark : Punctuator) (head : mark.chars.head? = some '/') :
    mark = .slash ∨ mark = .slashAssign := by
  revert head
  cases mark <;> decide

theorem eq_dot (mark : Punctuator) (head : mark.chars.head? = some '.') :
    mark = .dot ∨ mark = .ellipsis := by
  revert head
  cases mark <;> decide

theorem starts_chars_append {mark : Punctuator} {after : List Char}
    (stands : after.head?.all mark.standsBefore) : Trivia.starts (mark.chars ++ after) = false := by
  obtain ⟨c, own, chars, -, -, blank, -⟩ := mark.head_chars
  rw [chars, List.cons_append, Trivia.starts_cons, blank, Bool.false_or]
  by_cases slash : c = '/'
  next =>
    subst slash
    obtain rfl | rfl := mark.eq_slash (by rw [chars]; rfl)
    next =>
      obtain rfl : own = [] := (List.cons.inj chars).2.symm
      cases after with
      | nil => rfl
      | cons d after => simp_all [standsBefore]
    next =>
      obtain rfl : own = ['='] := (List.cons.inj chars).2.symm
      rfl
  next => simp [slash]

theorem dot_standsBefore {c : Char} (word : isWordStart c) : dot.standsBefore c := by
  have point : c ≠ '.' := by
    rintro rfl
    simp [Text.isWordStart_of_mem_outsideWords (c := '.') (by decide)] at word
  have free : dot.extendedBy c = false := by
    rw [extendedBy, List.any_eq_false]
    intro longer _ starts
    obtain ⟨more, chars⟩ := List.isPrefixOf_iff_prefix.mp starts
    obtain rfl | rfl := longer.eq_dot (by rw [← chars]; rfl)
    next => simp [Punctuator.chars] at chars
    next => simp [Punctuator.chars, point] at chars
  simp [standsBefore, free, Text.isDigit_of_isWordStart word]

theorem read_chars_append {mark : Punctuator} {c : Char} {own after : List Char}
    (chars : mark.chars = c :: own) (stands : after.head?.all mark.standsBefore) :
    TokenKind.read c (own ++ after) = (.punctuator mark, own.length) := by
  obtain ⟨d, rest, same, word, digit, -, single, double, template⟩ := mark.head_chars
  obtain ⟨rfl, rfl⟩ := List.cons.inj (chars.symm.trans same)
  -- A point starts a number only before a digit, which cannot follow the mark.
  have number : startsNumber c (own ++ after) = false := by
    rw [startsNumber, digit, Bool.false_or]
    by_cases point : c = '.'
    next =>
      subst point
      obtain rfl | rfl := mark.eq_dot (by rw [chars]; rfl)
      next =>
        obtain rfl : own = [] := (List.cons.inj chars).2.symm
        cases after with
        | nil => rfl
        | cons d after => simp_all [standsBefore]
      next =>
        obtain rfl : own = ['.', '.'] := (List.cons.inj chars).2.symm
        rfl
    next => simp [point]
  have chain (same : mark = .optionalChain) : after.head?.all (!Char.isDigit ·) := by
    subst same
    refine head?_all_of_imp stands fun d stands => ?_
    simp_all [standsBefore]
  have first := first?_append (free_of_standsBefore stands) chain
  rw [chars, List.cons_append] at first
  rw [TokenKind.read_punctuator word number single double template, first]
  simp [chars]

end Punctuator

theorem StringLiteral.readFrom_quoted {quote : Char} {text : List Char}
    (inside : ∀ c ∈ text, c ≠ quote ∧ c ≠ '\\' ∧ isLineTerminator c = false)
    (value after : List Char) (count : Nat) :
    readFrom quote value count (text ++ quote :: after) =
      (.string (String.ofList (value.reverse ++ text)), count + text.length + 1) := by
  induction text generalizing value count with
  | nil => simp [readFrom_quote]
  | cons c text ih =>
    obtain ⟨⟨quoted, backslash, line⟩, inside⟩ := List.forall_mem_cons.mp inside
    rw [List.cons_append, readFrom_plain quoted backslash line, ih inside]
    simp
    omega

theorem TokenKind.isEnd_of_read {c : Char} {rest : List Char} {kind : TokenKind} {length : Nat}
    (read : TokenKind.read c rest = (kind, length)) : kind.isEnd = false := by
  have inside := TokenKind.isEnd_read c rest
  rwa [read] at inside

theorem Cursor.next_token {c : Char} {own after : List Char} {kind : TokenKind}
    (stop : Trivia.starts (c :: (own ++ after)) = false)
    (read : TokenKind.read c (own ++ after) = (kind, own.length)) (start : Position) :
    Cursor.next ⟨c :: (own ++ after), start⟩ =
      (⟨kind, .between start (start.advance (c :: own)).offset, false, c :: own⟩,
        ⟨after, start.advance (c :: own)⟩) := by
  have onToken : Cursor.onToken ⟨c :: (own ++ after), start⟩ = ⟨c :: (own ++ after), start⟩ :=
    Cursor.onToken_of_starts stop
  have gap : Cursor.gap ⟨c :: (own ++ after), start⟩ = [] := by
    simp [Cursor.gap, Trivia.length_eq_zero stop]
  have next := Cursor.next_of_cons (congrArg (·.rest) onToken)
  rw [onToken, read] at next
  rw [next, gap]
  simp [Cursor.token, Cursor.skip]

section Whole

variable {c : Char} {own : List Char} {kind : TokenKind}

theorem Cursor.next_ofText (stop : Trivia.starts (c :: own) = false)
    (read : TokenKind.read c own = (kind, own.length)) :
    Cursor.next (.ofText (String.ofList (c :: own))) =
      (⟨kind, ⟨0, (String.ofList (c :: own)).utf8ByteSize, 1, 1⟩, false, c :: own⟩,
        ⟨[], Position.origin.advance (c :: own)⟩) := by
  rw [← List.append_nil own] at stop read
  have next := Cursor.next_token stop (by simpa using read) .origin
  rw [List.append_nil] at next
  rw [Cursor.ofText, String.toList_ofList, next, Position.offset_origin_advance,
    ← String.utf8ByteSize_ofList]
  rfl

theorem tokens_ofList (stop : Trivia.starts (c :: own) = false)
    (read : TokenKind.read c own = (kind, own.length)) :
    let last := Position.origin.advance (c :: own)
    tokens (String.ofList (c :: own)) =
      [⟨kind, ⟨0, (String.ofList (c :: own)).utf8ByteSize, 1, 1⟩, false, c :: own⟩,
        ⟨.endOfInput, .between last last.offset, false, []⟩] := by
  intro last
  have next := Cursor.next_ofText stop read
  have found : (Cursor.next (.ofText (String.ofList (c :: own)))).1.kind.isEnd = false := by
    rw [next]
    exact TokenKind.isEnd_of_read read
  refine (Cursor.tokens_of_found found).trans ?_
  rw [next, Cursor.tokens_nil]

end Whole

def Lexes (text : List Char) (kinds : List TokenKind) (after : List Char) : Prop :=
  ∀ start, ∃ own stop, Cursor.tokens ⟨text ++ after, start⟩ = own ++ Cursor.tokens ⟨after, stop⟩ ∧
    own.map (·.kind) = kinds ∧ ∀ token ∈ own, token.newlineBefore = false

namespace Lexes

variable {text more after : List Char} {kinds others : List TokenKind}

theorem nil (after : List Char) : Lexes [] [] after :=
  fun start => ⟨[], start, rfl, rfl, by simp⟩

theorem append (first : Lexes text kinds (more ++ after)) (second : Lexes more others after) :
    Lexes (text ++ more) (kinds ++ others) after := by
  intro start
  obtain ⟨own, between, read, kindsOwn, line⟩ := first start
  obtain ⟨next, stop, readNext, kindsNext, lineNext⟩ := second between
  refine ⟨own ++ next, stop, ?_, ?_, ?_⟩
  next => rw [List.append_assoc, read, readNext, List.append_assoc]
  next => rw [List.map_append, kindsOwn, kindsNext]
  next => exact List.forall_mem_append.mpr ⟨line, lineNext⟩

theorem blank (after : List Char) : Lexes [' '] [] after := by
  intro start
  exact ⟨[], start.next ' ', Cursor.tokens_blank after start, rfl, by simp⟩

theorem token {c : Char} {own : List Char} {kind : TokenKind}
    (stop : Trivia.starts (c :: (own ++ after)) = false)
    (read : TokenKind.read c (own ++ after) = (kind, own.length)) :
    Lexes (c :: own) [kind] after := by
  intro start
  have next := Cursor.next_token stop read start
  have found : (Cursor.next ⟨c :: (own ++ after), start⟩).1.kind.isEnd = false := by
    rw [next]
    exact TokenKind.isEnd_of_read read
  refine ⟨[(Cursor.next ⟨c :: (own ++ after), start⟩).1], start.advance (c :: own), ?_, ?_, ?_⟩
  next =>
    rw [List.cons_append, Cursor.tokens_of_found found]
    simp [next]
  next => simp [next]
  next => simp [next]

theorem word (word : IsWord text) (stop : after.head?.all (!isWordPart ·)) :
    Lexes text [wordKind text] after := by
  obtain ⟨c, rest, rfl, first, inside⟩ := word
  refine token ?_ ?_
  next =>
    have slash : c ≠ '/' := by
      rintro rfl
      simp [Text.isWordStart_of_mem_outsideWords (c := '/') (by decide)] at first
    rw [Trivia.starts_cons, Text.isBlank_of_isWordStart first]
    simp [slash]
  next => rw [TokenKind.read_word first, takeWhile_append_of_stop inside stop]

theorem mark (mark : Punctuator) (stands : after.head?.all mark.standsBefore) :
    Lexes mark.chars [.punctuator mark] after := by
  obtain ⟨c, own, chars, -⟩ := mark.head_chars
  have stop := Punctuator.starts_chars_append stands
  rw [chars] at stop ⊢
  exact token stop (Punctuator.read_chars_append chars stands)

theorem string {value : List Char}
    (inside : ∀ c ∈ value, c ≠ StringLiteral.double ∧ c ≠ '\\' ∧ isLineTerminator c = false)
    (after : List Char) :
    Lexes (StringLiteral.double :: (value ++ [StringLiteral.double]))
      [.string (String.ofList value)] after := by
  apply token
  next =>
    rw [Trivia.starts_cons]
    rfl
  next =>
    have word : isWordStart StringLiteral.double = false :=
      Text.isWordStart_of_mem_outsideWords (by decide)
    have number : startsNumber StringLiteral.double (value ++ [StringLiteral.double] ++ after) =
        false :=
      TokenKind.startsNumber_eq_false (by decide) (by decide) _
    rw [TokenKind.read_string word number (.inr rfl), List.append_assoc, List.singleton_append,
      StringLiteral.readFrom_quoted inside]
    simp

theorem tokens_eq {source : String} (lexes : Lexes source.toList kinds []) :
    (tokens source).map (·.kind) = kinds ++ [.endOfInput] ∧
      ∀ token ∈ tokens source, token.newlineBefore = false := by
  obtain ⟨own, stop, read, ownKinds, line⟩ := lexes .origin
  have whole : tokens source =
      own ++ [⟨.endOfInput, .between stop stop.offset, false, []⟩] := by
    rw [← Cursor.tokens_nil, ← read, List.append_nil]
    rfl
  rw [whole]
  constructor
  next =>
    rw [List.map_append, ownKinds]
    rfl
  next => exact List.forall_mem_append.mpr ⟨line, List.forall_mem_singleton.mpr rfl⟩

end Lexes

end EventLoop
