import EventLoop.Token.Number
import EventLoop.Token.Quoted
import EventLoop.Token.Trivia

set_option autoImplicit false

/-!
# Tokens of a source

A cursor moves over the source character by character, or over a piece of ASCII at a time, and
counts bytes, lines and columns as it goes.
-/

namespace EventLoop

def wordKind (word : List Char) : TokenKind :=
  match Keyword.ofChars? word with
  | some keyword => .keyword keyword
  | none => .identifier (String.ofList word)

/-- The token that starts with a character, given what follows it. The count says how many
characters of what follows belong to it. -/
def TokenKind.read (c : Char) (rest : List Char) : TokenKind × Nat :=
  if Text.isWordStart c then
    let word := rest.takeWhile Text.isWordPart
    (wordKind (c :: word), word.length)
  else if Number.isDigit c || (c == '.' && rest.head?.any Number.isDigit) then
    let (kind, length) := NumberLiteral.read (c :: rest)
    (kind, length - 1)
  else if c == StringLiteral.single || c == StringLiteral.double then
    StringLiteral.readFrom c [] 0 rest
  else if c == TemplateLiteral.backquote then TemplateLiteral.read rest
  else match Punctuator.first? (c :: rest) with
    | some found => (.punctuator found, found.chars.length - 1)
    | none => (.invalid c, 0)

namespace Cursor

def word (cursor : Cursor) : TokenKind × Cursor :=
  let (word, after) := cursor.eatWhile Text.isWordPart
  (wordKind word, after)

def punctuator (cursor : Cursor) : TokenKind × Cursor :=
  match Punctuator.first? cursor.rest with
  | some found => (.punctuator found, cursor.skipAscii found.chars)
  | none => (.invalid (cursor.first?.getD '\x00'), cursor.bump)

def scan (cursor : Cursor) : TokenKind × Cursor :=
  match cursor.first? with
  | none => (.endOfInput, cursor)
  | some c =>
      if Text.isWordStart c then cursor.word
      else if Number.isDigit c || (c == '.' && (cursor.nth? 1).any Number.isDigit) then
        cursor.number
      else if c == StringLiteral.single || c == StringLiteral.double then cursor.string c
      else if c == TemplateLiteral.backquote then cursor.template
      else cursor.punctuator

def next (cursor : Cursor) : Token × Cursor :=
  let (newlineBefore, start) := cursor.skipTrivia false
  let (kind, after) := start.scan
  start.tokenTo newlineBefore kind after

def before (after : Cursor) (token : Token) : Cursor :=
  ⟨token.text ++ after.rest, token.span.position⟩

def regexp (after : Cursor) (slash : Token) : Token × Cursor :=
  let start := after.before slash
  let (kind, after) := start.pattern
  start.tokenTo slash.newlineBefore kind after

def nextWith (regexpAt : Token → Bool) (cursor : Cursor) : Token × Cursor :=
  let (token, after) := cursor.next
  if token.kind.isSlash && regexpAt token then after.regexp token else (token, after)

theorem word_eq {cursor : Cursor} {c : Char} {more : List Char} (found : cursor.rest = c :: more)
    (starts : Text.isWordStart c) :
    cursor.word = (wordKind (c :: more.takeWhile Text.isWordPart),
      cursor.skip (1 + (more.takeWhile Text.isWordPart).length)) := by
  rw [word, eatWhile_eq, found,
    List.takeWhile_cons_of_pos (Text.isWordPart_of_isWordStart starts), List.length_cons,
    Nat.add_comm]

theorem punctuator_eq {cursor : Cursor} {c : Char} {more : List Char}
    (found : cursor.rest = c :: more) :
    cursor.punctuator = match Punctuator.first? (c :: more) with
      | some found => (.punctuator found, cursor.skip (found.chars.length - 1 + 1))
      | none => (.invalid c, cursor.skip 1) := by
  rw [punctuator, found]
  split
  next mark first =>
    have starts := mark.chars_prefix_of_first? first
    have plain : mark.chars.all Text.isPlain := by cases mark <;> decide
    have positive : 0 < mark.chars.length := by cases mark <;> decide
    rw [skipAscii_eq_skip (found ▸ starts) plain, Nat.sub_add_cancel positive]
  next => rw [bump_eq_skip, first?, found]; rfl

theorem scan_eq {cursor : Cursor} {c : Char} {more : List Char} (found : cursor.rest = c :: more) :
    cursor.scan = ((TokenKind.read c more).1, cursor.skip ((TokenKind.read c more).2 + 1)) := by
  have rest : (cursor.skip 1).rest = more := by simp [found]
  have second : cursor.nth? 1 = more.head? := by
    rw [nth?, found, List.head?_eq_getElem?]
    rfl
  unfold scan TokenKind.read
  rw [first?, found, second]
  simp only [List.head?_cons]
  split
  next starts => rw [word_eq found starts, Nat.add_comm]
  next =>
    split
    next starts =>
      rw [number_eq, found, Nat.sub_add_cancel (NumberLiteral.read_pos starts)]
    next =>
      split
      next => rw [string_eq rest, Nat.add_comm]
      next =>
        split
        next => rw [template_eq rest, Nat.add_comm]
        next =>
          rw [punctuator_eq found]
          split <;> rfl

theorem scan_of_nil {cursor : Cursor} (ended : cursor.rest = []) :
    cursor.scan = (.endOfInput, cursor) := by
  simp [scan, first?, ended]

theorem next_eq (cursor : Cursor) :
    let gap := Trivia.length cursor.rest
    let newlineBefore := (cursor.rest.take gap).any Text.isLineTerminator
    let start := cursor.skip gap
    cursor.next = match start.rest with
      | [] => start.token newlineBefore .endOfInput 0
      | c :: rest =>
          start.token newlineBefore (TokenKind.read c rest).1 ((TokenKind.read c rest).2 + 1) := by
  intro gap newlineBefore start
  have trivia : cursor.skipTrivia false = (newlineBefore, start) := by
    rw [skipTrivia_eq, Bool.false_or]
  simp only [next, trivia]
  split
  next ended =>
    rw [scan_of_nil ended]
    exact start.tokenTo_skip newlineBefore .endOfInput 0
  next c rest found =>
    rw [scan_eq found]
    exact start.tokenTo_skip ..

theorem regexp_eq (after : Cursor) (slash : Token) :
    let start := after.before slash
    after.regexp slash = start.token slash.newlineBefore (RegexpLiteral.read (start.rest.drop 1)).1
      ((RegexpLiteral.read (start.rest.drop 1)).2 + 1) := by
  intro start
  rw [regexp, pattern_eq rfl, Nat.add_comm]
  exact start.tokenTo_skip ..

theorem next_text_append (cursor : Cursor) :
    cursor.next.1.text ++ cursor.next.2.rest = cursor.rest.drop (Trivia.length cursor.rest) := by
  rw [next_eq]
  split <;> exact List.take_append_drop ..

theorem next_text_ne_nil (cursor : Cursor) (found : cursor.next.1.kind.isEnd = false) :
    cursor.next.1.text ≠ [] := by
  revert found
  rw [next_eq]
  split
  next => simp [TokenKind.isEnd]
  next c rest start => simp [token_text, start, -rest_skip]

theorem length_rest_next (cursor : Cursor) (found : cursor.next.1.kind.isEnd = false) :
    cursor.next.2.rest.length < cursor.rest.length := by
  have whole := congrArg List.length cursor.next_text_append
  have text := List.length_pos_iff.mpr (cursor.next_text_ne_nil found)
  simp only [List.length_append, List.length_drop] at whole
  omega

theorem length_rest_regexp (after : Cursor) (slash : Token) (found : slash.text ≠ []) :
    (after.regexp slash).2.rest.length < slash.text.length + after.rest.length := by
  have text := List.length_pos_iff.mpr found
  simp only [regexp_eq, before, token_after, rest_skip, List.length_drop, List.length_append]
  omega

theorem nextWith_isEnd (regexpAt : Token → Bool) (cursor : Cursor)
    (found : (cursor.nextWith regexpAt).1.kind.isEnd = false) :
    cursor.next.1.kind.isEnd = false := by
  revert found
  unfold nextWith
  dsimp only
  split
  next slash =>
    intro _
    cases kind : cursor.next.1.kind <;> simp_all [TokenKind.isSlash, TokenKind.isEnd,
      TokenKind.isPunctuator]
  next => exact id

theorem length_rest_nextWith (regexpAt : Token → Bool) (cursor : Cursor)
    (found : (cursor.nextWith regexpAt).1.kind.isEnd = false) :
    (cursor.nextWith regexpAt).2.rest.length < cursor.rest.length := by
  have plain := cursor.nextWith_isEnd regexpAt found
  unfold nextWith
  dsimp only
  split
  next =>
    have whole := congrArg List.length cursor.next_text_append
    simp only [List.length_append, List.length_drop] at whole
    have shorter := length_rest_regexp cursor.next.2 cursor.next.1 (cursor.next_text_ne_nil plain)
    omega
  next => exact cursor.length_rest_next plain

end Cursor

def tokensFrom (regexpAt : Token → Bool) (cursor : Cursor) : List Token :=
  match step : cursor.nextWith regexpAt with
  | (token, after) =>
      if last : token.kind.isEnd then [token]
      else
        have shorter : after.rest.length < cursor.rest.length := by
          have shorter := cursor.length_rest_nextWith regexpAt
          rw [step] at shorter
          exact shorter (by simpa using last)
        token :: tokensFrom regexpAt after
termination_by cursor.rest.length

def tokensWith (regexpAt : Token → Bool) (source : String) : List Token :=
  tokensFrom regexpAt (.ofText source)

def tokens (source : String) : List Token := tokensWith (fun _ => false) source

end EventLoop
