import EventLoop.Parsing.Program
import EventLoop.Proofs.Respelling

set_option autoImplicit false

/-!
# What parsers do to a stream

A parser that knows the tokens in front of it is run step by step: each token that it takes advances
the stream and leaves less of the source.
-/

namespace EventLoop

namespace Parser

variable {α β : Type} {stream rest : TokenStream} {mark : Punctuator}

theorem bind_ok {first : Parser α} {value : α} (read : first stream = .ok (value, rest))
    (next : α → Parser β) : (first >>= next) stream = next value rest := by
  change (first stream).bind _ = _
  rw [read]
  rfl

@[simp]
theorem pure_apply (value : α) : (pure value : Parser α) stream = .ok (value, stream) := rfl

@[simp]
theorem look_bind (next : TokenStream → Parser β) :
    (look >>= next) stream = next stream stream := rfl

theorem rescan_bind (next : Unit → Parser β) :
    (rescan >>= next) stream = next () stream.rescan := rfl

@[simp]
theorem start_bind (next : Span → Parser β) :
    (start >>= next) stream = next stream.current.span stream := rfl

@[simp]
theorem spanFrom_bind (first : Span) (next : Span → Parser β) :
    (spanFrom first >>= next) stream = next (stream.spanFrom first) stream := rfl

@[simp]
theorem advance_bind (next : Unit → Parser β) :
    (advance >>= next) stream = next () stream.advance := rfl

@[simp]
theorem descend_bind (level : Level Parser) (next : Level Parser → Parser β) :
    (descend (some level) >>= next) stream = next level stream := rfl

@[simp]
theorem isAt_bind (next : Bool → Parser β) :
    (isAt mark >>= next) stream = next (stream.isAt mark) stream := rfl

theorem eat_bind_of_isAt (found : stream.isAt mark) (next : Bool → Parser β) :
    (eat mark >>= next) stream = next true stream.advance := by
  apply bind_ok
  rw [eat, isAt_bind, found]
  rfl

theorem eat_bind_of_not_isAt (missing : stream.isAt mark = false) (next : Bool → Parser β) :
    (eat mark >>= next) stream = next false stream := by
  apply bind_ok
  rw [eat, isAt_bind, missing]
  rfl

theorem expect_bind_of_isAt (found : stream.isAt mark) (next : Unit → Parser β) :
    (expect mark >>= next) stream = next () stream.advance := by
  apply bind_ok
  rw [expect, eat_bind_of_isAt found]
  rfl

theorem loop_of_error {step : α → Parser (α ⊕ β)} {value : α} {error : SyntaxError}
    (failed : step value stream = .error error) : loop step value stream = .error error := by
  change iterate step value stream = _
  rw [iterate, failed]

theorem loop_of_done {step : α → Parser (α ⊕ β)} {value : α} {result : β}
    (done : step value stream = .ok (.inr result, rest)) :
    loop step value stream = .ok (result, rest) := by
  change iterate step value stream = _
  rw [iterate, done]

theorem loop_of_more {step : α → Parser (α ⊕ β)} {value more : α}
    (read : step value stream = .ok (.inl more, rest))
    (shorter : rest.remaining < stream.remaining) :
    loop step value stream = loop step more rest := by
  change iterate step value stream = _
  rw [iterate, read]
  exact if_pos shorter

theorem exists_of_bind {first : Parser α} {next : α → Parser β} {result : β}
    (read : (first >>= next) stream = .ok (result, rest)) :
    ∃ value between, first stream = .ok (value, between) ∧
      next value between = .ok (result, rest) := by
  change (first stream).bind _ = _ at read
  cases outcome : first stream with
  | error error =>
    rw [outcome] at read
    cases read
  | ok pair =>
    rw [outcome] at read
    exact ⟨pair.1, pair.2, rfl, read⟩

theorem loop_cases {step : α → Parser (α ⊕ β)} {value : α} {result : β}
    (read : loop step value stream = .ok (result, rest)) :
    step value stream = .ok (.inr result, rest) ∨
      ∃ more between, step value stream = .ok (.inl more, between) ∧
        between.remaining < stream.remaining ∧ loop step more between = .ok (result, rest) := by
  change iterate step value stream = _ at read
  rw [iterate] at read
  split at read
  next => cases read
  next outcome =>
    cases read
    exact .inl outcome
  next more between outcome =>
    split at read
    next shorter => exact .inr ⟨more, between, outcome, shorter, read⟩
    next => cases read

end Parser

namespace TokenStream

variable {stream rest : TokenStream} {kinds : List TokenKind}

theorem isAt_eq {mark found : Punctuator} (kind : stream.current.kind = .punctuator found) :
    stream.isAt mark = (found == mark) := by
  rw [isAt, kind]
  rfl

inductive Spells : TokenStream → List TokenKind → TokenStream → Prop where
  | nothing (stream : TokenStream) : Spells stream [] stream
  | token {stream rest : TokenStream} {kinds : List TokenKind}
      (line : stream.current.newlineBefore = false)
      (shorter : stream.advance.remaining < stream.remaining)
      (spells : stream.advance.Spells kinds rest) :
      Spells stream (stream.current.kind :: kinds) rest

theorem Spells.kind {kind : TokenKind} (spells : stream.Spells (kind :: kinds) rest) :
    stream.current.kind = kind := by
  cases spells
  rfl

theorem Spells.advance {kind : TokenKind} (spells : stream.Spells (kind :: kinds) rest) :
    stream.advance.Spells kinds rest := by
  cases spells
  assumption

theorem Spells.newlineBefore {kind : TokenKind} (spells : stream.Spells (kind :: kinds) rest) :
    stream.current.newlineBefore = false := by
  cases spells
  assumption

theorem Spells.remaining_advance {kind : TokenKind} (spells : stream.Spells (kind :: kinds) rest) :
    stream.advance.remaining < stream.remaining := by
  cases spells
  assumption

theorem Spells.eq_rest (spells : stream.Spells [] rest) : stream = rest := by
  cases spells
  rfl

theorem Spells.peek {kind : TokenKind} (spells : stream.Spells [kind] rest) :
    stream.peek = rest.current :=
  congrArg (·.current) spells.advance.eq_rest

theorem Spells.append {more : List TokenKind} (spells : stream.Spells (kinds ++ more) rest) :
    ∃ between, stream.Spells kinds between ∧ between.Spells more rest := by
  induction kinds generalizing stream with
  | nil => exact ⟨stream, .nothing stream, spells⟩
  | cons kind kinds ih =>
    cases spells with
    | token line shorter spells =>
      obtain ⟨between, first, second⟩ := ih spells
      exact ⟨between, .token line shorter first, second⟩

theorem Spells.remaining_le (spells : stream.Spells kinds rest) :
    rest.remaining ≤ stream.remaining := by
  induction spells with
  | nothing => exact Nat.le_refl _
  | token line shorter spells ih => omega

theorem Spells.remaining_lt {kind : TokenKind} (spells : stream.Spells (kind :: kinds) rest) :
    rest.remaining < stream.remaining := by
  exact Nat.lt_of_le_of_lt spells.advance.remaining_le spells.remaining_advance

structure Stands (stream : TokenStream) (source : String) (before : List Char) : Prop where
  size : stream.size = source.utf8ByteSize
  start : stream.current.span.start = String.utf8Len before
  ahead : stream.ahead.Stands source (before ++ stream.current.text)
  text : stream.current.kind.isEnd = false → stream.current.text ≠ []

theorem ofText_stands (source : String) :
    (ofText source).Stands source (Cursor.ofText source).gap := by
  have stands := (Cursor.Yields.plain (.ofText source)).stands (Cursor.ofText_stands source)
  rw [List.nil_append] at stands
  exact ⟨rfl, stands.1.start, stands.2, (Cursor.ofText source).next_text_ne_nil⟩

theorem Stands.advance {source : String} {before : List Char}
    (stands : stream.Stands source before) :
    stream.advance.Stands source (before ++ stream.current.text ++ stream.ahead.gap) := by
  have next := (Cursor.Yields.plain stream.ahead).stands stands.ahead
  exact ⟨stands.size, next.1.start, next.2, stream.ahead.next_text_ne_nil⟩

theorem Stands.remaining_advance {source : String} {before : List Char}
    (stands : stream.Stands source before) (found : stream.current.kind.isEnd = false) :
    stream.advance.remaining < stream.remaining := by
  have text : 0 < String.utf8Len stream.current.text := by
    rw [Nat.pos_iff_ne_zero, ne_eq, String.utf8Len_eq_zero]
    exact stands.text found
  have whole : String.utf8Len before + String.utf8Len stream.current.text ≤ stream.size := by
    rw [stands.size, ← String.utf8Len_toList, stands.ahead.split]
    simp
  have start := stands.advance.start
  simp only [String.utf8Len_append] at start
  rw [remaining, remaining, start, stands.start]
  change stream.size - _ < _
  omega

def tokens (stream : TokenStream) : List Token :=
  if stream.current.kind.isEnd then [stream.current]
  else stream.current :: stream.ahead.tokens

theorem tokens_ofText (source : String) : (ofText source).tokens = EventLoop.tokens source :=
  (Cursor.tokens_eq (.ofText source)).symm

theorem tokens_advance (found : stream.current.kind.isEnd = false) :
    stream.tokens = stream.current :: stream.advance.tokens := by
  rw [tokens, if_neg (by simp [found]), Cursor.tokens_eq]
  rfl

theorem isAtEnd_of_tokens (stream : TokenStream)
    (read : stream.tokens.map (·.kind) = [.endOfInput]) : stream.isAtEnd := by
  by_contra found
  rw [isAtEnd, Bool.not_eq_true] at found
  rw [tokens_advance found, List.map_cons, List.cons.injEq] at read
  rw [read.1] at found
  cases found

theorem Stands.spells {source : String} {before : List Char} {more : List TokenKind}
    (stands : stream.Stands source before)
    (read : stream.tokens.map (·.kind) = kinds ++ more) (left : more ≠ [])
    (line : ∀ token ∈ stream.tokens, token.newlineBefore = false) :
    ∃ rest, stream.Spells kinds rest ∧ rest.tokens.map (·.kind) = more := by
  induction kinds generalizing stream before with
  | nil => exact ⟨stream, .nothing stream, read⟩
  | cons kind kinds ih =>
    have found : stream.current.kind.isEnd = false := by
      by_contra ended
      rw [tokens, if_pos (by simpa using ended)] at read
      simp [left] at read
    rw [tokens_advance found] at read line
    rw [List.map_cons, List.cons_append, List.cons.injEq] at read
    obtain ⟨rfl, read⟩ := read
    obtain ⟨first, line⟩ := List.forall_mem_cons.mp line
    obtain ⟨rest, spells, remaining⟩ := ih stands.advance read line
    exact ⟨rest, .token first (stands.remaining_advance found) spells, remaining⟩

def arrowFrom (depth : Nat) (stream : TokenStream) : Bool :=
  if stream.current.kind.isEnd then false
  else if stream.current.kind.isPunctuator .parenOpen then arrowAfterGroup (depth + 1) stream.ahead
  else if stream.current.kind.isPunctuator .parenClose then
    if depth ≤ 1 then stream.advance.current.kind.isPunctuator .arrow
    else arrowAfterGroup (depth - 1) stream.ahead
  else arrowAfterGroup depth stream.ahead

theorem arrowAfterGroup_ahead (depth : Nat) (stream : TokenStream) :
    arrowAfterGroup depth stream.ahead = stream.advance.arrowFrom depth := by
  rw [arrowAfterGroup]
  split
  next token after step =>
    have current : stream.advance.current = token := by rw [advance, step]
    have ahead : stream.advance.ahead = after := by rw [advance, step]
    have peek : stream.advance.advance.current = after.next.1 := by rw [advance, ahead]
    simp only [arrowFrom, current, ahead, peek, dite_eq_ite]

end TokenStream

inductive Balanced : List TokenKind → Prop where
  | nil : Balanced []
  | token {kind : TokenKind} {kinds : List TokenKind} (inside : kind.isEnd = false)
      (opens : kind.isPunctuator .parenOpen = false)
      (closes : kind.isPunctuator .parenClose = false) (after : Balanced kinds) :
      Balanced (kind :: kinds)
  | group {inner kinds : List TokenKind} (inside : Balanced inner) (after : Balanced kinds) :
      Balanced (.punctuator .parenOpen :: (inner ++ .punctuator .parenClose :: kinds))

theorem Balanced.append {first second : List TokenKind} (left : Balanced first)
    (right : Balanced second) : Balanced (first ++ second) := by
  induction left with
  | nil => exact right
  | token inside opens closes after ih => exact .token inside opens closes ih
  | group inside after _ ih =>
    rw [List.cons_append, List.append_assoc, List.cons_append]
    exact .group inside ih

theorem Balanced.arrowFrom_eq {kinds : List TokenKind} (balanced : Balanced kinds) {depth : Nat}
    (opened : 1 ≤ depth) {stream rest : TokenStream} (spells : stream.Spells kinds rest) :
    stream.arrowFrom depth = rest.arrowFrom depth := by
  induction balanced generalizing depth stream rest with
  | nil => rw [spells.eq_rest]
  | token inside opens closes after ih =>
    obtain rfl := spells.kind
    rw [TokenStream.arrowFrom, if_neg (by simp [inside]), if_neg (by simp [opens]),
      if_neg (by simp [closes]), TokenStream.arrowAfterGroup_ahead, ih opened spells.advance]
  | group inside after ihInside ihAfter =>
    obtain ⟨close, inner, tail⟩ := spells.advance.append
    -- One more parenthesis is open inside, so that its partner is not the one looked for.
    have enters : stream.arrowFrom depth = close.arrowFrom (depth + 1) := by
      rw [TokenStream.arrowFrom, spells.kind, ← ihInside (Nat.le_add_left 1 depth) inner,
        ← TokenStream.arrowAfterGroup_ahead]
      rfl
    have leaves : close.arrowFrom (depth + 1) = close.advance.arrowFrom depth := by
      rw [TokenStream.arrowFrom, tail.kind, ← TokenStream.arrowAfterGroup_ahead]
      simp [TokenKind.isEnd, TokenKind.isPunctuator, Nat.pos_iff_ne_zero.mp opened]
    rw [enters, leaves, ihAfter opened tail.advance]

theorem TokenStream.isAtArrow_group {inner : List TokenKind} (balanced : Balanced inner)
    {stream rest : TokenStream}
    (spells : stream.Spells (.punctuator .parenOpen :: (inner ++ [.punctuator .parenClose])) rest)
    (stop : rest.current.kind.isPunctuator .arrow = false) : stream.isAtArrow = false := by
  obtain ⟨close, inside, last⟩ := spells.advance.append
  have opens := spells.kind
  have look : arrowAfterGroup 1 stream.ahead = false := by
    rw [arrowAfterGroup_ahead, balanced.arrowFrom_eq (Nat.le_refl 1) inside, arrowFrom, last.kind,
      last.advance.eq_rest, stop]
    rfl
  simp [isAtArrow, isAtIdentifier, word?, opens, look]

end EventLoop
