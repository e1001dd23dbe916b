import EventLoop.Token.Lexer
import Mathlib.Data.List.DropRight
import Mathlib.Data.String.Basic

set_option autoImplicit false

/-!
# Places in a source

A cursor always stands after some text of its source, and the place it keeps is the one that this
text leads to.
-/

namespace EventLoop

open Text (isLineTerminator)

def textBetween (source : String) (start stop : Nat) : List Char :=
  (String.Pos.Raw.extract source ⟨start⟩ ⟨stop⟩).toList

theorem textBetween_eq {source : String} {before text after : List Char}
    (split : source.toList = before ++ text ++ after) :
    textBetween source (String.utf8Len before) (String.utf8Len (before ++ text)) = text := by
  have spelled : source = String.ofList (before ++ text ++ after) := by
    rw [← split, String.ofList_toList]
  rw [textBetween, spelled, String.utf8Len_append, String.extract_of_valid, String.toList_ofList]

theorem valid_of_split {source : String} {before after : List Char}
    (split : source.toList = before ++ after) :
    String.Pos.Raw.Valid source ⟨String.utf8Len before⟩ :=
  .intro ⟨before, after, split.symm, rfl⟩

namespace Position

theorem utf8Len_eq_byteCount (text : List Char) : String.utf8Len text = Text.byteCount text := by
  induction text with
  | nil => rfl
  | cons c text ih =>
    rw [String.utf8Len_cons, ih, Nat.add_comm]
    rfl

theorem offset_advance (position : Position) (text : List Char) :
    (position.advance text).offset = position.offset + String.utf8Len text := by
  rw [offset_advance_byteCount, utf8Len_eq_byteCount]

theorem line_advance (position : Position) (text : List Char) :
    (position.advance text).line = position.line + text.countP isLineTerminator := by
  induction text generalizing position with
  | nil => rfl
  | cons c text ih =>
    rw [advance_cons, ih, List.countP_cons]
    by_cases ends : isLineTerminator c <;> simp [next, ends]
    omega

theorem column_origin_advance (text : List Char) :
    (origin.advance text).column = 1 + (text.rtakeWhile (!isLineTerminator ·)).length := by
  -- A step looks at the last character only, so the induction takes characters from the end.
  induction text using List.reverseRecOn with
  | nil => rfl
  | append_singleton text c ih =>
    rw [advance_append, advance_cons, advance_nil]
    by_cases ends : isLineTerminator c
    next => simp [next, ends, List.rtakeWhile_concat_neg]
    next =>
      rw [List.rtakeWhile_concat_pos _ _ _ (by simpa using ends)]
      simp [next, ends, ih]
      omega

@[simp] theorem offset_origin_advance (text : List Char) :
    (origin.advance text).offset = String.utf8Len text := by
  rw [offset_advance]
  exact Nat.zero_add _

end Position

structure Token.Stands (token : Token) (source : String) (before after : List Char) : Prop where
  split : source.toList = before ++ token.text ++ after
  span : token.span = .between (Position.origin.advance before)
    (Position.origin.advance (before ++ token.text)).offset

structure Cursor.Stands (cursor : Cursor) (source : String) (before : List Char) : Prop where
  split : source.toList = before ++ cursor.rest
  place : cursor.position = Position.origin.advance before

namespace Token.Stands

variable {source : String} {before after : List Char} {token : Token}

theorem start (stands : token.Stands source before after) :
    token.span.start = String.utf8Len before := by
  rw [stands.span]
  exact Position.offset_origin_advance before

theorem stop (stands : token.Stands source before after) :
    token.span.stop = String.utf8Len (before ++ token.text) := by
  rw [stands.span]
  exact Position.offset_origin_advance _

theorem textBetween_span (stands : token.Stands source before after) :
    textBetween source token.span.start token.span.stop = token.text := by
  rw [stands.start, stands.stop]
  exact textBetween_eq stands.split

theorem textBetween_start (stands : token.Stands source before after) :
    textBetween source 0 token.span.start = before := by
  have split : source.toList = [] ++ before ++ (token.text ++ after) := by
    rw [stands.split, List.nil_append, List.append_assoc]
  rw [stands.start]
  exact textBetween_eq split

theorem line (stands : token.Stands source before after) :
    token.span.line = 1 + before.countP isLineTerminator := by
  rw [stands.span]
  exact Position.line_advance .origin before

theorem column (stands : token.Stands source before after) :
    token.span.column = 1 + (before.rtakeWhile (!isLineTerminator ·)).length := by
  rw [stands.span]
  exact Position.column_origin_advance before

end Token.Stands

namespace Cursor

variable {source : String} {before : List Char} {cursor : Cursor}

theorem ofText_stands (source : String) : (ofText source).Stands source [] :=
  ⟨rfl, rfl⟩

theorem Stands.skip (stands : cursor.Stands source before) (count : Nat) :
    (cursor.skip count).Stands source (before ++ cursor.rest.take count) := by
  constructor
  next => rw [rest_skip, List.append_assoc, List.take_append_drop, stands.split]
  next => rw [position_skip, Position.advance_append, stands.place]

theorem Stands.token (stands : cursor.Stands source before) (newline : Bool) (kind : TokenKind)
    (length : Nat) :
    (cursor.token newline kind length).1.Stands source before (cursor.skip length).rest := by
  have passed := stands.skip length
  constructor
  next => exact passed.split
  next =>
    rw [token_text, ← passed.place, ← stands.place]
    rfl

def gap (cursor : Cursor) : List Char := cursor.rest.take (Trivia.length cursor.rest)

def onToken (cursor : Cursor) : Cursor := cursor.skip (Trivia.length cursor.rest)

theorem next_of_nil (ended : cursor.onToken.rest = []) :
    cursor.next = cursor.onToken.token (cursor.gap.any isLineTerminator) .endOfInput 0 := by
  rw [next_eq, ← onToken, ended]
  rfl

theorem next_of_cons {c : Char} {rest : List Char} (found : cursor.onToken.rest = c :: rest) :
    cursor.next = cursor.onToken.token (cursor.gap.any isLineTerminator)
      (TokenKind.read c rest).1 ((TokenKind.read c rest).2 + 1) := by
  rw [next_eq, ← onToken, found]
  rfl

theorem next_eq_token (cursor : Cursor) :
    ∃ kind length, cursor.next =
      cursor.onToken.token (cursor.gap.any isLineTerminator) kind length := by
  cases found : cursor.onToken.rest with
  | nil => exact ⟨_, _, next_of_nil found⟩
  | cons c rest => exact ⟨_, _, next_of_cons found⟩

theorem before_next (cursor : Cursor) : cursor.next.2.before cursor.next.1 = cursor.onToken := by
  obtain ⟨kind, length, read⟩ := cursor.next_eq_token
  rw [read, before]
  congr 1
  exact List.take_append_drop ..

theorem regexp_eq_token (cursor : Cursor) :
    ∃ kind more, cursor.next.2.regexp cursor.next.1 =
      cursor.onToken.token cursor.next.1.newlineBefore kind (more + 1) := by
  rw [regexp_eq, before_next]
  exact ⟨_, _, rfl⟩

inductive Yields : Cursor → Token → Cursor → Prop where
  | plain (cursor : Cursor) : Yields cursor cursor.next.1 cursor.next.2
  | regexp {cursor : Cursor} (slash : cursor.next.1.kind.isSlash) :
      Yields cursor (cursor.next.2.regexp cursor.next.1).1 (cursor.next.2.regexp cursor.next.1).2

theorem Yields.eq_token {token : Token} {after : Cursor} (yields : cursor.Yields token after) :
    ∃ newline kind length, (token, after) = cursor.onToken.token newline kind length := by
  cases yields with
  | plain =>
    obtain ⟨kind, length, read⟩ := cursor.next_eq_token
    exact ⟨_, kind, length, read⟩
  | regexp =>
    obtain ⟨kind, more, read⟩ := cursor.regexp_eq_token
    exact ⟨_, kind, more + 1, read⟩

theorem Yields.text_ne_nil {token : Token} {after : Cursor} (yields : cursor.Yields token after)
    (found : token.kind.isEnd = false) : token.text ≠ [] := by
  cases yields with
  | plain => exact cursor.next_text_ne_nil found
  | regexp slash =>
    have plain : cursor.next.1.text ≠ [] := by
      apply cursor.next_text_ne_nil
      cases kind : cursor.next.1.kind <;>
        simp_all [TokenKind.isSlash, TokenKind.isEnd, TokenKind.isPunctuator]
    have left : cursor.onToken.rest ≠ [] := by
      rw [onToken, rest_skip, ← cursor.next_text_append]
      simp [plain]
    obtain ⟨kind, more, read⟩ := cursor.regexp_eq_token
    simpa [read] using left

theorem Yields.stands {token : Token} {after : Cursor} (yields : cursor.Yields token after)
    (stands : cursor.Stands source before) :
    token.Stands source (before ++ cursor.gap) after.rest ∧
      after.Stands source (before ++ cursor.gap ++ token.text) := by
  obtain ⟨newline, kind, length, read⟩ := yields.eq_token
  have onToken : cursor.onToken.Stands source (before ++ cursor.gap) := stands.skip _
  rw [Prod.mk.injEq] at read
  obtain ⟨rfl, rfl⟩ := read
  exact ⟨onToken.token newline kind length, onToken.skip length⟩

inductive Reads : Cursor → List Token → Cursor → Prop where
  | nothing (cursor : Cursor) : Reads cursor [] cursor
  | token {cursor between after : Cursor} {token : Token} {tokens : List Token}
      (yields : cursor.Yields token between) (reads : between.Reads tokens after) :
      Reads cursor (token :: tokens) after

theorem Reads.stands {tokens : List Token} {after : Cursor} (reads : cursor.Reads tokens after)
    (stands : cursor.Stands source before) :
    ∀ token ∈ tokens, ∃ before after, token.Stands source before after := by
  induction reads generalizing before with
  | nothing => simp
  | token yields _ ih =>
    obtain ⟨found, passed⟩ := yields.stands stands
    rw [List.forall_mem_cons]
    exact ⟨⟨_, _, found⟩, ih passed⟩

theorem Reads.text_ne_nil {tokens : List Token} {after : Cursor}
    (reads : cursor.Reads tokens after) :
    ∀ token ∈ tokens, token.kind.isEnd = false → token.text ≠ [] := by
  induction reads with
  | nothing => simp
  | token yields _ ih => exact List.forall_mem_cons.mpr ⟨yields.text_ne_nil, ih⟩

end Cursor

end EventLoop
