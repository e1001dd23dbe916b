import EventLoop.Proofs.Sources
import Mathlib.Order.Monotone.Basic

set_option autoImplicit false

/-!
# Tokens tile a source

Between two tokens stand blanks and comments and nothing else, every token but the end of the input
has a text of its own, and texts and gaps together make up the source.
-/

namespace EventLoop

open Text (isBlank isLineTerminator)

namespace Trivia

/-- Blanks and comments. A comment to the end of the line takes its line terminator along, and a
comment in marks ends at the first closing mark; at the end of the input either may be left open. -/
inductive Gap (final : Bool) : List Char → Prop where
  | nil : Gap final []
  | blank {c : Char} {rest : List Char} (blank : isBlank c) (after : Gap final rest) :
      Gap final (c :: rest)
  | lineComment {text rest : List Char} {c : Char}
      (line : ∀ d ∈ text, isLineTerminator d = false) (ends : isLineTerminator c)
      (after : Gap final rest) : Gap final ('/' :: '/' :: (text ++ c :: rest))
  | blockComment {body rest : List Char} (inside : ¬['*', '/'] <:+: body ++ ['*'])
      (after : Gap final rest) : Gap final ('/' :: '*' :: (body ++ '*' :: '/' :: rest))
  | openLine {text : List Char} (last : final) (line : ∀ d ∈ text, isLineTerminator d = false) :
      Gap final ('/' :: '/' :: text)
  | openBlock {body : List Char} (last : final) (inside : ¬['*', '/'] <:+: body) :
      Gap final ('/' :: '*' :: body)

def starts : List Char → Bool
  | '/' :: '/' :: _ => true
  | '/' :: '*' :: _ => true
  | c :: _ => isBlank c
  | [] => false

def Place.opening : Place → List Char
  | .outside => []
  | .lineComment => ['/', '/']
  | .blockComment => ['/', '*']

theorem isBlank_slash : isBlank '/' = false := by decide

theorem Gap.line_cons {final : Bool} {c : Char} {gap : List Char}
    (found : Gap final ('/' :: '/' :: gap)) (inside : isLineTerminator c = false) :
    Gap final ('/' :: '/' :: c :: gap) := by
  cases found with
  | blank blank => simp [isBlank_slash] at blank
  | @lineComment text rest ending line ends after =>
    exact .lineComment (List.forall_mem_cons.mpr ⟨inside, line⟩) ends after
  | openLine last line => exact .openLine last (List.forall_mem_cons.mpr ⟨inside, line⟩)

theorem Gap.block_cons {final : Bool} {c : Char} {gap : List Char}
    (found : Gap final ('/' :: '*' :: gap)) (inside : ¬['*', '/'] <+: c :: gap) :
    Gap final ('/' :: '*' :: c :: gap) := by
  cases found with
  | blank blank => simp [isBlank_slash] at blank
  | @blockComment body rest closed after =>
    refine @blockComment final (c :: body) rest ?_ after
    rw [List.cons_append, List.infix_cons_iff]
    rintro (closes | closes)
    next =>
      apply inside
      have longer : c :: (body ++ ['*']) <+: c :: (body ++ '*' :: '/' :: rest) := by simp
      exact closes.trans longer
    next => exact closed closes
  | openBlock last closed =>
    refine .openBlock last ?_
    rw [List.infix_cons_iff]
    exact not_or.mpr ⟨inside, closed⟩

theorem lengthFrom_spec (place : Place) (count : Nat) (text : List Char) :
    ∃ gap rest, text = gap ++ rest ∧ lengthFrom place count text = count + gap.length ∧
      Gap rest.isEmpty (place.opening ++ gap) ∧ starts rest = false := by
  -- Inside a comment the gap found so far is completed by the marks that opened the comment.
  fun_induction lengthFrom place count text with
  | case1 place count =>
    refine ⟨[], [], rfl, rfl, ?_, rfl⟩
    cases place with
    | outside => exact .nil
    | lineComment => exact .openLine rfl (by simp)
    | blockComment => exact .openBlock rfl (by simp)
  | case2 count rest ih =>
    obtain ⟨gap, rest, rfl, length, found, stop⟩ := ih
    exact ⟨'/' :: '/' :: gap, rest, rfl, by simp [length]; omega, found, stop⟩
  | case3 count rest ih =>
    obtain ⟨gap, rest, rfl, length, found, stop⟩ := ih
    exact ⟨'/' :: '*' :: gap, rest, rfl, by simp [length]; omega, found, stop⟩
  | case4 count c rest noLine noBlock blank ih =>
    obtain ⟨gap, rest, rfl, length, found, stop⟩ := ih
    exact ⟨c :: gap, rest, rfl, by simp [length]; omega, .blank blank found, stop⟩
  | case5 count c rest noLine noBlock blank =>
    refine ⟨[], c :: rest, rfl, rfl, .nil, ?_⟩
    unfold starts
    split <;> simp_all
  | case6 count c rest ih =>
    obtain ⟨gap, rest, rfl, length, found, stop⟩ := ih
    refine ⟨c :: gap, rest, rfl, by simp [length]; omega, ?_, stop⟩
    by_cases ends : isLineTerminator c
    next =>
      rw [if_pos ends] at found
      exact @Gap.lineComment _ [] gap c (by simp) ends found
    next =>
      rw [if_neg ends] at found
      exact found.line_cons (by simpa using ends)
  | case7 count rest ih =>
    obtain ⟨gap, rest, rfl, length, found, stop⟩ := ih
    exact ⟨'*' :: '/' :: gap, rest, rfl, by simp [length]; omega,
      @Gap.blockComment _ [] gap (by decide) found, stop⟩
  | case8 count c rest noClose ih =>
    obtain ⟨gap, rest, rfl, length, found, stop⟩ := ih
    refine ⟨c :: gap, rest, rfl, by simp [length]; omega, found.block_cons ?_, stop⟩
    rintro ⟨more, closes⟩
    simp only [List.cons_append, List.nil_append, List.cons.injEq] at closes
    obtain ⟨rfl, rfl⟩ := closes
    exact noClose _ rfl rfl

end Trivia

namespace Cursor

theorem gap_spec (cursor : Cursor) :
    Trivia.Gap cursor.onToken.rest.isEmpty cursor.gap ∧
      Trivia.starts cursor.onToken.rest = false := by
  obtain ⟨gap, rest, split, length, found, stop⟩ := Trivia.lengthFrom_spec .outside 0 cursor.rest
  rw [Nat.zero_add, ← Trivia.length] at length
  have gapText : cursor.gap = gap := by
    rw [Cursor.gap, length, split, List.take_left]
  have restText : cursor.onToken.rest = rest := by
    rw [onToken, rest_skip, length, split, List.drop_left]
  rw [gapText, restText]
  exact ⟨found, stop⟩

end Cursor

theorem isEnd_wordKind (word : List Char) : (wordKind word).isEnd = false := by
  unfold wordKind
  split <;> rfl

theorem NumberLiteral.isEnd_read (text : List Char) :
    (NumberLiteral.read text).1.isEnd = false := by
  unfold NumberLiteral.read
  split
  next =>
    split
    next base _ =>
      dsimp only [inBase]
      split <;> rfl
    next => rfl
  next => rfl

theorem StringLiteral.isEnd_readFrom (quote : Char) (value : List Char) (count : Nat)
    (text : List Char) : (StringLiteral.readFrom quote value count text).1.isEnd = false := by
  fun_induction StringLiteral.readFrom quote value count text with
  | case1 | case2 | case3 | case5 => rfl
  | case4 _ _ _ _ _ _ _ _ _ _ ih => exact ih
  | case6 _ _ _ _ _ _ _ ih => exact ih

theorem TemplateLiteral.isEnd_read (text : List Char) :
    (TemplateLiteral.read text).1.isEnd = false := by
  unfold TemplateLiteral.read
  split <;> rfl

theorem TokenKind.isEnd_read (c : Char) (rest : List Char) :
    (TokenKind.read c rest).1.isEnd = false := by
  unfold TokenKind.read
  split
  next => exact isEnd_wordKind _
  next =>
    split
    next => exact NumberLiteral.isEnd_read _
    next =>
      split
      next => exact StringLiteral.isEnd_readFrom ..
      next =>
        split
        next => exact TemplateLiteral.isEnd_read _
        next => split <;> rfl

namespace Cursor

theorem isEnd_next_iff (cursor : Cursor) :
    cursor.next.1.kind.isEnd ↔ cursor.onToken.rest = [] := by
  cases found : cursor.onToken.rest with
  | nil => simp [next_of_nil found, TokenKind.isEnd]
  | cons c rest => simp [next_of_cons found, TokenKind.isEnd_read]

def after (cursor : Cursor) : Nat → Cursor
  | 0 => cursor
  | count + 1 => (cursor.after count).next.2

def reading (cursor : Cursor) (count : Nat) : Token := (cursor.after count).next.1

theorem after_next (cursor : Cursor) (count : Nat) :
    cursor.next.2.after count = cursor.after (count + 1) := by
  induction count with
  | zero => rfl
  | succ count ih =>
    rw [after, ih]
    rfl

theorem reading_next (cursor : Cursor) (count : Nat) :
    cursor.next.2.reading count = cursor.reading (count + 1) := by
  rw [reading, after_next, reading]

theorem isEnd_reading_of_isEnd {cursor : Cursor} (ended : cursor.next.1.kind.isEnd) (count : Nat) :
    (cursor.reading count).kind.isEnd := by
  have empty := cursor.isEnd_next_iff.mp ended
  induction count generalizing cursor with
  | zero => exact ended
  | succ count ih =>
    have spent : cursor.next.2.rest = [] := by
      simp [next_of_nil empty, empty]
    have still : cursor.next.2.onToken.rest = [] := by
      simp [onToken, spent]
    rw [← reading_next]
    exact ih (cursor.next.2.isEnd_next_iff.mpr still) still

end Cursor

theorem tokensFrom_eq (regexpAt : Token → Bool) (cursor : Cursor) :
    tokensFrom regexpAt cursor =
      if (cursor.nextWith regexpAt).1.kind.isEnd then [(cursor.nextWith regexpAt).1]
      else (cursor.nextWith regexpAt).1 :: tokensFrom regexpAt (cursor.nextWith regexpAt).2 := by
  rw [tokensFrom]
  simp

namespace Cursor

def tokens (cursor : Cursor) : List Token := tokensFrom (fun _ => false) cursor

theorem tokens_eq (cursor : Cursor) :
    cursor.tokens =
      if cursor.next.1.kind.isEnd then [cursor.next.1]
      else cursor.next.1 :: cursor.next.2.tokens := by
  rw [tokens, tokensFrom_eq]
  simp [nextWith, tokens]

theorem tokens_of_isEnd {cursor : Cursor} (ended : cursor.next.1.kind.isEnd) :
    cursor.tokens = [cursor.next.1] := by
  rw [tokens_eq, if_pos ended]

theorem tokens_of_found {cursor : Cursor} (found : cursor.next.1.kind.isEnd = false) :
    cursor.tokens = cursor.next.1 :: cursor.next.2.tokens := by
  rw [tokens_eq, if_neg (by simp [found])]

theorem tokens_nil (position : Position) :
    tokens ⟨[], position⟩ =
      [⟨.endOfInput, .between position position.offset, false, []⟩] := by
  have next : Cursor.next ⟨[], position⟩ = Cursor.token ⟨[], position⟩ false .endOfInput 0 :=
    next_of_nil rfl
  rw [tokens_of_isEnd (by rw [next]; rfl), next]
  rfl

theorem exists_count (cursor : Cursor) :
    ∃ count ≤ cursor.rest.length,
      (∀ index, (cursor.reading index).kind.isEnd ↔ count ≤ index) ∧
      cursor.tokens = (List.range (count + 1)).map cursor.reading := by
  induction left : cursor.rest.length using Nat.strongRecOn generalizing cursor with
  | ind length ih =>
    by_cases ended : cursor.next.1.kind.isEnd
    next =>
      refine ⟨0, Nat.zero_le _, fun index => ?_, ?_⟩
      next => simp [isEnd_reading_of_isEnd ended]
      next => simp [tokens_of_isEnd ended, reading, after]
    next =>
      have found : cursor.next.1.kind.isEnd = false := by simpa using ended
      have shorter := cursor.length_rest_next found
      -- A token takes a character at least, so the rest has at most as many tokens as characters.
      obtain ⟨count, small, isEnd, whole⟩ := ih _ (left ▸ shorter) cursor.next.2 rfl
      refine ⟨count + 1, by omega, fun index => ?_, ?_⟩
      next =>
        cases index with
        | zero => simp [reading, after, found]
        | succ index => rw [← reading_next, isEnd, Nat.succ_le_succ_iff]
      next =>
        rw [tokens_of_found found, whole, List.range_succ_eq_map (n := count + 1), List.map_cons,
          List.map_map]
        congr 1
        exact List.map_congr_left fun index _ => cursor.reading_next index

end Cursor

structure Tile (source : String) (offset : Nat) (token : Token) : Prop where
  offset_le : offset ≤ token.span.start
  start_le : token.span.start ≤ token.span.stop
  nonempty : token.kind.isEnd = false → token.span.start < token.span.stop
  valid : String.Pos.Raw.Valid source ⟨token.span.start⟩ ∧
    String.Pos.Raw.Valid source ⟨token.span.stop⟩
  -- The gap is trivia, and only at the end of the input may it be left open.
  gap : Trivia.Gap token.kind.isEnd (textBetween source offset token.span.start)
  newlineBefore : token.newlineBefore =
    (textBetween source offset token.span.start).any isLineTerminator
  -- The gap is as long as can be.
  starts : Trivia.starts (textBetween source token.span.start source.utf8ByteSize) = false
  atEnd : token.kind.isEnd → token.span.start = source.utf8ByteSize

namespace Cursor

theorem newlineBefore_next (cursor : Cursor) :
    cursor.next.1.newlineBefore = cursor.gap.any isLineTerminator := by
  obtain ⟨kind, length, read⟩ := cursor.next_eq_token
  rw [read]
  rfl

theorem isEnd_next (cursor : Cursor) :
    cursor.next.1.kind.isEnd = cursor.onToken.rest.isEmpty := by
  rw [Bool.eq_iff_iff, isEnd_next_iff, List.isEmpty_iff]

theorem Stands.tile {source : String} {before : List Char} {cursor : Cursor}
    (stands : cursor.Stands source before) :
    Tile source (String.utf8Len before) cursor.next.1 := by
  obtain ⟨token, -⟩ := (Yields.plain cursor).stands stands
  have left : cursor.next.1.text ++ cursor.next.2.rest = cursor.onToken.rest :=
    cursor.next_text_append
  have split : source.toList = before ++ cursor.gap ++ cursor.onToken.rest := by
    rw [← left, token.split, List.append_assoc _ cursor.next.1.text]
  -- The source splits into what was read, the gap, the token and the rest, and all is read off
  -- that.
  have gap : textBetween source (String.utf8Len before) cursor.next.1.span.start = cursor.gap := by
    rw [token.start]
    exact textBetween_eq split
  have size : source.utf8ByteSize =
      String.utf8Len (before ++ cursor.gap ++ cursor.onToken.rest) := by
    rw [← split, String.utf8Len_toList]
  have rest : textBetween source cursor.next.1.span.start source.utf8ByteSize =
      cursor.onToken.rest := by
    rw [token.start, size]
    exact textBetween_eq (split.trans (List.append_nil _).symm)
  constructor
  case offset_le => simp [token.start]
  case start_le => simp [token.start, token.stop]
  case nonempty =>
    intro found
    have text : String.utf8Len cursor.next.1.text ≠ 0 := by
      simpa using cursor.next_text_ne_nil found
    rw [token.start, token.stop, String.utf8Len_append (before ++ cursor.gap)]
    omega
  case valid =>
    rw [token.start, token.stop]
    exact ⟨valid_of_split split, valid_of_split token.split⟩
  case gap =>
    rw [gap, cursor.isEnd_next]
    exact cursor.gap_spec.1
  case newlineBefore => rw [gap, cursor.newlineBefore_next]
  case starts =>
    rw [rest]
    exact cursor.gap_spec.2
  case atEnd =>
    intro ended
    rw [token.start, size, cursor.isEnd_next_iff.mp ended, List.append_nil]

end Cursor

def gapStart (token : Nat → Token) : Nat → Nat
  | 0 => 0
  | index + 1 => (token index).span.stop

def gapText (source : String) (token : Nat → Token) (index : Nat) : List Char :=
  textBetween source (gapStart token index) (token index).span.start

/-- The tokens of a source, of which `count` come before the end of the input, and the trivia
between them make up the source. -/
structure Tiled (source : String) (count : Nat) (token : Nat → Token) : Prop where
  count_le : count ≤ source.length
  -- From the end of the input on, nothing else is read.
  isEnd_iff (index : Nat) : (token index).kind.isEnd ↔ count ≤ index
  nonempty {index : Nat} : index < count → (token index).span.start < (token index).span.stop
  valid (index : Nat) : String.Pos.Raw.Valid source ⟨(token index).span.start⟩ ∧
    String.Pos.Raw.Valid source ⟨(token index).span.stop⟩
  ordered {index later : Nat} : index < later →
    (token index).span.stop ≤ (token later).span.start
  gap {index : Nat} : index < count → Trivia.Gap false (gapText source token index)
  -- The last gap reaches the end of the source.
  lastGap : Trivia.Gap true (gapText source token count) ∧
    (token count).span.start = source.utf8ByteSize
  newlineBefore (index : Nat) :
    (token index).newlineBefore = (gapText source token index).any isLineTerminator
  -- No token starts with trivia.
  starts (index : Nat) :
    Trivia.starts (textBetween source (token index).span.start source.utf8ByteSize) = false

theorem Cursor.stands_after (source : String) (count : Nat) :
    ∃ before, ((ofText source).after count).Stands source before ∧
      gapStart (ofText source).reading count = String.utf8Len before := by
  induction count with
  | zero => exact ⟨[], ofText_stands source, rfl⟩
  | succ count ih =>
    obtain ⟨before, stands, -⟩ := ih
    obtain ⟨token, passed⟩ := (Yields.plain _).stands stands
    exact ⟨_, passed, token.stop⟩

theorem Cursor.tile_reading (source : String) (index : Nat) :
    Tile source (gapStart (ofText source).reading index) ((ofText source).reading index) := by
  obtain ⟨before, stands, start⟩ := stands_after source index
  rw [start]
  exact stands.tile

/-- Reading a source to its end takes it apart into tokens and the trivia between them. -/
theorem tokens_tile (source : String) :
    ∃ count, Tiled source count (Cursor.ofText source).reading ∧
      tokens source = (List.range (count + 1)).map (Cursor.ofText source).reading := by
  obtain ⟨count, small, isEnd, whole⟩ := (Cursor.ofText source).exists_count
  have tile := Cursor.tile_reading source
  have found {index : Nat} (early : index < count) :
      ((Cursor.ofText source).reading index).kind.isEnd = false := by
    rw [Bool.eq_false_iff, ne_eq, isEnd]
    omega
  have ended : ((Cursor.ofText source).reading count).kind.isEnd = true := (isEnd count).mpr le_rfl
  refine ⟨count, ?_, whole⟩
  constructor
  case count_le =>
    rw [← String.length_toList]
    exact small
  case isEnd_iff => exact isEnd
  case nonempty => exact fun early => (tile _).nonempty (found early)
  case valid => exact fun index => (tile index).valid
  case ordered =>
    intro index later early
    have grows : Monotone (gapStart (Cursor.ofText source).reading) :=
      monotone_nat_of_le_succ fun index => (tile index).offset_le.trans (tile index).start_le
    exact (grows early).trans (tile later).offset_le
  case gap =>
    intro index early
    exact found early ▸ (tile index).gap
  case lastGap => exact ⟨ended ▸ (tile count).gap, (tile count).atEnd ended⟩
  case newlineBefore => exact fun index => (tile index).newlineBefore
  case starts => exact fun index => (tile index).starts

end EventLoop
