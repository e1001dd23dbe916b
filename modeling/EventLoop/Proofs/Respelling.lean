import EventLoop.Proofs.Lexemes

set_option autoImplicit false

/-!
# Reading respelled tokens

The texts of the tokens of a source, one after the other with a blank between any two, make a source
with the same tokens.
-/

namespace EventLoop

open Text (isBlank isLineTerminator)

namespace Trivia

theorem length_cons_blank (text : List Char) : length (' ' :: text) = length text + 1 := by
  rw [length, length, ← lengthFrom_add]
  rfl

theorem length_eq_zero {text : List Char} (stop : starts text = false) : length text = 0 := by
  unfold starts at stop
  split at stop
  next => cases stop
  next => cases stop
  next c rest noLine noBlock =>
    rw [length, lengthFrom.eq_def]
    split <;> simp_all
  next => rfl

theorem starts_cons (c : Char) (rest : List Char) :
    starts (c :: rest) =
      (isBlank c || c == '/' && rest.head?.any fun d => d == '/' || d == '*') := by
  unfold starts
  split
  next same =>
    obtain ⟨rfl, rfl⟩ := List.cons.inj same
    simp
  next same =>
    obtain ⟨rfl, rfl⟩ := List.cons.inj same
    simp
  next d more noLine noBlock same =>
    obtain ⟨rfl, rfl⟩ := List.cons.inj same
    cases rest <;> simp_all
  next same => cases same

theorem starts_of_separates {c : Char} {own tail after : List Char}
    (stop : starts (c :: (own ++ tail)) = false) (separates : Separates tail after) :
    starts (c :: (own ++ after)) = false := by
  rw [starts_cons, Bool.or_eq_false_iff] at *
  refine ⟨stop.1, ?_⟩
  cases own with
  | nil =>
    have blank := separates.head?_all (p := fun d => !(d == '/' || d == '*')) (by decide)
    cases after <;> simp_all
  | cons d own => exact stop.2

end Trivia

namespace Cursor

theorem next_blank (text : List Char) (position : Position) :
    next ⟨' ' :: text, position⟩ = next ⟨text, position.next ' '⟩ := by
  have place : onToken ⟨' ' :: text, position⟩ = onToken ⟨text, position.next ' '⟩ := by
    simp [onToken, skip, Trivia.length_cons_blank]
  have break_ : (gap ⟨' ' :: text, position⟩).any isLineTerminator =
      (gap ⟨text, position.next ' '⟩).any isLineTerminator := by
    simp [gap, Trivia.length_cons_blank, show isLineTerminator ' ' = false by decide]
  cases found : (onToken ⟨text, position.next ' '⟩).rest with
  | nil => rw [next_of_nil found, next_of_nil (place ▸ found), place, break_]
  | cons c rest => rw [next_of_cons found, next_of_cons (place ▸ found), place, break_]

theorem onToken_of_starts {cursor : Cursor} (stop : Trivia.starts cursor.rest = false) :
    cursor.onToken = cursor := by
  simp [onToken, skip, Trivia.length_eq_zero stop]

theorem next_respelled {cursor : Cursor} (found : cursor.next.1.kind.isEnd = false)
    {after : List Char} (separates : Separates cursor.next.2.rest after) (position : Position) :
    (next ⟨cursor.next.1.text ++ after, position⟩).1.kind = cursor.next.1.kind ∧
      (next ⟨cursor.next.1.text ++ after, position⟩).2.rest = after := by
  cases first : cursor.onToken.rest with
  | nil =>
    rw [cursor.isEnd_next, first] at found
    cases found
  | cons c rest =>
    obtain ⟨own, tail, rfl, length, again⟩ := TokenKind.read_contained c rest
    have read := next_of_cons first
    rw [length] at read
    have text : cursor.next.1.text = c :: own := by simp [read, first]
    have left : cursor.next.2.rest = tail := by simp [read, first]
    rw [left] at separates
    have stop : Trivia.starts (c :: (own ++ after)) = false :=
      Trivia.starts_of_separates (first ▸ cursor.gap_spec.2) separates
    have firstAgain : (onToken ⟨c :: (own ++ after), position⟩).rest = c :: (own ++ after) := by
      rw [onToken_of_starts stop]
    rw [text, List.cons_append, next_of_cons firstAgain, again after separates, length, read]
    simp [firstAgain]

theorem tokens_blank (text : List Char) (position : Position) :
    tokens ⟨' ' :: text, position⟩ = tokens ⟨text, position.next ' '⟩ := by
  rw [tokens_eq, next_blank, ← tokens_eq]

end Cursor

theorem Cursor.yields_nextWith (regexpAt : Token → Bool) (cursor : Cursor) :
    cursor.Yields (cursor.nextWith regexpAt).1 (cursor.nextWith regexpAt).2 := by
  unfold nextWith
  dsimp only
  split
  next slash => exact .regexp (Bool.and_eq_true_iff.mp slash).1
  next => exact .plain cursor

theorem reads_tokensFrom (regexpAt : Token → Bool) (cursor : Cursor) :
    ∃ after, cursor.Reads (tokensFrom regexpAt cursor) after := by
  fun_induction tokensFrom regexpAt cursor with
  | case1 cursor token after step last =>
    have yields := cursor.yields_nextWith regexpAt
    rw [step] at yields
    exact ⟨after, .token yields (.nothing after)⟩
  | case2 cursor token after step last shorter ih =>
    have yields := cursor.yields_nextWith regexpAt
    rw [step] at yields
    obtain ⟨final, reads⟩ := ih
    exact ⟨final, .token yields reads⟩

def respelling (tokens : List Token) : List Char :=
  [' '].intercalate (tokens.dropLast.map (·.text))

theorem Cursor.tokens_ne_nil (cursor : Cursor) : cursor.tokens ≠ [] := by
  rw [tokens_eq]
  split <;> simp

theorem respelling_cons (first second : Token) {rest : List Token} (more : rest ≠ []) :
    respelling (first :: second :: rest) = first.text ++ ' ' :: respelling (second :: rest) := by
  obtain ⟨third, rest, rfl⟩ := List.exists_cons_of_ne_nil more
  simp [respelling, List.dropLast, List.intercalate_cons_cons]

theorem respelling_of_found {cursor : Cursor} (found : cursor.next.1.kind.isEnd = false) :
    ∃ after, Separates cursor.next.2.rest after ∧
      respelling cursor.tokens = cursor.next.1.text ++ after ∧
      (after = respelling cursor.next.2.tokens ∨
        after = ' ' :: respelling cursor.next.2.tokens) := by
  rw [Cursor.tokens_of_found found]
  by_cases ended : cursor.next.2.next.1.kind.isEnd
  next =>
    rw [Cursor.tokens_of_isEnd ended]
    exact ⟨[], ⟨.inl rfl, fun _ => rfl⟩, by simp [respelling], .inl rfl⟩
  next =>
    rw [Bool.not_eq_true] at ended
    have more : cursor.next.2.rest ≠ [] := by
      intro empty
      rw [Cursor.isEnd_next, Cursor.onToken, Cursor.rest_skip, empty] at ended
      cases ended
    refine ⟨_, ⟨.inr ⟨_, rfl⟩, fun empty => absurd empty more⟩, ?_, .inr rfl⟩
    rw [Cursor.tokens_of_found ended]
    exact respelling_cons _ _ (Cursor.tokens_ne_nil _)

theorem kinds_respelling (cursor : Cursor) (position : Position) :
    (Cursor.tokens ⟨respelling cursor.tokens, position⟩).map (·.kind) =
      cursor.tokens.map (·.kind) := by
  -- By induction on what is left to read; the respelling has one blank between two tokens, and the
  -- same tokens.
  induction left : cursor.rest.length using Nat.strongRecOn generalizing cursor position with
  | ind length ih =>
    by_cases ended : cursor.next.1.kind.isEnd
    next =>
      have empty : respelling [cursor.next.1] = [] := rfl
      rw [Cursor.tokens_of_isEnd ended, empty, Cursor.tokens_nil]
      cases kind : cursor.next.1.kind <;> simp_all [TokenKind.isEnd]
    next =>
      rw [Bool.not_eq_true] at ended
      obtain ⟨after, separates, spelled, rest⟩ := respelling_of_found ended
      obtain ⟨kind, remains⟩ := Cursor.next_respelled ended separates position
      have shorter := left ▸ cursor.length_rest_next ended
      rw [spelled, Cursor.tokens_of_found (kind ▸ ended), Cursor.tokens_of_found ended,
        List.map_cons, List.map_cons, kind]
      congr 1
      generalize Cursor.next ⟨cursor.next.1.text ++ after, position⟩ = again at remains
      obtain ⟨token, restAgain, place⟩ := again
      obtain rfl := remains
      obtain rfl | rfl := rest
      next => exact ih _ shorter cursor.next.2 place rfl
      next =>
        rw [Cursor.tokens_blank]
        exact ih _ shorter cursor.next.2 _ rfl

def respelled (source : String) : String :=
  " ".intercalate ((tokens source).dropLast.map fun token =>
    String.ofList (textBetween source token.span.start token.span.stop))

/-- Reading the texts of the tokens of a source gives the tokens of the source. -/
theorem kinds_of_respelled (source : String) :
    (tokens (respelled source)).map (·.kind) = (tokens source).map (·.kind) := by
  have spelled : (respelled source).toList = respelling (tokens source) := by
    obtain ⟨after, reads⟩ := reads_tokensFrom (fun _ => false) (.ofText source)
    rw [respelled, String.toList_intercalate, respelling, List.map_map]
    congr 1
    refine List.map_congr_left fun token member => ?_
    obtain ⟨before, after, stands⟩ :=
      reads.stands (Cursor.ofText_stands source) token (List.dropLast_subset _ member)
    simp [stands.textBetween_span]
  rw [tokens, tokensWith, Cursor.ofText, spelled]
  exact kinds_respelling (.ofText source) .origin

end EventLoop
