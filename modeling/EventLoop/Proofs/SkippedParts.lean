import EventLoop.Parsing.Operands
import EventLoop.Proofs.Outcomes

set_option autoImplicit false

/-!
# Names and skipped parts

The parsers that need no level of nesting: those of single words, which lie in the source as they
are spelled, and those that only count brackets.
-/

namespace EventLoop

def TokenKind.spelling? : TokenKind → Option (List Char)
  | .identifier name => some name.toList
  | .keyword word => some word.chars
  | _ => none

theorem spelling?_wordKind (word : List Char) : (wordKind word).spelling? = some word := by
  unfold wordKind
  split
  next keyword found =>
    rw [Keyword.ofChars?] at found
    have same := List.find?_some found
    rw [TokenKind.spelling?, eq_of_beq same]
  next => simp [TokenKind.spelling?]

theorem NumberLiteral.spelling?_read (text : List Char) :
    (NumberLiteral.read text).1.spelling? = none := by
  unfold NumberLiteral.read
  split
  next =>
    split
    next base _ =>
      dsimp only [inBase]
      split <;> rfl
    next => rfl
  next => rfl

theorem StringLiteral.spelling?_readFrom (quote : Char) (value : List Char) (count : Nat)
    (text : List Char) :
    (StringLiteral.readFrom quote value count text).1.spelling? = none := by
  fun_induction StringLiteral.readFrom quote value count text with
  | case1 | case2 | case3 | case5 => rfl
  | case4 _ _ _ _ _ _ _ _ _ _ ih => exact ih
  | case6 _ _ _ _ _ _ _ ih => exact ih

theorem TokenKind.spelling?_read {c : Char} (other : Text.isWordStart c = false)
    (rest : List Char) : (TokenKind.read c rest).1.spelling? = none := by
  unfold TokenKind.read
  rw [if_neg (by simp [other])]
  split
  next => exact NumberLiteral.spelling?_read _
  next =>
    split
    next => exact StringLiteral.spelling?_readFrom ..
    next =>
      split
      next =>
        unfold TemplateLiteral.read
        split <;> rfl
      next => split <;> rfl

theorem TokenKind.take_of_spelling? {c : Char} {rest word : List Char}
    (spelled : (TokenKind.read c rest).1.spelling? = some word) :
    (c :: rest).take ((TokenKind.read c rest).2 + 1) = word ∧ Text.IsWord word := by
  cases starts : Text.isWordStart c with
  | true =>
    have own : TokenKind.read c rest =
        (wordKind (c :: rest.takeWhile Text.isWordPart),
          (rest.takeWhile Text.isWordPart).length) := by
      simp [TokenKind.read, starts]
    rw [own, spelling?_wordKind] at spelled
    rw [own, List.take_succ_cons, ← Option.some.inj spelled]
    refine ⟨?_, c, _, rfl, starts, fun d => List.mem_takeWhile_imp⟩
    congr 1
    exact (List.prefix_iff_eq_take.mp (List.takeWhile_prefix _)).symm
  | false =>
    rw [TokenKind.spelling?_read starts] at spelled
    cases spelled

theorem TokenStream.InSource.text_of_spelling? {stream : TokenStream} {source : String}
    {word : List Char} (inSource : stream.InSource source)
    (spelled : stream.current.kind.spelling? = some word) :
    stream.current.text = word ∧ Text.IsWord word := by
  obtain ⟨-, cursor, passed, -, yields, -⟩ := inSource
  generalize stream.current = current at *
  generalize stream.ahead = ahead at *
  cases yields with
  | plain =>
    cases found : cursor.onToken.rest with
    | nil =>
      rw [Cursor.next_of_nil found] at spelled
      cases spelled
    | cons c rest =>
      rw [Cursor.next_of_cons found] at spelled ⊢
      rw [Cursor.token_text, found]
      exact TokenKind.take_of_spelling? spelled
  | regexp =>
    obtain ⟨pattern, flags, kind⟩ | kind := cursor.next.2.regexp_kind cursor.next.1 <;>
      rw [kind] at spelled <;> cases spelled

open TokenStream

variable {source : String} {stream rest : TokenStream}

namespace Parser

theorem skipGroupRound_meets (depth : Nat) (stream : TokenStream) :
    Meets (skipGroupRound depth) stream fun _ rest =>
      rest = stream.advance ∧ stream.current.kind.isEnd = false := by
  unfold skipGroupRound
  simp only [meets_look]
  split
  next => exact meets_fail (by simp)
  next => exact meets_unexpected _
  next => exact meets_unexpected _
  next mark kind =>
    simp only [meets_advance]
    have inside : stream.current.kind.isEnd = false := by rw [kind]; rfl
    exact .ite (fun _ => ⟨rfl, inside⟩) fun _ =>
      .ite (fun _ => .ite (fun _ => ⟨rfl, inside⟩) fun _ => ⟨rfl, inside⟩) fun _ => ⟨rfl, inside⟩
  next ended _ _ _ =>
    refine ⟨rfl, ?_⟩
    cases kind : stream.current.kind <;> simp_all [TokenKind.isEnd]

theorem skipGroup_ahead (inSource : stream.InSource source) :
    Meets skipGroup stream fun _ rest => Ahead source stream rest := by
  refine Meets.loop (fun _ now => Later source stream now) ?_ inSource inSource.later
  intro depth now inSource later
  refine (skipGroupRound_meets depth now).mono ?_
  rintro result _ ⟨rfl, inside⟩
  have ahead := inSource.ahead_advance inside
  cases result with
  | inl => exact ⟨ahead, later.trans ahead.toLater⟩
  | inr => exact later.trans_ahead ahead

inductive Skips (stream : TokenStream) (consumed : Bool) :
    (Nat × Bool) ⊕ Unit → TokenStream → Prop where
  | more (inside : stream.current.kind.isEnd = false) (depth : Nat) :
      Skips stream consumed (.inl (depth, true)) stream.advance
  | last (inside : stream.current.kind.isEnd = false) :
      Skips stream consumed (.inr ()) stream.advance
  | done (read : consumed ∨ stream.isAtEnd ∨ stream.isAt .braceClose) :
      Skips stream consumed (.inr ()) stream

theorem skipToken_skips {consumed : Bool} (inside : stream.current.kind.isEnd = false)
    (kind : NodeKind) (depth : Nat) (boundary : Bool) :
    Meets (skipToken kind depth boundary) stream (Skips stream consumed) := by
  unfold skipToken
  simp only [meets_advance, meets_look]
  exact .ite (fun _ => Skips.last inside) fun _ => Skips.more inside depth

theorem skipRound_skips (kind : NodeKind) (depth : Nat) (consumed : Bool) (stream : TokenStream) :
    Meets (skipRound kind (depth, consumed)) stream (Skips stream consumed) := by
  unfold skipRound
  simp only [meets_look]
  -- The statement is over where a line ends it; otherwise the kind of the token decides.
  refine .ite (fun ends => ?_) fun _ => ?_
  next =>
    simp only [Bool.and_eq_true] at ends
    exact Skips.done (.inl ends.1.1.2)
  split
  next ended =>
    refine .ite (fun _ => Skips.done (.inr (.inl ?_))) fun _ => meets_fail (by simp)
    rw [isAtEnd, ended]
    rfl
  next => exact meets_unexpected _
  next => exact meets_unexpected _
  next mark found =>
    have inside : stream.current.kind.isEnd = false := by rw [found]; rfl
    refine .ite (fun _ => skipToken_skips inside ..) fun _ =>
      .ite (fun _ => ?_) fun _ => skipToken_skips inside ..
    cases depth with
    | zero =>
      refine .ite (fun brace => ?_) fun _ => meets_unexpected _
      exact Skips.done (.inr (.inr (isAt_of_kind (eq_of_beq brace ▸ found))))
    | succ outer => exact skipToken_skips inside ..
  next =>
    have inside : stream.current.kind.isEnd = false := by
      cases kind : stream.current.kind <;> simp_all [TokenKind.isEnd]
    exact skipToken_skips inside ..

theorem skipStatement_meets (inSource : stream.InSource source) (kind : NodeKind)
    {start : Span} (opens : start.Opens source) (before : start.start ≤ stream.current.span.start)
    (inside : stream.isAtEnd = false) (unclosed : stream.isAt .braceClose = false) :
    Meets (skipStatement kind start) stream fun statement rest => Ahead source stream rest ∧
      statement.tree.Fits source 1 start.start rest.previousStop := by
  have skipped : Meets (skip .statement (loop (skipRound kind) (0, false))) stream fun _ rest =>
      Ahead source stream rest := by
    refine Meets.loop (fun state now =>
      if state.2 then Ahead source stream now else now = stream) ?_ inSource rfl
    rintro ⟨depth, consumed⟩ now within read
    have later : Later source stream now := by
      cases consumed with
      | true => exact read.toLater
      | false =>
        obtain rfl : now = stream := read
        exact inSource.later
    refine (skipRound_skips kind depth consumed now).mono fun result rest skips => ?_
    cases skips with
    | more more =>
      have ahead := within.ahead_advance more
      exact ⟨ahead, later.trans_ahead ahead⟩
    | last more => exact later.trans_ahead (within.ahead_advance more)
    | done reason =>
      -- The statement cannot be over before its first token.
      cases consumed with
      | true => exact read
      | false =>
        obtain rfl : now = stream := read
        simp [inside, unclosed] at reason
  unfold skipStatement
  refine skipped.bind fun _ rest ahead => ⟨ahead, ?_⟩
  have further : start.start < rest.previousStop := before.trans_lt ahead.start_lt
  exact ahead.inSource.fits_node opens further (.nil further.le) rfl

theorem word_reads (inSource : stream.InSource source) {name : String}
    (spelled : stream.current.kind.spelling? = some name.toList) :
    Ahead source stream stream.advance ∧
      (Identifier.tree ⟨name, stream.current.span⟩).Fits source 0 stream.current.span.start
        stream.advance.previousStop := by
  have inside := TokenKind.isEnd_of_eq_some spelled rfl
  obtain ⟨text, word⟩ := inSource.text_of_spelling? spelled
  refine ⟨inSource.ahead_advance inside, ?_, ?_, le_rfl, le_rfl, le_rfl⟩
  · refine .node ⟨inSource.marks_current inside, ?_, by simp, .nil⟩ (by simp)
    rintro _ ⟨⟩
    rw [SyntaxTree.span_node, inSource.textBetween_current, text]
  · refine .node ?_ (by simp)
    rintro _ ⟨⟩
    exact word

theorem identifier_reads (inSource : stream.InSource source) :
    Reads identifier Identifier.tree source 0 stream := by
  unfold Reads identifier
  simp only [meets_look]
  split
  next name kind =>
    exact .ite (fun _ => meets_unexpected _) fun _ => word_reads inSource (by rw [kind]; rfl)
  next => exact meets_unexpected _

theorem propertyName_reads (inSource : stream.InSource source) :
    Reads propertyName Identifier.tree source 0 stream := by
  unfold Reads propertyName
  simp only [meets_look]
  split
  next name kind => exact word_reads inSource (by rw [kind]; rfl)
  next keyword kind =>
    apply word_reads inSource
    rw [kind, Keyword.text, String.toList_ofList]
    rfl
  next => exact meets_unexpected _

theorem endStatement_later (inSource : stream.InSource source) :
    Meets endStatement stream fun _ rest => Later source stream rest := by
  unfold endStatement
  refine .eat (fun semicolon => (inSource.ahead_mark semicolon).toLater) fun _ => ?_
  simp only [meets_look]
  exact .ite (fun _ => inSource.later) fun _ => meets_unexpected _

theorem classHead_later (inSource : stream.InSource source) :
    Meets classHead stream fun _ rest => Later source stream rest := by
  refine Meets.loop (fun _ now => Later source stream now) ?_ inSource inSource.later
  rintro ⟨⟩ now within later
  unfold classHeadRound
  simp only [meets_isAt]
  refine .ite (fun _ => later)
    fun _ => .ite (fun _ => meets_fail_bind (by simp) _) fun inside => ?_
  rw [Bool.not_eq_true] at inside
  have ahead := within.ahead_advance inside
  exact ⟨ahead, later.trans ahead.toLater⟩

end Parser

end EventLoop
