import EventLoop.Proofs.Printing
import EventLoop.Proofs.Streams

set_option autoImplicit false

/-!
# Programs further down

A parser never looks at the place where a token stands, only at its kind, its text and the lines
between.
-/

namespace EventLoop

structure Displacement where
  bytes : Nat
  lines : Nat

variable (moved : Displacement)

def Position.displaced (position : Position) : Position :=
  ⟨position.offset + moved.bytes, position.line + moved.lines, position.column⟩

def Span.displaced (span : Span) : Span :=
  ⟨span.start + moved.bytes, span.stop + moved.bytes, span.line + moved.lines, span.column⟩

def Token.displaced (token : Token) : Token :=
  { token with span := token.span.displaced moved }

def Cursor.displaced (cursor : Cursor) : Cursor :=
  ⟨cursor.rest, cursor.position.displaced moved⟩

def TokenStream.displaced (stream : TokenStream) : TokenStream :=
  ⟨stream.current.displaced moved, stream.ahead.displaced moved, stream.previousKind,
    stream.previousStop + moved.bytes, stream.size + moved.bytes⟩

theorem Position.next_displaced (position : Position) (c : Char) :
    (position.displaced moved).next c = (position.next c).displaced moved := by
  unfold next displaced
  split <;> simp only [Position.mk.injEq, and_true] <;> omega

theorem Position.advance_displaced (position : Position) (text : List Char) :
    (position.displaced moved).advance text =
      (position.advance text).displaced moved := by
  induction text generalizing position with
  | nil => rfl
  | cons c text ih => rw [advance_cons, advance_cons, next_displaced, ih]

namespace Cursor

theorem skip_displaced (cursor : Cursor) (count : Nat) :
    (cursor.displaced moved).skip count = (cursor.skip count).displaced moved := by
  simp only [skip, displaced, Position.advance_displaced]

theorem token_displaced (cursor : Cursor) (newlineBefore : Bool) (kind : TokenKind) (length : Nat) :
    (cursor.displaced moved).token newlineBefore kind length =
      ((cursor.token newlineBefore kind length).1.displaced moved,
        (cursor.token newlineBefore kind length).2.displaced moved) := by
  rw [token, skip_displaced]
  rfl

theorem next_displaced (cursor : Cursor) :
    (cursor.displaced moved).next =
      (cursor.next.1.displaced moved, cursor.next.2.displaced moved) := by
  rw [next_eq, next_eq, show (cursor.displaced moved).rest = cursor.rest from rfl, skip_displaced,
    show ((cursor.skip (Trivia.length cursor.rest)).displaced moved).rest =
      (cursor.skip (Trivia.length cursor.rest)).rest from rfl]
  split
  next => exact token_displaced ..
  next => exact token_displaced ..

theorem regexp_displaced (after : Cursor) (slash : Token) :
    (after.displaced moved).regexp (slash.displaced moved) =
      ((after.regexp slash).1.displaced moved,
        (after.regexp slash).2.displaced moved) := by
  rw [regexp_eq, regexp_eq]
  exact token_displaced moved (after.before slash) ..

end Cursor

theorem arrowAfterGroup_eq (depth : Nat) (cursor : Cursor) :
    arrowAfterGroup depth cursor =
      if cursor.next.1.kind.isEnd then false
      else if cursor.next.1.kind.isPunctuator .parenOpen then
        arrowAfterGroup (depth + 1) cursor.next.2
      else if cursor.next.1.kind.isPunctuator .parenClose then
        if depth ≤ 1 then cursor.next.2.next.1.kind.isPunctuator .arrow
        else arrowAfterGroup (depth - 1) cursor.next.2
      else arrowAfterGroup depth cursor.next.2 := by
  rw [arrowAfterGroup]
  split
  next token after step => simp only [step, dite_eq_ite]

theorem arrowAfterGroup_displaced (depth : Nat) (cursor : Cursor) :
    arrowAfterGroup depth (cursor.displaced moved) = arrowAfterGroup depth cursor := by
  induction left : cursor.rest.length using Nat.strongRecOn generalizing depth cursor with
  | ind length ih =>
    rw [arrowAfterGroup_eq depth cursor, arrowAfterGroup_eq]
    simp only [Cursor.next_displaced, Token.displaced]
    split
    next => rfl
    next found =>
      have shorter := cursor.length_rest_next (by simpa using found)
      simp only [ih _ (left ▸ shorter) _ _ rfl]

namespace TokenStream

variable (stream : TokenStream)

@[simp]
theorem current_kind_displaced :
    (stream.displaced moved).current.kind = stream.current.kind := rfl

@[simp]
theorem newlineBefore_displaced :
    (stream.displaced moved).current.newlineBefore = stream.current.newlineBefore := rfl

@[simp]
theorem previousKind_displaced :
    (stream.displaced moved).previousKind = stream.previousKind := rfl

@[simp]
theorem isAt_displaced (mark : Punctuator) :
    (stream.displaced moved).isAt mark = stream.isAt mark := rfl

@[simp]
theorem isAtEnd_displaced : (stream.displaced moved).isAtEnd = stream.isAtEnd := rfl

@[simp]
theorem word?_displaced : (stream.displaced moved).word? = stream.word? := rfl

@[simp]
theorem isAtIdentifier_displaced :
    (stream.displaced moved).isAtIdentifier = stream.isAtIdentifier := rfl

@[simp]
theorem peek_kind_displaced : (stream.displaced moved).peek.kind = stream.peek.kind := by
  rw [peek, show (stream.displaced moved).ahead = stream.ahead.displaced moved from rfl,
    Cursor.next_displaced]
  rfl

@[simp]
theorem isAtArrow_displaced : (stream.displaced moved).isAtArrow = stream.isAtArrow := by
  rw [isAtArrow, isAtArrow, isAtIdentifier_displaced, peek_kind_displaced, isAt_displaced,
    show (stream.displaced moved).ahead = stream.ahead.displaced moved from rfl,
    arrowAfterGroup_displaced]

@[simp]
theorem remaining_displaced : (stream.displaced moved).remaining = stream.remaining :=
  Nat.add_sub_add_right ..

theorem advance_displaced :
    (stream.displaced moved).advance = stream.advance.displaced moved := by
  rw [advance, show (stream.displaced moved).ahead = stream.ahead.displaced moved from rfl,
    Cursor.next_displaced]
  rfl

theorem rescan_displaced :
    (stream.displaced moved).rescan = stream.rescan.displaced moved := by
  rw [rescan, show (stream.displaced moved).ahead = stream.ahead.displaced moved from rfl,
    show (stream.displaced moved).current = stream.current.displaced moved from rfl,
    Cursor.regexp_displaced]
  rfl

end TokenStream

def Alike {α γ : Type} (view : α → γ) (value found : α) : Prop := view value = view found

namespace Parser

variable {α β γ δ : Type}

-- Where the first parser reads a value, the second reads a related one from the displaced stream
-- and stops at the same token.
def Tracks (related : α → β → Prop) (parser : Parser α) (other : Parser β) : Prop :=
  ∀ ⦃stream : TokenStream⦄ ⦃value : α⦄ ⦃rest : TokenStream⦄, parser stream = .ok (value, rest) →
    ∃ found, other (stream.displaced moved) = .ok (found, rest.displaced moved) ∧
      related value found

namespace Tracks

variable {moved} {related : α → β → Prop} {linked : γ → δ → Prop}

theorem pure {value : α} {found : β} (relates : related value found) :
    Tracks moved related (Pure.pure value) (Pure.pure found) := by
  rintro stream _ _ ⟨⟩
  exact ⟨found, rfl, relates⟩

theorem fail (fault : SyntaxFault) (other : Parser β) :
    Tracks moved related (Parser.fail fault) other := by
  rintro stream _ _ ⟨⟩

theorem unexpected (expected : Expected) (other : Parser β) :
    Tracks moved related (Parser.unexpected expected) other := by
  rintro stream _ _ ⟨⟩

theorem bind {first : Parser α} {first' : Parser β} {next : α → Parser γ} {next' : β → Parser δ}
    (begins : Tracks moved related first first')
    (goes : ∀ value found, related value found →
      Tracks moved linked (next value) (next' found)) :
    Tracks moved linked (first >>= next) (first' >>= next') := by
  intro stream result rest read
  obtain ⟨value, between, begun, ended⟩ := exists_of_bind read
  obtain ⟨found, begun, relates⟩ := begins begun
  obtain ⟨result', ended, links⟩ := goes value found relates ended
  exact ⟨result', by rw [bind_ok begun, ended], links⟩

theorem fail_bind (fault : SyntaxFault) (next : α → Parser γ) (other : Parser δ) :
    Tracks moved linked (Parser.fail fault >>= next) other := by
  rintro stream _ _ ⟨⟩

theorem unexpected_bind (expected : Expected) (next : α → Parser γ) (other : Parser δ) :
    Tracks moved linked (Parser.unexpected expected >>= next) other := by
  rintro stream _ _ ⟨⟩

theorem get {next : TokenStream → Parser γ} {next' : TokenStream → Parser δ}
    (goes : ∀ stream, Tracks moved linked (next stream) (next' (stream.displaced moved))) :
    Tracks moved linked (MonadState.get >>= next) (MonadState.get >>= next') :=
  fun stream _ _ read => goes stream read

theorem start {next : Span → Parser γ} {next' : Span → Parser δ}
    (goes : ∀ span span', Tracks moved linked (next span) (next' span')) :
    Tracks moved linked (Parser.start >>= next) (Parser.start >>= next') :=
  fun _ _ _ read => goes _ _ read

theorem spanFrom {first first' : Span} {next : Span → Parser γ} {next' : Span → Parser δ}
    (goes : ∀ span span', Tracks moved linked (next span) (next' span')) :
    Tracks moved linked (Parser.spanFrom first >>= next) (Parser.spanFrom first' >>= next') :=
  fun _ _ _ read => goes _ _ read

theorem advance {next : Unit → Parser γ} {next' : Unit → Parser δ}
    (goes : Tracks moved linked (next ()) (next' ())) :
    Tracks moved linked (Parser.advance >>= next) (Parser.advance >>= next') := by
  intro stream result rest read
  rw [advance_bind, TokenStream.advance_displaced]
  exact goes read

theorem rescan {next : Unit → Parser γ} {next' : Unit → Parser δ}
    (goes : Tracks moved linked (next ()) (next' ())) :
    Tracks moved linked (modify TokenStream.rescan >>= next)
      (modify TokenStream.rescan >>= next') := by
  intro stream result rest read
  change ∃ found, next' () (stream.displaced moved).rescan = _ ∧ _
  rw [TokenStream.rescan_displaced]
  exact goes read

theorem isAt {mark : Punctuator} {next : Bool → Parser γ} {next' : Bool → Parser δ}
    (goes : ∀ found, Tracks moved linked (next found) (next' found)) :
    Tracks moved linked (Parser.isAt mark >>= next) (Parser.isAt mark >>= next') :=
  fun _ _ _ read => goes _ read

theorem ite {condition : Prop} [Decidable condition] {first second : Parser α}
    {first' second' : Parser β} (positive : Tracks moved related first first')
    (negative : Tracks moved related second second') :
    Tracks moved related (if condition then first else second)
      (if condition then first' else second') := by
  split
  next => exact positive
  next => exact negative

theorem eat {mark : Punctuator} {next : Bool → Parser γ} {next' : Bool → Parser δ}
    (goes : ∀ found, Tracks moved linked (next found) (next' found)) :
    Tracks moved linked (Parser.eat mark >>= next) (Parser.eat mark >>= next') := by
  have taken : Tracks moved Eq (Parser.eat mark) (Parser.eat mark) :=
    isAt fun found => .ite (advance (pure rfl)) (pure rfl)
  exact taken.bind fun _ _ same => same ▸ goes _

theorem expect {mark : Punctuator} {next : Unit → Parser γ} {next' : Unit → Parser δ}
    (goes : Tracks moved linked (next ()) (next' ())) :
    Tracks moved linked (Parser.expect mark >>= next) (Parser.expect mark >>= next') := by
  have taken : Tracks moved Eq (Parser.expect mark) (Parser.expect mark) := by
    refine eat fun found => ?_
    cases found
    next => exact unexpected _ _
    next => exact pure rfl
  exact taken.bind fun _ _ _ => goes

theorem map {change : α → γ} {change' : β → δ} {first : Parser α} {first' : Parser β}
    (tracks : Tracks moved related first first')
    (keeps : ∀ value found, related value found → linked (change value) (change' found)) :
    Tracks moved linked (change <$> first) (change' <$> first') := by
  rw [map_eq_pure_bind, map_eq_pure_bind]
  exact tracks.bind fun value found relates => pure (keeps value found relates)

theorem discard {first : Parser α} {first' : Parser β} {next : Unit → Parser γ}
    {next' : Unit → Parser δ} (tracks : Tracks moved related first first')
    (goes : Tracks moved linked (next ()) (next' ())) :
    Tracks moved linked (Functor.discard first >>= next) (Functor.discard first' >>= next') :=
  bind (tracks.map fun _ _ _ => (rfl : () = ())) fun _ _ _ => goes

theorem loop {step : α → Parser (α ⊕ γ)} {step' : β → Parser (β ⊕ δ)}
    (round : ∀ value found, related value found →
      Tracks moved (Sum.LiftRel related linked) (step value) (step' found))
    {value : α} {found : β} (relates : related value found) :
    Tracks moved linked (Parser.loop step value) (Parser.loop step' found) := by
  intro stream result rest
  -- The rounds of both loops leave the same number of bytes, so the induction is on that number.
  induction left : stream.remaining using Nat.strongRecOn generalizing value found stream with
  | ind bytes ih =>
    intro read
    obtain done | ⟨more, between, again, shorter, read⟩ := loop_cases read
    · obtain ⟨_, step, ⟨⟩ | links⟩ := round value found relates done
      exact ⟨_, loop_of_done step, links⟩
    · obtain ⟨_, step, relates | ⟨⟩⟩ := round value found relates again
      rw [loop_of_more step (by simpa using shorter)]
      exact ih _ (left ▸ shorter) relates rfl read

theorem done {value : γ} {found : δ} (links : linked value found) :
    Tracks moved (Sum.LiftRel related linked) (Pure.pure (.inr value)) (Pure.pure (.inr found)) :=
  pure (.inr links)

theorem more {value : α} {found : β} (relates : related value found) :
    Tracks moved (Sum.LiftRel related linked) (Pure.pure (.inl value)) (Pure.pure (.inl found)) :=
  pure (.inl relates)

end Tracks

variable {moved}

theorem identifier_tracks : Tracks moved (Alike Identifier.bare) identifier identifier := by
  refine .get fun stream => ?_
  rw [TokenStream.current_kind_displaced]
  cases stream.current.kind with
  | identifier name => exact .ite (.unexpected _ _) (.advance (.pure rfl))
  | _ => exact .unexpected _ _

theorem propertyName_tracks : Tracks moved (Alike Identifier.bare) propertyName propertyName := by
  refine .get fun stream => ?_
  rw [TokenStream.current_kind_displaced]
  cases stream.current.kind with
  | identifier name => exact .advance (.pure rfl)
  | keyword word => exact .advance (.pure rfl)
  | _ => exact .unexpected _ _

theorem endStatement_tracks : Tracks moved Eq endStatement endStatement := by
  refine .eat fun found => .ite (.pure rfl) (.get fun stream => ?_)
  simp only [TokenStream.isAt_displaced, TokenStream.isAtEnd_displaced,
    TokenStream.newlineBefore_displaced]
  exact .ite (.pure rfl) (.unexpected _ _)

theorem unsupported_tracks (kind : NodeKind) (start start' : Span) :
    Tracks moved (Alike Expr.bare) (unsupported kind start) (unsupported kind start') :=
  .spanFrom fun _ _ => .pure rfl

theorem skipToken_tracks (kind : NodeKind) (depth : Nat) (boundary : Bool) :
    Tracks moved (Sum.LiftRel Eq Eq) (skipToken kind depth boundary)
      (skipToken kind depth boundary) := by
  refine .advance (.get fun stream => ?_)
  rw [TokenStream.word?_displaced]
  exact .ite (.done rfl) (.more rfl)

theorem skipRound_tracks (kind : NodeKind) (state : Nat × Bool) :
    Tracks moved (Sum.LiftRel Eq Eq) (skipRound kind state) (skipRound kind state) := by
  refine .get fun stream => ?_
  simp only [TokenStream.current_kind_displaced, TokenStream.newlineBefore_displaced,
    TokenStream.previousKind_displaced]
  refine .ite (.done rfl) ?_
  cases stream.current.kind with
  | endOfInput => exact .ite (.done rfl) (.fail _ _)
  | invalid c => exact .unexpected _ _
  | unterminated delimiter => exact .unexpected _ _
  | punctuator mark =>
    refine .ite (skipToken_tracks ..) (.ite ?_ (skipToken_tracks ..))
    cases state.1 with
    | zero => exact .ite (.done rfl) (.unexpected _ _)
    | succ depth => exact skipToken_tracks ..
  | _ => exact skipToken_tracks ..

theorem skipStatement_tracks (kind : NodeKind) (start start' : Span) :
    Tracks moved (Alike Statement.bare) (skipStatement kind start) (skipStatement kind start') := by
  have skipped : Tracks moved Eq (loop (skipRound kind) (0, false))
      (loop (skipRound kind) (0, false)) :=
    .loop (fun _ _ same => same ▸ skipRound_tracks kind _) rfl
  exact skipped.bind fun _ _ _ => .spanFrom fun _ _ => .pure rfl

theorem skipGroup_tracks : Tracks moved Eq skipGroup skipGroup := by
  refine .loop ?_ rfl
  rintro depth _ rfl
  refine .get fun stream => ?_
  rw [TokenStream.current_kind_displaced]
  cases stream.current.kind with
  | endOfInput => exact .fail _ _
  | invalid c => exact .unexpected _ _
  | unterminated delimiter => exact .unexpected _ _
  | punctuator mark =>
    exact .advance (.ite (.more rfl) (.ite (.ite (.done rfl) (.more rfl)) (.more rfl)))
  | _ => exact .advance (.more rfl)

theorem group_tracks (kind : NodeKind) (start start' : Span) :
    Tracks moved (Alike Expr.bare) (group kind start) (group kind start') :=
  skipGroup_tracks.bind fun _ _ _ => unsupported_tracks kind start start'

theorem classHead_tracks : Tracks moved Eq classHead classHead := by
  refine .loop ?_ (rfl : () = ())
  intro _ _ same
  refine .isAt fun brace => .ite (.done rfl) (.get fun stream => ?_)
  rw [TokenStream.isAtEnd_displaced]
  exact .ite (.fail_bind ..) (.advance (.more rfl))

end Parser

end EventLoop
