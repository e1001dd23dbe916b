import EventLoop.Proofs.Movements

set_option autoImplicit false

/-!
# What expressions enclose

A skipped statement looks at single tokens: it counts brackets, ends at a semicolon outside all of
them and gives up at a token that is broken.
-/

namespace EventLoop

def TokenKind.skim (depth : Nat) : TokenKind → Option Nat
  | .endOfInput | .invalid _ | .unterminated _ => none
  | .punctuator mark =>
      if mark.isOpening then some (depth + 1)
      else if mark.isClosing then if depth = 0 then none else some (depth - 1)
      else if depth = 0 ∧ mark = .semicolon then none
      else some depth
  | _ => some depth

/-- The number of open brackets after tokens that a skipped statement takes without ending. -/
def skims (depth : Nat) : List TokenKind → Option Nat
  | [] => some depth
  | kind :: kinds => (kind.skim depth).bind (skims · kinds)

theorem skims_append (depth : Nat) (first second : List TokenKind) :
    skims depth (first ++ second) = (skims depth first).bind (skims · second) := by
  induction first generalizing depth with
  | nil => rfl
  | cons kind first ih =>
    rw [List.cons_append, skims, skims, Option.bind_assoc]
    exact congrArg _ (funext ih)

namespace TokenKind

def isCalm : TokenKind → Bool
  | .endOfInput | .invalid _ | .unterminated _ => false
  | .punctuator mark => !mark.isOpening && !mark.isClosing && mark != .semicolon
  | _ => true

theorem skim_of_isCalm {kind : TokenKind} (calm : kind.isCalm) (depth : Nat) :
    kind.skim depth = some depth := by
  cases kind <;> simp_all [isCalm, skim]

theorem isEnd_of_isCalm {kind : TokenKind} (calm : kind.isCalm) : kind.isEnd = false := by
  cases kind <;> simp_all [isCalm, isEnd]

end TokenKind

namespace TokenStream

variable {stream between rest : TokenStream} {least opened : Nat}

-- The tokens up to the other stream are taken by a skipped statement too, at every depth from the
-- least one on, and leave so many more brackets open. Nothing is said of a class.
def Skims (least opened : Nat) (stream rest : TokenStream) : Prop :=
  ∃ kinds, stream.Passes kinds rest ∧
    (.identifier "class" ∉ kinds → ∀ depth, least ≤ depth →
      skims depth kinds = some (depth + opened))

namespace Skims

theorem refl (least : Nat) (stream : TokenStream) : stream.Skims least 0 stream :=
  ⟨[], .nothing stream, fun _ _ _ => rfl⟩

theorem trans {low more : Nat} (first : Skims least opened stream between)
    (second : Skims low more between rest) (deep : low ≤ least + opened) :
    Skims least (opened + more) stream rest := by
  obtain ⟨kinds, passes, taken⟩ := first
  obtain ⟨others, later, takenLater⟩ := second
  refine ⟨kinds ++ others, passes.append later, fun classless depth low => ?_⟩
  rw [List.mem_append, not_or] at classless
  rw [skims_append, taken classless.1 depth low, Option.bind_some,
    takenLater classless.2 _ (by omega), Nat.add_assoc]

theorem mono {low : Nat} (skims : Skims low opened stream rest) (deeper : low ≤ least) :
    Skims least opened stream rest := by
  obtain ⟨kinds, passes, taken⟩ := skims
  exact ⟨kinds, passes, fun classless depth deep => taken classless depth (deeper.trans deep)⟩

theorem token (inside : stream.current.kind.isEnd = false)
    (taken : ∀ depth, least ≤ depth → stream.current.kind.skim depth = some (depth + opened)) :
    Skims least opened stream stream.advance := by
  refine ⟨_, .token inside (.nothing _), fun _ depth low => ?_⟩
  rw [skims, taken depth low]
  rfl

theorem calm (calm : stream.current.kind.isCalm) : Skims least 0 stream stream.advance :=
  token (TokenKind.isEnd_of_isCalm calm) fun depth _ => TokenKind.skim_of_isCalm calm depth

theorem close (skims : Skims least (opened + 1) stream between) {mark : Punctuator}
    (here : between.isAt mark) (closing : mark.isClosing) :
    Skims least opened stream between.advance := by
  obtain ⟨kinds, passes, taken⟩ := skims
  refine ⟨kinds ++ [.punctuator mark], passes.append (.mark here), fun classless depth low => ?_⟩
  rw [List.mem_append, not_or] at classless
  have opening : mark.isOpening = false := by
    cases mark <;> first | rfl | cases closing
  rw [skims_append, taken classless.1 depth low, Option.bind_some]
  simp [EventLoop.skims, TokenKind.skim, opening, closing]

theorem opening {mark : Punctuator} (here : stream.isAt mark) (opening : mark.isOpening) :
    Skims least 1 stream stream.advance := by
  have kind := kind_of_isAt here
  refine token (by rw [kind]; rfl) fun depth _ => ?_
  simp [kind, TokenKind.skim, opening]

theorem semicolon (here : stream.isAt .semicolon) : Skims 1 0 stream stream.advance := by
  have kind := kind_of_isAt here
  refine token (by rw [kind]; rfl) fun depth deep => ?_
  have inside : depth ≠ 0 := by omega
  simp [kind, TokenKind.skim, Punctuator.isOpening, Punctuator.isClosing, inside]

end Skims

def Encloses (mark : Punctuator) (stream rest : TokenStream) : Prop :=
  ∃ close, Skims 1 0 stream close ∧ close.isAt mark ∧ rest = close.advance

theorem Encloses.skims {left right : Punctuator} (encloses : stream.advance.Encloses right rest)
    (here : stream.isAt left) (opening : left.isOpening) (closing : right.isClosing) :
    Skims least 0 stream rest := by
  obtain ⟨close, inside, closed, rfl⟩ := encloses
  exact (Skims.trans (.opening here opening) inside (by omega)).close closed closing

end TokenStream

namespace Parser

open TokenStream (Skims Encloses)

variable {α β : Type} {stream : TokenStream} {least : Nat} {mark : Punctuator}

def Ensures (parser : Parser α) (stream : TokenStream) (post : α → TokenStream → Prop) : Prop :=
  ∀ ⦃value : α⦄ ⦃rest : TokenStream⦄, parser stream = .ok (value, rest) → post value rest

def Keeps (least : Nat) (parser : Parser α) (stream : TokenStream) : Prop :=
  parser.Ensures stream fun _ rest => Skims least 0 stream rest

theorem Ensures.loop {step : α → Parser (α ⊕ β)} (kept : α → TokenStream → Prop)
    {post : β → TokenStream → Prop}
    (round : ∀ {value : α} {stream : TokenStream}, kept value stream →
      (step value).Ensures stream fun result rest => result.elim (kept · rest) (post · rest))
    {value : α} (begins : kept value stream) : Ensures (loop step value) stream post := by
  intro result rest read
  -- A loop that succeeds leaves less of the source in every round.
  induction left : stream.remaining using Nat.strongRecOn generalizing value stream with
  | ind bytes ih =>
    obtain done | ⟨more, between, again, shorter, read⟩ := loop_cases read
    next => exact round begins done
    next => exact ih _ (left ▸ shorter) (round begins again) read rfl

section Rules

variable {post : α → TokenStream → Prop} {post' : β → TokenStream → Prop}

@[simp]
theorem ensures_pure (value : α) :
    (pure value : Parser α).Ensures stream post ↔ post value stream := by
  refine ⟨fun ensures => ensures rfl, ?_⟩
  rintro holds _ _ ⟨⟩
  exact holds

@[simp]
theorem ensures_look (next : TokenStream → Parser β) :
    (look >>= next).Ensures stream post' ↔
      (next stream).Ensures stream post' := Iff.rfl

@[simp]
theorem ensures_advance (next : Unit → Parser β) :
    (advance >>= next).Ensures stream post' ↔ (next ()).Ensures stream.advance post' := Iff.rfl

theorem ensures_fail (fault : SyntaxFault) : (fail fault : Parser α).Ensures stream post := by
  rintro _ _ ⟨⟩

theorem ensures_unexpected (expected : Expected) :
    (unexpected expected : Parser α).Ensures stream post := by
  rintro _ _ ⟨⟩

theorem Ensures.ite {condition : Prop} [Decidable condition] {first second : Parser α}
    (positive : condition → first.Ensures stream post)
    (negative : ¬condition → second.Ensures stream post) :
    (if condition then first else second).Ensures stream post := by
  split
  next holds => exact positive holds
  next fails => exact negative fails

theorem Ensures.bind_any {first : Parser α} {next : α → Parser β}
    (goes : ∀ value rest, (next value).Ensures rest post') :
    (first >>= next).Ensures stream post' := by
  intro result rest read
  obtain ⟨value, between, -, ended⟩ := exists_of_bind read
  exact goes value between ended

theorem ensures_expect {next : Unit → Parser β}
    (goes : stream.isAt mark → (next ()).Ensures stream.advance post') :
    (expect mark >>= next).Ensures stream post' := by
  intro result rest read
  cases here : stream.isAt mark with
  | true =>
    rw [expect_bind_of_isAt here] at read
    exact goes here read
  | false =>
    obtain ⟨_, _, failed, -⟩ := exists_of_bind read
    rw [expect, eat_bind_of_not_isAt here] at failed
    cases failed

end Rules

namespace Keeps

theorem pure (value : α) : Keeps least (Pure.pure value) stream :=
  (ensures_pure value).mpr (.refl least stream)

theorem unexpected (expected : Expected) :
    Keeps least (Parser.unexpected expected : Parser α) stream := ensures_unexpected expected

theorem fail_bind (fault : SyntaxFault) (next : α → Parser β) :
    Keeps least (Parser.fail fault >>= next) stream := by
  rintro _ _ ⟨⟩

theorem unexpected_bind (expected : Expected) (next : α → Parser β) :
    Keeps least (Parser.unexpected expected >>= next) stream := by
  rintro _ _ ⟨⟩

theorem bind {first : Parser α} {next : α → Parser β} (begins : first.Keeps least stream)
    (goes : ∀ value rest, (next value).Keeps least rest) : (first >>= next).Keeps least stream := by
  intro result rest read
  obtain ⟨value, between, begun, ended⟩ := exists_of_bind read
  exact (begins begun).trans (goes value between ended) (Nat.le_add_right ..)

theorem discard {first : Parser α} {next : Unit → Parser β} (begins : first.Keeps least stream)
    (goes : ∀ rest, (next ()).Keeps least rest) :
    (Functor.discard first >>= next).Keeps least stream := by
  have same : (Functor.discard first >>= next) = first >>= fun _ => next () := bind_map_left ..
  rw [same]
  exact begins.bind fun _ => goes

theorem map {first : Parser α} (change : α → β) (keeps : first.Keeps least stream) :
    (change <$> first).Keeps least stream := by
  rw [map_eq_pure_bind]
  exact keeps.bind fun _ _ => pure _

theorem get {next : TokenStream → Parser β} (goes : (next stream).Keeps least stream) :
    ((MonadState.get : Parser TokenStream) >>= next).Keeps least stream := goes

theorem start {next : Span → Parser β} (goes : ∀ span, (next span).Keeps least stream) :
    (Parser.start >>= next).Keeps least stream := goes _

theorem spanFrom {first : Span} {next : Span → Parser β}
    (goes : ∀ span, (next span).Keeps least stream) :
    (Parser.spanFrom first >>= next).Keeps least stream := goes _

theorem isAt {next : Bool → Parser β} (goes : (next (stream.isAt mark)).Keeps least stream) :
    (Parser.isAt mark >>= next).Keeps least stream := goes

theorem ite {condition : Prop} [Decidable condition] {first second : Parser α}
    (positive : condition → first.Keeps least stream)
    (negative : ¬condition → second.Keeps least stream) :
    (if condition then first else second).Keeps least stream := Ensures.ite positive negative

theorem advance {next : Unit → Parser β} (skims : Skims least 0 stream stream.advance)
    (goes : ∀ rest, (next ()).Keeps least rest) : (Parser.advance >>= next).Keeps least stream :=
  fun _ _ read => skims.trans (goes _ read) (Nat.le_add_right ..)

theorem taken (calm : (TokenKind.punctuator mark).isCalm) : Keeps least (Parser.eat mark) stream :=
  isAt (ite
    (fun here => advance (.calm (TokenStream.kind_of_isAt here ▸ calm)) fun _ => pure _)
    fun _ => pure _)

theorem eat {next : Bool → Parser β} (calm : (TokenKind.punctuator mark).isCalm)
    (goes : ∀ found rest, (next found).Keeps least rest) :
    (Parser.eat mark >>= next).Keeps least stream := (taken calm).bind goes

theorem expect {next : Unit → Parser β} (calm : (TokenKind.punctuator mark).isCalm)
    (goes : ∀ rest, (next ()).Keeps least rest) :
    (Parser.expect mark >>= next).Keeps least stream := by
  have found : Keeps least (Parser.expect mark) stream := by
    refine eat calm fun found rest => ?_
    cases found
    next => exact unexpected _
    next => exact pure _
  exact found.bind fun _ => goes

theorem loop {step : α → Parser (α ⊕ β)}
    (round : ∀ value stream, (step value).Keeps least stream) (value : α) :
    Keeps least (Parser.loop step value) stream := by
  refine Ensures.loop (fun _ now => Skims least 0 stream now) ?_ (.refl least stream)
  intro value now skims result rest read
  have more := skims.trans (round value now read) (Nat.le_add_right ..)
  cases result
  next => exact more
  next => exact more

end Keeps

def Fills (mark : Punctuator) (round : Parser (α ⊕ β)) (stream : TokenStream) : Prop :=
  round.Ensures stream fun result rest =>
    result.elim (fun _ => Skims 1 0 stream rest) fun _ => Encloses mark stream rest

namespace Fills

theorem more (value : α) : Fills mark (pure (.inl value) : Parser (α ⊕ β)) stream :=
  (ensures_pure _).mpr (.refl 1 stream)

theorem bind {γ : Type} {first : Parser γ} {next : γ → Parser (α ⊕ β)}
    (begins : first.Keeps 1 stream) (goes : ∀ value rest, Fills mark (next value) rest) :
    Fills mark (first >>= next) stream := by
  intro result rest read
  obtain ⟨value, between, begun, ended⟩ := exists_of_bind read
  have skims := begins begun
  have fills := goes value between ended
  cases result
  next => exact skims.trans fills (by omega)
  next =>
    obtain ⟨close, inside, closed⟩ := fills
    exact ⟨close, skims.trans inside (by omega), closed⟩

theorem fail_bind {γ : Type} (fault : SyntaxFault) (next : γ → Parser (α ⊕ β)) :
    Fills mark (fail fault >>= next) stream := by
  rintro _ _ ⟨⟩

theorem ite {condition : Prop} [Decidable condition] {first second : Parser (α ⊕ β)}
    (positive : Fills mark first stream) (negative : Fills mark second stream) :
    Fills mark (if condition then first else second) stream :=
  Ensures.ite (fun _ => positive) fun _ => negative

theorem expect (value : β) :
    Fills mark (expect mark >>= fun _ => pure (.inr value) : Parser (α ⊕ β)) stream :=
  ensures_expect fun here => (ensures_pure _).mpr ⟨stream, .refl 1 stream, here, rfl⟩

theorem eat {other : Parser (α ⊕ β)} (value : β) (goes : Fills mark other stream) :
    Fills mark (eat mark >>= fun here => if here = true then pure (.inr value) else other)
      stream := by
  intro result rest read
  cases here : stream.isAt mark with
  | true =>
    rw [eat_bind_of_isAt here] at read
    cases read
    exact ⟨stream, .refl 1 stream, here, rfl⟩
  | false =>
    rw [eat_bind_of_not_isAt here] at read
    exact goes read

theorem loop {step : α → Parser (α ⊕ β)} (round : ∀ value stream, Fills mark (step value) stream)
    (value : α) : Ensures (loop step value) stream fun _ rest => Encloses mark stream rest := by
  refine Ensures.loop (fun _ now => Skims 1 0 stream now) ?_ (.refl 1 stream)
  intro value now skims result rest read
  have fills := round value now read
  cases result
  next => exact skims.trans fills (by omega)
  next =>
    obtain ⟨close, inside, closed⟩ := fills
    exact ⟨close, skims.trans inside (by omega), closed⟩

end Fills

theorem Keeps.group {left : Punctuator} {inner : Parser α} (right : Punctuator)
    (opening : left.isOpening) (closing : right.isClosing)
    (fills : ∀ stream, inner.Ensures stream fun _ rest => Encloses right stream rest) :
    Keeps least (Parser.expect left >>= fun _ => inner) stream :=
  ensures_expect fun here _ _ read => (fills _ read).skims here opening closing

theorem identifier_keeps : Keeps least identifier stream := by
  refine .get ?_
  split
  next name kind =>
    refine .ite (fun _ => .unexpected _) fun _ => ?_
    exact .advance (.calm (by rw [kind]; rfl)) fun _ => .pure _
  next => exact .unexpected _

theorem propertyName_keeps : Keeps least propertyName stream := by
  refine .get ?_
  split
  next name kind => exact .advance (.calm (by rw [kind]; rfl)) fun _ => .pure _
  next word kind => exact .advance (.calm (by rw [kind]; rfl)) fun _ => .pure _
  next => exact .unexpected _

theorem endStatement_cases {rest : TokenStream} {value : Unit}
    (read : (endStatement : Parser Unit) stream = .ok (value, rest)) :
    stream.isAt .semicolon ∧ rest = stream.advance ∨ rest = stream := by
  cases here : stream.isAt .semicolon with
  | true =>
    rw [endStatement, eat_bind_of_isAt here] at read
    cases read
    exact .inl ⟨rfl, rfl⟩
  | false =>
    have stays : Ensures (do
        unless stream.isAt .braceClose || stream.isAtEnd || stream.current.newlineBefore do
          unexpected (.punctuator .semicolon)) stream fun _ rest => rest = stream :=
      .ite (fun _ => (ensures_pure _).mpr rfl) fun _ => ensures_unexpected _
    rw [endStatement, eat_bind_of_not_isAt here] at read
    exact .inr (stays read)

theorem endStatement_keeps : Keeps 1 endStatement stream := by
  intro _ rest read
  obtain ⟨here, rfl⟩ | rfl := endStatement_cases read
  next => exact .semicolon here
  next => exact .refl 1 rest

theorem unsupported_keeps (kind : NodeKind) (start : Span) :
    Keeps least (unsupported kind start) stream :=
  .spanFrom fun _ => .pure _

inductive TakenInside (stream : TokenStream) : Nat → Nat → Prop where
  | calm {depth : Nat} (skims : Skims 1 0 stream stream.advance) : TakenInside stream depth depth
  | opening {depth : Nat} {mark : Punctuator} (here : stream.isAt mark) (opening : mark.isOpening) :
      TakenInside stream depth (depth + 1)
  | closing {depth : Nat} {mark : Punctuator} (here : stream.isAt mark) (closing : mark.isClosing) :
      TakenInside stream (depth + 1) depth

theorem TakenInside.skims {first : TokenStream} {depth next : Nat}
    (taken : TakenInside stream depth next) (skims : Skims least depth first stream)
    (deep : 1 ≤ least + depth) : Skims least next first stream.advance := by
  cases taken with
  | calm calm => exact skims.trans calm deep
  | opening here opening => exact skims.trans (.opening here opening) deep
  | closing here closing => exact skims.close here closing

theorem TakenInside.plain {mark : Punctuator} (here : stream.isAt mark) (opening : ¬mark.isOpening)
    (closing : ¬mark.isClosing) (depth : Nat) : TakenInside stream depth depth := by
  by_cases semicolon : mark = .semicolon
  next => exact .calm (.semicolon (semicolon ▸ here))
  next =>
    refine .calm (.calm ?_)
    rw [TokenStream.kind_of_isAt here]
    simp_all [TokenKind.isCalm]

theorem skipGroupRound_ensures {depth : Nat} (inside : 1 ≤ depth) :
    Ensures (skipGroupRound depth) stream fun result rest =>
      rest = stream.advance ∧ result.elim (fun next => 1 ≤ next ∧ TakenInside stream depth next)
        fun _ => TakenInside stream depth 0 := by
  unfold skipGroupRound
  simp only [ensures_look]
  split
  next => exact ensures_fail _
  next => exact ensures_unexpected _
  next => exact ensures_unexpected _
  next mark kind =>
    have here := TokenStream.isAt_of_kind kind
    simp only [ensures_advance]
    refine .ite (fun opening => ?_) fun opening => .ite (fun closing => ?_) fun closing => ?_
    next => exact (ensures_pure _).mpr ⟨rfl, by simp, .opening here opening⟩
    next =>
      -- The bracket that was opened first is the last to be closed, and ends the group.
      refine .ite (fun last => ?_) fun further => ?_
      next =>
        obtain rfl : depth = 1 := by omega
        exact (ensures_pure _).mpr ⟨rfl, .closing here closing⟩
      next =>
        obtain ⟨outer, rfl⟩ : ∃ outer, depth = outer + 1 := ⟨depth - 1, by omega⟩
        exact (ensures_pure _).mpr ⟨rfl, by omega, .closing here closing⟩
    next => exact (ensures_pure _).mpr ⟨rfl, inside, .plain here opening closing depth⟩
  next ended broken broken' other =>
    simp only [ensures_advance]
    refine (ensures_pure _).mpr ⟨rfl, inside, .calm (.calm ?_)⟩
    cases kind : stream.current.kind <;> simp_all [TokenKind.isCalm]

theorem skipGroup_keeps (here : stream.isAt mark) (opening : mark.isOpening) :
    Keeps least skipGroup stream := by
  have kind := TokenStream.kind_of_isAt here
  have first : (skipGroupRound 0 : Parser (Nat ⊕ Unit)) stream = .ok (.inl 1, stream.advance) := by
    rw [skipGroupRound, look_bind, kind]
    simp only [advance_bind, opening, if_true]
    rfl
  intro _ rest read
  obtain done | ⟨_, _, again, -, read⟩ := loop_cases read
  next => rw [first] at done; cases done
  rw [first] at again
  cases again
  have closes : Ensures (loop skipGroupRound 1) stream.advance fun _ rest =>
      Skims least 0 stream rest := by
    refine .loop (fun depth now => 1 ≤ depth ∧ Skims least depth stream now) ?_
      ⟨le_rfl, .opening here opening⟩
    rintro depth now ⟨inside, skims⟩ result rest read
    obtain ⟨rfl, taken⟩ := skipGroupRound_ensures inside read
    cases result
    next => exact ⟨taken.1, taken.2.skims skims (by omega)⟩
    next => exact taken.skims skims (by omega)
  exact closes read

theorem group_keeps (here : stream.isAt mark) (opening : mark.isOpening) (kind : NodeKind)
    (start : Span) : Keeps least (group kind start) stream :=
  (skipGroup_keeps here opening).bind fun _ _ => unsupported_keeps kind start

theorem skipRound_ensures (kind : NodeKind) (depth : Nat) (consumed : Bool) :
    Ensures (skipRound kind (depth, consumed)) stream fun result rest =>
      result.elim (fun next => rest = stream.advance ∧ TakenInside stream depth next.1) fun _ =>
        rest = stream ∧ depth = 0 ∨ rest = stream.advance ∧ TakenInside stream depth 0 := by
  -- All branches that take a token end in the same way, with their own count of open brackets.
  have token {next : Nat} {boundary : Bool} (taken : TakenInside stream depth next)
      (closed : boundary = true → next = 0) :
      Ensures (skipToken kind next boundary) stream fun result rest =>
        result.elim (fun next => rest = stream.advance ∧ TakenInside stream depth next.1) fun _ =>
          rest = stream ∧ depth = 0 ∨ rest = stream.advance ∧ TakenInside stream depth 0 := by
    unfold skipToken
    simp only [ensures_advance, ensures_look]
    refine .ite (fun ends => (ensures_pure _).mpr (.inr ⟨rfl, ?_⟩)) fun _ =>
      (ensures_pure _).mpr ⟨rfl, taken⟩
    rw [Bool.and_eq_true] at ends
    exact closed ends.1 ▸ taken
  unfold skipRound
  simp only [ensures_look]
  refine .ite (fun ends => (ensures_pure _).mpr (.inl ⟨rfl, by simp_all⟩)) fun _ => ?_
  split
  next =>
    refine .ite (fun closed => (ensures_pure _).mpr ?_) fun _ => ensures_fail _
    exact .inl ⟨rfl, eq_of_beq closed⟩
  next => exact ensures_unexpected _
  next => exact ensures_unexpected _
  next mark found =>
    have here := TokenStream.isAt_of_kind found
    refine .ite (fun opening => ?_) fun opening => .ite (fun closing => ?_) fun closing => ?_
    next => exact token (.opening here opening) (by simp)
    next =>
      cases depth with
      | zero =>
        exact .ite (fun _ => (ensures_pure _).mpr (.inl ⟨rfl, rfl⟩)) fun _ => ensures_unexpected _
      | succ outer => exact token (.closing here closing) (by simp +contextual)
    next => exact token (.plain here opening closing depth) (by simp +contextual)
  next ended broken broken' other =>
    refine token (.calm (.calm ?_)) (by simp)
    cases kind : stream.current.kind <;> simp_all [TokenKind.isCalm]

theorem skipStatement_keeps (kind : NodeKind) (start : Span) :
    Keeps 1 (skipStatement kind start) stream := by
  have skipped : Keeps 1 (loop (skipRound kind) (0, false)) stream := by
    refine Ensures.loop (fun state now => Skims 1 state.1 stream now) ?_ (.refl 1 stream)
    rintro ⟨depth, consumed⟩ now skims result rest read
    have ensures := skipRound_ensures kind depth consumed read
    cases result
    next =>
      obtain ⟨rfl, taken⟩ := ensures
      exact taken.skims skims (by omega)
    next =>
      obtain ⟨rfl, rfl⟩ | ⟨rfl, taken⟩ := ensures
      next => exact skims
      next => exact taken.skims skims (by omega)
  exact skipped.bind fun _ _ => .spanFrom fun _ => .pure _

end Parser

end EventLoop
