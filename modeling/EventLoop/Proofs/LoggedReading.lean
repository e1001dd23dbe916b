import EventLoop.Proofs.Movements
import EventLoop.Proofs.ReadingLog

set_option autoImplicit false

/-!
# Reading with a log is reading

A parser that is run with a log gives what it gives without one. The log grows by the pieces that it
took, which are the tokens between the streams before and after it.
-/

namespace EventLoop

theorem Parser.bind_error {α β : Type} {stream : TokenStream} {first : Parser α}
    {error : SyntaxError} (failed : first stream = .error error) (next : α → Parser β) :
    (first >>= next) stream = .error error := by
  change (first stream).bind _ = _
  rw [failed]
  rfl

structure TokenStream.Takes {σ : Type} (stream : TokenStream) (step : σ → Piece → σ → Prop)
    (before : σ) (pieces : List Piece) (rest : TokenStream) (after : σ) : Prop where
  passes : stream.Passes (pieces.flatMap Piece.kinds) rest
  path : Piece.Path step before pieces after

theorem TokenStream.Takes.append {σ : Type} {stream between rest : TokenStream}
    {step : σ → Piece → σ → Prop} {before middle after : σ} {first second : List Piece}
    (takes : stream.Takes step before first between middle)
    (later : between.Takes step middle second rest after) :
    stream.Takes step before (first ++ second) rest after where
  passes := by
    rw [List.flatMap_append]
    exact takes.passes.append later.passes
  path := takes.path.append later.path

namespace LoggedParser

variable {α β : Type} {stream rest : TokenStream} {log after : ReadingLog}

theorem bind_of_ok {first : LoggedParser α} {value : α}
    (read : first stream log = (.ok (value, rest), after)) (next : α → LoggedParser β) :
    (first >>= next) stream log = next value rest after := by
  simp only [bind, read]

theorem bind_of_error {first : LoggedParser α} {error : SyntaxError}
    (failed : first stream log = (.error error, after)) (next : α → LoggedParser β) :
    (first >>= next) stream log = (.error error, after) := by
  simp only [bind, failed]

theorem look_bind (next : TokenStream → LoggedParser β) :
    (TokenParser.look >>= next) stream log = next stream stream log := rfl

theorem start_bind (next : Span → LoggedParser β) :
    (Parser.start >>= next) stream log = next stream.current.span stream log := rfl

theorem rescan_bind (next : Unit → LoggedParser β) :
    (TokenParser.rescan >>= next) stream log = next () stream.rescan log := rfl

section Outcomes

variable {strict : Prop} {σ : Type} {step : σ → Piece → σ → Prop} {state between : σ}
  {depth : Nat}

-- Where the parser succeeds the pieces lead to the stream it leaves and to a state with the given
-- property, if that is asked for. Where it fails the depth has the other property.
inductive Ends (strict : Prop) (step : σ → Piece → σ → Prop) (stream : TokenStream) (state : σ)
    (done : α → TokenStream → Nat → σ → Prop) (failed : Nat → Prop) :
    Except SyntaxError (α × TokenStream) → Nat → List Piece → Prop where
  | failed {error : SyntaxError} {now : Nat} {pieces : List Piece} (fails : failed now) :
      Ends strict step stream state done failed (.error error) now pieces
  | done {value : α} {rest : TokenStream} {now : Nat} {pieces : List Piece} {after : σ}
      (taken : strict → stream.Takes step state pieces rest after)
      (holds : done value rest now after) :
      Ends strict step stream state done failed (.ok (value, rest)) now pieces

-- The logged parser gives what the other one gives, keeps the counter within its limit and adds the
-- pieces that were taken to its log.
def Follows (strict : Prop) (step : σ → Piece → σ → Prop) (logged : LoggedParser α)
    (parser : Parser α) (stream : TokenStream) (depth : Nat) (state : σ)
    (done : α → TokenStream → Nat → σ → Prop) (failed : Nat → Prop) : Prop :=
  ∀ (peak : Nat) (pieces : List Piece), peak ≤ maxNesting →
    ∃ now highest more,
      logged stream ⟨depth, peak, pieces⟩ = (parser stream, ⟨now, highest, pieces ++ more⟩) ∧
        highest ≤ maxNesting ∧ Ends strict step stream state done failed (parser stream) now more

variable {done : β → TokenStream → Nat → σ → Prop} {failed : Nat → Prop}

theorem Ends.prepend {first more : List Piece} {result : Except SyntaxError (β × TokenStream)}
    {now : Nat} (ends : Ends strict step rest between done failed result now more)
    (takes : strict → stream.Takes step state first rest between) :
    Ends strict step stream state done failed result now (first ++ more) := by
  cases ends with
  | failed fails => exact .failed fails
  | done later holds => exact .done (fun asked => (takes asked).append (later asked)) holds

theorem Ends.mono {result : Except SyntaxError (β × TokenStream)} {now : Nat} {pieces : List Piece}
    {done' : β → TokenStream → Nat → σ → Prop} {failed' : Nat → Prop}
    (ends : Ends strict step stream state done failed result now pieces)
    (holds : ∀ value rest after, done value rest now after → done' value rest now after)
    (fails : failed now → failed' now) :
    Ends strict step stream state done' failed' result now pieces := by
  cases ends with
  | failed failing => exact .failed (fails failing)
  | done takes held => exact .done takes (holds _ _ _ held)

namespace Follows

theorem bind {kept : α → TokenStream → Nat → σ → Prop} {first : LoggedParser α}
    {first' : Parser α} {next : α → LoggedParser β} {next' : α → Parser β}
    (begins : Follows strict step first first' stream depth state kept failed)
    (goes : ∀ value rest now after, kept value rest now after →
      Follows strict step (next value) (next' value) rest now after done failed) :
    Follows strict step (first >>= next) (first' >>= next') stream depth state done failed := by
  intro peak pieces low
  obtain ⟨now, highest, more, read, bound, ends⟩ := begins peak pieces low
  cases outcome : first' stream with
  | error error =>
    rw [outcome] at read ends
    rw [bind_of_error read, Parser.bind_error outcome]
    cases ends with
    | failed fails => exact ⟨now, highest, more, rfl, bound, .failed fails⟩
  | ok result =>
    obtain ⟨value, rest⟩ := result
    rw [outcome] at read ends
    rw [bind_of_ok read, Parser.bind_ok outcome]
    cases ends with
    | done takes holds =>
      obtain ⟨last, top, further, later, bounded, ends⟩ :=
        goes value rest now _ holds highest (pieces ++ more) bound
      rw [List.append_assoc] at later
      exact ⟨last, top, more ++ further, later, bounded, ends.prepend takes⟩

theorem pure {value : β} (holds : done value stream depth state) :
    Follows strict step (Pure.pure value) (Pure.pure value) stream depth state done failed := by
  intro peak pieces low
  refine ⟨depth, peak, [], ?_, low, .done (fun _ => ⟨.nothing stream, .nil state⟩) holds⟩
  rw [List.append_nil]
  rfl

theorem pure_bind {value : α} {next : α → LoggedParser β} {next' : α → Parser β}
    (goes : Follows strict step (next value) (next' value) stream depth state done failed) :
    Follows strict step (Pure.pure value >>= next) (Pure.pure value >>= next') stream depth state
      done failed := goes

theorem raise (error : SyntaxError) (fails : failed depth) :
    Follows strict step (TokenParser.raise error) (TokenParser.raise error) stream depth state done
      failed := by
  intro peak pieces low
  refine ⟨depth, peak, [], ?_, low, .failed fails⟩
  rw [List.append_nil]
  rfl

theorem look {next : TokenStream → LoggedParser β} {next' : TokenStream → Parser β}
    (goes : Follows strict step (next stream) (next' stream) stream depth state done failed) :
    Follows strict step (TokenParser.look >>= next) (TokenParser.look >>= next') stream depth state
      done failed := goes

theorem start {next : Span → LoggedParser β} {next' : Span → Parser β}
    (goes : Follows strict step (next stream.current.span) (next' stream.current.span) stream depth
      state done failed) :
    Follows strict step (Parser.start >>= next) (Parser.start >>= next') stream depth state done
      failed := goes

theorem spanFrom {first : Span} {next : Span → LoggedParser β} {next' : Span → Parser β}
    (goes : Follows strict step (next (stream.spanFrom first)) (next' (stream.spanFrom first))
      stream depth state done failed) :
    Follows strict step (Parser.spanFrom first >>= next) (Parser.spanFrom first >>= next') stream
      depth state done failed := goes

theorem isAt {mark : Punctuator} {next : Bool → LoggedParser β} {next' : Bool → Parser β}
    (goes : Follows strict step (next (stream.isAt mark)) (next' (stream.isAt mark)) stream depth
      state done failed) :
    Follows strict step (Parser.isAt mark >>= next) (Parser.isAt mark >>= next') stream depth state
      done failed := goes

theorem isAtIdentifier {next : Bool → LoggedParser β} {next' : Bool → Parser β}
    (goes : Follows strict step (next stream.isAtIdentifier) (next' stream.isAtIdentifier) stream
      depth state done failed) :
    Follows strict step (Parser.isAtIdentifier >>= next) (Parser.isAtIdentifier >>= next') stream
      depth state done failed := goes

theorem unsupported {kind : NodeKind} {start : Span} {done : Expr → TokenStream → Nat → σ → Prop}
    (holds : done (.unsupported kind (stream.spanFrom start)) stream depth state) :
    Follows strict step (Parser.unsupported kind start) (Parser.unsupported kind start) stream depth
      state done failed :=
  spanFrom (pure holds)

theorem fail (fault : SyntaxFault) (fails : failed depth) :
    Follows strict step (Parser.fail fault) (Parser.fail fault) stream depth state done failed :=
  look (raise _ fails)

theorem unexpected (expected : Expected) (fails : failed depth) :
    Follows strict step (Parser.unexpected expected) (Parser.unexpected expected) stream depth state
      done failed :=
  look (raise _ fails)

theorem fail_bind {fault : SyntaxFault} {next : α → LoggedParser β} {next' : α → Parser β}
    (fails : failed depth) :
    Follows strict step (Parser.fail fault >>= next) (Parser.fail fault >>= next') stream depth
      state done failed := by
  have failing : Follows strict step (Parser.fail fault) (Parser.fail fault) stream depth state
      (fun (_ : α) _ _ _ => False) failed := fail fault fails
  exact failing.bind fun _ _ _ _ impossible => impossible.elim

theorem unexpected_bind {expected : Expected} {next : α → LoggedParser β} {next' : α → Parser β}
    (fails : failed depth) :
    Follows strict step (Parser.unexpected expected >>= next) (Parser.unexpected expected >>= next')
      stream depth state done failed := by
  have failing : Follows strict step (Parser.unexpected expected) (Parser.unexpected expected)
      stream depth state (fun (_ : α) _ _ _ => False) failed := unexpected expected fails
  exact failing.bind fun _ _ _ _ impossible => impossible.elim

theorem ite {condition : Prop} [Decidable condition] {first second : LoggedParser β}
    {first' second' : Parser β}
    (positive : condition → Follows strict step first first' stream depth state done failed)
    (negative : ¬condition → Follows strict step second second' stream depth state done failed) :
    Follows strict step (if condition then first else second)
      (if condition then first' else second') stream depth state done failed := by
  split
  next holds => exact positive holds
  next fails => exact negative fails

theorem map {kept : α → TokenStream → Nat → σ → Prop} {first : LoggedParser α} {first' : Parser α}
    (change : α → β) (begins : Follows strict step first first' stream depth state kept failed)
    (holds : ∀ value rest now after, kept value rest now after →
      done (change value) rest now after) :
    Follows strict step (change <$> first) (change <$> first') stream depth state done failed := by
  rw [map_eq_pure_bind change first']
  exact begins.bind fun value rest now after kept => pure (holds value rest now after kept)

theorem discard {done : Unit → TokenStream → Nat → σ → Prop}
    {kept : α → TokenStream → Nat → σ → Prop} {first : LoggedParser α} {first' : Parser α}
    (begins : Follows strict step first first' stream depth state kept failed)
    (holds : ∀ value rest now after, kept value rest now after → done () rest now after) :
    Follows strict step (Functor.discard first) (Functor.discard first') stream depth state done
      failed :=
  begins.map (fun _ => ()) holds

theorem advance {next : Unit → LoggedParser β} {next' : Unit → Parser β}
    (taken : strict → stream.current.kind.isEnd = false ∧
      step state (.token stream.current.kind) between)
    (goes : Follows strict step (next ()) (next' ()) stream.advance depth between done failed) :
    Follows strict step (TokenParser.advance >>= next) (TokenParser.advance >>= next') stream depth
      state done failed := by
  intro peak pieces low
  obtain ⟨now, highest, more, read, bound, ends⟩ :=
    goes peak (pieces ++ [.token stream.current.kind]) low
  rw [List.append_assoc] at read
  refine ⟨now, highest, _, read, bound, ends.prepend fun asked => ?_⟩
  obtain ⟨inside, taken⟩ := taken asked
  exact ⟨.token inside (.nothing _), .cons taken (.nil between)⟩

theorem token {kind : TokenKind} {next : Unit → LoggedParser β} {next' : Unit → Parser β}
    (found : strict → stream.current.kind = kind) (inside : kind.isEnd = false)
    (taken : step state (.token kind) between)
    (goes : Follows strict step (next ()) (next' ()) stream.advance depth between done failed) :
    Follows strict step (TokenParser.advance >>= next) (TokenParser.advance >>= next') stream depth
      state done failed := by
  refine advance (fun asked => ?_) goes
  rw [found asked]
  exact ⟨inside, taken⟩

theorem plainToken {opened : List Punctuator}
    {done : β → TokenStream → Nat → List Punctuator → Prop} {next : Unit → LoggedParser β}
    {next' : Unit → Parser β}
    (plain : strict → stream.current.kind.isEnd = false ∧ stream.current.kind.isBracket = false)
    (goes : Follows strict Piece.Matches (next ()) (next' ()) stream.advance depth opened done
      failed) :
    Follows strict Piece.Matches (TokenParser.advance >>= next) (TokenParser.advance >>= next')
      stream depth opened done failed := by
  refine advance (fun asked => ?_) goes
  obtain ⟨inside, plain⟩ := plain asked
  exact ⟨inside, .token (openBracket_of_not_isBracket plain opened)⟩

inductive Eats (mark : Punctuator) (stream : TokenStream) (depth : Nat) (state between : σ) :
    Bool → TokenStream → Nat → σ → Prop where
  | found (here : stream.isAt mark) :
      Eats mark stream depth state between true stream.advance depth between
  | missing (absent : stream.isAt mark = false) :
      Eats mark stream depth state between false stream depth state

theorem eats {mark : Punctuator} (taken : step state (.token (.punctuator mark)) between) :
    Follows strict step (Parser.eat mark) (Parser.eat mark) stream depth state
      (Eats mark stream depth state between) failed := by
  refine .isAt (.ite (fun here => ?_) fun absent => .pure (.missing (Bool.eq_false_iff.mpr absent)))
  exact .token (fun _ => TokenStream.kind_of_isAt here) rfl taken (.pure (.found here))

theorem eat {mark : Punctuator} {first second : LoggedParser β} {first' second' : Parser β}
    (taken : step state (.token (.punctuator mark)) between)
    (found : stream.isAt mark → Follows strict step first first' stream.advance depth between done
      failed)
    (missing : stream.isAt mark = false →
      Follows strict step second second' stream depth state done failed) :
    Follows strict step (Parser.eat mark >>= fun here => if here = true then first else second)
      (Parser.eat mark >>= fun here => if here = true then first' else second') stream depth state
      done failed := by
  refine (eats taken).bind fun here rest now after eaten => ?_
  cases eaten with
  | found here => exact found here
  | missing absent => exact missing absent

theorem expect {mark : Punctuator} {next : Unit → LoggedParser β} {next' : Unit → Parser β}
    (taken : step state (.token (.punctuator mark)) between) (fails : failed depth)
    (goes : stream.isAt mark →
      Follows strict step (next ()) (next' ()) stream.advance depth between done failed) :
    Follows strict step (Parser.expect mark >>= next) (Parser.expect mark >>= next') stream depth
      state done failed := by
  have expected : Follows strict step (Parser.expect mark) (Parser.expect mark) stream depth state
      (fun _ => Eats mark stream depth state between true) failed := by
    refine (eats taken).bind fun here rest now after eaten => ?_
    cases eaten with
    | found here => exact .pure (.found here)
    | missing => exact .unexpected _ fails
  refine expected.bind fun _ rest now after eaten => ?_
  cases eaten with
  | found here => exact goes here

theorem loop {round : α → LoggedParser (α ⊕ β)} {round' : α → Parser (α ⊕ β)}
    (kept : α → TokenStream → Nat → σ → Prop)
    (rounds : ∀ value stream now between, kept value stream now between →
      Follows strict step (round value) (round' value) stream now between
        (fun result rest now after =>
          result.elim (kept · rest now after) (done · rest now after)) failed)
    (stalls : ∀ value stream now between, kept value stream now between → failed now) {value : α}
    (begins : kept value stream depth state) :
    Follows strict step (TokenParser.loop round value) (TokenParser.loop round' value) stream depth
      state done failed := by
  induction left : stream.remaining using Nat.strongRecOn generalizing value stream depth state with
  | ind bytes ih =>
    intro peak pieces low
    obtain ⟨now, highest, more, read, bound, ends⟩ :=
      rounds value stream depth state begins peak pieces low
    change ∃ _ _ _, iterate round value stream _ = (Parser.iterate round' value stream, _) ∧ _ ∧
      Ends strict _ _ _ _ _ (Parser.iterate round' value stream) _ _
    rw [iterate, Parser.iterate, read]
    cases outcome : round' value stream with
    | error error =>
      rw [outcome] at ends
      cases ends with
      | failed fails => exact ⟨now, highest, more, rfl, bound, .failed fails⟩
    | ok result =>
      obtain ⟨result, rest⟩ := result
      rw [outcome] at ends
      cases ends with
      | done takes holds =>
        cases result with
        | inr result => exact ⟨now, highest, more, rfl, bound, .done takes holds⟩
        | inl value =>
          dsimp only
          split
          next shorter =>
            obtain ⟨last, top, further, later, bounded, ends⟩ :=
              ih _ (left ▸ shorter) holds rfl highest (pieces ++ more) bound
            rw [List.append_assoc] at later
            exact ⟨last, top, more ++ further, later, bounded, ends.prepend takes⟩
          next => exact ⟨now, highest, more, rfl, bound, .failed (stalls _ _ _ _ holds)⟩

theorem skip {opened : List Punctuator} {done : β → TokenStream → Nat → List Punctuator → Prop}
    {kept : β → TokenStream → Nat → σ → Prop} {logged : LoggedParser β} {parser : Parser β}
    (part : SkippedPart) (begins : Follows strict step logged parser stream depth state kept failed)
    (holds : ∀ value rest now after pieces, kept value rest now after →
      done value rest now opened ∧
        (strict → Piece.Path step state pieces after → part.Allows (pieces.flatMap Piece.kinds))) :
    Follows strict Piece.Matches (TokenParser.skip part logged) (TokenParser.skip part parser)
      stream depth opened done failed := by
  intro peak pieces low
  obtain ⟨now, highest, more, read, bound, ends⟩ := begins peak [] low
  refine ⟨now, highest, [.skipped part (more.flatMap Piece.kinds)], ?_, bound, ?_⟩
  · change LoggedParser.skip part logged stream _ = _
    rw [LoggedParser.skip]
    simp only [read]
    rfl
  · change Ends strict Piece.Matches stream opened done failed (parser stream) now _
    generalize parser stream = result at ends
    cases ends with
    | failed fails => exact .failed fails
    | done takes held =>
      obtain ⟨holds, allows⟩ := holds _ _ _ _ more held
      refine .done (fun asked => ?_) holds
      obtain ⟨passes, path⟩ := takes asked
      refine ⟨?_, .cons (.skipped (allows asked path)) (.nil opened)⟩
      rw [List.flatMap_singleton]
      exact passes

end Follows

end Outcomes

def Agrees (strict : Prop) (logged : LoggedParser α) (parser : Parser α) (stream : TokenStream)
    (depth : Nat) : Prop :=
  ∀ opened, Follows strict Piece.Matches logged parser stream depth opened
    (fun _ _ now closed => now = depth ∧ closed = opened) (· = depth)

def Rises (strict : Prop) (logged : LoggedParser α) (parser : Parser α) (stream : TokenStream)
    (depth : Nat) : Prop :=
  ∀ opened, Follows strict Piece.Matches logged parser stream depth opened
    (fun _ _ _ closed => closed = opened) fun _ => True

section Sequences

variable {strict : Prop} {depth : Nat} {opened : List Punctuator} {first : LoggedParser α}
  {first' : Parser α} {next : α → LoggedParser β} {next' : α → Parser β}
  {done : β → TokenStream → Nat → List Punctuator → Prop} {failed : Nat → Prop}

theorem Follows.mono {σ : Type} {step : σ → Piece → σ → Prop} {state : σ}
    {kept done : α → TokenStream → Nat → σ → Prop} {failed failed' : Nat → Prop}
    (begins : Follows strict step first first' stream depth state kept failed)
    (holds : ∀ value rest now after, kept value rest now after → done value rest now after)
    (fails : ∀ now, failed now → failed' now) :
    Follows strict step first first' stream depth state done failed' := by
  intro peak pieces low
  obtain ⟨now, highest, more, read, bound, ends⟩ := begins peak pieces low
  exact ⟨now, highest, more, read, bound,
    ends.mono (fun value rest after => holds value rest now after) (fails now)⟩

theorem Agrees.bind (begins : Agrees strict first first' stream depth) (fails : failed depth)
    (goes : ∀ value rest,
      Follows strict Piece.Matches (next value) (next' value) rest depth opened done failed) :
    Follows strict Piece.Matches (first >>= next) (first' >>= next') stream depth opened done
      failed := by
  refine ((begins opened).mono (fun _ _ _ _ kept => kept) ?_).bind ?_
  · rintro _ rfl
    exact fails
  · rintro value rest _ _ ⟨rfl, rfl⟩
    exact goes value rest

theorem Agrees.exists_eq (agrees : Agrees strict first first' stream depth) {peak : Nat}
    (low : peak ≤ maxNesting) (pieces : List Piece) :
    ∃ highest ≤ maxNesting, ∃ more,
      first stream ⟨depth, peak, pieces⟩ = (first' stream, ⟨depth, highest, pieces ++ more⟩) := by
  obtain ⟨now, highest, more, read, bound, ends⟩ := agrees [] peak pieces low
  have same : now = depth := by
    generalize first' stream = result at ends
    cases ends with
    | failed same => exact same
    | done _ same => exact same.1
  exact ⟨highest, bound, more, same ▸ read⟩

theorem Agrees.discard (begins : Agrees strict first first' stream depth) :
    Agrees strict (Functor.discard first) (Functor.discard first') stream depth :=
  fun opened => (begins opened).discard fun _ _ _ _ kept => kept

theorem Agrees.map (change : α → β) (begins : Agrees strict first first' stream depth) :
    Agrees strict (change <$> first) (change <$> first') stream depth :=
  fun opened => (begins opened).map change fun _ _ _ _ kept => kept

theorem Rises.chain (rises : Rises strict first first' stream depth) :
    Agrees strict (NestedParser.chain first) (NestedParser.chain first') stream depth := by
  intro opened peak pieces low
  obtain ⟨now, highest, more, read, bound, ends⟩ := rises opened peak pieces low
  refine ⟨depth, highest, more, ?_, bound, ?_⟩
  · change LoggedParser.chain first stream _ = (first' stream, _)
    rw [LoggedParser.chain, read]
  · change Ends strict _ _ _ _ _ (first' stream) _ _
    generalize first' stream = result at ends
    cases ends with
    | failed => exact .failed rfl
    | done takes same => exact .done takes ⟨rfl, same⟩

end Sequences

end LoggedParser

end EventLoop
