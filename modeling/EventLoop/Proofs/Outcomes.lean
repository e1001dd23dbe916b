import EventLoop.Proofs.Movements

set_option autoImplicit false

/-!
# What parsers give

A parser is described by what holds of the value it gives and of the stream it leaves.
-/

namespace EventLoop.Parser

open TokenStream (InSource Later Ahead Closes)
open SyntaxTree (FitsAll)

variable {α β : Type} {stream : TokenStream} {source : String}
  {post : α → TokenStream → Prop} {post' : β → TokenStream → Prop}

/-- The parser gives a value with the given property, or it fails for another reason than that a
repetition stalls. -/
def Meets (parser : Parser α) (stream : TokenStream) (post : α → TokenStream → Prop) : Prop :=
  match parser stream with
  | .ok (value, rest) => post value rest
  | .error error => error.fault ≠ .stalled

theorem Meets.of_ok {parser : Parser α} (meets : parser.Meets stream post) {value : α}
    {rest : TokenStream} (read : parser stream = .ok (value, rest)) : post value rest := by
  rw [Meets, read] at meets
  exact meets

theorem Meets.of_error {parser : Parser α} (meets : parser.Meets stream post) {error : SyntaxError}
    (failed : parser stream = .error error) : error.fault ≠ .stalled := by
  rw [Meets, failed] at meets
  exact meets

theorem Meets.mono {parser : Parser α} {weaker : α → TokenStream → Prop}
    (meets : parser.Meets stream post)
    (imp : ∀ value rest, post value rest → weaker value rest) : parser.Meets stream weaker := by
  unfold Meets at *
  split
  next value rest read =>
    rw [read] at meets
    exact imp value rest meets
  next error failed =>
    rw [failed] at meets
    exact meets

theorem Meets.bind {first : Parser α} {next : α → Parser β} (meets : first.Meets stream post)
    (later : ∀ value rest, post value rest → (next value).Meets rest post') :
    (first >>= next).Meets stream post' := by
  unfold Meets at meets
  split at meets
  next value rest read =>
    rw [Meets, bind_ok read]
    exact later value rest meets
  next error failed =>
    have fails : (first >>= next) stream = .error error := by
      change (first stream).bind _ = _
      rw [failed]
      rfl
    rw [Meets, fails]
    exact meets

theorem Meets.discard {first : Parser α} {next : Unit → Parser β} (meets : first.Meets stream post)
    (later : ∀ value rest, post value rest → (next ()).Meets rest post') :
    (Functor.discard first >>= next).Meets stream post' := by
  have same : (Functor.discard first >>= next) = first >>= fun _ => next () := bind_map_left ..
  rw [same]
  exact meets.bind later

theorem Meets.ite {condition : Prop} [Decidable condition] {first second : Parser α}
    (positive : condition → first.Meets stream post)
    (negative : ¬condition → second.Meets stream post) :
    (if condition then first else second).Meets stream post := by
  split
  next holds => exact positive holds
  next fails => exact negative fails

@[simp]
theorem meets_pure (value : α) :
    (pure value : Parser α).Meets stream post ↔ post value stream := Iff.rfl

@[simp]
theorem meets_look (next : TokenStream → Parser β) :
    (look >>= next).Meets stream post' ↔ (next stream).Meets stream post' := Iff.rfl

@[simp]
theorem meets_start (next : Span → Parser β) :
    (start >>= next).Meets stream post' ↔ (next stream.current.span).Meets stream post' := Iff.rfl

@[simp]
theorem meets_spanFrom (first : Span) (next : Span → Parser β) :
    (spanFrom first >>= next).Meets stream post' ↔
      (next (stream.spanFrom first)).Meets stream post' := Iff.rfl

@[simp]
theorem meets_unsupported (kind : NodeKind) (first : Span) {post : Expr → TokenStream → Prop} :
    (unsupported kind first : Parser Expr).Meets stream post ↔
      post (.unsupported kind (stream.spanFrom first)) stream := Iff.rfl

@[simp]
theorem meets_unsupported_bind (kind : NodeKind) (first : Span) (next : Expr → Parser β) :
    (unsupported kind first >>= next).Meets stream post' ↔
      (next (.unsupported kind (stream.spanFrom first))).Meets stream post' := Iff.rfl

@[simp]
theorem meets_advance (next : Unit → Parser β) :
    (advance >>= next).Meets stream post' ↔ (next ()).Meets stream.advance post' := Iff.rfl

@[simp]
theorem meets_isAt (mark : Punctuator) (next : Bool → Parser β) :
    (isAt mark >>= next).Meets stream post' ↔ (next (stream.isAt mark)).Meets stream post' :=
  Iff.rfl

@[simp]
theorem meets_isAtIdentifier (next : Bool → Parser β) :
    (isAtIdentifier >>= next).Meets stream post' ↔
      (next stream.isAtIdentifier).Meets stream post' := Iff.rfl

@[simp]
theorem meets_rescan (next : Unit → Parser β) :
    (rescan >>= next).Meets stream post' ↔ (next ()).Meets stream.rescan post' := Iff.rfl

theorem meets_fail {fault : SyntaxFault} (genuine : fault ≠ .stalled) :
    (fail fault : Parser α).Meets stream post := genuine

theorem meets_unexpected (expected : Expected) :
    (unexpected expected : Parser α).Meets stream post := by
  rintro ⟨⟩

theorem meets_fail_bind {fault : SyntaxFault} (genuine : fault ≠ .stalled) (next : α → Parser β) :
    (fail fault >>= next).Meets stream post' := genuine

theorem meets_unexpected_bind (expected : Expected) (next : α → Parser β) :
    (unexpected expected >>= next).Meets stream post' := by
  rintro ⟨⟩

theorem Meets.eat {mark : Punctuator} {taken other : Parser β}
    (found : stream.isAt mark → taken.Meets stream.advance post')
    (missing : stream.isAt mark = false → other.Meets stream post') :
    (eat mark >>= fun here => if here = true then taken else other).Meets stream post' := by
  cases here : stream.isAt mark with
  | true =>
    rw [Meets, eat_bind_of_isAt here]
    exact found here
  | false =>
    rw [Meets, eat_bind_of_not_isAt here]
    exact missing here

theorem Meets.expect {mark : Punctuator} {next : Unit → Parser β}
    (found : stream.isAt mark → (next ()).Meets stream.advance post') :
    (expect mark >>= next).Meets stream post' := by
  cases here : stream.isAt mark with
  | true =>
    rw [Meets, expect_bind_of_isAt here]
    exact found here
  | false =>
    have fails : (Parser.expect mark >>= next) stream =
        .error (stream.unexpected (.punctuator mark)) := by
      change ((Parser.expect mark : Parser Unit) stream).bind _ = _
      rw [Parser.expect, eat_bind_of_not_isAt here]
      rfl
    rw [Meets, fails]
    rintro ⟨⟩

theorem Meets.loop {step : α → Parser (α ⊕ β)} (kept : α → TokenStream → Prop)
    (round : ∀ {value : α} {stream : TokenStream}, stream.InSource source → kept value stream →
      (step value).Meets stream fun result rest =>
        result.elim (fun more => Ahead source stream rest ∧ kept more rest) (post' · rest))
    {value : α} (inSource : stream.InSource source) (begins : kept value stream) :
    Meets (loop step value) stream post' := by
  -- The induction is on what is left of the source, which is also how the repetition ends.
  induction left : stream.remaining using Nat.strongRecOn generalizing value stream with
  | ind bytes ih =>
    have meets := round inSource begins
    cases read : step value stream with
    | error error =>
      rw [Meets, loop_of_error read]
      exact meets.of_error read
    | ok result =>
      obtain ⟨result | result, rest⟩ := result
      next =>
        obtain ⟨ahead, keeps⟩ : Ahead source stream rest ∧ kept result rest := meets.of_ok read
        have shorter := ahead.remaining_lt inSource
        rw [Meets, loop_of_more read shorter]
        exact ih _ (left ▸ shorter) ahead.inSource keeps rfl
      next =>
        rw [Meets, loop_of_done read]
        exact meets.of_ok read

def Reads (parser : Parser α) (view : α → SyntaxTree) (source : String) (height : Nat)
    (stream : TokenStream) : Prop :=
  parser.Meets stream fun value rest => Ahead source stream rest ∧
    (view value).Fits source height stream.current.span.start rest.previousStop

theorem Reads.mono {parser : Parser α} {view : α → SyntaxTree} {height height' : Nat}
    (reads : parser.Reads view source height stream) (higher : height ≤ height') :
    parser.Reads view source height' stream := by
  apply Meets.mono reads
  rintro value rest ⟨moves, fits⟩
  exact ⟨moves, fits.mono higher le_rfl le_rfl⟩

structure Begun (source : String) (height : Nat) (start : Span) (expr : Expr)
    (stream : TokenStream) : Prop where
  inSource : stream.InSource source
  opens : start.Opens source
  fits : expr.tree.Fits source height start.start stream.previousStop

def Extends (parser : Parser Expr) (source : String) (height : Nat) (start : Span)
    (stream : TokenStream) : Prop :=
  parser.Meets stream fun expr rest =>
    Later source stream rest ∧ Begun source height start expr rest

namespace Begun

variable {height height' : Nat} {start : Span} {expr : Expr} {rest : TokenStream}

theorem mono (begun : Begun source height start expr stream) (higher : height ≤ height') :
    Begun source height' start expr stream :=
  ⟨begun.inSource, begun.opens, begun.fits.mono higher le_rfl le_rfl⟩

theorem same (begun : Begun source height start expr stream) :
    Later source stream stream ∧ Begun source height start expr stream :=
  ⟨begun.inSource.later, begun⟩

theorem children {between : TokenStream} {tree : SyntaxTree} {last : Nat}
    (begun : Begun source height start expr stream) (later : Later source stream between)
    (item : tree.Fits source height' between.current.span.start last) :
    FitsAll source (max height height') start.start [expr.tree, tree] last := by
  have left := (begun.fits.mono (Nat.le_max_left height height') le_rfl le_rfl).widen later
  exact (FitsAll.singleton left).concat later.inSource
    (item.mono (Nat.le_max_right height height') le_rfl le_rfl)

theorem grow (begun : Begun source height start expr stream) (steps : Later source stream rest)
    {value : Expr} {trees : List SyntaxTree}
    (node : value.tree = .node .expression (rest.spanFrom start) trees)
    (children : FitsAll source height' start.start trees rest.previousStop) :
    Begun source (height' + 1) start value rest where
  inSource := steps.inSource
  opens := begun.opens
  fits := by
    rw [node]
    have further : start.start < rest.previousStop := begun.fits.lt.trans_le steps.stop_le
    exact steps.inSource.fits_node begun.opens further children rfl

theorem unsupported (begun : Begun source height start expr stream)
    (steps : Later source stream rest) (kind : NodeKind) :
    Begun source height start (.unsupported kind (rest.spanFrom start)) rest := by
  have further : start.start ≤ rest.previousStop := begun.fits.lt.le.trans steps.stop_le
  exact (begun.grow steps rfl (.nil further)).mono (expr.one_le_height.trans begun.fits.low)

end Begun

theorem Extends.whole {parser : Parser Expr} {height height' : Nat} {now : TokenStream}
    (carried : parser.Extends source height stream.current.span now)
    (moves : Ahead source stream now) (higher : height ≤ height') :
    parser.Meets now fun value rest => Ahead source stream rest ∧
      value.tree.Fits source height' stream.current.span.start rest.previousStop := by
  apply Meets.mono carried
  rintro value rest ⟨steps, begun⟩
  exact ⟨moves.trans steps, begun.fits.mono higher le_rfl le_rfl⟩

structure Listed (view : α → SyntaxTree) (source : String) (height place : Nat)
    (first : TokenStream) (items : List α) (now : TokenStream) : Prop where
  later : Later source first now
  fits : FitsAll source height place (items.reverse.map view) now.previousStop

namespace Listed

variable {view : α → SyntaxTree} {height place : Nat} {first now rest : TokenStream}
  {items : List α}

theorem nil (inSource : first.InSource source) (after : place ≤ first.previousStop) :
    Listed view source height place first [] first :=
  ⟨inSource.later, .nil after⟩

theorem cons (listed : Listed view source height place first items now) {value : α}
    (moves : Ahead source now rest)
    (fits : (view value).Fits source height now.current.span.start rest.previousStop) :
    Listed view source height place first (value :: items) rest where
  later := listed.later.trans moves.toLater
  fits := by
    rw [List.reverse_cons, List.map_append]
    exact listed.fits.concat listed.later.inSource fits

theorem widen (listed : Listed view source height place first items now)
    (steps : Later source now rest) : Listed view source height place first items rest :=
  ⟨listed.later.trans steps, listed.fits.widen steps⟩

theorem closes (listed : Listed view source height place first items now) {mark : Punctuator}
    (found : now.isAt mark) :
    Closes source mark first now.advance ∧
      FitsAll source height place (items.reverse.map view) now.advance.previousStop :=
  ⟨⟨now, listed.later, found, rfl⟩, listed.fits.widen listed.later.inSource.later_advance⟩

end Listed

end EventLoop.Parser
