import EventLoop.Proofs.Streams
import EventLoop.Proofs.SyntaxTrees

set_option autoImplicit false

/-!
# Streams that move through a source

A stream only moves forward: it takes its token, or reads a slash again and takes a regular
expression.
-/

namespace EventLoop

theorem RegexpLiteral.read_kind (rest : List Char) :
    (∃ pattern flags, (read rest).1 = .regexp pattern flags) ∨
      (read rest).1 = .unterminated '/' := by
  unfold read
  split
  next => exact .inr rfl
  next => exact .inl ⟨_, _, rfl⟩

theorem Cursor.regexp_kind (after : Cursor) (slash : Token) :
    (∃ pattern flags, (after.regexp slash).1.kind = .regexp pattern flags) ∨
      (after.regexp slash).1.kind = .unterminated '/' := by
  rw [Cursor.regexp_eq]
  exact RegexpLiteral.read_kind _

theorem TokenStream.rescan_kind (stream : TokenStream) :
    (∃ pattern flags, stream.rescan.current.kind = .regexp pattern flags) ∨
      stream.rescan.current.kind = .unterminated '/' :=
  stream.ahead.regexp_kind stream.current

theorem TokenStream.start_rescan (stream : TokenStream) :
    stream.rescan.current.span.start = stream.current.span.start := rfl

theorem TokenKind.eq_of_isKeyword {kind : TokenKind} {word : Keyword}
    (found : kind.isKeyword word) :
    kind = .keyword word := by
  unfold isKeyword at found
  split at found
  next other => rw [eq_of_beq found]
  next => cases found

theorem TokenKind.isEnd_of_eq_some {α : Type} {meaning? : TokenKind → Option α} {kind : TokenKind}
    {value : α} (found : meaning? kind = some value) (last : meaning? .endOfInput = none) :
    kind.isEnd = false := by
  cases kind with
  | endOfInput =>
    rw [last] at found
    cases found
  | _ => rfl

theorem TokenStream.kind_of_isAt {stream : TokenStream} {mark : Punctuator}
    (found : stream.isAt mark) : stream.current.kind = .punctuator mark := by
  unfold isAt TokenKind.isPunctuator at found
  split at found
  next other kind => rw [kind, eq_of_beq found]
  next => cases found

theorem TokenStream.isAt_of_kind {stream : TokenStream} {mark : Punctuator}
    (kind : stream.current.kind = .punctuator mark) : stream.isAt mark := by
  rw [isAt, kind]
  exact beq_self_eq_true mark

def Span.Opens (span : Span) (source : String) : Prop :=
  ∃ before after, source.toList = before ++ after ∧
    span.position = Position.origin.advance before

theorem Span.Opens.marks {span : Span} {source : String} (opens : span.Opens source)
    {passed after : List Char} (split : source.toList = passed ++ after)
    (stop : span.stop = String.utf8Len passed) (nonempty : span.start < span.stop) :
    span.Marks source := by
  obtain ⟨before, rest, whole, place⟩ := opens
  have start : span.start = String.utf8Len before := by
    rw [← Position.offset_origin_advance, ← place]
    rfl
  have text : textBetween source 0 span.start = before := by
    have split : source.toList = [] ++ before ++ rest := whole
    have found := textBetween_eq split
    rwa [List.nil_append, String.utf8Len_nil, ← start] at found
  constructor
  case nonempty => exact nonempty
  case start => exact start ▸ valid_of_split whole
  case stop => exact stop ▸ valid_of_split split
  case line =>
    rw [text]
    exact (congrArg Position.line place).trans (Position.line_advance .origin before)
  case column =>
    rw [text]
    exact (congrArg Position.column place).trans (Position.column_origin_advance before)

namespace TokenStream

variable {source : String} {stream between rest : TokenStream} {kinds more : List TokenKind}

structure InSource (stream : TokenStream) (source : String) : Prop where
  size : stream.size = source.utf8ByteSize
  reading : ∃ cursor passed, Cursor.Stands cursor source passed ∧
    cursor.Yields stream.current stream.ahead ∧ stream.previousStop = String.utf8Len passed

theorem ofText_inSource (source : String) : (ofText source).InSource source :=
  ⟨rfl, .ofText source, [], Cursor.ofText_stands source, .plain _, rfl⟩

namespace InSource

theorem advance (inSource : stream.InSource source) : stream.advance.InSource source := by
  obtain ⟨size, cursor, passed, stands, yields, -⟩ := inSource
  obtain ⟨token, ahead⟩ := yields.stands stands
  exact ⟨size, stream.ahead, _, ahead, .plain _, token.stop⟩

theorem rescan (inSource : stream.InSource source) (slash : stream.current.kind.isSlash) :
    stream.rescan.InSource source := by
  obtain ⟨size, cursor, passed, stands, yields, stop⟩ := inSource
  refine ⟨size, cursor, passed, stands, ?_, stop⟩
  rw [TokenStream.rescan]
  generalize stream.current = current at yields slash
  generalize stream.ahead = ahead at yields
  cases yields with
  | plain => exact .regexp slash
  | regexp =>
    obtain ⟨pattern, flags, kind⟩ | kind := cursor.next.2.regexp_kind cursor.next.1 <;>
      rw [kind] at slash <;> cases slash

theorem split (inSource : stream.InSource source) :
    ∃ passed gap after, stream.previousStop = String.utf8Len passed ∧
      stream.current.Stands source (passed ++ gap) after := by
  obtain ⟨-, cursor, passed, stands, yields, stop⟩ := inSource
  exact ⟨passed, cursor.gap, _, stop, (yields.stands stands).1⟩

theorem previousStop_le (inSource : stream.InSource source) :
    stream.previousStop ≤ stream.current.span.start := by
  obtain ⟨passed, gap, after, stop, token⟩ := inSource.split
  rw [stop, token.start, String.utf8Len_append]
  omega

theorem stop_le_size (inSource : stream.InSource source) :
    stream.current.span.stop ≤ stream.size := by
  obtain ⟨passed, gap, after, -, token⟩ := inSource.split
  rw [inSource.size, ← String.utf8Len_toList, token.split, token.stop]
  simp only [String.utf8Len_append]
  omega

theorem start_le_stop (inSource : stream.InSource source) :
    stream.current.span.start ≤ stream.current.span.stop := by
  obtain ⟨passed, gap, after, -, token⟩ := inSource.split
  rw [token.start, token.stop]
  simp only [String.utf8Len_append]
  omega

theorem start_lt_stop (inSource : stream.InSource source)
    (inside : stream.current.kind.isEnd = false) :
    stream.current.span.start < stream.current.span.stop := by
  obtain ⟨-, cursor, passed, stands, yields, -⟩ := inSource
  obtain ⟨token, -⟩ := yields.stands stands
  have text : 0 < String.utf8Len stream.current.text := by
    rw [Nat.pos_iff_ne_zero, ne_eq, String.utf8Len_eq_zero]
    exact yields.text_ne_nil inside
  rw [token.start, token.stop]
  simp only [String.utf8Len_append]
  omega

theorem opens (inSource : stream.InSource source) : stream.current.span.Opens source := by
  obtain ⟨passed, gap, after, -, token⟩ := inSource.split
  refine ⟨passed ++ gap, stream.current.text ++ after, by simpa using token.split, ?_⟩
  rw [token.span]
  rfl

theorem marks_current (inSource : stream.InSource source)
    (inside : stream.current.kind.isEnd = false) : stream.current.span.Marks source := by
  have nonempty := inSource.start_lt_stop inside
  obtain ⟨passed, gap, after, -, token⟩ := inSource.split
  exact inSource.opens.marks token.split token.stop nonempty

theorem marks_spanFrom (inSource : stream.InSource source) {start : Span}
    (opens : start.Opens source) (later : start.start < stream.previousStop) :
    (stream.spanFrom start).Marks source := by
  obtain ⟨passed, gap, after, stop, token⟩ := inSource.split
  have split : source.toList = passed ++ (gap ++ (stream.current.text ++ after)) := by
    rw [token.split, List.append_assoc, List.append_assoc]
  have last : (stream.spanFrom start).stop = stream.previousStop := max_eq_left later.le
  exact Span.Opens.marks opens split (last.trans stop) (last ▸ later)

theorem spanFrom_advance (inSource : stream.InSource source) :
    stream.advance.spanFrom stream.current.span = stream.current.span := by
  have stop : max stream.advance.previousStop stream.current.span.start =
      stream.current.span.stop := max_eq_left inSource.start_le_stop
  rw [spanFrom, stop]

theorem textBetween_current (inSource : stream.InSource source) :
    textBetween source stream.current.span.start stream.current.span.stop =
      stream.current.text := by
  obtain ⟨passed, gap, after, -, token⟩ := inSource.split
  exact token.textBetween_span

end InSource

inductive Passes : TokenStream → List TokenKind → TokenStream → Prop where
  | nothing (stream : TokenStream) : Passes stream [] stream
  | token {stream rest : TokenStream} {kinds : List TokenKind}
      (inside : stream.current.kind.isEnd = false) (later : stream.advance.Passes kinds rest) :
      Passes stream (stream.current.kind :: kinds) rest
  | regexp {stream rest : TokenStream} {kinds : List TokenKind}
      (slash : stream.current.kind.isSlash) (later : stream.rescan.advance.Passes kinds rest) :
      Passes stream (stream.rescan.current.kind :: kinds) rest

theorem Passes.append (passes : stream.Passes kinds between) (later : between.Passes more rest) :
    stream.Passes (kinds ++ more) rest := by
  induction passes with
  | nothing => exact later
  | token inside _ ih => exact .token inside (ih later)
  | regexp slash _ ih => exact .regexp slash (ih later)

structure Later (source : String) (stream rest : TokenStream) : Prop where
  inSource : rest.InSource source
  start_le : stream.current.span.start ≤ rest.current.span.start
  stop_le : stream.previousStop ≤ rest.previousStop

structure Ahead (source : String) (stream rest : TokenStream) : Prop
    extends Later source stream rest where
  start_lt : stream.current.span.start < rest.previousStop

theorem Later.trans (first : Later source stream between) (second : Later source between rest) :
    Later source stream rest :=
  ⟨second.inSource, first.start_le.trans second.start_le, first.stop_le.trans second.stop_le⟩

theorem Later.trans_ahead (first : Later source stream between)
    (second : Ahead source between rest) : Ahead source stream rest :=
  ⟨first.trans second.toLater, first.start_le.trans_lt second.start_lt⟩

theorem Ahead.trans (first : Ahead source stream between) (second : Later source between rest) :
    Ahead source stream rest :=
  ⟨first.toLater.trans second, first.start_lt.trans_le second.stop_le⟩

theorem Ahead.remaining_lt (ahead : Ahead source stream rest) (inSource : stream.InSource source) :
    rest.remaining < stream.remaining := by
  have start := ahead.start_lt
  have later := ahead.inSource.previousStop_le
  have bound := ahead.inSource.start_le_stop.trans ahead.inSource.stop_le_size
  have size := ahead.inSource.size.trans inSource.size.symm
  rw [remaining, remaining]
  omega

namespace InSource

theorem later (inSource : stream.InSource source) : Later source stream stream :=
  ⟨inSource, le_rfl, le_rfl⟩

theorem later_advance (inSource : stream.InSource source) : Later source stream stream.advance where
  inSource := inSource.advance
  start_le := inSource.start_le_stop.trans inSource.advance.previousStop_le
  stop_le := inSource.previousStop_le.trans inSource.start_le_stop

theorem ahead_advance (inSource : stream.InSource source)
    (inside : stream.current.kind.isEnd = false) : Ahead source stream stream.advance :=
  ⟨inSource.later_advance, inSource.start_lt_stop inside⟩

theorem ahead_rescan (inSource : stream.InSource source) (slash : stream.current.kind.isSlash) :
    Ahead source stream stream.rescan.advance := by
  have inside : stream.rescan.current.kind.isEnd = false := by
    obtain ⟨pattern, flags, kind⟩ | kind := stream.rescan_kind <;> rw [kind] <;> rfl
  obtain ⟨⟨inSource, start_le, stop_le⟩, start_lt⟩ := (inSource.rescan slash).ahead_advance inside
  rw [start_rescan] at start_le start_lt
  exact ⟨⟨inSource, start_le, stop_le⟩, start_lt⟩

end InSource

theorem Passes.later (passes : stream.Passes kinds rest) (inSource : stream.InSource source) :
    Later source stream rest := by
  induction passes with
  | nothing => exact inSource.later
  | token inside _ ih => exact inSource.later_advance.trans (ih inSource.advance)
  | regexp slash _ ih =>
    have ahead := inSource.ahead_rescan slash
    exact ahead.toLater.trans (ih ahead.inSource)

theorem Passes.mark {mark : Punctuator} (found : stream.isAt mark) :
    stream.Passes [.punctuator mark] stream.advance := by
  rw [← kind_of_isAt found]
  exact .token (by rw [kind_of_isAt found]; rfl) (.nothing _)

def Closes (source : String) (mark : Punctuator) (stream rest : TokenStream) : Prop :=
  ∃ close, Later source stream close ∧ close.isAt mark ∧ rest = close.advance

namespace InSource

theorem ahead_mark (inSource : stream.InSource source) {mark : Punctuator}
    (found : stream.isAt mark) : Ahead source stream stream.advance :=
  inSource.ahead_advance (by rw [kind_of_isAt found]; rfl)

theorem ahead_keyword (inSource : stream.InSource source) {word : Keyword}
    (found : stream.current.kind.isKeyword word) : Ahead source stream stream.advance :=
  inSource.ahead_advance (by rw [TokenKind.eq_of_isKeyword found]; rfl)

theorem ahead_closes (inSource : stream.InSource source) {left right : Punctuator}
    (opens : stream.isAt left) (closes : Closes source right stream.advance rest) :
    Ahead source stream rest := by
  obtain ⟨close, inside, -, rfl⟩ := closes
  exact (inSource.ahead_mark opens).trans (inside.trans inside.inSource.later_advance)

end InSource

end TokenStream

open TokenStream (InSource Later)
open SyntaxTree (FitsAll)

section Fits

variable {tree : SyntaxTree} {trees : List SyntaxTree} {source : String} {height first last : Nat}
  {stream rest : TokenStream}

theorem SyntaxTree.Fits.widen (fits : tree.Fits source height first stream.previousStop)
    (later : Later source stream rest) : tree.Fits source height first rest.previousStop :=
  fits.mono le_rfl le_rfl later.stop_le

theorem SyntaxTree.FitsAll.widen (fits : FitsAll source height first trees stream.previousStop)
    (later : Later source stream rest) : FitsAll source height first trees rest.previousStop :=
  fits.mono le_rfl le_rfl later.stop_le

theorem SyntaxTree.FitsAll.concat (fits : FitsAll source height first trees stream.previousStop)
    (inSource : stream.InSource source)
    (item : tree.Fits source height stream.current.span.start last) :
    FitsAll source height first (trees ++ [tree]) last :=
  fits.append (.singleton (item.mono le_rfl inSource.previousStop_le le_rfl))

theorem TokenStream.InSource.fits_node (inSource : stream.InSource source) {start : Span}
    (opens : start.Opens source) (further : start.start < stream.previousStop)
    (children : FitsAll source height start.start trees stream.previousStop) {role : NodeRole}
    (unnamed : role.name? = none) :
    (SyntaxTree.node role (stream.spanFrom start) trees).Fits source (height + 1) start.start
      stream.previousStop := by
  have stop : (stream.spanFrom start).stop = stream.previousStop := max_eq_left further.le
  rw [← stop] at children ⊢
  exact .node (inSource.marks_spanFrom opens further) children unnamed le_rfl

end Fits

end EventLoop
