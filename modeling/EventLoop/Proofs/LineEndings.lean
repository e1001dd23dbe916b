import EventLoop.Proofs.CarriageReturns
import EventLoop.Proofs.Spellings
import Mathlib.Data.List.Forall2

set_option autoImplicit false

/-!
# Line endings

A source may end its lines with a carriage return and a line feed.
-/

namespace EventLoop

open Text

namespace TokenKind

def withReturns : TokenKind → TokenKind
  | .template raw => .template (Text.returned raw)
  | kind => kind

def endsWithLine : TokenKind → Bool
  | .string _ | .regexp _ _ => true
  | .unterminated delimiter => delimiter != TemplateLiteral.backquote
  | _ => false

@[simp] theorem isSlash_withReturns (kind : TokenKind) :
    kind.withReturns.isSlash = kind.isSlash := by
  cases kind <;> rfl

@[simp] theorem isEnd_withReturns (kind : TokenKind) : kind.withReturns.isEnd = kind.isEnd := by
  cases kind <;> rfl

theorem endsWithLine_eq_false {kind : TokenKind} (slash : kind.isSlash) :
    kind.endsWithLine = false := by
  cases kind <;> first | rfl | cases slash

end TokenKind

def ScansAgain (scan : List Char → TokenKind × Nat) (text : List Char) : Prop :=
  ∃ own tail, text = own ++ tail ∧ (scan text).2 = own.length ∧
    (((scan text).1.endsWithLine && continues own) = false →
      scan (withReturns text) = ((scan text).1.withReturns, (withReturns own).length)) ∧
    ((scan text).1.endsWithLine && continues own →
      ∃ delimiter, (scan (withReturns text)).1 = .unterminated delimiter)

theorem StringLiteral.readFrom_kind (quote : Char) (value : List Char) (count : Nat)
    (text : List Char) :
    (∃ whole, (readFrom quote value count text).1 = .string whole) ∨
      (readFrom quote value count text).1 = .unterminated quote := by
  fun_induction readFrom quote value count text with
  | case1 => exact .inr rfl
  | case2 => exact .inl ⟨_, rfl⟩
  | case3 => exact .inr rfl
  | case4 _ _ _ _ _ _ _ _ _ _ ih => exact ih
  | case5 => exact .inr rfl
  | case6 _ _ _ _ _ _ _ ih => exact ih

theorem StringLiteral.readFrom_scansAgain {quote : Char} (quoted : quote = single ∨ quote = double)
    (text : List Char) : ScansAgain (readFrom quote [] 0) text := by
  obtain ⟨own, tail, rfl, line⟩ := readFrom_lineScan quoted [] 0 text
  have kind := readFrom_kind quote [] 0 (own ++ tail)
  have ends : (readFrom quote [] 0 (own ++ tail)).1.endsWithLine := by
    obtain ⟨whole, kind⟩ | kind := kind
    next => rw [kind]; rfl
    next =>
      rw [kind]
      obtain rfl | rfl := quoted <;> decide
  have kept : (readFrom quote [] 0 (own ++ tail)).1.withReturns =
      (readFrom quote [] 0 (own ++ tail)).1 := by
    obtain ⟨whole, kind⟩ | kind := kind <;> rw [kind] <;> rfl
  refine ⟨own, tail, rfl, by simpa using line.length, ?_, ?_⟩
  next =>
    rw [ends, Bool.true_and, kept]
    intro plain
    simpa using line.same plain 0
  next =>
    rw [ends, Bool.true_and]
    exact fun carried => ⟨quote, line.opens carried 0⟩

theorem TemplateLiteral.read_scansAgain (text : List Char) : ScansAgain read text := by
  obtain ⟨none, noneAgain⟩ | ⟨raw, tail, rfl, some, someAgain⟩ := endsAgain 0 0 text
  next =>
    refine ⟨text, [], by simp, by simp [read, none], fun _ => ?_, ?_⟩
    next =>
      simp only [read, none, noneAgain]
      rfl
    next => simp [read, none, TokenKind.endsWithLine]
  next =>
    have returns : withReturns (raw ++ backquote :: tail) =
        withReturns raw ++ backquote :: withReturns tail := by
      rw [withReturns_append, withReturns_cons (by decide)]
    refine ⟨raw ++ [backquote], tail, by simp, by simp [read, some], fun _ => ?_, ?_⟩
    next =>
      have closes : withReturns [backquote] = [backquote] := rfl
      simp only [read, some, someAgain]
      simp [returns, TokenKind.withReturns, Text.returned, withReturns_append, closes]
    next => simp [read, some, TokenKind.endsWithLine]

theorem RegexpLiteral.read_of_open {rest : List Char} {length : Nat}
    (opened : readFrom false 0 rest = (false, length)) :
    read rest = (.unterminated '/', length) := by
  simp only [read, opened]

theorem RegexpLiteral.read_of_closed {own flags rest : List Char}
    (closed : readFrom false 0 (own ++ (flags ++ rest)) = (true, own.length))
    (inside : ∀ c ∈ flags, c.isAlpha) (stop : rest.head?.all (!Char.isAlpha ·)) :
    read (own ++ (flags ++ rest)) =
      (.regexp (String.ofList (own.take (own.length - 1))) (String.ofList flags),
        own.length + flags.length) := by
  simp only [read, closed]
  rw [List.drop_left, takeWhile_append_of_stop inside stop,
    List.take_append_of_le_length (Nat.sub_le ..)]

theorem RegexpLiteral.read_kind_of_carried {own tail : List Char}
    (line : LineScan (readFrom false) false 0 own tail) (carried : continues own) :
    (read (withReturns (own ++ tail))).1 = .unterminated '/' := by
  rw [read_of_open (Prod.ext (y := (false, _)) (line.opens carried 0) rfl)]

theorem RegexpLiteral.scansAgain_of_open {own tail : List Char}
    (line : LineScan (readFrom false) false 0 own tail)
    (opened : readFrom false 0 (own ++ tail) = (false, own.length)) :
    ScansAgain read (own ++ tail) := by
  have ends : (TokenKind.unterminated '/').endsWithLine := by decide
  unfold ScansAgain
  rw [read_of_open opened]
  refine ⟨own, tail, rfl, rfl, ?_, ?_⟩
  next =>
    rw [ends, Bool.true_and]
    intro plain
    have second := line.same plain 0
    rw [opened, Nat.zero_add] at second
    exact read_of_open second
  next =>
    rw [ends, Bool.true_and]
    exact fun carried => ⟨'/', read_kind_of_carried line carried⟩

theorem RegexpLiteral.scansAgain_of_closed {own tail : List Char}
    (line : LineScan (readFrom false) false 0 own tail)
    (closed : readFrom false 0 (own ++ tail) = (true, own.length)) :
    ScansAgain read (own ++ tail) := by
  obtain ⟨flags, rest, rfl, inside, stop⟩ := exists_stop Char.isAlpha tail
  have flagFeeds : '\n' ∉ flags := fun member => absurd (inside _ member) (by decide)
  -- A closed pattern has the end of a line only behind a backslash.
  have feeds (plain : continues own = false) : '\n' ∉ own := line.closed plain (by simp [closed])
  have carries : continues (own ++ flags) = continues own := by
    cases carried : continues own with
    | true => exact continues_append carried flags
    | false => exact continues_eq_false (by simp [feeds carried, flagFeeds])
  unfold ScansAgain
  rw [read_of_closed closed inside stop]
  refine ⟨own ++ flags, rest, by simp, by simp, fun plain => ?_, fun carried => ?_⟩
  next =>
    have plain : continues own = false := by simpa [TokenKind.endsWithLine, carries] using plain
    have second := line.same plain 0
    have returns : withReturns (own ++ (flags ++ rest)) = own ++ (flags ++ withReturns rest) := by
      rw [withReturns_append, withReturns_append, withReturns_eq_self (feeds plain),
        withReturns_eq_self flagFeeds]
    rw [returns, closed, withReturns_eq_self (feeds plain), Nat.zero_add] at second
    rw [returns, read_of_closed second inside (head?_all_withReturns (by decide) stop),
      withReturns_append, withReturns_eq_self (feeds plain), withReturns_eq_self flagFeeds]
    simp [TokenKind.withReturns]
  next =>
    have carried : continues own := by simpa [TokenKind.endsWithLine, carries] using carried
    exact ⟨'/', read_kind_of_carried line carried⟩

theorem RegexpLiteral.read_scansAgain (text : List Char) : ScansAgain read text := by
  obtain ⟨own, tail, rfl, line⟩ := readFrom_lineScan false 0 text
  have length := line.length
  rw [Nat.zero_add] at length
  cases closed : (readFrom false 0 (own ++ tail)).1 with
  | false => exact scansAgain_of_open line (Prod.ext closed length)
  | true => exact scansAgain_of_closed line (Prod.ext closed length)

theorem wordKind_withReturns (word : List Char) : (wordKind word).withReturns = wordKind word := by
  unfold wordKind
  split <;> rfl

theorem NumberLiteral.read_withReturns (text : List Char) :
    (read text).1.withReturns = (read text).1 := by
  unfold read
  split
  next =>
    split
    next base _ =>
      dsimp only [inBase]
      split <;> rfl
    next => rfl
  next => rfl

theorem TokenKind.read_scansAgain_of_plain {c : Char} (single : c ≠ StringLiteral.single)
    (double : c ≠ StringLiteral.double) (template : c ≠ TemplateLiteral.backquote)
    (text : List Char) : ScansAgain (read c) text := by
  have kept : (read c text).1.withReturns = (read c text).1 := by
    by_cases word : isWordStart c
    next =>
      rw [read_word word]
      exact wordKind_withReturns _
    rw [Bool.not_eq_true] at word
    by_cases number : startsNumber c text
    next =>
      rw [read_number word number]
      exact NumberLiteral.read_withReturns _
    rw [Bool.not_eq_true] at number
    rw [read_punctuator word number single double template]
    cases Punctuator.first? (c :: text) <;> rfl
  obtain ⟨line, after, rfl, inside, stop⟩ := exists_stop (· != '\n') text
  have feeds : '\n' ∉ line := fun member => absurd (inside _ member) (by decide)
  have delimits : Delimits after ∧ Delimits (Text.withReturns after) := by
    cases after with
    | nil => exact ⟨.inl rfl, .inl rfl⟩
    | cons d rest =>
      obtain rfl : d = '\n' := by simpa using stop
      exact ⟨.inr ⟨_, _, rfl, by simp⟩, .inr ⟨_, _, rfl, by simp⟩⟩
  have first := read_append_stop delimits.1 single double template line
  have second := read_append_stop delimits.2 single double template line
  have short := read_le c line
  rw [first] at kept
  unfold ScansAgain
  rw [first, withReturns_append, withReturns_eq_self feeds, second, kept]
  -- No line ends in the text of the token, so there is no backslash at its end either.
  have own : '\n' ∉ line.take (read c line).2 := fun member => feeds (List.mem_of_mem_take member)
  refine ⟨line.take (read c line).2, line.drop (read c line).2 ++ after,
    by simp [← List.append_assoc], (List.length_take_of_le short).symm, fun _ => ?_, ?_⟩
  next => rw [withReturns_eq_self own, List.length_take_of_le short]
  next => simp [continues_eq_false own]

theorem TokenKind.read_scansAgain (c : Char) (text : List Char) : ScansAgain (read c) text := by
  by_cases quoted : c = StringLiteral.single ∨ c = StringLiteral.double
  next =>
    rw [funext (read_quoted quoted)]
    exact StringLiteral.readFrom_scansAgain quoted text
  by_cases template : c = TemplateLiteral.backquote
  next =>
    subst template
    rw [funext read_template]
    exact TemplateLiteral.read_scansAgain text
  rw [not_or] at quoted
  exact read_scansAgain_of_plain quoted.1 quoted.2 template text

theorem Position.advance_withReturns {position again : Position}
    (line : again.line = position.line) (column : again.column = position.column)
    (text : List Char) :
    (again.advance (withReturns text)).line = (position.advance text).line ∧
      (again.advance (withReturns text)).column = (position.advance text).column := by
  have carriage : isLineTerminator '\r' = false := by decide
  have feed : isLineTerminator '\n' := by decide
  induction text generalizing position again with
  | nil => exact ⟨line, column⟩
  | cons c text ih =>
    by_cases same : c = '\n'
    next =>
      -- The column of the carriage return is lost at the line feed.
      subst same
      rw [withReturns_feed, advance_cons, advance_cons, advance_cons]
      apply ih
      case line => simp [next, carriage, feed, line]
      case column => simp [next, feed]
    next =>
      rw [withReturns_cons same, advance_cons, advance_cons]
      apply ih
      case line => by_cases ends : isLineTerminator c <;> simp [next, ends, line]
      case column => by_cases ends : isLineTerminator c <;> simp [next, ends, column]

namespace Token

/-- A backslash carries the token on over the end of a line. In a template it is as plain as the end
of the line itself. -/
def continues (token : Token) : Bool :=
  token.kind.endsWithLine && Text.continues token.text.tail

structure Beside (token again : Token) : Prop where
  newlineBefore : again.newlineBefore = token.newlineBefore
  line : again.span.line = token.span.line
  column : again.span.column = token.span.column

structure Returned (token again : Token) : Prop extends Beside token again where
  kind : again.kind = token.kind.withReturns
  text : again.text = withReturns token.text

end Token

namespace Cursor

structure Follows (cursor again : Cursor) : Prop where
  rest : again.rest = withReturns cursor.rest
  line : again.position.line = cursor.position.line
  column : again.position.column = cursor.position.column

structure Tracks (first second : Token × Cursor) : Prop where
  beside : first.1.Beside second.1
  same : first.1.continues = false → first.1.Returned second.1 ∧ first.2.Follows second.2
  opens : first.1.continues → ∃ delimiter, second.1.kind = .unterminated delimiter

variable {cursor again : Cursor}

theorem Follows.skip (follows : cursor.Follows again) {own tail : List Char}
    (split : cursor.rest = own ++ tail) :
    (cursor.skip own.length).Follows (again.skip (withReturns own).length) := by
  have place := Position.advance_withReturns follows.line follows.column own
  have rest := follows.rest
  rw [split, withReturns_append] at rest
  constructor
  case rest => rw [rest_skip, rest_skip, rest, split, List.drop_left, List.drop_left]
  case line => simpa [rest, split] using place.1
  case column => simpa [rest, split] using place.2

theorem Follows.onToken (follows : cursor.Follows again) :
    cursor.onToken.Follows again.onToken ∧
      again.gap.any isLineTerminator = cursor.gap.any isLineTerminator := by
  obtain ⟨gap, rest, split, length, same⟩ := Trivia.stopsAgain .outside 0 cursor.rest
  have same := same 0
  rw [Nat.zero_add, ← Trivia.length] at length same
  rw [← follows.rest] at same
  constructor
  next =>
    rw [Cursor.onToken, Cursor.onToken, length, same]
    exact follows.skip split
  next =>
    rw [Cursor.gap, Cursor.gap, length, same, follows.rest, split, withReturns_append,
      List.take_left, List.take_left, any_withReturns]

theorem Follows.beside (follows : cursor.Follows again) (newline : Bool)
    (kind kindAgain : TokenKind) (length lengthAgain : Nat) :
    (cursor.token newline kind length).1.Beside (again.token newline kindAgain lengthAgain).1 :=
  ⟨rfl, follows.line, follows.column⟩

theorem Follows.token (follows : cursor.Follows again) {c : Char} {text : List Char}
    (found : cursor.rest = c :: text) (feed : c ≠ '\n') {scan : List Char → TokenKind × Nat}
    (scans : ScansAgain scan text) (newline : Bool) :
    Tracks (cursor.token newline (scan text).1 ((scan text).2 + 1))
      (again.token newline (scan (withReturns text)).1 ((scan (withReturns text)).2 + 1)) := by
  obtain ⟨own, tail, rfl, length, same, opens⟩ := scans
  have rest := follows.rest
  rw [found, withReturns_cons feed] at rest
  -- The token and its scanner agree on whether a backslash carries the literal over a line.
  have continues : Token.continues
      (cursor.token newline (scan (own ++ tail)).1 ((scan (own ++ tail)).2 + 1)).1 =
      ((scan (own ++ tail)).1.endsWithLine && Text.continues own) := by
    simp [Token.continues, found, length]
  constructor
  case beside => exact follows.beside ..
  case same =>
    rw [continues]
    intro plain
    have text : withReturns (c :: own) = c :: withReturns own := withReturns_cons feed own
    have split : cursor.rest = (c :: own) ++ tail := found
    have after := follows.skip split
    rw [text] at after
    refine ⟨⟨follows.beside .., ?_, ?_⟩, ?_⟩
    next => rw [same plain]; rfl
    next =>
      rw [token_text, token_text, same plain, rest, found, length, withReturns_append]
      simp [text]
    next => simpa [same plain, length] using after
  case opens =>
    rw [continues]
    exact opens

theorem ne_feed_of_onToken {c : Char} {rest : List Char} (found : cursor.onToken.rest = c :: rest) :
    c ≠ '\n' := by
  have stop := cursor.gap_spec.2
  rw [found, Trivia.starts_cons] at stop
  rintro rfl
  simp [show isBlank '\n' by decide] at stop

theorem Follows.next (follows : cursor.Follows again) : Tracks cursor.next again.next := by
  obtain ⟨place, newline⟩ := follows.onToken
  have rest := place.rest
  cases found : cursor.onToken.rest with
  | nil =>
    rw [found] at rest
    rw [next_of_nil found, next_of_nil rest, newline]
    have split : cursor.onToken.rest = [] ++ cursor.onToken.rest := rfl
    have after := place.skip split
    exact ⟨place.beside .., fun _ => ⟨⟨place.beside .., rfl, rfl⟩, after⟩, nofun⟩
  | cons c text =>
    have feed := ne_feed_of_onToken found
    rw [found, withReturns_cons feed] at rest
    rw [next_of_cons found, next_of_cons rest, newline]
    exact place.token found feed (TokenKind.read_scansAgain c text) _

theorem regexp_of_cons {c : Char} {rest : List Char} (found : cursor.onToken.rest = c :: rest) :
    cursor.next.2.regexp cursor.next.1 = cursor.onToken.token (cursor.gap.any isLineTerminator)
      (RegexpLiteral.read rest).1 ((RegexpLiteral.read rest).2 + 1) := by
  rw [regexp_eq, before_next, found, newlineBefore_next]
  rfl

theorem Follows.regexp (follows : cursor.Follows again)
    (inside : cursor.next.1.kind.isEnd = false) :
    Tracks (cursor.next.2.regexp cursor.next.1) (again.next.2.regexp again.next.1) := by
  obtain ⟨place, newline⟩ := follows.onToken
  have rest := place.rest
  cases found : cursor.onToken.rest with
  | nil =>
    rw [isEnd_next, found] at inside
    cases inside
  | cons c text =>
    have feed := ne_feed_of_onToken found
    rw [found, withReturns_cons feed] at rest
    rw [regexp_of_cons found, regexp_of_cons rest, newline]
    exact place.token found feed (RegexpLiteral.read_scansAgain text) _

theorem Tracks.isSlash {first second : Token × Cursor} (tracks : Tracks first second) :
    second.1.kind.isSlash = first.1.kind.isSlash := by
  cases carried : first.1.continues with
  | false => rw [(tracks.same carried).1.kind, TokenKind.isSlash_withReturns]
  | true =>
    -- A slash is no literal on one line, so nothing carries it on.
    obtain ⟨delimiter, opened⟩ := tracks.opens carried
    rw [opened]
    cases slash : first.1.kind.isSlash with
    | false => rfl
    | true => simp [Token.continues, TokenKind.endsWithLine_eq_false slash] at carried

theorem Follows.nextWith (follows : cursor.Follows again) (regexps : Bool) :
    Tracks (cursor.nextWith fun _ => regexps) (again.nextWith fun _ => regexps) := by
  have plain := follows.next
  unfold Cursor.nextWith
  dsimp only
  rw [plain.isSlash]
  split
  next slash =>
    apply follows.regexp
    cases kind : cursor.next.1.kind <;>
      simp_all [TokenKind.isSlash, TokenKind.isEnd, TokenKind.isPunctuator]
  next => exact plain

end Cursor

-- The tokens of a text and those of the text with carriage returns: they are the same one after the
-- other, up to a token that a backslash carries over the end of a line.
inductive Accord : List Token → List Token → Prop where
  | nil : Accord [] []
  | cons {token again : Token} {found others : List Token} (plain : token.continues = false)
      (returned : token.Returned again) (rest : Accord found others) :
      Accord (token :: found) (again :: others)
  | opened {token again : Token} {found others : List Token} {delimiter : Char}
      (carried : token.continues) (beside : token.Beside again)
      (kind : again.kind = .unterminated delimiter) : Accord (token :: found) (again :: others)

namespace Accord

variable {found others : List Token}

theorem forall₂ (accord : Accord found others)
    (plain : ∀ token ∈ found, token.continues = false) :
    List.Forall₂ Token.Returned found others := by
  induction accord with
  | nil => exact .nil
  | cons _ returned rest ih =>
    rw [List.forall_mem_cons] at plain
    exact .cons returned (ih plain.2)
  | opened carried beside kind =>
    have plain := (List.forall_mem_cons.mp plain).1
    rw [carried] at plain
    cases plain

theorem exists_opened (accord : Accord found others) {before after : List Token} {token : Token}
    (split : found = before ++ token :: after)
    (plain : ∀ earlier ∈ before, earlier.continues = false) (carried : token.continues) :
    ∃ beforeAgain again afterAgain, others = beforeAgain ++ again :: afterAgain ∧
      List.Forall₂ Token.Returned before beforeAgain ∧ token.Beside again ∧
      ∃ delimiter, again.kind = .unterminated delimiter := by
  -- The tokens agree one by one up to the first that is left open; after it nothing is known.
  induction accord generalizing before with
  | nil => simp at split
  | @cons first firstAgain found others firstPlain returned rest ih =>
    cases before with
    | nil =>
      obtain ⟨rfl, rfl⟩ := List.cons.inj split
      rw [carried] at firstPlain
      cases firstPlain
    | cons earlier before =>
      obtain ⟨rfl, behind⟩ := List.cons.inj split
      rw [List.forall_mem_cons] at plain
      obtain ⟨beforeAgain, again, afterAgain, rfl, same, opened⟩ := ih behind plain.2
      exact ⟨firstAgain :: beforeAgain, again, afterAgain, rfl, .cons returned same, opened⟩
  | @opened first firstAgain found others delimiter firstCarried beside kind =>
    cases before with
    | nil =>
      obtain ⟨rfl, rfl⟩ := List.cons.inj split
      exact ⟨[], firstAgain, others, rfl, .nil, beside, delimiter, kind⟩
    | cons earlier before =>
      obtain ⟨rfl, -⟩ := List.cons.inj split
      rw [(List.forall_mem_cons.mp plain).1] at firstCarried
      cases firstCarried

end Accord

theorem Cursor.Follows.accord {cursor again : Cursor} (follows : cursor.Follows again)
    (regexps : Bool) :
    Accord (tokensFrom (fun _ => regexps) cursor) (tokensFrom (fun _ => regexps) again) := by
  -- The induction is on what is left of the first text. A token that is left open ends it, since
  -- the cursors are no longer at the same place then.
  induction left : cursor.rest.length using Nat.strongRecOn generalizing cursor again with
  | ind length ih =>
    have tracks := follows.nextWith regexps
    have shorter := cursor.length_rest_nextWith fun _ => regexps
    rw [tokensFrom_eq, tokensFrom_eq _ again]
    generalize cursor.nextWith (fun _ => regexps) = first at tracks shorter
    generalize again.nextWith (fun _ => regexps) = second at tracks
    cases carried : first.1.continues with
    | false =>
      obtain ⟨returned, after⟩ := tracks.same carried
      rw [returned.kind, TokenKind.isEnd_withReturns]
      split
      next => exact .cons carried returned .nil
      next inside =>
        rw [Bool.not_eq_true] at inside
        exact .cons carried returned (ih _ (left ▸ shorter inside) after rfl)
    | true =>
      obtain ⟨delimiter, opened⟩ := tracks.opens carried
      have inside : first.1.kind.isEnd = false := by
        cases kind : first.1.kind <;>
          simp_all [Token.continues, TokenKind.endsWithLine, TokenKind.isEnd]
      rw [inside, opened]
      exact .opened carried tracks.beside opened

/-- Carriage returns in front of the line feeds of a source leave its tokens as they are, where they
stand and whether a line ended before them, and they get into the texts of templates. Only a string
or a regular expression that a backslash carries over the end of a line is lost: the tokens are the
same up to the first of these, and that one is left open. -/
theorem tokensWith_returned (regexps : Bool) (source : String) :
    ((∀ token ∈ tokensWith (fun _ => regexps) source, token.continues = false) →
        List.Forall₂ Token.Returned (tokensWith (fun _ => regexps) source)
          (tokensWith (fun _ => regexps) (returned source))) ∧
      ∀ before token after, tokensWith (fun _ => regexps) source = before ++ token :: after →
        (∀ earlier ∈ before, earlier.continues = false) → token.continues →
        ∃ beforeAgain again afterAgain,
          tokensWith (fun _ => regexps) (returned source) =
            beforeAgain ++ again :: afterAgain ∧
          List.Forall₂ Token.Returned before beforeAgain ∧ token.Beside again ∧
          ∃ delimiter, again.kind = .unterminated delimiter := by
  have follows : (Cursor.ofText source).Follows (.ofText (returned source)) :=
    ⟨String.toList_ofList, rfl, rfl⟩
  have accord : Accord (tokensWith (fun _ => regexps) source)
      (tokensWith (fun _ => regexps) (returned source)) := follows.accord regexps
  exact ⟨accord.forall₂, fun before token after split => accord.exists_opened split⟩

def carriedString : String := "\"a\\\nb\""

theorem tokens_carriedString :
    tokens carriedString =
      [⟨.string "ab", ⟨0, 6, 1, 1⟩, false, carriedString.toList⟩,
        ⟨.endOfInput, ⟨6, 6, 2, 3⟩, false, []⟩] := by
  have quoted : '"' = StringLiteral.single ∨ '"' = StringLiteral.double := .inr rfl
  have escape : StringLiteral.escape '\n' ['b', '"'] = (none, 0) := rfl
  have read : TokenKind.read '"' ['a', '\\', '\n', 'b', '"'] = (.string "ab", 5) := by
    rw [TokenKind.read_quoted quoted,
      StringLiteral.readFrom_plain (by decide) (by decide) (by decide),
      StringLiteral.readFrom_escape (by decide) escape, List.drop_zero,
      StringLiteral.readFrom_plain (by decide) (by decide) (by decide),
      StringLiteral.readFrom_quote]
    rfl
  exact tokens_ofList rfl read

theorem returned_template_and_string :
    (tokens (returned "`x\ny`")).map
        (fun token => (token.kind, token.newlineBefore, token.span.line, token.span.column)) =
        [(.template "x\r\ny", false, 1, 1), (.endOfInput, false, 2, 3)] ∧
      ∃ again others delimiter, tokens (returned carriedString) = again :: others ∧
        again.kind = .unterminated delimiter := by
  constructor
  next =>
    have read : TokenKind.read '\x60' ['x', '\n', 'y', '\x60'] = (.template "x\ny", 4) :=
      TokenKind.read_template _
    have found : tokens "`x\ny`" =
        [⟨.template "x\ny", ⟨0, 5, 1, 1⟩, false, "`x\ny`".toList⟩,
          ⟨.endOfInput, ⟨5, 5, 2, 3⟩, false, []⟩] := tokens_ofList rfl read
    have same := (tokensWith_returned false "`x\ny`").1
    rw [← tokens, ← tokens, found] at same
    generalize tokens (returned "`x\ny`") = others at same
    have plain : ∀ token ∈ [(⟨.template "x\ny", ⟨0, 5, 1, 1⟩, false, "`x\ny`".toList⟩ : Token),
        ⟨.endOfInput, ⟨5, 5, 2, 3⟩, false, []⟩], token.continues = false := by
      simp [Token.continues, TokenKind.endsWithLine]
    obtain _ | ⟨first, _ | ⟨second, _ | _⟩⟩ := same plain
    simp only [List.map_cons, List.map_nil, first.kind, first.newlineBefore, first.line,
      first.column, second.kind, second.newlineBefore, second.line, second.column]
    rfl
  next =>
    have opened := (tokensWith_returned false carriedString).2 []
    rw [← tokens, ← tokens, tokens_carriedString] at opened
    obtain ⟨beforeAgain, again, others, split, same, -, delimiter, kind⟩ :=
      opened _ _ rfl (by simp) rfl
    cases same
    exact ⟨again, others, delimiter, split, kind⟩

theorem returned_opens_string :
    '\r' ∉ carriedString.toList ∧
      (tokens carriedString).map (·.kind) = [.string "ab", .endOfInput] ∧
      ((tokens (returned carriedString)).map (·.kind)).head? = some (.unterminated '"') := by
  refine ⟨by decide, by rw [tokens_carriedString]; rfl, ?_⟩
  have quoted : '"' = StringLiteral.single ∨ '"' = StringLiteral.double := .inr rfl
  have escape : StringLiteral.escape '\r' ['\n', 'b', '"'] = (some '\r', 0) := rfl
  have read : TokenKind.read '"' ['a', '\\', '\r', '\n', 'b', '"'] = (.unterminated '"', 4) := by
    rw [TokenKind.read_quoted quoted,
      StringLiteral.readFrom_plain (by decide) (by decide) (by decide),
      StringLiteral.readFrom_escape (by decide) escape, List.drop_zero,
      StringLiteral.readFrom_break (by decide) (by decide) (by decide)]
  have next := @Cursor.next_token '"' ['a', '\\', '\r', '\n'] ['b', '"'] _ rfl read .origin
  have first : (Cursor.ofText (returned carriedString)).next.1.kind = .unterminated '"' :=
    congrArg (·.1.kind) next
  rw [tokens, tokensWith, ← Cursor.tokens, Cursor.tokens_of_found (by rw [first]; rfl)]
  simp [first]

end EventLoop
