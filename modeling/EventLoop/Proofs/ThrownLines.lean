import EventLoop.Proofs.AcceptedPrograms
import EventLoop.Proofs.SkippedLines

set_option autoImplicit false

/-!
# Thrown lines

A throw is skipped, and a skipped statement is over at the end of a line where one of a few kinds of
tokens stands last. What follows is then read as a program of its own.
-/

namespace EventLoop

open Text (isLineTerminator)

/-- The text has the tokens in front and the last one, and a semicolon behind it is a token of its
own. The tokens close the brackets that they open and have no semicolon outside of them. -/
def ClosedLine (text : String) (front : List Token) (last : Token) : Prop :=
  skims 0 ((front ++ [last]).map (·.kind)) = some 0 ∧
    ∃ semicolon final, tokens (text ++ ";") = front ++ [last, semicolon, final] ∧
      semicolon.span.start = text.utf8ByteSize

theorem ClosedLine.lists {text : String} {front : List Token} {last : Token}
    (closed : ClosedLine text front last) :
    ∃ after, (Cursor.ofText (text ++ ";")).Lists (front ++ [last]) after ∧
      after.rest.length = Trivia.length after.rest + 1 := by
  obtain ⟨-, semicolon, final, read, place⟩ := closed
  have read : (Cursor.ofText (text ++ ";")).tokens = front ++ [last] ++ [semicolon, final] :=
    read.trans (by simp)
  obtain ⟨after, lists, left⟩ := Cursor.lists_of_tokens read (by simp)
  obtain ⟨passed, stands⟩ := lists.stands (Cursor.ofText_stands _)
  obtain rfl := Cursor.next_of_tokens left
  -- The semicolon starts where the text ends, so between the last token and it there are trivia.
  have whole : (text ++ ";").toList = text.toList ++ [';'] := by simp
  have before : passed ++ after.gap = text.toList := by
    have token := ((Cursor.Yields.plain after).stands stands).1
    have split : (text ++ ";").toList = [] ++ text.toList ++ [';'] := whole
    have found := textBetween_eq split
    rwa [List.nil_append, String.utf8Len_nil, String.utf8Len_toList, ← place,
      token.textBetween_start] at found
  have rest : after.rest = after.gap ++ [';'] := by
    rw [← List.append_cancel_left_eq passed, ← List.append_assoc, before, ← whole, stands.split]
  have length := congrArg List.length rest
  rw [Cursor.gap, List.length_append, List.length_take, List.length_singleton] at length
  exact ⟨after, lists, by omega⟩

def thrown (text rest : String) : String := "throw " ++ text ++ "\n" ++ rest

theorem toList_thrown (text rest : String) :
    (thrown text rest).toList = "throw".toList ++ ' ' :: (text.toList ++ '\n' :: rest.toList) := by
  simp [thrown]

theorem utf8ByteSize_thrown (text rest : String) :
    (thrown text rest).utf8ByteSize = rest.utf8ByteSize + (text.utf8ByteSize + 7) := by
  have word : "throw ".utf8ByteSize = 6 := by decide
  have feed : "\n".utf8ByteSize = 1 := by decide
  simp only [thrown, String.utf8ByteSize_append, word, feed]
  omega

theorem TokenStream.behind_feed {gap : List Char}
    (trivia : Trivia.length (gap ++ [';']) = gap.length) (text : String) (place : Position)
    (kind : TokenKind) :
    behind ⟨gap ++ '\n' :: text.toList, place⟩ kind
        (text.utf8ByteSize + ((place.advance gap).offset + 1)) =
      ((ofText text).displaced ⟨(place.advance gap).offset + 1, (place.advance gap).line⟩).entered
        true kind place.offset := by
  have start (place : Position) :
      place.next '\n' = Position.origin.displaced ⟨place.offset + 1, place.line⟩ := by
    simp [Position.next, Position.displaced, Position.origin, show isLineTerminator '\n' by decide,
      show ('\n').utf8Size = 1 by decide, Nat.add_comm]
  have next := Cursor.next_displaced
    ⟨(place.advance gap).offset + 1, (place.advance gap).line⟩ (Cursor.ofText text)
  rw [Cursor.displaced, Cursor.ofText, ← start] at next
  rw [behind, Cursor.next_feed trivia, next]
  rfl

theorem Cursor.next_throw (after : List Char) (start : Position) :
    (next ⟨"throw".toList ++ ' ' :: after, start⟩).1.kind = .identifier "throw" ∧
      (next ⟨"throw".toList ++ ' ' :: after, start⟩).1.newlineBefore = false ∧
      (next ⟨"throw".toList ++ ' ' :: after, start⟩).1.span.position = start ∧
      (next ⟨"throw".toList ++ ' ' :: after, start⟩).2 =
        ⟨' ' :: after, start.advance "throw".toList⟩ := by
  have trivia : Trivia.length ([] ++ 't' :: ("hrow".toList ++ ' ' :: after)) = 0 :=
    Trivia.length_eq_zero rfl
  have inside : "hrow".toList.all Text.isWordPart := by decide +kernel
  have blank : Text.isWordPart ' ' = false := by decide +kernel
  have read : TokenKind.read 't' ("hrow".toList ++ ' ' :: after) = (.identifier "throw", 4) := by
    rw [TokenKind.read_word (by decide +kernel),
      takeWhile_append_of_stop (List.all_eq_true.mp inside) (by simp [blank])]
    rfl
  exact next_of_split trivia read start

theorem ClosedLine.spells {text : String} {front : List Token} {last : Token}
    (closed : ClosedLine text front last) (line : ∀ c ∈ text.toList, isLineTerminator c = false)
    (rest : String) :
    (TokenStream.ofText (thrown text rest)).Spells
      (.identifier "throw" :: (front ++ [last]).map (·.kind))
      (((TokenStream.ofText rest).displaced ⟨text.utf8ByteSize + 7, 1⟩).entered true last.kind
        (last.span.stop + 6)) ∧
      (TokenStream.ofText (thrown text rest)).current.span.position = .origin := by
  obtain ⟨after, lists, trivia⟩ := closed.lists
  have within : [';'].length ≤ after.rest.length := trivia ▸ Nat.le_add_left ..
  have split : (Cursor.ofText (text ++ ";")).rest = text.toList ++ [';'] := by simp [Cursor.ofText]
  -- The tokens are read once more, now six bytes further on and before a line feed.
  obtain ⟨start, behindWord, six, one⟩ : ∃ start : Position,
      (Position.origin.advance "throw".toList).next ' ' = start ∧ start.offset = 6 ∧
        start.line = 1 := ⟨_, rfl, rfl, rfl⟩
  obtain ⟨own, gap, again, whole, rfl, again_lists, kinds, lines⟩ := lists.append_break split within
    ⟨';', [], rfl, .inl rfl⟩ ⟨'\n', rest.toList, rfl, .inr rfl⟩ start line
  rw [← behindWord] at again_lists
  obtain ⟨word, newline, place, passed⟩ :=
    Cursor.next_throw (text.toList ++ '\n' :: rest.toList) .origin
  rw [← toList_thrown, ← Cursor.ofText] at word newline place passed
  have all := Cursor.Lists.token (by rw [word]; rfl)
    (passed ▸ again_lists.blank (by rintro rfl; simp at kinds))
  have spells := TokenStream.spells_of_lists all (Cursor.ofText_stands _)
    (List.forall_mem_cons.mpr ⟨newline, lines⟩) .endOfInput
  -- What is left is to say where the stream stands after them.
  have ends : (.identifier "throw" :: (front ++ [last]).map (·.kind)).getLastD .endOfInput =
      last.kind := by
    rw [List.getLastD_cons, List.map_append]
    exact List.getLastD_concat ..
  have offset : (start.advance own).offset = last.span.stop + 6 := by
    rw [Position.offset_advance, six, Nat.add_comm, lists.stop]
    exact congrArg (· + 6) (Position.offset_origin_advance own).symm
  have reached : (start.advance (own ++ gap)).offset = text.utf8ByteSize + 6 := by
    rw [Position.offset_advance, six, ← whole, String.utf8Len_toList, Nat.add_comm]
  have stays : (start.advance (own ++ gap)).line = 1 := by
    rw [Position.line_advance, one, ← whole, List.countP_eq_zero.mpr (by simpa using line)]
  have behind := TokenStream.behind_feed (by simpa using trivia.symm) rest (start.advance own)
    last.kind
  rw [← Position.advance_append, offset, reached, stays, Nat.add_assoc,
    ← utf8ByteSize_thrown] at behind
  rw [List.map_cons, word, kinds, ends, behindWord, behind,
    ← TokenStream.ofText_eq_behind] at spells
  exact ⟨spells, place⟩

namespace TokenStream

theorem current_mem_tokens (stream : TokenStream) : stream.current ∈ stream.tokens := by
  rw [tokens]
  split <;> simp

theorem Passes.tokens {stream rest : TokenStream} {kinds : List TokenKind}
    (passes : stream.Passes kinds rest)
    (slashless : ∀ token ∈ stream.tokens, token.kind.isSlash = false) :
    ∃ taken, stream.tokens = taken ++ rest.tokens ∧ taken.map (·.kind) = kinds ∧
      rest.previousStop = (taken.map (·.span.stop)).getLastD stream.previousStop := by
  induction passes with
  | nothing => exact ⟨[], rfl, rfl, rfl⟩
  | token inside _ ih =>
    rw [tokens_advance inside] at slashless ⊢
    obtain ⟨taken, split, kinds, stop⟩ := ih (List.forall_mem_cons.mp slashless).2
    refine ⟨_ :: taken, congrArg _ split, congrArg _ kinds, ?_⟩
    rw [List.map_cons, List.getLastD_cons]
    exact stop
  | @regexp stream _ _ slash =>
    rw [slashless _ stream.current_mem_tokens] at slash
    cases slash

end TokenStream

namespace Parser

variable {level : Level Parser} {stream rest : TokenStream}

def ExpressionAt (level : Level Parser) (stream : TokenStream) (found : Statement)
    (rest : TokenStream) : Prop :=
  ∀ value span, found = .expression value span → stream.isAt .semicolon = false ∧
    ∃ close, expression level stream = .ok (value, close) ∧
      endStatement (m := Parser) close = .ok ((), rest) ∧
      span = rest.spanFrom stream.current.span

theorem skipStatement_expressionAt (kind : NodeKind) (start : Span) (now : TokenStream) :
    Ensures (skipStatement kind start) now (ExpressionAt level stream) :=
  .bind_any fun _ _ => .bind_any fun _ _ => by rintro _ _ ⟨⟩ _ _ ⟨⟩

theorem expressionStatement_expressionAt (apart : stream.isAt .semicolon = false) :
    (expressionStatement level).Ensures stream (ExpressionAt level stream) := by
  intro found rest read
  rw [expressionStatement, start_bind] at read
  obtain ⟨value, close, expression, read⟩ := exists_of_bind read
  obtain ⟨⟨⟩, last, ended, read⟩ := exists_of_bind read
  cases read
  rintro _ _ ⟨⟩
  exact ⟨apart, close, expression, ended, rfl⟩

theorem variableDeclaration_expressionAt (kind : VariableKind) :
    (variableDeclaration level kind).Ensures stream (ExpressionAt level stream) := by
  refine .bind_any fun _ _ => .bind_any fun _ _ => .bind_any fun _ _ => .bind_any fun _ _ => ?_
  refine .ite (fun _ => skipStatement_expressionAt ..) fun _ => ?_
  refine .bind_any fun _ _ => .bind_any fun _ _ => .bind_any fun _ _ => ?_
  rintro _ _ ⟨⟩ _ _ ⟨⟩

theorem plainStatement_expressionAt :
    (plainStatement level).Ensures stream (ExpressionAt level stream) := by
  unfold plainStatement
  simp only [ensures_look]
  -- Only the last case and that of a word before a function are expression statements; the others
  -- give other nodes.
  split
  next => exact variableDeclaration_expressionAt _
  next => exact variableDeclaration_expressionAt _
  next => exact variableDeclaration_expressionAt _
  next =>
    refine .ite (fun _ => skipStatement_expressionAt ..) fun _ => .bind_any fun _ _ => ?_
    rintro _ _ ⟨⟩ _ _ ⟨⟩
  next word =>
    refine .ite (fun _ => skipStatement_expressionAt ..) fun _ => ?_
    exact expressionStatement_expressionAt (by rw [TokenStream.isAt, word]; rfl)
  next =>
    refine .bind_any fun _ _ => .bind_any fun _ _ => .bind_any fun _ _ => ?_
    exact .bind_any fun _ _ => .bind_any fun _ _ => by rintro _ _ ⟨⟩ _ _ ⟨⟩
  next =>
    refine .bind_any fun _ _ => ?_
    rintro _ _ ⟨⟩ _ _ ⟨⟩
  next =>
    refine .bind_any fun _ _ => ?_
    rintro _ _ ⟨⟩ _ _ ⟨⟩
  next apart =>
    refine expressionStatement_expressionAt (Bool.eq_false_iff.mpr fun here => ?_)
    exact apart (TokenStream.kind_of_isAt here)

theorem statement_expressionAt : (statement level).Ensures stream (ExpressionAt level stream) := by
  unfold statement
  simp only [ensures_look]
  split
  next =>
    exact .ite (fun _ => plainStatement_expressionAt) fun _ => skipStatement_expressionAt ..
  next =>
    exact .ite (fun _ => skipStatement_expressionAt ..) fun _ => plainStatement_expressionAt

end Parser

namespace TokenKind

variable {kind : TokenKind} {depth next : Nat}

def isPlain : TokenKind → Bool
  | .identifier name => name != "class"
  | kind => !kind.isSlash

theorem isSlash_of_isPlain (plain : kind.isPlain) : kind.isSlash = false := by
  cases kind <;> simp_all [isPlain, isSlash, isPunctuator]

theorem isEnd_of_skim (taken : kind.skim depth = some next) : kind.isEnd = false := by
  cases kind <;> first | rfl | cases taken

theorem ne_unterminated_of_skim (taken : kind.skim depth = some next) (delimiter : Char) :
    kind ≠ .unterminated delimiter := by
  rintro rfl
  cases taken

end TokenKind

theorem kind_of_stop {text : String} {front more : List Token} {token : Token}
    (read : tokens (text ++ ";") = front ++ token :: more) (inside : token.kind.isEnd = false)
    (whole : ∀ delimiter, token.kind ≠ .unterminated delimiter)
    (stop : token.span.stop = text.utf8ByteSize + 1) :
    token.kind = .punctuator .semicolon ∧ token.span.start = text.utf8ByteSize := by
  obtain ⟨after, lists, left⟩ := Cursor.lists_of_tokens read (by simp)
  obtain ⟨passed, stands⟩ := lists.stands (Cursor.ofText_stands _)
  obtain rfl := Cursor.next_of_tokens left
  exact Cursor.next_of_stop stands inside whole stop

theorem stop_ne_of_skims {text : String} {front more : List Token} {last : Token}
    (balanced : skims 0 ((front ++ [last]).map (·.kind)) = some 0)
    (read : tokens (text ++ ";") = front ++ last :: more) :
    last.span.stop ≠ text.utf8ByteSize + 1 := by
  intro ends
  rw [List.map_append, skims_append, Option.bind_eq_some_iff] at balanced
  obtain ⟨depth, -, taken⟩ := balanced
  have taken : last.kind.skim depth = some 0 := by simpa [skims] using taken
  obtain ⟨kind, -⟩ := kind_of_stop read (TokenKind.isEnd_of_skim taken)
    (TokenKind.ne_unterminated_of_skim taken) ends
  simp only [kind, TokenKind.skim] at taken
  cases depth <;> cases taken

theorem Program.exists_of_single {source : String} {statement : Statement} {whole : Span}
    (parsed : Program.parse source = .ok ⟨[statement], whole⟩) :
    (TokenStream.ofText source).isAtEnd = false ∧
      ∃ rest, (Level.above (m := Parser) maxNesting).statement (.ofText source) =
        .ok (statement, rest) ∧
        rest.isAtEnd := by
  obtain ⟨final, read, -⟩ := Program.parse_eq_ok_iff.mp parsed
  obtain ⟨-, body⟩ | ⟨inside, first, rest, found, read⟩ := Parser.program_cases read
  next => cases body
  obtain ⟨ended, body⟩ | ⟨-, second, last, -, read⟩ := Parser.program_cases read
  next =>
    cases body
    exact ⟨inside, rest, found, ended⟩
  next =>
    have short := (Parser.program_prefix read).length_le
    simp at short

theorem Program.exists_closedLine {text : String} {value : Expr} {span whole : Span}
    (accepted : Program.parse (text ++ ";") = .ok ⟨[.expression value span], whole⟩)
    (closes : span.stop = text.utf8ByteSize + 1)
    (plain : ∀ token ∈ tokens (text ++ ";"), token.kind.isPlain) :
    ∃ front last, ClosedLine text front last := by
  obtain ⟨inside, rest, found, atEnd⟩ := Program.exists_of_single accepted
  have inSource := TokenStream.ofText_inSource (text ++ ";")
  obtain ⟨apart, close, expression, ended, rfl⟩ := Parser.statement_expressionAt found _ _ rfl
  obtain ⟨kinds, passes, balanced⟩ := Parser.expression_keeps (Level.above_keeps _) expression
  rw [← TokenStream.tokens_ofText] at plain
  obtain ⟨taken, split, rfl, stop⟩ := passes.tokens fun token member =>
    TokenKind.isSlash_of_isPlain (plain token member)
  have balanced : skims 0 (taken.map (·.kind)) = some 0 := by
    refine balanced (fun member => ?_) 0 le_rfl
    obtain ⟨token, member, word⟩ := List.mem_map.mp member
    have plain := plain token (split ▸ List.mem_append_left _ member)
    rw [word] at plain
    cases plain
  rw [TokenStream.tokens_ofText] at split
  have reached : rest.previousStop = text.utf8ByteSize + 1 := by
    have start := (inSource.start_lt_stop inside).trans_le inSource.stop_le_size
    have size : (text ++ ";").utf8ByteSize = text.utf8ByteSize + 1 := String.utf8ByteSize_append ..
    rw [inSource.size, size] at start
    have last : max rest.previousStop _ = text.utf8ByteSize + 1 := closes
    omega
  obtain rfl | ⟨front, last, rfl⟩ := taken.eq_nil_or_concat'
  next =>
    -- An expression takes a token: none starts with a semicolon or at the end of the input.
    cases passes
    obtain ⟨here, rfl⟩ | rfl := Parser.endStatement_cases ended
    next => exact absurd here (by simp [apart])
    next => exact absurd atEnd (by simp [inside])
  obtain ⟨here, rfl⟩ | rfl := Parser.endStatement_cases ended
  next =>
    have kind := TokenStream.kind_of_isAt here
    have left : close.tokens = [close.current, close.advance.current] := by
      rw [TokenStream.tokens_advance (by rw [kind]; rfl), TokenStream.tokens]
      exact congrArg _ (if_pos atEnd)
    rw [left] at split
    have place := kind_of_stop split (by rw [kind]; rfl) (by simp [kind]) reached
    refine ⟨front, last, balanced, close.current, close.advance.current, ?_, place.2⟩
    rw [split, List.append_assoc, List.singleton_append]
  next =>
    -- Otherwise the semicolon would be the last token of the expression, outside all brackets.
    have ends : last.span.stop = text.utf8ByteSize + 1 := by
      rw [← reached, stop, List.map_append]
      exact (List.getLastD_concat ..).symm
    rw [List.append_assoc, List.singleton_append] at split
    exact absurd ends (stop_ne_of_skims balanced split)

theorem TokenStream.spanFrom_of_origin (stream : TokenStream) {start : Span}
    (place : start.position = .origin) :
    stream.spanFrom start = ⟨0, stream.previousStop, 1, 1⟩ := by
  obtain ⟨offset, stop, line, column⟩ := start
  cases place
  exact congrArg (Span.mk 0 · 1 1) (Nat.max_zero _)

theorem TokenStream.Spells.inSource {source : String} {stream rest : TokenStream}
    {kinds : List TokenKind} (spells : stream.Spells kinds rest)
    (inSource : stream.InSource source) : rest.InSource source := by
  induction spells with
  | nothing => exact inSource
  | token line shorter spells ih => exact ih inSource.advance

namespace Parser

section Throws

variable {level : Level Parser} {stream rest : TokenStream} {kinds : List TokenKind}
variable (spells : stream.Spells (.identifier "throw" :: kinds) rest)
variable (taken : skims 0 kinds = some 0)
include spells taken

theorem statement_throw :
    statement level stream = (do
      loop (skipRound .throwStatement) (0, true)
      let span ← spanFrom stream.current.span
      return .unsupported .throwStatement span : Parser Statement) rest := by
  have skipped : statement level stream =
      skipStatement (m := Parser) .throwStatement stream.current.span stream := by
    rw [statement, look_bind]
    simp only [TokenStream.word?, spells.kind]
    rfl
  rw [skipped]
  change (loop (m := Parser) _ _ stream).bind _ = (loop (m := Parser) _ _ rest).bind _
  rw [skip_of_spells spells taken rfl]

theorem statement_throw_ends (newline : rest.current.newlineBefore)
    (ends : rest.previousKind.endsExpression) :
    statement level stream =
      .ok (.unsupported .throwStatement (rest.spanFrom stream.current.span), rest) := by
  have stops : skipRound (m := Parser) .throwStatement (0, true) rest = .ok (.inr (), rest) := by
    rw [skipRound, look_bind]
    simp [newline, ends]
  rw [statement_throw spells taken, bind_ok (loop_of_done stops)]
  rfl

theorem statement_throw_runs_on {source name : String} (inSource : stream.InSource source)
    (goesOn : rest.previousKind.endsExpression = false)
    (word : rest.current.kind = .identifier name) :
    (statement level).Ensures stream fun found _ => ∃ span,
      found = .unsupported .throwStatement span ∧ rest.previousStop < span.stop := by
  intro found after read
  rw [statement_throw spells taken] at read
  obtain ⟨⟨⟩, close, skipped, ended⟩ := exists_of_bind read
  cases ended
  refine ⟨_, rfl, ?_⟩
  have inSource := spells.inSource inSource
  -- The token of the next line is taken too.
  have round : skipRound (m := Parser) .throwStatement (0, true) rest =
      .ok (.inl (0, true), rest.advance) :=
    skipRound_of_skim (by simp [goesOn]) (by rw [word]; rfl) rfl
  obtain done | ⟨more, between, again, -, skipped⟩ := loop_cases skipped
  next =>
    rw [round] at done
    cases done
  next =>
    rw [round] at again
    cases again
    have later := skip_previousStop_le inSource.advance skipped
    calc rest.previousStop ≤ rest.current.span.start := inSource.previousStop_le
      _ < rest.current.span.stop := inSource.start_lt_stop (by rw [word]; rfl)
      _ ≤ after.previousStop := later
      _ ≤ _ := le_max_left ..

end Throws

end Parser

def EndsWithLine (text rest : String) (last : Token) (program : Program) : Prop :=
  ∃ statements whole, Program.parse (thrown text rest) =
      .ok ⟨.unsupported .throwStatement ⟨0, last.span.stop + 6, 1, 1⟩ :: statements, whole⟩ ∧
    bareStatements statements = bareStatements program.body

namespace ClosedLine

variable {text rest name : String} {front : List Token} {last : Token} {program : Program}
variable (closed : ClosedLine text front last)
variable (line : ∀ c ∈ text.toList, isLineTerminator c = false)
variable (word : (TokenStream.ofText rest).current.kind = .identifier name)
include closed line word

theorem endsWithLine (ends : last.kind.endsExpression)
    (parsed : Program.parse rest = .ok program) : EndsWithLine text rest last program := by
  obtain ⟨body, whole⟩ := program
  obtain ⟨final, read, -⟩ := Program.parse_eq_ok_iff.mp parsed
  obtain ⟨spells, place⟩ := closed.spells line rest
  have throws : (Level.above (m := Parser) maxNesting).statement (.ofText (thrown text rest)) =
      .ok (_, _) :=
    Parser.statement_throw_ends spells closed.1 rfl ends
  rw [TokenStream.spanFrom_of_origin _ place] at throws
  -- Behind the throw the next line is read as a program of its own, one line further down.
  obtain ⟨found, again, same⟩ := Parser.program_displaced ⟨text.utf8ByteSize + 7, 1⟩ read
    [.unsupported .throwStatement ⟨0, last.span.stop + 6, 1, 1⟩]
  have inside : (TokenStream.ofText (thrown text rest)).isAtEnd = false := by
    rw [TokenStream.isAtEnd, spells.kind]
    rfl
  have moved : ((TokenStream.ofText rest).displaced ⟨text.utf8ByteSize + 7, 1⟩).current.kind =
      .identifier name := word
  have looped := (Parser.program_of_statement inside throws spells.remaining_lt []).trans
    ((Parser.program_forgets moved _ _ _ _).trans again)
  exact ⟨found, _, Program.parse_eq_ok_iff.mpr ⟨_, looped, rfl⟩, same⟩

theorem not_endsWithLine (goesOn : last.kind.endsExpression = false) :
    ¬EndsWithLine text rest last program := by
  rintro ⟨statements, whole, parsed, -⟩
  obtain ⟨spells, place⟩ := closed.spells line rest
  obtain ⟨final, read, -⟩ := Program.parse_eq_ok_iff.mp parsed
  obtain ⟨-, body⟩ | ⟨-, first, after, found, read⟩ := Parser.program_cases read
  next => cases body
  obtain ⟨rfl, -⟩ := List.cons_prefix_cons.mp (Parser.program_prefix read)
  obtain ⟨span, same, further⟩ := Parser.statement_throw_runs_on spells closed.1
    (TokenStream.ofText_inSource _) goesOn word found
  cases same
  exact lt_irrefl _ further

end ClosedLine

theorem TokenStream.head?_tokens (stream : TokenStream) :
    stream.tokens.head? = some stream.current := by
  rw [tokens]
  split <;> rfl

/-- Take a line that is an expression statement with a semicolon behind it, and a program that
starts with a name on the next line. If the line has neither a slash nor a class, its tokens close
what they open. Whenever they do, the throw of the line covers just the line and the program follows
it if and only if the last token of the line is one after which a skipped statement can end. -/
theorem Program.throw_ends_with_line {text rest name : String} {value : Expr} {span whole : Span}
    {program : Program} (line : ∀ c ∈ text.toList, isLineTerminator c = false)
    (accepted : Program.parse (text ++ ";") = .ok ⟨[.expression value span], whole⟩)
    (closes : span.stop = text.utf8ByteSize + 1) (parsed : Program.parse rest = .ok program)
    (first : (tokens rest).head?.map (·.kind) = some (.identifier name)) :
    ((∀ token ∈ tokens (text ++ ";"), token.kind.isPlain) →
      ∃ front last, ClosedLine text front last) ∧
    ∀ front last, ClosedLine text front last →
      (EndsWithLine text rest last program ↔ last.kind.endsExpression) := by
  have word : (TokenStream.ofText rest).current.kind = .identifier name := by
    rw [← TokenStream.tokens_ofText, TokenStream.head?_tokens] at first
    exact Option.some.inj first
  refine ⟨Program.exists_closedLine accepted closes, fun front last closed => ?_⟩
  refine ⟨fun ended => ?_, fun ends => closed.endsWithLine line word ends parsed⟩
  by_contra goesOn
  exact closed.not_endsWithLine line word (by simpa using goesOn) ended

namespace Program

def closesAt (stop : Nat) : Program → Bool
  | ⟨[.expression _ span], _⟩ => span.stop == stop
  | _ => false

def throwsUpTo (stop : Nat) : Program → Bool
  | ⟨.unsupported .throwStatement span :: _, _⟩ => span.stop == stop
  | _ => false

theorem exists_of_closesAt {source : String} {stop : Nat}
    (evaluated : (parse source).toOption.any (closesAt stop)) :
    ∃ value span whole, parse source = .ok ⟨[.expression value span], whole⟩ ∧
      span.stop = stop := by
  cases parsed : parse source with
  | error error =>
    rw [parsed] at evaluated
    cases evaluated
  | ok program =>
    rw [parsed] at evaluated
    change program.closesAt stop at evaluated
    unfold closesAt at evaluated
    split at evaluated
    next value span whole => exact ⟨value, span, whole, rfl, eq_of_beq evaluated⟩
    next => cases evaluated

end Program

theorem isLineTerminator_of_all {text : String}
    (evaluated : text.toList.all (!isLineTerminator ·)) :
    ∀ c ∈ text.toList, isLineTerminator c = false := by
  simpa using evaluated

theorem TokenStream.head?_of_word? {source name : String}
    (found : (ofText source).word? = some name) :
    (EventLoop.tokens source).head?.map (·.kind) = some (.identifier name) := by
  rw [← tokens_ofText, head?_tokens, Option.map_some]
  unfold word? at found
  split at found
  next kind =>
    cases found
    rw [kind]
  next => cases found

theorem thrownMember_ends_with_line :
    ∃ program front last, Program.parse "foo(); b" = .ok program ∧
      ClosedLine "g(1)[k] /* é */" front last ∧
      EndsWithLine "g(1)[k] /* é */" "foo(); b" last program := by
  obtain ⟨value, span, whole, accepted, closes⟩ := Program.exists_of_closesAt
    (show (Program.parse ("g(1)[k] /* é */" ++ ";")).toOption.any (Program.closesAt 17) by
      decide +kernel)
  obtain ⟨program, parsed⟩ := Program.exists_of_isOk
    (show (Program.parse "foo(); b").isOk by decide +kernel)
  have first := TokenStream.head?_of_word?
    (show (TokenStream.ofText "foo(); b").word? = some "foo" by decide +kernel)
  obtain ⟨exists_closed, ends⟩ :=
    Program.throw_ends_with_line (isLineTerminator_of_all (by decide)) accepted closes parsed first
  obtain ⟨front, last, closed⟩ := exists_closed (by decide +kernel)
  refine ⟨program, front, last, parsed, closed, (ends front last closed).mpr ?_⟩
  have evaluated : (tokens ("g(1)[k] /* é */" ++ ";")).reverse[2]?.any (·.kind.endsExpression) := by
    decide +kernel
  obtain ⟨-, semicolon, final, read, -⟩ := closed
  rw [read] at evaluated
  simpa using evaluated

/-- The line is an expression statement with a semicolon behind it and the next one starts with the
name, but the throw of the line does not stop where the line does. -/
def RunsOn (text rest name : String) : Prop :=
  (∀ c ∈ text.toList, isLineTerminator c = false) ∧
    (∃ value span whole, Program.parse (text ++ ";") = .ok ⟨[.expression value span], whole⟩ ∧
      span.stop = text.utf8ByteSize + 1) ∧
    (∃ program, Program.parse rest = .ok program) ∧
    (tokens rest).head?.map (·.kind) = some (.identifier name) ∧
    ∀ statements whole, Program.parse (thrown text rest) ≠
      .ok ⟨.unsupported .throwStatement ⟨0, text.utf8ByteSize + 6, 1, 1⟩ :: statements, whole⟩

theorem runsOn_of_evaluated {text rest name : String}
    (line : text.toList.all (!isLineTerminator ·))
    (closes : (Program.parse (text ++ ";")).toOption.any (Program.closesAt (text.utf8ByteSize + 1)))
    (accepted : (Program.parse rest).isOk) (word : (TokenStream.ofText rest).word? = some name)
    (runsOn : (Program.parse (thrown text rest)).toOption.all
      (!Program.throwsUpTo (text.utf8ByteSize + 6) ·)) : RunsOn text rest name := by
  refine ⟨isLineTerminator_of_all line, Program.exists_of_closesAt closes,
    Program.exists_of_isOk accepted, TokenStream.head?_of_word? word,
    fun statements whole parsed => ?_⟩
  rw [parsed] at runsOn
  simp [Except.toOption, Program.throwsUpTo] at runsOn

theorem throw_runs_on :
    RunsOn "f()" "foo()" "foo" ∧ RunsOn "a.new" "foo()" "foo" ∧ RunsOn "/(/" "foo()" "foo" := by
  refine ⟨?call, ?member, ?regexp⟩ <;>
    exact runsOn_of_evaluated (by decide) (by decide +kernel) (by decide +kernel)
      (by decide +kernel) (by decide +kernel)

end EventLoop
