import EventLoop.Proofs.LoggedReading

set_option autoImplicit false

/-!
# The grammar with a log

Every parser of the grammar leaves the counter as it was, also when it fails, except for the links
of a chain that has not ended.
-/

namespace EventLoop

open LoggedParser EventLoop.Parser

structure Level.Agrees (strict : Prop) (logged : Level LoggedParser) (level : Level Parser)
    (depth : Nat) : Prop where
  statement (stream : TokenStream) :
    LoggedParser.Agrees strict logged.statement level.statement stream depth
  assignment (stream : TokenStream) :
    LoggedParser.Agrees strict logged.assignment level.assignment stream depth
  unary (stream : TokenStream) : LoggedParser.Agrees strict logged.unary level.unary stream depth
  operators (left : Expr) (minimum : Nat) (start : Span) (stream : TokenStream) :
    Rises strict (logged.operators left minimum start) (level.operators left minimum start) stream
      depth
  links (operand : Expr) (start : Span) (stream : TokenStream) :
    Rises strict (logged.links operand start) (level.links operand start) stream depth
  members (stream : TokenStream) : Rises strict logged.members level.members stream depth

namespace LoggedParser

variable {strict : Prop} {α : Type} {stream : TokenStream} {depth : Nat} {opened : List Punctuator}
  {logged : Level LoggedParser} {level : Level Parser} {deeper : Option (Level LoggedParser)}
  {deeper' : Option (Level Parser)}

inductive AgreesBelow (strict : Prop) :
    Option (Level LoggedParser) → Option (Level Parser) → Nat → Prop where
  | deeper {logged : Level LoggedParser} {level : Level Parser} {depth : Nat}
      (below : depth < maxNesting) (agrees : Level.Agrees strict logged level (depth + 1)) :
      AgreesBelow strict (some logged) (some level) depth
  | limit (logged : Option (Level LoggedParser)) : AgreesBelow strict logged none maxNesting

theorem Follows.descend {σ : Type} {step : σ → Piece → σ → Prop} {state : σ}
    {next : Level LoggedParser → LoggedParser α} {next' : Level Parser → Parser α}
    {done : α → TokenStream → Nat → σ → Prop} {failed : Nat → Prop}
    (below : AgreesBelow strict deeper deeper' depth) (fails : failed depth)
    (goes : ∀ logged level, Level.Agrees strict logged level (depth + 1) →
      Follows strict step (next logged) (next' level) stream (depth + 1) state done failed) :
    Follows strict step (NestedParser.descend deeper >>= next)
      (NestedParser.descend deeper' >>= next') stream depth state done failed := by
  intro peak pieces low
  cases below with
  | @deeper logged _ _ below agrees =>
    have entered : LoggedParser.descend (some logged) stream ⟨depth, peak, pieces⟩ =
        (.ok (logged, stream), ⟨depth + 1, max peak (depth + 1), pieces⟩) := by
      simp [LoggedParser.descend, ReadingLog.deeper, below]
    obtain ⟨now, highest, more, read, bound, ends⟩ :=
      goes _ _ agrees (max peak (depth + 1)) pieces (max_le low below)
    exact ⟨now, highest, more, (bind_of_ok entered next).trans read, bound, ends⟩
  | limit =>
    have refused : LoggedParser.descend deeper stream ⟨maxNesting, peak, pieces⟩ =
        (.error (stream.error .tooDeep), ⟨maxNesting, peak, pieces⟩) := by
      simp [LoggedParser.descend]
    refine ⟨maxNesting, peak, [], ?_, low, .failed fails⟩
    rw [List.append_nil]
    exact bind_of_error refused next

theorem Agrees.nested {body : Level LoggedParser → LoggedParser α} {body' : Level Parser → Parser α}
    (below : AgreesBelow strict deeper deeper' depth)
    (agrees : ∀ logged level, Level.Agrees strict logged level (depth + 1) →
      Agrees strict (body logged) (body' level) stream (depth + 1)) :
    Agrees strict (nested deeper body) (nested deeper' body') stream depth := by
  intro opened
  refine Follows.descend below rfl fun logged level levels => ?_
  intro peak pieces low
  obtain ⟨now, highest, more, read, bound, ends⟩ :=
    agrees logged level levels opened peak pieces low
  refine ⟨now - 1, highest, more, ?_, bound, ?_⟩
  · rw [leave, read]
  · generalize body' level stream = result at ends
    cases ends with
    | failed same => exact .failed (by rw [same, Nat.add_sub_cancel])
    | done takes same => exact .done takes ⟨by rw [same.1, Nat.add_sub_cancel], same.2⟩

theorem skipGroupRound_follows {count : Nat} (begun : strict → count = 0 →
      ∃ mark, stream.current.kind = .punctuator mark ∧ mark.isOpening) :
    Follows strict Piece.Counts (skipGroupRound count) (skipGroupRound count) stream
      depth count (fun result _ now after => now = depth ∧
        result.elim (fun next => after = next ∧ (strict → next ≠ 0)) fun _ => after = 0)
      (· = depth) := by
  have positive {kind : TokenKind} (found : stream.current.kind = kind)
      (other : ∀ mark, mark.isOpening → kind ≠ .punctuator mark) (asked : strict) : count ≠ 0 := by
    intro none
    obtain ⟨mark, here, opens⟩ := begun asked none
    exact other mark opens (found.symm.trans here)
  refine .look ?_
  cases kind : stream.current.kind with
  | endOfInput => exact .fail _ rfl
  | invalid => exact .unexpected _ rfl
  | unterminated => exact .unexpected _ rfl
  | punctuator mark =>
    by_cases opening : mark.isOpening
    next =>
      refine .token (fun _ => kind) rfl (.token (countBracket_of_isOpening opening count)) ?_
      exact .ite (fun _ => .pure ⟨rfl, rfl, by simp⟩) fun other => absurd opening other
    have positive := positive kind fun other opens same => opening (by cases same; exact opens)
    by_cases closing : mark.isClosing
    next =>
      have taken (asked : strict) : stream.current.kind.isEnd = false ∧
          Piece.Counts count (.token stream.current.kind) (count - 1) := by
        obtain ⟨outer, rfl⟩ := Nat.exists_eq_succ_of_ne_zero (positive asked)
        rw [kind]
        exact ⟨rfl, .token (countBracket_of_isClosing opening closing outer)⟩
      refine .advance taken (.ite (fun other => absurd other opening) fun _ =>
        .ite (fun _ => ?_) fun other => absurd closing other)
      refine .ite (fun last => .pure ⟨rfl, ?_⟩) fun further => .pure ⟨rfl, rfl, by omega⟩
      exact Nat.sub_eq_zero_of_le last
    next =>
      have plain : (TokenKind.punctuator mark).isBracket = false := by
        simp [TokenKind.isBracket, opening, closing]
      refine .token (fun _ => kind) rfl (.token (countBracket_of_not_isBracket plain count)) ?_
      exact .ite (fun other => absurd other opening) fun _ =>
        .ite (fun other => absurd other closing) fun _ => .pure ⟨rfl, rfl, positive⟩
  | _ =>
    have positive := positive kind fun _ _ => by rintro ⟨⟩
    exact .token (fun _ => kind) rfl (.token rfl) (.pure ⟨rfl, rfl, positive⟩)

theorem skipGroup_agrees {mark : Punctuator}
    (here : strict → stream.current.kind = .punctuator mark) (opening : mark.isOpening) :
    Agrees strict skipGroup skipGroup stream depth := by
  intro opened
  have skipped : Follows strict Piece.Counts (loop skipGroupRound 0)
      (loop skipGroupRound 0) stream depth 0
      (fun _ _ now after => now = depth ∧ after = 0) (· = depth) := by
    refine .loop (fun count now last after => last = depth ∧ after = count ∧ (strict → count = 0 →
      ∃ mark, now.current.kind = .punctuator mark ∧ mark.isOpening)) ?_ ?_
      ⟨rfl, rfl, fun asked _ => ⟨mark, here asked, opening⟩⟩
    · rintro count now _ _ ⟨rfl, rfl, begun⟩
      refine (skipGroupRound_follows begun).mono ?_ fun _ same => same
      rintro (next | _) rest _ after ⟨rfl, taken⟩
      · exact ⟨rfl, taken.1, fun asked none => absurd none (taken.2 asked)⟩
      · exact ⟨rfl, taken⟩
    · rintro _ _ _ _ ⟨rfl, -⟩
      rfl
  refine .skip .group skipped ?_
  rintro _ _ _ _ pieces ⟨rfl, rfl⟩
  exact ⟨⟨rfl, rfl⟩, fun _ path => path.openCount_eq⟩

theorem skipRound_follows (kind : NodeKind) (count : Nat) (consumed : Bool) :
    Follows strict Piece.Counts (skipRound kind (count, consumed))
      (skipRound kind (count, consumed)) stream depth count
      (fun result _ now after => now = depth ∧
        result.elim (fun next => after = next.1) fun _ => after = 0) (· = depth) := by
  -- All branches that take a token end in the same way, with their own count of open brackets.
  have token {found : TokenKind} {next : Nat} {boundary : Bool} (here : stream.current.kind = found)
      (inside : found.isEnd = false) (taken : countBracket count found = some next)
      (closed : boundary = true → next = 0) :
      Follows strict Piece.Counts (skipToken kind next boundary)
        (skipToken kind next boundary) stream depth count
        (fun result _ now after => now = depth ∧
          result.elim (fun next => after = next.1) fun _ => after = 0) (· = depth) := by
    refine .token (fun _ => here) inside (.token taken) (.look ?_)
    refine .ite (fun ends => .pure ⟨rfl, ?_⟩) fun _ => .pure ⟨rfl, rfl⟩
    rw [Bool.and_eq_true] at ends
    exact closed ends.1
  refine .look (.ite (fun ends => .pure ⟨rfl, ?_⟩) fun _ => ?_)
  · simp only [Bool.and_eq_true] at ends
    exact eq_of_beq ends.1.1.1
  cases found : stream.current.kind with
  | endOfInput => exact .ite (fun closed => .pure ⟨rfl, eq_of_beq closed⟩) fun _ => .fail _ rfl
  | invalid => exact .unexpected _ rfl
  | unterminated => exact .unexpected _ rfl
  | punctuator mark =>
    refine .ite (fun opening => ?_) fun opening => .ite (fun closing => ?_) fun closing => ?_
    · exact token found rfl (countBracket_of_isOpening opening count) (by simp)
    · cases count with
      | zero => exact .ite (fun _ => .pure ⟨rfl, rfl⟩) fun _ => .unexpected _ rfl
      | succ outer =>
        exact token found rfl (countBracket_of_isClosing opening closing outer)
          (by simp +contextual)
    · have plain : (TokenKind.punctuator mark).isBracket = false := by
        simp [TokenKind.isBracket, opening, closing]
      exact token found rfl (countBracket_of_not_isBracket plain count) (by simp +contextual)
  | _ => exact token found rfl rfl (by simp)

theorem skipStatement_agrees (kind : NodeKind) (start : Span) :
    Agrees strict (skipStatement kind start) (skipStatement kind start) stream depth := by
  have skipped : Follows strict Piece.Counts (loop (skipRound kind) (0, false))
      (loop (skipRound kind) (0, false)) stream depth 0
      (fun _ _ now after => now = depth ∧ after = 0) (· = depth) := by
    refine .loop (fun state _ now after => now = depth ∧ after = state.1) ?_ ?_ ⟨rfl, rfl⟩
    · rintro ⟨count, consumed⟩ now _ _ ⟨rfl, rfl⟩
      refine (skipRound_follows kind _ consumed).mono ?_ fun _ same => same
      rintro (next | _) rest _ after ⟨rfl, taken⟩
      all_goals exact ⟨rfl, taken⟩
    · rintro _ _ _ _ ⟨rfl, -⟩
      rfl
  refine fun opened => Agrees.bind (fun opened => ?_) rfl fun _ _ => .spanFrom (.pure ⟨rfl, rfl⟩)
  refine .skip .statement skipped ?_
  rintro _ _ _ _ pieces ⟨rfl, rfl⟩
  exact ⟨⟨rfl, rfl⟩, fun _ path => path.openCount_eq⟩

theorem classHead_follows :
    Follows strict Piece.Matches classHead classHead stream depth opened
      (fun _ rest now closed => (now = depth ∧ closed = opened) ∧ rest.isAt .braceOpen)
      (· = depth) := by
  have skipped : Follows strict Piece.Braceless (loop classHeadRound ())
      (loop classHeadRound ()) stream depth ()
      (fun _ rest now _ => now = depth ∧ rest.isAt .braceOpen) (· = depth) := by
    refine .loop (fun _ _ now _ => now = depth) ?_ (fun _ _ _ _ same => same) rfl
    rintro ⟨⟩ now _ ⟨⟩ rfl
    refine .isAt (.ite (fun brace => .pure ⟨rfl, brace⟩) fun other => .look ?_)
    refine .ite (fun _ => .fail_bind rfl) fun inside => ?_
    rw [Bool.not_eq_true] at other inside
    exact .advance (fun _ => ⟨inside, .token other⟩) (.pure rfl)
  refine .skip .classHead skipped ?_
  rintro _ _ _ _ pieces ⟨rfl, brace⟩
  exact ⟨⟨⟨rfl, rfl⟩, brace⟩, fun _ path => path.braceless⟩

theorem identifier_agrees : Agrees strict identifier identifier stream depth := by
  refine fun opened => .look ?_
  cases kind : stream.current.kind with
  | identifier name =>
    refine .ite (fun _ => .unexpected _ rfl) fun _ => ?_
    exact .token (fun _ => kind) rfl (.token rfl) (.pure ⟨rfl, rfl⟩)
  | _ => exact .unexpected _ rfl

theorem propertyName_agrees : Agrees strict propertyName propertyName stream depth := by
  refine fun opened => .look ?_
  cases kind : stream.current.kind with
  | identifier | keyword => exact .token (fun _ => kind) rfl (.token rfl) (.pure ⟨rfl, rfl⟩)
  | _ => exact .unexpected _ rfl

theorem endStatement_agrees : Agrees strict endStatement endStatement stream depth := by
  refine fun opened => .eat (.token rfl) (fun _ => .pure ⟨rfl, rfl⟩) fun _ => .look ?_
  exact .ite (fun _ => .pure ⟨rfl, rfl⟩) fun _ => .unexpected _ rfl

theorem unsupported_agrees (kind : NodeKind) (start : Span) :
    Agrees strict (unsupported kind start) (unsupported kind start) stream depth :=
  fun _ => .unsupported ⟨rfl, rfl⟩

theorem Agrees.loop {β : Type} {round : α → LoggedParser (α ⊕ β)} {round' : α → Parser (α ⊕ β)}
    (rounds : ∀ value stream, Agrees strict (round value) (round' value) stream depth) (value : α) :
    Agrees strict (loop round value) (loop round' value) stream depth := by
  intro opened
  refine .loop (fun _ _ now closed => now = depth ∧ closed = opened) ?_ ?_ ⟨rfl, rfl⟩
  · rintro value stream _ _ ⟨rfl, rfl⟩
    refine (rounds value stream _).mono ?_ fun _ same => same
    rintro (_ | _) rest now after same <;> exact same
  · rintro _ _ _ _ ⟨rfl, -⟩
    rfl

def Closes (strict : Prop) {β : Type} (left : Punctuator) (logged : LoggedParser (α ⊕ β))
    (parser : Parser (α ⊕ β)) (stream : TokenStream) (depth : Nat) : Prop :=
  ∀ opened, Follows strict Piece.Matches logged parser stream depth (left :: opened)
    (fun result _ now closed => now = depth ∧
      closed = result.elim (fun _ => left :: opened) fun _ => opened) (· = depth)

theorem Closes.loop {β : Type} {left : Punctuator} {round : α → LoggedParser (α ⊕ β)}
    {round' : α → Parser (α ⊕ β)}
    (rounds : ∀ value stream, Closes strict left (round value) (round' value) stream depth)
    (value : α) (opened : List Punctuator) :
    Follows strict Piece.Matches (loop round value) (loop round' value) stream depth
      (left :: opened) (fun _ _ now closed => now = depth ∧ closed = opened) (· = depth) := by
  refine .loop (fun _ _ now closed => now = depth ∧ closed = left :: opened) ?_ ?_ ⟨rfl, rfl⟩
  · rintro value stream _ _ ⟨rfl, rfl⟩
    refine (rounds value stream opened).mono ?_ fun _ same => same
    rintro (_ | _) rest now after same <;> exact same
  · rintro _ _ _ _ ⟨rfl, -⟩
    rfl

theorem list_agrees {item : LoggedParser α} {item' : Parser α}
    (agrees : ∀ stream, Agrees strict item item' stream depth) :
    Agrees strict (list item) (list item') stream depth := by
  refine fun opened => .expect (.token rfl) rfl fun _ =>
    Closes.loop (fun items stream => ?_) [] opened
  refine fun opened => .eat (.token rfl) (fun _ => .pure ⟨rfl, rfl⟩) fun _ => ?_
  refine (agrees _).bind rfl fun value rest => ?_
  refine .eat (.token rfl) (fun _ => .pure ⟨rfl, rfl⟩) fun _ => ?_
  exact .expect (.token rfl) rfl fun _ => .pure ⟨rfl, rfl⟩

theorem params_agrees : Agrees strict params params stream depth := by
  refine list_agrees fun stream opened => .isAtIdentifier ?_
  exact .ite (fun _ => identifier_agrees opened) fun _ => .fail_bind rfl

theorem functionName_agrees (form : FunctionForm) :
    Agrees strict (functionName form) (functionName form) stream depth := by
  refine fun opened => .isAtIdentifier (.ite (fun _ => identifier_agrees.map _ opened) fun _ => ?_)
  exact .ite (fun _ => .unexpected _ rfl) fun _ => .pure ⟨rfl, rfl⟩

theorem arrowParams_agrees : Agrees strict arrowParams arrowParams stream depth := by
  refine fun opened => .isAt (.ite (fun _ => params_agrees opened) fun _ => ?_)
  exact identifier_agrees.bind rfl fun id _ => .pure ⟨rfl, rfl⟩

section Grammar

variable (agrees : Level.Agrees strict logged level depth)
include agrees

theorem block_agrees : Agrees strict (block logged) (block level) stream depth := by
  have round (body : List Statement) (stream : TokenStream) :
      Closes strict .braceOpen (blockRound logged body) (blockRound level body) stream
        depth := by
    refine fun opened => .eat (.token rfl) (fun _ => .pure ⟨rfl, rfl⟩) fun _ => .look ?_
    refine .ite (fun _ => .fail_bind rfl) fun _ => ?_
    exact (agrees.statement _).bind rfl fun statement rest => .pure ⟨rfl, rfl⟩
  refine fun opened => .start (.expect (.token rfl) rfl fun _ => ?_)
  refine (Closes.loop round [] opened).bind ?_
  rintro body rest _ _ ⟨rfl, rfl⟩
  exact .spanFrom (.pure ⟨rfl, rfl⟩)

theorem functionRest_agrees (form : FunctionForm) (start : Span) :
    Agrees strict (functionRest logged form start) (functionRest level form start) stream
      depth := by
  refine fun opened => (functionName_agrees form).bind rfl fun id _ => ?_
  refine params_agrees.bind rfl fun params _ => ?_
  exact (block_agrees agrees).bind rfl fun block _ => .spanFrom (.pure ⟨rfl, rfl⟩)

theorem function_agrees (form : FunctionForm) :
    Agrees strict (function logged form) (function level form) stream depth := by
  refine fun opened => .start (.look (.ite (fun word => ?_) fun _ => .unexpected_bind rfl))
  refine .token (fun _ => TokenKind.eq_of_isKeyword word) rfl (.token rfl) ?_
  exact functionRest_agrees agrees form _ opened

theorem arrowBody_agrees :
    Agrees strict (arrowBody logged) (arrowBody level) stream depth := by
  refine fun opened => .isAt (.ite (fun _ => ?_) fun _ => (agrees.assignment _).map _ opened)
  exact (block_agrees agrees).bind rfl fun block _ => .pure ⟨rfl, rfl⟩

theorem arrowFunction_agrees :
    Agrees strict (arrowFunction logged) (arrowFunction level) stream depth := by
  refine fun opened => .start (arrowParams_agrees.bind rfl fun params _ => ?_)
  refine .expect (.token rfl) rfl fun _ => (arrowBody_agrees agrees).bind rfl fun body _ => ?_
  exact .spanFrom (.pure ⟨rfl, rfl⟩)

theorem expression_agrees :
    Agrees strict (expression logged) (expression level) stream depth := by
  have round (items : List Expr) (stream : TokenStream) :
      Agrees strict (sequenceRound logged items) (sequenceRound level items) stream depth := by
    refine fun opened => .eat (.token rfl) (fun _ => ?_) fun _ => .pure ⟨rfl, rfl⟩
    exact (agrees.assignment _).bind rfl fun item _ => .pure ⟨rfl, rfl⟩
  refine fun opened => .start ((agrees.assignment _).bind rfl fun first _ => .isAt ?_)
  refine .ite (fun _ => ?_) fun _ => .pure ⟨rfl, rfl⟩
  exact (Agrees.loop round [first]).bind rfl fun items _ => .spanFrom (.pure ⟨rfl, rfl⟩)

theorem functionExpression_agrees (word : strict → stream.current.kind = .keyword .functionWord) :
    Agrees strict (functionExpression logged) (functionExpression level) stream depth := by
  refine fun opened => .start (.token word rfl (.token rfl) (.eat (.token rfl) (fun _ => ?_) ?_))
  · exact (functionRest_agrees agrees _ _).discard.bind rfl fun _ _ => unsupported_agrees _ _ _
  · exact fun _ => (functionRest_agrees agrees _ _).bind rfl fun node _ => .pure ⟨rfl, rfl⟩

theorem parenthesised_agrees (paren : strict → stream.current.kind = .punctuator .parenOpen) :
    Agrees strict (parenthesised logged) (parenthesised level) stream depth := by
  refine fun opened => .token paren rfl (.token rfl) ?_
  refine (expression_agrees agrees).bind rfl fun inner _ => ?_
  exact .expect (.token rfl) rfl fun _ => .pure ⟨rfl, rfl⟩

end Grammar

theorem group_agrees {mark : Punctuator} (here : strict → stream.current.kind = .punctuator mark)
    (opening : mark.isOpening) (kind : NodeKind) (start : Span) :
    Agrees strict (group kind start) (group kind start) stream depth :=
  fun _ => (skipGroup_agrees here opening).bind rfl fun _ _ => .unsupported ⟨rfl, rfl⟩

theorem literal_agrees (value : Literal)
    (plain : strict → stream.current.kind.isEnd = false ∧ stream.current.kind.isBracket = false) :
    Agrees strict (literal value) (literal value) stream depth :=
  fun _ => .start (.plainToken plain (.pure ⟨rfl, rfl⟩))

theorem wordOperand_agrees {name : String}
    (word : strict → stream.current.kind = .identifier name) :
    Agrees strict (wordOperand name) (wordOperand name) stream depth := by
  refine fun opened => .start ?_
  cases reservedOperand? name with
  | none => exact identifier_agrees.bind rfl fun id _ => .pure ⟨rfl, rfl⟩
  | some kind =>
    cases kind with
    | classExpression =>
      refine classHead_follows.bind ?_
      rintro _ rest _ _ ⟨⟨rfl, rfl⟩, brace⟩
      exact group_agrees (fun _ => TokenStream.kind_of_isAt brace) rfl _ _ _
    | _ => exact .token word rfl (.token rfl) (.unsupported ⟨rfl, rfl⟩)

theorem regexp_agrees (slash : strict → stream.current.kind.isSlash) :
    Agrees strict regexp regexp stream depth := by
  intro opened peak pieces low
  unfold regexp
  rw [LoggedParser.start_bind, Parser.start_bind, LoggedParser.rescan_bind, Parser.rescan_bind,
    LoggedParser.look_bind, Parser.look_bind]
  obtain ⟨pattern, flags, kind⟩ | kind := stream.rescan_kind <;> rw [kind]
  · refine ⟨depth, peak, [.token stream.rescan.current.kind], rfl, low, ?_⟩
    refine .done (fun asked => ⟨?_, .cons (.token ?_) (.nil opened)⟩) ⟨rfl, rfl⟩
    · exact .regexp (slash asked) (.nothing stream.rescan.advance)
    · rw [kind]
      rfl
  · refine ⟨depth, peak, [], ?_, low, .failed rfl⟩
    rw [List.append_nil]
    rfl

section Chains

variable {assignment : LoggedParser Expr} {assignment' : Parser Expr}
  (assigns : ∀ stream, Agrees strict assignment assignment' stream depth)
include assigns

theorem argument_agrees : Agrees strict (argument assignment) (argument assignment') stream
    depth := by
  refine fun opened => .start (.eat (.token rfl) (fun _ => ?_) fun _ => assigns stream opened)
  exact (assigns _).discard.bind rfl fun _ _ => unsupported_agrees _ _ _

theorem arguments_agrees : Agrees strict (arguments assignment) (arguments assignment') stream
    depth :=
  list_agrees fun _ => argument_agrees assigns

theorem optionalLink_agrees :
    Agrees strict (optionalLink assignment) (optionalLink assignment') stream depth := by
  refine fun opened => .isAt (.ite (fun _ => ?_) fun _ => .isAt ?_)
  · exact (arguments_agrees assigns).discard opened
  · refine .ite (fun bracket => ?_) fun _ => propertyName_agrees.discard opened
    exact skipGroup_agrees (fun _ => TokenStream.kind_of_isAt bracket) rfl opened

end Chains

section Grammar

variable (agrees : Level.Agrees strict logged level depth)
include agrees

theorem primary_agrees : Agrees strict (primary logged) (primary level) stream depth := by
  refine fun opened => .start (.look ?_)
  cases kind : stream.current.kind with
  | number | string => exact literal_agrees _ (fun _ => by rw [kind]; exact ⟨rfl, rfl⟩) opened
  | identifier name => exact wordOperand_agrees (fun _ => kind) opened
  | keyword word =>
    cases word
    case functionWord => exact functionExpression_agrees agrees (fun _ => kind) opened
    case trueWord | falseWord | nullWord =>
      exact literal_agrees _ (fun _ => by rw [kind]; exact ⟨rfl, rfl⟩) opened
    all_goals exact .unexpected _ rfl
  | punctuator mark =>
    cases mark
    case parenOpen => exact parenthesised_agrees agrees (fun _ => kind) opened
    case bracketOpen | braceOpen => exact group_agrees (fun _ => kind) rfl _ _ opened
    case slash | slashAssign => exact regexp_agrees (fun _ => by rw [kind]; rfl) opened
    all_goals exact .unexpected _ rfl
  | template => exact .token (fun _ => kind) rfl (.token rfl) (unsupported_agrees _ _ opened)
  | _ => exact .unexpected _ rfl

theorem leftHandSide_agrees :
    Agrees strict (leftHandSide logged) (leftHandSide level) stream depth := by
  intro opened
  refine .start (.look (.ite (fun word => ?_) fun _ => ?_))
  · refine .token (fun _ => TokenKind.eq_of_isKeyword word) rfl (.token rfl) ?_
    refine (primary_agrees agrees).discard.bind rfl fun _ _ => ?_
    refine (agrees.members _).chain.bind rfl fun _ rest => .isAt (.ite (fun _ => ?_) fun _ => ?_)
    · refine (arguments_agrees agrees.assignment).discard.bind rfl fun _ _ => ?_
      exact (unsupported_agrees _ _).bind rfl fun _ _ => (agrees.links _ _ _).chain opened
    · exact (unsupported_agrees _ _).bind rfl fun _ _ => (agrees.links _ _ _).chain opened
  · exact (primary_agrees agrees).bind rfl fun operand _ => (agrees.links operand _ _).chain opened

omit agrees in
theorem update_agrees (op : UpdateOp) (order : UpdateOrder) (argument : Expr) (start : Span) :
    Agrees strict (update op order argument start) (update op order argument start) stream
      depth := by
  intro opened
  cases argument with
  | identifier target => exact .spanFrom (.pure ⟨rfl, rfl⟩)
  | _ => exact .unsupported ⟨rfl, rfl⟩

theorem postfixed_agrees (start : Span) :
    Agrees strict (postfixed logged start) (postfixed level start) stream depth := by
  refine fun opened => (leftHandSide_agrees agrees).bind rfl fun operand rest => .look ?_
  cases found : UpdateOp.ofToken? rest.current.kind with
  | none => exact .pure ⟨rfl, rfl⟩
  | some op =>
    have plain := TokenKind.plain_of_eq_some found rfl
    refine .ite (fun _ => .pure ⟨rfl, rfl⟩) fun _ => ?_
    exact .plainToken (fun _ => plain) (update_agrees op _ operand start opened)

theorem unary_agrees : Agrees strict (unary logged) (unary level) stream depth := by
  refine fun opened => .start (.look ?_)
  dsimp only
  cases unary : UnaryOp.ofToken? stream.current.kind with
  | some op =>
    have plain := TokenKind.plain_of_eq_some unary rfl
    refine .plainToken (fun _ => plain) ?_
    exact (agrees.unary _).bind rfl fun argument _ => .spanFrom (.pure ⟨rfl, rfl⟩)
  | none =>
    cases update : UpdateOp.ofToken? stream.current.kind with
    | some op =>
      have plain := TokenKind.plain_of_eq_some update rfl
      refine .plainToken (fun _ => plain) ?_
      exact (agrees.unary _).bind rfl fun argument _ => update_agrees op _ argument _ opened
    | none =>
      refine .ite (fun word => ?_) fun _ => postfixed_agrees agrees _ opened
      refine .token (fun _ => TokenKind.eq_of_isKeyword word) rfl (.token rfl) ?_
      exact (agrees.unary _).discard.bind rfl fun _ _ => unsupported_agrees _ _ opened

theorem binary_agrees (minimum : Nat) :
    Agrees strict (binary logged minimum) (binary level minimum) stream depth := by
  refine fun opened => .start ((agrees.unary _).bind rfl fun left _ => ?_)
  exact (agrees.operators left minimum _ _).chain opened

theorem conditionalTail_agrees (test : Expr) (start : Span) :
    Agrees strict (conditionalTail logged test start) (conditionalTail level test start)
      stream depth := by
  refine fun opened => .eat (.token rfl) (fun _ => ?_) fun _ => .pure ⟨rfl, rfl⟩
  refine (agrees.assignment _).bind rfl fun consequent _ => .expect (.token rfl) rfl fun _ => ?_
  exact (agrees.assignment _).bind rfl fun alternate _ => .spanFrom (.pure ⟨rfl, rfl⟩)

theorem assignmentTail_agrees (left : Expr) (start : Span) :
    Agrees strict (assignmentTail logged left start) (assignmentTail level left start) stream
      depth := by
  refine fun opened => .look ?_
  cases found : AssignOp.ofToken? stream.current.kind with
  | none => exact .pure ⟨rfl, rfl⟩
  | some op =>
    have plain := TokenKind.plain_of_eq_some found rfl
    refine .plainToken (fun _ => plain) ?_
    refine (agrees.assignment _).bind rfl fun value _ => ?_
    cases left with
    | identifier target => exact .spanFrom (.pure ⟨rfl, rfl⟩)
    | _ => exact .unsupported ⟨rfl, rfl⟩

theorem tails_agrees (test : Expr) (start : Span) :
    Agrees strict (tails logged test start) (tails level test start) stream depth :=
  fun opened => (conditionalTail_agrees agrees test start).bind rfl fun left _ =>
    assignmentTail_agrees agrees left start opened

theorem asyncExpression_agrees (word : strict → stream.current.kind.isKeyword .asyncWord)
    (start : Span) :
    Agrees strict (asyncExpression logged start) (asyncExpression level start) stream
      depth := by
  refine fun opened => .token (fun asked => TokenKind.eq_of_isKeyword (word asked)) rfl (.token rfl)
    (.look ?_)
  refine .ite (fun _ => ?_) fun _ => .ite (fun _ => ?_) fun _ => ?_
  · exact (function_agrees agrees _).discard.bind rfl fun _ _ => unsupported_agrees _ _ opened
  · exact (arrowFunction_agrees agrees).discard.bind rfl fun _ _ => unsupported_agrees _ _ opened
  · refine (agrees.links _ start _).chain.bind rfl fun operand _ => ?_
    refine (agrees.operators operand 0 start _).chain.bind rfl fun left _ => ?_
    exact tails_agrees agrees left start opened

theorem assignment_agrees :
    Agrees strict (assignment logged) (assignment level) stream depth := by
  refine fun opened => .look (.ite (fun _ => ?_) fun _ => .ite (fun word => ?_) fun _ => ?_)
  · exact (arrowFunction_agrees agrees).bind rfl fun node _ => .pure ⟨rfl, rfl⟩
  · exact asyncExpression_agrees agrees (fun _ => word) _ opened
  · exact (binary_agrees agrees 0).bind rfl fun test _ => tails_agrees agrees test _ opened

theorem declarator_agrees :
    Agrees strict (declarator logged) (declarator level) stream depth := by
  refine fun opened => .start (identifier_agrees.bind rfl fun id _ => .eat (.token rfl) ?_ ?_)
  · exact fun _ => ((agrees.assignment _).map _).bind rfl fun init _ => .spanFrom (.pure ⟨rfl, rfl⟩)
  · exact fun _ => .pure_bind (.spanFrom (.pure ⟨rfl, rfl⟩))

theorem declarators_agrees :
    Agrees strict (declarators logged) (declarators level) stream depth := by
  refine Agrees.loop (fun items stream opened => ?_) []
  refine (declarator_agrees agrees).bind rfl fun item _ => ?_
  exact .eat (.token rfl) (fun _ => .pure ⟨rfl, rfl⟩) fun _ => .pure ⟨rfl, rfl⟩

theorem variableDeclaration_agrees (kind : VariableKind) {word : Keyword}
    (found : strict → stream.current.kind = .keyword word) :
    Agrees strict (variableDeclaration logged kind) (variableDeclaration level kind) stream
      depth := by
  refine fun opened => .start (.token found rfl (.token rfl) (.isAt (.isAt (.ite ?_ fun _ => ?_))))
  · exact fun _ => skipStatement_agrees _ _ opened
  · refine (declarators_agrees agrees).bind rfl fun declarators _ => ?_
    exact endStatement_agrees.bind rfl fun _ _ => .spanFrom (.pure ⟨rfl, rfl⟩)

theorem returnArgument_agrees :
    Agrees strict (returnArgument logged) (returnArgument level) stream depth := by
  refine fun opened => .look (.ite (fun _ => .pure ⟨rfl, rfl⟩) fun _ => ?_)
  exact (expression_agrees agrees).map _ opened

theorem returns_agrees (found : strict → stream.current.kind = .keyword .returnWord) :
    Agrees strict (returns logged) (returns level) stream depth := by
  refine fun opened => .start (.token found rfl (.token rfl) ?_)
  refine (returnArgument_agrees agrees).bind rfl fun argument _ => ?_
  exact endStatement_agrees.bind rfl fun _ _ => .spanFrom (.pure ⟨rfl, rfl⟩)

theorem expressionStatement_agrees :
    Agrees strict (expressionStatement logged) (expressionStatement level) stream depth := by
  refine fun opened => .start ((expression_agrees agrees).bind rfl fun value _ => ?_)
  exact endStatement_agrees.bind rfl fun _ _ => .spanFrom (.pure ⟨rfl, rfl⟩)

theorem plainStatement_agrees :
    Agrees strict (plainStatement logged) (plainStatement level) stream depth := by
  refine fun opened => .look ?_
  dsimp only
  cases kind : stream.current.kind with
  | keyword word =>
    cases word
    case varWord | letWord | constWord =>
      exact variableDeclaration_agrees agrees _ (fun _ => kind) opened
    case functionWord =>
      refine .ite (fun _ => skipStatement_agrees _ _ opened) fun _ => ?_
      exact (function_agrees agrees _).bind rfl fun node _ => .pure ⟨rfl, rfl⟩
    case asyncWord =>
      exact .ite (fun _ => skipStatement_agrees _ _ opened) fun _ =>
        expressionStatement_agrees agrees opened
    case returnWord => exact returns_agrees agrees (fun _ => kind) opened
    all_goals exact expressionStatement_agrees agrees opened
  | punctuator mark =>
    cases mark
    case braceOpen => exact (block_agrees agrees).bind rfl fun block _ => .pure ⟨rfl, rfl⟩
    case semicolon => exact .token (fun _ => kind) rfl (.token rfl) (.pure ⟨rfl, rfl⟩)
    all_goals exact expressionStatement_agrees agrees opened
  | _ => exact expressionStatement_agrees agrees opened

theorem statement_agrees :
    Agrees strict (statement logged) (statement level) stream depth := by
  refine fun opened => .look ?_
  dsimp only
  cases stream.word?.bind skippedStatement? with
  | some kind =>
    exact .ite (fun _ => plainStatement_agrees agrees opened) fun _ =>
      skipStatement_agrees _ _ opened
  | none =>
    exact .ite (fun _ => skipStatement_agrees _ _ opened) fun _ =>
      plainStatement_agrees agrees opened

theorem programBody_agrees (body : List Statement) :
    Agrees strict (loop (programRound logged) body)
      (loop (programRound level) body) stream depth := by
  refine Agrees.loop (fun body stream opened => ?_) body
  refine .look (.ite (fun _ => .pure ⟨rfl, rfl⟩) fun _ => ?_)
  exact (agrees.statement _).bind rfl fun statement _ => .pure ⟨rfl, rfl⟩

end Grammar

def Rounds (strict : Prop) {β : Type} (logged : LoggedParser (α ⊕ β)) (parser : Parser (α ⊕ β))
    (stream : TokenStream) (depth : Nat) : Prop :=
  ∀ opened, Follows strict Piece.Matches logged parser stream depth opened
    (fun result _ now closed => (result.isLeft → now = depth) ∧ closed = opened) fun _ => True

theorem Rounds.loop {β : Type} {round : α → LoggedParser (α ⊕ β)} {round' : α → Parser (α ⊕ β)}
    (rounds : ∀ value stream, Rounds strict (round value) (round' value) stream depth) (value : α) :
    Rises strict (loop round value) (loop round' value) stream depth := by
  intro opened
  refine .loop (fun _ _ now closed => now = depth ∧ closed = opened) ?_ (fun _ _ _ _ _ => trivial)
    ⟨rfl, rfl⟩
  rintro value stream _ _ ⟨rfl, rfl⟩
  refine (rounds value stream _).mono ?_ fun _ _ => trivial
  rintro (_ | _) rest now after ⟨left, same⟩
  · exact ⟨left rfl, same⟩
  · exact same

theorem Rises.last {β : Type} {last : LoggedParser β} {last' : Parser β} {now : Nat}
    (rises : Rises strict last last' stream now) (opened : List Punctuator) :
    Follows strict Piece.Matches (last >>= fun value => pure (Sum.inr value : α ⊕ β))
      (last' >>= fun value => pure (Sum.inr value)) stream now opened
      (fun result _ now closed => (result.isLeft → now = depth) ∧ closed = opened)
      fun _ => True :=
  (rises opened).bind fun _ _ _ _ same => .pure ⟨nofun, same⟩

section Deeper

variable (below : AgreesBelow strict deeper deeper' depth)
include below

theorem operators_rises (left : Expr) (minimum : Nat) (start : Span) :
    Rises strict (operators deeper left minimum start) (operators deeper' left minimum start)
      stream depth := by
  refine fun opened => .look ?_
  cases found : Operator.ofToken? stream.current.kind with
  | none => exact .pure rfl
  | some op =>
    have plain := TokenKind.plain_of_eq_some found rfl
    refine .ite (fun _ => .pure rfl) fun _ => .descend below trivial fun logged level agrees => ?_
    refine .plainToken (fun _ => plain) ?_
    refine (binary_agrees agrees _).bind trivial fun right _ => .spanFrom ?_
    exact agrees.operators _ minimum start _ opened

theorem members_rises : Rises strict (members deeper) (members deeper') stream depth := by
  refine Rounds.loop (fun _ stream opened => .eat (.token rfl) (fun _ => ?_) fun _ => .isAt ?_) ()
  · refine .descend below trivial fun logged level agrees => ?_
    exact propertyName_agrees.discard.bind trivial fun _ _ => (agrees.members _).last opened
  · refine .ite (fun bracket => ?_) fun _ => .pure ⟨nofun, rfl⟩
    exact (skipGroup_agrees (fun _ => TokenStream.kind_of_isAt bracket) rfl).bind trivial fun _ _ =>
      .pure ⟨fun _ => rfl, rfl⟩

theorem links_rises {assignment : LoggedParser Expr} {assignment' : Parser Expr}
    (assigns : ∀ stream, Agrees strict assignment assignment' stream depth) (operand : Expr)
    (start : Span) :
    Rises strict (links deeper assignment operand start)
      (links deeper' assignment' operand start) stream depth := by
  refine Rounds.loop (fun operand stream opened => .look ?_) operand
  cases kind : stream.current.kind with
  | punctuator mark =>
    cases mark
    case dot =>
      refine .descend below trivial fun logged level agrees => ?_
      refine .token (fun _ => kind) rfl (.token rfl) ?_
      refine propertyName_agrees.bind trivial fun property _ => .spanFrom ?_
      exact (agrees.links _ start _).last opened
    case parenOpen =>
      refine .descend below trivial fun logged level agrees => ?_
      refine (arguments_agrees agrees.assignment).bind trivial fun arguments _ => .spanFrom ?_
      exact (agrees.links _ start _).last opened
    case optionalChain =>
      refine .token (fun _ => kind) rfl (.token rfl) ?_
      refine (optionalLink_agrees assigns).bind trivial fun _ _ => ?_
      exact (unsupported_agrees _ start).bind trivial fun _ _ => .pure ⟨fun _ => rfl, rfl⟩
    case bracketOpen =>
      exact (group_agrees (fun _ => kind) rfl _ start).bind trivial fun _ _ =>
        .pure ⟨fun _ => rfl, rfl⟩
    all_goals exact .pure ⟨nofun, rfl⟩
  | template =>
    refine .token (fun _ => kind) rfl (.token rfl) ?_
    exact (unsupported_agrees _ start).bind trivial fun _ _ => .pure ⟨fun _ => rfl, rfl⟩
  | _ => exact .pure ⟨nofun, rfl⟩

end Deeper

end LoggedParser

theorem Level.ofDeeper_agrees {strict : Prop} {depth : Nat} {deeper : Option (Level LoggedParser)}
    {deeper' : Option (Level Parser)} (below : AgreesBelow strict deeper deeper' depth) :
    Level.Agrees strict (ofDeeper deeper) (ofDeeper deeper') depth := by
  have assignment (stream : TokenStream) : LoggedParser.Agrees strict (ofDeeper deeper).assignment
      (ofDeeper deeper').assignment stream depth :=
    .nested below fun _ _ => assignment_agrees
  constructor
  case statement => exact fun _ => .nested below fun _ _ => statement_agrees
  case assignment => exact assignment
  case unary => exact fun _ => .nested below fun _ _ => unary_agrees
  case operators => exact fun left minimum start _ => operators_rises below left minimum start
  case links => exact fun operand start _ => links_rises below assignment operand start
  case members => exact fun _ => members_rises below

-- The levels that are left and the counter add up to the limit; spare levels do no harm.
theorem Level.above_agrees {strict : Prop} {depth left : Nat} (sum : depth + left = maxNesting)
    (spare : Nat) :
    Level.Agrees strict (above (left + spare)) (above left) depth := by
  induction left generalizing depth with
  | zero =>
    obtain rfl : depth = maxNesting := sum
    rw [Nat.zero_add]
    cases spare with
    | zero => exact ofDeeper_agrees (.limit none)
    | succ spare => exact ofDeeper_agrees (.limit (some (above spare)))
  | succ left ih =>
    rw [Nat.add_right_comm]
    exact ofDeeper_agrees (.deeper (by omega) (ih (by omega)))

theorem LoggedParser.program_agrees (strict : Prop) (source : String) :
    LoggedParser.Agrees strict program program (.ofText source) 0 := by
  have levels : Level.Agrees strict (.above maxNesting) (.above maxNesting) 0 :=
    Level.above_agrees (Nat.zero_add _) 0
  exact fun opened => (programBody_agrees levels []).bind rfl fun body _ => .look (.pure ⟨rfl, rfl⟩)

end EventLoop
