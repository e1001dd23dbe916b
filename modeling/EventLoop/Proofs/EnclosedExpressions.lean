import EventLoop.Proofs.Enclosure
import EventLoop.Proofs.NestedExpressions

set_option autoImplicit false

/-!
# Expressions in skipped statements

What an expression takes, a skipped statement takes too and is not over by it. A statement may end
with a semicolon, so that this holds of statements only where they stand in brackets.
-/

namespace EventLoop

-- What the parsers of a level take, a skipped statement takes too; statements only in brackets,
-- since they may hold semicolons.
structure Level.Keeps (level : Level Parser) : Prop where
  statement (stream : TokenStream) : Parser.Keeps 1 level.statement stream
  assignment (stream : TokenStream) : Parser.Keeps 0 level.assignment stream
  unary (stream : TokenStream) : Parser.Keeps 0 level.unary stream
  operators (left : Expr) (minimum : Nat) (start : Span) (stream : TokenStream) :
    Parser.Keeps 0 (level.operators left minimum start) stream
  links (operand : Expr) (start : Span) (stream : TokenStream) :
    Parser.Keeps 0 (level.links operand start) stream
  members (stream : TokenStream) : Parser.Keeps 0 level.members stream

namespace Parser

open TokenStream (Skims Encloses)

variable {α : Type} {stream : TokenStream} {level : Level Parser} {deeper : Option (Level Parser)}

theorem Keeps.mono {parser : Parser α} {low least : Nat} (keeps : parser.Keeps low stream)
    (deeper : low ≤ least) : parser.Keeps least stream :=
  fun _ _ read => (keeps read).mono deeper

theorem Keeps.descend {next : Level Parser → Parser α} {least : Nat}
    (below : ∀ level ∈ deeper, level.Keeps)
    (goes : ∀ level : Level Parser, level.Keeps → (next level).Keeps least stream) :
    (Parser.descend deeper >>= next).Keeps least stream := by
  cases deeper with
  | none => exact .fail_bind ..
  | some level => exact goes level (below level rfl)

theorem list_keeps {α : Type} {item : Parser α} (keeps : ∀ stream, item.Keeps 1 stream) :
    Keeps 0 (list item) stream := by
  refine .group .parenClose rfl rfl fun stream => Fills.loop (fun items stream => .eat _ ?_) []
  refine .bind (keeps _) fun item rest => .bind (.taken rfl) fun comma rest => ?_
  exact .ite (.more _) (.expect _)

theorem params_keeps : Keeps 0 params stream :=
  list_keeps fun _ => .get (.ite (fun _ => identifier_keeps) fun _ => .fail_bind ..)

theorem functionName_keeps (form : FunctionForm) : Keeps 0 (functionName form) stream := by
  refine .get (.ite (fun _ => identifier_keeps.map _) fun _ => ?_)
  exact .ite (fun _ => .unexpected _) fun _ => .pure _

theorem arrowParams_keeps : Keeps 0 arrowParams stream :=
  .isAt (.ite (fun _ => params_keeps) fun _ => identifier_keeps.bind fun _ _ => .pure _)

section Grammar

variable (keeps : level.Keeps)
include keeps

theorem block_keeps : Keeps 0 (block level) stream := by
  have body (stream : TokenStream) :
      (blockBody level).Ensures stream fun _ rest => Encloses .braceClose stream rest := by
    refine Fills.loop (fun body stream => .eat _ ?_) []
    refine Fills.ite (.fail_bind ..) ?_
    exact .bind (keeps.statement _) fun statement rest => .more _
  refine .start fun start => .group .braceClose rfl rfl fun stream result rest read => ?_
  obtain ⟨_, between, filled, ended⟩ := exists_of_bind read
  cases ended
  exact body stream filled

theorem functionRest_keeps (form : FunctionForm) (start : Span) :
    Keeps 0 (functionRest level form start) stream := by
  refine (functionName_keeps form).bind fun id _ => params_keeps.bind fun params _ => ?_
  exact (block_keeps keeps).bind fun _ _ => .spanFrom fun _ => .pure _

theorem function_keeps (form : FunctionForm) : Keeps 0 (function level form) stream := by
  refine .start fun start => .get (.ite (fun word => ?_) fun _ => .unexpected_bind ..)
  refine .advance (.calm ?_) fun _ => functionRest_keeps keeps form start
  rw [TokenKind.eq_of_isKeyword word]
  rfl

theorem arrowBody_keeps : Keeps 0 (arrowBody level) stream := by
  refine .isAt (.ite (fun _ => ?_) fun _ => (keeps.assignment _).map _)
  exact (block_keeps keeps).bind fun _ _ => .pure _

theorem arrowFunction_keeps : Keeps 0 (arrowFunction level) stream := by
  refine .start fun start => arrowParams_keeps.bind fun params _ => .expect rfl fun _ => ?_
  exact (arrowBody_keeps keeps).bind fun _ _ => .spanFrom fun _ => .pure _

theorem expression_keeps : Keeps 0 (expression level) stream := by
  refine .start fun start => (keeps.assignment _).bind fun first _ => .isAt (.ite (fun _ => ?_) ?_)
  · have items (stream : TokenStream) : Keeps 0 (loop (sequenceRound level) [first]) stream := by
      refine .loop (fun items stream => .eat rfl fun comma rest => .ite (fun _ => ?_) ?_) [first]
      · exact (keeps.assignment _).bind fun _ _ => .pure _
      · exact fun _ => .pure _
    exact (items _).bind fun _ _ => .spanFrom fun _ => .pure _
  · exact fun _ => .pure _

theorem functionExpression_keeps (word : stream.current.kind = .keyword .functionWord) :
    Keeps 0 (functionExpression level) stream := by
  refine .start fun start => .advance (.calm (by rw [word]; rfl)) fun _ => .eat rfl fun star _ => ?_
  refine .ite (fun _ => ?_) fun _ => ?_
  · exact (functionRest_keeps keeps .expression start).discard fun _ => unsupported_keeps _ _
  · exact (functionRest_keeps keeps .expression start).bind fun _ _ => .pure _

theorem parenthesised_keeps (here : stream.isAt .parenOpen) :
    Keeps 0 (parenthesised level) stream := by
  intro _ rest read
  rw [parenthesised, advance_bind] at read
  obtain ⟨inner, close, inside, ended⟩ := exists_of_bind read
  cases closed : close.isAt .parenClose with
  | true =>
    rw [expect_bind_of_isAt closed] at ended
    cases ended
    have inside := (expression_keeps keeps inside).mono (Nat.zero_le 1)
    exact Encloses.skims ⟨close, inside, closed, rfl⟩ here rfl rfl
  | false =>
    obtain ⟨_, _, failed, -⟩ := exists_of_bind ended
    rw [Parser.expect, eat_bind_of_not_isAt closed] at failed
    cases failed

omit keeps in
theorem classHead_ensures (word : stream.current.kind = .identifier "class") :
    Ensures classHead stream fun _ rest => rest.isAt .braceOpen ∧
      ∃ kinds, stream.Passes kinds rest ∧ .identifier "class" ∈ kinds := by
  refine .loop (fun _ now => now = stream ∨
    ∃ kinds, stream.Passes kinds now ∧ .identifier "class" ∈ kinds) ?_ (.inl rfl)
  rintro ⟨⟩ now kept
  refine Ensures.ite (fun brace => ?_) fun other => Ensures.ite (fun _ => ?_) fun inside => ?_
  next =>
    obtain rfl | found := kept
    next =>
      rw [TokenStream.kind_of_isAt brace] at word
      cases word
    next => exact (ensures_pure _).mpr ⟨brace, found⟩
  next => rintro _ _ ⟨⟩
  next =>
    refine (ensures_advance _).mpr ((ensures_pure _).mpr (.inr ?_))
    have taken : now.Passes [now.current.kind] now.advance :=
      .token (Bool.eq_false_iff.mpr inside) (.nothing _)
    obtain rfl | ⟨kinds, passes, found⟩ := kept
    next => exact ⟨_, taken, by simp [word]⟩
    next => exact ⟨_, passes.append taken, List.mem_append_left _ found⟩

omit keeps in
theorem eq_class_of_reservedOperand? {name : String}
    (found : reservedOperand? name = some .classExpression) : name = "class" := by
  unfold reservedOperand? at found
  split at found <;> simp_all

omit keeps in
theorem wordOperand_keeps {name : String} (word : stream.current.kind = .identifier name) :
    Keeps 0 (wordOperand name) stream := by
  refine .start fun start => ?_
  split
  next found =>
    rw [eq_class_of_reservedOperand? found] at word
    intro _ rest read
    obtain ⟨_, brace, head, read⟩ := exists_of_bind read
    obtain ⟨here, kinds, passes, named⟩ := classHead_ensures word head
    have body : Skims 0 0 brace rest := group_keeps here rfl _ _ read
    obtain ⟨others, later, -⟩ := body
    exact ⟨_, passes.append later, fun classless => absurd (List.mem_append_left _ named) classless⟩
  next => exact .advance (.calm (by rw [word]; rfl)) fun _ => unsupported_keeps _ _
  next => exact identifier_keeps.bind fun _ _ => .pure _

omit keeps in
theorem regexp_keeps (slash : stream.current.kind.isSlash) : Keeps 0 regexp stream := by
  intro value rest read
  rw [regexp, start_bind, rescan_bind, look_bind] at read
  obtain ⟨pattern, flags, kind⟩ | kind := stream.rescan_kind
  next =>
    rw [kind] at read
    cases read
    refine ⟨_, .regexp slash (.nothing _), fun _ depth _ => ?_⟩
    rw [kind]
    rfl
  next =>
    rw [kind] at read
    cases read

theorem primary_keeps : Keeps 0 (primary level) stream := by
  refine .start fun start => .get ?_
  have literal (calm : stream.current.kind.isCalm) (value : Literal) :
      Keeps 0 (literal value) stream := .start fun _ => .advance (.calm calm) fun _ => .pure _
  split
  next kind => exact literal (by rw [kind]; rfl) _
  next kind => exact literal (by rw [kind]; rfl) _
  next kind => exact literal (by rw [kind]; rfl) _
  next kind => exact literal (by rw [kind]; rfl) _
  next kind => exact literal (by rw [kind]; rfl) _
  next name kind => exact wordOperand_keeps kind
  next kind => exact functionExpression_keeps keeps kind
  next kind => exact parenthesised_keeps keeps (TokenStream.isAt_of_kind kind)
  next kind => exact group_keeps (TokenStream.isAt_of_kind kind) rfl _ _
  next kind => exact group_keeps (TokenStream.isAt_of_kind kind) rfl _ _
  next kind => exact regexp_keeps (by rw [kind]; rfl)
  next kind => exact regexp_keeps (by rw [kind]; rfl)
  next raw kind => exact .advance (.calm (by rw [kind]; rfl)) fun _ => unsupported_keeps _ _
  next => exact .unexpected _

end Grammar

section Arguments

variable {assignment : Parser Expr} (keeps : ∀ stream, assignment.Keeps 0 stream)
include keeps

theorem arguments_keeps : Keeps 0 (arguments assignment) stream := by
  have argument (stream : TokenStream) : Keeps 0 (argument assignment) stream := by
    refine .start fun start => .eat rfl fun spread rest => .ite (fun _ => ?_) fun _ => keeps rest
    exact (keeps rest).discard fun _ => unsupported_keeps _ _
  exact list_keeps fun stream => (argument stream).mono (Nat.zero_le 1)

theorem optionalLink_keeps : Keeps 0 (optionalLink assignment) stream := by
  refine .isAt (.ite (fun _ => ?_) fun _ => .isAt (.ite (fun here => ?_) fun _ => ?_))
  · exact (arguments_keeps keeps).map _
  · exact skipGroup_keeps here rfl
  · exact propertyName_keeps.map _

end Arguments

section Chains

variable (below : ∀ level ∈ deeper, level.Keeps)
include below

theorem members_keeps : Keeps 0 (members deeper) stream := by
  refine .loop (fun _ stream => .eat rfl fun dot rest => .ite (fun _ => ?_) fun _ => ?_) ()
  · refine .descend below fun level keeps => propertyName_keeps.discard fun _ => ?_
    exact (keeps.members _).bind fun _ _ => .pure _
  · refine .isAt (.ite (fun here => ?_) fun _ => .pure _)
    exact (skipGroup_keeps here rfl).bind fun _ _ => .pure _

theorem links_keeps {assignment : Parser Expr} (keeps : ∀ stream, assignment.Keeps 0 stream)
    (operand : Expr) (start : Span) :
    Keeps 0 (links deeper assignment operand start) stream := by
  refine .loop (fun operand stream => .get ?_) operand
  split
  next kind =>
    refine .descend below fun level keeps => .advance (.calm (by rw [kind]; rfl)) fun _ => ?_
    refine propertyName_keeps.bind fun property _ => .spanFrom fun span => ?_
    exact (keeps.links _ _ _).bind fun _ _ => .pure _
  next kind =>
    refine .descend below fun level keeps => (arguments_keeps keeps.assignment).bind fun _ _ => ?_
    exact .spanFrom fun span => (keeps.links _ _ _).bind fun _ _ => .pure _
  next kind =>
    refine .advance (.calm (by rw [kind]; rfl)) fun _ => ?_
    refine (optionalLink_keeps keeps).bind fun _ _ => ?_
    exact (unsupported_keeps _ _).bind fun _ _ => .pure _
  next kind =>
    exact (group_keeps (TokenStream.isAt_of_kind kind) rfl _ _).bind fun _ _ => .pure _
  next raw kind =>
    refine .advance (.calm (by rw [kind]; rfl)) fun _ => ?_
    exact (unsupported_keeps _ _).bind fun _ _ => .pure _
  next => exact .pure _

end Chains

theorem UnaryOp.isCalm_of_ofToken? {kind : TokenKind} {op : UnaryOp}
    (found : UnaryOp.ofToken? kind = some op) : kind.isCalm := by
  unfold UnaryOp.ofToken? at found
  split at found <;> first | rfl | cases found

theorem UpdateOp.isCalm_of_ofToken? {kind : TokenKind} {op : UpdateOp}
    (found : UpdateOp.ofToken? kind = some op) : kind.isCalm := by
  unfold UpdateOp.ofToken? at found
  split at found <;> first | rfl | cases found

theorem Operator.isCalm_of_ofToken? {kind : TokenKind} {op : Operator}
    (found : Operator.ofToken? kind = some op) : kind.isCalm := by
  unfold Operator.ofToken? at found
  split at found
  next => rfl
  next => rfl
  next mark => cases mark <;> first | rfl | cases found
  next => cases found

theorem AssignOp.isCalm_of_ofToken? {kind : TokenKind} {op : AssignOp}
    (found : AssignOp.ofToken? kind = some op) : kind.isCalm := by
  unfold AssignOp.ofToken? at found
  split at found
  next mark => cases mark <;> first | rfl | cases found
  next => cases found

section Grammar

variable (keeps : level.Keeps)
include keeps

theorem leftHandSide_keeps : Keeps 0 (leftHandSide level) stream := by
  refine .start fun start => .get (.ite (fun word => ?_) fun _ => ?_)
  · have made (stream : TokenStream) : Keeps 0
        (unsupported .newExpression start >>= fun operand => level.links operand start) stream :=
      (unsupported_keeps _ _).bind fun _ _ => keeps.links _ _ _
    have calm : stream.current.kind.isCalm := by
      rw [TokenKind.eq_of_isKeyword word]
      rfl
    refine .advance (.calm calm) fun _ => (primary_keeps keeps).discard fun _ => ?_
    refine (keeps.members _).bind fun _ _ => .isAt (.ite (fun _ => ?_) fun _ => made _)
    exact (arguments_keeps keeps.assignment).discard made
  · exact (primary_keeps keeps).bind fun _ _ => keeps.links _ _ _

omit keeps in
theorem update_keeps (op : UpdateOp) (order : UpdateOrder) (argument : Expr) (start : Span) :
    Keeps 0 (update op order argument start) stream := by
  unfold update
  split
  next => exact .spanFrom fun _ => .pure _
  next => exact unsupported_keeps _ _

theorem postfixed_keeps (start : Span) : Keeps 0 (postfixed level start) stream := by
  refine (leftHandSide_keeps keeps).bind fun operand rest => .get ?_
  split
  next op found =>
    refine .ite (fun _ => .pure _) fun _ => ?_
    exact .advance (.calm (UpdateOp.isCalm_of_ofToken? found)) fun _ => update_keeps ..
  next => exact .pure _

theorem unary_keeps : Keeps 0 (unary level) stream := by
  refine .start fun start => .get ?_
  dsimp only
  split
  next op _ found =>
    refine .advance (.calm (UnaryOp.isCalm_of_ofToken? found)) fun _ => ?_
    exact (keeps.unary _).bind fun _ _ => .spanFrom fun _ => .pure _
  next op _ found =>
    refine .advance (.calm (UpdateOp.isCalm_of_ofToken? found)) fun _ => ?_
    exact (keeps.unary _).bind fun _ _ => update_keeps ..
  next =>
    refine .ite (fun word => ?_) fun _ => postfixed_keeps keeps start
    have calm : stream.current.kind.isCalm := by
      rw [TokenKind.eq_of_isKeyword word]
      rfl
    exact .advance (.calm calm) fun _ => (keeps.unary _).discard fun _ => unsupported_keeps _ _

theorem binary_keeps (minimum : Nat) : Keeps 0 (binary level minimum) stream :=
  .start fun _ => (keeps.unary _).bind fun _ _ => keeps.operators ..

omit keeps in
theorem operators_keeps (below : ∀ level ∈ deeper, level.Keeps) (left : Expr) (minimum : Nat)
    (start : Span) : Keeps 0 (operators deeper left minimum start) stream := by
  refine .get ?_
  split
  next => exact .pure _
  next op found =>
    refine .ite (fun _ => .pure _) fun _ => .descend below fun level keeps => ?_
    refine .advance (.calm (Operator.isCalm_of_ofToken? found)) fun _ => ?_
    exact (binary_keeps keeps _).bind fun _ _ => .spanFrom fun _ => keeps.operators ..

theorem tails_keeps (test : Expr) (start : Span) : Keeps 0 (tails level test start) stream := by
  have conditional (stream : TokenStream) : Keeps 0 (conditionalTail level test start) stream := by
    refine .eat rfl fun question rest => .ite (fun _ => ?_) fun _ => .pure _
    refine (keeps.assignment _).bind fun _ _ => .expect rfl fun _ => ?_
    exact (keeps.assignment _).bind fun _ _ => .spanFrom fun _ => .pure _
  refine (conditional stream).bind fun left rest => .get ?_
  split
  next => exact .pure _
  next op found =>
    refine .advance (.calm (AssignOp.isCalm_of_ofToken? found)) fun _ => ?_
    refine (keeps.assignment _).bind fun value _ => ?_
    split
    next => exact .spanFrom fun _ => .pure _
    next => exact unsupported_keeps _ _

theorem asyncExpression_keeps (word : stream.current.kind.isKeyword .asyncWord) (start : Span) :
    Keeps 0 (asyncExpression level start) stream := by
  have calm : stream.current.kind.isCalm := by
    rw [TokenKind.eq_of_isKeyword word]
    rfl
  refine .advance (.calm calm) fun rest => .get (.ite (fun _ => ?_) fun _ => .ite (fun _ => ?_) ?_)
  · exact (function_keeps keeps _).discard fun _ => unsupported_keeps _ _
  · exact (arrowFunction_keeps keeps).discard fun _ => unsupported_keeps _ _
  · intro _
    refine (keeps.links _ _ _).bind fun _ _ => (keeps.operators ..).bind fun _ _ => ?_
    exact tails_keeps keeps _ _

theorem assignment_keeps : Keeps 0 (assignment level) stream := by
  refine .get (.ite (fun _ => ?_) fun _ => .ite (fun word => ?_) fun _ => ?_)
  · exact (arrowFunction_keeps keeps).bind fun _ _ => .pure _
  · exact asyncExpression_keeps keeps word _
  · exact (binary_keeps keeps 0).bind fun _ _ => tails_keeps keeps _ _

theorem declarators_keeps : Keeps 0 (declarators level) stream := by
  refine .loop (fun items stream => ?_) []
  have declarator : Keeps 0 (declarator level) stream := by
    refine .start fun start => identifier_keeps.bind fun id _ => .eat rfl fun assign rest => ?_
    refine .ite (fun _ => ?_) fun _ => .spanFrom fun _ => .pure _
    exact ((keeps.assignment _).map _).bind fun _ _ => .spanFrom fun _ => .pure _
  refine declarator.bind fun item _ => .eat rfl fun comma rest => ?_
  exact .ite (fun _ => .pure _) fun _ => .pure _

theorem variableDeclaration_keeps {word : Keyword} (found : stream.current.kind = .keyword word)
    (kind : VariableKind) : Keeps 1 (variableDeclaration level kind) stream := by
  refine .start fun start => .advance (.calm (by rw [found]; rfl)) fun rest => .isAt (.isAt ?_)
  refine .ite (fun _ => skipStatement_keeps _ _) fun _ => ?_
  refine ((declarators_keeps keeps).mono (Nat.zero_le 1)).bind fun _ _ => ?_
  exact endStatement_keeps.bind fun _ _ => .spanFrom fun _ => .pure _

theorem returnArgument_keeps : Keeps 0 (returnArgument level) stream :=
  .get (.ite (fun _ => .pure _) fun _ => (expression_keeps keeps).map _)

theorem returns_keeps (word : stream.current.kind = .keyword .returnWord) :
    Keeps 1 (returns level) stream := by
  refine .start fun start => .advance (.calm (by rw [word]; rfl)) fun rest => ?_
  refine ((returnArgument_keeps keeps).mono (Nat.zero_le 1)).bind fun _ _ => ?_
  exact endStatement_keeps.bind fun _ _ => .spanFrom fun _ => .pure _

theorem expressionStatement_keeps : Keeps 1 (expressionStatement level) stream := by
  refine .start fun start => ((expression_keeps keeps).mono (Nat.zero_le 1)).bind fun _ _ => ?_
  exact endStatement_keeps.bind fun _ _ => .spanFrom fun _ => .pure _

theorem plainStatement_keeps : Keeps 1 (plainStatement level) stream := by
  refine .get ?_
  dsimp only
  split
  next kind => exact variableDeclaration_keeps keeps kind _
  next kind => exact variableDeclaration_keeps keeps kind _
  next kind => exact variableDeclaration_keeps keeps kind _
  next kind =>
    refine .ite (fun _ => skipStatement_keeps _ _) fun _ => ?_
    exact ((function_keeps keeps _).mono (Nat.zero_le 1)).bind fun _ _ => .pure _
  next kind =>
    exact .ite (fun _ => skipStatement_keeps _ _) fun _ => expressionStatement_keeps keeps
  next kind => exact returns_keeps keeps kind
  next kind => exact ((block_keeps keeps).mono (Nat.zero_le 1)).bind fun _ _ => .pure _
  next kind => exact .advance (.semicolon (TokenStream.isAt_of_kind kind)) fun _ => .pure _
  next => exact expressionStatement_keeps keeps

theorem statement_keeps : Keeps 1 (statement level) stream := by
  refine .get ?_
  dsimp only
  split
  next kind _ =>
    exact .ite (fun _ => plainStatement_keeps keeps) fun _ => skipStatement_keeps _ _
  next => exact .ite (fun _ => skipStatement_keeps _ _) fun _ => plainStatement_keeps keeps

end Grammar

end Parser

namespace Level

theorem ofDeeper_keeps {deeper : Option (Level Parser)} (below : ∀ level ∈ deeper, level.Keeps) :
    (ofDeeper deeper).Keeps where
  statement _ := .descend below fun _ keeps => Parser.statement_keeps keeps
  assignment _ := .descend below fun _ keeps => Parser.assignment_keeps keeps
  unary _ := .descend below fun _ keeps => Parser.unary_keeps keeps
  operators left minimum start _ := Parser.operators_keeps below left minimum start
  links operand start _ := Parser.links_keeps below
    (fun _ => .descend below fun _ keeps => Parser.assignment_keeps keeps) operand start
  members _ := Parser.members_keeps below

theorem above_keeps (depth : Nat) : (above depth).Keeps := by
  induction depth with
  | zero => exact ofDeeper_keeps (by simp)
  | succ depth ih => exact ofDeeper_keeps (by simpa using ih)

end Level

end EventLoop
