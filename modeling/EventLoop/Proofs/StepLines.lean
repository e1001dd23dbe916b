import EventLoop.Proofs.AcceptedPrograms
import EventLoop.Proofs.Provenance
import EventLoop.Report.Line

set_option autoImplicit false

/-!
# One line for each step

The names that a run shows are words of its source or names of the host. So what is printed for a
step has no line break, and the steps of a run are printed on as many lines.
-/

namespace EventLoop

open Text (IsWord isWordStart isWordPart)

def SyntaxNode.tree : SyntaxNode → SyntaxTree
  | .identifier id => id.tree
  | .expression expr => expr.tree
  | .function node => node.tree
  | .declarator declared => declared.tree
  | .statement stated => stated.tree

theorem FunctionBody.tree_node (body : FunctionBody) : body.node.tree = body.tree := by
  cases body <;> rfl

theorem SyntaxNode.children_tree (node : SyntaxNode) :
    node.tree.children = node.children.map tree := by
  cases node with
  | identifier id => rfl
  | expression expr =>
    cases expr <;> simp [tree, Expr.tree, exprTrees_eq_map, Function.comp_def]
  | function node =>
    obtain ⟨form, id, params, body, span⟩ := node
    simp [tree, FunctionNode.tree, Function.comp_def]
    exact body.tree_node.symm
  | declarator declared =>
    obtain ⟨id, init, span⟩ := declared
    cases init <;> simp [tree, Declarator.tree]
  | statement stated =>
    cases stated with
    | returns argument span => cases argument <;> simp [tree, Statement.tree]
    | _ =>
      simp [tree, Statement.tree, statementTrees_eq_map, declaratorTrees_eq_map, Function.comp_def]

theorem SyntaxTree.Worded.of_mem_children {tree child : SyntaxTree} (worded : tree.Worded)
    (member : child ∈ tree.children) : child.Worded := by
  cases tree
  exact worded.child member

theorem Program.isWord_of_parse {source : String} {program : Program}
    (parsed : parse source = .ok program) {id : Identifier}
    (present : program.HasNode (.identifier id)) : IsWord id.name.toList := by
  obtain ⟨rest, read⟩ := readFrom_of_parse parsed
  have worded {node : SyntaxNode} (present : program.HasNode node) : node.tree.Worded := by
    induction present with
    | top member => exact read.fits.worded _ (List.mem_map_of_mem member)
    | @child parent node above member ih =>
      refine ih.of_mem_children ?_
      rw [SyntaxNode.children_tree]
      exact List.mem_map_of_mem member
  exact worded present id.tree (.self _) id.name rfl

theorem Builtin.isWord_name (host : Builtin) : IsWord host.name.toList := by
  cases host with
  | consoleMethod level => cases level <;> decide +kernel
  | promiseMethod kind id =>
    change IsWord kind.name.toList
    cases kind <;> decide +kernel
  | _ => decide +kernel

theorem Program.Names.isWord {source : String} {program : Program}
    (parsed : parse source = .ok program) {name : String} (named : program.Names name) :
    IsWord name.toList := by
  cases named with
  | identifier present => exact isWord_of_parse parsed present
  | builtin host => exact host.isWord_name
  | anonymous | resolveThenable => decide +kernel

namespace Text

def lineBreaks : List Char := ['\n', '\x0b', '\x0c', '\r', '\u0085', '\u2028', '\u2029']

def OneLine (text : String) : Prop := text.toList.all (!lineBreaks.contains ·)

instance (text : String) : Decidable (OneLine text) := inferInstanceAs (Decidable (_ = true))

theorem oneLine_iff {text : String} : OneLine text ↔ ∀ c ∈ text.toList, c ∉ lineBreaks := by
  simp [OneLine]

theorem OneLine.append {first second : String} (left : OneLine first) (right : OneLine second) :
    OneLine (first ++ second) := by
  rw [OneLine, String.toList_append, List.all_append, left, right]
  rfl

theorem OneLine.intercalate {items : List String} {separator : String} (single : OneLine separator)
    (all : ∀ item ∈ items, OneLine item) : OneLine (separator.intercalate items) := by
  induction items with
  | nil => rfl
  | cons item rest ih =>
    obtain ⟨first, others⟩ := List.forall_mem_cons.mp all
    cases rest with
    | nil => simpa using first
    | cons next rest =>
      rw [String.intercalate_cons_cons]
      exact (first.append single).append (ih others)

theorem oneLine_of_isWord {word : String} (isWord : IsWord word.toList) : OneLine word := by
  have none : lineBreaks.all (!isWordPart ·) := by decide +kernel
  obtain ⟨c, rest, chars, first, others⟩ := isWord
  rw [oneLine_iff, chars]
  have parts : ∀ d ∈ c :: rest, isWordPart d :=
    List.forall_mem_cons.mpr ⟨isWordPart_of_isWordStart first, others⟩
  intro d member broken
  simpa [parts d member] using List.all_eq_true.mp none d broken

theorem oneLine_of_isDigit {text : String} (digits : ∀ c ∈ text.toList, c.isDigit ∨ c = '.') :
    OneLine text := by
  have none : lineBreaks.all fun c => !c.isDigit && c != '.' := by decide
  rw [oneLine_iff]
  intro c member broken
  have other := List.all_eq_true.mp none c broken
  simp only [Bool.and_eq_true, Bool.not_eq_true', bne_iff_ne] at other
  obtain digit | point := digits c member
  next => simp [digit] at other
  next => exact other.2 point

theorem oneLine_toString (n : Nat) : OneLine (toString n) := by
  refine oneLine_of_isDigit fun c member => .inl ?_
  rw [Nat.toString_eq_repr, Nat.repr, String.toList_ofList] at member
  exact Nat.isDigit_of_mem_toDigits (by decide) (by decide) member

end Text

open Text (OneLine oneLine_of_isWord oneLine_toString)

namespace Number

theorem oneLine_positional (decimal : Decimal) : OneLine decimal.positional := by
  have digit {c : Char} (member : c ∈ Nat.toDigits 10 decimal.digits) : c.isDigit :=
    Nat.isDigit_of_mem_toDigits (by decide) (by decide) member
  have zero {c : Char} {count : Nat} (member : c ∈ List.replicate count '0') : c.isDigit := by
    rw [List.eq_of_mem_replicate member]
    rfl
  refine Text.oneLine_of_isDigit fun c member => ?_
  simp only [Decimal.positional, String.toList_ofList] at member
  -- Zeros behind the digits, a point among them, or zeros in front of them.
  split at member
  next =>
    obtain digits | zeros := List.mem_append.mp member
    · exact .inl (digit digits)
    · exact .inl (zero zeros)
  next =>
    split at member
    next =>
      obtain front | back := List.mem_append.mp member
      · exact .inl (digit (List.mem_of_mem_take front))
      · obtain rfl | back := List.mem_cons.mp back
        · exact .inr rfl
        · exact .inl (digit (List.mem_of_mem_drop back))
    next =>
      simp only [List.cons_append, List.mem_cons, List.mem_append] at member
      obtain rfl | rfl | zeros | digits := member
      · exact .inl rfl
      · exact .inr rfl
      · exact .inl (zero zeros)
      · exact .inl (digit digits)

theorem oneLine_text (x : Float) : OneLine (text x) := by
  unfold text
  split
  next => split_ifs <;> decide
  next value _ =>
    split_ifs
    next => decide
    next => exact OneLine.append (by decide) (oneLine_positional _)
    next => exact OneLine.append (by decide) (oneLine_positional _)

end Number

theorem NodeKind.oneLine_name (kind : NodeKind) : OneLine kind.name := by
  cases kind <;> decide +kernel

theorem NodeRef.oneLine_text (node : NodeRef) : OneLine node.text := by
  change OneLine (node.kind.name ++ " " ++ toString node.span.line ++ ":" ++
    toString node.span.column)
  refine .append (.append (.append (.append node.kind.oneLine_name ?_) ?_) ?_) ?_
  · decide
  · exact oneLine_toString _
  · decide
  · exact oneLine_toString _

theorem Event.oneLine_label {event : Event} (words : ∀ name ∈ event.name?, IsWord name.toList) :
    OneLine event.label := by
  have name {found : String} (shown : event.name? = some found) : OneLine found :=
    oneLine_of_isWord (words found shown)
  cases event with
  | start => decide
  | taskEnqueued task delay =>
    refine .append (.append (.append (.append ?_ (name rfl)) ?_) (Number.oneLine_text delay)) ?_
    · decide
    · decide
    · decide
  | _ => exact .append (by decide) (name rfl)

theorem TaskEntry.oneLine_text {task : TaskEntry} (word : IsWord task.name.toList) :
    OneLine task.text := by
  refine .append (.append (.append (oneLine_of_isWord word) ?_) (Number.oneLine_text _)) ?_
  · decide
  · decide

namespace Report

theorem oneLine_blanks (count : Nat) : OneLine (String.ofList (List.replicate count ' ')) := by
  rw [Text.oneLine_iff, String.toList_ofList]
  intro c member
  rw [List.eq_of_mem_replicate member]
  decide

end Report

theorem Step.oneLine_line {step : Step} (words : ∀ name ∈ step.names, IsWord name.toList)
    (index : Nat) : OneLine (step.line index) := by
  simp only [Step.names, List.forall_mem_append, List.forall_mem_map, Option.mem_toList] at words
  obtain ⟨⟨⟨label, stack⟩, tasks⟩, microtasks⟩ := words
  have names {title : String} {items : List String} (single : OneLine title)
      (all : ∀ item ∈ items, OneLine item) :
      OneLine (" " ++ title ++ "=[" ++ String.intercalate ", " items ++ "]") := by
    refine .append (.append (.append (.append ?_ single) ?_) (.intercalate ?_ all)) ?_ <;> decide
  -- The parts of the line in their order, each named as it is shown.
  unfold Step.line
  refine .append (.append (.append (.append (.append (.append ?index ?gap) ?label) ?stack) ?tasks)
    ?microtasks) ?node
  case index => exact .append (Report.oneLine_blanks _) (oneLine_toString index)
  case gap => decide
  case label => exact .append (Event.oneLine_label label) (Report.oneLine_blanks _)
  case stack =>
    refine names (by decide) fun item member => ?_
    exact oneLine_of_isWord (stack item (List.mem_reverse.mp member))
  case tasks =>
    refine names (by decide) fun item member => ?_
    obtain ⟨task, waiting, rfl⟩ := List.mem_map.mp member
    exact TaskEntry.oneLine_text (tasks task waiting)
  case microtasks =>
    exact names (by decide) fun item member => oneLine_of_isWord (microtasks item member)
  case node =>
    cases step.node with
    | none => decide
    | some node => exact .append (by decide) node.oneLine_text

namespace Report

theorem toList_unlines (lines : List String) :
    (unlines lines).toList = lines.flatMap fun line => line.toList ++ ['\n'] := by
  have fold (text : String) : (lines.foldl (· ++ · ++ "\n") text).toList =
      text.toList ++ lines.flatMap fun line => line.toList ++ ['\n'] := by
    induction lines generalizing text with
    | nil => simp
    | cons line rest ih => simp [ih]
  simpa [unlines] using fold ""

theorem splitOn_unlines {first : List String} (single : ∀ line ∈ first, OneLine line)
    (rest : List String) :
    (unlines (first ++ rest)).toList.splitOn '\n' =
      first.map String.toList ++ (unlines rest).toList.splitOn '\n' := by
  induction first with
  | nil => rfl
  | cons line first ih =>
    obtain ⟨own, others⟩ := List.forall_mem_cons.mp single
    have unbroken (c : Char) (member : c ∈ line.toList) : (c == '\n') = false := by
      rw [beq_eq_false_iff_ne]
      rintro rfl
      exact Text.oneLine_iff.mp own _ member (by decide)
    have text : (unlines (line :: (first ++ rest))).toList =
        line.toList ++ '\n' :: (unlines (first ++ rest)).toList := by
      simp [toList_unlines]
    rw [List.cons_append, text, List.splitOn_eq_splitOnP,
      List.splitOnP_append_cons_of_forall_mem unbroken _ rfl, ← List.splitOn_eq_splitOnP, ih others]
    rfl

theorem head_splitOn_unlines {rest : List String} (blank : ∀ line ∈ rest.head?, line = "") :
    ∃ more, (unlines rest).toList.splitOn '\n' = [] :: more := by
  cases rest with
  | nil => exact ⟨[], rfl⟩
  | cons line rest =>
    obtain rfl := blank line rfl
    exact ⟨_, by simpa using @splitOn_unlines [""] (by decide) rest⟩

theorem head_titled (title : String) (lines : List String) :
    ∀ line ∈ (titled title lines).head?, line = "" := by
  cases lines <;> simp [titled]

theorem head_append {first second : List String} (left : ∀ line ∈ first.head?, line = "")
    (right : ∀ line ∈ second.head?, line = "") : ∀ line ∈ (first ++ second).head?, line = "" := by
  cases first with
  | nil => exact right
  | cons line rest => exact left

end Report

theorem Step.line_ne_empty (step : Step) (index : Nat) : (step.line index).toList ≠ [] := by
  simp [Step.line]

theorem Run.exists_step_of_stepLines {run : Run} {line : String} (member : line ∈ run.stepLines) :
    ∃ step ∈ run.trace, ∃ index, line = step.line index := by
  obtain ⟨⟨step, index⟩, shown, rfl⟩ := List.mem_map.mp member
  exact ⟨step, Array.mem_toList_iff.mp (List.fst_mem_of_mem_zipIdx shown), index, rfl⟩

theorem Run.lines_eq (run : Run) (shown : Bool) :
    ∃ rest, run.lines shown = run.stepLines ++ rest ∧ ∀ line ∈ rest.head?, line = "" := by
  simp only [Run.lines, List.append_assoc]
  refine ⟨_, rfl, Report.head_append (Report.head_titled _ _)
    (Report.head_append (Report.head_titled _ _) ?_)⟩
  split <;> simp

theorem Run.takeWhile_lines {run : Run} (single : ∀ line ∈ run.stepLines, OneLine line)
    (shown : Bool) :
    ((Report.unlines (run.lines shown)).toList.splitOn '\n').takeWhile (!·.isEmpty) =
      run.stepLines.map String.toList := by
  obtain ⟨rest, lines, blank⟩ := run.lines_eq shown
  obtain ⟨more, first⟩ := Report.head_splitOn_unlines blank
  rw [lines, Report.splitOn_unlines single, first, List.takeWhile_append_of_pos]
  · simp
  · intro text member
    obtain ⟨line, printed, rfl⟩ := List.mem_map.mp member
    obtain ⟨step, -, index, rfl⟩ := Run.exists_step_of_stepLines printed
    simpa using step.line_ne_empty index

/-- Every name that a run shows is a word, so that each step is printed on one line and the lines
before the first blank one are those of the steps. -/
theorem Program.run_stepLines {source : String} {program : Program}
    (parsed : parse source = .ok program) (settings : Settings) :
    let run := program.run settings
    (∀ step ∈ run.trace, ∀ name ∈ step.names,
      name.toList ≠ [] ∧ ∀ c ∈ name.toList, isWordPart c) ∧
    (∀ step ∈ run.trace, ∀ index, ∀ c ∈ (step.line index).toList, c ∉ Text.lineBreaks) ∧
    run.stepLines.length = run.trace.size ∧
    ∀ shown, ((Report.unlines (run.lines shown)).toList.splitOn '\n').takeWhile (!·.isEmpty) =
      run.stepLines.map String.toList := by
  have words (step : Step) (member : step ∈ (program.run settings).trace) (name : String)
      (shows : name ∈ step.names) : IsWord name.toList :=
    (((program.run_from settings).1 step member).names name shows).isWord parsed
  have single (step : Step) (member : step ∈ (program.run settings).trace) (index : Nat) :
      OneLine (step.line index) := Step.oneLine_line (words step member) index
  refine ⟨fun step member name shows => ?_, fun step member index => ?_, ?_, fun shown => ?_⟩
  · obtain ⟨c, rest, chars, first, others⟩ := words step member name shows
    rw [chars]
    exact ⟨List.cons_ne_nil c rest,
      List.forall_mem_cons.mpr ⟨Text.isWordPart_of_isWordStart first, others⟩⟩
  · exact Text.oneLine_iff.mp (single step member index)
  · simp [Run.stepLines]
  · refine Run.takeWhile_lines (fun line member => ?_) shown
    obtain ⟨step, recorded, index, rfl⟩ := Run.exists_step_of_stepLines member
    exact single step recorded index

def queuedFunctions : String :=
  "let $é1 = () => {};\nsetTimeout($é1, 5);\nPromise.resolve(1).then(() => {});"

theorem queuedFunctions_stepLines :
    ∃ program, Program.parse queuedFunctions = .ok program ∧
      (∀ step ∈ (program.run {}).trace, ∀ name ∈ step.names,
        name.toList ≠ [] ∧ ∀ c ∈ name.toList, isWordPart c) ∧
      (program.run {}).stepLines.length = (program.run {}).trace.size := by
  have accepted : (Program.parse queuedFunctions).isOk := by decide +kernel
  obtain ⟨program, parsed⟩ := Program.exists_of_isOk accepted
  obtain ⟨names, -, length, -⟩ := Program.run_stepLines parsed {}
  exact ⟨program, parsed, names, length⟩

end EventLoop
