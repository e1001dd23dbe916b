import EventLoop.Proofs.Logged
import EventLoop.Proofs.Soundness

set_option autoImplicit false

/-!
# Runs as journeys

Every logged computation of a run gets to its outcome by a journey, or by a cut where the step limit
strikes, and its log tells the acts on the way.
-/

namespace EventLoop

inductive Enacted {α : Type} (settings : Settings) (start : Config) (Post : Config → α → Prop) :
    Outcome α × List Entry → Prop where
  | done {acts : List Act} {value : α} {after : Config}
      (journey : Journey settings start acts after) (post : Post after value) :
      Enacted settings start Post (.done value after.machine, acts.map Act.entry)
  | halted {acts : List Act} {after : Config} (cut : Cut settings start acts after) :
      Enacted settings start Post (.halted after.machine, acts.map Act.entry)

namespace Enacted

variable {α β : Type} {settings : Settings} {start : Config} {Post : Config → α → Prop}

theorem after {acts : List Act} {middle : Config} {outcome : Outcome α} {log : List Entry}
    (journey : Journey settings start acts middle)
    (enacted : Enacted settings middle Post (outcome, log)) :
    Enacted settings start Post (outcome, acts.map Act.entry ++ log) := by
  cases enacted with
  | done rest post =>
      rw [← List.map_append]
      exact .done (journey.trans rest) post
  | halted cut =>
      rw [← List.map_append]
      exact .halted (cut.after journey)

theorem mono {Weaker : Config → α → Prop} {result : Outcome α × List Entry}
    (enacted : Enacted settings start Post result)
    (weaker : ∀ after value, Post after value → Weaker after value) :
    Enacted settings start Weaker result := by
  cases enacted with
  | done journey post => exact .done journey (weaker _ _ post)
  | halted cut => exact .halted cut

theorem bind {Last : Config → β → Prop} {first : Logged α} {next : α → Logged β}
    {machine : Machine} (sound : start.Sound)
    (firstEnacted : Enacted settings start Post (first settings machine))
    (nextEnacted : ∀ middle value, middle.Sound → start.machine.extent ≤ middle.machine.extent →
      Post middle value → Enacted settings middle Last (next value settings middle.machine)) :
    Enacted settings start Last ((first >>= next) settings machine) := by
  generalize ran : first settings machine = result at firstEnacted
  cases firstEnacted with
  | done journey post =>
      rw [Logged.bind_of_done ran]
      exact (nextEnacted _ _ (journey.sound sound) journey.extent_le post).after journey
  | halted cut =>
      rw [Logged.bind_of_halted ran]
      exact .halted cut

theorem silent {acts : List Act} {value : α} {after : Config}
    (effect : Effect start acts none after) (post : Post after value) :
    Enacted settings start Post (.done value after.machine, acts.map Act.entry) :=
  .done (.single effect) post

theorem recordThen {acts late : List Act} {event : Event} {after : Config} {tail : Logged α}
    {value : α} (effect : Effect start acts (some (event, late)) after) (node : Option NodeRef)
    (tells : ∀ machine, tail settings machine = (.done value machine, late.map Act.entry))
    (post : Post (after.record event node) value) {result : Outcome α × List Entry}
    (ran : (Actions.record event node >>= fun _ => tail) settings after.machine = result) :
    Enacted settings start Post (result.1, acts.map Act.entry ++ result.2) := by
  subst ran
  by_cases full : settings.maxSteps ≤ after.machine.trace.size
  next =>
    have halts : (Actions.record event node : Logged Unit) settings after.machine =
        (.halted after.machine, []) := by
      simp [Actions.record, Logged.telling, Simulation.record, full]
    rw [Logged.bind_of_halted halts, List.append_nil]
    exact .halted (.intro .refl effect full)
  next =>
    have records : (Actions.record event node : Logged Unit) settings after.machine =
        (.done () (after.machine.recorded event node), [.record event]) := by
      simp [Actions.record, Logged.telling, Simulation.record, full, Machine.recorded]
    rw [Logged.bind_of_done records, tells]
    have journey : Journey settings start ([] ++ (acts ++ .record event :: late))
        (after.record event node) := .recorded .refl effect node (by omega)
    have entries : acts.map Act.entry ++ ([Entry.record event] ++ late.map Act.entry) =
        ([] ++ (acts ++ Act.record event :: late)).map Act.entry := by
      simp [Act.entry]
    rw [entries]
    exact .done journey post

theorem record {Post : Config → Unit → Prop} {acts : List Act} {event : Event} {after : Config}
    (effect : Effect start acts (some (event, [])) after) (node : Option NodeRef)
    (post : Post (after.record event node) ()) {result : Outcome Unit × List Entry}
    (ran : (Actions.record event node : Logged Unit) settings after.machine = result) :
    Enacted settings start Post (result.1, acts.map Act.entry ++ result.2) := by
  have nothing : (Actions.record event node >>= fun _ => Pure.pure () : Logged Unit) =
      Actions.record event node := bind_pure _
  rw [← nothing] at ran
  exact recordThen effect node (fun _ => rfl) post ran

theorem addMicrotaskThen {acts late : List Act} {microtask : Microtask} {machine : Machine}
    {duty : Duty} {tail : Logged α} {value : α}
    (effect : Effect start acts (some (.microtaskEnqueued microtask.name, late))
      ⟨machine.withMicrotask microtask, duty⟩) (node : Option NodeRef) {early : List Entry}
    (told : acts.map Act.entry = early ++ [.enqueue microtask])
    (tells : ∀ machine, tail settings machine = (.done value machine, late.map Act.entry))
    (post : ∀ after : Config, after.duty = duty →
      after.machine.extent = machine.extent → Post after value) :
    let result := (addMicrotask microtask node >>= fun _ => tail) settings machine
    Enacted settings start Post (result.1, early ++ result.2) := by
  have enacted := recordThen effect node tells (post _ rfl rfl) rfl
  rw [told, List.append_assoc] at enacted
  have split : (addMicrotask microtask node >>= fun _ => tail) =
      Actions.enqueueMicrotask microtask >>= fun _ =>
        Actions.record (.microtaskEnqueued microtask.name) node >>= fun _ => tail := by
    simp [addMicrotask]
  rw [split]
  exact enacted

theorem tells_call (builtin : Builtin) (arguments : List Value) (result : Value)
    (machine : Machine) :
    Actions.observe (.call builtin arguments) (Pure.pure result : Logged Value) settings machine =
      (.done result machine, [Act.call builtin arguments result].map Act.entry) := rfl

theorem subscribe {source : PromiseId} {reaction : Reaction} {act : Act} {late : List Act}
    {machine : Machine} {duty : Duty} {tail : Logged α} {value : α} (sound : machine.Sound)
    (known : source < machine.promises.size) (told : act.entry = .subscribe source reaction)
    (effect : ∀ {acts : List Act} {notice : Notice} {changed : Machine},
      Subscribes source reaction act late machine acts notice changed →
        Effect start acts notice ⟨changed, duty⟩)
    (tells : ∀ machine, tail settings machine = (.done value machine, late.map Act.entry))
    (post : ∀ after : Config, after.duty = duty → after.machine.extent = machine.extent →
      Post after value) :
    Enacted settings start Post
      ((Reactions.subscribe source reaction >>= fun _ => tail) settings machine) := by
  have keeps : (Actions.keepReaction source reaction : Logged (Option Value)) settings machine =
      (.done (machine.promises.subscribe source reaction).1
        { machine with promises := (machine.promises.subscribe source reaction).2 },
        [.subscribe source reaction]) := rfl
  rw [Reactions.subscribe, bind_assoc, Logged.bind_of_done keeps]
  obtain ⟨reactions, pending⟩ | ⟨given, settled⟩ := Promises.get?_cases known
  next =>
    rw [Promises.subscribe_of_pending sound.tidy pending]
    have subscribes : Subscribes source reaction act late machine _ _ _ := .kept pending
    have enacted : Enacted settings start Post _ :=
      .silent (effect subscribes) (post _ rfl subscribes.extent)
    rw [List.map_cons, told] at enacted
    simp only [pure_bind, tells]
    exact enacted
  next =>
    rw [Promises.subscribe_of_fulfilled settled]
    have entries : [act, .react source reaction given].map Act.entry =
        [.subscribe source reaction] ++ [.enqueue ⟨reaction.name, .reaction reaction given⟩] := by
      rw [List.map_cons, told]
      rfl
    exact addMicrotaskThen (effect (.queued settled)) none entries tells post

end Enacted

-- Evaluation from a sound configuration of the given extent keeps the duty, and its value is as the
-- postcondition says.
def Enacts (settings : Settings) {α : Type} (world : Extent) (Post : Extent → α → Prop)
    (logged : Logged α) : Prop :=
  ∀ config : Config, config.duty.Evaluates → config.Sound → config.machine.extent = world →
    Enacted settings config
      (fun after value => after.duty = config.duty ∧ Post after.machine.extent value)
      (logged settings config.machine)

namespace Enacts

variable {α β : Type} {settings : Settings} {world : Extent}

theorem pure {Post : Extent → α → Prop} {value : α} (post : Post world value) :
    Enacts settings world Post (Pure.pure value) := by
  rintro config - - rfl
  exact .done .refl ⟨rfl, post⟩

theorem bind {Mid : Extent → α → Prop} {Post : Extent → β → Prop} {first : Logged α}
    {next : α → Logged β} (firstEnacts : Enacts settings world Mid first)
    (nextEnacts : ∀ later value, world ≤ later → Mid later value →
      Enacts settings later Post (next value)) :
    Enacts settings world Post (first >>= next) := by
  rintro config evaluates sound rfl
  refine (firstEnacts config evaluates sound rfl).bind sound ?_
  rintro middle value middleSound grown ⟨duty, mid⟩
  have rest := nextEnacts _ value grown mid middle (duty ▸ evaluates) middleSound rfl
  exact rest.mono fun after value post => ⟨post.1.trans duty, post.2⟩

theorem mono {Post Weaker : Extent → α → Prop} {logged : Logged α}
    (enacts : Enacts settings world Post logged)
    (weaker : ∀ later value, world ≤ later → Post later value → Weaker later value) :
    Enacts settings world Weaker logged := by
  have chained := enacts.bind fun later value grown post =>
    Enacts.pure (weaker later value grown post)
  rwa [bind_pure] at chained

theorem quiet {Post : Extent → α → Prop} {logged : Logged α}
    (silent : ∀ machine, machine.Sound → machine.extent = world →
      ∃ value stack scopes callables,
        logged settings machine =
          (.done value { machine with stack := stack, scopes := scopes, callables := callables },
            []) ∧
        machine.scopes.size ≤ scopes.size ∧
        scopes.Within ⟨scopes.size, machine.promises.size⟩ ∧
        Post ⟨scopes.size, machine.promises.size⟩ value) :
    Enacts settings world Post logged := by
  intro config evaluates sound same
  obtain ⟨value, stack, scopes, callables, result, grown, within, post⟩ :=
    silent config.machine sound.machine same
  rw [result]
  exact .silent (.operation evaluates (.quiet stack scopes callables grown within)) ⟨rfl, post⟩

theorem frame {config : Config} (evaluates : config.duty.Evaluates) (sound : config.Sound)
    (change : List String → List String) (event : Event) (isFrame : event.IsFrame)
    (node : Option NodeRef) :
    Enacted settings config
      (fun after (_ : Unit) => after.duty = config.duty ∧
        after.machine.extent = config.machine.extent)
      ((do
        Logged.silent (Simulation.modify fun machine =>
          { machine with stack := change machine.stack })
        Actions.record event node : Logged Unit) settings config.machine) := by
  have changed : Operation config.machine [] none
      { config.machine with stack := change config.machine.stack } :=
    .quiet _ _ _ (Nat.le_refl _) sound.machine.scopes
  refine Enacted.after (.single (.operation evaluates changed)) ?_
  exact .record (.operation evaluates (.frame _ isFrame)) node ⟨rfl, rfl⟩ rfl

theorem withFrame {Post : Extent → α → Prop} (name : String) (node : Option NodeRef)
    {body : Logged α} (bodyEnacts : Enacts settings world Post body) :
    Enacts settings world Post (withFrame name node body) := by
  rintro config evaluates sound rfl
  have split : EventLoop.withFrame name node body = do
      (do Actions.pushFrame name; Actions.record (.push name) node)
      let result ← body
      (do Actions.popFrame; Actions.record (.pop name) node)
      return result := by simp [EventLoop.withFrame]
  rw [split]
  refine (frame evaluates sound (name :: ·) (.push name) trivial node).bind sound ?_
  rintro pushed - pushedSound - ⟨duty, extent⟩
  refine (bodyEnacts pushed (duty ▸ evaluates) pushedSound extent).bind pushedSound ?_
  rintro ran result ranSound - ⟨sameDuty, post⟩
  have duties := sameDuty.trans duty
  refine (frame (duties ▸ evaluates) ranSound List.tail (.pop name) trivial node).bind ranSound ?_
  rintro popped - - - ⟨lastDuty, sameExtent⟩
  exact .done .refl ⟨lastDuty.trans duties, sameExtent ▸ post⟩

section Builtins

variable {arguments : List Value} (site : Option CallSite)

theorem report (problem : Problem) (span : Option Span) :
    Enacts settings world (fun _ _ => True) (Actions.report problem span) := by
  intro config evaluates sound same
  exact .silent (.operation evaluates (.report config.machine _)) ⟨rfl, trivial⟩

theorem write (level : ConsoleLevel) (arguments : List Value) :
    Enacts settings world (fun _ _ => True) (level.write arguments) := by
  intro config evaluates sound same
  exact .silent (.operation evaluates (.writeLine config.machine _ _)) ⟨rfl, trivial⟩

theorem answer {builtin : Builtin} {code : Logged Value}
    (enacts : Enacts settings world (fun later value => value.Within later ∧
      ∀ machine : Machine, machine.Answers arguments builtin value) code) :
    Enacts settings world Value.Within (Actions.observe (.call builtin arguments) code) := by
  refine enacts.bind fun later value _ given => ?_
  obtain ⟨within, answers⟩ := given
  rintro config evaluates sound rfl
  exact .silent (.operation evaluates (.answer (answers _))) ⟨rfl, within⟩

theorem head_within (all : ∀ argument ∈ arguments, argument.Within world) :
    (arguments.head?.getD .undefined).Within world := by
  cases same : arguments.head? with
  | none => trivial
  | some argument => exact all argument (List.mem_of_mem_head? same)

theorem head?_of_callable (callable : (arguments.head?.getD .undefined).isCallable = true) :
    arguments.head? = some (arguments.head?.getD .undefined) := by
  cases same : arguments.head? with
  | none =>
      rw [same] at callable
      cases callable
  | some argument => rfl

theorem setTimeout (all : ∀ argument ∈ arguments, argument.Within world) :
    Enacts settings world Value.Within (Builtin.setTimeout.call arguments site) := by
  cases callable : (arguments.head?.getD .undefined).isCallable with
  | false =>
      refine answer ?_
      simp only [Builtin.perform, Timers.setTimeout, callable, Bool.false_eq_true, if_false]
      exact (report _ _).bind fun _ _ _ _ => pure ⟨trivial, fun _ => ⟨callable, rfl⟩⟩
  | true =>
      rintro config evaluates sound rfl
      let callback := arguments.head?.getD .undefined
      let task : Task :=
        ⟨⟨callback.callbackName, Timers.delayFor site arguments[1]?⟩, config.machine.tasks.nextId.1,
          callback, arguments.drop 2⟩
      have within : task.Within config.machine.extent :=
        ⟨⟨callable, head_within all⟩, fun argument member =>
          all argument (List.mem_of_mem_drop member)⟩
      have operation : Operation config.machine [.addTask task]
          (some (.taskEnqueued task.name task.delay,
            [.call .setTimeout arguments (.number task.id.toFloat)]))
          { config.machine with tasks := config.machine.tasks.nextId.2.enqueue task } :=
        .addTask rfl ⟨_, rfl⟩ (head?_of_callable callable) rfl within
      have split : (Builtin.setTimeout.call arguments site : Logged Value) =
          Actions.nextTimer >>= fun id =>
            Actions.enqueueTask ⟨task.toTaskEntry, id, callback, arguments.drop 2⟩ >>= fun _ =>
              Actions.record (.taskEnqueued task.name task.delay) (site.map CallSite.ref) >>=
                fun _ => Actions.observe (.call .setTimeout arguments)
                  (Pure.pure (.number id.toFloat)) := by
        simp only [Builtin.call, Builtin.perform, Timers.setTimeout, callable, if_true, addTask,
          bind_assoc, pure_bind, Logged.observe_bind]
        rfl
      rw [split]
      exact Enacted.recordThen (.operation evaluates operation) (site.map CallSite.ref)
        (Enacted.tells_call _ _ _) ⟨rfl, trivial⟩ rfl

theorem clearTimeout : Enacts settings world Value.Within
    (Builtin.clearTimeout.call arguments site) := by
  cases named : Timers.timerNamed? arguments with
  | none =>
      refine answer ?_
      simp only [Builtin.perform, Timers.clearTimeout, named]
      exact pure ⟨trivial, fun _ => ⟨by simp [named], rfl⟩⟩
  | some id =>
      rintro config evaluates sound rfl
      have cancels : (Actions.cancelTask? id : Logged (Option Task)) settings config.machine =
          Logged.telling (fun _ task => task.toList.map .removeTask) (Simulation.cancelTask? id)
            settings config.machine := rfl
      rw [Builtin.call, Builtin.perform, Timers.clearTimeout]
      simp only [named, removeTask, bind_assoc]
      rw [Logged.observe_bind]
      cases pending : config.machine.tasks.cancel? id with
      | none =>
          have nothing : (Actions.cancelTask? id : Logged (Option Task)) settings config.machine =
              (.done none config.machine, []) := by
            simp [cancels, Logged.telling, Simulation.cancelTask?, Simulation.update, pending]
          rw [Logged.bind_of_done nothing]
          have answers : config.machine.Answers arguments .clearTimeout .undefined := by
            refine ⟨fun other same => ?_, rfl⟩
            cases named.symm.trans same
            exact pending
          exact .silent (.operation evaluates (.answer answers)) ⟨rfl, trivial⟩
      | some cancelled =>
          obtain ⟨task, tasks⟩ := cancelled
          have removes : (Actions.cancelTask? id : Logged (Option Task)) settings config.machine =
              (.done (some task) { config.machine with tasks := tasks }, [.removeTask task]) := by
            simp [cancels, Logged.telling, Simulation.cancelTask?, Simulation.update, pending]
          rw [Logged.bind_of_done removes, Logged.observe_bind]
          exact Enacted.recordThen (.operation evaluates (.removeTask named pending))
            (site.map CallSite.ref) (Enacted.tells_call _ _ _) ⟨rfl, trivial⟩ rfl

theorem queueMicrotask (all : ∀ argument ∈ arguments, argument.Within world) :
    Enacts settings world Value.Within (Builtin.queueMicrotask.call arguments site) := by
  cases callable : (arguments.head?.getD .undefined).isCallable with
  | false =>
      refine answer ?_
      simp only [Builtin.perform, Timers.queueMicrotask, callable, Bool.false_eq_true, if_false]
      exact (report _ _).bind fun _ _ _ _ => pure ⟨trivial, fun _ => trivial⟩
  | true =>
      rintro config evaluates sound rfl
      let callback := arguments.head?.getD .undefined
      have operation := Operation.queueMicrotask arguments ⟨callable, head_within all⟩
      have split : (Builtin.queueMicrotask.call arguments site : Logged Value) =
          addMicrotask ⟨callback.callbackName, .callback callback⟩ (site.map CallSite.ref) >>=
            fun _ => Actions.observe (.call .queueMicrotask arguments) (Pure.pure .undefined) := by
        simp only [Builtin.call, Builtin.perform, Timers.queueMicrotask, callable, if_true,
          Logged.observe_bind]
        rfl
      rw [split]
      have entries : [Act.enqueue ⟨callback.callbackName, .callback callback⟩].map Act.entry =
          [] ++ [.enqueue ⟨callback.callbackName, .callback callback⟩] := rfl
      exact Enacted.addMicrotaskThen (.operation evaluates operation) _ entries
        (Enacted.tells_call _ _ _) fun after duty extent => ⟨duty, trivial⟩

theorem promiseOf {value : Value} (within : value.Within world) :
    Enacts settings world (fun later id => id < later.promises) (Reactions.promiseOf value) := by
  obtain final | ⟨id, rfl⟩ := value.final_or_promise
  next =>
    rw [Reactions.promiseOf_of_final final]
    rintro config evaluates sound rfl
    refine .silent (.operation evaluates (.hold ⟨final, within⟩)) ⟨rfl, ?_⟩
    simp [Machine.extent_withPromise]
  next => exact pure within

theorem register {kind : ReactionKind} {source : PromiseId} (known : source < world.promises)
    (all : ∀ argument ∈ arguments, argument.Within world) :
    Enacts settings world Value.Within ((Builtin.promiseMethod kind source).call arguments
      site) := by
  rintro config evaluates sound rfl
  let derived := config.machine.promises.size
  let reaction : Reaction := ⟨kind, .ofArguments arguments, derived⟩
  let entered := config.machine.withPromise (.pending [])
  have grown := config.machine.extent_le_withPromise (.pending [])
  have enteredSound : entered.Sound :=
    sound.machine.withPromise fun reaction member => by simp at member
  have split : ((Builtin.promiseMethod kind source).call arguments site : Logged Value) =
      Actions.createPromise (.pending []) >>= fun derived =>
        Reactions.subscribe source ⟨kind, .ofArguments arguments, derived⟩ >>= fun _ =>
          Actions.observe (.call (.promiseMethod kind source) arguments)
            (Pure.pure (.promise derived)) := by
    simp only [Builtin.call, Builtin.perform, Reactions.register, Logged.observe_bind]
  have creates : (Actions.createPromise (.pending []) : Logged PromiseId) settings config.machine =
      (.done derived entered, []) := rfl
  rw [split, Logged.bind_of_done creates]
  refine Enacted.subscribe enteredSound (Nat.lt_of_lt_of_le known grown.2) rfl
    (fun subscribes => .operation evaluates (.register known all subscribes))
    (Enacted.tells_call _ _ _) ?_
  intro after duty extent
  refine ⟨duty, ?_⟩
  rw [extent]
  simp [Value.Within, entered, Machine.extent_withPromise]

theorem builtin {builtin : Builtin} (known : Value.Within world (.builtin builtin))
    (all : ∀ argument ∈ arguments, argument.Within world) :
    Enacts settings world Value.Within (builtin.call arguments site) := by
  cases builtin with
  | setTimeout => exact setTimeout site all
  | clearTimeout => exact clearTimeout site
  | queueMicrotask => exact queueMicrotask site all
  | console => exact answer (pure ⟨trivial, fun _ => trivial⟩)
  | consoleMethod level =>
      refine answer ?_
      exact (write level arguments).bind fun _ _ _ _ => pure ⟨trivial, fun _ => trivial⟩
  | promise => exact answer (pure ⟨trivial, fun _ => trivial⟩)
  | promiseResolve =>
      refine answer ?_
      exact (promiseOf (head_within all)).bind fun _ _ _ bound => pure ⟨bound, fun _ => trivial⟩
  | promiseMethod kind source => exact register site known all

end Builtins

theorem changeScopes (change : Scopes → Scopes)
    (size : ∀ scopes, (change scopes).size = scopes.size)
    (keeps : ∀ scopes, scopes.Within world → (change scopes).Within world) :
    Enacts settings world (fun _ _ => True)
      (.silent (Simulation.modify fun machine =>
        { machine with scopes := change machine.scopes })) := by
  refine quiet fun machine sound same => ?_
  subst same
  refine ⟨_, _, change machine.scopes, _, rfl, ?_, ?_, trivial⟩
  · exact Nat.le_of_eq (size _).symm
  · rw [size]
    exact keeps _ sound.scopes

theorem createScope {outer : ScopeId} :
    Enacts settings world (fun later scope => scope < later.scopes)
      (Actions.createScope outer) := by
  refine quiet fun machine sound _ => ?_
  have size : (machine.scopes.create outer).2.size = machine.scopes.size + 1 := by simp
  have grown : machine.extent ≤ ⟨machine.scopes.size + 1, machine.promises.size⟩ :=
    ⟨Nat.le_succ _, Nat.le_refl _⟩
  refine ⟨_, _, (machine.scopes.create outer).2, _, rfl, by omega, ?_, ?_⟩
  · exact size ▸ (sound.scopes.create outer).grow grown
  · exact size ▸ Nat.lt_succ_self _

theorem lookup (scope : ScopeId) (name : String) :
    Enacts settings world Value.Within (Actions.lookup scope name) := by
  refine quiet fun machine sound _ => ⟨_, _, _, _, rfl, Nat.le_refl _, sound.scopes, ?_⟩
  show Value.Within _ ((machine.scopes.lookup? scope name).getD (Simulation.globalValue name))
  cases found : machine.scopes.lookup? scope name with
  | none => exact (Simulation.globalValue_plain name).within _
  | some value => exact sound.scopes.lookup? found

theorem judgement (settings : Settings) :
    Judgement (m := Logged) (n := Logged) (fun _ => True) Value.Within
      (fun world scope => scope < world.scopes)
      fun world Post logged _ => Enacts settings world Post logged where
  part _ _ := trivial
  plain plain := plain.within _
  method _ good := good
  closure good := good
  code _ := trivial
  grow grown good := good.grow grown
  growScope grown known := Nat.lt_of_lt_of_le known grown.1
  pure := pure
  bind := bind
  withFrame name node _ _ := withFrame name node
  report problem _ span _ _ _ := report problem (some span)
  makeFunction _ _ known := quiet fun _ sound same =>
    ⟨_, _, _, _, rfl, Nat.le_refl _, sound.scopes, by subst same; exact known⟩
  declare {_ _ scope} name _ good := changeScopes (·.declare scope name _) (fun _ => by simp)
    fun _ within => within.declare scope name good
  assign {_ _ _ scope} name _ _ _ good := changeScopes (·.assign scope name _) (fun _ => by simp)
    fun _ within => within.assign scope name good
  createScope _ := createScope
  lookup name _ := lookup _ name
  builtin _ _ known all := builtin _ known all

theorem call (room : Nat) {callable : Callable} {arguments : List Value}
    (within : Value.Within world (.function callable))
    (all : ∀ argument ∈ arguments, argument.Within world) :
    Enacts settings world Value.Within (callable.call room arguments) := by
  induction room generalizing callable arguments world with
  | zero =>
      intro config
      have place : (SyntaxNode.function callable.node).span = callable.node.span := rfl
      exact (judgement settings).skip (.callDepthExceeded settings.maxCallDepth) rfl trivial place
        config
  | succ room ih => exact (judgement settings).call_succ room room ih within all

theorem invoke {callee : Value} {arguments : List Value} (within : callee.Within world)
    (all : ∀ argument ∈ arguments, argument.Within world) :
    Enacts settings world Value.Within (invoke callee arguments) := by
  cases callee with
  | function callable =>
      intro config
      exact call settings.maxCallDepth within all config
  | builtin builtin => exact Enacts.builtin none within all
  | _ => exact pure trivial

theorem execBody {scope : ScopeId} (known : scope < world.scopes) (body : List Statement) :
    Enacts settings world (fun _ _ => True)
      (execBody (Callable.call settings.maxCallDepth) scope body) := by
  let calls : FunctionCalls Logged := Callable.call settings.maxCallDepth
  exact (@Calculus.execBody _ _ _ _ _ _ _ _ _ _ _ _ (judgement settings).toCalculus world scope
    calls calls (fun good all => call _ good all) known body fun _ _ => trivial).mono
      fun _ _ _ _ => trivial

end Enacts

namespace Enacted

variable {settings : Settings} {machine : Machine}

theorem callValue {Post : Config → Value → Prop} {duty : Duty} {callee : Value}
    {arguments : List Value} (sound : Config.Sound ⟨machine, duty⟩) (evaluates : duty.Evaluates)
    (within : callee.Within machine.extent)
    (all : ∀ argument ∈ arguments, argument.Within machine.extent)
    (returns : ∀ middle result, result.Within middle.extent → ∃ next : Duty,
      Effect ⟨middle, duty⟩ [.invoke callee arguments result] none ⟨middle, next⟩ ∧
        Post ⟨middle, next⟩ result) :
    Enacted settings ⟨machine, duty⟩ Post (EventLoop.callValue (m := Logged) callee arguments
      settings machine) := by
  refine (Enacts.invoke within all ⟨machine, duty⟩ evaluates sound rfl).bind sound ?_
  rintro ⟨middle, _⟩ result - - ⟨rfl, within⟩
  obtain ⟨next, effect, post⟩ := returns middle result within
  exact .silent effect post

theorem awaitOutcome {reaction : Reaction} {outcome value : Value}
    (sound : Config.Sound ⟨machine, .await reaction outcome value⟩) :
    Enacted settings ⟨machine, .await reaction outcome value⟩
      (fun after waited => after.duty = .await reaction (.promise waited) value ∧
        waited < after.machine.promises.size)
      (Reactions.promiseOf (m := Logged) outcome settings machine) := by
  have within := sound.duty.2.2.1
  obtain final | ⟨id, rfl⟩ := outcome.final_or_promise
  next =>
    rw [Reactions.promiseOf_of_final final]
    refine .silent (.holdOutcome ⟨final, within⟩) ⟨rfl, ?_⟩
    simp [Machine.withPromise]
  next => exact .done .refl ⟨rfl, within⟩

theorem restoreAfter {reaction : Reaction} {outcome value : Value}
    (sound : Config.Sound ⟨machine, .await reaction outcome value⟩) :
    Enacted settings ⟨machine, .await reaction outcome value⟩
      (fun after result => after.duty = .settle reaction.derived result)
      (Reactions.restoreAfter (m := Logged) outcome value settings machine) := by
  refine (awaitOutcome sound).bind sound ?_
  rintro ⟨middle, _⟩ waited middleSound - ⟨rfl, known⟩
  -- The new promise and its reaction count as one effect, which is why the code is unfolded up to
  -- it.
  let restored := middle.promises.size
  let entered := middle.withPromise (.pending [])
  have enteredSound : entered.Sound :=
    middleSound.machine.withPromise fun reaction member => by simp at member
  have grown := middle.extent_le_withPromise (.pending [])
  have creates : (Actions.createPromise (.pending []) : Logged PromiseId) settings middle =
      (.done restored entered, []) := rfl
  dsimp only
  rw [Logged.bind_of_done creates]
  have returns (machine : Machine) : (Pure.pure (.promise restored) : Logged Value) settings
    machine =
      (.done (.promise restored) machine, ([] : List Act).map Act.entry) := rfl
  exact subscribe enteredSound (Nat.lt_of_lt_of_le known grown.2) rfl
    (fun subscribes => .restore known subscribes) returns fun after duty _ => duty

theorem result {reaction : Reaction} {value : Value}
    (sound : Config.Sound ⟨machine, .react reaction value⟩) :
    Enacted settings ⟨machine, .react reaction value⟩
      (fun after result => after.duty = .settle reaction.derived result)
      (Reactions.result (m := Logged) EventLoop.callValue reaction value settings machine) := by
  have within := sound.duty
  obtain ⟨kind, handler, derived⟩ := reaction
  have given {result : Value} (gives : Reaction.Gives ⟨kind, handler, derived⟩ value result) :
      Enacted settings ⟨machine, .react ⟨kind, handler, derived⟩ value⟩
        (fun after result => after.duty = .settle derived result) (.done result machine, []) :=
    .silent (.result gives) rfl
  cases handler with
  | passThrough => cases kind <;> exact given rfl
  | restore saved => cases kind <;> exact given rfl
  | callback callback =>
      have called : callback.Within machine.extent := within.1.handler.2
      -- Only the callbacks of then and finally are called.
      cases kind with
      | onThen =>
          refine callValue sound trivial called (by simpa using within.2.2) ?_
          exact fun middle result fits => ⟨_, .calledThen rfl rfl fits, rfl⟩
      | onCatch => exact given rfl
      | onFinally =>
          have ran : Enacted settings ⟨machine,
            .react ⟨.onFinally, .callback callback, derived⟩ value⟩
              (fun after outcome =>
                after.duty = .await ⟨.onFinally, .callback callback, derived⟩ outcome value)
              (EventLoop.callValue (m := Logged) callback [] settings machine) := by
            refine callValue sound trivial called (by simp) ?_
            exact fun middle outcome fits => ⟨_, .calledFinally rfl rfl fits, rfl⟩
          refine ran.bind sound ?_
          rintro ⟨middle, _⟩ outcome middleSound - rfl
          exact restoreAfter middleSound

theorem enqueueAll {source : PromiseId} {value : Value} {reactions : List Reaction}
    (sound : Config.Sound ⟨machine, .release source value reactions⟩) :
    Enacted settings ⟨machine, .release source value reactions⟩
      (fun after _ => after.duty = .ended)
      (Reactions.enqueueAll (m := Logged) value reactions settings machine) := by
  induction reactions generalizing machine with
  | nil => exact .silent (.released machine source value) rfl
  | cons reaction rest ih =>
      have first : Enacted settings ⟨machine, .release source value (reaction :: rest)⟩
          (fun after (_ : Unit) => after.duty = .release source value rest)
          (Reactions.enqueue (m := Logged) reaction value settings machine) :=
        .record (.release machine source value reaction rest) none rfl rfl
      refine first.bind sound ?_
      rintro ⟨middle, _⟩ - middleSound - rfl
      exact ih middleSound

theorem settle {id : PromiseId} {value : Value} (sound : Config.Sound ⟨machine, .settle id value⟩) :
    Enacted settings ⟨machine, .settle id value⟩ (fun after _ => after.duty = .ended)
      (Reactions.settle (m := Logged) id value settings machine) := by
  obtain final | ⟨other, rfl⟩ := value.final_or_promise
  next =>
    rw [Reactions.settle_of_final final]
    have fulfilled := Effect.fulfill machine id final
    exact (enqueueAll (fulfilled.sound sound)).after (.single fulfilled)
  next =>
    by_cases same : other = id
    · subst same
      simp only [Reactions.settle, beq_self_eq_true, if_true]
      exact .silent (.settleSelf machine other) rfl
    · simp only [Reactions.settle, beq_eq_false_iff_ne.mpr same, Bool.false_eq_true, if_false]
      exact .record (.settleFollow machine same) none rfl rfl

theorem follow {promise other : PromiseId} (sound : Config.Sound ⟨machine, .follow promise other⟩) :
    Enacted settings ⟨machine, .follow promise other⟩ (fun after _ => after.duty = .ended)
      (Reactions.follow (m := Logged) promise other settings machine) := by
  have enacted : Enacted settings ⟨machine, .follow promise other⟩
      (fun after (_ : Unit) => after.duty = .ended)
      ((Reactions.follow promise other >>= fun _ => Pure.pure () : Logged Unit) settings machine) :=
    subscribe sound.machine sound.duty.2 rfl (fun subscribes => .follow sound.duty.2 subscribes)
      (fun _ => rfl) fun after duty _ => duty
  have nothing : (Reactions.follow promise other >>= fun _ => Pure.pure () : Logged Unit) =
      Reactions.follow promise other := bind_pure _
  rwa [nothing] at enacted

theorem job {job : Job} (sound : Config.Sound ⟨machine, job.duty⟩) :
    Enacted settings ⟨machine, job.duty⟩ (fun after _ => after.duty = .ended)
      (job.run (m := Logged) settings machine) := by
  cases job with
  | callback value =>
      have within := sound.duty
      have called : Enacted settings ⟨machine, .callback value⟩ (fun after _ => after.duty = .ended)
          (EventLoop.callValue (m := Logged) value [] settings machine) :=
        callValue sound trivial within.2 (by simp) fun _ _ _ => ⟨_, .calledBack _ _ _, rfl⟩
      exact called.bind sound fun middle _ _ _ same => .done .refl same
  | reaction waiting value =>
      refine (result sound).bind sound ?_
      rintro ⟨middle, _⟩ outcome middleSound - rfl
      exact settle middleSound
  | follow promise other => exact follow sound

theorem task {task : Task} (sound : Config.Sound ⟨machine, .task task⟩) :
    Enacted settings ⟨machine, .task task⟩ (fun after _ => after.duty = .ran task)
      (EventLoop.callValue (m := Logged) task.callback task.arguments settings machine) :=
  callValue sound trivial sound.duty.callback.2 sound.duty.arguments fun _ _ _ =>
    ⟨_, .ranTask _ _ _, rfl⟩

theorem finish {α : Type} {entered : Config} {body : Logged α}
    (sound : entered.Sound) (event : Event) (node : Option NodeRef)
    (ran : Enacted settings entered (fun after _ => after.duty.Ends event)
      (body settings entered.machine)) :
    Enacted settings entered (fun after _ => after.duty = .free)
      ((do let _ ← body; Actions.record event node; return true : Logged Bool) settings
        entered.machine) := by
  refine ran.bind sound ?_
  rintro ⟨middle, duty⟩ - - - ends
  have returns (machine : Machine) : (Pure.pure true : Logged Bool) settings machine =
      (.done true machine, ([] : List Act).map Act.entry) := rfl
  exact .recordThen (.finish middle ends) node returns rfl rfl

theorem turn (sound : machine.Sound) :
    Enacted settings ⟨machine, .free⟩ (fun after _ => after.duty = .free)
      (turn (m := Logged) settings machine) := by
  have config : Config.Sound ⟨machine, .free⟩ := ⟨sound, trivial⟩
  cases microtasks : machine.microtasks.microtasks with
  | cons microtask rest =>
      -- What is taken out of a queue becomes the duty, which the end of the turn discharges.
      have taken : Effect ⟨machine, .free⟩ _ none _ := .takeMicrotask microtasks
      have entered := taken.sound config
      rw [Logged.turn_of_microtask microtasks]
      refine (finish entered _ _ ((job entered).mono ?_)).after (.single taken)
      intro after _ same
      rw [same]
      trivial
  | nil =>
      cases tasks : machine.tasks.tasks with
      | nil =>
          rw [Logged.turn_of_empty microtasks tasks]
          exact .done .refl rfl
      | cons task rest =>
          have taken : Effect ⟨machine, .free⟩ _ none _ := .takeTask microtasks tasks
          have entered := taken.sound config
          rw [Logged.turn_of_task microtasks tasks]
          refine (finish entered _ _ ((Enacted.task entered).mono ?_)).after (.single taken)
          intro after _ same
          rw [same]
          rfl

end Enacted

end EventLoop
