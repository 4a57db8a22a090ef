import LslFront.Proofs.Block.Moves
import LslFront.Proofs.Source.Reach
import LslFront.Proofs.Source.Runs
import LslFront.Script.Reader

/-!
# What a line can do to a script

`Reading.Moves` has one constructor for each thing that a line can do to a script under way.  Every
line that `Reading.step` accepts does one of them, in the main source as in those that are included,
so what holds of the blank script and is kept by every move holds whenever a line is read.  A script
that has been compiled was read completely and left at top level.
-/

namespace LslFront

namespace Reading

/-- What a line does to a script under way. -/
inductive Moves : Reading → Reading → Prop where
  | includes {symbols} : Moves ⟨symbols, .topLevel⟩ ⟨symbols, .topLevel⟩
  | declaresGlobal {symbols name global} : hasStates symbols = false →
      symbols.checkNew name = .ok () → Moves ⟨symbols, .topLevel⟩
        ⟨{ symbols with script := { symbols.script with
          globals := symbols.script.globals.insert name global } }, .topLevel⟩
  /-- The function is entered before its body, which is empty until it has been read. -/
  | opensFunction {symbols name function symbols'} : hasStates symbols = false →
      symbols.checkNew name = .ok () → function.body = .bare function.line →
      enterBody { symbols with script :=
        { symbols.script with functions := symbols.script.functions.insert name function } }
        function.params = .ok symbols' →
      Moves ⟨symbols, .topLevel⟩
        ⟨symbols', .functionBody name function.line (.opened function.line)⟩
  | readsFunction {symbols name line body symbols' body'} :
      body.Moves .function symbols (.more symbols' body') →
      Moves ⟨symbols, .functionBody name line body⟩ ⟨symbols', .functionBody name line body'⟩
  | closesFunction {symbols name line body inner block symbols'} :
      body.Moves .function symbols (.finished inner block) → inner.closeScope = .ok symbols' →
      Moves ⟨symbols, .functionBody name line body⟩ ⟨finishFunction symbols' name block, .topLevel⟩
  /-- The first state is `default`, and no other has its name. -/
  | opensState {symbols name line} :
      (name = defaultState ↔ symbols.script.states.contains defaultState = false) →
      symbols.script.states.contains name = false →
      Moves ⟨symbols, .topLevel⟩ ⟨symbols, .inState ⟨name, line, .empty⟩⟩
  | closesState {symbols state} : state.events.isEmpty = false →
      Moves ⟨symbols, .inState state⟩ ⟨{ symbols with script := { symbols.script with
        states := symbols.script.states.insert state.name ⟨state.line, state.events⟩ } }, .topLevel⟩
  | opensHandler {symbols state signature line symbols'} :
      Builtin.event? signature.name = some (signature.params.map Parameter.ty) →
      enterBody symbols signature.params = .ok symbols' →
      Moves ⟨symbols, .inState state⟩
        ⟨symbols', .handlerBody state signature line (.opened line)⟩
  | readsHandler {symbols state signature line body symbols' body'} :
      body.Moves .event symbols (.more symbols' body') →
      Moves ⟨symbols, .handlerBody state signature line body⟩
        ⟨symbols', .handlerBody state signature line body'⟩
  | closesHandler {symbols state signature line body inner block symbols'} :
      body.Moves .event symbols (.finished inner block) → inner.closeScope = .ok symbols' →
      state.events.contains signature.name = false →
      Moves ⟨symbols, .handlerBody state signature line body⟩ ⟨symbols', .inState { state with
        events := state.events.insert signature.name ⟨signature.params, block, line⟩ }⟩

variable {symbols symbols' : Symbols} {line : Line} {reading : Reading}

/-! ### Lines at top level -/

theorem moves_of_readGlobal (h : readGlobal symbols line = .ok symbols') :
    Moves ⟨symbols, .topLevel⟩ ⟨symbols', .topLevel⟩ := by
  unfold readGlobal at h
  split at h
  · cases h
  · split at h
    · cases h
    · split at h
      · cases h
      · split at h
        · cases h
        · rename_i hstates
          obtain ⟨_, hnew, h⟩ := bind_eq_ok_iff.1 h
          cases h
          exact .declaresGlobal (by simpa using hstates) hnew

theorem moves_of_readFunction (h : readFunction symbols line = .ok reading) :
    Moves ⟨symbols, .topLevel⟩ reading := by
  unfold readFunction at h
  obtain ⟨⟨returnType, header⟩, -, h⟩ := bind_eq_ok_iff.1 h
  obtain ⟨signature, -, h⟩ := bind_eq_ok_iff.1 h
  split at h
  · cases h
  · rename_i hstates
    obtain ⟨_, hnew, h⟩ := bind_eq_ok_iff.1 h
    obtain ⟨symbols', henter, h⟩ := bind_eq_ok_iff.1 h
    cases h
    exact .opensFunction (by simpa using hstates) hnew rfl henter

theorem moves_of_readState {number : Nat} {name : String}
    (h : readState symbols number name = .ok reading) : Moves ⟨symbols, .topLevel⟩ reading := by
  unfold readState at h
  split at h
  · cases h
  · rename_i hname
    split at h
    · cases h
    · rename_i hdefault
      split at h
      · cases h
      · rename_i hnew
        cases h
        exact .opensState (by simpa [hname] using hdefault) (by simpa using hnew)

theorem moves_of_readDefault {number : Nat} (h : readDefault symbols number = .ok reading) :
    Moves ⟨symbols, .topLevel⟩ reading := by
  unfold readDefault at h
  split at h
  · cases h
  · rename_i hdefault
    cases h
    exact .opensState (by simpa using hdefault) (by simpa using hdefault)

theorem moves_of_readDeclaration (h : readDeclaration symbols line = .ok reading) :
    Moves ⟨symbols, .topLevel⟩ reading := by
  unfold readDeclaration at h
  split at h
  · cases h
  · split at h
    · split at h
      · exact moves_of_readDefault h
      · cases h
    · split at h
      · split at h
        · split at h
          · exact moves_of_readState h
          · cases h
        · cases h
      · split at h
        · cases h
        · split at h
          · split at h
            · exact moves_of_readFunction h
            · obtain ⟨symbols', hglobal, rfl⟩ := map_eq_ok_iff.1 h
              exact moves_of_readGlobal hglobal
          · split at h
            · exact moves_of_readFunction h
            · cases h

/-- A reading that goes on, from a source that is included if one is. -/
def GoesOn (next : Next Reading Script) (after : Reading) : Prop :=
  next = .more after ∨ ∃ name once, next = .splice after name once

@[simp] theorem goesOn_more {next after : Reading} : GoesOn (.more next) after ↔ after = next := by
  simp [GoesOn, eq_comm]

@[simp] theorem goesOn_splice {next after : Reading} {name : String} {once : Bool} :
    GoesOn (.splice next name once) after ↔ after = next := by
  simp [GoesOn, eq_comm]

@[simp] theorem not_goesOn_finished {script : Script} {after : Reading} :
    ¬ GoesOn (.finished script) after := by
  simp [GoesOn]

theorem GoesOn.unique {next : Next Reading Script} {after found : Reading} (h : GoesOn next after)
    (hfound : GoesOn next found) : found = after := by
  cases next with
  | more => rw [goesOn_more.1 h, goesOn_more.1 hfound]
  | splice => rw [goesOn_splice.1 h, goesOn_splice.1 hfound]
  | finished => exact absurd h not_goesOn_finished

theorem moves_of_readTopLevel {next : Next Reading Script}
    (h : readTopLevel symbols line = .ok next) :
    ∃ after, GoesOn next after ∧ Moves ⟨symbols, .topLevel⟩ after := by
  unfold readTopLevel at h
  split at h
  · cases h
  · split at h
    · obtain ⟨⟨name, once⟩, -, h⟩ := bind_eq_ok_iff.1 h
      cases h
      exact ⟨_, .inr ⟨name, once, rfl⟩, .includes⟩
    · obtain ⟨after, hafter, rfl⟩ := map_eq_ok_iff.1 h
      exact ⟨after, .inl rfl, moves_of_readDeclaration hafter⟩

/-! ### Lines in states and bodies -/

theorem moves_of_readHandler {state : OpenState}
    (h : readHandler symbols state line = .ok reading) :
    Moves ⟨symbols, .inState state⟩ reading := by
  unfold readHandler at h
  split at h
  · cases h
  · split at h
    · cases h
    · rename_i signature _ expected hexpected
      simp only at h
      split at h
      · rename_i hfound
        obtain ⟨symbols', henter, h⟩ := bind_eq_ok_iff.1 h
        cases h
        rw [← hfound] at hexpected
        exact .opensHandler hexpected henter
      · cases h

theorem moves_of_finishState {state : OpenState}
    (h : finishState symbols state = .ok symbols') :
    Moves ⟨symbols, .inState state⟩ ⟨symbols', .topLevel⟩ := by
  unfold finishState at h
  split at h
  · cases h
  · rename_i hevents
    cases h
    exact .closesState (by simpa using hevents)

/-- A line that is accepted makes one of the moves, and the reading goes on after it. -/
theorem moves_of_step {next : Next Reading Script} (h : reading.step line = .ok next) :
    ∃ after, GoesOn next after ∧ reading.Moves after := by
  obtain ⟨symbols, place⟩ := reading
  unfold step at h
  cases place with
  | topLevel => exact moves_of_readTopLevel (onLine_eq_ok_iff.1 h)
  | inState state =>
      simp only at h
      split at h
      · obtain ⟨symbols', hfinish, h⟩ := bind_eq_ok_iff.1 h
        cases h
        exact ⟨_, .inl rfl, moves_of_finishState hfinish⟩
      · obtain ⟨after, hafter, rfl⟩ := map_eq_ok_iff.1 h
        exact ⟨after, .inl rfl, moves_of_readHandler (onLine_eq_ok_iff.1 hafter)⟩
  | functionBody name opening body =>
      obtain ⟨progress, hstep, h⟩ := bind_eq_ok_iff.1 h
      have hmoves := Body.moves_of_step hstep
      cases progress with
      | more symbols' body' =>
          cases h
          exact ⟨_, .inl rfl, .readsFunction hmoves⟩
      | finished inner block =>
          obtain ⟨symbols', hclose, h⟩ := bind_eq_ok_iff.1 h
          cases h
          exact ⟨_, .inl rfl, .closesFunction hmoves (onLine_eq_ok_iff.1 hclose)⟩
  | handlerBody state signature opening body =>
      obtain ⟨progress, hstep, h⟩ := bind_eq_ok_iff.1 h
      have hmoves := Body.moves_of_step hstep
      cases progress with
      | more symbols' body' =>
          cases h
          exact ⟨_, .inl rfl, .readsHandler hmoves⟩
      | finished inner block =>
          obtain ⟨symbols', hclose, h⟩ := bind_eq_ok_iff.1 h
          obtain ⟨state', hfinish, h⟩ := bind_eq_ok_iff.1 h
          cases h
          have hfinish := onLine_eq_ok_iff.1 hfinish
          unfold finishHandler at hfinish
          split at hfinish
          · cases hfinish
          · rename_i hnew
            cases hfinish
            exact ⟨_, .inl rfl,
              .closesHandler hmoves (onLine_eq_ok_iff.1 hclose) (by simpa using hnew)⟩

/-- A script is only complete at the end of its source. -/
theorem step_ne_finished (reading : Reading) (line : Line) (script : Script) :
    reading.step line ≠ .ok (.finished script) := by
  intro h
  obtain ⟨after, hgoes, -⟩ := moves_of_step h
  exact not_goesOn_finished hgoes

/-! ### Whole scripts -/

/-- The reading of a script in this dialect can come to a state. -/
def Reached (dialect : Dialect) (reading : Reading) : Prop :=
  machine.Reaches ⟨.ofDialect dialect, .topLevel⟩ reading

/-- What holds of the blank script and is kept by every move. -/
theorem Reached.invariant {dialect : Dialect} {P : Reading → Prop}
    (hstart : P ⟨.ofDialect dialect, .topLevel⟩)
    (hmoves : ∀ {before after : Reading}, before.Moves after → P before → P after)
    (h : reading.Reached dialect) : P reading := by
  induction h with
  | start => exact hstart
  | more _ hstep ih =>
      obtain ⟨after, hgoes, hmove⟩ := moves_of_step hstep
      rw [goesOn_more.1 hgoes] at hmove
      exact hmoves hmove ih
  | splice _ hstep ih =>
      obtain ⟨after, hgoes, hmove⟩ := moves_of_step hstep
      rw [goesOn_splice.1 hgoes] at hmove
      exact hmoves hmove ih

theorem script_of_enterBody {params : List Parameter}
    (h : enterBody symbols params = .ok symbols') : symbols'.script = symbols.script := by
  unfold enterBody at h
  have hscript := Symbols.script_declareAll h
  exact hscript

/-- A body that has been closed leaves the script as it was. -/
theorem script_of_closeScope {kind : BodyKind} {body : Body} {inner : Symbols} {block : Block}
    (hmoves : body.Moves kind symbols (.finished inner block))
    (hclose : inner.closeScope = .ok symbols') : symbols'.script = symbols.script :=
  (Symbols.script_closeScope hclose).trans hmoves.script_finished

end Reading

/-! ### Declarations -/

/-- What a line can do to the declarations of a script. -/
inductive Script.Grows : Script → Script → Prop where
  | same {script} : Grows script script
  | global {script name global} : script.states.isEmpty → script.Admits name →
      Grows script { script with globals := script.globals.insert name global }
  | function {script name function} : script.states.isEmpty → script.Admits name →
      Grows script { script with functions := script.functions.insert name function }
  | body {script name block} : Grows script
      { script with functions := script.functions.modify name ({ · with body := block }) }
  | state {script name state} :
      Grows script { script with states := script.states.insert name state }

namespace Reading

theorem Moves.grows {before after : Reading} (h : before.Moves after) :
    before.symbols.script.Grows after.symbols.script := by
  cases h with
  | includes | opensState => exact .same
  | declaresGlobal hstates hnew =>
      exact .global (by simpa [hasStates] using hstates) (Symbols.checkNew_eq_ok_iff.1 hnew).1
  | opensFunction hstates hnew _ henter =>
      show Script.Grows _ (Symbols.script _)
      rw [script_of_enterBody henter]
      exact .function (by simpa [hasStates] using hstates) (Symbols.checkNew_eq_ok_iff.1 hnew).1
  | closesState => exact .state
  | opensHandler _ henter =>
      show Script.Grows _ (Symbols.script _)
      rw [script_of_enterBody henter]
      exact .same
  | readsFunction hmoves | readsHandler hmoves =>
      show Script.Grows _ (Symbols.script _)
      rw [hmoves.script_more]
      exact .same
  | closesFunction hmoves hclose =>
      have hscript := script_of_closeScope hmoves hclose
      show Script.Grows _ (Symbols.script (finishFunction _ _ _))
      rw [finishFunction, hscript]
      exact .body
  | closesHandler hmoves hclose =>
      have hscript := script_of_closeScope hmoves hclose
      show Script.Grows _ (Symbols.script _)
      rw [hscript]
      exact .same

/-- What holds of the blank script and is kept as it grows. -/
theorem Reached.of_grows {dialect : Dialect} {reading : Reading} {P : Script → Prop}
    (hblank : P (.blank dialect))
    (hgrows : ∀ {before after : Script}, before.Grows after → P before → P after)
    (h : reading.Reached dialect) : P reading.symbols.script := by
  apply h.invariant (P := fun reading => P reading.symbols.script)
  · exact hblank
  · intro before after hmoves hbefore
    exact hgrows hmoves.grows hbefore

/-- The dialect of a script is that which it began in. -/
theorem Reached.dialect_eq {dialect : Dialect} {reading : Reading} (h : reading.Reached dialect) :
    reading.symbols.script.dialect = dialect := by
  apply h.of_grows (P := fun script => script.dialect = dialect)
  · rfl
  · intro before after hgrows hbefore
    cases hgrows <;> exact hbefore

end Reading

/-- A source may end at top level, when there is a state to begin in, state changes have targets, and
    initializers can be resolved. -/
theorem Reading.atEnd_eq_ok_iff {reading : Reading} {lastLine : Nat} {script : Script} :
    reading.atEnd lastLine = .ok script ↔ reading.place = .topLevel ∧
      reading.symbols.script.states.contains defaultState ∧
      checkTargets reading.symbols.script = .ok () ∧ ∃ globals,
        resolveGlobals reading.symbols.scope reading.symbols.script.globals.entries = .ok globals ∧
        { reading.symbols.script with globals := ⟨globals⟩ } = script := by
  obtain ⟨symbols, place⟩ := reading
  cases place with
  | topLevel =>
      show finish symbols lastLine = .ok script ↔ _
      unfold finish
      by_cases hdefault : symbols.script.states.contains defaultState
      · simp [hdefault, Unique.exists_iff]
      · simp [hdefault]
  | _ => simp [atEnd]

/-- A compiled script is what the reading of its source has come to at top level, with the
    initializers resolved: it has a state, and its state changes have targets. -/
theorem exists_of_compile {source : String} {options : Options} {loader : Loader} {script : Script}
    (h : compile source options loader = .ok script) : ∃ symbols globals,
      Reading.Reached ((Directives.ofSource source).accepted options.baseline)
        ⟨symbols, .topLevel⟩ ∧
      symbols.script.states.contains Reading.defaultState ∧
      Reading.checkTargets symbols.script = .ok () ∧
      Reading.resolveGlobals symbols.scope symbols.script.globals.entries = .ok globals ∧
      script = { symbols.script with globals := ⟨globals⟩, includes := script.includes } := by
  unfold compile at h
  obtain ⟨⟨result, after⟩, hrun, h⟩ := bind_eq_ok_iff.1 h
  obtain ⟨⟨symbols, place⟩, hreached, hgives⟩ := Source.run_eq_ok hrun
  cases h
  cases hgives with
  | finished hstep => exact absurd hstep (Reading.step_ne_finished _ _ _)
  | atEnd hend =>
      obtain ⟨rfl, hdefault, htargets, globals, hglobals, rfl⟩ := Reading.atEnd_eq_ok_iff.1 hend
      exact ⟨symbols, globals, hreached, hdefault, htargets, hglobals, rfl⟩

/-! ### Scripts that are computed -/

/-- What compiling gives, if at most `count` lines are read for it. -/
def compileFor (count : Nat) (source : String) (options : Options) (loader : Loader) :
    Option (Except Fault Script) :=
  let dialect := (Directives.ofSource source).accepted options.baseline
  ((Source.ofText source options.includeLimit).runFor Reading.machine loader count
    ⟨.ofDialect dialect, .topLevel⟩).map fun answer =>
      answer.map fun (script, after) => { script with includes := after.included }

/-- A script that is computed line by line is the compiled one. -/
theorem exists_of_compileFor {α : Type} {count : Nat} {source : String} {options : Options}
    {loader : Loader} {view : Script → α} {value : α}
    (h : ((compileFor count source options loader).bind Except.toOption).map view = some value) :
    ∃ script, compile source options loader = .ok script ∧ view script = value := by
  obtain ⟨script, hscript, hview⟩ := Option.map_eq_some_iff.mp h
  obtain ⟨answer, hanswer, hok⟩ := Option.bind_eq_some_iff.mp hscript
  obtain ⟨outcome, hrun, rfl⟩ := Option.map_eq_some_iff.mp hanswer
  refine ⟨script, ?_, hview⟩
  rw [compile, Source.run_of_runFor hrun]
  cases outcome with
  | error fault => cases hok
  | ok result =>
      cases hok
      rfl

/-- The fault of a computation that has failed. -/
def fault? {α : Type} : Except Fault α → Option Fault
  | .error fault => some fault
  | .ok _ => none

theorem compile_eq_error_of_compileFor {count : Nat} {source : String} {options : Options}
    {loader : Loader} {fault : Fault}
    (h : (compileFor count source options loader).bind fault? = some fault) :
    compile source options loader = .error fault := by
  obtain ⟨answer, hanswer, hfault⟩ := Option.bind_eq_some_iff.mp h
  obtain ⟨outcome, hrun, rfl⟩ := Option.map_eq_some_iff.mp hanswer
  rw [compile, Source.run_of_runFor hrun]
  cases outcome with
  | error found =>
      cases hfault
      rfl
  | ok result => cases hfault

end LslFront
