import LslFront.Proofs.Block.Places
import LslFront.Proofs.Script.States
import LslFront.Proofs.Source.Expansion

/-!
# Where states get their names

A state begins with `default` and a brace, or with `state`, a name and a brace.  No line inside of
a state or a body reads like that, so the script has a state for each such line of its source and of
the sources that are included, in their order, and no others.

Whatever stands for the name in such a line becomes the name of the state, while a state change asks
for an identifier.  So a state can be declared that cannot be changed to.
-/

namespace LslFront

/-- The name of the state that a line begins. -/
def Line.stateName? (line : Line) : Option String :=
  match line.tokens with
  | ["default", "\x7b"] => some Reading.defaultState
  | ["state", name, "\x7b"] => some name
  | _ => none

/-! ### Lines outside of states and bodies -/

/-- The lines that ask for an include, and those that begin a state. -/
inductive Outer : List String → Prop where
  | directive {word name : String} : isDirective word → Outer [word, name]
  | default : Outer ["default", "\x7b"]
  | state {name : String} : Outer ["state", name, "\x7b"]

theorem Reading.exists_of_readDirective {word : String} {rest : List String}
    {asked : String × Bool} (h : readDirective word rest = .ok asked) : ∃ name, rest = [name] := by
  unfold readDirective at h
  split at h
  · split at h
    · rename_i name hname
      unfold includeName? at hname
      split at hname
      · exact ⟨_, rfl⟩
      · cases hname
    · cases h
  · cases h

theorem Line.outer_of_include {line : Line} {asked : String × Bool}
    (h : line.include? = some asked) : Outer line.tokens := by
  unfold include? at h
  split at h
  · cases h
  · rename_i word rest htokens
    split at h
    · rename_i hdirective
      cases hread : Reading.readDirective word rest with
      | error cause =>
          rw [hread] at h
          cases h
      | ok found =>
          obtain ⟨name, rfl⟩ := Reading.exists_of_readDirective hread
          rw [htokens]
          exact .directive hdirective
    · cases h

theorem Line.stateName?_eq_some_iff {line : Line} {name : String} :
    line.stateName? = some name ↔
      (line.tokens = ["default", "\x7b"] ∧ name = Reading.defaultState) ∨
        line.tokens = ["state", name, "\x7b"] := by
  constructor
  · intro h
    unfold stateName? at h
    split at h
    · rename_i htokens
      exact .inl ⟨htokens, (Option.some.inj h).symm⟩
    · rename_i htokens
      cases h
      exact .inr htokens
    · cases h
  · rintro (⟨htokens, rfl⟩ | htokens) <;> simp [stateName?, htokens]

theorem Line.outer_of_stateName {line : Line} {name : String}
    (h : line.stateName? = some name) : Outer line.tokens := by
  rcases stateName?_eq_some_iff.1 h with ⟨htokens, -⟩ | htokens
  · rw [htokens]
    exact .default
  · rw [htokens]
    exact .state

theorem Line.stateName?_of_not_mem {line : Line} {word : String} {rest : List String}
    (htokens : line.tokens = word :: rest) (hword : word ∉ ["default", "state"]) :
    line.stateName? = none := by
  simp only [List.mem_cons, List.not_mem_nil, or_false, not_or] at hword
  rw [Option.eq_none_iff_forall_ne_some]
  intro name hname
  rcases stateName?_eq_some_iff.1 hname with ⟨htokens', -⟩ | htokens'
  · exact hword.1 (List.cons.inj (htokens.symm.trans htokens')).1
  · exact hword.2 (List.cons.inj (htokens.symm.trans htokens')).1

/-- A header of a function or a handler has its name, both parentheses and a brace. -/
theorem four_le_of_readSignature {tokens : List String} {signature : Signature}
    (h : readSignature tokens = .ok signature) : 4 ≤ tokens.length := by
  unfold readSignature at h
  split at h
  · rename_i name opening rest
    split at h
    · rename_i brace closing inner hreverse
      have hlength : rest.length = inner.length + 2 := by
        rw [← List.length_reverse, hreverse, List.length_cons, List.length_cons]
      simp only [List.length_cons]
      omega
    · cases h
  · cases h

theorem Outer.length_lt {tokens : List String} (h : Outer tokens) : tokens.length < 4 := by
  cases h <;> simp

theorem Outer.ne_brace {tokens : List String} (h : Outer tokens) : tokens ≠ ["\x7d"] := by
  intro hbrace
  have hlength : tokens.length = 1 := congrArg List.length hbrace
  cases h <;> cases hlength

theorem Outer.exists_first {tokens : List String} (h : Outer tokens) :
    ∃ word rest, tokens = word :: rest ∧ word ∉ ["while", "else"] := by
  cases h with
  | @directive word name hdirective =>
      exact ⟨word, [name], rfl, not_mem_of_directive hdirective (by decide)⟩
  | default => exact ⟨_, _, rfl, by decide⟩
  | state => exact ⟨_, _, rfl, by decide⟩

/-- Such a line is no statement: it is a directive, or a brace stands where a semicolon should. -/
theorem Outer.readEffect_ne_ok {scope : Scope} {kind : BodyKind} {number : Nat}
    {tokens : List String} (h : Outer tokens) (effect : Effect) :
    readEffect scope kind number .statement tokens ≠ .ok effect := by
  cases h with
  | directive hdirective =>
      rw [readEffect_directive hdirective]
      exact fun heq => by cases heq
  | default =>
      rw [readEffect_simple (by decide) (by decide) (by decide)]
      exact fun heq => by cases heq
  | @state name =>
      have hname : singleName "state" [name, "\x7b"] = .error (.nameShape "state") := by
        simp [singleName]
      rw [readEffect_simple (by decide) (by decide) (by decide)]
      intro heq
      obtain ⟨statement, hstatement, -⟩ := map_eq_ok_iff.1 heq
      cases kind with
      | function => cases hstatement
      | event =>
          rw [simpleStatement, hname] at hstatement
          cases hstatement

/-- No line of a body is such a line. -/
theorem Body.not_outer_of_step {symbols : Symbols} {kind : BodyKind} {body : Body} {line : Line}
    {progress : Progress} (h : body.step symbols kind line = .ok progress) :
    ¬ Outer line.tokens := by
  intro houter
  obtain ⟨word, rest, htokens, hword⟩ := houter.exists_first
  simp only [List.mem_cons, List.not_mem_nil, or_false, not_or] at hword
  obtain ⟨hwhile, helse⟩ := hword
  unfold step at h
  split at h
  · have hclose := onLine_eq_ok_iff.1 h
    rw [htokens, closeDo, if_neg hwhile] at hclose
    cases hclose
  · split at h
    · rename_i hlast
      exact houter.ne_brace hlast
    · have hread := onLine_eq_ok_iff.1 h
      unfold readStatement at hread
      split at hread
      · rename_i hfirst
        exact helse (List.cons.inj (htokens.symm.trans hfirst)).1
      · obtain ⟨effect, heffect, -⟩ := bind_eq_ok_iff.1 hread
        exact houter.readEffect_ne_ok effect heffect

namespace Reading

variable {symbols : Symbols} {line : Line} {reading after : Reading} {next : Next Reading Script}

theorem not_outer_of_readHandler {state : OpenState}
    (h : readHandler symbols state line = .ok reading) : ¬ Outer line.tokens := by
  unfold readHandler at h
  split at h
  · cases h
  · rename_i hsignature
    intro houter
    have hlong := four_le_of_readSignature hsignature
    have hshort := houter.length_lt
    omega

/-- In a state or a body no line is accepted that asks for an include or begins a state. -/
theorem not_outer_of_step (h : reading.step line = .ok next) (hplace : reading.place ≠ .topLevel) :
    ¬ Outer line.tokens := by
  obtain ⟨symbols, place⟩ := reading
  unfold step at h
  cases place with
  | topLevel => exact absurd rfl hplace
  | inState state =>
      simp only at h
      split at h
      · rename_i hlast
        exact fun houter => houter.ne_brace hlast
      · obtain ⟨after, hafter, -⟩ := map_eq_ok_iff.1 h
        exact not_outer_of_readHandler (onLine_eq_ok_iff.1 hafter)
  | functionBody name opening body =>
      obtain ⟨progress, hstep, -⟩ := bind_eq_ok_iff.1 h
      exact Body.not_outer_of_step hstep
  | handlerBody state signature opening body =>
      obtain ⟨progress, hstep, -⟩ := bind_eq_ok_iff.1 h
      exact Body.not_outer_of_step hstep

/-! ### The names of the states so far -/

/-- The name of the state that is open. -/
def openName? (reading : Reading) : Option String :=
  reading.place.state?.map OpenState.name

theorem openName?_of_readDefault {number : Nat} (h : readDefault symbols number = .ok after) :
    after.openName? = some defaultState := by
  unfold readDefault at h
  split at h
  · cases h
  · cases h
    rfl

theorem openName?_of_readState {number : Nat} {name : String}
    (h : readState symbols number name = .ok after) : after.openName? = some name := by
  unfold readState at h
  split at h
  · cases h
  · split at h
    · cases h
    · split at h
      · cases h
      · cases h
        rfl

theorem openName?_of_readFunction (h : readFunction symbols line = .ok after) :
    after.openName? = none := by
  unfold readFunction at h
  obtain ⟨⟨returnType, header⟩, -, h⟩ := bind_eq_ok_iff.1 h
  obtain ⟨signature, -, h⟩ := bind_eq_ok_iff.1 h
  split at h
  · cases h
  · obtain ⟨_, -, h⟩ := bind_eq_ok_iff.1 h
    obtain ⟨symbols', -, h⟩ := bind_eq_ok_iff.1 h
    cases h
    rfl

/-- The state that a declaration begins, if any, has the name that its line gives. -/
theorem openName?_of_readDeclaration (h : readDeclaration symbols line = .ok after) :
    after.openName? = line.stateName? := by
  unfold readDeclaration at h
  split at h
  · cases h
  · rename_i first rest htokens
    split at h
    · rename_i hdefault
      split at h
      · rename_i hbrace
        rw [hdefault, hbrace] at htokens
        rw [openName?_of_readDefault h]
        exact (Line.stateName?_eq_some_iff.2 (.inl ⟨htokens, rfl⟩)).symm
      · cases h
    · rename_i hdefault
      split at h
      · rename_i hstate
        split at h
        · rename_i name brace
          split at h
          · rename_i hbrace
            rw [hstate, hbrace] at htokens
            rw [openName?_of_readState h]
            exact (Line.stateName?_eq_some_iff.2 (.inr htokens)).symm
          · cases h
        · cases h
      · rename_i hstate
        rw [Line.stateName?_of_not_mem htokens (by simp [hdefault, hstate])]
        split at h
        · cases h
        · split at h
          · split at h
            · exact openName?_of_readFunction h
            · obtain ⟨symbols', -, rfl⟩ := map_eq_ok_iff.1 h
              rfl
          · split at h
            · exact openName?_of_readFunction h
            · cases h

theorem openName?_of_readTopLevel (h : readTopLevel symbols line = .ok next)
    (hgoes : GoesOn next after) : after.openName? = line.stateName? := by
  unfold readTopLevel at h
  split at h
  · cases h
  · rename_i word rest htokens
    split at h
    · rename_i hdirective
      obtain ⟨⟨name, once⟩, -, h⟩ := bind_eq_ok_iff.1 h
      cases h
      have hword : word ∉ ["default", "state"] := not_mem_of_directive hdirective (by decide)
      rw [goesOn_splice.1 hgoes]
      exact (Line.stateName?_of_not_mem htokens hword).symm
    · obtain ⟨found, hfound, rfl⟩ := map_eq_ok_iff.1 h
      rw [goesOn_more.1 hgoes]
      exact openName?_of_readDeclaration hfound

/-- The names of the states so far, the open one included. -/
def stateNames (reading : Reading) : List String :=
  reading.symbols.script.states.names ++ reading.openName?.toList

/-- At top level no state is completed. -/
theorem Moves.states_topLevel (h : Moves ⟨symbols, .topLevel⟩ after) :
    after.symbols.script.states = symbols.script.states := by
  cases h with
  | includes | declaresGlobal | opensState => rfl
  | opensFunction _ _ _ henter =>
      have hstates := congrArg Script.states (script_of_enterBody henter)
      exact hstates

theorem stateNames_of_eq
    (hstates : after.symbols.script.states = reading.symbols.script.states)
    (hopen : after.openName? = reading.openName?) : after.stateNames = reading.stateNames := by
  rw [stateNames, stateNames, hstates, hopen]

/-- In states and bodies no state is begun, and one that is completed was open. -/
theorem Moves.stateNames_eq (h : reading.Moves after) (hplace : reading.place ≠ .topLevel)
    (horder : reading.InOrder) : after.stateNames = reading.stateNames := by
  cases h with
  | includes | declaresGlobal | opensFunction | opensState => exact absurd rfl hplace
  | readsFunction hmoves | readsHandler hmoves =>
      exact stateNames_of_eq (congrArg Script.states hmoves.script_more) rfl
  | opensHandler _ henter =>
      exact stateNames_of_eq (congrArg Script.states (script_of_enterBody henter)) rfl
  | closesFunction hmoves hclose | closesHandler hmoves hclose =>
      have hstates := congrArg Script.states (script_of_closeScope hmoves hclose)
      exact stateNames_of_eq hstates rfl
  | @closesState symbols state hevents =>
      have hnew : state.name ∉ symbols.script.states.names := (horder.follows state rfl).new
      have hnames := Table.names_insert_of_notMem hnew ⟨state.line, state.events⟩
      exact (List.append_nil _).trans hnames

/-- A line that begins a state adds its name, and no other line adds any. -/
theorem stateNames_of_step (horder : reading.InOrder) (h : reading.step line = .ok next) :
    ∃ after, GoesOn next after ∧ after.InOrder ∧
      after.stateNames = reading.stateNames ++ line.stateName?.toList := by
  obtain ⟨after, hgoes, hmoves⟩ := moves_of_step h
  refine ⟨after, hgoes, horder.step hmoves, ?_⟩
  by_cases hplace : reading.place = .topLevel
  · obtain ⟨symbols, place⟩ := reading
    obtain rfl : place = .topLevel := hplace
    have hname := openName?_of_readTopLevel (onLine_eq_ok_iff.1 h) hgoes
    have hclosed : openName? ⟨symbols, .topLevel⟩ = none := rfl
    rw [stateNames, stateNames, hmoves.states_topLevel, hname, hclosed]
    simp
  · have hnone : line.stateName? = none := by
      rw [Option.eq_none_iff_forall_ne_some]
      intro name hname
      exact not_outer_of_step h hplace (Line.outer_of_stateName hname)
    rw [hmoves.stateNames_eq hplace horder, hnone]
    simp

/-- Includes are asked for at top level only. -/
theorem place_of_splice {name : String} {once : Bool}
    (h : reading.step line = .ok (.splice after name once)) : reading.place = .topLevel := by
  obtain ⟨symbols, place⟩ := reading
  unfold step at h
  cases place with
  | topLevel => rfl
  | inState state =>
      simp only at h
      split at h
      · obtain ⟨_, -, h⟩ := bind_eq_ok_iff.1 h
        cases h
      · obtain ⟨_, -, h⟩ := map_eq_ok_iff.1 h
        cases h
  | functionBody name opening body =>
      obtain ⟨progress, -, h⟩ := bind_eq_ok_iff.1 h
      cases progress with
      | more => cases h
      | finished =>
          obtain ⟨_, -, h⟩ := bind_eq_ok_iff.1 h
          cases h
  | handlerBody state signature opening body =>
      obtain ⟨progress, -, h⟩ := bind_eq_ok_iff.1 h
      cases progress with
      | more => cases h
      | finished =>
          obtain ⟨_, -, h⟩ := bind_eq_ok_iff.1 h
          obtain ⟨_, -, h⟩ := bind_eq_ok_iff.1 h
          cases h

theorem heedsIncludes : machine.HeedsIncludes where
  more {reading line next} h := by
    rw [Option.eq_none_iff_forall_ne_some]
    rintro ⟨name, once⟩ hinclude
    by_cases hplace : reading.place = .topLevel
    · obtain ⟨symbols, place⟩ := reading
      obtain rfl : place = .topLevel := hplace
      have hsplice : readTopLevel symbols line = .ok (.splice ⟨symbols, .topLevel⟩ name once) :=
        readTopLevel_eq_splice_iff.2 ⟨rfl, hinclude⟩
      have hmore := onLine_eq_ok_iff.1 h
      cases hmore.symm.trans hsplice
    · exact not_outer_of_step h hplace (Line.outer_of_include hinclude)
  splice {reading line next name once} h := by
    have hplace := place_of_splice h
    obtain ⟨symbols, place⟩ := reading
    obtain rfl : place = .topLevel := hplace
    exact readTopLevel_eq_splice_iff.1 (onLine_eq_ok_iff.1 h)
  finished {reading line result} h := by
    obtain ⟨_, hgoes, -⟩ := moves_of_step h
    exact absurd hgoes not_goesOn_finished

/-- At the end of the source no state is open. -/
theorem names_of_atEnd {lastLine : Nat} {script : Script}
    (h : machine.atEnd reading lastLine = .ok script) :
    script.states.names = reading.stateNames := by
  obtain ⟨symbols, place⟩ := reading
  cases place with
  | topLevel =>
      have hfinish : finish symbols lastLine = .ok script := h
      unfold finish at hfinish
      simp only at hfinish
      split at hfinish
      · obtain ⟨_, -, hfinish⟩ := bind_eq_ok_iff.1 hfinish
        obtain ⟨globals, -, hfinish⟩ := bind_eq_ok_iff.1 hfinish
        cases hfinish
        exact (List.append_nil _).symm
      · cases hfinish
  | _ => cases h

/-- What is read has a state for each line that begins one. -/
theorem names_of_feed {ending : Except Fault Nat} {lines : List Line} {script : Script}
    (horder : reading.InOrder) (h : machine.feed ending reading lines = .ok script) :
    script.states.names = reading.stateNames ++ lines.filterMap Line.stateName? := by
  induction lines generalizing reading with
  | nil =>
      obtain ⟨lastLine, -, hend⟩ := bind_eq_ok_iff.1 h
      rw [names_of_atEnd hend, List.filterMap_nil, List.append_nil]
  | cons line rest ih =>
      rw [Machine.feed] at h
      cases hstep : machine.step reading line with
      | error fault =>
          rw [hstep] at h
          cases h
      | ok next =>
          obtain ⟨after, hgoes, hinOrder, hnames⟩ := stateNames_of_step horder hstep
          have hrest : machine.feed ending after rest = .ok script := by
            rw [hstep] at h
            rcases hgoes with rfl | ⟨_, _, rfl⟩ <;> exact h
          rw [ih hinOrder hrest, hnames, List.append_assoc]
          cases hline : line.stateName? <;> simp [hline]

end Reading

/-! ### Compiled scripts -/

/-- What is compiled is read from the lines that the source expands to. -/
theorem feed_of_compile {source : String} {options : Options} {loader : Loader} {script : Script}
    (h : compile source options loader = .ok script) :
    ∃ read includes, script = { read with includes } ∧
      Reading.machine.feed (expand loader options.includeLimit source).ending
        ⟨.ofDialect ((Directives.ofSource source).accepted options.baseline), .topLevel⟩
        (expand loader options.includeLimit source).lines = .ok read := by
  unfold compile at h
  obtain ⟨⟨read, after⟩, hrun, h⟩ := bind_eq_ok_iff.1 h
  cases h
  have hfeed := Source.feed_of_run Reading.heedsIncludes hrun
  rw [Source.handedOut_ofText] at hfeed
  exact ⟨read, after.included, rfl, hfeed⟩

theorem names_of_compile {source : String} {options : Options} {loader : Loader} {script : Script}
    (h : compile source options loader = .ok script) :
    script.states.names
      = (expand loader options.includeLimit source).lines.filterMap Line.stateName? := by
  obtain ⟨read, includes, rfl, hfeed⟩ := feed_of_compile h
  have hnames := Reading.names_of_feed (Reading.Reached.inOrder .start) hfeed
  exact hnames

/-- A handler can name the state, to change to it. -/
def Targetable (name : String) : Prop :=
  ∀ scope line, readEffect scope .event line .statement ["state", name, ";"]
    = .ok (.complete .statement (.stateChange line name))

theorem targetable_iff {name : String} : Targetable name ↔ isIdentifier name := by
  have hread : ∀ scope line, readEffect scope .event line .statement ["state", name, ";"]
      = (((singleName "state" [name, ";"]).mapError .structural).map (.stateChange line)).map
          (.complete .statement) :=
    fun scope line => readEffect_simple (by decide) (by decide) (by decide)
  constructor
  · intro h
    have hname := (hread ⟨.standard, fun _ => false⟩ 1).symm.trans (h _ 1)
    by_contra hnot
    simp [singleName, hnot, Except.map, Except.mapError] at hname
  · intro h scope line
    rw [hread]
    simp [singleName, h]

/-- The states of a script are those that the lines of the expanded source begin, in their order.
    All are named by identifiers just if every line that begins one with `state` has an identifier
    there, and a state that is named by anything else cannot be changed to. -/
theorem compile_states_named_iff {source : String} {options : Options} {loader : Loader}
    {script : Script} (h : compile source options loader = .ok script) :
    script.states.names
        = (expand loader options.includeLimit source).lines.filterMap Line.stateName? ∧
      ((∀ name ∈ script.states.names, isIdentifier name) ↔
        ∀ line ∈ (expand loader options.includeLimit source).lines, ∀ name,
          line.tokens = ["state", name, "\x7b"] → isIdentifier name) ∧
      ∀ name ∈ script.states.names, Targetable name ↔ isIdentifier name := by
  have hnames := names_of_compile h
  refine ⟨hnames, ?_, fun name _ => targetable_iff⟩
  rw [hnames]
  constructor
  · intro hall line hline name htokens
    have hname := Line.stateName?_eq_some_iff.2 (.inr htokens)
    exact hall name (List.mem_filterMap.mpr ⟨line, hline, hname⟩)
  · intro hlines name hmem
    obtain ⟨line, hline, hname⟩ := List.mem_filterMap.mp hmem
    rcases Line.stateName?_eq_some_iff.1 hname with ⟨-, rfl⟩ | htokens
    · decide
    · exact hlines line hline name htokens

/-- A state may be declared in a source that is included, and it is changed to from before. -/
theorem compile_states_named_iff_included :
    let source := "default \x7b timer() \x7b state busy; \x7d \x7d\n#include \"busy\"\n"
      ++ "state done \x7b timer() \x7b \x7d \x7d"
    let loader := Loader.ofList [("busy", "state busy \x7b timer() \x7b state done; \x7d \x7d")]
    ∃ script, compile source .standard loader = .ok script ∧
      script.states.names = ["default", "busy", "done"] ∧
      ∀ line ∈ (expand loader Options.standard.includeLimit source).lines, ∀ name,
        line.tokens = ["state", name, "\x7b"] → isIdentifier name := by
  intro source loader
  have hcomputed : ((compileFor 20 source .standard loader).bind Except.toOption).map
      (fun script => script.states.names) = some ["default", "busy", "done"] := by decide +kernel
  obtain ⟨script, hcompile, hnames⟩ := exists_of_compileFor hcomputed
  refine ⟨script, hcompile, hnames, (compile_states_named_iff hcompile).2.1.mp ?_⟩
  rw [hnames]
  decide

/-- A state can be declared under a number. -/
theorem compile_names_state_by_number :
    let source := "default \x7b timer() \x7b \x7d \x7d\nstate 5 \x7b timer() \x7b \x7d \x7d"
    ∃ script, compile source .standard .none = .ok script ∧ "5" ∈ script.states.names ∧
      ¬ isIdentifier "5" ∧ ¬ Targetable "5" := by
  intro source
  have hcomputed : ((compileFor 20 source .standard .none).bind Except.toOption).map
      (fun script => script.states.names) = some ["default", "5"] := by decide +kernel
  obtain ⟨script, hcompile, hnames⟩ := exists_of_compileFor hcomputed
  refine ⟨script, hcompile, ?_, by decide, fun h => absurd (targetable_iff.1 h) (by decide)⟩
  rw [hnames]
  decide

end LslFront
