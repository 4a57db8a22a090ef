import LslFront.Proofs.Block.Scopes
import LslFront.Proofs.Script.Moves

/-!
# The bodies of a script

A body that has been read is `Proper`: this can be said of it without the scopes that it was read
in.  While a script is being read, its functions and handlers have proper bodies, whatever else is
under way; `Reading.Sound` says so together with what carries it, which scopes are open at which
place, and every move keeps it.

A body was read after what stands before it.  So its names are not those of the functions so far,
its own included, and as states come last, the names in a handler are those of no global variable
and no function at all.
-/

namespace LslFront

/-! ### Proper bodies -/

/-- The parameters of a body and the variables that it declares at any depth. -/
def localNames (params : List Parameter) (body : Block) : List String :=
  params.map Parameter.name ++ body.blocks.flatMap fun block => declaredNames block.statements

/-- The names of a body are free and differ where they could be confused. -/
structure HygienicBody (dialect : Dialect) (params : List Parameter) (body : Block) : Prop where
  outermost : (params.map Parameter.name ++ declaredNames body.statements).Nodup
  blocks : ∀ block ∈ body.blocks, (declaredNames block.statements).Nodup
  usable : ∀ name ∈ localNames params body, dialect.Usable name

/-- What holds of a body and its parameters wherever it stands. -/
structure Proper (kind : BodyKind) (dialect : Dialect) (params : List Parameter) (body : Block) :
    Prop extends HygienicBody dialect params body where
  allowed : ∀ block ∈ body.blocks, ∀ statement ∈ block.statements, statement.allowed kind

section

variable {kind : BodyKind} {params : List Parameter} {symbols symbols' : Symbols} {body : Block}

theorem allowed_of_leaves {statements : List Statement}
    (h : ∀ statement ∈ leaves statements, statement.allowed kind) :
    ∀ statement ∈ statements, statement.allowed kind := by
  intro statement hmem
  by_cases hleaf : statement.isLeaf
  · exact h statement (mem_leaves.2 ⟨hmem, hleaf⟩)
  · cases statement with
    | stateChange => exact absurd rfl hleaf
    | _ => rfl

namespace Block.Sound

variable (h : body.Sound kind (params.map Parameter.entry) [] symbols)
include h

theorem exists_scope : ∃ scope, symbols.scopes = [scope] ∧
    scope.names = params.map Parameter.name ++ declaredNames body.statements := by
  obtain ⟨scope, others, hsplit, hentries, hothers⟩ := List.map_eq_cons_iff.mp h.scopes
  rw [List.map_eq_nil_iff.mp hothers] at hsplit
  refine ⟨scope, hsplit, ?_⟩
  simp [Table.names, hentries, declaredNames, Parameter.entry, Function.comp_def]

theorem closeScope (hclose : symbols.closeScope = .ok symbols') :
    symbols' = { symbols with scopes := [] } := by
  obtain ⟨scope, hscopes, -⟩ := h.exists_scope
  obtain ⟨innermost, outer, hsplit, rfl⟩ := Symbols.closeScope_eq_ok_iff.1 hclose
  rw [hscopes] at hsplit
  cases hsplit
  rfl

theorem admits {name : String} (hname : name ∈ localNames params body) :
    symbols.script.Admits name := by
  obtain ⟨scope, hscopes, hnames⟩ := h.exists_scope
  obtain ⟨-, hscope⟩ := h.wellScoped scope (by simp [hscopes])
  rw [hnames] at hscope
  rcases List.mem_append.mp hname with hname | hname
  · exact hscope name (List.mem_append_left _ hname)
  · obtain ⟨block, hblock, hname⟩ := List.mem_flatMap.mp hname
    apply (h.obeys block hblock).admitted name
    rw [declaredNames_leaves]
    exact hname

theorem proper : Proper kind symbols.script.dialect params body := by
  obtain ⟨scope, hscopes, hnames⟩ := h.exists_scope
  obtain ⟨hnodup, -⟩ := h.wellScoped scope (by simp [hscopes])
  have hygienic : HygienicBody symbols.script.dialect params body := by
    constructor
    · rw [← hnames]
      exact hnodup
    · intro block hblock
      rw [← declaredNames_leaves]
      exact (h.obeys block hblock).distinct
    · intro name hname
      exact (h.admits hname).usable
  refine ⟨hygienic, ?_⟩
  intro block hblock
  exact allowed_of_leaves (h.obeys block hblock).allowed

end Block.Sound

/-- The scope of a body is open, with the parameters in it. -/
theorem scopes_of_enterBody (h : Reading.enterBody symbols params = .ok symbols')
    (hscopes : symbols.scopes = []) :
    symbols'.WellScoped ∧ symbols'.scopes.map Table.entries = [params.map Parameter.entry] := by
  have hscoped : symbols.openScope.WellScoped := by
    apply Symbols.WellScoped.openScope
    rw [Symbols.WellScoped, hscopes]
    exact fun _ hmem => absurd hmem List.not_mem_nil
  have hopen : symbols.openScope.scopes = .empty :: [] := by
    rw [Symbols.openScope, hscopes]
  have hall := hscoped.declareAll h
  obtain ⟨scope, rfl, hentries⟩ := Symbols.declareAll_eq_ok hopen h
  exact ⟨hall, by simpa using hentries⟩

/-- A body that has only been opened is complete without a statement. -/
theorem Block.sound_bare {line : Nat} (hscoped : symbols.WellScoped)
    (hscopes : symbols.scopes.map Table.entries = [params.map Parameter.entry]) :
    (Block.bare line).Sound kind (params.map Parameter.entry) [] symbols where
  wellScoped := hscoped
  scopes := by simp [hscopes, Block.bare, Block.statements]
  obeys := obey_blocks.2 ⟨.nil true, obey_nil⟩

end

/-! ### Functions and handlers -/

def Function.localNames (function : Function) : List String :=
  LslFront.localNames function.params function.body

def Handler.localNames (handler : Handler) : List String :=
  LslFront.localNames handler.params handler.body

/-- A handler whose names nothing else in the script holds. -/
structure Script.HandlerProper (script : Script) (handler : Handler) : Prop where
  proper : Proper .event script.dialect handler.params handler.body
  admitted : ∀ name ∈ handler.localNames, script.Admits name

/-- The functions and handlers of a script have proper bodies, and a function has no name of
    itself or of one before it. -/
structure Script.Proper (script : Script) : Prop where
  functions : ∀ name function, (name, function) ∈ script.functions.entries →
    LslFront.Proper .function script.dialect function.params function.body ∧
      name ∉ function.localNames
  earlier : script.functions.entries.Pairwise fun first second => first.1 ∉ second.2.localNames
  handlers : ∀ state ∈ script.states.values, ∀ handler ∈ state.events.values,
    script.HandlerProper handler

namespace Script.Proper

variable {script : Script}

/-- A script without states has no handlers. -/
theorem of_no_states (hstates : script.states.isEmpty)
    (hfunctions : ∀ name function, (name, function) ∈ script.functions.entries →
      LslFront.Proper .function script.dialect function.params function.body ∧
        name ∉ function.localNames)
    (hearlier : script.functions.entries.Pairwise
      fun first second => first.1 ∉ second.2.localNames) : script.Proper where
  functions := hfunctions
  earlier := hearlier
  handlers := by
    intro state hmem
    rw [Table.values, List.isEmpty_iff.mp hstates] at hmem
    exact absurd hmem List.not_mem_nil

theorem insert_function (h : script.Proper) (hstates : script.states.isEmpty) {name : String}
    {function : Function} (hnew : name ∉ script.functions.names)
    (hproper : LslFront.Proper .function script.dialect function.params function.body)
    (hfree : ∀ known ∈ function.localNames,
      known ∉ (script.functions.insert name function).names) :
    Proper { script with functions := script.functions.insert name function } := by
  rw [Table.names_insert_of_notMem hnew] at hfree
  have hown : ∀ known ∈ script.functions.names ++ [name], known ∉ function.localNames :=
    fun known hknown hlocal => hfree known hlocal hknown
  obtain ⟨hothers, hself⟩ := List.forall_mem_append.mp hown
  apply of_no_states
  · exact hstates
  · intro known found hmem
    rcases Table.mem_entries_insert hmem with hmem | ⟨rfl, rfl⟩
    · exact h.functions known found hmem
    · exact ⟨hproper, hself known (List.mem_singleton.mpr rfl)⟩
  · rw [Table.entries_insert hnew]
    refine List.pairwise_append.mpr ⟨h.earlier, List.pairwise_singleton .., ?_⟩
    intro first hfirst second hsecond
    rw [List.mem_singleton.mp hsecond]
    exact hothers first.1 (Table.mem_names_of_mem hfirst)

/-- The body of a function comes into the script when it is complete. -/
theorem modify_body (h : script.Proper) {name : String} {params : List Parameter} {body : Block}
    (hparams : ∀ function, (name, function) ∈ script.functions.entries → function.params = params)
    (hproper : LslFront.Proper .function script.dialect params body)
    (hfree : ∀ known ∈ LslFront.localNames params body, known ∉ script.functions.names) :
    Proper { script with functions := script.functions.modify name ({ · with body }) } where
  functions := by
    intro known found hmem
    obtain ⟨function, hfunction, rfl⟩ := Table.mem_entries_modify.1 hmem
    by_cases hname : known = name
    · subst hname
      rw [if_pos rfl, Function.localNames, hparams function hfunction]
      refine ⟨hproper, ?_⟩
      intro hlocal
      exact hfree known hlocal (Table.mem_names_of_mem hfunction)
    · rw [if_neg hname]
      exact h.functions known function hfunction
  earlier := by
    -- The new names are those of no function at all, so its place among them does not matter.
    rw [Table.modify, List.pairwise_map]
    refine h.earlier.imp_of_mem ?_
    rintro ⟨known, first⟩ ⟨other, second⟩ hfirst hsecond hfar
    show known ∉ (if other = name then { second with body } else second).localNames
    by_cases hname : other = name
    · subst hname
      rw [if_pos rfl, Function.localNames, hparams second hsecond]
      intro hlocal
      exact hfree known hlocal (Table.mem_names_of_mem hfirst)
    · rw [if_neg hname]
      exact hfar
  handlers := by
    intro state hstate handler hhandler
    obtain ⟨hhandler, hadmitted⟩ := h.handlers state hstate handler hhandler
    refine ⟨hhandler, ?_⟩
    intro known hknown
    obtain ⟨husable, hglobal, hfunction⟩ := hadmitted known hknown
    exact ⟨husable, hglobal, by simpa using hfunction⟩

theorem insert_state (h : script.Proper) {name : String} {state : ScriptState}
    (hhandlers : ∀ handler ∈ state.events.values, script.HandlerProper handler) :
    Proper { script with states := script.states.insert name state } where
  functions := h.functions
  earlier := h.earlier
  handlers := by
    intro found hfound handler hhandler
    have hproper : script.HandlerProper handler := by
      rcases Table.mem_values_insert hfound with hfound | rfl
      · exact h.handlers found hfound handler hhandler
      · exact hhandlers handler hhandler
    refine ⟨hproper.proper, ?_⟩
    intro known hknown
    obtain ⟨husable, hglobal, hfunction⟩ := hproper.admitted known hknown
    exact ⟨husable, hglobal, hfunction⟩

end Script.Proper

/-! ### Scripts under way -/

/-- The state that is open. -/
def Place.state? : Place → Option OpenState
  | .inState state | .handlerBody state _ _ _ => some state
  | _ => none

/-- The handlers of the state that is open. -/
def Place.handlers (place : Place) : List Handler :=
  match place.state? with
  | some state => state.events.values
  | none => []

namespace Reading

/-- The scopes are those that are open at the place. -/
def Placed : Reading → Prop
  | ⟨symbols, .topLevel⟩ | ⟨symbols, .inState _⟩ => symbols.scopes = []
  | ⟨symbols, .functionBody name _ body⟩ => ∃ params,
      body.Sound .function (params.map Parameter.entry) [] symbols ∧
        ∀ function, (name, function) ∈ symbols.script.functions.entries → function.params = params
  | ⟨symbols, .handlerBody _ signature _ body⟩ =>
      body.Sound .event (signature.params.map Parameter.entry) [] symbols

/-- What holds of a script under way. -/
structure Sound (reading : Reading) : Prop where
  placed : reading.Placed
  script : reading.symbols.script.Proper
  handlers : ∀ handler ∈ reading.place.handlers, reading.symbols.script.HandlerProper handler

theorem sound_start (dialect : Dialect) : Sound ⟨.ofDialect dialect, .topLevel⟩ where
  placed := rfl
  script := by
    apply Script.Proper.of_no_states rfl
    · exact fun _ _ hmem => absurd hmem List.not_mem_nil
    · exact .nil
  handlers := fun _ hmem => absurd hmem List.not_mem_nil

variable {symbols symbols' : Symbols}

/-- Another place of the same script. -/
theorem Sound.moved {place place' : Place} (h : Sound ⟨symbols, place⟩)
    (hscript : symbols'.script = symbols.script) (hplaced : Placed ⟨symbols', place'⟩)
    (hhandlers : ∀ handler ∈ place'.handlers, handler ∈ place.handlers) :
    Sound ⟨symbols', place'⟩ where
  placed := hplaced
  script := by
    show symbols'.script.Proper
    rw [hscript]
    exact h.script
  handlers := by
    intro handler hmem
    show symbols'.script.HandlerProper handler
    rw [hscript]
    exact h.handlers handler (hhandlers handler hmem)

theorem Sound.declaresGlobal (h : Sound ⟨symbols, .topLevel⟩) (hstates : hasStates symbols = false)
    (globals : Table Global) :
    Sound ⟨{ symbols with script := { symbols.script with globals } }, .topLevel⟩ where
  placed := h.placed
  script := .of_no_states (by simpa [hasStates] using hstates) h.script.functions h.script.earlier
  handlers := fun _ hmem => absurd hmem List.not_mem_nil

theorem Sound.opensFunction (h : Sound ⟨symbols, .topLevel⟩) (hstates : hasStates symbols = false)
    {name : String} {function : Function} (hnew : symbols.checkNew name = .ok ())
    (hbody : function.body = .bare function.line)
    (henter : enterBody { symbols with script :=
      { symbols.script with functions := symbols.script.functions.insert name function } }
      function.params = .ok symbols') :
    Sound ⟨symbols', .functionBody name function.line (.opened function.line)⟩ := by
  have hscript := script_of_enterBody henter
  obtain ⟨hscoped, hscopes⟩ := scopes_of_enterBody henter h.placed
  have hname : name ∉ symbols.script.functions.names :=
    (Symbols.checkNew_eq_ok_iff.1 hnew).1.notFunction
  -- As long as the body has not been read it counts as empty, and its parameters are proper.
  have hbare : function.body.Sound .function (function.params.map Parameter.entry) [] symbols' := by
    rw [hbody]
    exact Block.sound_bare hscoped hscopes
  have hstates' : symbols.script.states.isEmpty := by simpa [hasStates] using hstates
  constructor
  · refine ⟨function.params, Body.sound_opened hscoped hscopes, ?_⟩
    intro found hfound
    rw [hscript] at hfound
    rcases Table.mem_entries_insert hfound with hfound | ⟨-, rfl⟩
    · exact absurd (Table.mem_names_of_mem hfound) hname
    · rfl
  · rw [hscript]
    apply h.script.insert_function hstates' hname
    · have hproper := hbare.proper
      rw [hscript] at hproper
      exact hproper
    · intro known hknown
      have hadmits := hbare.admits hknown
      rw [hscript] at hadmits
      exact hadmits.notFunction
  · exact fun _ hmem => absurd hmem List.not_mem_nil

theorem Sound.closesFunction {name : String} {opening : Nat} {body : Body} {inner : Symbols}
    {block : Block} (h : Sound ⟨symbols, .functionBody name opening body⟩)
    (hmoves : body.Moves .function symbols (.finished inner block))
    (hclose : inner.closeScope = .ok symbols') :
    Sound ⟨finishFunction symbols' name block, .topLevel⟩ := by
  obtain ⟨params, hbody, hparams⟩ := h.placed
  have hscript := hmoves.script_finished
  have hblock := hbody.step hmoves
  rw [hblock.closeScope hclose]
  constructor
  · rfl
  · have hproper := hblock.proper
    have hfree : ∀ known ∈ localNames params block, known ∉ symbols.script.functions.names := by
      intro known hknown
      have hadmits := hblock.admits hknown
      rw [hscript] at hadmits
      exact hadmits.notFunction
    rw [hscript] at hproper
    show Script.Proper { inner.script with
      functions := inner.script.functions.modify name ({ · with body := block }) }
    rw [hscript]
    exact h.script.modify_body hparams hproper hfree
  · exact fun _ hmem => absurd hmem List.not_mem_nil

theorem Sound.closesHandler {state : OpenState} {signature : Signature} {opening : Nat}
    {body : Body} {inner : Symbols} {block : Block}
    (h : Sound ⟨symbols, .handlerBody state signature opening body⟩)
    (hmoves : body.Moves .event symbols (.finished inner block))
    (hclose : inner.closeScope = .ok symbols') :
    Sound ⟨symbols', .inState { state with
      events := state.events.insert signature.name ⟨signature.params, block, opening⟩ }⟩ := by
  have hbody : body.Sound .event (signature.params.map Parameter.entry) [] symbols := h.placed
  have hscript := hmoves.script_finished
  have hblock := hbody.step hmoves
  have hhandler : symbols.script.HandlerProper ⟨signature.params, block, opening⟩ := by
    rw [← hscript]
    exact ⟨hblock.proper, fun _ hname => hblock.admits hname⟩
  rw [hblock.closeScope hclose]
  constructor
  · rfl
  · show inner.script.Proper
    rw [hscript]
    exact h.script
  · intro handler hmem
    show inner.script.HandlerProper handler
    rw [hscript]
    rcases Table.mem_values_insert hmem with hmem | rfl
    · exact h.handlers handler hmem
    · exact hhandler

/-- Every move keeps what holds of a script under way. -/
theorem Sound.step {before after : Reading} (hmoves : before.Moves after) (h : before.Sound) :
    after.Sound := by
  cases hmoves with
  | includes => exact h
  | declaresGlobal hstates _ => exact h.declaresGlobal hstates _
  | opensFunction hstates hnew hbody henter => exact h.opensFunction hstates hnew hbody henter
  | readsFunction hmoves =>
      obtain ⟨params, hbody, hparams⟩ := h.placed
      have hscript := hmoves.script_more
      refine h.moved hscript ⟨params, hbody.step hmoves, ?_⟩ fun _ hmem => hmem
      rw [hscript]
      exact hparams
  | closesFunction hmoves hclose => exact h.closesFunction hmoves hclose
  | opensState => exact h.moved rfl h.placed fun _ hmem => hmem
  | closesState =>
      exact ⟨h.placed, h.script.insert_state h.handlers, fun _ hmem => absurd hmem List.not_mem_nil⟩
  | opensHandler _ henter =>
      have hscript := script_of_enterBody henter
      obtain ⟨hscoped, hscopes⟩ := scopes_of_enterBody henter h.placed
      exact h.moved hscript (Body.sound_opened hscoped hscopes) fun _ hmem => hmem
  | readsHandler hmoves =>
      have hbody := Body.Sound.step h.placed hmoves
      exact h.moved hmoves.script_more hbody fun _ hmem => hmem
  | closesHandler hmoves hclose => exact h.closesHandler hmoves hclose

theorem Reached.sound {dialect : Dialect} {reading : Reading} (h : reading.Reached dialect) :
    reading.Sound :=
  h.invariant (sound_start dialect) Sound.step

end Reading

end LslFront
