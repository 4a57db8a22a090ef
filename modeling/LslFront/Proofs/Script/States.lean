import LslFront.Proofs.Script.Bodies

/-!
# The states of a script

A script begins in its first state, which is `default`; what its states do on which events, and to
which states they change, is said by `Script.Machine`.  That the states come in order and that each
has a handler for an event that there is, is ensured line by line.  That state changes have targets
cannot be: a state may be named before it is declared, so they are looked at when all states are
known.
-/

namespace LslFront

/-- The handlers are for events that there are, and take what the events bring. -/
def Signed (events : Table Handler) : Prop :=
  ∀ name handler, (name, handler) ∈ events.entries →
    Builtin.event? name = some (handler.params.map Parameter.ty)

/-- The states of a script form a machine, which begins in `default`: each of them has a handler,
    and only handlers change the state, and to one that the script has. -/
structure Script.Machine (script : Script) : Prop where
  first : ∃ others, script.states.names = Reading.defaultState :: others ∧
    Reading.defaultState ∉ others
  handled : ∀ state ∈ script.states.values, state.events.isEmpty = false
  signed : ∀ state ∈ script.states.values, Signed state.events
  functions : ∀ function ∈ script.functions.values, ∀ block ∈ function.body.blocks,
    ∀ line target, .stateChange line target ∉ block.statements
  handlers : ∀ state ∈ script.states.values, ∀ handler ∈ state.events.values,
    ∀ block ∈ handler.body.blocks, ∀ line target,
      .stateChange line target ∈ block.statements → target ∈ script.states.names

/-! ### States in order -/

theorem Signed.insert {events : Table Handler} (h : Signed events) {name : String}
    {handler : Handler}
    (hname : Builtin.event? name = some (handler.params.map Parameter.ty)) :
    Signed (events.insert name handler) := by
  intro known found hmem
  rcases Table.mem_entries_insert hmem with hmem | ⟨rfl, rfl⟩
  · exact h known found hmem
  · exact hname

/-- What holds of the states that are complete.  There may be none yet. -/
structure StatesInOrder (states : Table ScriptState) : Prop where
  first : ∀ name others, states.names = name :: others →
    name = Reading.defaultState ∧ Reading.defaultState ∉ others
  handled : ∀ state ∈ states.values, state.events.isEmpty = false
  signed : ∀ state ∈ states.values, Signed state.events

/-- The open state can follow the states. -/
structure OpenState.Follows (state : OpenState) (states : Table ScriptState) : Prop where
  new : state.name ∉ states.names
  first : state.name = Reading.defaultState ↔ Reading.defaultState ∉ states.names
  signed : Signed state.events

theorem StatesInOrder.insert {states : Table ScriptState} {state : OpenState}
    (h : StatesInOrder states) (hfollows : state.Follows states)
    (hevents : state.events.isEmpty = false) :
    StatesInOrder (states.insert state.name ⟨state.line, state.events⟩) where
  first := by
    intro name others hnames
    rw [Table.names_insert_of_notMem hfollows.new] at hnames
    -- Either this state is the first, or the first one stays and this one is not `default`.
    rcases List.append_eq_cons_iff.mp hnames with ⟨hnone, hlast⟩ | ⟨rest, hstates, rfl⟩
    · cases hlast
      exact ⟨hfollows.first.mpr (by simp [hnone]), List.not_mem_nil⟩
    · obtain ⟨rfl, hothers⟩ := h.first name rest hstates
      refine ⟨rfl, ?_⟩
      rw [List.mem_append, not_or]
      refine ⟨hothers, ?_⟩
      intro hlast
      have hnew := hfollows.new
      rw [← List.mem_singleton.mp hlast, hstates] at hnew
      exact hnew List.mem_cons_self
  handled := by
    intro found hfound
    rcases Table.mem_values_insert hfound with hfound | rfl
    · exact h.handled found hfound
    · exact hevents
  signed := by
    intro found hfound
    rcases Table.mem_values_insert hfound with hfound | rfl
    · exact h.signed found hfound
    · exact hfollows.signed

namespace Reading

/-- The handler whose body is being read takes what its event brings. -/
def Expected : Place → Prop
  | .handlerBody _ signature _ _ =>
      Builtin.event? signature.name = some (signature.params.map Parameter.ty)
  | _ => True

/-- What holds of the states of a script under way. -/
structure InOrder (reading : Reading) : Prop where
  states : StatesInOrder reading.symbols.script.states
  follows : ∀ state ∈ reading.place.state?, state.Follows reading.symbols.script.states
  expected : Expected reading.place

variable {symbols symbols' : Symbols}

/-- Another place with the same states. -/
theorem InOrder.moved {place place' : Place} (h : InOrder ⟨symbols, place⟩)
    (hstates : symbols'.script.states = symbols.script.states)
    (hstate : ∀ state ∈ place'.state?, state ∈ place.state?) (hexpected : Expected place') :
    InOrder ⟨symbols', place'⟩ where
  states := by
    show StatesInOrder symbols'.script.states
    rw [hstates]
    exact h.states
  follows := by
    intro state hmem
    show state.Follows symbols'.script.states
    rw [hstates]
    exact h.follows state (hstate state hmem)
  expected := hexpected

theorem InOrder.step {before after : Reading} (hmoves : before.Moves after) (h : before.InOrder) :
    after.InOrder := by
  cases hmoves with
  | includes => exact h
  | declaresGlobal => exact h.moved rfl (fun _ hmem => hmem) trivial
  | opensFunction _ _ _ henter =>
      have hscript := script_of_enterBody henter
      exact h.moved (by rw [hscript]) (fun _ hmem => hmem) trivial
  | readsFunction hmoves =>
      exact h.moved (by rw [hmoves.script_more]) (fun _ hmem => hmem) trivial
  | closesFunction hmoves hclose =>
      have hscript := script_of_closeScope hmoves hclose
      refine h.moved ?_ (fun _ hmem => hmem) trivial
      rw [finishFunction, hscript]
  | opensState hdefault hnew =>
      refine ⟨h.states, ?_, trivial⟩
      intro state hstate
      cases hstate
      rw [← Bool.not_eq_true, Table.contains_iff] at hdefault hnew
      exact ⟨hnew, hdefault, fun _ _ hmem => absurd hmem List.not_mem_nil⟩
  | closesState hevents =>
      refine ⟨h.states.insert (h.follows _ rfl) hevents, ?_, trivial⟩
      intro state hstate
      cases hstate
  | opensHandler hevent henter =>
      exact h.moved (by rw [script_of_enterBody henter]) (fun _ hmem => hmem) hevent
  | readsHandler hmoves =>
      exact h.moved (by rw [hmoves.script_more]) (fun _ hmem => hmem) h.expected
  | closesHandler hmoves hclose =>
      have hscript := script_of_closeScope hmoves hclose
      have hfollows := h.follows _ rfl
      refine ⟨?_, ?_, trivial⟩
      · show StatesInOrder (Script.states _)
        rw [hscript]
        exact h.states
      · intro state hstate
        cases hstate
        show OpenState.Follows _ (Script.states _)
        rw [hscript]
        exact ⟨hfollows.new, hfollows.first, hfollows.signed.insert h.expected⟩

theorem Reached.inOrder {dialect : Dialect} {reading : Reading} (h : reading.Reached dialect) :
    reading.InOrder := by
  apply h.invariant
  · refine ⟨⟨?_, ?_, ?_⟩, ?_, trivial⟩
    · intro name others hnames
      cases hnames
    · exact fun _ hmem => absurd hmem List.not_mem_nil
    · exact fun _ hmem => absurd hmem List.not_mem_nil
    · intro state hstate
      cases hstate
  · exact InOrder.step

/-- Every state change in a handler has a target. -/
theorem contains_of_checkTargets {script : Script} (h : checkTargets script = .ok ())
    {state : ScriptState} (hstate : state ∈ script.states.values) {handler : Handler}
    (hhandler : handler ∈ state.events.values) {target : String} {line : Nat}
    (hchange : (target, line) ∈ handler.body.stateChanges) : target ∈ script.states.names := by
  unfold checkTargets at h
  simp only at h
  split at h
  · cases h
  · rename_i hnone
    have hall := List.find?_eq_none.mp hnone (target, line) (List.mem_flatMap.mpr
      ⟨handler, List.mem_flatMap.mpr ⟨state, hstate, hhandler⟩, hchange⟩)
    simpa [Table.contains] using hall

end Reading

/-! ### Compiled scripts -/

/-- Whatever is compiled, the states of the script form a machine. -/
theorem compile_machine {source : String} {options : Options} {loader : Loader} {script : Script}
    (h : compile source options loader = .ok script) : script.Machine := by
  obtain ⟨symbols, globals, hreached, hdefault, htargets, -, hscript⟩ := exists_of_compile h
  have hproper : symbols.script.Proper := hreached.sound.script
  have horder : StatesInOrder symbols.script.states := hreached.inOrder.states
  have hstates : script.states = symbols.script.states := by rw [hscript]
  have hfunctions : script.functions = symbols.script.functions := by rw [hscript]
  constructor
  · rw [hstates]
    obtain ⟨name, others, hnames⟩ := List.exists_cons_of_ne_nil
      (List.ne_nil_of_mem (Table.contains_iff.1 hdefault))
    obtain ⟨rfl, hothers⟩ := horder.first name others hnames
    exact ⟨others, hnames, hothers⟩
  · rw [hstates]
    exact horder.handled
  · rw [hstates]
    exact horder.signed
  · intro function hfunction block hblock line target hchange
    rw [hfunctions] at hfunction
    obtain ⟨name, hentry⟩ := Table.mem_values.1 hfunction
    -- The statement is one that a function may have, and a state change is not.
    have hallowed := (hproper.functions name function hentry).1.allowed block hblock _ hchange
    cases hallowed
  · intro state hstate handler hhandler block hblock line target hchange
    rw [hstates] at hstate ⊢
    exact Reading.contains_of_checkTargets htargets hstate hhandler
      (Block.mem_stateChanges hchange hblock)

/-- A state change may stand at any depth, and may name a state that comes later. -/
theorem compile_machine_nested :
    let source := "default \x7b touch_start(integer n) \x7b\n"
      ++ "if (n) while (n) \x7b do \x7b state busy; \x7d while (n); \x7d else state default;\n"
      ++ "\x7d \x7d\nstate busy \x7b timer() \x7b \x7d \x7d"
    ∃ script, compile source .standard .none = .ok script ∧
      (script.states.names = ["default", "busy"] ∧
        script.states.values.map (fun state => state.events.values.map (·.body.stateChanges))
          = [[[("busy", 2), ("default", 2)]], [[]]]) ∧ script.Machine := by
  intro source
  have hcomputed : ((compileFor 20 source .standard .none).bind Except.toOption).map
      (fun script => (script.states.names,
        script.states.values.map fun state => state.events.values.map (·.body.stateChanges)))
        = some (["default", "busy"], [[[("busy", 2), ("default", 2)]], [[]]]) := by decide +kernel
  obtain ⟨script, hcompile, hstates⟩ := exists_of_compileFor hcomputed
  exact ⟨script, hcompile, Prod.mk.inj hstates, compile_machine hcompile⟩

end LslFront
