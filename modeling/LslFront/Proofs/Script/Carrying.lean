import LslFront.Proofs.Block.Carrying
import LslFront.Proofs.Script.Variables

/-!
# Reading scripts that are alike

What holds of the lines of a body holds of all lines: if a line is accepted in the first of two
scripts that are alike it is accepted in the second, and they stay alike.  So a source that compiles
in one dialect compiles in every dialect that a lawful likeness relates to it, into a script that is
alike.
-/

namespace LslFront

/-! ### Scripts under way -/

structure OpenState.Alike (like : Likeness) (first second : OpenState) : Prop where
  name : first.name = second.name
  line : like.line first.line second.line
  events : first.events.Alike (Handler.Alike like) second.events

inductive Place.Alike (like : Likeness) : Place → Place → Prop where
  | topLevel : Place.Alike like .topLevel .topLevel
  | functionBody {name line line' body body'} : like.line line line' →
      Body.Alike like body body' →
      Place.Alike like (.functionBody name line body) (.functionBody name line' body')
  | inState {state state'} : OpenState.Alike like state state' →
      Place.Alike like (.inState state) (.inState state')
  | handlerBody {state state' signature line line' body body'} :
      OpenState.Alike like state state' → like.line line line' → Body.Alike like body body' →
      Place.Alike like (.handlerBody state signature line body)
        (.handlerBody state' signature line' body')

structure Reading.Alike (like : Likeness) (first second : Reading) : Prop where
  symbols : first.symbols.Alike like second.symbols
  place : first.place.Alike like second.place

namespace Reading

variable {like : Likeness} {symbols symbols' : Symbols} {line : Line}

theorem hasStates_eq (h : symbols.Alike like symbols') :
    hasStates symbols = hasStates symbols' := by
  rw [hasStates, hasStates, h.script.states.isEmpty_eq]

/-! ### Declarations -/

theorem carries_readGlobal (hlike : like.Lawful) (h : symbols.Alike like symbols')
    (hnumber : like.line line.number line.number) :
    Carries (Symbols.Alike like) (readGlobal symbols line) (readGlobal symbols' line) := by
  unfold readGlobal
  split
  · exact .error _ _
  · split
    · exact .error _ _
    · split
      · exact .error _ _
      · rename_i ty _ _ name value _
        rw [hasStates_eq h]
        split
        · exact .error _ _
        · apply (h.checkNew hlike name).bind
          intro _ _ _
          have hglobal : Global.Alike like
              ⟨ty, line.number, value.map (Line.mk line.number), none⟩
              ⟨ty, line.number, value.map (Line.mk line.number), none⟩ := by
            refine ⟨rfl, hnumber, ?_, .none⟩
            cases value with
            | none => exact .none
            | some value => exact .some ⟨hnumber, rfl⟩
          exact .ok (h.withGlobals (h.script.globals.insert name hglobal))

theorem carries_enterBody (hlike : like.Lawful) (h : symbols.Alike like symbols')
    (params : List Parameter) :
    Carries (Symbols.Alike like) (enterBody symbols params) (enterBody symbols' params) :=
  h.openScope.declareAll hlike params

theorem carries_readFunction (hlike : like.Lawful) (h : symbols.Alike like symbols')
    (hnumber : like.line line.number line.number) :
    Carries (Alike like) (readFunction symbols line) (readFunction symbols' line) := by
  unfold readFunction
  apply Carries.bind_same
  rintro ⟨returnType, header⟩ _
  apply Carries.bind_same
  intro signature _
  rw [hasStates_eq h]
  split
  · exact .error _ _
  · apply (h.checkNew hlike signature.name).bind
    intro _ _ _
    have hfunction : Function.Alike like
        ⟨returnType, signature.params, .bare line.number, line.number⟩
        ⟨returnType, signature.params, .bare line.number, line.number⟩ :=
      ⟨rfl, rfl, .bare hnumber, hnumber⟩
    have hentered := h.withFunctions (h.script.functions.insert signature.name hfunction)
    apply (carries_enterBody hlike hentered signature.params).bind
    exact fun _ _ hinner => .ok ⟨hinner, .functionBody hnumber (.opened hnumber)⟩

theorem alike_finishFunction (h : symbols.Alike like symbols') (name : String)
    {block block' : Block} (hblock : block.Alike like block') :
    (finishFunction symbols name block).Alike like (finishFunction symbols' name block') := by
  have hfunctions := h.script.functions.modify name (f := ({ · with body := block }))
    (g := ({ · with body := block' })) fun _ _ hfunction => { hfunction with body := hblock }
  exact h.withFunctions hfunctions

theorem carries_readState (h : symbols.Alike like symbols') {number : Nat}
    (hnumber : like.line number number) (name : String) :
    Carries (Alike like) (readState symbols number name) (readState symbols' number name) := by
  unfold readState
  split
  · exact .error _ _
  · rw [h.script.states.contains_eq, h.script.states.contains_eq]
    split
    · exact .error _ _
    · split
      · exact .error _ _
      · exact .ok ⟨h, .inState ⟨rfl, hnumber, .empty⟩⟩

theorem carries_readDefault (h : symbols.Alike like symbols') {number : Nat}
    (hnumber : like.line number number) :
    Carries (Alike like) (readDefault symbols number) (readDefault symbols' number) := by
  unfold readDefault
  rw [h.script.states.contains_eq]
  split
  · exact .error _ _
  · exact .ok ⟨h, .inState ⟨rfl, hnumber, .empty⟩⟩

theorem carries_readHandler (hlike : like.Lawful) (h : symbols.Alike like symbols')
    {state state' : OpenState} (hstate : state.Alike like state')
    (hnumber : like.line line.number line.number) :
    Carries (Alike like) (readHandler symbols state line) (readHandler symbols' state' line) := by
  unfold readHandler
  split
  · exact .error _ _
  · rename_i signature _
    split
    · exact .error _ _
    · simp only
      split
      · apply (carries_enterBody hlike h signature.params).bind
        intro inner inner' hinner
        exact .ok ⟨hinner, .handlerBody hstate hnumber (.opened hnumber)⟩
      · exact .error _ _

theorem carries_finishHandler {state state' : OpenState} (h : state.Alike like state')
    (signature : Signature) {number number' : Nat} (hnumber : like.line number number')
    {block block' : Block} (hblock : block.Alike like block') :
    Carries (OpenState.Alike like) (finishHandler state signature number block)
      (finishHandler state' signature number' block') := by
  unfold finishHandler
  rw [h.events.contains_eq]
  split
  · exact .error _ _
  · exact .ok { h with events := h.events.insert signature.name ⟨rfl, hblock, hnumber⟩ }

theorem carries_finishState (h : symbols.Alike like symbols') {state state' : OpenState}
    (hstate : state.Alike like state') :
    Carries (Symbols.Alike like) (finishState symbols state) (finishState symbols' state') := by
  unfold finishState
  rw [hstate.events.isEmpty_eq, hstate.name]
  split
  · exact .error _ _
  · have hstates := h.script.states.insert state'.name
      (a := ⟨state.line, state.events⟩) (b := ⟨state'.line, state'.events⟩)
      ⟨hstate.line, hstate.events⟩
    exact .ok (h.withStates hstates)

theorem carries_readDeclaration (hlike : like.Lawful) (h : symbols.Alike like symbols')
    (hnumber : like.line line.number line.number) :
    Carries (Alike like) (readDeclaration symbols line) (readDeclaration symbols' line) := by
  unfold readDeclaration
  split
  · exact .error _ _
  · split
    · split
      · exact carries_readDefault h hnumber
      · exact .error _ _
    · split
      · split
        · split
          · exact carries_readState h hnumber _
          · exact .error _ _
        · exact .error _ _
      · split
        · exact .error _ _
        · split
          · split
            · exact carries_readFunction hlike h hnumber
            · apply (carries_readGlobal hlike h hnumber).map
              exact fun _ _ hsymbols => ⟨hsymbols, .topLevel⟩
          · split
            · exact carries_readFunction hlike h hnumber
            · exact .error _ _

/-! ### Lines -/

theorem carries_readTopLevel (hlike : like.Lawful) (h : symbols.Alike like symbols')
    (hnumber : like.line line.number line.number) :
    Carries (Next.Related (Alike like) (Script.Alike like)) (readTopLevel symbols line)
      (readTopLevel symbols' line) := by
  unfold readTopLevel
  split
  · exact .error _ _
  · split
    · apply Carries.bind_same
      rintro ⟨name, once⟩ _
      exact .ok (.splice ⟨h, .topLevel⟩)
    · exact (carries_readDeclaration hlike h hnumber).map fun _ _ hreading => .more hreading

/-- A line of the first script is a line of the second, and the scripts stay alike. -/
theorem carries_step (hlike : like.Lawful) {reading reading' : Reading}
    (h : reading.Alike like reading') (hclear : reading.symbols.scope.Clear)
    (hnumber : like.line line.number line.number) :
    Carries (Next.Related (Alike like) (Script.Alike like)) (reading.step line)
      (reading'.step line) := by
  obtain ⟨symbols, place⟩ := reading
  obtain ⟨symbols', place'⟩ := reading'
  obtain ⟨hsymbols, hplace⟩ := h
  unfold step
  cases hplace with
  | topLevel => exact .onLine _ _ (carries_readTopLevel hlike hsymbols hnumber)
  | inState hstate =>
      simp only
      split
      · apply (carries_finishState hsymbols hstate).bind
        exact fun _ _ hfinished => .ok (.more ⟨hfinished, .topLevel⟩)
      · apply Carries.map (.onLine _ _ (carries_readHandler hlike hsymbols hstate hnumber))
        exact fun _ _ hreading => .more hreading
  | @functionBody name opening opening' body body' hopening hbody =>
      apply (Body.carries_step hlike hsymbols hclear hbody hnumber).bind
      intro progress progress' hprogress
      cases hprogress with
      | more hinner hrest => exact .ok (.more ⟨hinner, .functionBody hopening hrest⟩)
      | finished hinner hblock =>
          apply (hinner.closeScope.onLine opening opening').bind
          exact fun _ _ hclosed => .ok (.more ⟨alike_finishFunction hclosed name hblock, .topLevel⟩)
  | @handlerBody state state' signature opening opening' body body' hstate hopening hbody =>
      apply (Body.carries_step hlike hsymbols hclear hbody hnumber).bind
      intro progress progress' hprogress
      cases hprogress with
      | more hinner hrest => exact .ok (.more ⟨hinner, .handlerBody hstate hopening hrest⟩)
      | finished hinner hblock =>
          apply (hinner.closeScope.onLine opening opening').bind
          intro closed closed' hclosed
          have hfinished := carries_finishHandler hstate signature hopening hblock
          apply (hfinished.onLine opening opening').bind
          exact fun _ _ hstate => .ok (.more ⟨hclosed, .inState hstate⟩)

/-! ### The end of a script -/

end Reading

/-- The state changes in the handlers of a script, with their lines. -/
def Script.stateChanges (script : Script) : List (String × Nat) :=
  (script.states.values.flatMap fun state => state.events.values).flatMap
    fun handler => handler.body.stateChanges

theorem Script.Alike.stateChanges {like : Likeness} {script script' : Script}
    (h : script.Alike like script') :
    List.Forall₂ (SameTarget like) script.stateChanges script'.stateChanges := by
  have hhandlers : List.Forall₂ (Handler.Alike like)
      (script.states.values.flatMap fun state => state.events.values)
      (script'.states.values.flatMap fun state => state.events.values) :=
    List.rel_flatMap h.states.values fun _ _ hstate => hstate.events.values
  exact List.rel_flatMap hhandlers fun _ _ hhandler => hhandler.body.stateChanges

namespace Reading

theorem checkTargets_eq_ok_iff {script : Script} : checkTargets script = .ok () ↔
    ∀ target ∈ script.stateChanges.map Prod.fst, script.states.contains target := by
  unfold checkTargets
  simp only
  rw [← Script.stateChanges]
  split
  · rename_i target line hfound
    have hmem : target ∈ script.stateChanges.map Prod.fst :=
      List.mem_map_of_mem (List.mem_of_find?_eq_some hfound)
    have hmissing := List.find?_some hfound
    simp only [Bool.not_eq_true'] at hmissing
    constructor
    · exact fun h => by cases h
    · intro hall
      rw [hall target hmem] at hmissing
      cases hmissing
  · rename_i hnone
    simpa [List.find?_eq_none] using hnone

variable {like : Likeness}

theorem carries_checkTargets {script script' : Script} (h : script.Alike like script') :
    Carries (fun _ _ => True) (checkTargets script) (checkTargets script') := by
  intro _ hchecked
  have htargets : List.Forall₂ (· = ·) (script.stateChanges.map Prod.fst)
      (script'.stateChanges.map Prod.fst) :=
    List.forall₂_map_left_iff.mpr
      (List.forall₂_map_right_iff.mpr (h.stateChanges.imp fun _ _ => And.left))
  rw [List.forall₂_eq_eq_eq] at htargets
  refine ⟨(), checkTargets_eq_ok_iff.2 fun target htarget => ?_, trivial⟩
  rw [← htargets] at htarget
  rw [← h.states.contains_eq]
  exact checkTargets_eq_ok_iff.1 hchecked target htarget

theorem carries_resolveGlobals {scope scope' : Scope} (hresolves : like.Resolves scope scope')
    {globals globals' : Table Global} (h : globals.Alike (Global.Alike like) globals') :
    Carries (fun entries entries' => Table.Alike (Global.Alike like) ⟨entries⟩ ⟨entries'⟩)
      (resolveGlobals scope globals.entries) (resolveGlobals scope' globals'.entries) := by
  obtain ⟨entries⟩ := globals
  obtain ⟨entries'⟩ := globals'
  unfold Table.Alike at h
  simp only at h ⊢
  induction h with
  | nil => exact .ok .empty
  | @cons entry entry' rest rest' hentry hrest ih =>
      obtain ⟨name, ty, line, initializer, value⟩ := entry
      obtain ⟨name', ty', line', initializer', value'⟩ := entry'
      obtain ⟨rfl, hty, hline, hinitializer, hvalue⟩ := hentry
      have hothers : ∀ value value', Option.Rel like.expression value value' →
          Carries (fun entries entries' => Table.Alike (Global.Alike like) ⟨entries⟩ ⟨entries'⟩)
            (do return (name, Global.mk ty line initializer value) :: (← resolveGlobals scope rest))
            (do return (name, Global.mk ty' line' initializer' value')
                :: (← resolveGlobals scope' rest')) := by
        intro value value' hvalue
        apply ih.bind
        exact fun _ _ hothers => .ok (.cons ⟨rfl, hty, hline, hinitializer, hvalue⟩ hothers)
      simp only [resolveGlobals]
      cases hinitializer with
      | none => exact hothers value value' hvalue
      | @some first second hsame =>
          simp only [hsame.tokens]
          have hresolved := (hresolves.tokens second.tokens).onLine first.number second.number
          apply Carries.bind (R := Option.Rel like.expression)
          · exact hresolved.map fun _ _ hvalue => .some hvalue
          · exact hothers

theorem carries_finish (hlike : like.Lawful) {symbols symbols' : Symbols}
    (h : symbols.Alike like symbols') (hclear : symbols.scope.Clear) (lastLine : Nat) :
    Carries (Script.Alike like) (finish symbols lastLine) (finish symbols' lastLine) := by
  unfold finish
  simp only
  rw [h.script.states.contains_eq]
  split
  · apply (carries_checkTargets h.script).bind
    intro _ _ _
    apply (carries_resolveGlobals (h.resolves hlike hclear) h.script.globals).bind
    exact fun _ _ hglobals => .ok { h.script with globals := hglobals }
  · exact .error _ _

theorem carries_atEnd (hlike : like.Lawful) {reading reading' : Reading}
    (h : reading.Alike like reading') (hclear : reading.symbols.scope.Clear) (lastLine : Nat) :
    Carries (Script.Alike like) (reading.atEnd lastLine) (reading'.atEnd lastLine) := by
  obtain ⟨symbols, place⟩ := reading
  obtain ⟨symbols', place'⟩ := reading'
  obtain ⟨hsymbols, hplace⟩ := h
  unfold atEnd
  cases hplace with
  | topLevel => exact carries_finish hlike hsymbols hclear lastLine
  | _ => exact .error _ _

/-- Two readings that are alike give scripts that are alike from the same source, and take as many
    of its lines. -/
theorem carries_run (hlike : like.Lawful) (hlines : ∀ number, like.line number number)
    {dialect : Dialect} {reading reading' : Reading} (hreached : reading.Reached dialect)
    (h : reading.Alike like reading') {limit : Nat} (source : Source limit) (loader : Loader) :
    Carries (fun first second => Script.Alike like first.1 second.1 ∧ first.2 = second.2)
      (source.run machine loader reading) (source.run machine loader reading') := by
  let Paired : Reading → Reading → Prop :=
    fun reading reading' => reading.Reached dialect ∧ reading.Alike like reading'
  refine Source.carries_run (R := Paired) ?_ ?_ ⟨hreached, h⟩ source
  · rintro reading reading' line ⟨hreached, h⟩ next hnext
    obtain ⟨next', hnext', hrelated⟩ :=
      carries_step hlike h hreached.variablesUsable.clear (hlines line.number) next hnext
    refine ⟨next', hnext', ?_⟩
    cases hrelated with
    | more h => exact .more ⟨hreached.more hnext, h⟩
    | splice h => exact .splice ⟨hreached.splice hnext, h⟩
    | finished h => exact .finished h
  · rintro reading reading' lastLine ⟨hreached, h⟩
    exact carries_atEnd hlike h hreached.variablesUsable.clear lastLine

end Reading

/-! ### Whole sources -/

/-- A source that compiles in the first dialect compiles in the second, into a script that is
    alike. -/
theorem carries_compile {like : Likeness} (hlike : like.Lawful)
    (hlines : ∀ number, like.line number number) {source : String} {baseline baseline' : Dialect}
    (hdialect : like.dialect ((Directives.ofSource source).accepted baseline)
      ((Directives.ofSource source).accepted baseline')) (limit : Nat) (loader : Loader) :
    Carries (Script.Alike like) (compile source ⟨baseline, limit⟩ loader)
      (compile source ⟨baseline', limit⟩ loader) := by
  unfold compile
  have hblank : Reading.Alike like
      ⟨.ofDialect ((Directives.ofSource source).accepted baseline), .topLevel⟩
      ⟨.ofDialect ((Directives.ofSource source).accepted baseline'), .topLevel⟩ :=
    ⟨⟨.blank hdialect, rfl⟩, .topLevel⟩
  apply (Reading.carries_run hlike hlines .start hblank (.ofText source limit) loader).bind
  rintro ⟨script, after⟩ ⟨script', after'⟩ ⟨hscript, rfl⟩
  exact .ok { hscript with includes := rfl }

end LslFront
