import LslFront.Proofs.Script.Bodies

/-!
# The names of a script

Every name that a script declares is one that its dialect leaves free.  Which names have to differ
besides is said by `Script.Hygienic`, and every script that is compiled is hygienic.  The scopes of
its bodies are gone by then; what they ensured is kept with the bodies, and this module adds the
names at top level.
-/

namespace LslFront

/-- The names of a script are free and differ where they could be confused. -/
structure Script.Hygienic (script : Script) : Prop where
  topLevel : (script.globals.names ++ script.functions.names).Nodup
  usable : ∀ name ∈ script.globals.names ++ script.functions.names, script.dialect.Usable name
  functions : ∀ name function, (name, function) ∈ script.functions.entries →
    HygienicBody script.dialect function.params function.body ∧ name ∉ function.localNames
  /-- No name of a function is that of one before it. -/
  earlier : script.functions.entries.Pairwise fun first second => first.1 ∉ second.2.localNames
  handlers : ∀ state ∈ script.states.values, ∀ handler ∈ state.events.values,
    HygienicBody script.dialect handler.params handler.body ∧
      ∀ name ∈ handler.localNames, name ∉ script.globals.names ∧ name ∉ script.functions.names

/-! ### Names at top level -/

/-- The names at top level are free and differ. -/
structure Script.TopLevel (script : Script) : Prop where
  distinct : (script.globals.names ++ script.functions.names).Nodup
  usable : ∀ name ∈ script.globals.names ++ script.functions.names, script.dialect.Usable name

namespace Script.TopLevel

variable {script : Script}

/-- One more name, which the script admits. -/
theorem cons (h : script.TopLevel) {name : String} {names : List String}
    (hadmits : script.Admits name)
    (hperm : names.Perm (name :: (script.globals.names ++ script.functions.names))) :
    names.Nodup ∧ ∀ known ∈ names, script.dialect.Usable known := by
  have hnew : name ∉ script.globals.names ++ script.functions.names := by
    rw [List.mem_append, not_or]
    exact ⟨hadmits.notGlobal, hadmits.notFunction⟩
  constructor
  · exact hperm.nodup_iff.mpr (List.nodup_cons.mpr ⟨hnew, h.distinct⟩)
  · intro known hknown
    rcases List.mem_cons.mp (hperm.mem_iff.mp hknown) with rfl | hknown
    · exact hadmits.usable
    · exact h.usable known hknown

theorem insert_global (h : script.TopLevel) {name : String} (hadmits : script.Admits name)
    (global : Global) :
    TopLevel { script with globals := script.globals.insert name global } := by
  have hperm : ((script.globals.insert name global).names ++ script.functions.names).Perm
      (name :: (script.globals.names ++ script.functions.names)) := by
    rw [Table.names_insert_of_notMem hadmits.notGlobal, List.append_assoc]
    exact List.perm_middle
  obtain ⟨hdistinct, husable⟩ := h.cons hadmits hperm
  exact ⟨hdistinct, husable⟩

theorem insert_function (h : script.TopLevel) {name : String} (hadmits : script.Admits name)
    (function : Function) :
    TopLevel { script with functions := script.functions.insert name function } := by
  have hperm : (script.globals.names ++ (script.functions.insert name function).names).Perm
      (name :: (script.globals.names ++ script.functions.names)) := by
    rw [Table.names_insert_of_notMem hadmits.notFunction, ← List.append_assoc]
    exact List.perm_append_singleton ..
  obtain ⟨hdistinct, husable⟩ := h.cons hadmits hperm
  exact ⟨hdistinct, husable⟩

theorem modify_function (h : script.TopLevel) (name : String) (f : Function → Function) :
    TopLevel { script with functions := script.functions.modify name f } := by
  have hnames : (script.functions.modify name f).names = script.functions.names :=
    Table.names_modify ..
  constructor
  · rw [hnames]
    exact h.distinct
  · rw [hnames]
    exact h.usable

end Script.TopLevel

namespace Reading

theorem Reached.topLevel {dialect : Dialect} {reading : Reading} (h : reading.Reached dialect) :
    reading.symbols.script.TopLevel := by
  apply h.of_grows
  · constructor
    · exact .nil
    · exact fun _ hmem => absurd hmem List.not_mem_nil
  · intro before after hgrows hnames
    cases hgrows with
    | same => exact hnames
    | global _ hadmits => exact hnames.insert_global hadmits _
    | function _ hadmits => exact hnames.insert_function hadmits _
    | body => exact hnames.modify_function _ _
    | state => exact ⟨hnames.distinct, hnames.usable⟩

theorem exists_of_resolveGlobals_cons {scope : Scope} {name : String} {global : Global}
    {rest resolved : List (String × Global)}
    (h : resolveGlobals scope ((name, global) :: rest) = .ok resolved) :
    ∃ value others, resolveGlobals scope rest = .ok others ∧
      resolved = (name, { global with value }) :: others := by
  rw [resolveGlobals] at h
  split at h
  all_goals
    obtain ⟨value, -, h⟩ := bind_eq_ok_iff.1 h
    obtain ⟨others, hothers, h⟩ := bind_eq_ok_iff.1 h
    cases h
    exact ⟨value, others, hothers, rfl⟩

/-- Globals keep their names when their initializers are resolved. -/
theorem names_of_resolveGlobals {scope : Scope} {entries resolved : List (String × Global)}
    (h : resolveGlobals scope entries = .ok resolved) :
    resolved.map Prod.fst = entries.map Prod.fst := by
  induction entries generalizing resolved with
  | nil =>
      cases h
      rfl
  | cons entry rest ih =>
      obtain ⟨value, others, hothers, rfl⟩ := exists_of_resolveGlobals_cons h
      rw [List.map_cons, List.map_cons, ih hothers]

end Reading

/-! ### Compiled scripts -/

/-- Whatever is compiled, the names of the script are hygienic. -/
theorem compile_hygienic {source : String} {options : Options} {loader : Loader} {script : Script}
    (h : compile source options loader = .ok script) : script.Hygienic := by
  obtain ⟨symbols, globals, hreached, -, -, hglobals, hscript⟩ := exists_of_compile h
  have hproper : symbols.script.Proper := hreached.sound.script
  have hnames : symbols.script.TopLevel := hreached.topLevel
  have hglobalNames : script.globals.names = symbols.script.globals.names := by
    rw [hscript]
    exact Reading.names_of_resolveGlobals hglobals
  have hfunctions : script.functions = symbols.script.functions := by rw [hscript]
  have hstates : script.states = symbols.script.states := by rw [hscript]
  have hdialect : script.dialect = symbols.script.dialect := by rw [hscript]
  constructor
  · rw [hglobalNames, hfunctions]
    exact hnames.distinct
  · rw [hglobalNames, hfunctions, hdialect]
    exact hnames.usable
  · intro name function hmem
    rw [hfunctions] at hmem
    rw [hdialect]
    obtain ⟨hbody, hown⟩ := hproper.functions name function hmem
    exact ⟨hbody.toHygienicBody, hown⟩
  · rw [hfunctions]
    exact hproper.earlier
  · intro state hstate handler hhandler
    rw [hstates] at hstate
    rw [hglobalNames, hfunctions, hdialect]
    obtain ⟨hbody, hadmitted⟩ := hproper.handlers state hstate handler hhandler
    refine ⟨hbody.toHygienicBody, ?_⟩
    intro name hname
    exact ⟨(hadmitted name hname).notGlobal, (hadmitted name hname).notFunction⟩

/-- An inner block may use a name of an outer one again, and a handler may use one of a function's
    variables. -/
theorem compile_hygienic_shadowing :
    let source := "#include \"sum\"\ninteger g = 3;\n"
      ++ "count(integer a) \x7b integer b; if (a) \x7b integer b; integer a; \x7d \x7d\n"
      ++ "default \x7b touch_start(integer a) \x7b integer b = sum(a, g); \x7d \x7d"
    let sum := "integer sum(integer x, integer y) \x7b return x + y; \x7d"
    let loader := Loader.ofList [("sum", sum)]
    ∃ script, compile source .standard loader = .ok script ∧
      (script.globals.names = ["g"] ∧ script.functions.names = ["sum", "count"]) ∧
      script.Hygienic := by
  intro source sum loader
  have hcomputed : ((compileFor 20 source .standard loader).bind Except.toOption).map
      (fun script => (script.globals.names, script.functions.names))
        = some (["g"], ["sum", "count"]) := by decide +kernel
  obtain ⟨script, hcompile, hnames⟩ := exists_of_compileFor hcomputed
  exact ⟨script, hcompile, Prod.mk.inj hnames, compile_hygienic hcompile⟩

end LslFront
