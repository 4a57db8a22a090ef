import LslFront.Proofs.Dialect.Inclusion
import LslFront.Proofs.Script.Moves
import LslFront.Settings

/-!
# Extensions from the settings

The settings name extensions for every script.  They become a part of the baseline, which is what a
script sees that names no mode.  So a script that names a mode loses them, unless it enables them
itself: `compile_extension_iff` says exactly which scripts see an extension of the settings, and
`extension_lost_under_mode` that not all of them do.
-/

namespace LslFront

namespace Dialect

/-- No mode brings a feature of an extension. -/
theorem has_mode_of_extension {mode extension : List Char} {a b : Dialect}
    (ha : ofMode? mode = some a) (hb : ofExtension? extension = some b) {feature : Feature}
    (hfeature : b.has feature) : a.has feature = false := by
  have hadmin : feature = .admin := by
    unfold ofExtension? at hb
    split at hb
    · cases hb
      rw [has_ofFeature] at hfeature
      exact (beq_iff_eq.mp hfeature).symm
    · cases hb
  rw [hadmin]
  unfold ofMode? at ha
  split at ha
  · cases ha
    rfl
  · cases ha
    rfl
  · cases ha
    rfl
  · cases ha
    rfl
  · cases ha

end Dialect

/-! ### Directives -/

/-- The mode of a directive is one that there is. -/
theorem Directive.exists_of_mode? {line : List Char} {directive : Directive} {mode : Dialect}
    (h : ofLine? line = some directive) (hmode : directive.mode? = some mode) :
    ∃ name, Dialect.ofMode? name = some mode := by
  unfold ofLine? at h
  obtain ⟨body, -, h⟩ := Option.bind_eq_some_iff.mp h
  obtain ⟨⟨key, value⟩, -, h⟩ := Option.bind_eq_some_iff.mp h
  simp only at h
  split at h
  · obtain ⟨found, hfound, rfl⟩ := Option.map_eq_some_iff.mp h
    cases hmode
    exact ⟨value, hfound⟩
  · obtain ⟨found, -, rfl⟩ := Option.map_eq_some_iff.mp h
    cases hmode
  · cases h

/-- The modes of a script bring no feature of an extension. -/
theorem Directives.has_mode_of_extension {source : String} {mode : Dialect}
    (hmode : (ofSource source).mode = some mode) {extension : List Char} {dialect : Dialect}
    (hextension : Dialect.ofExtension? extension = some dialect) {feature : Feature}
    (hfeature : dialect.has feature) : mode.has feature = false := by
  have hmodes : mode = Dialect.unions
      (((leadingLines source).filterMap Directive.ofLine?).filterMap Directive.mode?) := by
    simp only [ofSource, ofList] at hmode
    split at hmode
    · cases hmode
    · exact (Option.some.inj hmode).symm
  rw [hmodes, Dialect.has_unions, List.any_eq_false]
  intro found hfound
  obtain ⟨directive, hdirective, hfound⟩ := List.mem_filterMap.mp hfound
  obtain ⟨line, -, hline⟩ := List.mem_filterMap.mp hdirective
  obtain ⟨name, hname⟩ := Directive.exists_of_mode? hline hfound
  rw [Dialect.has_mode_of_extension hname hextension hfeature]
  exact Bool.false_ne_true

/-! ### Settings -/

/-- The extensions of the settings are in force together. -/
theorem Settings.includes_extensions {names : List String} {dialect : Dialect}
    (h : extensions names = .ok dialect) {name : String} (hname : name ∈ names) :
    ∃ extension, Dialect.ofExtension? name.toList = some extension ∧
      dialect.Includes extension := by
  induction names generalizing dialect with
  | nil => exact absurd hname List.not_mem_nil
  | cons first rest ih =>
      rw [extensions] at h
      split at h
      · rename_i found hfound
        obtain ⟨others, hothers, rfl⟩ := map_eq_ok_iff.1 h
        rcases List.mem_cons.mp hname with rfl | hname
        · exact ⟨found, hfound, Dialect.includes_union_left found others⟩
        · obtain ⟨extension, hextension, hincludes⟩ := ih hothers hname
          exact ⟨extension, hextension, (Dialect.includes_union_right found others).trans hincludes⟩
      · cases h

/-- They are a part of the baseline. -/
theorem Settings.includes_baseline {settings : Settings} {options : Options}
    (h : settings.options = .ok options) {name : String} (hname : name ∈ settings.enable) :
    ∃ extension, Dialect.ofExtension? name.toList = some extension ∧
      options.baseline.Includes extension := by
  unfold Settings.options at h
  split at h
  · cases h
  · rename_i mode _
    obtain ⟨enabled, henabled, rfl⟩ := map_eq_ok_iff.1 h
    obtain ⟨extension, hextension, hincludes⟩ := includes_extensions henabled hname
    exact ⟨extension, hextension, (Dialect.includes_union_right mode enabled).trans hincludes⟩

theorem dialect_of_compile {source : String} {options : Options} {loader : Loader}
    {script : Script} (h : compile source options loader = .ok script) :
    script.dialect = (Directives.ofSource source).accepted options.baseline := by
  obtain ⟨symbols, globals, hreached, -, -, -, hscript⟩ := exists_of_compile h
  rw [hscript]
  exact hreached.dialect_eq

/-! ### Compiled scripts -/

/-- An extension of the settings is in force in just those scripts that name no mode or enable it
    themselves. -/
theorem compile_extension_iff {settings : Settings} {options : Options} {source : String}
    {loader : Loader} {script : Script} {name : String} (hoptions : settings.options = .ok options)
    (h : compile source options loader = .ok script) (hname : name ∈ settings.enable) :
    ∃ extension, Dialect.ofExtension? name.toList = some extension ∧
      (script.dialect.Includes extension ↔ (Directives.ofSource source).mode = none ∨
        (Directives.ofSource source).enabled.Includes extension) := by
  obtain ⟨extension, hextension, hbaseline⟩ := Settings.includes_baseline hoptions hname
  refine ⟨extension, hextension, ?_⟩
  rw [dialect_of_compile h, Directives.accepted]
  constructor
  · intro hincludes
    cases hmode : (Directives.ofSource source).mode with
    | none => exact .inl rfl
    | some mode =>
        right
        intro feature hfeature
        -- The mode does not bring the feature, so it can only be enabled.
        have hnot := Directives.has_mode_of_extension hmode hextension hfeature
        have hunion := hincludes feature hfeature
        rw [hmode, Option.getD_some, Dialect.has_union, hnot, Bool.false_or] at hunion
        exact hunion
  · rintro (hmode | henabled)
    · rw [hmode, Option.getD_none]
      exact (Dialect.includes_union_left _ _).trans hbaseline
    · exact (Dialect.includes_union_right _ _).trans henabled

/-- Two scripts of one handler: a mode of another language is none, and a mode is the dialect. -/
theorem compileFor_dialect_of_first_line :
    let options : Options := ⟨.ofList [.lsl, .ossl, .aurora, .admin], 8⟩
    let compiled := fun source : String =>
      ((compileFor 5 source options .none).bind Except.toOption).map Script.dialect
    compiled "// no mode\n//#!Mode:python\ndefault \x7b timer() \x7b \x7d \x7d"
        = some options.baseline ∧
      compiled "//#!Mode:lsl\ndefault \x7b timer() \x7b \x7d \x7d" = some (.ofFeature .lsl) := by
  decide +kernel

/-- A script that names no mode sees the extension. -/
theorem compile_extension_iff_unnamed :
    let settings : Settings := { Settings.standard with enable := [" Admin"] }
    let source := "// no mode\n//#!Mode:python\ndefault \x7b timer() \x7b \x7d \x7d"
    ∃ options script, settings.options = .ok options ∧
      compile source options .none = .ok script ∧ " Admin" ∈ settings.enable ∧
      ∃ extension, Dialect.ofExtension? " Admin".toList = some extension ∧
        script.dialect.Includes extension := by
  intro settings source
  let options : Options := ⟨.ofList [.lsl, .ossl, .aurora, .admin], 8⟩
  have hoptions : settings.options = .ok options := by decide
  have hname : " Admin" ∈ settings.enable := by decide
  obtain ⟨script, hcompile, -⟩ := exists_of_compileFor compileFor_dialect_of_first_line.1
  obtain ⟨extension, hextension, hiff⟩ := compile_extension_iff hoptions hcompile hname
  have hunnamed : (Directives.ofSource source).mode = none := by decide
  exact ⟨options, script, hoptions, hcompile, hname, extension, hextension,
    hiff.mpr (.inl hunnamed)⟩

/-- Naming a mode takes the extensions of the settings away. -/
theorem extension_lost_under_mode : ¬ ∀ (settings : Settings) (options : Options) (source : String)
    (loader : Loader) (script : Script) (name : String) (extension : Dialect),
    settings.options = .ok options → compile source options loader = .ok script →
    name ∈ settings.enable → Dialect.ofExtension? name.toList = some extension →
    script.dialect.Includes extension := by
  intro h
  let settings : Settings := { Settings.standard with enable := ["admin"] }
  let options : Options := ⟨.ofList [.lsl, .ossl, .aurora, .admin], 8⟩
  have hoptions : settings.options = .ok options := by decide
  obtain ⟨script, hcompile, hdialect⟩ := exists_of_compileFor compileFor_dialect_of_first_line.2
  have hincludes := h settings options _ .none script "admin" (.ofFeature .admin) hoptions hcompile
    (by decide) (by decide)
  rw [hdialect] at hincludes
  exact absurd (hincludes .admin rfl) (by decide)

end LslFront
