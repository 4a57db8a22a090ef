import LslFront.Proofs.Dialect.Inclusion
import LslFront.Proofs.Resolved.Widening
import LslFront.Proofs.Script.Carrying

/-!
# Narrower dialects

A narrower dialect takes built-in names away.  Then fewer names are taken and fewer expressions are
computed, and nothing that was accepted is refused: `compile_narrowed` says that a source that
compiles still compiles, that its script is built the same way, and that of its expressions those
that are constants were the same constants before.
-/

namespace LslFront

theorem Scope.includes_of_includes {wide narrow : Dialect} (h : wide.Includes narrow)
    (isVariable : String → Bool) : Scope.Includes ⟨wide, isVariable⟩ ⟨narrow, isVariable⟩ := by
  intro name value hvalue
  unfold constant? at hvalue ⊢
  split at hvalue
  · cases hvalue
  · rename_i hfree
    obtain ⟨found, hfound, rfl⟩ := Option.map_eq_some_iff.mp hvalue
    rw [if_neg hfree, Builtin.constant?_of_includes h hfound]
    rfl

/-- The second script is in a narrower dialect, and leaves more to the running script. -/
def Likeness.narrowing : Likeness where
  dialect := Dialect.Includes
  line := Eq
  expression := Resolved.Covers

theorem Likeness.lawful_narrowing : narrowing.Lawful where
  usable := .of_includes
  resolves := by
    intro wide narrow isVariable h _
    have hscope := Scope.includes_of_includes h isVariable
    exact ⟨carries_resolveTokens hscope, carries_resolveTokenList hscope⟩

/-- A constant of the narrower script is the same constant in the wider one. -/
def Resolved.KeepsConstant (wide narrow : Resolved) : Prop :=
  ∀ value, narrow = .constant value → wide = .constant value

theorem Resolved.Covers.keepsConstant {wide narrow : Resolved} (h : wide.Covers narrow) :
    wide.KeepsConstant narrow := by
  rintro value rfl
  exact eq_constant_of_constant? (h.constant?_eq rfl)

/-- A source that compiles does so under every narrower baseline.  The script is the same but for
    its dialect and its expressions, and an expression that is a constant in it was the same
    constant before. -/
theorem compile_narrowed {source : String} {wide narrow : Dialect} {limit : Nat} {loader : Loader}
    {script : Script} (hdialect : wide.Includes narrow)
    (h : compile source ⟨wide, limit⟩ loader = .ok script) :
    ∃ narrowed, compile source ⟨narrow, limit⟩ loader = .ok narrowed ∧
      script.Alike .narrowing narrowed ∧
      List.Forall₂ Resolved.KeepsConstant script.expressions narrowed.expressions := by
  have haccepted := (Directives.ofSource source).accepted_includes hdialect
  obtain ⟨narrowed, hnarrowed, halike⟩ :=
    carries_compile Likeness.lawful_narrowing (fun _ => rfl) haccepted limit loader script h
  refine ⟨narrowed, hnarrowed, halike, ?_⟩
  exact halike.expressions.imp fun _ _ hcovers => hcovers.keepsConstant

/-- In the base language `OS_NPC_LAND_AT_TARGET` is a name like any other. -/
theorem compile_narrowed_base_language :
    let source := "integer g = OS_NPC_LAND_AT_TARGET + 1;\n"
      ++ "default \x7b timer() \x7b integer h = TRUE + 1; if (g == h) state default; \x7d \x7d"
    let narrow := Dialect.ofFeature .lsl
    ∃ script, compile source ⟨.standard, 8⟩ .none = .ok script ∧
      script.expressions.map Resolved.constant? = [some (.integer 3), some (.integer 2), none] ∧
      Dialect.standard.Includes narrow ∧
      ∃ narrowed, compile source ⟨narrow, 8⟩ .none = .ok narrowed ∧
        script.Alike .narrowing narrowed ∧
        List.Forall₂ Resolved.KeepsConstant script.expressions narrowed.expressions := by
  intro source narrow
  have hcomputed : ((compileFor 20 source ⟨.standard, 8⟩ .none).bind Except.toOption).map
      (fun script => script.expressions.map Resolved.constant?)
        = some [some (.integer 3), some (.integer 2), none] := by decide +kernel
  obtain ⟨script, hcompile, hexpressions⟩ := exists_of_compileFor hcomputed
  have hincludes : Dialect.standard.Includes narrow := by
    intro feature hfeature
    have hbase : (Feature.lsl == feature) := by rwa [← Dialect.has_ofFeature]
    rw [← beq_iff_eq.mp hbase]
    rfl
  exact ⟨script, hcompile, hexpressions, hincludes, compile_narrowed hincludes hcompile⟩

end LslFront
