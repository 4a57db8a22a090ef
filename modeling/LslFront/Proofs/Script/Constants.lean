import LslFront.Proofs.Script.Carrying

/-!
# Expressions do not depend on variables

No variable ever hides a built-in constant, so it makes no difference to an expression which
variables are in scope where it stands: it is resolved as it would be without any.  In a compiled
script a name is left as a variable only if the dialect shows no constant of that name.
-/

namespace LslFront

/-! ### While a script is read -/

section

variable {dialect : Dialect}

theorem Symbols.VariablesUsable.resolveTokens_eq {symbols : Symbols}
    (h : symbols.VariablesUsable dialect) (tokens : List String) :
    resolveTokens symbols.scope tokens = resolveTokens (.withoutVariables dialect) tokens := by
  rw [← h.agrees]
  exact h.clear.resolveTokens_eq tokens

end

/-! ### Compiled scripts -/

/-- One script in this dialect, no expression of which names a constant of the dialect. -/
def Likeness.unhidden (dialect : Dialect) : Likeness where
  dialect := fun first second => first = dialect ∧ second = dialect
  line := fun _ _ => True
  expression := fun resolved _ => resolved.NamesNoConstant dialect

theorem Likeness.lawful_unhidden (dialect : Dialect) : (unhidden dialect).Lawful where
  usable := by
    rintro _ _ name ⟨rfl, rfl⟩ husable
    exact husable
  resolves := by
    rintro _ _ isVariable ⟨rfl, rfl⟩ hclear
    constructor
    · intro tokens
      exact .same fun _ hresolve => hclear.of_resolveTokens hresolve
    · intro tokens
      exact .same fun _ hresolve => List.forall₂_same.mpr (hclear.of_resolveTokenList hresolve)

theorem namesNoConstant_of_compile {source : String} {options : Options} {loader : Loader}
    {script : Script} (h : compile source options loader = .ok script) :
    ∀ expression ∈ script.expressions, expression.NamesNoConstant script.dialect := by
  let dialect := (Directives.ofSource source).accepted options.baseline
  have hcarries : Carries (Script.Alike (.unhidden dialect)) (compile source options loader)
      (compile source options loader) :=
    carries_compile (Likeness.lawful_unhidden dialect) (fun _ => trivial) ⟨rfl, rfl⟩
      options.includeLimit loader
  have halike := hcarries.self h
  rw [halike.dialect.1]
  have hexpressions := List.forall₂_same.mp halike.expressions
  exact hexpressions

/-- Resolution never depends on the scope: not after any operations on the symbols, not at any place
    that the reading of a script comes to, and so no expression of a compiled script has a variable
    that names a constant of its dialect. -/
theorem resolution_ignores_variables (dialect : Dialect) :
    (∀ symbols : Symbols, symbols.Reached dialect → ∀ line tokens,
      onLine line (resolveTokens symbols.scope tokens)
        = onLine line (resolveTokens (.withoutVariables dialect) tokens)) ∧
    (∀ reading : Reading, reading.Reached dialect → ∀ line tokens,
      onLine line (resolveTokens reading.symbols.scope tokens)
        = onLine line (resolveTokens (.withoutVariables dialect) tokens)) ∧
    ∀ source options loader script, compile source options loader = .ok script →
      ∀ expression ∈ script.expressions, ∀ name ∈ expression.variableNames,
        Builtin.constant? name script.dialect = none := by
  refine ⟨?_, ?_, ?_⟩
  · intro symbols hreached line tokens
    rw [hreached.variablesUsable.resolveTokens_eq]
  · intro reading hreached line tokens
    rw [hreached.variablesUsable.resolveTokens_eq]
  · intro source options loader script h
    exact namesNoConstant_of_compile h

/-- A local that has been declared, one that has been refused for the name of a constant, and a
    script that uses both names. -/
theorem resolution_ignores_variables_local :
    let opened := (Symbols.ofDialect .standard).openScope
    let declared := opened.settle (opened.declare "count" .integer)
    let symbols := declared.settle (declared.declare "TRUE" .integer)
    let source := "integer count = 2;\ndefault \x7b timer() \x7b count += TRUE; \x7d \x7d"
    (symbols.Reached .standard ∧ symbols.isVariable "count" ∧ symbols.isVariable "TRUE" = false) ∧
    (∀ line tokens, onLine line (resolveTokens symbols.scope tokens)
      = onLine line (resolveTokens (.withoutVariables .standard) tokens)) ∧
    ∃ script, compile source .standard .none = .ok script ∧
      script.expressions.map Resolved.variableNames = [[], ["count"]] ∧
      ∀ expression ∈ script.expressions, ∀ name ∈ expression.variableNames,
        Builtin.constant? name script.dialect = none := by
  intro opened declared symbols source
  have hreached : symbols.Reached .standard := .declare _ _ (.declare _ _ (.openScope .start))
  have hvariables : symbols.isVariable "count" ∧ symbols.isVariable "TRUE" = false := by
    decide +kernel
  obtain ⟨hsymbols, -, hcompiled⟩ := resolution_ignores_variables .standard
  have hcomputed : ((compileFor 20 source .standard .none).bind Except.toOption).map
      (fun script => script.expressions.map Resolved.variableNames)
        = some [[], ["count"]] := by decide +kernel
  obtain ⟨script, hcompile, hnames⟩ := exists_of_compileFor hcomputed
  exact ⟨⟨hreached, hvariables⟩, hsymbols symbols hreached, script, hcompile, hnames,
    hcompiled source .standard .none script hcompile⟩

end LslFront
