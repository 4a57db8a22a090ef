import LslFront.Proofs.Expr.Grammar
import LslFront.Proofs.Success
import LslFront.Resolved.Resolve

/-!
# Variables in resolved expressions

A scope is asked for nothing but the constants of names, so two scopes that know the same constants
resolve everything alike.  A name is left as a variable only where its scope knows no constant; and
if no variable of the scope hides a built-in constant, then the dialect shows none of that name.
-/

namespace LslFront

/-- No variable of the scope hides a built-in constant. -/
def Scope.Clear (scope : Scope) : Prop :=
  ∀ name, scope.isVariable name → Builtin.constant? name scope.dialect = none

/-- The scope in which no name is a variable. -/
def Scope.withoutVariables (dialect : Dialect) : Scope :=
  ⟨dialect, fun _ => false⟩

theorem Scope.constant?_withoutVariables (dialect : Dialect) (name : String) :
    (withoutVariables dialect).constant? name = (Builtin.constant? name dialect).map (·.value) :=
  rfl

theorem Scope.Clear.constant?_eq {scope : Scope} (h : scope.Clear) (name : String) :
    scope.constant? name = (Builtin.constant? name scope.dialect).map (·.value) := by
  unfold constant?
  by_cases hvariable : scope.isVariable name
  · rw [if_pos hvariable, h name hvariable]
    rfl
  · rw [if_neg hvariable]

/-! ### Scopes that know the same constants -/

section

variable {scope other : Scope}

theorem Resolved.ofToken_congr (h : ∀ name, scope.constant? name = other.constant? name)
    (token : String) : ofToken scope token = ofToken other token := by
  unfold ofToken
  rw [h token]

theorem Expr.resolveAll_congr {exprs : List Expr}
    (h : ∀ expr ∈ exprs, expr.resolve scope = expr.resolve other) :
    Expr.resolveAll scope exprs = Expr.resolveAll other exprs := by
  induction exprs with
  | nil => rfl
  | cons expr rest ih =>
      obtain ⟨hexpr, hrest⟩ := List.forall_mem_cons.mp h
      rw [Expr.resolveAll, Expr.resolveAll, hexpr, ih hrest]

theorem Expr.resolve_congr (h : ∀ name, scope.constant? name = other.constant? name)
    (expr : Expr) : expr.resolve scope = expr.resolve other := by
  induction expr using Expr.induction with
  | value token =>
      rw [Expr.resolve, Expr.resolve]
      exact Resolved.ofToken_congr h token
  | binary op left right ihLeft ihRight =>
      simp only [Expr.resolve, ihLeft, ihRight]
  | unary op operand ih | suffix op operand ih =>
      simp only [Expr.resolve, ih]
  | group children ih =>
      rcases children with _ | ⟨child, _ | ⟨next, rest⟩⟩
      · rfl
      · exact ih child (List.mem_singleton.mpr rfl)
      · rfl
  | list items ih | angle items ih | call _ items ih =>
      simp only [Expr.resolve, Expr.resolveAll_congr ih]

theorem resolveTokens_congr (h : ∀ name, scope.constant? name = other.constant? name)
    (tokens : List String) : resolveTokens scope tokens = resolveTokens other tokens := by
  simp only [resolveTokens, Expr.resolve_congr h]

/-- Where no variable hides a built-in constant, the variables do not matter. -/
theorem Scope.Clear.resolveTokens_eq (h : scope.Clear) (tokens : List String) :
    resolveTokens scope tokens = resolveTokens (.withoutVariables scope.dialect) tokens := by
  apply resolveTokens_congr
  intro name
  rw [h.constant?_eq, Scope.constant?_withoutVariables]

end

/-! ### Names that are left -/

namespace Resolved

mutual

/-- The names that the running script has to look up. -/
def variableNames : Resolved → List String
  | constant _ => []
  | .variable name => [name]
  | binary _ left right => left.variableNames ++ right.variableNames
  | member operand _ | unary _ operand | suffix _ operand => operand.variableNames
  | call _ items | list items | vector items | rotation items => allVariableNames items

def allVariableNames : List Resolved → List String
  | [] => []
  | first :: rest => first.variableNames ++ allVariableNames rest

end

variable {resolved : Resolved}

theorem variableNames_castTo {target : Ty} {operand : Resolved}
    (h : castTo target operand = .ok resolved) :
    resolved.variableNames ⊆ operand.variableNames := by
  have hkept : (unary (.cast target) operand).variableNames ⊆ operand.variableNames :=
    List.Subset.refl _
  unfold castTo at h
  split at h
  · split at h
    · cases h
      exact hkept
    · split at h
      · cases h
        exact List.nil_subset _
      · cases h
  · split at h
    · split at h
      · cases h
        exact List.nil_subset _
      · cases h
        exact hkept
    · cases h
      exact hkept
  · cases h
    exact hkept

theorem variableNames_ofUnary {op : UnaryOp} {operand : Resolved}
    (h : ofUnary op operand = .ok resolved) : resolved.variableNames ⊆ operand.variableNames := by
  unfold ofUnary at h
  split at h
  · exact variableNames_castTo h
  · split at h
    · obtain ⟨result, -, rfl⟩ := map_eq_ok_iff.1 h
      exact List.nil_subset _
    · cases h
      exact List.Subset.refl _

theorem variableNames_ofSuffix {op : SuffixOp} {operand : Resolved}
    (h : ofSuffix op operand = .ok resolved) : resolved.variableNames ⊆ operand.variableNames := by
  unfold ofSuffix at h
  split at h
  · cases h
  · cases h
    exact List.Subset.refl _

theorem variableNames_ofMember {object : Resolved} {name : String}
    (h : ofMember object name = .ok resolved) : resolved.variableNames ⊆ object.variableNames := by
  unfold ofMember at h
  split at h
  · split at h
    · split at h
      · cases h
        exact List.nil_subset _
      · cases h
    · cases h
  · cases h
    exact List.Subset.refl _

theorem variableNames_ofBinary {op : BinaryOp} {left right : Resolved}
    (h : ofBinary op left right = .ok resolved) :
    resolved.variableNames ⊆ left.variableNames ++ right.variableNames := by
  have hkept :
      (binary op left right).variableNames ⊆ left.variableNames ++ right.variableNames :=
    List.Subset.refl _
  unfold ofBinary at h
  split at h
  · split at h
    · cases h
      exact List.nil_subset _
    · cases h
      exact hkept
    · cases h
  · cases h
    exact hkept

theorem variableNames_ofComponents (components : List Resolved) :
    (ofComponents components).variableNames ⊆ allVariableNames components := by
  unfold ofComponents
  split
  · exact List.nil_subset _
  · exact List.nil_subset _
  · split
    · exact List.Subset.refl _
    · exact List.Subset.refl _

theorem mem_allVariableNames {all : List Resolved} {name : String} :
    name ∈ allVariableNames all ↔ ∃ resolved ∈ all, name ∈ resolved.variableNames := by
  induction all with
  | nil => simp [allVariableNames]
  | cons first rest ih => simp [allVariableNames, ih]

/-- A leaf is a variable only if the scope knows no constant of its name. -/
theorem constant?_of_ofToken {scope : Scope} {token name : String}
    (h : ofToken scope token = .ok resolved) (hname : name ∈ resolved.variableNames) :
    scope.constant? name = none := by
  unfold ofToken at h
  split at h
  · split at h
    · cases h
      cases hname
    · cases h
  · split at h
    · split at h
      · cases h
        cases hname
      · cases h
    · split at h
      · cases h
        cases hname
      · rename_i hnone
        cases h
        obtain rfl : name = token := List.mem_singleton.mp hname
        exact hnone

end Resolved

section

variable {scope : Scope}

/-- No variable that is left is one of which the scope knows a constant. -/
def Expr.LeavesUnknown (scope : Scope) (expr : Expr) : Prop :=
  ∀ resolved, expr.resolve scope = .ok resolved →
    ∀ name ∈ resolved.variableNames, scope.constant? name = none

theorem Expr.leavesUnknown_all {exprs : List Expr} {all : List Resolved}
    (h : ∀ expr ∈ exprs, expr.LeavesUnknown scope) (hall : Expr.resolveAll scope exprs = .ok all) :
    ∀ name ∈ Resolved.allVariableNames all, scope.constant? name = none := by
  induction exprs generalizing all with
  | nil =>
      cases hall
      exact fun _ hname => absurd hname List.not_mem_nil
  | cons expr rest ih =>
      obtain ⟨hexpr, hrest⟩ := List.forall_mem_cons.mp h
      simp only [Expr.resolveAll, bind_eq_ok_iff, pure_eq_ok, Except.ok.injEq] at hall
      obtain ⟨first, hfirst, others, hothers, rfl⟩ := hall
      rw [Resolved.allVariableNames]
      exact List.forall_mem_append.mpr ⟨hexpr first hfirst, ih hrest hothers⟩

theorem Expr.leavesUnknown (expr : Expr) : expr.LeavesUnknown scope := by
  induction expr using Expr.induction with
  | value token =>
      intro resolved h name hname
      rw [Expr.resolve] at h
      exact Resolved.constant?_of_ofToken h hname
  | binary op left right ihLeft ihRight =>
      intro resolved h
      simp only [Expr.resolve, bind_eq_ok_iff] at h
      obtain ⟨first, hfirst, h⟩ := h
      have hleft := ihLeft first hfirst
      split at h
      · split at h
        · exact fun name hname => hleft name (Resolved.variableNames_ofMember h hname)
        · cases h
      · have hboth : ∀ second, right.resolve scope = .ok second →
            ∀ name ∈ first.variableNames ++ second.variableNames, scope.constant? name = none :=
          fun second hsecond => List.forall_mem_append.mpr ⟨hleft, ihRight second hsecond⟩
        split at h
        · split at h
          · cases h
          · simp only [bind_eq_ok_iff, pure_eq_ok, Except.ok.injEq] at h
            obtain ⟨second, hsecond, rfl⟩ := h
            rw [Resolved.variableNames]
            exact hboth second hsecond
        · obtain ⟨second, hsecond, h⟩ := bind_eq_ok_iff.1 h
          intro name hname
          exact hboth second hsecond name (Resolved.variableNames_ofBinary h hname)
  | unary op operand ih =>
      intro resolved h name hname
      rw [Expr.resolve] at h
      split at h
      · cases h
        cases hname
      · obtain ⟨inner, hinner, h⟩ := bind_eq_ok_iff.1 h
        exact ih inner hinner name (Resolved.variableNames_ofUnary h hname)
  | suffix op operand ih =>
      intro resolved h name hname
      rw [Expr.resolve] at h
      obtain ⟨inner, hinner, h⟩ := bind_eq_ok_iff.1 h
      exact ih inner hinner name (Resolved.variableNames_ofSuffix h hname)
  | group children ih =>
      rcases children with _ | ⟨child, _ | ⟨next, rest⟩⟩
      · exact fun _ h => by cases h
      · exact ih child (List.mem_singleton.mpr rfl)
      · exact fun _ h => by cases h
  | list items ih =>
      intro resolved h
      simp only [Expr.resolve, bind_eq_ok_iff, pure_eq_ok, Except.ok.injEq] at h
      obtain ⟨inner, hinner, rfl⟩ := h
      rw [Resolved.variableNames]
      exact Expr.leavesUnknown_all ih hinner
  | angle components ih =>
      intro resolved h
      rw [Expr.resolve] at h
      split at h
      · simp only [bind_eq_ok_iff, pure_eq_ok, Except.ok.injEq] at h
        obtain ⟨inner, hinner, rfl⟩ := h
        intro name hname
        exact Expr.leavesUnknown_all ih hinner name
          (Resolved.variableNames_ofComponents inner hname)
      · cases h
  | call function args ih =>
      intro resolved h
      simp only [Expr.resolve, bind_eq_ok_iff, pure_eq_ok, Except.ok.injEq] at h
      obtain ⟨inner, hinner, rfl⟩ := h
      rw [Resolved.variableNames]
      exact Expr.leavesUnknown_all ih hinner

/-- No variable names a constant that the dialect shows. -/
def Resolved.NamesNoConstant (dialect : Dialect) (resolved : Resolved) : Prop :=
  ∀ name ∈ resolved.variableNames, Builtin.constant? name dialect = none

theorem Scope.Clear.constant?_eq_none (h : scope.Clear) {name : String}
    (hname : scope.constant? name = none) : Builtin.constant? name scope.dialect = none := by
  rw [h.constant?_eq, Option.map_eq_none_iff] at hname
  exact hname

theorem Scope.Clear.of_resolveTokens (h : scope.Clear) {tokens : List String} {resolved : Resolved}
    (hresolve : resolveTokens scope tokens = .ok resolved) :
    resolved.NamesNoConstant scope.dialect := by
  simp only [resolveTokens, bind_eq_ok_iff] at hresolve
  obtain ⟨_, -, expr, -, hexpr⟩ := hresolve
  exact fun name hname => h.constant?_eq_none (expr.leavesUnknown resolved hexpr name hname)

theorem Scope.Clear.of_resolveTokenList (h : scope.Clear) {tokens : List String}
    {all : List Resolved} (hresolve : resolveTokenList scope tokens = .ok all) :
    ∀ resolved ∈ all, resolved.NamesNoConstant scope.dialect := by
  simp only [resolveTokenList, bind_eq_ok_iff] at hresolve
  obtain ⟨_, -, exprs, -, hexprs⟩ := hresolve
  have hall := Expr.leavesUnknown_all (fun expr _ => expr.leavesUnknown) hexprs
  intro resolved hmem name hname
  exact h.constant?_eq_none (hall name (Resolved.mem_allVariableNames.2 ⟨resolved, hmem, hname⟩))

end

end LslFront
