import LslFront.Proofs.Constant.Quoting
import LslFront.Proofs.Expr.Recombining
import LslFront.Resolved.Resolve

/-!
# Causes that lie in the script

A cause of failure is either something in the script or a defect of the compiler.  Resolving has one
defect to report, a member access without a name, and trees of the grammar have no such access; so
the resolution of tokens fails for nothing but what is written.

A malformed literal is a cause only if it is written, too.  `Cause.Blames` says both at once: the
kind of literals that can be malformed is a parameter, and every reader takes it over from the tokens
that it is given.
-/

namespace LslFront

/-- The cause lies in the script, and not in the compiler. -/
@[simp] def Cause.InScript (cause : Cause) : Prop :=
  ∀ defect, cause ≠ .defect defect

def Fault.InScript (fault : Fault) : Prop :=
  fault.cause.InScript

/-- The cause lies in the script, and a literal is the cause only if it is of this kind. -/
@[simp] def Cause.Blames (P : String → Prop) (cause : Cause) : Prop :=
  cause.InScript ∧ ∀ token, cause = .resolution (.literal token) → P token

def Fault.Blames (P : String → Prop) (fault : Fault) : Prop :=
  fault.cause.Blames P

/-- Malformed literals among the tokens are of this kind. -/
def MalformedOnly (P : String → Prop) (tokens : List String) : Prop :=
  ∀ token ∈ tokens, IsMalformed token → P token

section

variable {P : String → Prop} {tokens more : List String}

theorem MalformedOnly.mono (h : MalformedOnly P more) (hsub : tokens ⊆ more) :
    MalformedOnly P tokens :=
  fun token hmem => h token (hsub hmem)

theorem FailsOnly.onLine {α : Type} {result : Except Cause α}
    (h : FailsOnly (Cause.Blames P) result) (line : Nat) :
    FailsOnly (Fault.Blames P) (onLine line result) :=
  .mapError h

end

/-! ### One operator -/

namespace Resolved

variable {scope : Scope} {P : String → Prop}

@[simp] theorem blames_refuse {α : Type} {cause : ResolutionCause} :
    FailsOnly (Cause.Blames P) (refuse cause : Except Cause α) ↔
      ∀ token, cause = .literal token → P token := by
  simp [refuse]

theorem blames_ofToken {token : String} (h : IsMalformed token → P token) :
    FailsOnly (Cause.Blames P) (ofToken scope token) := by
  unfold ofToken
  split
  · rename_i hquoted
    split
    · simp
    · rename_i hnone
      simpa using h ⟨hquoted, hnone⟩
  · split
    · split <;> simp
    · split <;> simp

theorem blames_castTo (target : Ty) (operand : Resolved) :
    FailsOnly (Cause.Blames P) (castTo target operand) := by
  unfold castTo
  split
  · split
    · simp
    · split <;> simp
  · split
    · split <;> simp
    · simp
  · simp

theorem blames_unaryConstant (op : UnaryOp) (value : Constant) :
    FailsOnly (Cause.Blames P) (unaryConstant op value) := by
  unfold unaryConstant
  split
  · simp
  · split <;> simp
  all_goals simp

theorem blames_ofUnary (op : UnaryOp) (operand : Resolved) :
    FailsOnly (Cause.Blames P) (ofUnary op operand) := by
  unfold ofUnary
  split
  · exact blames_castTo _ operand
  · split
    · exact (blames_unaryConstant op _).map _
    · simp

theorem blames_ofSuffix (op : SuffixOp) (operand : Resolved) :
    FailsOnly (Cause.Blames P) (ofSuffix op operand) := by
  unfold ofSuffix
  split <;> simp

theorem blames_ofMember (object : Resolved) (name : String) :
    FailsOnly (Cause.Blames P) (ofMember object name) := by
  unfold ofMember
  split
  · split
    · split <;> simp
    · simp
  · simp

theorem blames_ofBinary (op : BinaryOp) (left right : Resolved) :
    FailsOnly (Cause.Blames P) (ofBinary op left right) := by
  unfold ofBinary
  split
  · split <;> simp
  · simp

end Resolved

/-! ### Trees -/

section

variable {scope : Scope} {P : String → Prop}

theorem tokens_subset_separatedTokens {expr : Expr} {exprs : List Expr} (h : expr ∈ exprs) :
    expr.tokens ⊆ separatedTokens exprs := by
  induction exprs with
  | nil => cases h
  | cons first rest ih =>
      rcases List.mem_cons.mp h with rfl | hmem
      · obtain ⟨others, hothers⟩ := separatedTokens_cons_eq_append expr rest
        rw [hothers]
        exact List.subset_append_left _ _
      · rw [separatedTokens_cons first (List.ne_nil_of_mem hmem)]
        exact List.subset_append_of_subset_right _ (List.subset_cons_of_subset _ (ih hmem))

theorem blames_resolveAll {exprs : List Expr}
    (h : ∀ expr ∈ exprs, FailsOnly (Cause.Blames P) (expr.resolve scope)) :
    FailsOnly (Cause.Blames P) (Expr.resolveAll scope exprs) := by
  induction exprs with
  | nil => simp [Expr.resolveAll]
  | cons expr rest ih =>
      obtain ⟨hexpr, hrest⟩ := List.forall_mem_cons.mp h
      rw [Expr.resolveAll]
      exact hexpr.bind fun _ _ => (ih hrest).bind fun _ _ => by simp

theorem blames_resolve_binary {op : BinaryOp} {left right : Expr} (hop : op ≠ .member)
    (hleft : FailsOnly (Cause.Blames P) (left.resolve scope))
    (hright : FailsOnly (Cause.Blames P) (right.resolve scope)) :
    FailsOnly (Cause.Blames P) (Expr.resolve scope (.binary op left right)) := by
  rw [Expr.resolve]
  refine hleft.bind fun first _ => ?_
  rw [if_neg hop]
  split
  · split
    · simp
    · exact hright.bind fun _ _ => by simp
  · exact hright.bind fun second _ => Resolved.blames_ofBinary op first second

/-- The items between two brackets. -/
theorem blames_resolveAll_between {exprs : List Expr} {tokens : List String}
    (h : MalformedOnly P tokens) (hsub : separatedTokens exprs ⊆ tokens)
    (ih : ∀ expr ∈ exprs, MalformedOnly P expr.tokens →
      FailsOnly (Cause.Blames P) (expr.resolve scope)) :
    FailsOnly (Cause.Blames P) (Expr.resolveAll scope exprs) := by
  refine blames_resolveAll fun expr hmem => ih expr hmem (h.mono ?_)
  exact List.Subset.trans (tokens_subset_separatedTokens hmem) hsub

/-- A tree of the grammar is resolved, or something in the script is the cause. -/
theorem Expr.Grammatical.blames_resolve {angle : Bool} {expr : Expr} (h : expr.Grammatical angle)
    (hmalformed : MalformedOnly P expr.tokens) :
    FailsOnly (Cause.Blames P) (expr.resolve scope) := by
  induction h with
  | value _ =>
      rw [Expr.resolve]
      exact Resolved.blames_ofToken (hmalformed _ (by simp [Expr.tokens]))
  | @assignment _ op _ _ hop _ _ _ ihleft ihright =>
      refine blames_resolve_binary ?_ (ihleft (hmalformed.mono ?_)) (ihright (hmalformed.mono ?_))
      · rintro rfl
        cases hop
      · simp [Expr.tokens]
      · simp [Expr.tokens]
  | @joined _ op _ _ _ hop _ _ _ _ _ ihleft ihright =>
      refine blames_resolve_binary ?_ (ihleft (hmalformed.mono ?_)) (ihright (hmalformed.mono ?_))
      · rintro rfl
        exact absurd hop (by decide)
      · simp [Expr.tokens]
      · simp [Expr.tokens]
  | unary _ _ ih =>
      rw [Expr.resolve]
      split
      · simp
      · have hoperand := ih (hmalformed.mono (by simp [Expr.tokens]))
        exact hoperand.bind fun operand _ => Resolved.blames_ofUnary _ operand
  | suffix _ _ ih =>
      rw [Expr.resolve]
      have hoperand := ih (hmalformed.mono (by simp [Expr.tokens]))
      exact hoperand.bind fun operand _ => Resolved.blames_ofSuffix _ operand
  | member _ _ _ ih =>
      rw [Expr.resolve]
      have hobject := ih (hmalformed.mono (by simp [Expr.tokens]))
      exact hobject.bind fun object _ => Resolved.blames_ofMember object _
  | group _ ih =>
      rw [Expr.resolve]
      exact ih (hmalformed.mono (by simp [Expr.tokens, separatedTokens]))
  | list _ ih =>
      rw [Expr.resolve]
      exact (blames_resolveAll_between hmalformed (by simp [Expr.tokens]) ih).bind
        fun _ _ => by simp
  | angle _ _ ih =>
      rw [Expr.resolve]
      split
      · exact (blames_resolveAll_between hmalformed (by simp [Expr.tokens]) ih).bind
          fun _ _ => by simp
      · simp
  | call _ _ _ ih =>
      rw [Expr.resolve]
      refine (blames_resolveAll_between hmalformed ?_ ih).bind fun _ _ => by simp
      exact List.subset_cons_of_subset _ (by simp)

/-! ### Tokens -/

/-- The cast pass makes no quoted token. -/
theorem Spells.mem_of_isQuoted {tokens spelled : List String} (h : Spells tokens spelled)
    {token : String} (hmem : token ∈ spelled) (hquoted : isQuoted token) : token ∈ tokens := by
  induction h with
  | nil => exact hmem
  | @kept kept rest others _ ih =>
      rcases List.mem_cons.mp hmem with rfl | hmem
      · have hkept : kept = castSpelling kept := by
          refine eq_of_castSpelling rfl ?_
          intro heq
          rw [heq] at hquoted
          exact absurd hquoted (by decide)
        rw [← hkept]
        exact List.mem_cons_self
      · exact List.mem_cons_of_mem _ (ih hmem)
  | @cast name ty rest others _ _ ih =>
      rcases List.mem_cons.mp hmem with rfl | hmem
      · cases ty <;> exact absurd hquoted (by decide)
      · exact List.mem_cons_of_mem _ (List.mem_cons_of_mem _ (List.mem_cons_of_mem _ (ih hmem)))

theorem MalformedOnly.collapsed {tokens collapsed : List String} (h : MalformedOnly P tokens)
    (hcollapsed : recombineCasts tokens = .ok collapsed) :
    MalformedOnly P (collapsed.map castSpelling) :=
  fun token hmem hmalformed =>
    h token ((spells_of_collapseCasts hcollapsed).mem_of_isQuoted hmem hmalformed.1) hmalformed

theorem blames_recombineCasts (tokens : List String) :
    FailsOnly (Cause.Blames P) ((recombineCasts tokens).mapError Cause.resolution) := by
  refine .mapError fun cause hcause => ?_
  obtain ⟨name, rfl, -⟩ := refuses_of_collapseCasts hcause
  simp

theorem blames_resolveTokens {tokens : List String} (h : MalformedOnly P tokens) :
    FailsOnly (Cause.Blames P) (resolveTokens scope tokens) := by
  unfold resolveTokens
  apply (blames_recombineCasts tokens).bind
  intro collapsed hcollapsed
  have hwritten := h.collapsed (mapError_eq_ok_iff.1 hcollapsed)
  apply FailsOnly.bind
  · exact .mapError fun _ _ => by simp
  · intro expr hexpr
    obtain ⟨htokens, hgrammatical⟩ := parseExpression_reads (mapError_eq_ok_iff.1 hexpr)
    exact hgrammatical.blames_resolve (by rwa [htokens])

theorem blames_resolveTokenList {tokens : List String} (h : MalformedOnly P tokens) :
    FailsOnly (Cause.Blames P) (resolveTokenList scope tokens) := by
  unfold resolveTokenList
  apply (blames_recombineCasts tokens).bind
  intro collapsed hcollapsed
  have hwritten := h.collapsed (mapError_eq_ok_iff.1 hcollapsed)
  apply FailsOnly.bind
  · exact .mapError fun _ _ => by simp
  · intro exprs hexprs
    obtain ⟨htokens, hgrammatical⟩ := parseList_reads (mapError_eq_ok_iff.1 hexprs)
    refine blames_resolveAll_between (by rwa [htokens]) (List.Subset.refl _) ?_
    exact fun expr hmem hmalformed => (hgrammatical expr hmem).blames_resolve hmalformed

end

end LslFront
