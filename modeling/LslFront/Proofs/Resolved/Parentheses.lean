import LslFront.Proofs.Expr.Grammar
import LslFront.Proofs.Success
import LslFront.Resolved.Resolve

/-!
# Redundant parentheses

An expression between parentheses is resolved as it would be without them, so a pair of parentheses
more or less makes no difference to what is around it.  There is one place where the tree below an
operator is looked at before it is resolved: a minus directly before the literal `2147483648` makes
the least integer, and before the same literal in parentheses a double.

A pair of parentheses is put around one expression in a larger one, so the place is found by going
down the tree, and the statement about any number of pairs follows from that about one.
-/

namespace LslFront

/-- The second expression is the first with one pair of parentheses more, around an operand, a
    component, an item, an argument or the whole, but not between a minus and the literal that is
    too large by one.  The name of a member is no operand. -/
inductive Expr.Enclosed : Expr → Expr → Prop where
  | here (expr : Expr) : Enclosed expr (.group [expr])
  | left {op : BinaryOp} {left left' right : Expr} : Enclosed left left' →
      Enclosed (.binary op left right) (.binary op left' right)
  | right {op : BinaryOp} {left right right' : Expr} : op ≠ .member → Enclosed right right' →
      Enclosed (.binary op left right) (.binary op left right')
  | unary {op : UnaryOp} {operand operand' : Expr} :
      ¬ (op = .neg ∧ operand = .value leastIntegerDigits) → Enclosed operand operand' →
      Enclosed (.unary op operand) (.unary op operand')
  | suffix {op : SuffixOp} {operand operand' : Expr} : Enclosed operand operand' →
      Enclosed (.suffix op operand) (.suffix op operand')
  | group {child child' : Expr} : Enclosed child child' →
      Enclosed (.group [child]) (.group [child'])
  | list {before after : List Expr} {item item' : Expr} : Enclosed item item' →
      Enclosed (.list (before ++ item :: after)) (.list (before ++ item' :: after))
  | angle {before after : List Expr} {component component' : Expr} : Enclosed component component' →
      Enclosed (.angle (before ++ component :: after)) (.angle (before ++ component' :: after))
  | call {name : String} {before after : List Expr} {arg arg' : Expr} : Enclosed arg arg' →
      Enclosed (.call name (before ++ arg :: after)) (.call name (before ++ arg' :: after))

/-- One expression can be made the other by inserting and removing such pairs. -/
abbrev Expr.Regrouped : Expr → Expr → Prop :=
  Relation.EqvGen Expr.Enclosed

theorem Expr.isLeaf_iff {expr : Expr} {token : String} : expr.isLeaf token ↔ expr = .value token := by
  cases expr <;> simp [isLeaf]

/-- What parentheses have been put around or into is no leaf. -/
theorem Expr.Enclosed.ne_value {expr other : Expr} (h : expr.Enclosed other) (token : String) :
    other ≠ .value token := by
  rintro rfl
  cases h

section

variable {scope : Scope}

/-! ### One pair -/

theorem Expr.resolveAll_replaced {item item' : Expr} (h : item.resolve scope = item'.resolve scope)
    (before after : List Expr) : Expr.resolveAll scope (before ++ item :: after)
      = Expr.resolveAll scope (before ++ item' :: after) := by
  induction before with
  | nil => rw [List.nil_append, List.nil_append, Expr.resolveAll, Expr.resolveAll, h]
  | cons first before ih =>
      rw [List.cons_append, List.cons_append, Expr.resolveAll, Expr.resolveAll, ih]

theorem Expr.Enclosed.resolve_eq {expr other : Expr} (h : expr.Enclosed other) :
    expr.resolve scope = other.resolve scope := by
  induction h with
  | here expr => rw [Expr.resolve.eq_def scope (.group [expr])]
  | left _ ih => simp only [Expr.resolve, ih]
  | right hop _ ih => simp only [Expr.resolve, if_neg hop, ih]
  | @unary op operand operand' hplain hoperand ih =>
      have hleaf : ¬ (op = .neg ∧ operand.isLeaf leastIntegerDigits) :=
        fun h => hplain ⟨h.1, Expr.isLeaf_iff.1 h.2⟩
      have hleaf' : ¬ (op = .neg ∧ operand'.isLeaf leastIntegerDigits) :=
        fun h => hoperand.ne_value _ (Expr.isLeaf_iff.1 h.2)
      simp only [Expr.resolve, if_neg hleaf, if_neg hleaf', ih]
  | suffix _ ih => simp only [Expr.resolve, ih]
  | group _ ih => simpa only [Expr.resolve] using ih
  | list _ ih | call _ ih => simp only [Expr.resolve, Expr.resolveAll_replaced ih]
  | angle _ ih =>
      simp only [Expr.resolve, Expr.resolveAll_replaced ih, List.length_append, List.length_cons]

/-! ### Any number of pairs -/

theorem Expr.Regrouped.resolve_eq {expr other : Expr} (h : expr.Regrouped other) :
    expr.resolve scope = other.resolve scope := by
  induction h with
  | rel _ _ hpair => exact hpair.resolve_eq
  | refl _ => rfl
  | symm _ _ _ ih => exact ih.symm
  | trans _ _ _ _ _ hfirst hsecond => exact hfirst.trans hsecond

/-! ### The exception -/

/-- Without a minus before it, the literal is a double. -/
theorem exists_float_of_leastIntegerDigits :
    ∃ x, (Expr.value leastIntegerDigits).resolve scope = .ok (.constant (.float x)) :=
  ⟨_, rfl⟩

theorem resolve_minus_leastIntegerDigits :
    (Expr.unary .neg (.value leastIntegerDigits)).resolve scope
      = .ok (.constant (.integer Int32.minValue)) := by
  rw [Expr.resolve]
  rfl

end

/-- Parentheses never make a difference, except between a minus and the literal `2147483648`, and
    there they always do. -/
theorem resolve_ignores_parentheses (scope : Scope) :
    (∀ expr other : Expr, expr.Regrouped other → expr.resolve scope = other.resolve scope) ∧
    ∀ operand : Expr, operand.Regrouped (.value leastIntegerDigits) →
      ((Expr.unary .neg operand).resolve scope
          = (Expr.unary .neg (.value leastIntegerDigits)).resolve scope ↔
        operand = .value leastIntegerDigits) := by
  refine ⟨fun expr other h => h.resolve_eq, fun operand h => ⟨fun heq => ?_, ?_⟩⟩
  · by_contra hne
    obtain ⟨x, hx⟩ := @exists_float_of_leastIntegerDigits scope
    have hleaf : ¬ (UnaryOp.neg = .neg ∧ operand.isLeaf leastIntegerDigits) :=
      fun h => hne (Expr.isLeaf_iff.1 h.2)
    rw [resolve_minus_leastIntegerDigits, Expr.resolve, if_neg hleaf, h.resolve_eq, hx] at heq
    cases heq
  · rintro rfl
    rfl

/-- In `(string)[1, -2147483648]` parentheses can stand around the list, around its items and
    between the cast and the rest, but not after the minus. -/
theorem resolve_ignores_parentheses_list :
    let least := Expr.value leastIntegerDigits
    let plain := Expr.unary (.cast .string) (.list [.value "1", .unary .neg least])
    let grouped := Expr.unary (.cast .string)
      (.group [.list [.group [.value "1"], .group [.unary .neg least]]])
    let scope : Scope := ⟨.standard, fun _ => false⟩
    plain.Regrouped grouped ∧ plain.resolve scope = grouped.resolve scope ∧
      (Expr.group [least]).Regrouped least ∧
      (Expr.unary .neg (.group [least])).resolve scope ≠ (Expr.unary .neg least).resolve scope := by
  intro least plain grouped scope
  have hcast : ∀ operand : Expr, ¬ (UnaryOp.cast .string = .neg ∧ operand = least) :=
    fun _ h => by cases h.1
  have hitem : Expr.Enclosed plain
      (.unary (.cast .string) (.list [.group [.value "1"], .unary .neg least])) :=
    .unary (hcast _) (@Expr.Enclosed.list [] _ _ _ (.here (.value "1")))
  have hminus : Expr.Enclosed
      (.unary (.cast .string) (.list [.group [.value "1"], .unary .neg least]))
      (.unary (.cast .string) (.list [.group [.value "1"], .group [.unary .neg least]])) :=
    .unary (hcast _) (@Expr.Enclosed.list [.group [.value "1"]] _ _ _ (.here (.unary .neg least)))
  have hlist : Expr.Enclosed
      (.unary (.cast .string) (.list [.group [.value "1"], .group [.unary .neg least]])) grouped :=
    .unary (hcast _) (.here _)
  have hregrouped : plain.Regrouped grouped :=
    .trans _ _ _ (.trans _ _ _ (.rel _ _ hitem) (.rel _ _ hminus)) (.rel _ _ hlist)
  have hleast : (Expr.group [least]).Regrouped least := .symm _ _ (.rel _ _ (.here least))
  have hlaw := resolve_ignores_parentheses scope
  refine ⟨hregrouped, hlaw.1 plain grouped hregrouped, hleast, fun heq => ?_⟩
  cases (hlaw.2 (.group [least]) hleast).mp heq

end LslFront
