import LslFront.Proofs.Constant.Folding
import LslFront.Proofs.Expr.Grammar

/-!
# Nothing foldable is left

A node is irreducible if resolution would not have computed it from its operands.  What keeps a
node with constant operands is one of three things: a cast to list, which has no constant; a
division by zero, which is left to the running script; and a component of an angle literal that is
a constant but not a number.

Each operator is applied to operands below which nothing can be computed, and what it gives is
again such a tree, so by induction every resolved expression is one.
-/

namespace LslFront

namespace Resolved

/-! ### Nodes -/

def children : Resolved → List Resolved
  | constant _ | .variable _ => []
  | binary _ left right => [left, right]
  | member operand _ | unary _ operand | suffix _ operand => [operand]
  | call _ items | list items | vector items | rotation items => items

/-- The nodes of a tree, at any depth; the tree itself is one. -/
def HasNode : Resolved → Resolved → Prop :=
  Relation.ReflTransGen fun outer inner => inner ∈ outer.children

/-- An integer or a double. -/
def isNumber : Resolved → Bool
  | constant (.integer _) | constant (.float _) => true
  | _ => false

/-- There is nothing to compute at a node. -/
def Irreducible : Resolved → Prop
  | member object _ => ¬ object.isConstant
  | suffix _ operand => ¬ operand.isConstant
  | unary (.cast target) operand => (operand.isConstant → target = .list)
      ∧ ∀ items, target = .string → operand = list items → ∃ item ∈ items, ¬ item.isConstant
  | unary _ operand => ¬ operand.isConstant
  | binary op left right =>
      if op.isAssignment then ¬ left.isConstant
      else ∀ a b, left = constant a → right = constant b → op.divides ∧ b.IsZero
  | vector components => components.length = 3 ∧ ∃ c ∈ components, ¬ c.isNumber
  | rotation components => components.length = 4 ∧ ∃ c ∈ components, ¬ c.isNumber
  | constant _ | .variable _ | call _ _ | list _ => True

def Normal (resolved : Resolved) : Prop :=
  ∀ node, resolved.HasNode node → node.Irreducible

theorem normal_iff {resolved : Resolved} :
    resolved.Normal ↔ resolved.Irreducible ∧ ∀ child ∈ resolved.children, child.Normal := by
  constructor
  · intro h
    exact ⟨h _ .refl, fun child hchild node hnode => h node (.head hchild hnode)⟩
  · rintro ⟨hself, hbelow⟩ node hnode
    rcases hnode.cases_head with rfl | ⟨child, hchild, hnode⟩
    · exact hself
    · exact hbelow child hchild node hnode

theorem normal_constant (value : Constant) : (constant value).Normal :=
  normal_iff.2 ⟨trivial, List.forall_mem_nil _⟩

theorem not_isConstant {resolved : Resolved} (h : ∀ value, resolved ≠ constant value) :
    ¬ resolved.isConstant := by
  cases resolved with
  | constant value => exact absurd rfl (h value)
  | _ => exact Bool.false_ne_true

/-! ### Lists of operands -/

section

variable {α β : Type} {f : α → Option β} {as : List α}

theorem exists_mapM_eq_some (h : ∀ a ∈ as, ∃ b, f a = some b) : ∃ bs, as.mapM f = some bs := by
  induction as with
  | nil => exact ⟨[], rfl⟩
  | cons a rest ih =>
      obtain ⟨⟨b, hb⟩, hrest⟩ := List.forall_mem_cons.mp h
      obtain ⟨others, hothers⟩ := ih hrest
      exact ⟨b :: others, by simp [List.mapM_cons, hb, hothers]⟩

theorem length_of_mapM_eq_some {bs : List β} (h : as.mapM f = some bs) :
    bs.length = as.length := by
  induction as generalizing bs with
  | nil =>
      cases h
      rfl
  | cons a rest ih =>
      simp only [List.mapM_cons, Option.bind_eq_bind, Option.bind_eq_some_iff] at h
      obtain ⟨b, -, others, hothers, hbs⟩ := h
      cases hbs
      rw [List.length_cons, List.length_cons, ih hothers]

end

theorem exists_not_isConstant {items : List Resolved} (h : joinedText? items = none) :
    ∃ item ∈ items, ¬ item.isConstant := by
  by_contra hall
  push Not at hall
  obtain ⟨values, hvalues⟩ :=
    exists_mapM_eq_some fun item hitem => Option.isSome_iff_exists.mp (hall item hitem)
  rw [joinedText?, hvalues] at h
  cases h

theorem exists_number {resolved : Resolved} (h : resolved.isNumber) :
    ∃ x, resolved.constant?.bind Constant.number? = some x := by
  unfold isNumber at h
  split at h
  · exact ⟨_, rfl⟩
  · exact ⟨_, rfl⟩
  · cases h

theorem exists_not_isNumber {components : List Resolved}
    (h : components.mapM (fun c => c.constant?.bind Constant.number?) = none) :
    ∃ c ∈ components, ¬ c.isNumber := by
  by_contra hall
  push Not at hall
  obtain ⟨numbers, hnumbers⟩ := exists_mapM_eq_some fun c hc => exists_number (hall c hc)
  rw [hnumbers] at h
  cases h

/-! ### One operator -/

variable {resolved : Resolved}

theorem normal_castTo {target : Ty} {operand : Resolved} (hoperand : operand.Normal)
    (h : castTo target operand = .ok resolved) : resolved.Normal := by
  have hkept : (unary (.cast target) operand).Irreducible →
      (unary (.cast target) operand).Normal :=
    fun hself => normal_iff.2 ⟨hself, List.forall_mem_singleton.mpr hoperand⟩
  unfold castTo at h
  split at h
  · split at h
    · next hlist =>
        cases h
        exact hkept ⟨fun _ => hlist, fun _ _ hitems => by cases hitems⟩
    · split at h
      · cases h
        exact normal_constant _
      · cases h
  · split at h
    · split at h
      · cases h
        exact normal_constant _
      · next hnone =>
          cases h
          refine hkept ⟨nofun, fun _ _ hitems => ?_⟩
          cases hitems
          exact exists_not_isConstant hnone
    · next hstring =>
        cases h
        exact hkept ⟨nofun, fun _ htarget => absurd htarget hstring⟩
  · next hconstant hlist =>
      cases h
      exact hkept ⟨fun hisConstant => absurd hisConstant (not_isConstant hconstant),
        fun items _ hitems => absurd hitems (hlist items)⟩

theorem normal_ofUnary {op : UnaryOp} {operand : Resolved} (hoperand : operand.Normal)
    (h : ofUnary op operand = .ok resolved) : resolved.Normal := by
  unfold ofUnary at h
  split at h
  · exact normal_castTo hoperand h
  · next hcast =>
      split at h
      · obtain ⟨result, -, rfl⟩ := map_eq_ok_iff.1 h
        exact normal_constant result
      · next hconstant =>
          cases h
          refine normal_iff.2 ⟨?_, List.forall_mem_singleton.mpr hoperand⟩
          cases op with
          | cast target => exact absurd rfl (hcast target)
          | _ => exact not_isConstant hconstant

theorem normal_ofSuffix {op : SuffixOp} {operand : Resolved} (hoperand : operand.Normal)
    (h : ofSuffix op operand = .ok resolved) : resolved.Normal := by
  unfold ofSuffix at h
  split at h
  · cases h
  · next hconstant =>
      cases h
      exact normal_iff.2 ⟨hconstant, List.forall_mem_singleton.mpr hoperand⟩

theorem normal_ofMember {object : Resolved} {name : String} (hobject : object.Normal)
    (h : ofMember object name = .ok resolved) : resolved.Normal := by
  unfold ofMember at h
  split at h
  · split at h
    · split at h
      · cases h
        exact normal_constant _
      · cases h
    · cases h
  · next hconstant =>
      cases h
      exact normal_iff.2 ⟨not_isConstant hconstant, List.forall_mem_singleton.mpr hobject⟩

theorem normal_binary {op : BinaryOp} {left right : Resolved} (hleft : left.Normal)
    (hright : right.Normal) (hself : (binary op left right).Irreducible) :
    (binary op left right).Normal :=
  normal_iff.2 ⟨hself, List.forall_mem_cons.mpr ⟨hleft, List.forall_mem_singleton.mpr hright⟩⟩

theorem normal_assignment {op : BinaryOp} {left right : Resolved} (hop : op.isAssignment)
    (hleft : left.Normal) (hright : right.Normal) (hconstant : ¬ left.isConstant) :
    (binary op left right).Normal := by
  refine normal_binary hleft hright ?_
  rw [Irreducible, if_pos hop]
  exact hconstant

theorem normal_ofBinary {op : BinaryOp} {left right : Resolved} (hop : ¬ op.isAssignment)
    (hleft : left.Normal) (hright : right.Normal) (h : ofBinary op left right = .ok resolved) :
    resolved.Normal := by
  unfold ofBinary at h
  split at h
  · next a b =>
      split at h
      · cases h
        exact normal_constant _
      · next hfold =>
          cases h
          refine normal_binary hleft hright ?_
          rw [Irreducible, if_neg hop]
          rintro _ _ ⟨⟩ ⟨⟩
          have hfollows := op.fold_follows a b
          rw [hfold] at hfollows
          exact hfollows.2
      · cases h
  · next hconstant =>
      cases h
      refine normal_binary hleft hright ?_
      rw [Irreducible, if_neg hop]
      exact fun a b ha hb => absurd hb (hconstant a b ha)

theorem normal_ofComponents {components : List Resolved}
    (hlength : components.length = 3 ∨ components.length = 4)
    (hcomponents : ∀ c ∈ components, c.Normal) : (ofComponents components).Normal := by
  unfold ofComponents
  split
  · exact normal_constant _
  · exact normal_constant _
  · next hthree hfour =>
      -- Three or four numbers would have made a constant.
      have hnone : components.mapM (fun c => c.constant?.bind Constant.number?) = none := by
        cases hnumbers : components.mapM (fun c => c.constant?.bind Constant.number?) with
        | none => rfl
        | some numbers =>
            rw [← length_of_mapM_eq_some hnumbers] at hlength
            rcases hlength with hlength | hlength
            · obtain ⟨x, y, z, rfl⟩ := List.length_eq_three.mp hlength
              exact absurd hnumbers (hthree x y z)
            · obtain ⟨x, y, z, s, rfl⟩ := List.length_eq_four.mp hlength
              exact absurd hnumbers (hfour x y z s)
      have hnumber := exists_not_isNumber hnone
      split
      · next h => exact normal_iff.2 ⟨⟨h, hnumber⟩, hcomponents⟩
      · next h => exact normal_iff.2 ⟨⟨hlength.resolve_left h, hnumber⟩, hcomponents⟩

/-- Whatever constant a literal or a name stands for, and also a variable. -/
theorem normal_ofToken {scope : Scope} {token : String} (h : ofToken scope token = .ok resolved) :
    resolved.Normal := by
  have hvariable : (Resolved.variable token).Normal :=
    normal_iff.2 ⟨trivial, List.forall_mem_nil _⟩
  unfold ofToken at h
  split at h
  · split at h
    · cases h
      exact normal_constant _
    · cases h
  · split at h
    · split at h
      · cases h
        exact normal_constant _
      · cases h
    · split at h
      · cases h
        exact normal_constant _
      · cases h
        exact hvariable

end Resolved

/-! ### Trees -/

section

variable {scope : Scope}

theorem Expr.length_resolveAll {exprs : List Expr} {all : List Resolved}
    (h : Expr.resolveAll scope exprs = .ok all) : all.length = exprs.length := by
  induction exprs generalizing all with
  | nil =>
      cases h
      rfl
  | cons expr rest ih =>
      simp only [Expr.resolveAll, bind_eq_ok_iff, pure_eq_ok, Except.ok.injEq] at h
      obtain ⟨first, -, others, hothers, rfl⟩ := h
      rw [List.length_cons, List.length_cons, ih hothers]

/-- Nothing is left to compute in what the expression resolves to. -/
def Expr.ResolvesNormal (scope : Scope) (expr : Expr) : Prop :=
  ∀ resolved, expr.resolve scope = .ok resolved → resolved.Normal

theorem Expr.normal_resolveAll {exprs : List Expr} {all : List Resolved}
    (h : ∀ expr ∈ exprs, expr.ResolvesNormal scope) (hall : Expr.resolveAll scope exprs = .ok all) :
    ∀ resolved ∈ all, resolved.Normal := by
  induction exprs generalizing all with
  | nil =>
      cases hall
      exact List.forall_mem_nil _
  | cons expr rest ih =>
      obtain ⟨hexpr, hrest⟩ := List.forall_mem_cons.mp h
      simp only [Expr.resolveAll, bind_eq_ok_iff, pure_eq_ok, Except.ok.injEq] at hall
      obtain ⟨first, hfirst, others, hothers, rfl⟩ := hall
      exact List.forall_mem_cons.mpr ⟨hexpr first hfirst, ih hrest hothers⟩

theorem Expr.resolvesNormal (expr : Expr) : expr.ResolvesNormal scope := by
  induction expr using Expr.induction with
  | value token =>
      intro resolved h
      rw [Expr.resolve] at h
      exact Resolved.normal_ofToken h
  | binary op left right ihLeft ihRight =>
      intro resolved h
      simp only [Expr.resolve, bind_eq_ok_iff] at h
      obtain ⟨first, hfirst, h⟩ := h
      have hleft := ihLeft first hfirst
      split at h
      · split at h
        · exact Resolved.normal_ofMember hleft h
        · cases h
      · split at h
        · next hassignment =>
            split at h
            · cases h
            · next hconstant =>
                simp only [bind_eq_ok_iff, pure_eq_ok, Except.ok.injEq] at h
                obtain ⟨second, hsecond, rfl⟩ := h
                exact Resolved.normal_assignment hassignment hleft (ihRight second hsecond)
                  hconstant
        · next hassignment =>
            obtain ⟨second, hsecond, h⟩ := bind_eq_ok_iff.1 h
            exact Resolved.normal_ofBinary hassignment hleft (ihRight second hsecond) h
  | unary op operand ih =>
      intro resolved h
      rw [Expr.resolve] at h
      split at h
      · cases h
        exact Resolved.normal_constant _
      · obtain ⟨inner, hinner, h⟩ := bind_eq_ok_iff.1 h
        exact Resolved.normal_ofUnary (ih inner hinner) h
  | suffix op operand ih =>
      intro resolved h
      rw [Expr.resolve] at h
      obtain ⟨inner, hinner, h⟩ := bind_eq_ok_iff.1 h
      exact Resolved.normal_ofSuffix (ih inner hinner) h
  | group children ih =>
      rcases children with _ | ⟨child, _ | ⟨next, rest⟩⟩
      · exact fun _ h => by cases h
      · exact ih child (List.mem_singleton.mpr rfl)
      · exact fun _ h => by cases h
  | list items ih =>
      intro resolved h
      simp only [Expr.resolve, bind_eq_ok_iff, pure_eq_ok, Except.ok.injEq] at h
      obtain ⟨inner, hinner, rfl⟩ := h
      exact Resolved.normal_iff.2 ⟨trivial, Expr.normal_resolveAll ih hinner⟩
  | angle components ih =>
      intro resolved h
      rw [Expr.resolve] at h
      split at h
      · next hlength =>
          simp only [bind_eq_ok_iff, pure_eq_ok, Except.ok.injEq] at h
          obtain ⟨inner, hinner, rfl⟩ := h
          rw [← Expr.length_resolveAll hinner] at hlength
          exact Resolved.normal_ofComponents hlength (Expr.normal_resolveAll ih hinner)
      · cases h
  | call name args ih =>
      intro resolved h
      simp only [Expr.resolve, bind_eq_ok_iff, pure_eq_ok, Except.ok.injEq] at h
      obtain ⟨inner, hinner, rfl⟩ := h
      exact Resolved.normal_iff.2 ⟨trivial, Expr.normal_resolveAll ih hinner⟩

/-- Nothing foldable is left: in every scope, every node of what an expression resolves to is
    irreducible. -/
theorem resolve_irreducible {expr : Expr} {resolved node : Resolved}
    (h : expr.resolve scope = .ok resolved) (hnode : resolved.HasNode node) : node.Irreducible :=
  expr.resolvesNormal resolved h node hnode

end

/-- `<1 / 0, "a", (list) 2>`: a division by zero, a component that is no number and a cast to list
    are left, each with constants in it. -/
theorem resolve_irreducible_angle :
    (Expr.angle [.binary .div (.value "1") (.value "0"), .value "\"a\"",
        .unary (.cast .list) (.value "2")]).resolve ⟨.standard, fun _ => false⟩
      = .ok (.vector [.binary .div (.constant (.integer 1)) (.constant (.integer 0)),
          .constant (.string "a"), .unary (.cast .list) (.constant (.integer 2))])
    ∧ (Resolved.binary .div (.constant (.integer 1)) (.constant (.integer 0))).Irreducible := by
  have hresolve : (Expr.angle [.binary .div (.value "1") (.value "0"), .value "\"a\"",
      .unary (.cast .list) (.value "2")]).resolve ⟨.standard, fun _ => false⟩
      = .ok (.vector [.binary .div (.constant (.integer 1)) (.constant (.integer 0)),
          .constant (.string "a"), .unary (.cast .list) (.constant (.integer 2))]) := rfl
  exact ⟨hresolve, resolve_irreducible hresolve (.single List.mem_cons_self)⟩

end LslFront
