import LslFront.Proofs.Expr.Grammar
import LslFront.Proofs.Success
import LslFront.Resolved.Resolve

/-!
# Resolving with fewer constants

A scope that knows fewer constants computes less.  What it leaves to the running script the wider
scope computes, or leaves as well, and never the other way round; and as an operator is refused only
for the constants before it, what the wider scope resolves the narrower one does too.

`Resolved.Covers` compares the two trees node by node.  A node that is computed in the wider scope
only can be anything but a list: lists are kept in all scopes, and a cast to string looks into them.
-/

namespace LslFront

/-- Every constant of the other scope is one of this scope, with the same value. -/
def Scope.Includes (wide narrow : Scope) : Prop :=
  ∀ name value, narrow.constant? name = some value → wide.constant? name = some value

namespace Resolved

/-- The expression is left to the running script and is not written as a list. -/
@[simp] def IsKept : Resolved → Prop
  | constant _ | list _ => False
  | _ => True

/-- The first tree is the second one, with some kept parts computed. -/
inductive Covers : Resolved → Resolved → Prop where
  | constant {value} : Covers (constant value) (constant value)
  | computed {value kept} : kept.IsKept → Covers (constant value) kept
  | variable {name} : Covers (.variable name) (.variable name)
  | binary {op left left' right right'} : Covers left left' → Covers right right' →
      Covers (binary op left right) (binary op left' right')
  | member {object object' name} : Covers object object' →
      Covers (member object name) (member object' name)
  | unary {op operand operand'} : Covers operand operand' →
      Covers (unary op operand) (unary op operand')
  | suffix {op operand operand'} : Covers operand operand' →
      Covers (suffix op operand) (suffix op operand')
  | call {name args args'} : List.Forall₂ Covers args args' →
      Covers (call name args) (call name args')
  | list {items items'} : List.Forall₂ Covers items items' → Covers (list items) (list items')
  | vector {components components'} : List.Forall₂ Covers components components' →
      Covers (vector components) (vector components')
  | rotation {components components'} : List.Forall₂ Covers components components' →
      Covers (rotation components) (rotation components')

theorem eq_constant_of_constant? {resolved : Resolved} {value : Constant}
    (h : resolved.constant? = some value) : resolved = constant value := by
  cases resolved with
  | constant found =>
      cases h
      rfl
  | _ => cases h

variable {wide narrow : Resolved}

/-- A constant of the second tree is one of the first. -/
theorem Covers.constant?_eq (h : wide.Covers narrow) {value : Constant}
    (hvalue : narrow.constant? = some value) : wide.constant? = some value := by
  cases h with
  | constant => exact hvalue
  | computed hkept =>
      rw [eq_constant_of_constant? hvalue] at hkept
      exact hkept.elim
  | _ => cases hvalue

theorem Covers.constant?_eq_none (h : wide.Covers narrow) (hwide : wide.constant? = none) :
    narrow.constant? = none := by
  cases hnarrow : narrow.constant? with
  | none => rfl
  | some value =>
      rw [h.constant?_eq hnarrow] at hwide
      cases hwide

/-- Where both trees are constants, they are the same. -/
theorem Covers.eq_of_constant {value : Constant} (h : (Resolved.constant value).Covers narrow)
    (hnarrow : narrow.constant? ≠ none) : narrow = .constant value := by
  obtain ⟨found, hfound⟩ := Option.ne_none_iff_exists'.mp hnarrow
  cases h.constant?_eq hfound
  exact eq_constant_of_constant? hfound

/-! ### One operator -/

variable {wideScope narrowScope : Scope}

theorem carries_ofToken (h : wideScope.Includes narrowScope) (token : String) :
    Carries Covers (ofToken wideScope token) (ofToken narrowScope token) := by
  unfold ofToken
  split
  · split
    · exact .ok .constant
    · exact .error _ _
  · split
    · split
      · exact .ok .constant
      · exact .error _ _
    · cases hnarrow : narrowScope.constant? token with
      | some value =>
          rw [h token value hnarrow]
          exact .ok .constant
      | none =>
          split
          · exact .ok (.computed trivial)
          · exact .ok .variable

/-- What is known of all items of the second list is known of those of the first. -/
theorem mapM_of_covers {γ : Type} {known? : Resolved → Option γ}
    (hknown : ∀ {wide narrow : Resolved}, wide.Covers narrow →
      ∀ found, known? narrow = some found → known? wide = some found)
    {items items' : List Resolved} (h : List.Forall₂ Covers items items') {all : List γ}
    (hall : items'.mapM known? = some all) : items.mapM known? = some all := by
  induction h generalizing all with
  | nil => exact hall
  | cons hfirst _ ih =>
      simp only [List.mapM_cons, Option.bind_eq_bind, Option.bind_eq_some_iff] at hall ⊢
      obtain ⟨found, hfound, others, hothers, hrest⟩ := hall
      exact ⟨found, hknown hfirst found hfound, others, ih hothers, hrest⟩

theorem joinedText?_of_covers {items items' : List Resolved} (h : List.Forall₂ Covers items items')
    {text : String} (htext : joinedText? items' = some text) : joinedText? items = some text := by
  obtain ⟨values, hvalues, rfl⟩ := Option.map_eq_some_iff.mp htext
  rw [joinedText?, mapM_of_covers (fun h _ => h.constant?_eq) h hvalues]
  rfl

theorem carries_castTo (h : wide.Covers narrow) (target : Ty) :
    Carries Covers (castTo target wide) (castTo target narrow) := by
  have hunary : Covers (unary (.cast target) wide) (unary (.cast target) narrow) := .unary h
  cases h with
  | constant =>
      apply Carries.same
      intro resolved hresolved
      simp only [castTo] at hresolved
      split at hresolved
      · cases hresolved
        exact hunary
      · split at hresolved
        · cases hresolved
          exact .constant
        · cases hresolved
  | computed hkept =>
      have hnarrow : castTo target narrow = .ok (unary (.cast target) narrow) := by
        cases narrow with
        | constant | list => exact hkept.elim
        | _ => rfl
      rw [hnarrow]
      simp only [castTo]
      split
      · exact .ok hunary
      · split
        · exact .ok (.computed trivial)
        · exact .error _ _
  | @list items items' hitems =>
      simp only [castTo]
      split
      · cases hnarrow : joinedText? items' with
        | some text =>
            rw [joinedText?_of_covers hitems hnarrow]
            exact .ok .constant
        | none =>
            split
            · exact .ok (.computed trivial)
            · exact .ok hunary
      · exact .ok hunary
  | _ => exact .ok hunary

/-- An operator other than a cast is kept before what is no constant. -/
theorem ofUnary_kept {op : UnaryOp} (hop : ∀ target, op ≠ .cast target) {operand : Resolved}
    (h : operand.constant? = none) : ofUnary op operand = .ok (unary op operand) := by
  cases op with
  | cast target => exact absurd rfl (hop target)
  | _ =>
      cases operand with
      | constant => cases h
      | _ => rfl

theorem carries_ofUnary (h : wide.Covers narrow) (op : UnaryOp) :
    Carries Covers (ofUnary op wide) (ofUnary op narrow) := by
  by_cases hcast : ∃ target, op = .cast target
  · obtain ⟨target, rfl⟩ := hcast
    exact carries_castTo h target
  · have hop : ∀ target, op ≠ .cast target := fun target htarget => hcast ⟨target, htarget⟩
    have hconstant : ∀ value,
        ofUnary op (constant value) = (unaryConstant op value).map constant := by
      intro value
      cases op with
      | cast target => exact absurd rfl (hop target)
      | _ => rfl
    cases hnarrow : narrow.constant? with
    | some value =>
        rw [eq_constant_of_constant? hnarrow, eq_constant_of_constant? (h.constant?_eq hnarrow),
          hconstant]
        apply Carries.same
        intro resolved hresolved
        obtain ⟨result, -, rfl⟩ := map_eq_ok_iff.1 hresolved
        exact .constant
    | none =>
        rw [ofUnary_kept hop hnarrow]
        cases hwide : wide.constant? with
        | some value =>
            rw [eq_constant_of_constant? hwide, hconstant]
            intro resolved hresolved
            obtain ⟨result, -, rfl⟩ := map_eq_ok_iff.1 hresolved
            exact ⟨_, rfl, .computed trivial⟩
        | none =>
            rw [ofUnary_kept hop hwide]
            exact .ok (.unary h)

theorem carries_ofSuffix (h : wide.Covers narrow) (op : SuffixOp) :
    Carries Covers (ofSuffix op wide) (ofSuffix op narrow) := by
  unfold ofSuffix isConstant
  cases hwide : wide.constant? with
  | some value => exact .error _ _
  | none =>
      rw [h.constant?_eq_none hwide]
      exact .ok (.suffix h)

theorem ofMember_kept {object : Resolved} (h : object.constant? = none) (name : String) :
    ofMember object name = .ok (member object name) := by
  cases object with
  | constant => cases h
  | _ => rfl

/-- A component of a constant is a constant. -/
theorem exists_of_ofMember_constant {value : Constant} {name : String} {resolved : Resolved}
    (h : ofMember (constant value) name = .ok resolved) : ∃ x, resolved = constant (.float x) := by
  simp only [ofMember] at h
  split at h
  · split at h
    · cases h
      exact ⟨_, rfl⟩
    · cases h
  · cases h

theorem carries_ofMember (h : wide.Covers narrow) (name : String) :
    Carries Covers (ofMember wide name) (ofMember narrow name) := by
  cases hwide : wide.constant? with
  | none =>
      rw [ofMember_kept hwide, ofMember_kept (h.constant?_eq_none hwide)]
      exact .ok (.member h)
  | some value =>
      have hvalue := eq_constant_of_constant? hwide
      cases hnarrow : narrow.constant? with
      | none =>
          rw [ofMember_kept hnarrow, hvalue]
          intro resolved hresolved
          obtain ⟨x, rfl⟩ := exists_of_ofMember_constant hresolved
          exact ⟨_, rfl, .computed trivial⟩
      | some found =>
          have hsame : some value = some found := hwide.symm.trans (h.constant?_eq hnarrow)
          rw [eq_constant_of_constant? hnarrow, hvalue, Option.some.inj hsame]
          apply Carries.same
          intro resolved hresolved
          obtain ⟨x, rfl⟩ := exists_of_ofMember_constant hresolved
          exact .constant

theorem ofBinary_kept {op : BinaryOp} {left right : Resolved}
    (h : left.constant? = none ∨ right.constant? = none) :
    ofBinary op left right = .ok (binary op left right) := by
  unfold ofBinary
  split
  · rcases h with h | h <;> cases h
  · rfl

theorem carries_ofBinary {left left' right right' : Resolved} (hleft : left.Covers left')
    (hright : right.Covers right') (op : BinaryOp) :
    Carries Covers (ofBinary op left right) (ofBinary op left' right') := by
  have hbinary : Covers (binary op left right) (binary op left' right') := .binary hleft hright
  by_cases hkept : left.constant? = none ∨ right.constant? = none
  · have hkept' := hkept.imp hleft.constant?_eq_none hright.constant?_eq_none
    rw [ofBinary_kept hkept, ofBinary_kept hkept']
    exact .ok hbinary
  · rw [not_or] at hkept
    obtain ⟨a, ha⟩ := Option.ne_none_iff_exists'.mp hkept.1
    obtain ⟨b, hb⟩ := Option.ne_none_iff_exists'.mp hkept.2
    obtain rfl := eq_constant_of_constant? ha
    obtain rfl := eq_constant_of_constant? hb
    by_cases hnarrow : left'.constant? = none ∨ right'.constant? = none
    · rw [ofBinary_kept hnarrow]
      simp only [ofBinary]
      split
      · exact .ok (.computed trivial)
      · exact .ok hbinary
      · exact .error _ _
    · rw [not_or] at hnarrow
      obtain rfl := hleft.eq_of_constant hnarrow.1
      obtain rfl := hright.eq_of_constant hnarrow.2
      apply Carries.same
      intro resolved hresolved
      simp only [ofBinary] at hresolved
      split at hresolved
      · cases hresolved
        exact .constant
      · cases hresolved
        exact hbinary
      · cases hresolved

theorem covers_ofComponents {components components' : List Resolved}
    (h : List.Forall₂ Covers components components') :
    (ofComponents components).Covers (ofComponents components') := by
  have hnumbers : ∀ numbers,
      components'.mapM (fun c => c.constant?.bind Constant.number?) = some numbers →
        components.mapM (fun c => c.constant?.bind Constant.number?) = some numbers := by
    intro numbers hnumbers
    apply mapM_of_covers _ h hnumbers
    intro wide narrow hcovers number hnumber
    obtain ⟨value, hvalue, hnumber⟩ := Option.bind_eq_some_iff.mp hnumber
    exact Option.bind_eq_some_iff.mpr ⟨value, hcovers.constant?_eq hvalue, hnumber⟩
  -- Whether the kept form is a vector or a rotation depends on the number of components.
  have hkept : Covers (if components.length = 3 then vector components else rotation components)
      (if components'.length = 3 then vector components' else rotation components') := by
    rw [h.length_eq]
    split
    · exact .vector h
    · exact .rotation h
  have hcomputed : ∀ value, (constant value).Covers
      (if components'.length = 3 then vector components' else rotation components') := by
    intro value
    split
    · exact .computed trivial
    · exact .computed trivial
  unfold ofComponents
  cases hnarrow : components'.mapM (fun c => c.constant?.bind Constant.number?) with
  | some numbers =>
      rw [hnumbers numbers hnarrow]
      split
      · exact .constant
      · exact .constant
      · exact hkept
  | none =>
      split
      · exact hcomputed _
      · exact hcomputed _
      · exact hkept

end Resolved

/-! ### Trees and tokens -/

section

variable {wide narrow : Scope}

/-- What the wider scope resolves, the narrower one does too. -/
def Expr.Narrows (wide narrow : Scope) (expr : Expr) : Prop :=
  Carries Resolved.Covers (expr.resolve wide) (expr.resolve narrow)

theorem Expr.carries_resolveAll {exprs : List Expr}
    (h : ∀ expr ∈ exprs, expr.Narrows wide narrow) :
    Carries (List.Forall₂ Resolved.Covers) (Expr.resolveAll wide exprs)
      (Expr.resolveAll narrow exprs) := by
  induction exprs with
  | nil => exact .ok .nil
  | cons expr rest ih =>
      obtain ⟨hexpr, hrest⟩ := List.forall_mem_cons.mp h
      simp only [Expr.resolveAll]
      apply hexpr.bind
      intro first first' hfirst
      apply (ih hrest).bind
      intro others others' hothers
      exact .ok (.cons hfirst hothers)

theorem Expr.narrows (h : wide.Includes narrow) (expr : Expr) : expr.Narrows wide narrow := by
  induction expr using Expr.induction with
  | value token =>
      simp only [Narrows, Expr.resolve]
      exact Resolved.carries_ofToken h token
  | binary op left right ihLeft ihRight =>
      simp only [Narrows, Expr.resolve]
      apply ihLeft.bind
      intro first first' hfirst
      by_cases hmember : op = .member
      · rw [if_pos hmember, if_pos hmember]
        split
        · exact Resolved.carries_ofMember hfirst _
        · exact .error _ _
      · rw [if_neg hmember, if_neg hmember]
        by_cases hassign : op.isAssignment
        · rw [if_pos hassign, if_pos hassign]
          unfold Resolved.isConstant
          cases hconstant : first.constant? with
          | some value => exact .error _ _
          | none =>
              rw [hfirst.constant?_eq_none hconstant]
              apply ihRight.bind
              intro second second' hsecond
              exact .ok (.binary hfirst hsecond)
        · rw [if_neg hassign, if_neg hassign]
          apply ihRight.bind
          intro second second' hsecond
          exact Resolved.carries_ofBinary hfirst hsecond op
  | unary op operand ih =>
      simp only [Narrows, Expr.resolve]
      split
      · exact .ok .constant
      · apply ih.bind
        intro inner inner' hinner
        exact Resolved.carries_ofUnary hinner op
  | suffix op operand ih =>
      simp only [Narrows, Expr.resolve]
      apply ih.bind
      intro inner inner' hinner
      exact Resolved.carries_ofSuffix hinner op
  | group children ih =>
      rcases children with _ | ⟨child, _ | ⟨next, rest⟩⟩
      · exact .error _ _
      · exact ih child (List.mem_singleton.mpr rfl)
      · exact .error _ _
  | list items ih =>
      simp only [Narrows, Expr.resolve]
      apply (Expr.carries_resolveAll ih).bind
      intro inner inner' hinner
      exact .ok (.list hinner)
  | angle components ih =>
      simp only [Narrows, Expr.resolve]
      split
      · apply (Expr.carries_resolveAll ih).bind
        intro inner inner' hinner
        exact .ok (Resolved.covers_ofComponents hinner)
      · exact .error _ _
  | call name args ih =>
      simp only [Narrows, Expr.resolve]
      apply (Expr.carries_resolveAll ih).bind
      intro inner inner' hinner
      exact .ok (.call hinner)

theorem carries_resolveTokens (h : wide.Includes narrow) (tokens : List String) :
    Carries Resolved.Covers (resolveTokens wide tokens) (resolveTokens narrow tokens) := by
  unfold resolveTokens
  apply Carries.bind_same
  intro collapsed _
  apply Carries.bind_same
  intro expr _
  exact expr.narrows h

theorem carries_resolveTokenList (h : wide.Includes narrow) (tokens : List String) :
    Carries (List.Forall₂ Resolved.Covers) (resolveTokenList wide tokens)
      (resolveTokenList narrow tokens) := by
  unfold resolveTokenList
  apply Carries.bind_same
  intro collapsed _
  apply Carries.bind_same
  intro exprs _
  exact Expr.carries_resolveAll fun expr _ => expr.narrows h

end

end LslFront
