import LslFront.Dialect.Directives
import LslFront.Proofs.Script.Symbols

/-!
# Wider and narrower dialects

A dialect that includes another shows all built-in names of the other, with the same meaning, for no
name stands for constants of two features.  So it leaves fewer names to the script.
-/

namespace LslFront

namespace Dialect

/-- All features of the other dialect are in force. -/
def Includes (dialect other : Dialect) : Prop :=
  ∀ feature, other.has feature → dialect.has feature

theorem includes_union_left (a b : Dialect) : (a.union b).Includes a := by
  intro feature h
  rw [has_union, h, Bool.true_or]

theorem includes_union_right (a b : Dialect) : (a.union b).Includes b := by
  intro feature h
  rw [has_union, h, Bool.or_true]

theorem Includes.trans {a b c : Dialect} (hab : a.Includes b) (hbc : b.Includes c) :
    a.Includes c :=
  fun feature h => hab feature (hbc feature h)

theorem Includes.union {a b : Dialect} (h : a.Includes b) (c : Dialect) :
    (a.union c).Includes (b.union c) := by
  intro feature hfeature
  rw [has_union, Bool.or_eq_true] at hfeature ⊢
  exact hfeature.imp_left (h feature)

end Dialect

/-- What a script sees grows with the baseline. -/
theorem Directives.accepted_includes {wide narrow : Dialect} (h : wide.Includes narrow)
    (directives : Directives) :
    (directives.accepted wide).Includes (directives.accepted narrow) := by
  unfold accepted
  apply Dialect.Includes.union
  cases directives.mode with
  | none => exact h
  | some mode => exact fun _ hfeature => hfeature

/-! ### Built-in names -/

section

variable {wide narrow : Dialect} {name : String}

namespace Builtin

/-- A name as a number.  Numbers are compared faster than texts when it is checked that names
    differ. -/
def nameCode (name : String) : Nat :=
  name.toByteArray.data.toList.foldl (fun code byte => code * 256 + byte.toNat) 0

/-- No name stands for two constants. -/
theorem constants_distinct : (constants.map NamedConstant.name).Nodup := by
  have hcodes : ((constants.map NamedConstant.name).map nameCode).Nodup := by decide +kernel
  exact hcodes.of_map nameCode

theorem constant?_eq_some_iff {dialect : Dialect} {found : NamedConstant} :
    constant? name dialect = some found ↔
      found ∈ constants ∧ found.name = name ∧ dialect.has found.feature := by
  constructor
  · intro h
    have hshown := List.find?_some h
    rw [Bool.and_eq_true, beq_iff_eq] at hshown
    exact ⟨List.mem_of_find?_eq_some h, hshown⟩
  · rintro ⟨hmem, hname, hfeature⟩
    cases h : constant? name dialect with
    | none =>
        have hhidden := List.find?_eq_none.mp h found hmem
        simp [hname, hfeature] at hhidden
    | some other =>
        have hshown := List.find?_some h
        rw [Bool.and_eq_true, beq_iff_eq] at hshown
        have hother : other ∈ constants := List.mem_of_find?_eq_some h
        rw [List.inj_on_of_nodup_map constants_distinct hother hmem (hshown.1.trans hname.symm)]

/-- A constant keeps its meaning in a wider dialect. -/
theorem constant?_of_includes (h : wide.Includes narrow) {found : NamedConstant}
    (hfound : constant? name narrow = some found) : constant? name wide = some found := by
  obtain ⟨hmem, hname, hfeature⟩ := constant?_eq_some_iff.1 hfound
  exact constant?_eq_some_iff.2 ⟨hmem, hname, h _ hfeature⟩

theorem constant?_eq_none_of_includes (h : wide.Includes narrow)
    (hnone : constant? name wide = none) : constant? name narrow = none := by
  cases hfound : constant? name narrow with
  | none => rfl
  | some found =>
      rw [constant?_of_includes h hfound] at hnone
      cases hnone

theorem function?_eq_none_of_includes (h : wide.Includes narrow)
    (hnone : function? name wide = none) : function? name narrow = none := by
  simp only [function?, Option.map_eq_none_iff, List.find?_eq_none] at hnone ⊢
  intro function hmem hshown
  obtain ⟨known, feature⟩ := function
  simp only [Bool.and_eq_true] at hshown
  exact hnone (known, feature) hmem (by simp [hshown.1, h _ hshown.2])

end Builtin

/-- A name that a dialect leaves to the script is left to it by every narrower one. -/
theorem Dialect.Usable.of_includes (h : wide.Includes narrow) (husable : wide.Usable name) :
    narrow.Usable name where
  identifier := husable.identifier
  notReserved := husable.notReserved
  notFunction := Builtin.function?_eq_none_of_includes h husable.notFunction
  notConstant := Builtin.constant?_eq_none_of_includes h husable.notConstant

end

end LslFront
