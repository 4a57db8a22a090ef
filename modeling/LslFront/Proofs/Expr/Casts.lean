import LslFront.Expr.Casts
import LslFront.Proofs.Expr.Brackets
import LslFront.Proofs.Expr.Soundness

/-!
# Collapsing casts

What the cast pass leaves of some tokens: their brackets, their first token unless a cast begins
there, and their commas.
-/

namespace LslFront

/-- The name between the parentheses that the tokens begin with, where an operand is awaited. -/
def parenthesizedName? (before : Option String) : List String → Option String
  | first :: name :: close :: _ =>
      if awaitsOperand before && first == "(" && close == ")" && isIdentifier name then some name
      else none
  | _ => none

theorem collapseCasts_cons {before : Option String} {first : String} {rest : List String}
    (h : parenthesizedName? before (first :: rest) = none) :
    collapseCasts before (first :: rest)
      = (collapseCasts (some first) rest).map (first :: ·) := by
  rcases rest with _ | ⟨name, _ | ⟨close, rest⟩⟩
  · rfl
  · rfl
  · rw [collapseCasts]
    split
    · rename_i hname
      simp [parenthesizedName?, hname] at h
    · rfl

/-- What was written last counts only for whether an operand is awaited. -/
theorem collapseCasts_congr {before before' : Option String} (tokens : List String)
    (h : awaitsOperand before = awaitsOperand before') :
    collapseCasts before tokens = collapseCasts before' tokens := by
  rw [collapseCasts.eq_def, collapseCasts.eq_def before']
  simp only [h]

/-- What stands in front of the tokens after the first is the first. -/
theorem getLast?_cons_or (first : String) (front : List String) (before : Option String) :
    (first :: front).getLast?.or before = front.getLast?.or (some first) := by
  rw [List.getLast?_cons]
  cases front.getLast? <;> rfl

/-! ### What is kept -/

/-- The tokens of a script spell those of an expression, where a cast is three tokens or one. -/
inductive Spells : List String → List String → Prop where
  | nil : Spells [] []
  | kept {token rest others} : Spells rest others →
      Spells (token :: rest) (castSpelling token :: others)
  | cast {name ty rest others} : Ty.ofWord? name = some ty → Spells rest others →
      Spells ("(" :: name :: ")" :: rest) (ty.cast :: others)

theorem spells_of_collapseCasts {before : Option String} {tokens collapsed : List String}
    (h : collapseCasts before tokens = .ok collapsed) :
    Spells tokens (collapsed.map castSpelling) := by
  have keep : ∀ short : List String, Spells short (short.map castSpelling) := by
    intro short
    induction short with
    | nil => exact .nil
    | cons token rest ih => exact .kept ih
  fun_induction collapseCasts before tokens generalizing collapsed with
  | case1 before first name close rest hshape htype cast =>
      rename_i ih
      obtain ⟨others, hothers, rfl⟩ := map_eq_ok_iff.1 h
      simp only [Bool.and_eq_true, beq_iff_eq] at hshape
      obtain ⟨⟨⟨-, rfl⟩, rfl⟩, -⟩ := hshape
      obtain ⟨ty, hty⟩ := Option.isSome_iff_exists.mp htype
      have hcast : castSpelling s!"({name})" = ty.cast := by
        rcases Ty.word_of_ofWord? hty with rfl | ⟨rfl, rfl⟩
        · cases ty <;> rfl
        · rfl
      rw [List.map_cons, hcast]
      exact .cast hty (ih hothers)
  | case2 => cases h
  | case3 before first name close rest hshape htype hnext ih =>
      obtain ⟨others, hothers, rfl⟩ := map_eq_ok_iff.1 h
      exact .kept (ih hothers)
  | case4 before first name close rest hshape ih =>
      obtain ⟨others, hothers, rfl⟩ := map_eq_ok_iff.1 h
      exact .kept (ih hothers)
  | case5 before short =>
      cases h
      exact keep short

namespace Spells

variable {tokens : List String}

theorem of_append {first second : List String} (h : Spells tokens (first ++ second)) :
    ∃ front back, tokens = front ++ back ∧ Spells front first ∧ Spells back second := by
  induction first generalizing tokens with
  | nil => exact ⟨[], tokens, rfl, .nil, h⟩
  | cons spelled others ih =>
      rw [List.cons_append] at h
      cases h with
      | @kept token _ _ hrest =>
          obtain ⟨front, back, rfl, hfront, hback⟩ := ih hrest
          exact ⟨token :: front, back, rfl, .kept hfront, hback⟩
      | @cast name _ _ _ hty hrest =>
          obtain ⟨front, back, rfl, hfront, hback⟩ := ih hrest
          exact ⟨"(" :: name :: ")" :: front, back, rfl, .cast hty hfront, hback⟩

theorem of_cons {spelled : String} {others : List String}
    (h : Spells tokens (spelled :: others)) (hcast : ∀ ty : Ty, ty.cast ≠ spelled) :
    ∃ rest, tokens = spelled :: rest ∧ Spells rest others := by
  generalize heq : spelled :: others = written at h
  cases h with
  | nil => cases heq
  | kept hrest =>
      obtain ⟨hspelled, rfl⟩ := List.cons.inj heq
      rw [eq_of_castSpelling hspelled.symm (hcast .rotation).symm]
      exact ⟨_, rfl, hrest⟩
  | cast hty hrest =>
      obtain ⟨hspelled, -⟩ := List.cons.inj heq
      exact absurd hspelled.symm (hcast _)

theorem eq_nil (h : Spells tokens []) : tokens = [] := by
  cases h
  rfl

theorem written {P : List String → Prop} (nil : P [])
    (plain : ∀ token, isPlain token → P [token])
    (append : ∀ tokens more, P tokens → P more → P (tokens ++ more))
    (bracketed : ∀ opening closing inner,
      (opening, closing) ∈ [("(", ")"), ("[", "]"), ("<", ">")] → P inner →
      P (opening :: (inner ++ [closing])))
    {angle : Bool} {expr : Expr} (hgrammatical : expr.Grammatical angle)
    (h : Spells tokens expr.tokens) : P tokens := by
  have hall : ∀ tokens, Spells tokens expr.tokens → P tokens := by
    refine hgrammatical.written (P := fun spelled => ∀ tokens, Spells tokens spelled → P tokens)
      ?_ ?_ ?_ ?_
    · intro tokens h
      rw [h.eq_nil]
      exact nil
    · intro spelled hspelled tokens h
      cases h with
      | @kept token _ _ hrest =>
          rw [hrest.eq_nil]
          refine plain token ?_
          by_cases hcast : token = "(quaternion)"
          · rw [hcast]
            decide
          · rwa [castSpelling, if_neg hcast] at hspelled
      | @cast name ty _ _ hty hrest =>
          rw [hrest.eq_nil]
          refine bracketed "(" ")" [name] (by simp) (plain name ?_)
          rcases Ty.word_of_ofWord? hty with rfl | ⟨rfl, -⟩
          · cases ty <;> decide
          · decide
    · intro first second hfirst hsecond tokens h
      obtain ⟨front, back, rfl, hfront, hback⟩ := h.of_append
      exact append front back (hfirst front hfront) (hsecond back hback)
    · intro opening closing inner hpair hinner tokens h
      have hcasts : ∀ ty : Ty, ty.cast ≠ opening ∧ ty.cast ≠ closing := by
        simp only [List.mem_cons, List.not_mem_nil, or_false, Prod.mk.injEq] at hpair
        intro ty
        rcases hpair with ⟨rfl, rfl⟩ | ⟨rfl, rfl⟩ | ⟨rfl, rfl⟩
        all_goals cases ty <;> decide
      obtain ⟨rest, rfl, hrest⟩ := h.of_cons fun ty => (hcasts ty).1
      obtain ⟨front, back, rfl, hfront, hback⟩ := hrest.of_append
      obtain ⟨last, rfl, hlast⟩ := hback.of_cons fun ty => (hcasts ty).2
      rw [hlast.eq_nil]
      exact bracketed opening closing front hpair (hinner front hfront)
  exact hall tokens h

end Spells

/-! ### Commas -/

/-- No name in parentheses begins or goes on at a comma. -/
theorem parenthesizedName?_comma (before : Option String) (rest : List String) :
    parenthesizedName? before ("," :: rest) = none ∧
      ∀ first, parenthesizedName? before (first :: "," :: rest) = none ∧
        ∀ second, parenthesizedName? before (first :: second :: "," :: rest) = none := by
  have hcomma : isIdentifier "," = false := by decide
  refine ⟨?_, fun first => ⟨?_, fun second => ?_⟩⟩
  · rcases rest with _ | ⟨name, _ | ⟨close, rest⟩⟩
    · rfl
    · rfl
    · simp [parenthesizedName?]
  · cases rest with
    | nil => rfl
    | cons close rest => simp [parenthesizedName?, hcomma]
  · simp [parenthesizedName?]

/-- The pass treats what stands before a comma and what stands after it each on its own. -/
theorem collapseCasts_comma {before : Option String} {tokens collapsed : List String}
    (h : collapseCasts before tokens = .ok collapsed) (more : List String) :
    collapseCasts before (tokens ++ "," :: more)
      = (recombineCasts more).map (collapsed ++ "," :: ·) := by
  have hpush : ∀ {first : String} {others : List String},
      ((recombineCasts more).map (others ++ "," :: ·)).map (first :: ·)
        = (recombineCasts more).map (first :: others ++ "," :: ·) := by
    intro first others
    cases recombineCasts more with
    | error cause => rfl
    | ok kept => rfl
  fun_induction collapseCasts before tokens generalizing collapsed with
  | case1 before first name close rest hshape htype cast =>
      rename_i ih
      obtain ⟨others, hothers, rfl⟩ := map_eq_ok_iff.1 h
      simp only [List.cons_append]
      rw [collapseCasts, if_pos hshape, if_pos htype]
      simp only
      rw [ih hothers]
      exact hpush
  | case2 => cases h
  | case3 before first name close rest hshape htype hnext ih =>
      obtain ⟨others, hothers, rfl⟩ := map_eq_ok_iff.1 h
      have hstart : ¬(rest ++ "," :: more).head?.any startsOperand = true := by
        cases rest with
        | nil => simp [show startsOperand "," = false by decide]
        | cons next rest => exact hnext
      have hread := ih hothers
      simp only [List.cons_append] at hread ⊢
      rw [collapseCasts, if_pos hshape, if_neg htype, if_neg hstart, hread]
      exact hpush
  | case4 before first name close rest hshape ih =>
      obtain ⟨others, hothers, rfl⟩ := map_eq_ok_iff.1 h
      have hread := ih hothers
      simp only [List.cons_append] at hread ⊢
      rw [collapseCasts, if_neg hshape, hread]
      exact hpush
  | case5 before short hshort =>
      cases h
      have hcomma : ∀ before, collapseCasts before ("," :: more)
          = (recombineCasts more).map ([] ++ "," :: ·) := by
        intro before
        rw [collapseCasts_cons (parenthesizedName?_comma before more).1,
          collapseCasts_congr more (show awaitsOperand (some ",") = awaitsOperand none by decide)]
        rfl
      rcases short with _ | ⟨first, _ | ⟨second, _ | ⟨close, rest⟩⟩⟩
      · exact hcomma before
      · rw [List.singleton_append,
          collapseCasts_cons ((parenthesizedName?_comma before more).2 first).1, hcomma]
        exact hpush
      · have hsecond := collapseCasts_cons ((parenthesizedName?_comma (some first) more).2 second).1
        rw [List.cons_append, List.singleton_append,
          collapseCasts_cons (((parenthesizedName?_comma before more).2 first).2 second), hsecond,
          hcomma, hpush]
        exact hpush
      · exact (hshort _ _ _ _ rfl).elim

end LslFront
