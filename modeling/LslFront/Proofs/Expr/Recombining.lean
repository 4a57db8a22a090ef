import LslFront.Proofs.Expr.Casts

/-!
# The cast pass rewrites casts only

A token of the result is a token of the source or a cast, and a cast can be written out again.  So
nothing but casts is rewritten.  The pass also finishes its work: where it has kept a token it would
keep it again, because a cast that has been collapsed neither begins nor ends an operand, just as
its parentheses did not where an operand was awaited.

The pass looks back at what it has written and ahead at what it has not read.  `KeepsFirst` says
when the first of some tokens is kept, and this is the one place where both are looked at.
-/

namespace LslFront

/-! ### Cast tokens -/

/-- The token that a cast written with this word is collapsed to. -/
def castToken (word : String) : String :=
  s!"({word})"

/-- A cast is written out as a parenthesis, its word and a parenthesis; any other token stands for
    itself. -/
def expandCast (token : String) : List String :=
  if (Ty.ofCast? token).isSome then ["(", String.ofList (token.toList.drop 1).dropLast, ")"]
  else [token]

section

variable {word token : String}

/-- What is decided for each of the eight words of types holds of every type word. -/
theorem Ty.forall_ofWord? {P : String → Prop} (hword : ∀ ty : Ty, P ty.word) (hother : P "quaternion")
    (h : (ofWord? word).isSome) : P word := by
  obtain ⟨ty, hty⟩ := Option.isSome_iff_exists.mp h
  rcases word_of_ofWord? hty with rfl | ⟨rfl, -⟩
  · exact hword ty
  · exact hother

theorem isIdentifier_of_isSome (h : (Ty.ofWord? word).isSome) : isIdentifier word := by
  obtain ⟨ty, hty⟩ := Option.isSome_iff_exists.mp h
  exact Ty.isIdentifier_of_ofWord? hty

theorem not_startsOperand_castToken (h : (Ty.ofWord? word).isSome) :
    startsOperand (castToken word) = false := by
  refine Ty.forall_ofWord? (P := fun word => startsOperand (castToken word) = false) (fun ty => ?_)
    (by decide) h
  cases ty <;> decide

theorem not_endsOperand_castToken (h : (Ty.ofWord? word).isSome) :
    endsOperand (castToken word) = false := by
  refine Ty.forall_ofWord? (P := fun word => endsOperand (castToken word) = false) (fun ty => ?_)
    (by decide) h
  cases ty <;> decide

theorem expandCast_castToken (h : (Ty.ofWord? word).isSome) :
    expandCast (castToken word) = ["(", word, ")"] := by
  refine Ty.forall_ofWord? (P := fun word => expandCast (castToken word) = ["(", word, ")"])
    (fun ty => ?_) (by decide) h
  cases ty <;> decide

theorem expandCast_of_none (h : Ty.ofCast? token = none) : expandCast token = [token] := by
  rw [expandCast, h]
  rfl

end

/-! ### One token -/

/-- The first token is kept: no name in parentheses begins with it where an operand is awaited, or
    the name is no type and no operand follows. -/
def KeepsFirst (before : Option String) (tokens : List String) : Prop :=
  ∀ name rest, tokens = "(" :: name :: ")" :: rest → awaitsOperand before → isIdentifier name →
    Ty.ofWord? name = none ∧ ¬ rest.head?.any startsOperand

section

variable {before : Option String} {first name word next : String} {rest tokens more : List String}

theorem keepsFirst_of_ne (h : first ≠ "(") : KeepsFirst before (first :: rest) := by
  intro name after heq
  exact absurd (List.cons.inj heq).1 h

theorem KeepsFirst.of_append (h : KeepsFirst before (tokens ++ more)) :
    KeepsFirst before tokens := by
  rintro name after rfl hawaits hname
  obtain ⟨hnone, hnext⟩ := h name (after ++ more) rfl hawaits hname
  refine ⟨hnone, fun hstarts => hnext ?_⟩
  cases after with
  | nil => cases hstarts
  | cons next after => exact hstarts

theorem collapseCasts_of_keepsFirst (h : KeepsFirst before (first :: rest)) :
    collapseCasts before (first :: rest)
      = (collapseCasts (some first) rest).map (first :: ·) := by
  rcases rest with _ | ⟨name, _ | ⟨close, rest⟩⟩
  · rfl
  · rfl
  · rw [collapseCasts]
    split
    · rename_i hshape
      simp only [Bool.and_eq_true, beq_iff_eq] at hshape
      obtain ⟨⟨⟨hawaits, rfl⟩, rfl⟩, hname⟩ := hshape
      obtain ⟨hnone, hnext⟩ := h name rest rfl hawaits hname
      rw [if_neg (by simp [hnone]), if_neg hnext]
    · rfl

theorem collapseCasts_cast (hawaits : awaitsOperand before) (hword : (Ty.ofWord? word).isSome) :
    collapseCasts before ("(" :: word :: ")" :: rest)
      = (collapseCasts (some (castToken word)) rest).map (castToken word :: ·) := by
  rw [collapseCasts, if_pos (by simp [hawaits, isIdentifier_of_isSome hword]), if_pos hword]
  rfl

theorem collapseCasts_refused (hawaits : awaitsOperand before) (hname : isIdentifier name)
    (hnone : Ty.ofWord? name = none) (hnext : startsOperand next) :
    collapseCasts before ("(" :: name :: ")" :: next :: rest) = .error (.notAType name) := by
  rw [collapseCasts, if_pos (by simp [hawaits, hname]), if_neg (by simp [hnone]),
    if_pos (by simpa using hnext)]

end

/-- What holds of all tokens by what the pass does with the first of them: it keeps it, collapses
    the cast that begins with it, or refuses the name in parentheses. -/
@[elab_as_elim]
theorem collapseCasts_induction {P : Option String → List String → Prop}
    (nil : ∀ before, P before [])
    (kept : ∀ before first rest, KeepsFirst before (first :: rest) → P (some first) rest →
      P before (first :: rest))
    (cast : ∀ before word rest, awaitsOperand before → (Ty.ofWord? word).isSome →
      P (some (castToken word)) rest → P before ("(" :: word :: ")" :: rest))
    (refused : ∀ before name next rest, awaitsOperand before → isIdentifier name →
      Ty.ofWord? name = none → startsOperand next → P before ("(" :: name :: ")" :: next :: rest))
    (before : Option String) (tokens : List String) : P before tokens := by
  fun_induction collapseCasts before tokens with
  | case1 before first word close rest hshape hword _ ih =>
      simp only [Bool.and_eq_true, beq_iff_eq] at hshape
      obtain ⟨⟨⟨hawaits, rfl⟩, rfl⟩, -⟩ := hshape
      exact cast before word rest hawaits hword ih
  | case2 before first name close rest hshape htype hnext =>
      simp only [Bool.and_eq_true, beq_iff_eq] at hshape
      obtain ⟨⟨⟨hawaits, rfl⟩, rfl⟩, hname⟩ := hshape
      obtain ⟨next, hhead, hstarts⟩ := (Option.any_eq_true _ _).mp hnext
      obtain ⟨after, rfl⟩ := List.head?_eq_some_iff.mp hhead
      exact refused before name next after hawaits hname (by simpa using htype) hstarts
  | case3 before first name close rest hshape htype hnext ih =>
      refine kept before first _ ?_ ih
      rintro found after heq - -
      obtain ⟨-, rfl, -, rfl⟩ : first = "(" ∧ name = found ∧ close = ")" ∧ rest = after := by
        simpa using heq
      exact ⟨by simpa using htype, hnext⟩
  | case4 before first name close rest hshape ih =>
      refine kept before first _ ?_ ih
      rintro found after heq hawaits hfound
      obtain ⟨rfl, rfl, rfl, rfl⟩ : first = "(" ∧ name = found ∧ close = ")" ∧ rest = after := by
        simpa using heq
      exact absurd (by simp [hawaits, hfound]) hshape
  | case5 before short hshort =>
      have hkept : ∀ before first rest, rest.length < 2 → KeepsFirst before (first :: rest) := by
        rintro before first rest hlength name after heq
        simp [(List.cons.inj heq).2] at hlength
      rcases short with _ | ⟨first, _ | ⟨second, _ | ⟨third, rest⟩⟩⟩
      · exact nil before
      · exact kept before first _ (hkept _ _ _ (by simp)) (nil _)
      · refine kept before first _ (hkept _ _ _ (by simp)) ?_
        exact kept _ second _ (hkept _ _ _ (by simp)) (nil _)
      · exact (hshort _ _ _ _ rfl).elim

section

variable {before : Option String} {tokens output : List String}

/-! ### Writing casts out -/

theorem expandCast_of_collapseCasts (h : collapseCasts before tokens = .ok output)
    (hplain : ∀ token ∈ tokens, Ty.ofCast? token = none) : output.flatMap expandCast = tokens := by
  induction before, tokens using collapseCasts_induction generalizing output with
  | nil before =>
      cases h
      rfl
  | kept before first rest hkept ih =>
      rw [collapseCasts_of_keepsFirst hkept] at h
      obtain ⟨others, hothers, rfl⟩ := map_eq_ok_iff.1 h
      obtain ⟨hfirst, hrest⟩ := List.forall_mem_cons.mp hplain
      rw [List.flatMap_cons, expandCast_of_none hfirst, ih hothers hrest]
      rfl
  | cast before word rest hawaits hword ih =>
      rw [collapseCasts_cast hawaits hword] at h
      obtain ⟨others, hothers, rfl⟩ := map_eq_ok_iff.1 h
      have hrest : ∀ token ∈ rest, Ty.ofCast? token = none :=
        fun token hmem => hplain token (by simp [hmem])
      rw [List.flatMap_cons, expandCast_castToken hword, ih hothers hrest]
      rfl
  | refused before name next rest hawaits hname hnone hnext =>
      rw [collapseCasts_refused hawaits hname hnone hnext] at h
      cases h

/-! ### A second run -/

/-- The pass keeps every token. -/
inductive Settled : Option String → List String → Prop where
  | nil {last : Option String} : Settled last []
  | cons {last : Option String} {first : String} {rest : List String} :
      KeepsFirst last (first :: rest) → Settled (some first) rest → Settled last (first :: rest)

theorem Settled.collapseCasts_eq (h : Settled before tokens) :
    collapseCasts before tokens = .ok tokens := by
  induction h with
  | nil => rfl
  | cons hkept _ ih =>
      rw [collapseCasts_of_keepsFirst hkept, ih]
      rfl

/-- No cast is left where an operand is awaited. -/
theorem Settled.not_awaitsOperand {front rest : List String} {word : String}
    (h : Settled before (front ++ "(" :: word :: ")" :: rest)) (hword : (Ty.ofWord? word).isSome) :
    ¬ awaitsOperand (front.getLast?.or before) := by
  induction front generalizing before with
  | nil =>
      rw [List.nil_append] at h
      cases h with
      | cons hkept _ =>
          intro hawaits
          have hnone := (hkept word rest rfl hawaits (isIdentifier_of_isSome hword)).1
          rw [hnone] at hword
          cases hword
  | cons first front ih =>
      rw [List.cons_append] at h
      cases h with
      | cons _ hrest =>
          rw [getLast?_cons_or]
          exact ih hrest

/-- A token of the result that is no cast was the first of the tokens. -/
theorem exists_of_collapseCasts_cons {token : String} {others : List String}
    (h : collapseCasts before tokens = .ok (token :: others))
    (hplain : startsOperand token ∨ endsOperand token) :
    ∃ rest, tokens = token :: rest ∧ collapseCasts (some token) rest = .ok others := by
  induction before, tokens using collapseCasts_induction with
  | nil => cases h
  | kept before first rest hkept _ =>
      rw [collapseCasts_of_keepsFirst hkept] at h
      obtain ⟨_, hothers, heq⟩ := map_eq_ok_iff.1 h
      obtain ⟨rfl, rfl⟩ := List.cons.inj heq
      exact ⟨rest, rfl, hothers⟩
  | cast before word rest hawaits hword _ =>
      rw [collapseCasts_cast hawaits hword] at h
      obtain ⟨_, -, heq⟩ := map_eq_ok_iff.1 h
      obtain ⟨rfl, -⟩ := List.cons.inj heq
      rw [not_startsOperand_castToken hword, not_endsOperand_castToken hword] at hplain
      simp at hplain
  | refused before name next rest hawaits hname hnone hnext =>
      rw [collapseCasts_refused hawaits hname hnone hnext] at h
      cases h

/-- What is kept would be kept again.  A name in parentheses is one of the result only if it is one of
    the tokens, and an operand that follows it in the result follows it there. -/
theorem KeepsFirst.collapsed {first : String} {rest others : List String}
    (h : KeepsFirst before (first :: rest)) (hrest : collapseCasts (some first) rest = .ok others) :
    KeepsFirst before (first :: others) := by
  intro name after heq hawaits hname
  obtain ⟨rfl, rfl⟩ := List.cons.inj heq
  have hends : endsOperand name := by simp [endsOperand, hname]
  obtain ⟨rest, rfl, hclose⟩ := exists_of_collapseCasts_cons hrest (.inr hends)
  obtain ⟨rest, rfl, hafter⟩ := exists_of_collapseCasts_cons hclose (.inr (by decide))
  obtain ⟨hnone, hnext⟩ := h name rest rfl hawaits hname
  refine ⟨hnone, fun hstarts => hnext ?_⟩
  obtain ⟨next, hhead, hoperand⟩ := (Option.any_eq_true _ _).mp hstarts
  obtain ⟨others, rfl⟩ := List.head?_eq_some_iff.mp hhead
  obtain ⟨rest, rfl, -⟩ := exists_of_collapseCasts_cons hafter (.inl hoperand)
  simpa using hoperand

theorem settled_of_collapseCasts (h : collapseCasts before tokens = .ok output) :
    Settled before output := by
  induction before, tokens using collapseCasts_induction generalizing output with
  | nil before =>
      cases h
      exact .nil
  | kept before first rest hkept ih =>
      rw [collapseCasts_of_keepsFirst hkept] at h
      obtain ⟨others, hothers, rfl⟩ := map_eq_ok_iff.1 h
      exact .cons (hkept.collapsed hothers) (ih hothers)
  | cast before word rest hawaits hword ih =>
      rw [collapseCasts_cast hawaits hword] at h
      obtain ⟨others, hothers, rfl⟩ := map_eq_ok_iff.1 h
      refine .cons (keepsFirst_of_ne ?_) (ih hothers)
      intro heq
      have hplain := not_startsOperand_castToken hword
      rw [heq] at hplain
      exact absurd hplain (by decide)
  | refused before name next rest hawaits hname hnone hnext =>
      rw [collapseCasts_refused hawaits hname hnone hnext] at h
      cases h

/-! ### Names that are refused -/

/-- A name in parentheses that is no type stands where an operand is awaited, by what the pass makes
    of the tokens in front of it, and an operand follows. -/
structure RefusesAt (before : Option String) (front : List String) (name next : String) : Prop where
  identifier : isIdentifier name
  notType : Ty.ofWord? name = none
  followed : startsOperand next
  awaited : ∃ output, collapseCasts before front = .ok output ∧
    awaitsOperand (output.getLast?.or before)

/-- The tokens hold such a name. -/
def Refuses (before : Option String) (tokens : List String) (name : String) : Prop :=
  ∃ front next rest, tokens = front ++ "(" :: name :: ")" :: next :: rest ∧
    RefusesAt before front name next

section

variable {front rest : List String} {name next token : String}

/-- If the tokens in front begin with some of which the pass makes one, the others count. -/
theorem refusesAt_append_iff (taken : List String)
    (hstep : collapseCasts before (taken ++ front)
      = (collapseCasts (some token) front).map (token :: ·)) :
    RefusesAt before (taken ++ front) name next ↔ RefusesAt (some token) front name next := by
  constructor
  · rintro ⟨hname, hnone, hnext, output, houtput, hawaits⟩
    rw [hstep] at houtput
    obtain ⟨others, hothers, rfl⟩ := map_eq_ok_iff.1 houtput
    rw [getLast?_cons_or] at hawaits
    exact ⟨hname, hnone, hnext, others, hothers, hawaits⟩
  · rintro ⟨hname, hnone, hnext, others, hothers, hawaits⟩
    refine ⟨hname, hnone, hnext, token :: others, by rw [hstep, hothers]; rfl, ?_⟩
    rwa [getLast?_cons_or]

/-- The pass never fails but at such a name. -/
theorem refuses_of_collapseCasts {tokens : List String} {cause : ResolutionCause}
    (h : collapseCasts before tokens = .error cause) :
    ∃ name, cause = .notAType name ∧ Refuses before tokens name := by
  induction before, tokens using collapseCasts_induction with
  | nil => cases h
  | kept before first rest hkept ih =>
      rw [collapseCasts_of_keepsFirst hkept, map_eq_error_iff] at h
      obtain ⟨name, rfl, front, next, rest, rfl, hrefuses⟩ := ih h
      -- What is kept before the longer tokens is kept before those in front of the name as well.
      have hfront : KeepsFirst before (first :: front) := KeepsFirst.of_append hkept
      have hstep := collapseCasts_of_keepsFirst hfront
      exact ⟨name, rfl, first :: front, next, rest, rfl,
        (refusesAt_append_iff [first] hstep).mpr hrefuses⟩
  | cast before word rest hawaits hword ih =>
      rw [collapseCasts_cast hawaits hword, map_eq_error_iff] at h
      obtain ⟨name, rfl, front, next, rest, rfl, hrefuses⟩ := ih h
      have hstep := @collapseCasts_cast before word front hawaits hword
      exact ⟨name, rfl, "(" :: word :: ")" :: front, next, rest, rfl,
        (refusesAt_append_iff ["(", word, ")"] hstep).mpr hrefuses⟩
  | refused before name next rest hawaits hname hnone hnext =>
      rw [collapseCasts_refused hawaits hname hnone hnext] at h
      cases h
      exact ⟨name, rfl, [], next, rest, rfl, hname, hnone, hnext, [], rfl, hawaits⟩

/-- A token that is kept before some tokens, but not before more of them, begins a name in
    parentheses that is refused: the parenthesis that follows is where no operand followed before. -/
theorem collapseCasts_of_not_keepsFirst {first : String} (h : KeepsFirst before (first :: front))
    (hlong : ¬ KeepsFirst before (first :: (front ++ "(" :: rest))) :
    ∃ other, collapseCasts before (first :: (front ++ "(" :: rest)) = .error (.notAType other) := by
  simp only [KeepsFirst, not_forall] at hlong
  obtain ⟨name, after, heq, hawaits, hname, hrefused⟩ := hlong
  obtain ⟨rfl, hafter⟩ := List.cons.inj heq
  have hopening : name ≠ "(" := by
    rintro rfl
    exact absurd hname (by decide)
  rcases front with _ | ⟨found, _ | ⟨close, front⟩⟩
  · exact absurd (List.cons.inj hafter).1.symm hopening
  · simp at hafter
  · obtain ⟨rfl, rfl, rfl⟩ : found = name ∧ close = ")" ∧ front ++ "(" :: rest = after := by
      simpa using hafter
    have hnone := (h found front rfl hawaits hname).1
    have hstarts : (front ++ "(" :: rest).head?.any startsOperand := by
      by_contra hnot
      exact hrefused ⟨hnone, hnot⟩
    obtain ⟨operand, hhead, hoperand⟩ := (Option.any_eq_true _ _).mp hstarts
    obtain ⟨others, hothers⟩ := List.head?_eq_some_iff.mp hhead
    refine ⟨found, ?_⟩
    simp only [List.cons_append, hothers]
    exact collapseCasts_refused hawaits hname hnone hoperand

/-- At such a name the pass fails, unless it has failed before. -/
theorem RefusesAt.collapseCasts_eq (h : RefusesAt before front name next) (rest : List String) :
    ∃ other, collapseCasts before (front ++ "(" :: name :: ")" :: next :: rest)
      = .error (.notAType other) := by
  induction before, front using collapseCasts_induction with
  | nil before =>
      obtain ⟨hname, hnone, hnext, output, houtput, hawaits⟩ := h
      cases houtput
      exact ⟨name, collapseCasts_refused hawaits hname hnone hnext⟩
  | kept before first front hkept ih =>
      by_cases hlong : KeepsFirst before (first :: (front ++ "(" :: name :: ")" :: next :: rest))
      · have hstep := collapseCasts_of_keepsFirst hkept
        obtain ⟨other, hother⟩ := ih ((refusesAt_append_iff [first] hstep).mp h)
        refine ⟨other, ?_⟩
        rw [List.cons_append, collapseCasts_of_keepsFirst hlong, hother]
        rfl
      · exact collapseCasts_of_not_keepsFirst hkept hlong
  | cast before word front hawaits hword ih =>
      have hstep := @collapseCasts_cast before word front hawaits hword
      obtain ⟨other, hother⟩ := ih ((refusesAt_append_iff ["(", word, ")"] hstep).mp h)
      refine ⟨other, ?_⟩
      simp only [List.cons_append]
      rw [collapseCasts_cast hawaits hword, hother]
      rfl
  | refused before other after front hawaits hother hnone hafter =>
      obtain ⟨-, -, -, output, houtput, -⟩ := h
      rw [collapseCasts_refused hawaits hother hnone hafter] at houtput
      cases houtput

end

end

/-! ### Whole token lists -/

/-- Writing out the casts of the result gives the tokens, no cast is left where an operand is awaited,
    and a second run changes nothing.  The pass fails only where an operand follows on a name in
    parentheses that is no type, and there it always fails. -/
theorem recombineCasts_rewrites_casts (tokens : List String) :
    (∀ output, recombineCasts tokens = .ok output →
      ((∀ token ∈ tokens, Ty.ofCast? token = none) → output.flatMap expandCast = tokens) ∧
      (∀ front word rest, output = front ++ "(" :: word :: ")" :: rest → (Ty.ofWord? word).isSome →
        front.getLast?.any endsOperand) ∧
      recombineCasts output = .ok output) ∧
    (∀ cause, recombineCasts tokens = .error cause →
      ∃ name, cause = .notAType name ∧ Refuses none tokens name) ∧
    ∀ name, Refuses none tokens name →
      ∃ other, recombineCasts tokens = .error (.notAType other) := by
  refine ⟨fun output houtput => ?_, fun cause => refuses_of_collapseCasts, ?_⟩
  · have hsettled : Settled none output := settled_of_collapseCasts houtput
    refine ⟨expandCast_of_collapseCasts houtput, ?_, hsettled.collapseCasts_eq⟩
    rintro front word rest rfl hword
    have hawaits := hsettled.not_awaitsOperand hword
    simpa [awaitsOperand] using hawaits
  · rintro name ⟨front, next, rest, rfl, hrefuses⟩
    exact hrefuses.collapseCasts_eq rest

/-- After a cast an operand is awaited and another cast can follow; after a name the parentheses are
    those of a call, whatever stands in them. -/
theorem recombineCasts_rewrites_casts_chained :
    let tokens := ["(", "quaternion", ")", "(", "string", ")", "f", "(", "list", ")", "+", "(", "v",
      ")"]
    let output := ["(quaternion)", "(string)", "f", "(", "list", ")", "+", "(", "v", ")"]
    (∀ token ∈ tokens, Ty.ofCast? token = none) ∧ recombineCasts tokens = .ok output ∧
      output.flatMap expandCast = tokens ∧ recombineCasts output = .ok output := by
  intro tokens output
  have hplain : ∀ token ∈ tokens, Ty.ofCast? token = none := by decide
  have houtput : recombineCasts tokens = .ok output := by decide
  have hlaw := (recombineCasts_rewrites_casts tokens).1 output houtput
  exact ⟨hplain, houtput, hlaw.1 hplain, hlaw.2.2⟩

end LslFront
