import LslFront.Proofs.Token.Text

/-!
# Runs of signs are respelled

A list of tokens falls into runs, which are maximal groups of neighbours that repeat one sign, and
the tokens between them.  `Respelled` says group by group what the respelling of a list is, without
saying how the list is gone through; there is one such list, and it is the one that `respellRuns`
gives.

A respelled run is a run of the same sign and of the same length, and what stands beside it keeps
its sign.  So the runs of a respelled list are the respelled runs, and a second respelling finds
nothing to do.
-/

namespace LslFront

/-! ### Runs -/

/-- The token is a sign, written once or more. -/
def RepeatsSign (sign : Char) (token : String) : Prop :=
  (sign = '+' ∨ sign = '-') ∧ ∃ n, token.toList = List.replicate (n + 1) sign

theorem signOf?_eq_some_iff {token : String} {sign : Char} :
    signOf? token = some sign ↔ RepeatsSign sign token := by
  constructor
  · intro h
    have htoken := toList_of_signOf? h
    have hlength : token.length ≠ 0 := by
      intro hzero
      rw [hzero, List.replicate_zero] at htoken
      simp [signOf?, htoken] at h
    obtain ⟨n, hn⟩ := Nat.exists_eq_succ_of_ne_zero hlength
    rw [hn] at htoken
    exact ⟨signOf?_eq h, n, htoken⟩
  · rintro ⟨hsign, n, htoken⟩
    rw [List.replicate_succ] at htoken
    rcases hsign with rfl | rfl <;> simp [signOf?, htoken]

theorem signOf?_eq_none_iff {token : String} :
    signOf? token = none ↔ ∀ sign, ¬ RepeatsSign sign token := by
  simp only [Option.eq_none_iff_forall_ne_some, ne_eq, signOf?_eq_some_iff]

/-- The first of some tokens does not repeat the sign. -/
def Parts (sign : Char) (tokens : List String) : Prop :=
  ∀ token ∈ tokens.head?, ¬ RepeatsSign sign token

/-- How a run of a sign is written: three to five signs by the table, any other number as it was
    cut. -/
inductive SpelledAs (sign : Char) (group : List String) : List String → Prop where
  | three : (charsOf group).length = 3 →
      SpelledAs sign group [.ofList [sign, sign], .ofList [sign]]
  | four : (charsOf group).length = 4 →
      SpelledAs sign group [.ofList [sign, sign], .ofList [sign], .ofList [sign]]
  | five : (charsOf group).length = 5 →
      SpelledAs sign group [.ofList [sign, sign], .ofList [sign], .ofList [sign, sign]]
  | other : (charsOf group).length ∉ [3, 4, 5] → SpelledAs sign group group

/-- A list of tokens with its runs respelled. -/
inductive Respelled : List String → List String → Prop where
  | nil : Respelled [] []
  | keep {token : String} {rest result : List String} : (∀ sign, ¬ RepeatsSign sign token) →
      Respelled rest result → Respelled (token :: rest) (token :: result)
  | run {sign : Char} {group spelled rest result : List String} : group ≠ [] →
      (∀ token ∈ group, RepeatsSign sign token) → Parts sign rest →
      SpelledAs sign group spelled → Respelled rest result →
      Respelled (group ++ rest) (spelled ++ result)

/-! ### The spelling of a run -/

section

variable {sign : Char} {group spelled : List String}

theorem repeatsSign_ofList (hsign : sign = '+' ∨ sign = '-') (n : Nat) :
    RepeatsSign sign (.ofList (List.replicate (n + 1) sign)) :=
  ⟨hsign, n, by simp⟩

theorem SpelledAs.length_charsOf (h : SpelledAs sign group spelled) :
    (charsOf spelled).length = (charsOf group).length := by
  cases h with
  | three hlength => simp [hlength]
  | four hlength => simp [hlength]
  | five hlength => simp [hlength]
  | other => rfl

/-- What is written for a run is a run of the same sign. -/
theorem SpelledAs.isRun (h : SpelledAs sign group spelled) (hne : group ≠ [])
    (hgroup : ∀ token ∈ group, RepeatsSign sign token) :
    spelled ≠ [] ∧ ∀ token ∈ spelled, RepeatsSign sign token := by
  obtain ⟨first, rest, rfl⟩ := List.exists_cons_of_ne_nil hne
  have hsign := (hgroup first List.mem_cons_self).1
  have hone : RepeatsSign sign (.ofList [sign]) := repeatsSign_ofList hsign 0
  have htwo : RepeatsSign sign (.ofList [sign, sign]) := repeatsSign_ofList hsign 1
  cases h with
  | three => simp only [List.forall_mem_cons, hone, htwo]; simp
  | four => simp only [List.forall_mem_cons, hone, htwo]; simp
  | five => simp only [List.forall_mem_cons, hone, htwo]; simp
  | other => exact ⟨hne, hgroup⟩

/-- The table takes what it gives. -/
theorem SpelledAs.self (h : SpelledAs sign group spelled) : SpelledAs sign spelled spelled := by
  have hlength := h.length_charsOf
  cases h with
  | three h => exact .three (hlength.trans h)
  | four h => exact .four (hlength.trans h)
  | five h => exact .five (hlength.trans h)
  | other h => exact .other h

/-- A run has one spelling. -/
theorem SpelledAs.unique {other : List String} (h : SpelledAs sign group spelled)
    (hother : SpelledAs sign group other) : spelled = other := by
  cases h with
  | three h => cases hother <;> simp_all
  | four h => cases hother <;> simp_all
  | five h => cases hother <;> simp_all
  | other h => cases hother <;> simp_all

theorem SignRun.count_eq (run : SignRun) : run.count = (charsOf run.tokens).length := by
  obtain ⟨sign, tokens⟩ := run
  induction tokens with
  | nil => rfl
  | cons token rest ih =>
      simp only [count, List.foldr_cons, charsOf_cons, List.length_append,
        String.length_toList] at ih ⊢
      rw [ih]

theorem SignRun.spelledAs_spelling (run : SignRun) :
    SpelledAs run.sign run.tokens run.spelling := by
  have hcount := run.count_eq
  unfold spelling runReading?
  split
  · rename_i h
    exact .three (hcount ▸ h)
  · rename_i h
    exact .four (hcount ▸ h)
  · rename_i h
    exact .five (hcount ▸ h)
  · rename_i hthree hfour hfive
    refine .other ?_
    rw [← hcount]
    simp only [List.mem_cons, List.not_mem_nil, or_false, not_or]
    exact ⟨hthree, hfour, hfive⟩

end

/-! ### Respelling group by group -/

theorem RepeatsSign.unique {sign sign' : Char} {token : String} (h : RepeatsSign sign token)
    (h' : RepeatsSign sign' token) : sign = sign' := by
  rw [← signOf?_eq_some_iff] at h h'
  exact Option.some.inj (h.symm.trans h')

theorem parts_of_none {sign : Char} {token : String} {rest : List String}
    (h : signOf? token = none) : Parts sign (token :: rest) := by
  rintro _ ⟨⟩
  exact signOf?_eq_none_iff.1 h sign

theorem parts_of_ne {sign sign' : Char} {token : String} {rest : List String}
    (h : signOf? token = some sign') (hne : sign' ≠ sign) : Parts sign (token :: rest) := by
  rintro _ ⟨⟩ hsign
  exact hne ((signOf?_eq_some_iff.1 h).unique hsign)

/-- The tokens do not continue the run that `before` ends with. -/
def Apart (before after : List String) : Prop :=
  ∀ token ∈ before.getLast?, ∀ sign, RepeatsSign sign token → Parts sign after

namespace Respelled

variable {tokens result before after left right : List String} {sign : Char}

/-- The first token keeps its sign, or keeps being none. -/
theorem parts (h : Respelled tokens result) (hparts : Parts sign tokens) : Parts sign result := by
  cases h with
  | nil => exact hparts
  | keep => exact hparts
  | run hne hgroup _ hspelled _ =>
      obtain ⟨hspelledNe, hspelledGroup⟩ := hspelled.isRun hne hgroup
      obtain ⟨first, others, rfl⟩ := List.exists_cons_of_ne_nil hne
      obtain ⟨first', others', rfl⟩ := List.exists_cons_of_ne_nil hspelledNe
      rintro _ ⟨⟩ hsign
      have hfirst := hgroup first List.mem_cons_self
      rw [(hspelledGroup first' List.mem_cons_self).unique hsign] at hfirst
      exact hparts first rfl hfirst

/-- A respelled list needs no respelling. -/
theorem self (h : Respelled tokens result) : Respelled result result := by
  induction h with
  | nil => exact .nil
  | keep hnot _ ih => exact .keep hnot ih
  | run hne hgroup hparts hspelled hrest ih =>
      obtain ⟨hspelledNe, hspelledGroup⟩ := hspelled.isRun hne hgroup
      exact .run hspelledNe hspelledGroup (hrest.parts hparts) hspelled.self ih

/-- Lists are respelled one after the other, unless a run goes on from one to the other. -/
theorem append (hleft : Respelled before left) (hright : Respelled after right)
    (hapart : Apart before after) : Respelled (before ++ after) (left ++ right) := by
  induction hleft with
  | nil => exact hright
  | @keep token rest _ hnot hrest ih =>
      refine .keep hnot (ih fun last hlast => hapart last ?_)
      rw [List.getLast?_cons, Option.mem_def.mp hlast]
      rfl
  | @run runSign group _ rest _ hne hgroup hparts hspelled hrest ih =>
      rw [List.append_assoc, List.append_assoc]
      have hlast : ∀ last ∈ rest.getLast?, last ∈ (group ++ rest).getLast? := by
        intro last hlast
        rw [List.getLast?_append, Option.mem_def.mp hlast]
        rfl
      refine .run hne hgroup ?_ hspelled (ih fun last hmem => hapart last (hlast last hmem))
      cases rest with
      | nil =>
          have hmem := List.getLast_mem hne
          refine hapart (group.getLast hne) ?_ runSign (hgroup _ hmem)
          rw [List.append_nil, List.getLast?_eq_some_getLast hne]
          rfl
      | cons first others => exact hparts

end Respelled

/-! ### The respelling that is computed -/

/-- A run under way: some tokens of one sign. -/
def SignRun.IsOpen (run : SignRun) : Prop :=
  run.tokens ≠ [] ∧ ∀ token ∈ run.tokens, RepeatsSign run.sign token

theorem SignRun.isOpen_single {token : String} {sign : Char} (h : signOf? token = some sign) :
    IsOpen ⟨sign, [token]⟩ :=
  ⟨by simp, by simpa using signOf?_eq_some_iff.1 h⟩

theorem SignRun.IsOpen.push {run : SignRun} (hrun : run.IsOpen) {token : String}
    (h : signOf? token = some run.sign) : IsOpen ⟨run.sign, run.tokens ++ [token]⟩ := by
  refine ⟨by simp, List.forall_mem_append.mpr ⟨hrun.2, ?_⟩⟩
  simpa using signOf?_eq_some_iff.1 h

theorem SignRun.IsOpen.respelled {run : SignRun} (hrun : run.IsOpen) {rest result : List String}
    (hparts : Parts run.sign rest) (hrest : Respelled rest result) :
    Respelled (run.tokens ++ rest) (run.spelling ++ result) :=
  .run hrun.1 hrun.2 hparts run.spelledAs_spelling hrest

/-- With a run under way, the tokens of the run are respelled together with those to come. -/
theorem respelled_respellFrom (held : Option SignRun) (tokens : List String)
    (h : ∀ run ∈ held, run.IsOpen) :
    Respelled ((held.map SignRun.tokens).getD [] ++ tokens) (respellFrom held tokens) := by
  fun_induction respellFrom held tokens with
  | case1 => exact .nil
  | case2 run => simpa using (h run rfl).respelled (by simp [Parts]) .nil
  | case3 first rest sign hfirst ih =>
      exact ih (by rintro _ ⟨⟩; exact SignRun.isOpen_single hfirst)
  | case4 first rest hfirst ih => exact .keep (signOf?_eq_none_iff.1 hfirst) (ih (by simp))
  | case5 run first rest hfirst ih =>
      simpa using ih (by rintro _ ⟨⟩; exact (h run rfl).push hfirst)
  | case6 run first rest sign hfirst hne ih =>
      exact (h run rfl).respelled (parts_of_ne hfirst hne)
        (ih (by rintro _ ⟨⟩; exact SignRun.isOpen_single hfirst))
  | case7 run first rest hfirst ih =>
      exact (h run rfl).respelled (parts_of_none hfirst)
        (.keep (signOf?_eq_none_iff.1 hfirst) (ih (by simp)))

/-- A run under way takes up all tokens of its sign, and then it is spelled. -/
theorem respellFrom_append {run : SignRun} {more rest : List String}
    (hmore : ∀ token ∈ more, RepeatsSign run.sign token) (hrest : Parts run.sign rest) :
    respellFrom (some run) (more ++ rest)
      = SignRun.spelling ⟨run.sign, run.tokens ++ more⟩ ++ respellRuns rest := by
  induction more generalizing run with
  | nil =>
      rw [List.nil_append, List.append_nil]
      cases rest with
      | nil => simp [respellRuns, respellFrom]
      | cons first others =>
          cases hfirst : signOf? first with
          | none => simp [respellRuns, respellFrom, hfirst]
          | some sign =>
              have hne : sign ≠ run.sign := by
                rintro rfl
                exact hrest first rfl (signOf?_eq_some_iff.1 hfirst)
              simp [respellRuns, respellFrom, hfirst, hne]
  | cons first others ih =>
      obtain ⟨hfirst, hothers⟩ := List.forall_mem_cons.mp hmore
      rw [← signOf?_eq_some_iff] at hfirst
      rw [List.cons_append, respellFrom]
      have hrun := @ih ⟨run.sign, run.tokens ++ [first]⟩ hothers hrest
      simpa [hfirst] using hrun

/-- Respelling a list is what the groups of the list say. -/
theorem respellRuns_eq_iff {tokens result : List String} :
    respellRuns tokens = result ↔ Respelled tokens result := by
  constructor
  · rintro rfl
    exact respelled_respellFrom none tokens (by simp)
  · intro h
    induction h with
    | nil => rfl
    | keep hnot _ ih =>
        rw [respellRuns, respellFrom, signOf?_eq_none_iff.2 hnot]
        exact congrArg _ ih
    | @run sign group spelled rest result hne hgroup hparts hspelled _ ih =>
        obtain ⟨first, others, rfl⟩ := List.exists_cons_of_ne_nil hne
        obtain ⟨hfirst, hothers⟩ := List.forall_mem_cons.mp hgroup
        rw [respellRuns, List.cons_append, respellFrom, signOf?_eq_some_iff.2 hfirst]
        have hspelling : SignRun.spelling ⟨sign, first :: others⟩ = spelled :=
          (SignRun.spelledAs_spelling ⟨sign, first :: others⟩).unique hspelled
        have hrun := @respellFrom_append ⟨sign, [first]⟩ others rest hothers hparts
        rw [List.singleton_append, hspelling, ih] at hrun
        exact hrun

theorem respelled_respellRuns (tokens : List String) : Respelled tokens (respellRuns tokens) :=
  respellRuns_eq_iff.1 rfl

@[simp] theorem respellRuns_respellRuns (tokens : List String) :
    respellRuns (respellRuns tokens) = respellRuns tokens :=
  respellRuns_eq_iff.2 (respelled_respellRuns tokens).self

@[simp] theorem charsOf_respellRuns (tokens : List String) :
    charsOf (respellRuns tokens) = charsOf tokens := by
  rw [respellRuns, charsOf_respellFrom _ _ (by simp)]
  simp

/-- A token that is no run of signs stays between what is before it and what is after it. -/
theorem respellRuns_append_cons {token : String} (h : ∀ sign, ¬ RepeatsSign sign token)
    (before after : List String) :
    respellRuns (before ++ token :: after) = respellRuns before ++ token :: respellRuns after := by
  refine respellRuns_eq_iff.2 (.append (respelled_respellRuns before)
    (.keep h (respelled_respellRuns after)) ?_)
  rintro _ - sign - _ ⟨⟩
  exact h sign

/-- Neighbouring tokens that repeat one sign, all of them: the tokens beside them do not. -/
structure MaximalRun (sign : Char) (before group after : List String) : Prop where
  ne_nil : group ≠ []
  repeats : ∀ token ∈ group, RepeatsSign sign token
  before : ∀ token ∈ before.getLast?, ¬ RepeatsSign sign token
  after : ∀ token ∈ after.head?, ¬ RepeatsSign sign token

/-- A run is respelled by itself. -/
theorem MaximalRun.exists_respellRuns {sign : Char} {before group after : List String}
    (h : MaximalRun sign before group after) :
    ∃ spelled, SpelledAs sign group spelled ∧
      respellRuns (before ++ group ++ after)
        = respellRuns before ++ spelled ++ respellRuns after := by
  have hspelled := SignRun.spelledAs_spelling ⟨sign, group⟩
  refine ⟨_, hspelled, ?_⟩
  rw [List.append_assoc, List.append_assoc]
  refine respellRuns_eq_iff.2 (.append (respelled_respellRuns before)
    (.run h.ne_nil h.repeats h.after hspelled (respelled_respellRuns after)) ?_)
  -- The run does not go on from `before`, whose last token is of no sign or of the other.
  obtain ⟨first, others, rfl⟩ := List.exists_cons_of_ne_nil h.ne_nil
  rintro last hlast sign' hsign' _ ⟨⟩ hfirst
  rw [hfirst.unique (h.repeats first List.mem_cons_self)] at hsign'
  exact h.before last hlast hsign'

/-! ### Splitting loses nothing -/

/-- A word is cut into tokens that are not empty, that are the word when they are put together, and
    that are not cut any further.  Respelling the runs in any list of tokens keeps its characters
    and all tokens that are no signs, writes each run by the table, and has nothing to do when it
    is done again. -/
theorem splitting_lossless :
    (∀ word, charsOf (splitWord word) = word.toList ∧
      ∀ token ∈ splitWord word, token ≠ "" ∧ splitWord token = [token]) ∧
    ∀ tokens,
      charsOf (respellRuns tokens) = charsOf tokens ∧
      respellRuns (respellRuns tokens) = respellRuns tokens ∧
      (∀ before token after, tokens = before ++ token :: after →
        (∀ sign, ¬ RepeatsSign sign token) →
        respellRuns tokens = respellRuns before ++ token :: respellRuns after) ∧
      ∀ sign before group after, tokens = before ++ group ++ after →
        MaximalRun sign before group after →
        ∃ spelled, SpelledAs sign group spelled ∧
          respellRuns tokens = respellRuns before ++ spelled ++ respellRuns after := by
  refine ⟨fun word => ⟨charsOf_splitWord word, fun token hmem => ?_⟩, fun tokens => ?_⟩
  · exact ⟨ne_empty_of_mem_splitWord hmem, (IsPiece.of_mem_splitWord hmem).splitWord_eq⟩
  · refine ⟨charsOf_respellRuns tokens, respellRuns_respellRuns tokens, ?_, ?_⟩
    · rintro before token after rfl hnot
      exact respellRuns_append_cons hnot before after
    · rintro sign before group after rfl hrun
      exact hrun.exists_respellRuns

/-- Four minus signs in three tokens, after three plus signs and a name. -/
theorem splitting_lossless_signs :
    (∀ sign, ¬ RepeatsSign sign "a") ∧
      MaximalRun '-' ["+", "++", "a"] ["-", "--", "-"] [] ∧
      respellRuns ["+", "++", "a", "-", "--", "-"] = ["++", "+", "a", "--", "-", "-"] ∧
      respellRuns ["+", "++", "a", "-", "--", "-"]
        = respellRuns ["+", "++"] ++ "a" :: respellRuns ["-", "--", "-"] ∧
      ∃ spelled, SpelledAs '-' ["-", "--", "-"] spelled ∧
        respellRuns ["+", "++", "a", "-", "--", "-"]
          = respellRuns ["+", "++", "a"] ++ spelled ++ respellRuns [] := by
  have hname : ∀ sign, ¬ RepeatsSign sign "a" := signOf?_eq_none_iff.1 (by decide)
  have hrun : MaximalRun '-' ["+", "++", "a"] ["-", "--", "-"] [] := by
    refine ⟨by simp, ?_, by simpa using hname '-', by simp⟩
    simp only [← signOf?_eq_some_iff]
    decide
  obtain ⟨-, -, hkeeps, hspells⟩ := splitting_lossless.2 ["+", "++", "a", "-", "--", "-"]
  exact ⟨hname, hrun, by decide, hkeeps ["+", "++"] "a" ["-", "--", "-"] rfl hname,
    hspells '-' ["+", "++", "a"] ["-", "--", "-"] [] rfl hrun⟩

end LslFront
