import LslFront.Proofs.Token.Split

/-!
# Splitting loses nothing

A word is cut into tokens and its runs of signs are respelled.  Neither adds, drops or moves a
character, so the tokens of a word, one after the other, are the word.
-/

namespace LslFront

/-- The characters of some tokens, one token after the other. -/
def charsOf (tokens : List String) : List Char :=
  tokens.flatMap String.toList

@[simp] theorem charsOf_nil : charsOf [] = [] := rfl

@[simp] theorem charsOf_cons (token : String) (rest : List String) :
    charsOf (token :: rest) = token.toList ++ charsOf rest := by
  simp [charsOf]

@[simp] theorem charsOf_append (tokens more : List String) :
    charsOf (tokens ++ more) = charsOf tokens ++ charsOf more := by
  simp [charsOf]

/-! ### Cutting -/

@[simp] theorem Gathered.charsOf_tokens (held : Gathered) :
    charsOf held.tokens = held.text.toList := by
  cases held with
  | word text =>
      simp only [Gathered.tokens]
      split
      · rename_i hempty
        simp [Gathered.text, String.isEmpty_iff.mp hempty]
      · simp [Gathered.text]
  | operator text => simp [Gathered.tokens, Gathered.text]

theorem Gathered.text_start (c : Char) (ahead : Option Char) :
    (start c ahead).text = String.singleton c := by
  unfold start
  split <;> rfl

theorem Gathered.charsOf_step (held : Gathered) (c : Char) (ahead : Option Char) :
    charsOf (held.step c ahead).1 ++ (held.step c ahead).2.text.toList
      = held.text.toList ++ [c] := by
  cases held with
  | word text =>
      simp only [step]
      split
      · simp [Gathered.text]
      · rw [charsOf_tokens]
        simp [Gathered.text]
  | operator text =>
      simp only [step]
      split
      · simp [Gathered.text]
      · rw [text_start]
        simp [Gathered.text]

theorem Gathered.charsOf_cut (source : List Char) :
    ∀ held : Gathered, charsOf (held.cut source) = held.text.toList ++ source := by
  induction source with
  | nil => simp [cut]
  | cons c rest ih =>
      intro held
      rw [cut]
      simp only [charsOf_append, ih]
      rw [← List.append_assoc, charsOf_step]
      simp

/-! ### Respelling -/

theorem toList_of_signOf? {token : String} {sign : Char} (h : signOf? token = some sign) :
    token.toList = List.replicate token.length sign := by
  unfold signOf? at h
  split at h
  · cases h
  · rename_i c rest htoken
    split at h
    · rename_i hsign
      cases h
      rw [Bool.and_eq_true, List.all_eq_true] at hsign
      rw [← String.length_toList, htoken, List.eq_replicate_length]
      intro d hd
      rcases List.mem_cons.mp hd with rfl | hd
      · rfl
      · exact beq_iff_eq.mp (hsign.2 d hd)
    · cases h

theorem charsOf_runReading? {sign : Char} {count : Nat} {reading : List String}
    (h : runReading? sign count = some reading) : charsOf reading = List.replicate count sign := by
  unfold runReading? at h
  split at h
  all_goals cases h
  all_goals simp [List.replicate]

namespace SignRun

/-- Each token of the run repeats its sign. -/
def Uniform (run : SignRun) : Prop :=
  ∀ token ∈ run.tokens, signOf? token = some run.sign

theorem uniform_single {token : String} {sign : Char} (h : signOf? token = some sign) :
    Uniform ⟨sign, [token]⟩ := by
  intro found hmem
  rwa [List.mem_singleton.mp hmem]

theorem Uniform.push {run : SignRun} (hrun : run.Uniform) {token : String}
    (h : signOf? token = some run.sign) : Uniform ⟨run.sign, run.tokens ++ [token]⟩ := by
  intro found hmem
  rcases List.mem_append.mp hmem with hmem | hmem
  · exact hrun found hmem
  · rwa [List.mem_singleton.mp hmem]

theorem Uniform.charsOf_tokens {run : SignRun} (h : run.Uniform) :
    charsOf run.tokens = List.replicate run.count run.sign := by
  obtain ⟨sign, tokens⟩ := run
  induction tokens with
  | nil => rfl
  | cons token rest ih =>
      have hrest := ih fun found hmem => h found (List.mem_cons_of_mem _ hmem)
      have hfirst := toList_of_signOf? (h token List.mem_cons_self)
      simp only [charsOf_cons] at hrest ⊢
      rw [hrest, hfirst, List.replicate_append_replicate]
      rfl

theorem Uniform.charsOf_spelling {run : SignRun} (h : run.Uniform) :
    charsOf run.spelling = charsOf run.tokens := by
  unfold spelling
  cases hreading : runReading? run.sign run.count with
  | none => rfl
  | some reading => rw [Option.getD_some, charsOf_runReading? hreading, h.charsOf_tokens]

end SignRun

theorem charsOf_respellFrom (held : Option SignRun) (tokens : List String)
    (h : ∀ run ∈ held, run.Uniform) :
    charsOf (respellFrom held tokens)
      = charsOf ((held.map SignRun.tokens).getD []) ++ charsOf tokens := by
  fun_induction respellFrom held tokens with
  | case1 => rfl
  | case2 run => simp [(h run rfl).charsOf_spelling]
  | case3 first rest sign hfirst ih =>
      rw [ih (by rintro run ⟨⟩; exact SignRun.uniform_single hfirst)]
      simp
  | case4 first rest hfirst ih => simp [ih (by simp)]
  | case5 run first rest hfirst ih =>
      rw [ih (by rintro new ⟨⟩; exact (h run rfl).push hfirst)]
      simp
  | case6 run first rest sign hfirst hne ih =>
      rw [charsOf_append, (h run rfl).charsOf_spelling,
        ih (by rintro new ⟨⟩; exact SignRun.uniform_single hfirst)]
      simp
  | case7 run first rest hfirst ih =>
      rw [charsOf_append, (h run rfl).charsOf_spelling, charsOf_cons, ih (by simp)]
      simp

/-! ### Words -/

/-- The tokens of a word, one after the other, are the word. -/
@[simp] theorem charsOf_splitWord (word : String) : charsOf (splitWord word) = word.toList := by
  rw [splitWord, respellRuns, charsOf_respellFrom _ _ (by simp), Gathered.charsOf_cut]
  simp [Gathered.text]

theorem ne_empty_of_mem_splitWord {word token : String} (h : token ∈ splitWord word) :
    token ≠ "" :=
  (IsPiece.of_mem_splitWord h).ne_empty

end LslFront
