import LslFront.Token.Split
import Mathlib

/-!
# Splitting is stable

A token that a word is split into is split into itself.  What stands after a token can matter only
for its last character, and a character that joins the token because of the next one is never its
last.
-/

namespace LslFront

/-! ### Texts that stay together -/

/-- Each character of the text joins what stands before it, when `ahead` follows the text. -/
def Joined (text : List Char) (ahead : Option Char) : Prop :=
  ∀ before c after, text = before ++ c :: after →
    continuesWord (String.ofList before) c (after.head?.or ahead)

theorem continuesWord_of_isWordChar {word : String} {c : Char} {ahead : Option Char}
    (h : isWordChar c) : continuesWord word c ahead := by
  simp [continuesWord, h]

theorem joined_of_isWordChar {text : List Char} {ahead : Option Char}
    (h : ∀ c ∈ text, isWordChar c) : Joined text ahead := by
  rintro before c after rfl
  exact continuesWord_of_isWordChar (h c (by simp))

theorem isWordChar_of_isDigit {c : Char} (h : c.isDigit) : isWordChar c := by
  simp [isWordChar, Char.isAlphanum, h]

theorem isWordChar_of_isAlpha {c : Char} (h : c.isAlpha) : isWordChar c := by
  simp [isWordChar, Char.isAlphanum, h]

theorem continuesWord_none {word text : String} {c next : Char} {ahead : Option Char}
    (h : continuesWord word c (some next)) (hnext : continuesWord text next ahead = false) :
    continuesWord word c none := by
  have hnot : isWordChar next = false := by
    cases hword : isWordChar next with
    | false => rfl
    | true => rw [continuesWord_of_isWordChar hword] at hnext; exact hnext
  have hdigit : next.isDigit = false := by
    cases hdigit : next.isDigit with
    | false => rfl
    | true => rw [isWordChar_of_isDigit hdigit] at hnot; exact hnot
  have halpha : next.isAlpha = false := by
    cases halpha : next.isAlpha with
    | false => rfl
    | true => rw [isWordChar_of_isAlpha halpha] at hnot; exact hnot
  simpa [continuesWord, hdigit, halpha] using h

namespace Joined

variable {text : List Char} {c : Char} {ahead : Option Char}

theorem nil : Joined [] ahead := by
  intro before c after h
  simp at h

theorem push (h : Joined text (some c)) (hc : continuesWord (String.ofList text) c ahead) :
    Joined (text ++ [c]) ahead := by
  intro before d after heq
  rcases List.eq_nil_or_concat after with rfl | ⟨between, last, rfl⟩
  · obtain ⟨rfl, hlast⟩ := List.append_inj' heq rfl
    obtain rfl : c = d := by simpa using hlast
    simpa using hc
  · rw [List.concat_eq_append, ← List.cons_append, ← List.append_assoc] at heq
    obtain ⟨rfl, hlast⟩ := List.append_inj' heq rfl
    obtain rfl : c = last := by simpa using hlast
    have hjoin := h before d between rfl
    cases between with
    | nil => simpa using hjoin
    | cons next rest => simpa using hjoin

theorem stop {word : String} (h : Joined text (some c))
    (hc : continuesWord word c ahead = false) : Joined text none := by
  intro before d after heq
  have hjoin := h before d after heq
  cases after with
  | nil => exact continuesWord_none (by simpa using hjoin) hc
  | cons next rest => simpa using hjoin

end Joined

/-! ### Tokens of words -/

/-- A token that is not split: a text that stays together, a single character or a long operator. -/
def IsPiece (token : String) : Prop :=
  (token ≠ "" ∧ Joined token.toList none) ∨ (∃ c, token = String.singleton c) ∨
    token ∈ longOperators

theorem IsPiece.ne_empty {token : String} (h : IsPiece token) : token ≠ "" := by
  rcases h with ⟨hne, -⟩ | ⟨c, rfl⟩ | hlong
  · exact hne
  · intro heq
    have hlist := congrArg String.toList heq
    simp at hlist
  · rintro rfl
    exact absurd hlong (by decide)

/-- What is gathered can become a token that is not split. -/
def Gathered.Sound (ahead : Option Char) : Gathered → Prop
  | .word text => Joined text.toList ahead
  | .operator text => (∃ c, text = String.singleton c) ∨ text ∈ longOperators

theorem Gathered.sound_start (c : Char) (ahead : Option Char) :
    (Gathered.start c ahead).Sound ahead := by
  unfold start
  split
  · rename_i hc
    have hjoined : Joined [c] ahead := Joined.push Joined.nil hc
    simpa [Sound] using hjoined
  · exact .inl ⟨c, rfl⟩

/-- One character completes tokens that are not split, and leaves what can become one. -/
theorem Gathered.sound_step {held : Gathered} {c : Char} (h : held.Sound (some c))
    (ahead : Option Char) :
    (∀ token ∈ (held.step c ahead).1, IsPiece token) ∧ (held.step c ahead).2.Sound ahead := by
  cases held with
  | word text =>
      simp only [step]
      split
      · rename_i hc
        refine ⟨by simp, ?_⟩
        simpa [Sound] using Joined.push h (by simpa using hc)
      · rename_i hc
        refine ⟨?_, .inl ⟨c, rfl⟩⟩
        intro token hmem
        simp only [Gathered.tokens] at hmem
        split at hmem
        · simp at hmem
        · rename_i hempty
          obtain rfl : token = text := by simpa using hmem
          exact .inl ⟨by simpa using hempty, Joined.stop h (by simpa using hc)⟩
  | operator text =>
      simp only [step]
      split
      · rename_i hlong
        exact ⟨by simp, .inr (by simpa using hlong)⟩
      · refine ⟨?_, sound_start c ahead⟩
        intro token hmem
        obtain rfl : token = text := by simpa using hmem
        exact .inr h

theorem Gathered.isPiece_of_mem_cut {source : List Char} {held : Gathered}
    (h : held.Sound source.head?) : ∀ token ∈ held.cut source, IsPiece token := by
  induction source generalizing held with
  | nil =>
      intro token hmem
      cases held with
      | word text =>
          simp only [cut, Gathered.tokens] at hmem
          split at hmem
          · simp at hmem
          · rename_i hempty
            obtain rfl : token = text := by simpa using hmem
            exact .inl ⟨by simpa using hempty, h⟩
      | operator text =>
          obtain rfl : token = text := by simpa [cut, Gathered.tokens] using hmem
          exact .inr h
  | cons c rest ih =>
      intro token hmem
      obtain ⟨hcomplete, hnext⟩ := sound_step h rest.head?
      rcases List.mem_append.mp hmem with hmem | hmem
      · exact hcomplete token hmem
      · exact ih hnext token hmem

/-! ### Runs of signs -/

def signTokens : List String := ["+", "++", "-", "--"]

theorem signOf?_eq {token : String} {sign : Char} (h : signOf? token = some sign) :
    sign = '+' ∨ sign = '-' := by
  unfold signOf? at h
  split at h
  · cases h
  · split at h
    · rename_i hsign
      cases h
      simp only [Bool.and_eq_true, Bool.or_eq_true, beq_iff_eq] at hsign
      exact hsign.1
    · cases h

theorem mem_signTokens_of_runReading? {sign : Char} {count : Nat} {reading : List String}
    (hsign : sign = '+' ∨ sign = '-') (h : runReading? sign count = some reading)
    {token : String} (hmem : token ∈ reading) : token ∈ signTokens := by
  have hone : String.ofList [sign] ∈ signTokens := by
    rcases hsign with rfl | rfl <;> decide
  have htwo : String.ofList [sign, sign] ∈ signTokens := by
    rcases hsign with rfl | rfl <;> decide
  unfold runReading? at h
  split at h
  all_goals cases h
  · rcases List.mem_pair.mp hmem with rfl | rfl
    · exact htwo
    · exact hone
  all_goals
    simp only [List.mem_cons, List.not_mem_nil, or_false] at hmem
    rcases hmem with rfl | rfl | rfl
    all_goals first | exact htwo | exact hone

theorem SignRun.mem_spelling {run : SignRun} (hsign : run.sign = '+' ∨ run.sign = '-')
    {token : String} (h : token ∈ run.spelling) : token ∈ run.tokens ∨ token ∈ signTokens := by
  unfold spelling at h
  cases hreading : runReading? run.sign run.count with
  | none =>
      rw [hreading] at h
      exact .inl h
  | some reading =>
      rw [hreading] at h
      exact .inr (mem_signTokens_of_runReading? hsign hreading h)

/-- Respelling leaves a token as it is or puts one of the short sign tokens. -/
theorem mem_respellFrom {tokens : List String} {held : Option SignRun} {token : String}
    (hsign : ∀ run ∈ held, run.sign = '+' ∨ run.sign = '-') (h : token ∈ respellFrom held tokens) :
    token ∈ tokens ∨ (∃ run ∈ held, token ∈ run.tokens) ∨ token ∈ signTokens := by
  fun_induction respellFrom held tokens with
  | case1 => simp at h
  | case2 run =>
      rcases SignRun.mem_spelling (hsign run rfl) h with hmem | hmem
      · exact .inr (.inl ⟨run, rfl, hmem⟩)
      · exact .inr (.inr hmem)
  | case3 first rest sign hfirst ih =>
      have hnew : ∀ run ∈ some (SignRun.mk sign [first]), run.sign = '+' ∨ run.sign = '-' := by
        rintro run ⟨⟩
        exact signOf?_eq hfirst
      rcases ih hnew h with hmem | ⟨run, ⟨⟩, hmem⟩ | hmem
      · exact .inl (List.mem_cons_of_mem _ hmem)
      · exact .inl (List.mem_cons.mpr (.inl (List.mem_singleton.mp hmem)))
      · exact .inr (.inr hmem)
  | case4 first rest hfirst ih =>
      rcases List.mem_cons.mp h with rfl | hmem
      · exact .inl List.mem_cons_self
      · exact (ih (by simp) hmem).imp_left (List.mem_cons_of_mem _)
  | case5 run first rest hfirst ih =>
      have hnew : ∀ run' ∈ some (SignRun.mk run.sign (run.tokens ++ [first])),
          run'.sign = '+' ∨ run'.sign = '-' := by
        rintro run' ⟨⟩
        exact hsign run rfl
      rcases ih hnew h with hmem | ⟨run', ⟨⟩, hmem⟩ | hmem
      · exact .inl (List.mem_cons_of_mem _ hmem)
      · rcases List.mem_append.mp hmem with hmem | hmem
        · exact .inr (.inl ⟨run, rfl, hmem⟩)
        · exact .inl (List.mem_cons.mpr (.inl (List.mem_singleton.mp hmem)))
      · exact .inr (.inr hmem)
  | case6 run first rest sign hfirst hne ih =>
      have hnew : ∀ run' ∈ some (SignRun.mk sign [first]), run'.sign = '+' ∨ run'.sign = '-' := by
        rintro run' ⟨⟩
        exact signOf?_eq hfirst
      rcases List.mem_append.mp h with hmem | hmem
      · rcases SignRun.mem_spelling (hsign run rfl) hmem with hmem | hmem
        · exact .inr (.inl ⟨run, rfl, hmem⟩)
        · exact .inr (.inr hmem)
      · rcases ih hnew hmem with hmem | ⟨run', ⟨⟩, hmem⟩ | hmem
        · exact .inl (List.mem_cons_of_mem _ hmem)
        · exact .inl (List.mem_cons.mpr (.inl (List.mem_singleton.mp hmem)))
        · exact .inr (.inr hmem)
  | case7 run first rest hfirst ih =>
      rcases List.mem_append.mp h with hmem | hmem
      · rcases SignRun.mem_spelling (hsign run rfl) hmem with hmem | hmem
        · exact .inr (.inl ⟨run, rfl, hmem⟩)
        · exact .inr (.inr hmem)
      · rcases List.mem_cons.mp hmem with rfl | hmem
        · exact .inl List.mem_cons_self
        · rcases ih (by simp) hmem with hmem | ⟨run', ⟨⟩, -⟩ | hmem
          · exact .inl (List.mem_cons_of_mem _ hmem)
          · exact .inr (.inr hmem)

/-! ### Characters -/

def Gathered.text : Gathered → String
  | .word text => text
  | .operator text => text

theorem Gathered.step_text (held : Gathered) (next : Char) (ahead : Option Char) :
    (∀ token ∈ (held.step next ahead).1, token = held.text) ∧
      ∀ d ∈ (held.step next ahead).2.text.toList, d ∈ held.text.toList ∨ d = next := by
  cases held with
  | word text =>
      simp only [step]
      split
      · simp [Gathered.text]
      · refine ⟨?_, by simp [Gathered.text]⟩
        intro token hmem
        simp only [Gathered.tokens] at hmem
        split at hmem
        · simp at hmem
        · simpa [Gathered.text] using hmem
  | operator text =>
      simp only [step]
      split
      · simp [Gathered.text]
      · refine ⟨by simp [Gathered.text], ?_⟩
        unfold start
        split <;> simp [Gathered.text]

theorem Gathered.mem_of_mem_cut {source : List Char} {held : Gathered} {token : String} {c : Char}
    (h : token ∈ held.cut source) (hc : c ∈ token.toList) :
    c ∈ held.text.toList ∨ c ∈ source := by
  induction source generalizing held with
  | nil =>
      cases held with
      | word text =>
          simp only [cut, Gathered.tokens] at h
          split at h
          · simp at h
          · obtain rfl : token = text := by simpa using h
            exact .inl hc
      | operator text =>
          obtain rfl : token = text := by simpa [cut, Gathered.tokens] using h
          exact .inl hc
  | cons next rest ih =>
      have hstep := step_text held next rest.head?
      rcases List.mem_append.mp h with hmem | hmem
      · rw [hstep.1 token hmem] at hc
        exact .inl hc
      · rcases ih hmem with hmem | hmem
        · exact (hstep.2 c hmem).imp_right fun heq => by simp [heq]
        · exact .inr (List.mem_cons_of_mem _ hmem)

/-- The tokens of a word hold its characters, and signs for signs. -/
theorem mem_of_mem_splitWord {word token : String} {c : Char} (h : token ∈ splitWord word)
    (hc : c ∈ token.toList) : c ∈ word.toList ∨ c = '+' ∨ c = '-' := by
  rcases mem_respellFrom (by simp) h with hmem | ⟨run, ⟨⟩, -⟩ | hmem
  · rcases Gathered.mem_of_mem_cut hmem hc with hmem | hmem
    · simp [Gathered.text] at hmem
    · exact .inl hmem
  · right
    simp only [signTokens, List.mem_cons, List.not_mem_nil, or_false] at hmem
    rcases hmem with rfl | rfl | rfl | rfl
    · exact .inl (by simpa using hc)
    · exact .inl (by simpa using hc)
    · exact .inr (by simpa using hc)
    · exact .inr (by simpa using hc)

/-! ### Stability -/

@[simp] theorem splitWord_empty : splitWord "" = [] := by
  decide

theorem IsPiece.of_mem_splitWord {word token : String} (h : token ∈ splitWord word) :
    IsPiece token := by
  rcases mem_respellFrom (by simp) h with hmem | ⟨run, ⟨⟩, -⟩ | hmem
  · have hsound : (Gathered.word "").Sound word.toList.head? := by
      simpa [Gathered.Sound] using Joined.nil
    exact Gathered.isPiece_of_mem_cut hsound token hmem
  · simp only [signTokens, List.mem_cons, List.not_mem_nil, or_false] at hmem
    rcases hmem with rfl | rfl | rfl | rfl
    · exact .inr (.inl ⟨'+', rfl⟩)
    · exact .inr (.inr (by decide))
    · exact .inr (.inl ⟨'-', rfl⟩)
    · exact .inr (.inr (by decide))

theorem Joined.cut {before after : List Char} (h : Joined (before ++ after) none)
    (hne : before ++ after ≠ []) :
    (Gathered.word (String.ofList before)).cut after = [String.ofList (before ++ after)] := by
  induction after generalizing before with
  | nil =>
      rw [List.append_nil] at hne
      have hempty : (String.ofList before).isEmpty = false := by simpa using hne
      simp [Gathered.cut, Gathered.tokens, hempty]
  | cons c rest ih =>
      have hjoin := h before c rest rfl
      rw [Option.or_none] at hjoin
      have hpush : (String.ofList before).push c = String.ofList (before ++ [c]) := by
        apply String.toList_injective
        simp
      have hjoined : Joined (before ++ [c] ++ rest) none := by simpa using h
      have hrest := ih hjoined (by simp)
      rw [Gathered.cut]
      simp only [Gathered.step, if_pos hjoin, hpush, hrest, List.nil_append, List.append_assoc,
        List.singleton_append]

/-- Respelling keeps a lone token that is no run of three signs or more. -/
theorem respellRuns_singleton {token : String}
    (h : ∀ sign, signOf? token = some sign → token.length ≤ 2) : respellRuns [token] = [token] := by
  rw [respellRuns, respellFrom.eq_def]
  simp only
  split
  · rename_i sign hsign
    have hcount : (SignRun.mk sign [token]).count = token.length := by simp [SignRun.count]
    have hlength := h sign hsign
    have hnone : runReading? sign token.length = none := by
      unfold runReading?
      split
      all_goals first | rfl | omega
    rw [respellFrom, SignRun.spelling, hcount, hnone]
    rfl
  · rfl

/-- A token that is not split is split into itself. -/
theorem IsPiece.splitWord_eq {token : String} (h : IsPiece token) : splitWord token = [token] := by
  rcases h with ⟨hne, hjoined⟩ | ⟨c, rfl⟩ | hlong
  · have hcut : (Gathered.word "").cut token.toList = [String.ofList token.toList] :=
      @Joined.cut [] token.toList hjoined (by simpa using hne)
    rw [splitWord, hcut, String.ofList_toList]
    refine respellRuns_singleton ?_
    intro sign hsign
    -- No word begins with a sign.
    have hstart : ∀ ahead, continuesWord "" sign ahead = false := by
      intro ahead
      rcases signOf?_eq hsign with rfl | rfl
      · simp [continuesWord, awaitsExponent, show isWordChar '+' = false by decide]
      · simp [continuesWord, awaitsExponent, show isWordChar '-' = false by decide]
    unfold signOf? at hsign
    split at hsign
    · cases hsign
    · rename_i c rest hlist
      have hfirst := hjoined [] c rest hlist
      split at hsign
      · cases hsign
        rw [show String.ofList [] = "" from rfl, hstart] at hfirst
        cases hfirst
      · cases hsign
  · have hcut : (Gathered.word "").cut (String.singleton c).toList = [String.singleton c] := by
      rw [String.toList_singleton, Gathered.cut]
      simp only [Gathered.step]
      split
      · have hpush : "".push c = String.singleton c := rfl
        simp [Gathered.cut, Gathered.tokens, hpush]
      · simp [Gathered.cut, Gathered.tokens]
    rw [splitWord, hcut]
    exact respellRuns_singleton fun _ _ => by simp
  · have hall : ∀ operator ∈ longOperators, splitWord operator = [operator] := by decide
    exact hall token hlong

end LslFront
