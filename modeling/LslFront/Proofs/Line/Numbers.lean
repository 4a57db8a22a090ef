import LslFront.Proofs.Line.Gathering
import LslFront.Proofs.Line.Sifting

/-!
# Numbers of lines

The lexer counts the line feeds that it passes, whatever text they stand in.  A logical line takes
its number when its first character is gathered, so it is numbered by the source line of its first
token, however many blanks and comments stand before that and however many source lines it goes
on for.
-/

namespace LslFront

/-- The number of the source line that a source has come to after `before`. -/
def numberAfter (before : List Char) : Nat :=
  1 + before.count '\n'

theorem numberAfter_append (before more : List Char) :
    numberAfter (before ++ more) = numberAfter before + more.count '\n' := by
  rw [numberAfter, numberAfter, List.count_append, Nat.add_assoc]

/-! ### Before the first token -/

/-- Blanks and comments, each of them complete. -/
inductive Gap : List Char → Prop where
  | nil : Gap []
  | spacing {gap : List Char} {c : Char} : Gap gap → isSpacing c → Gap (gap ++ [c])
  | lineComment {gap text : List Char} : Gap gap → '\n' ∉ text →
      Gap (gap ++ '/' :: '/' :: (text ++ ['\n']))
  | blockComment {gap text : List Char} : Gap gap → ¬ ['*', '/'] <:+: text →
      Gap (gap ++ '/' :: '*' :: (text ++ ['*', '/']))

/-- A token begins with `c` if `rest` follows it: neither is it blank nor does a comment begin. -/
def OpensToken (c : Char) (rest : List Char) : Prop :=
  isSpacing c = false ∧ (c = '/' → rest.head? ≠ some '/' ∧ rest.head? ≠ some '*')

/-- The line has the number of the source line where its first token begins.  It was read from
    `passed`, with `before` in front of that and `rest` after it. -/
def Line.Placed (before passed rest : List Char) (line : Line) : Prop :=
  ∃ gap c more, passed = gap ++ c :: more ∧ Gap gap ∧ OpensToken c (more ++ rest) ∧
    line.number = numberAfter (before ++ gap) ∧
    ∃ first others, line.tokens = first :: others ∧ first.toList.head? = some c

/-- The same of a line under way. -/
def Draft.Placed (before passed rest : List Char) (draft : Draft) : Prop :=
  ∃ gap c more, passed = gap ++ c :: more ∧ Gap gap ∧ OpensToken c (more ++ rest) ∧
    draft.first = some (numberAfter (before ++ gap)) ∧ draft.chars.head? = some c

namespace Draft

variable {draft next : Draft} {before passed rest : List Char} {c : Char}

theorem Placed.moves (h : draft.Placed before passed rest) (hmoves : draft.Moves next) :
    next.Placed before passed rest := by
  obtain ⟨gap, c, more, hpassed, hgap, hopens, hfirst, hchar⟩ := h
  obtain ⟨hfirst, hchar⟩ := hmoves.begun hfirst hchar
  exact ⟨gap, c, more, hpassed, hgap, hopens, hfirst, hchar⟩

theorem Placed.pass (h : draft.Placed before passed (c :: rest)) :
    draft.Placed before (passed ++ [c]) rest := by
  obtain ⟨gap, d, more, rfl, hgap, hopens, hfirst, hchar⟩ := h
  exact ⟨gap, d, more ++ [c], by simp, hgap, by simpa using hopens, hfirst, hchar⟩

theorem Placed.line {line : Line} (h : draft.Placed before passed rest) (hwhole : draft.Whole)
    (hline : draft.line? = some line) : line.Placed before passed rest := by
  obtain ⟨gap, c, more, hpassed, hgap, hopens, hfirst, hchar⟩ := h
  unfold line? at hline
  split at hline
  · rename_i number first others hnumber htokens
    cases hline
    obtain rfl : number = numberAfter (before ++ gap) :=
      Option.some.inj (hnumber.symm.trans hfirst)
    refine ⟨gap, c, more, hpassed, hgap, hopens, rfl, first, others, htokens, ?_⟩
    rw [← hwhole.head?_chars htokens, hchar]
  · cases hline

/-- A line that is complete is handed out. -/
theorem Placed.exists_line (h : draft.Placed before passed rest) (hwhole : draft.Whole)
    (hword : draft.word = "") : ∃ line, draft.line? = some line := by
  have hchars := hwhole.chars_line? hword
  obtain ⟨_, _, _, _, _, _, _, hchar⟩ := h
  cases hline : draft.line? with
  | none =>
      rw [hline] at hchars
      rw [← hchars] at hchar
      cases hchar
  | some line => exact ⟨line, rfl⟩

end Draft

/-- What the mode says of a line of which nothing has been gathered. -/
def ScanMode.Waits (before passed : List Char) : ScanMode → Prop
  | .code => Gap passed
  | .slash => ∃ gap, Gap gap ∧ passed = gap ++ ['/']
  | .lineComment => ∃ gap text, Gap gap ∧ '\n' ∉ text ∧ passed = gap ++ '/' :: '/' :: text
  | .blockComment => ∃ gap text, Gap gap ∧ ¬ ['*', '/'] <:+: text ∧ text.getLast? ≠ some '*' ∧
      passed = gap ++ '/' :: '*' :: text
  | .blockStar => ∃ gap text, Gap gap ∧ ¬ ['*', '/'] <:+: text ∧
      passed = gap ++ '/' :: '*' :: (text ++ ['*'])
  | .literal quote start text | .escape quote start text => ∃ gap more, Gap gap ∧
      passed = gap ++ quote :: more ∧ start = numberAfter (before ++ gap) ∧
      text.toList.head? = some quote
  | .includeName .. => False

/-- Either nothing has been gathered of the line or it has its number, whatever follows. -/
def Scan.Located (before passed : List Char) (scan : Scan) : Prop :=
  (scan.draft = .empty ∧ scan.mode.Waits before passed) ∨
    ∀ rest, scan.draft.Placed before passed rest

def ScanStep.Located (before passed : List Char) : ScanStep → Prop
  | .more next => next.Located before passed
  | .done last => ∀ rest, last.draft.Placed before passed rest
  | .refused _ => True

namespace Scan

variable {scan next : Scan} {before passed : List Char} {c : Char}

/-! ### Steps -/

/-- The first character of the first token is gathered. -/
theorem placed_first (hgap : Gap passed) (hline : scan.line = numberAfter (before ++ passed))
    (hc : isKept c) {draft : Draft} (hfirst : draft.first = some scan.line)
    (hchar : draft.chars.head? = some c) (rest : List Char) :
    draft.Placed before (passed ++ [c]) rest := by
  simp only [isKept, Bool.and_eq_true, Bool.not_eq_true', bne_iff_ne, ne_eq] at hc
  exact ⟨passed, c, [], rfl, hgap, ⟨hc.1.1.1, fun heq => absurd heq hc.2⟩, hline ▸ hfirst, hchar⟩

theorem located_codeStep (hdraft : scan.draft = .empty) (hcode : scan.mode = .code)
    (hgap : Gap passed) (hline : scan.line = numberAfter (before ++ passed)) (c : Char) :
    (scan.codeStep c).Located before (passed ++ [c]) := by
  obtain ⟨mode, draft, line, depth⟩ := scan
  subst hdraft hcode
  have hflush : Draft.empty.flush = .empty := by simp [Draft.flush, Draft.empty]
  have hcases := onCode_codeStep ⟨.code, .empty, line, depth⟩ c
  generalize codeStep ⟨.code, .empty, line, depth⟩ c = step at hcases ⊢
  cases hcases with
  | blank hc => exact .inl ⟨hflush, hgap.spacing (by rcases hc with rfl | rfl | rfl <;> rfl)⟩
  | lineFeed => exact .inl ⟨hflush, hgap.spacing rfl⟩
  | slash => exact .inl ⟨rfl, passed, hgap, rfl⟩
  | quote => exact .inl ⟨rfl, passed, [], hgap, rfl, hline, by simp⟩
  | mark hmark =>
      exact .inr (placed_first hgap hline (isKept_of_mark hmark) rfl (by simp [emitChar]))
  | ending hends =>
      exact placed_first hgap hline (isKept_of_mark hends.mem_markTokens) rfl (by simp [emitChar])
  | unmatched => trivial
  | includeName hinclude => exact absurd hinclude (by simp [Draft.isInclude, Draft.empty])
  | word hc => exact .inr (placed_first hgap hline (isKept_of_word hc) rfl (by simp))

/-- The step changes no draft but goes on within blanks and comments. -/
theorem located_wait {mode : ScanMode} {line depth : Nat} (h : mode.Waits before passed) :
    Located before passed ⟨mode, .empty, line, depth⟩ :=
  .inl ⟨rfl, h⟩

theorem not_infix_concat {text : List Char} (h : ¬ ['*', '/'] <:+: text)
    (hlast : c = '/' → text.getLast? ≠ some '*') : ¬ ['*', '/'] <:+: text ++ [c] := by
  rw [List.infix_concat_iff]
  rintro (hsuffix | hinfix)
  · obtain ⟨before, heq⟩ := hsuffix
    rw [show before ++ ['*', '/'] = before ++ ['*'] ++ ['/'] by simp] at heq
    obtain ⟨rfl, hc⟩ := List.append_inj' heq rfl
    exact hlast (List.cons.inj hc).1.symm (by simp)
  · exact h hinfix

/-- A line that has its number keeps it. -/
theorem located_of_advances {step : ScanStep}
    (h : ∀ rest, scan.draft.Placed before passed (c :: rest)) (hadvances : step.Advances scan c) :
    step.Located before (passed ++ [c]) := by
  cases step with
  | more next => exact .inr fun rest => ((h rest).moves hadvances.1).pass
  | done last => exact fun rest => ((h rest).moves hadvances.1).pass
  | refused cause => trivial

theorem located_step_slash {line depth : Nat} (hgap : Gap passed)
    (hline : line = numberAfter (before ++ passed)) (c : Char) :
    (step ⟨.slash, .empty, line, depth⟩ c).Located before (passed ++ ['/'] ++ [c]) := by
  have hflush : Draft.empty.flush = .empty := by simp [Draft.flush, Draft.empty]
  simp only [step]
  split
  · rw [hflush]
    exact located_wait ⟨passed, [], hgap, by simp, by simp⟩
  · rw [hflush]
    exact located_wait ⟨passed, [], hgap, by simp, by simp, by simp⟩
  · rename_i hslash hstar
    -- The slash is the first character of a token, and `c` is taken after it.
    have hfirst : ∀ rest, (Draft.empty.push '/' line).Placed before (passed ++ ['/']) (c :: rest) :=
      fun rest => ⟨passed, '/', [], rfl, hgap, ⟨rfl, fun _ => by simpa using ⟨hslash, hstar⟩⟩,
        by rw [← hline]; rfl, by simp⟩
    exact located_of_advances hfirst (advances_codeStep (keepSlash ⟨.slash, .empty, line, depth⟩) c)

theorem located_step_waits {mode : ScanMode} {line depth : Nat}
    (h : mode.Waits before passed) (hsound : mode.Sound .empty)
    (hline : line = numberAfter (before ++ passed)) (c : Char) :
    (step ⟨mode, .empty, line, depth⟩ c).Located before (passed ++ [c]) := by
  cases mode with
  | code => exact located_codeStep rfl rfl h hline c
  | slash =>
      obtain ⟨gap, hgap, rfl⟩ := h
      refine located_step_slash hgap ?_ c
      rw [hline, ← List.append_assoc, numberAfter_append]
      rfl
  | lineComment =>
      obtain ⟨gap, text, hgap, htext, rfl⟩ := h
      simp only [step]
      split
      · rename_i hc
        subst hc
        refine .inl ⟨by simp [Draft.flush, Draft.empty], ?_⟩
        have hclosed := hgap.lineComment htext
        simpa [ScanMode.Waits] using hclosed
      · rename_i hc
        exact located_wait ⟨gap, text ++ [c], hgap, by simp [htext, Ne.symm hc], by simp⟩
  | blockComment =>
      obtain ⟨gap, text, hgap, htext, hlast, rfl⟩ := h
      simp only [step]
      split
      · rename_i hc
        subst hc
        exact located_wait ⟨gap, text, hgap, htext, by simp⟩
      · rename_i hc
        exact located_wait ⟨gap, text ++ [c], hgap, not_infix_concat htext fun _ => hlast,
          by simpa using hc, by simp⟩
  | blockStar =>
      obtain ⟨gap, text, hgap, htext, rfl⟩ := h
      have hstar : ¬ ['*', '/'] <:+: text ++ ['*'] := not_infix_concat htext (by simp)
      simp only [step]
      split
      · have hclosed := hgap.blockComment htext
        exact located_wait (by simpa [ScanMode.Waits] using hclosed)
      · exact located_wait ⟨gap, text ++ ['*'], hgap, hstar, by simp⟩
      · rename_i hslash hother
        exact located_wait ⟨gap, text ++ ['*'] ++ [c], hgap,
          not_infix_concat hstar (fun heq => absurd heq hslash), by simpa using hother, by simp⟩
  | literal quote start text =>
      obtain ⟨gap, more, hgap, rfl, hstart, hchar⟩ := h
      have hpush := head?_push hchar c
      simp only [step]
      split
      · refine .inr fun rest => ⟨gap, quote, more ++ [c], by simp, hgap, ?_, ?_, ?_⟩
        · rcases hsound.1 with rfl | rfl <;> exact ⟨rfl, by simp⟩
        · rw [Draft.first_emit, ← hstart]
          rfl
        · rw [Draft.chars_emit]
          exact hpush
      · refine located_wait ?_
        split
        · exact ⟨gap, more ++ [c], hgap, by simp, hstart, hpush⟩
        · exact ⟨gap, more ++ [c], hgap, by simp, hstart, hpush⟩
  | escape quote start text =>
      obtain ⟨gap, more, hgap, rfl, hstart, hchar⟩ := h
      exact located_wait ⟨gap, more ++ [c], hgap, by simp, hstart, head?_push hchar c⟩
  | includeName start name => exact h.elim

theorem located_step (h : scan.Located before passed) (hsound : scan.Sound)
    (hline : scan.line = numberAfter (before ++ passed)) (c : Char) :
    (scan.step c).Located before (passed ++ [c]) := by
  rcases h with ⟨hdraft, hwaits⟩ | hplaced
  · obtain ⟨mode, draft, line, depth⟩ := scan
    obtain rfl : draft = .empty := hdraft
    exact located_step_waits hwaits hsound.2 hline c
  · exact located_of_advances (fun rest => hplaced (c :: rest)) (advances_step hsound c)

/-! ### Lines -/

/-- What a run over `source` ends with, if `before` and `passed` precede it and the line under way
    begins with `passed`. -/
def Outcome.Located (before passed source : List Char) (outcome : Outcome) : Prop :=
  ∃ taken, source = taken ++ outcome.rest ∧
    outcome.line = numberAfter (before ++ (passed ++ taken)) ∧
    match outcome.result with
    | .ok none => outcome.rest = []
    | .ok (some line) => line.Placed before (passed ++ taken) outcome.rest
    | .error cause => cause.DetectedAt outcome.rest

theorem located_end {draft : Draft} {line depth : Nat} {result : Except LexicalCause (Option Line)}
    (hline : line = numberAfter (before ++ passed)) (hwhole : draft.Whole)
    (hdraft : draft = .empty ∨ draft.Placed before passed [])
    (hresult : result = if depth = 0 then .ok draft.flush.line? else .error .openParenthesis) :
    Outcome.Located before passed [] ⟨result, [], line, depth⟩ := by
  refine ⟨[], rfl, by rw [hline, List.append_nil], ?_⟩
  rw [List.append_nil, hresult]
  by_cases hdepth : depth = 0
  · rw [if_pos hdepth]
    cases hfound : draft.flush.line? with
    | none => rfl
    | some found =>
        rcases hdraft with rfl | hplaced
        · cases hfound
        · exact (hplaced.moves .flush).line hwhole.flush hfound
  · rw [if_neg hdepth]
    rfl

theorem located_atEnd (h : scan.Located before passed) (hwhole : scan.draft.Whole)
    (hline : scan.line = numberAfter (before ++ passed)) :
    (scan.run []).Located before passed [] := by
  have hopen : ∀ cause : LexicalCause, cause.DetectedAt [] →
      Outcome.Located before passed [] ⟨.error cause, [], scan.line, scan.depth⟩ :=
    fun cause hcause => ⟨[], rfl, by rw [hline, List.append_nil], hcause⟩
  have hdraft : scan.draft = .empty ∨ scan.draft.Placed before passed [] :=
    h.imp And.left fun hplaced => hplaced []
  rw [run, atEnd.eq_def]
  cases hmode : scan.mode with
  | code => exact located_end hline hwhole hdraft rfl
  | slash =>
      have hkeep : scan.keepSlash.draft.Whole := hwhole.push '/' scan.line
      refine located_end hline hkeep (.inr ?_) rfl
      rcases h with ⟨hempty, hwaits⟩ | hplaced
      · rw [hmode] at hwaits
        obtain ⟨gap, hgap, rfl⟩ := hwaits
        refine ⟨gap, '/', [], rfl, hgap, ⟨rfl, fun _ => by simp⟩, ?_, by simp [keepSlash, hempty]⟩
        rw [← List.append_assoc, numberAfter_append] at hline
        rw [keepSlash, hempty, Draft.first_push, hline]
        rfl
      · exact (hplaced []).moves (.push '/' scan.line)
  | lineComment => exact located_end hline hwhole hdraft rfl
  | blockComment => exact hopen _ rfl
  | blockStar => exact hopen _ rfl
  | literal => exact hopen _ rfl
  | escape => exact hopen _ rfl
  | includeName => exact hopen _ (.inl rfl)

theorem located_run (before : List Char) (source : List Char) :
    ∀ {scan : Scan} {passed : List Char}, scan.Located before passed → scan.Sound → scan.draft.Whole →
    scan.line = numberAfter (before ++ passed) →
    (scan.run source).Located before passed source := by
  induction source with
  | nil => exact fun h _ hwhole hline => located_atEnd h hwhole hline
  | cons c rest ih =>
      intro scan passed h hsound hwhole hline
      have hlocated := located_step h hsound hline c
      have hadvances := advances_step hsound c
      have hstep := sound_step hsound c
      have hafter : scan.lineAfter c = numberAfter (before ++ (passed ++ [c])) := by
        rw [← List.append_assoc, numberAfter_append, ← hline, lineAfter]
        split
        · rename_i hc
          simp [hc]
        · rename_i hc
          simp [hc]
      rw [run]
      split
      · rename_i next hnext
        rw [hnext] at hlocated hadvances hstep
        obtain ⟨taken, hrest, hnumber, hresult⟩ := ih hlocated hstep (hadvances.1.whole hwhole)
          (hadvances.2.trans hafter)
        refine ⟨c :: taken, by rw [List.cons_append, ← hrest], ?_, ?_⟩
        · rw [hnumber, List.append_assoc, List.singleton_append]
        · simpa only [List.append_assoc, List.singleton_append] using hresult
      · rename_i last hlast
        rw [hlast] at hlocated hadvances
        have hwhole := hadvances.1.whole hwhole
        split
        · rename_i hopen
          simp only [Bool.and_eq_true, List.isEmpty_iff] at hopen
          exact ⟨[c], rfl, hadvances.2.1.trans hafter, hopen.1⟩
        · refine ⟨[c], rfl, hadvances.2.1.trans hafter, ?_⟩
          obtain ⟨line, hfound⟩ := (hlocated rest).exists_line hwhole hadvances.2.2
          simp only [hfound]
          exact (hlocated rest).line hwhole hfound
      · rename_i cause hcause
        rw [hcause] at hadvances
        exact ⟨[], rfl, by rw [hline, List.append_nil], hadvances rest⟩

end Scan

/-! ### Calls -/

/-- What so many calls give, one after the other, and the place after them. -/
def Lexer.calls (lexer : Lexer) : Nat → Except Fault (List (Option Line) × Lexer)
  | 0 => .ok ([], lexer)
  | count + 1 =>
      match lexer.nextLine with
      | (.error fault, _) => .error fault
      | (.ok answer, next) =>
          (next.calls count).map fun (answers, after) => (answer :: answers, after)

/-- What a call gives and where it leaves off, if `before` precedes the place where it is made.  The
    call takes `taken` from the source. -/
structure Lexer.CallPlaced (before taken : List Char) (lexer after : Lexer)
    (result : Except Fault (Option Line)) : Prop where
  rest : lexer.rest = taken ++ after.rest
  counter : after.line = numberAfter (before ++ taken)
  name : after.name = lexer.name
  /-- A call gives no line only at the end of the source. -/
  atEnd : result = .ok none → after.rest = []
  line : ∀ line, result = .ok (some line) →
    line.Placed before taken after.rest ∧ ∀ token ∈ line.placed, token.2 = line.number
  fault : ∀ fault, result = .error fault → fault.line = numberAfter (before ++ taken) ∧
    ∃ cause, fault.cause = .lexical cause lexer.name ∧ cause.DetectedAt after.rest

namespace Lexer

variable {lexer after : Lexer} {before : List Char}

theorem exists_callPlaced {result : Except Fault (Option Line)}
    (hline : lexer.line = numberAfter before) (h : lexer.nextLine = (result, after)) :
    ∃ taken, CallPlaced before taken lexer after result := by
  have hstart : lexer.fresh.line = numberAfter (before ++ []) := by
    rw [List.append_nil]
    exact hline
  obtain ⟨taken, hrest, hnumber, hresult⟩ := @Scan.located_run before lexer.rest
    lexer.fresh [] (.inl ⟨rfl, Gap.nil⟩) (Scan.sound_fresh lexer) Draft.whole_empty hstart
  rw [List.nil_append] at hnumber hresult
  simp only [nextLine] at h
  refine ⟨taken, ?_⟩
  split at h
  · rename_i line hfound
    obtain ⟨rfl, rfl⟩ : .ok line = result ∧ _ = after := by simpa using h
    rw [hfound] at hresult
    refine ⟨hrest, hnumber, rfl, ?_, ?_, by simp⟩
    · rintro ⟨⟩
      exact hresult
    · rintro line ⟨⟩
      exact ⟨hresult, by simp [Line.placed]⟩
  · rename_i cause hfound
    obtain ⟨rfl, rfl⟩ := Prod.mk.inj h
    rw [hfound] at hresult
    refine ⟨hrest, hnumber, rfl, by simp, by simp, ?_⟩
    rintro fault ⟨⟩
    exact ⟨hnumber, cause, rfl, hresult⟩

/-- The number of a line is that of a source line that the call passes. -/
theorem CallPlaced.number_le {taken : List Char} {line : Line}
    (h : CallPlaced before taken lexer after (.ok (some line))) :
    numberAfter before ≤ line.number ∧ line.number ≤ numberAfter (before ++ taken) := by
  obtain ⟨⟨gap, c, more, rfl, -, -, hnumber, -⟩, -⟩ := h.line line rfl
  simp only [hnumber, numberAfter_append, List.count_append]
  omega

/-- After some calls the counter is that of the place, and the numbers of the lines that they gave
    do not decrease. -/
theorem numbers_of_calls {count : Nat} {answers : List (Option Line)}
    (hline : lexer.line = numberAfter before) (h : lexer.calls count = .ok (answers, after)) :
    ∃ passed, lexer.rest = passed ++ after.rest ∧ after.line = numberAfter (before ++ passed) ∧
      after.name = lexer.name ∧
      (answers.reduceOption.map Line.number).Pairwise (· ≤ ·) ∧
      ∀ number ∈ answers.reduceOption.map Line.number, lexer.line ≤ number := by
  induction count generalizing lexer before answers with
  | zero =>
      cases h
      exact ⟨[], rfl, by rwa [List.append_nil], rfl, .nil, by simp⟩
  | succ count ih =>
      rw [calls] at h
      split at h
      · cases h
      · rename_i answer next hnext
        obtain ⟨⟨others, last⟩, hothers, heq⟩ := map_eq_ok_iff.1 h
        obtain ⟨rfl, rfl⟩ := Prod.mk.inj heq
        obtain ⟨taken, hcall⟩ := exists_callPlaced hline hnext
        obtain ⟨passed, hrest, hcounter, hname, hsorted, hbound⟩ := ih hcall.counter hothers
        refine ⟨taken ++ passed, ?_, ?_, hname.trans hcall.name, ?_⟩
        · rw [hcall.rest, hrest, List.append_assoc]
        · rw [hcounter, List.append_assoc]
        · have hle : lexer.line ≤ next.line := by
            rw [hline, hcall.counter, numberAfter_append]
            exact Nat.le_add_right _ _
          cases answer with
          | none =>
              rw [List.reduceOption_cons_of_none]
              exact ⟨hsorted, fun number hmem => hle.trans (hbound number hmem)⟩
          | some line =>
              obtain ⟨hlow, hhigh⟩ := hcall.number_le
              rw [← hline] at hlow
              rw [← hcall.counter] at hhigh
              rw [List.reduceOption_cons_of_some, List.map_cons]
              refine ⟨.cons (fun number hmem => hhigh.trans (hbound number hmem)) hsorted, ?_⟩
              refine List.forall_mem_cons.mpr ⟨hlow, fun number hmem => ?_⟩
              exact hle.trans (hbound number hmem)

end Lexer

/-- Wherever calls have led in a source, the counter is the number of the source line, and the next
    call numbers its line by the source line of the first token and its fault by the source line
    where that is detected.  The numbers of the lines do not decrease. -/
theorem nextLine_numbers {source : String} {name : Option String} {count : Nat}
    {answers : List (Option Line)} {lexer : Lexer}
    (h : (Lexer.ofText source name).calls count = .ok (answers, lexer)) :
    (answers.reduceOption.map Line.number).Pairwise (· ≤ ·) ∧
      ∃ passed, source.toList = passed ++ lexer.rest ∧ lexer.line = numberAfter passed ∧
        lexer.name = name ∧ ∀ result after, lexer.nextLine = (result, after) →
          ∃ taken, Lexer.CallPlaced passed taken lexer after result := by
  have hstart : (Lexer.ofText source name).line = numberAfter [] := rfl
  obtain ⟨passed, hrest, hcounter, hname, hsorted, -⟩ := Lexer.numbers_of_calls hstart h
  refine ⟨hsorted, passed, hrest, hcounter, hname, fun result after hnext => ?_⟩
  exact Lexer.exists_callPlaced hcounter hnext

/-- A line behind two comments that goes on for two source lines, and a parenthesis left open. -/
theorem nextLine_numbers_literal :
    let source := "// a\n/* b\n */ 'c\n' ;\n (d\n"
    let lexer : Lexer := ⟨"\n (d\n".toList, 4, 0, false, none⟩
    (Lexer.ofText source none).calls 1 = .ok ([some ⟨3, ["'c\n'", ";"]⟩], lexer) ∧
      lexer.nextLine.1 = .error ⟨.lexical .openParenthesis none, 6⟩ ∧
      ∃ passed taken, source.toList = passed ++ lexer.rest ∧ lexer.line = numberAfter passed ∧
        Lexer.CallPlaced passed taken lexer lexer.nextLine.2
          (.error ⟨.lexical .openParenthesis none, 6⟩) := by
  intro source lexer
  have hcalls : (Lexer.ofText source none).calls 1
      = .ok ([some ⟨3, ["'c\n'", ";"]⟩], lexer) := by decide
  have hnext : lexer.nextLine.1 = .error ⟨.lexical .openParenthesis none, 6⟩ := by decide
  obtain ⟨-, passed, hsource, hcounter, -, hcall⟩ := nextLine_numbers hcalls
  obtain ⟨taken, hplaced⟩ := hcall _ _ (Prod.ext hnext rfl)
  exact ⟨hcalls, hnext, passed, taken, hsource, hcounter, hplaced⟩

end LslFront
