import LslFront.Proofs.Line.Numbers
import LslFront.Proofs.Line.Respacing

/-!
# One text after another

A text whose last line is ended by a token, and which ends with a line feed, leaves the lexer where
a new text would find it, but for the number of the source line: no word is gathered, no comment is
open, no parenthesis either.  So a text that follows it is read as by itself, further down, and this
is why a source can be included in place of its text.
-/

namespace LslFront

/-! ### Further down -/

/-- The line, if it stood so many source lines further down. -/
def Line.shifted (count : Nat) (line : Line) : Line :=
  { line with number := line.number + count }

theorem Line.placed_shifted (count : Nat) (line : Line) : (line.shifted count).placed
    = line.placed.map fun (token, number) => (token, number + count) := by
  simp [placed, shifted]

def Fault.shifted (count : Nat) (fault : Fault) : Fault :=
  { fault with line := fault.line + count }

/-- What is reported is the same but for the line. -/
theorem Fault.notice_shifted (count : Nat) (fault : Fault) : (fault.shifted count).notice
    = { fault.notice with line := fault.notice.line + count } := by
  obtain ⟨cause, line⟩ := fault
  cases cause with
  | lexical cause source => cases source <;> rfl
  | _ => rfl

/-- What a text gives, if it stood so many source lines further down. -/
def shiftedAnswer {α : Type} (count : Nat) (shift : α → α) (answer : Except Fault α) :
    Except Fault α :=
  (answer.map shift).mapError (Fault.shifted count)

namespace Draft

variable {count : Nat}

def shifted (count : Nat) (draft : Draft) : Draft :=
  { draft with first := draft.first.map (· + count) }

theorem shifted_push (draft : Draft) (c : Char) (line : Nat) :
    (draft.shifted count).push c (line + count) = (draft.push c line).shifted count := by
  obtain ⟨tokens, word, first⟩ := draft
  cases first <;> rfl

theorem shifted_emit (draft : Draft) (token : String) (line : Nat) :
    (draft.shifted count).emit token (line + count) = (draft.emit token line).shifted count := by
  obtain ⟨tokens, word, first⟩ := draft
  cases first <;> rfl

theorem shifted_line? (draft : Draft) :
    (draft.shifted count).line? = draft.line?.map (Line.shifted count) := by
  obtain ⟨tokens, word, first⟩ := draft
  cases first with
  | none => rfl
  | some number => cases tokens <;> rfl

end Draft

def ScanMode.shifted (count : Nat) : ScanMode → ScanMode
  | .literal quote start text => .literal quote (start + count) text
  | .escape quote start text => .escape quote (start + count) text
  | .includeName start name => .includeName (start + count) name
  | mode => mode

def Scan.shifted (count : Nat) (scan : Scan) : Scan :=
  ⟨scan.mode.shifted count, scan.draft.shifted count, scan.line + count, scan.depth⟩

def ScanStep.shifted (count : Nat) : ScanStep → ScanStep
  | .more next => .more (next.shifted count)
  | .done last => .done (last.shifted count)
  | .refused cause => .refused cause

def Scan.Outcome.shifted (count : Nat) (outcome : Outcome) : Outcome :=
  { outcome with
    result := outcome.result.map (Option.map (Line.shifted count))
    line := outcome.line + count }

namespace Scan

variable {count : Nat}

theorem shifted_emitChar (scan : Scan) (c : Char) :
    (scan.shifted count).emitChar c = (scan.emitChar c).shifted count := by
  rw [emitChar, emitChar, shifted, Draft.shifted_emit]
  rfl

theorem shifted_lineFeed (scan : Scan) :
    (scan.shifted count).lineFeed = scan.lineFeed.shifted count := by
  have hfirst : (scan.shifted count).draft.flush.isPreprocessor = scan.draft.flush.isPreprocessor :=
    rfl
  have hlast : (scan.shifted count).draft.flush.tokens.getLast?
      = scan.draft.flush.tokens.getLast? := rfl
  have hline : (scan.shifted count).line + 1 = scan.line + 1 + count := Nat.add_right_comm _ _ _
  simp only [lineFeed, hfirst, hlast, hline]
  split
  · split <;> rfl
  · rfl

theorem shifted_codeStep (scan : Scan) (c : Char) :
    (scan.shifted count).codeStep c = (scan.codeStep c).shifted count := by
  have hdepth : (scan.shifted count).depth = scan.depth := rfl
  have hinclude : (scan.draft.shifted count).isInclude = scan.draft.isInclude := rfl
  have hline : (scan.shifted count).line = scan.line + count := rfl
  have hdraft : (scan.shifted count).draft = scan.draft.shifted count := rfl
  unfold codeStep
  simp only [shifted_emitChar, shifted_lineFeed, hdepth, hline, hdraft, hinclude,
    Draft.shifted_push]
  split
  all_goals first
    | rfl
    | split <;> rfl

theorem shifted_step (scan : Scan) (c : Char) :
    (scan.shifted count).step c = (scan.step c).shifted count := by
  obtain ⟨mode, draft, line, depth⟩ := scan
  have hline : (if c = '\n' then line + count + 1 else line + count)
      = (if c = '\n' then line + 1 else line) + count := by
    split
    · exact Nat.add_right_comm _ _ _
    · rfl
  cases mode with
  | code => exact shifted_codeStep _ c
  | slash =>
      have hkeep : keepSlash (shifted count ⟨.slash, draft, line, depth⟩)
          = (keepSlash ⟨.slash, draft, line, depth⟩).shifted count := by
        simp only [keepSlash, shifted, Draft.shifted_push]
        rfl
      simp only [step, shifted, ScanMode.shifted]
      split
      · rfl
      · rfl
      · exact (congrArg (codeStep · c) hkeep).trans (shifted_codeStep _ c)
  | lineComment =>
      simp only [step, shifted, ScanMode.shifted]
      split
      · exact shifted_lineFeed ⟨.lineComment, draft, line, depth⟩
      · rfl
  | blockComment =>
      simp only [step, shifted, ScanMode.shifted, lineAfter, hline]
      split <;> rfl
  | blockStar =>
      simp only [step, shifted, ScanMode.shifted, lineAfter, hline]
      split <;> rfl
  | literal quote start text =>
      simp only [step, shifted, ScanMode.shifted, lineAfter, hline, Draft.shifted_emit]
      split
      · rfl
      · split <;> rfl
  | escape quote start text =>
      simp only [step, shifted, ScanMode.shifted, lineAfter, hline]
      rfl
  | includeName start name =>
      simp only [step, shifted, ScanMode.shifted, Draft.shifted_emit]
      split <;> rfl

theorem shifted_atEnd (scan : Scan) : (scan.shifted count).atEnd
    = scan.atEnd.map (Option.map (Line.shifted count)) := by
  obtain ⟨mode, draft, line, depth⟩ := scan
  have hflush : (draft.shifted count).flush.line? = draft.flush.line?.map (Line.shifted count) :=
    draft.flush.shifted_line?
  have hkeep : ((draft.shifted count).push '/' (line + count)).flush.line?
      = (draft.push '/' line).flush.line?.map (Line.shifted count) := by
    rw [Draft.shifted_push]
    exact (draft.push '/' line).flush.shifted_line?
  cases mode with
  | code | lineComment =>
      simp only [atEnd, shifted, ScanMode.shifted, hflush]
      split <;> rfl
  | slash =>
      simp only [atEnd, shifted, ScanMode.shifted, keepSlash, hkeep]
      split <;> rfl
  | _ => rfl

/-- A run that begins further down goes the same way. -/
theorem shifted_run (source : List Char) (scan : Scan) :
    (scan.shifted count).run source = (scan.run source).shifted count := by
  induction source generalizing scan with
  | nil =>
      simp only [run, shifted_atEnd]
      rfl
  | cons c rest ih =>
      rw [run, run, shifted_step]
      cases scan.step c with
      | more next => exact ih next
      | done last =>
          simp only [ScanStep.shifted, shifted, Draft.shifted_line?]
          split <;> rfl
      | refused cause => rfl

end Scan

namespace Lexer

variable {count : Nat} {lexer after : Lexer}

def shifted (count : Nat) (lexer : Lexer) : Lexer :=
  { lexer with line := lexer.line + count }

theorem shifted_nextLine {result : Except Fault (Option Line)}
    (h : lexer.nextLine = (result, after)) : (lexer.shifted count).nextLine
      = (shiftedAnswer count (Option.map (Line.shifted count)) result, after.shifted count) := by
  have hrun : (lexer.shifted count).fresh.run (lexer.shifted count).rest
      = (lexer.fresh.run lexer.rest).shifted count := Scan.shifted_run lexer.rest lexer.fresh
  simp only [nextLine, hrun]
  simp only [nextLine] at h
  split at h
  · rename_i line hline
    obtain ⟨rfl, rfl⟩ := Prod.mk.inj h
    simp only [Scan.Outcome.shifted, hline, Except.map]
    rfl
  · rename_i cause hcause
    obtain ⟨rfl, rfl⟩ := Prod.mk.inj h
    simp only [Scan.Outcome.shifted, hcause, Except.map]
    rfl

/-- A text that begins further down has the same lines, further down. -/
theorem shifted_lines (count : Nat) (lexer : Lexer) : (lexer.shifted count).lines
    = shiftedAnswer count (List.map (Line.shifted count)) lexer.lines := by
  fun_induction Lexer.lines lexer with
  | case1 lexer fault after hline => exact lines_of_error (shifted_nextLine hline)
  | case2 lexer after hline => exact lines_of_none (shifted_nextLine hline)
  | case3 lexer line after hline _ ih =>
      rw [lines_of_some (shifted_nextLine hline), ih]
      cases after.lines <;> rfl

end Lexer

/-! ### What follows a text -/

/-- A token ends the line, so nothing that follows can go on with it. -/
def Line.IsEnded (line : Line) : Prop :=
  ∃ last ∈ line.tokens.getLast?, last = ";" ∨ last = "\x7b" ∨ last = "\x7d"

/-- Nothing but `empty` has no characters. -/
def Draft.Bare (draft : Draft) : Prop :=
  draft.chars = [] → draft = .empty

theorem Draft.Moves.bare {draft next : Draft} (h : draft.Moves next) (hwhole : draft.Whole)
    (hbare : draft.Bare) : next.Bare := by
  induction h with
  | keep => exact hbare
  | flush =>
      intro hchars
      rw [chars_flush] at hchars
      rw [hbare hchars]
      rfl
  | push c line =>
      intro hchars
      simp at hchars
  | emit line hne =>
      intro hchars
      simp [hne] at hchars
  | @continued draft hfirst hlast =>
      intro hchars
      obtain ⟨first, rest, hmark, -, hdropped⟩ := exists_of_continued hfirst hlast
      simp only [chars, hdropped, charsOf_cons, List.append_eq_nil_iff] at hchars
      simp [isDirective, hchars.1.1] at hmark
  | trans hfirst _ ihfirst ihrest => exact ihrest (hfirst.whole hwhole) (ihfirst hwhole hbare)

/-- What holds within a line that began with so many parentheses open. -/
structure Scan.UnderWay (depth : Nat) (scan : Scan) : Prop where
  level : scan.Level depth
  sound : scan.Sound
  whole : scan.draft.Whole
  bare : scan.draft.Bare

/-- The machine takes the characters, and the line goes on after each of them. -/
inductive Scan.Passes : Scan → List Char → Scan → Prop where
  | nil {scan} : Passes scan [] scan
  | cons {scan next last c rest} : scan.step c = .more next → Passes next rest last →
      Passes scan (c :: rest) last

namespace Scan

variable {scan next last : Scan} {source init : List Char} {c : Char} {depth : Nat}

theorem underWay_fresh (lexer : Lexer) : lexer.fresh.UnderWay lexer.depth where
  level := lexer.level_fresh
  sound := sound_fresh lexer
  whole := Draft.whole_empty
  bare _ := rfl

theorem UnderWay.step (h : scan.UnderWay depth) (hstep : scan.step c = .more next) :
    next.UnderWay depth := by
  have hlevel := level_step h.level h.sound c
  have hsound := sound_step h.sound c
  have hadvances := advances_step h.sound c
  rw [hstep] at hlevel hsound hadvances
  exact ⟨hlevel, hsound, hadvances.1.whole h.whole, hadvances.1.bare h.whole h.bare⟩

theorem Passes.underWay (h : scan.Passes source last) (hscan : scan.UnderWay depth) :
    last.UnderWay depth := by
  induction h with
  | nil => exact hscan
  | cons hstep _ ih => exact ih (hscan.step hstep)

theorem Passes.run_append (h : scan.Passes source last) (more : List Char) :
    scan.run (source ++ more) = last.run more := by
  induction h with
  | nil => rfl
  | cons hstep _ ih => rw [List.cons_append, run_of_more hstep, ih]

theorem Passes.run_eq (h : scan.Passes source last) : scan.run source = last.run [] := by
  have hrun := h.run_append []
  rwa [List.append_nil] at hrun

theorem Passes.exists_step (h : scan.Passes (init ++ [c]) last) :
    ∃ before, scan.Passes init before ∧ before.step c = .more last := by
  induction init generalizing scan with
  | nil =>
      cases h with
      | cons hstep hrest =>
          cases hrest
          exact ⟨scan, .nil, hstep⟩
  | cons d init ih =>
      cases h with
      | cons hstep hrest =>
          obtain ⟨before, hbefore, hlast⟩ := ih hrest
          exact ⟨before, .cons hstep hbefore, hlast⟩

/-- Either the characters leave the line open, or a line that they complete is the same whatever
    follows them. -/
theorem passes_or_stops (source : List Char) : ∀ scan : Scan, (∃ last, scan.Passes source last) ∨
    ∀ line more, (scan.run source).result = .ok line → scan.run (source ++ more)
      = { scan.run source with rest := (scan.run source).rest ++ more } := by
  induction source with
  | nil => exact fun scan => .inl ⟨scan, .nil⟩
  | cons c rest ih =>
      intro scan
      cases hstep : scan.step c with
      | more next =>
          rcases ih next with ⟨last, hlast⟩ | hstops
          · exact .inl ⟨last, .cons hstep hlast⟩
          · right
            intro line more hresult
            rw [List.cons_append, run_of_more hstep, run_of_more hstep] at *
            exact hstops line more hresult
      | done last =>
          right
          intro line more hresult
          rw [run, hstep] at hresult
          rw [List.cons_append, run, run, hstep]
          simp only at hresult ⊢
          split at hresult
          · cases hresult
          · rename_i hopen
            have hmore : ¬ ((rest ++ more).isEmpty && last.depth != 0) = true := by
              simp only [Bool.and_eq_true, List.isEmpty_iff, List.append_eq_nil_iff] at hopen ⊢
              exact fun hboth => hopen ⟨hboth.1.1, hboth.2⟩
            rw [if_neg hopen, if_neg hmore]
      | refused cause =>
          right
          intro line more hresult
          rw [run, hstep] at hresult
          cases hresult

/-- A run that gives no line has passed all the characters. -/
theorem passes_of_none (source : List Char) : ∀ {scan : Scan}, scan.UnderWay depth →
    (scan.run source).result = .ok none → ∃ last, scan.Passes source last := by
  induction source with
  | nil => exact fun _ _ => ⟨_, .nil⟩
  | cons c rest ih =>
      intro scan h hresult
      rw [run] at hresult
      split at hresult
      · rename_i next hstep
        obtain ⟨last, hlast⟩ := ih (h.step hstep) hresult
        exact ⟨last, .cons hstep hlast⟩
      · rename_i last hstep
        split at hresult
        · cases hresult
        · obtain ⟨line, hline⟩ := exists_line_of_done h.level h.sound h.whole hstep
          cases hline.symm.trans (Except.ok.inj hresult)
      · cases hresult

/-- After a line feed the machine is outside comments and literals, if the source may end there. -/
theorem code_of_lineFeed {line : Option Line} (hstep : scan.step '\n' = .more last)
    (hend : last.atEnd = .ok line) : last.mode = .code := by
  have hfeed : ∀ {scan : Scan}, scan.lineFeed = .more last → last.mode = .code := by
    intro scan h
    unfold lineFeed at h
    simp only at h
    split at h
    · split at h
      · cases h
        rfl
      · cases h
    · cases h
      rfl
  obtain ⟨mode, draft, number, depth⟩ := scan
  cases mode with
  | code | slash | lineComment => exact hfeed hstep
  | blockComment | blockStar | escape =>
      cases hstep
      cases hend
  | literal quote start text =>
      simp only [step] at hstep
      split at hstep
      · cases hstep
        rfl
      · cases hstep
        cases hend
  | includeName => cases hstep

/-- Outside comments and literals, the machine is back where it began if nothing is left for a
    line. -/
theorem UnderWay.eq_fresh (h : last.UnderWay depth) (hcode : last.mode = .code)
    (hend : last.atEnd = .ok none) : last = ⟨.code, .empty, last.line, 0⟩ := by
  obtain ⟨mode, draft, number, depth⟩ := last
  obtain rfl : mode = .code := hcode
  simp only [atEnd] at hend
  split at hend
  · rename_i hdepth
    have htokens : draft.flush.tokens = [] :=
      h.whole.flush.tokens_eq_nil rfl (Except.ok.inj hend)
    have hchars : draft.chars = [] := by
      rw [← Draft.chars_flush, Draft.chars, htokens]
      rfl
    have hdraft : draft = .empty := h.bare hchars
    rw [hdraft, hdepth]
  · cases hend

/-- A text that ends with a line feed and leaves no line open has brought the machine back to where
    it began. -/
theorem Passes.eq_fresh {lexer : Lexer} (h : lexer.fresh.Passes lexer.rest last)
    (hfeed : ∀ c ∈ lexer.rest.getLast?, c = '\n') (hend : last.atEnd = .ok none) :
    last = ⟨.code, .empty, last.line, 0⟩ := by
  have hcode : last.mode = .code := by
    rcases List.eq_nil_or_concat' lexer.rest with hnil | ⟨init, c, hconcat⟩
    · rw [hnil] at h
      cases h
      rfl
    · rw [hconcat] at h hfeed
      obtain rfl : c = '\n' := hfeed c (by simp)
      obtain ⟨before, -, hstep⟩ := h.exists_step
      exact code_of_lineFeed hstep hend
  exact (h.underWay (underWay_fresh lexer)).eq_fresh hcode hend

end Scan

/-- A token that ends a line leaves no parentheses to close after it. -/
theorem Line.IsEnded.foldlM_ne {line : Line} (h : line.IsEnded) (depth : Nat) :
    line.tokens.foldlM lineStep depth ≠ some 0 := by
  obtain ⟨last, hlast, hends⟩ := h
  obtain ⟨init, hinit⟩ := List.getLast?_eq_some_iff.mp hlast
  rw [hinit]
  intro hfold
  obtain ⟨between, -, hstep⟩ := foldlM_append_eq_some_iff.1 hfold
  replace hstep : lineStep between last = some 0 := by simpa using hstep
  rcases hends with rfl | rfl | rfl
  · rw [show lineStep between ";" = if between = 0 then none else some between from rfl] at hstep
    split at hstep
    · cases hstep
    · rename_i hopen
      exact hopen (Option.some.inj hstep)
  · cases hstep
  · cases hstep

namespace Lexer

variable {lexer other after : Lexer} {lines : List Line} {before : List Char}

/-- The same place, with more to come after the source. -/
def followed (lexer : Lexer) (more : List Char) : Lexer :=
  { lexer with rest := lexer.rest ++ more }

/-- The place where `more` begins as a text of its own, further down by what is left. -/
def skipped (lexer : Lexer) (more : List Char) : Lexer :=
  { lexer with rest := more, line := lexer.line + lexer.rest.count '\n', depth := 0 }

theorem lines_congr (h : lexer.nextLine = other.nextLine) : lexer.lines = other.lines := by
  rcases hnext : other.nextLine with ⟨result, after⟩
  rw [hnext] at h
  match result with
  | .error fault => rw [lines_of_error h, lines_of_error hnext]
  | .ok none => rw [lines_of_none h, lines_of_none hnext]
  | .ok (some line) => rw [lines_of_some h, lines_of_some hnext]

theorem skipped_of_nextLine {line : Option Line} (hline : lexer.line = numberAfter before)
    (h : lexer.nextLine = (.ok line, after)) (more : List Char) :
    after.skipped more = lexer.skipped more := by
  obtain ⟨taken, hcall⟩ := exists_callPlaced hline h
  have hcount : after.line + after.rest.count '\n' = lexer.line + lexer.rest.count '\n' := by
    rw [hcall.counter, hcall.rest, hline, numberAfter_append, List.count_append, Nat.add_assoc]
  rw [skipped, skipped, hcount, (result_of_nextLine h).2]

/-- A text that leaves no line open, and the machine where it began, is followed by a text of its
    own. -/
theorem nextLine_followed_of_none (hline : lexer.line = numberAfter before)
    (hback : ∀ last, lexer.fresh.Passes lexer.rest last → last.atEnd = .ok none →
      last = ⟨.code, .empty, last.line, 0⟩)
    (h : lexer.nextLine = (.ok none, after)) (more : List Char) :
    (lexer.followed more).nextLine = (lexer.skipped more).nextLine := by
  obtain ⟨hresult, hafter⟩ := result_of_nextLine h
  obtain ⟨last, hlast⟩ := Scan.passes_of_none lexer.rest (Scan.underWay_fresh lexer) hresult
  have hrun : lexer.fresh.run lexer.rest = last.run [] := hlast.run_eq
  have hrest : after.rest = [] := by rw [hafter, hrun]; rfl
  have hnumber : last.line = lexer.line + lexer.rest.count '\n' := by
    have hskipped := congrArg Lexer.line (skipped_of_nextLine hline h [])
    rw [skipped, hrest, hafter, hrun] at hskipped
    exact hskipped
  have hfresh : last = (lexer.skipped more).fresh := by
    rw [hrun] at hresult
    rw [hback last hlast hresult, hnumber]
    rfl
  have hfollowed : (lexer.followed more).fresh.run (lexer.followed more).rest
      = (lexer.skipped more).fresh.run (lexer.skipped more).rest :=
    (hlast.run_append more).trans (by rw [hfresh]; rfl)
  simp only [nextLine, hfollowed]
  rfl

/-- A line that is complete before the source ends is the same whatever follows. -/
theorem nextLine_followed_of_some {line : Line} (h : lexer.nextLine = (.ok (some line), after))
    (hcomplete : ¬ ∃ last, lexer.fresh.Passes lexer.rest last) (more : List Char) :
    (lexer.followed more).nextLine = (.ok (some line), after.followed more) := by
  obtain ⟨hresult, hafter⟩ := result_of_nextLine h
  have hstops := (Scan.passes_or_stops lexer.rest lexer.fresh).resolve_left hcomplete
  have hrun : (lexer.followed more).fresh.run (lexer.followed more).rest = _ :=
    hstops (some line) more hresult
  simp only [nextLine, hrun, hresult, hafter]
  rfl

/-- Only the end of the source would complete a line that is left open, but a token ends it. -/
theorem not_passes_of_isEnded {line : Line} (h : lexer.nextLine = (.ok (some line), after))
    (hended : after.rest = [] → line.IsEnded) :
    ¬ ∃ last, lexer.fresh.Passes lexer.rest last := by
  rintro ⟨last, hlast⟩
  obtain ⟨hresult, hafter⟩ := result_of_nextLine h
  have hrun : lexer.fresh.run lexer.rest = last.run [] := hlast.run_eq
  have hrest : after.rest = [] := by rw [hafter, hrun]; rfl
  rw [hrun] at hresult
  have hway := hlast.underWay (Scan.underWay_fresh lexer)
  obtain ⟨-, -, hfold⟩ := Scan.closed_of_atEnd hway.level hway.sound hresult
  exact (hended hrest).foldlM_ne lexer.depth hfold

/-- The lines of a text are followed by those of the next. -/
theorem lines_followed (hline : lexer.line = numberAfter before)
    (hfeed : ∀ c ∈ lexer.rest.getLast?, c = '\n') (h : lexer.lines = .ok lines)
    (hended : ∀ line ∈ lines.getLast?, line.IsEnded) (more : List Char) :
    (lexer.followed more).lines = (lexer.skipped more).lines.map (lines ++ ·) := by
  fun_induction Lexer.lines lexer generalizing lines before with
  | case1 => cases h
  | case2 lexer after hnext =>
      cases h
      have hback := fun last (hlast : lexer.fresh.Passes lexer.rest last) => hlast.eq_fresh hfeed
      rw [lines_congr (nextLine_followed_of_none hline hback hnext more)]
      cases (lexer.skipped more).lines <;> rfl
  | case3 lexer line after hnext _ ih =>
      obtain ⟨others, hothers, rfl⟩ := map_eq_ok_iff.1 h
      obtain ⟨taken, hcall⟩ := exists_callPlaced hline hnext
      have hfollowed : (lexer.followed more).nextLine = (.ok (some line), after.followed more) := by
        refine nextLine_followed_of_some hnext (not_passes_of_isEnded hnext fun hrest => ?_) more
        obtain rfl := lines_eq_nil hrest hothers
        exact hended line rfl
      have hafter : ∀ c ∈ after.rest.getLast?, c = '\n' := by
        intro c hc
        refine hfeed c ?_
        rw [hcall.rest, List.getLast?_append, hc]
        rfl
      have hlast : ∀ line ∈ others.getLast?, line.IsEnded := by
        intro line hmem
        refine hended line ?_
        rw [List.getLast?_cons, hmem]
        rfl
      rw [lines_of_some hfollowed, ih hcall.counter hafter hothers hlast,
        skipped_of_nextLine hline hnext]
      cases (lexer.skipped more).lines <;> rfl

end Lexer

/-- If a text ends with a line feed and a token ends its last line, then the lines of a text that
    follows are those that it has by itself, further down by the line feeds of the first.  Its fault
    is the same too, further down. -/
theorem tokenize_append {a b : String} {lines : List Line} (h : tokenize a = .ok lines)
    (hfeed : a.toList.getLast? = some '\n') (hended : ∀ line ∈ lines.getLast?, line.IsEnded) :
    tokenize (a ++ b) = match tokenize b with
      | .ok more => .ok (lines ++ more.map (Line.shifted (a.toList.count '\n')))
      | .error fault => .error (fault.shifted (a.toList.count '\n')) := by
  have hfollowed : (Lexer.ofText (a ++ b) none) = (Lexer.ofText a none).followed b.toList := by
    rw [Lexer.ofText, String.toList_append]
    rfl
  have hskipped : (Lexer.ofText a none).skipped b.toList
      = (Lexer.ofText b none).shifted (a.toList.count '\n') := rfl
  have hline : (Lexer.ofText a none).line = numberAfter [] := rfl
  have hlast : ∀ c ∈ (Lexer.ofText a none).rest.getLast?, c = '\n' :=
    fun c hc => Option.some.inj (hc.symm.trans hfeed)
  have hlines := Lexer.lines_followed hline hlast h hended b.toList
  rw [tokenize, hfollowed, hlines, hskipped, Lexer.shifted_lines, tokenize]
  cases (Lexer.ofText b none).lines <;> rfl

/-- A comment stands on either side of the place where the texts meet. -/
theorem tokenize_append_comments :
    tokenize ("state a \x7b // open \n" ++ "/* \n */ default;")
      = .ok [⟨1, ["state", "a", "\x7b"]⟩, ⟨3, ["default", ";"]⟩] :=
  have hlines : tokenize "state a \x7b // open \n" = .ok [⟨1, ["state", "a", "\x7b"]⟩] := by
    decide +kernel
  have hended : ∀ line ∈ [(⟨1, ["state", "a", "\x7b"]⟩ : Line)].getLast?, line.IsEnded := by
    rintro line ⟨⟩
    exact ⟨"\x7b", rfl, .inr (.inl rfl)⟩
  (tokenize_append hlines (by decide) hended).trans (by decide +kernel)

end LslFront
