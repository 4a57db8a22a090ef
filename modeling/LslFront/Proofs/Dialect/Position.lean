import LslFront.Proofs.Dialect.Leading
import LslFront.Proofs.Line.Settled

/-!
# Where the leading block ends

The lines of the leading block are told apart from the rest of a script without the lexer, by looking
at source lines only.  Still no logical line is complete before the block ends: what the lexer
gathers there is blank.  So the block ends before the source line on which the first logical line is
complete, and nothing that stands on that source line or below it counts for the dialect.
-/

namespace LslFront

/-! ### Reading the block -/

namespace Scan

variable {scan middle last : Scan} {line more : List Char} {c : Char}

theorem Passes.append (h : scan.Passes line middle) (hmore : middle.Passes more last) :
    scan.Passes (line ++ more) last := by
  induction h with
  | nil => exact hmore
  | cons hstep _ ih => exact .cons hstep (ih hmore)

theorem Passes.exists_of_append (h : scan.Passes (line ++ more) last) :
    ∃ middle, scan.Passes line middle := by
  induction line generalizing scan with
  | nil => exact ⟨scan, .nil⟩
  | cons c rest ih =>
      cases h with
      | cons hstep hrest =>
          obtain ⟨middle, hmiddle⟩ := ih hrest
          exact ⟨middle, .cons hstep hmiddle⟩

/-- Nothing but blanks has been gathered of the line. -/
def OnlyBlanks (scan : Scan) : Prop :=
  ∀ c ∈ scan.draft.chars, Text.isBlank c

/-- Outside comments and literals, with nothing but blanks gathered. -/
structure Idle (scan : Scan) : Prop where
  code : scan.mode = .code
  blanks : scan.OnlyBlanks

/-- Blanks make no directive. -/
theorem OnlyBlanks.not_isDirective (h : scan.OnlyBlanks) :
    isDirective (scan.draft.tokens.head?.getD scan.draft.word) = false := by
  cases hdirective : isDirective (scan.draft.tokens.head?.getD scan.draft.word) with
  | false => rfl
  | true =>
      have hmem : '#' ∈ scan.draft.chars := by
        have hhead := List.mem_of_mem_head? (Option.mem_def.mpr (beq_iff_eq.mp hdirective))
        rw [Draft.chars]
        cases htokens : scan.draft.tokens with
        | nil => simpa [htokens] using hhead
        | cons first rest =>
            rw [htokens] at hhead
            simp [show '#' ∈ first.toList from hhead]
      exact absurd (h '#' hmem) (by decide)

/-- A line feed after blanks. -/
theorem OnlyBlanks.lineFeed (h : scan.OnlyBlanks) :
    ∃ next, scan.lineFeed = .more next ∧ next.Idle := by
  have hflushed : OnlyBlanks { scan with draft := scan.draft.flush } := by
    rw [OnlyBlanks, Draft.chars_flush]
    exact h
  have hplain : scan.draft.flush.isPreprocessor = false := by
    have hnot := hflushed.not_isDirective
    rw [Draft.isPreprocessor]
    cases hhead : scan.draft.flush.tokens.head? with
    | none => rfl
    | some first => simpa [hhead] using hnot
  refine ⟨⟨.code, scan.draft.flush, scan.line + 1, scan.depth⟩, ?_, rfl, hflushed⟩
  simp [Scan.lineFeed, hplain]

theorem Idle.step_blank (h : scan.Idle) (hc : Text.isBlank c) (hfeed : c ≠ '\n') :
    ∃ next, scan.step c = .more next ∧ next.Idle := by
  rw [step_of_code h.code]
  by_cases hmark : c ∈ codeMarks
  · have hall : ∀ mark ∈ codeMarks, Text.isBlank mark → mark ∈ [' ', '\t', '\r', '\n'] := by
      have hmarks : codeMarks.all
          (fun mark => !Text.isBlank mark || [' ', '\t', '\r', '\n'].contains mark) := by decide
      intro mark hmem hblank
      simpa [hblank] using List.all_eq_true.mp hmarks mark hmem
    have hflushed : OnlyBlanks { scan with draft := scan.draft.flush } := by
      rw [OnlyBlanks, Draft.chars_flush]
      exact h.blanks
    refine ⟨{ scan with draft := scan.draft.flush }, ?_, h.code, hflushed⟩
    have hspace := hall c hmark hc
    simp only [List.mem_cons, List.not_mem_nil, or_false] at hspace
    rcases hspace with rfl | rfl | rfl | rfl
    · rfl
    · rfl
    · rfl
    · exact absurd rfl hfeed
  · refine ⟨_, codeStep_raw hmark (Draft.isInclude_eq_false h.blanks.not_isDirective), h.code, ?_⟩
    intro d hd
    rw [Draft.chars_push] at hd
    rcases List.mem_append.mp hd with hd | hd
    · exact h.blanks d hd
    · rwa [List.mem_singleton.mp hd]

theorem Idle.passes_blanks (h : scan.Idle) (hline : ∀ c ∈ line, Text.isBlank c)
    (hfeed : '\n' ∉ line) : ∃ last, scan.Passes line last ∧ last.Idle := by
  induction line generalizing scan with
  | nil => exact ⟨scan, .nil, h⟩
  | cons c rest ih =>
      obtain ⟨hc, hrest⟩ := List.forall_mem_cons.mp hline
      rw [List.mem_cons, not_or] at hfeed
      obtain ⟨next, hstep, hnext⟩ := h.step_blank hc (Ne.symm hfeed.1)
      obtain ⟨last, hlast, hidle⟩ := ih hnext hrest hfeed.2
      exact ⟨last, .cons hstep hlast, hidle⟩

theorem passes_lineComment (hmode : scan.mode = .lineComment) (hfeed : '\n' ∉ line) :
    scan.Passes line scan := by
  induction line with
  | nil => exact .nil
  | cons c rest ih =>
      rw [List.mem_cons, not_or] at hfeed
      refine .cons ?_ (ih hfeed.2)
      rw [step.eq_def, hmode]
      simp only [if_neg (Ne.symm hfeed.1)]

/-- A line of the block is passed, and the line feed after it. -/
theorem Idle.passes_leading (h : scan.Idle) (hline : IsLeading line) (hfeed : '\n' ∉ line) :
    ∃ last, scan.Passes line last ∧ ∃ next, last.step '\n' = .more next ∧ next.Idle := by
  cases hline with
  | blank hblanks =>
      obtain ⟨last, hlast, hidle⟩ := h.passes_blanks hblanks hfeed
      refine ⟨last, hlast, ?_⟩
      rw [step_of_code hidle.code]
      exact hidle.blanks.lineFeed
  | @comment indent text hindent =>
      simp only [List.mem_append, List.mem_cons, not_or] at hfeed
      obtain ⟨opening, hopening, hidle⟩ := h.passes_blanks hindent hfeed.1
      let slash : Scan := { opening with mode := .slash }
      let inside : Scan := { opening with mode := .lineComment, draft := opening.draft.flush }
      have hslash : opening.step '/' = .more slash := by
        rw [step_of_code hidle.code]
        rfl
      have hinside : inside.Passes text inside := passes_lineComment rfl hfeed.2.2.2
      refine ⟨inside, hopening.append (.cons hslash (.cons rfl hinside)), ?_⟩
      have hblanks : inside.OnlyBlanks := by
        rw [OnlyBlanks, Draft.chars_flush]
        exact hidle.blanks
      exact hblanks.lineFeed

theorem Idle.passes_lines (h : scan.Idle) {lines : List (List Char)}
    (hlines : ∀ line ∈ lines, IsLeading line ∧ '\n' ∉ line) :
    ∃ last, scan.Passes (lines.flatMap (· ++ ['\n'])) last ∧ last.Idle := by
  induction lines generalizing scan with
  | nil => exact ⟨scan, .nil, h⟩
  | cons line rest ih =>
      obtain ⟨⟨hline, hfeed⟩, hrest⟩ := List.forall_mem_cons.mp hlines
      obtain ⟨middle, hmiddle, next, hstep, hnext⟩ := h.passes_leading hline hfeed
      obtain ⟨last, hlast, hidle⟩ := ih hnext hrest
      refine ⟨last, ?_, hidle⟩
      rw [List.flatMap_cons]
      exact (hmiddle.append (.cons hstep .nil)).append hlast

end Scan

/-! ### The end of the block -/

theorem intercalate_append_cons {sep : Char} (lines : List (List Char)) (last : List Char)
    (more : List (List Char)) : [sep].intercalate (lines ++ last :: more)
      = lines.flatMap (· ++ [sep]) ++ [sep].intercalate (last :: more) := by
  induction lines with
  | nil => rfl
  | cons line rest ih =>
      rw [List.cons_append, List.flatMap_cons, List.append_assoc, ← ih]
      cases rest with
      | nil => simp
      | cons next others => simp

theorem intercalate_cons_append {sep : Char} (start last : List Char) (more : List (List Char)) :
    [sep].intercalate ((start ++ last) :: more) = start ++ [sep].intercalate (last :: more) := by
  cases more <;> simp

section

variable {text : String} {lines : List Line} {above : List (List Char)} {start : List Char}

/-- A text that completes a line does not end within the block. -/
theorem not_isLeading_of_settled (h : LeavesNothingOpen text) (hlines : tokenize text = .ok lines)
    (hne : lines ≠ []) (htext : text.toList = above.flatMap (· ++ ['\n']) ++ start)
    (habove : ∀ line ∈ above, IsLeading line ∧ '\n' ∉ line) {rest : List Char}
    (hfeed : '\n' ∉ start ++ rest) : ¬ IsLeading (start ++ rest) := by
  intro hleading
  have hidle : (Lexer.ofText text none).fresh.Idle := ⟨rfl, fun _ hc => by cases hc⟩
  obtain ⟨middle, hmiddle, hidle⟩ := hidle.passes_lines habove
  obtain ⟨_, hpasses, -⟩ := hidle.passes_leading hleading hfeed
  obtain ⟨last, hlast⟩ := hpasses.exists_of_append
  have hwhole : (Lexer.ofText text none).fresh.Passes text.toList last := by
    rw [htext]
    exact hmiddle.append hlast
  obtain ⟨found, number, hfound, hmark⟩ := h
  rw [tokenize, Lexer.ofText_append] at hmark
  have hlength := Lexer.length_lines_followed_le hwhole hmark
  obtain rfl : found = lines := Except.ok.inj (hfound.symm.trans hlines)
  rw [List.length_append] at hlength
  exact hne (List.length_eq_zero_iff.mp (by simpa using hlength))

/-- Of a text that completes a line, only the source lines above its end can be in the block,
    whatever follows the text. -/
theorem leadingLines_of_settled (h : LeavesNothingOpen text) (hlines : tokenize text = .ok lines)
    (hne : lines ≠ []) (htext : text.toList = above.flatMap (· ++ ['\n']) ++ start)
    (habove : ∀ line ∈ above, '\n' ∉ line) (hstart : '\n' ∉ start) (more : String) :
    leadingLines (text ++ more)
      = (above.map Text.trim).takeWhile isLeadingLine := by
  obtain ⟨pieces, hpieces, hfeeds, hmore⟩ := exists_separated '\n' more.toList
  obtain ⟨rest, below, rfl⟩ := List.exists_cons_of_ne_nil hpieces
  obtain ⟨hrest, hbelow⟩ := List.forall_mem_cons.mp hfeeds
  have hcut : '\n' ∉ start ++ rest := by simp [hstart, hrest]
  have hsource : (text ++ more).toList
      = ['\n'].intercalate (above ++ (start ++ rest) :: below) := by
    rw [String.toList_append, htext, hmore, intercalate_append_cons, intercalate_cons_append,
      List.append_assoc]
  have hall : ∀ line ∈ above ++ (start ++ rest) :: below, '\n' ∉ line :=
    List.forall_mem_append.mpr ⟨habove, List.forall_mem_cons.mpr ⟨hcut, hbelow⟩⟩
  rw [leadingLines, hsource, List.splitOn_intercalate '\n' hall (by simp), List.map_append,
    List.takeWhile_append]
  split
  · rename_i hwhole
    -- All lines above are in the block, so the line where the text ends is not.
    have hleads : ∀ line ∈ above.map Text.trim, isLeadingLine line :=
      List.takeWhile_eq_self_iff.mp (List.IsPrefix.eq_of_length (List.takeWhile_prefix _) hwhole)
    have hleading : ∀ line ∈ above, IsLeading line ∧ '\n' ∉ line := fun line hmem =>
      ⟨isLeadingLine_trim_iff.1 (hleads _ (List.mem_map_of_mem hmem)), habove line hmem⟩
    have hends := not_isLeading_of_settled h hlines hne htext hleading hcut
    rw [← isLeadingLine_trim_iff] at hends
    rw [List.map_cons, List.takeWhile_cons_of_neg hends, List.append_nil]
    exact (List.takeWhile_eq_self_iff.mpr hleads).symm
  · rfl

theorem exists_above (text : List Char) : ∃ (above : List (List Char)) (start : List Char),
    (∀ line ∈ above, '\n' ∉ line) ∧ '\n' ∉ start ∧
      text = above.flatMap (· ++ ['\n']) ++ start := by
  obtain ⟨lines, hne, hlines, rfl⟩ := exists_separated '\n' text
  rcases List.eq_nil_or_concat' lines with rfl | ⟨above, start, rfl⟩
  · exact absurd rfl hne
  · obtain ⟨habove, hstart⟩ := List.forall_mem_append.mp hlines
    refine ⟨above, start, habove, hstart start List.mem_cons_self, ?_⟩
    simp [intercalate_append_cons]

end

/-- Two texts that go on behind the same text on its last source line, and complete lines there, can
    be exchanged in a script without changing the block. -/
theorem leadingLines_exchange {before first second : String}
    (hfirst : LeavesNothingOpen (before ++ first)) (hsecond : LeavesNothingOpen (before ++ second))
    (hfirstLines : tokenize (before ++ first) ≠ .ok [])
    (hsecondLines : tokenize (before ++ second) ≠ .ok [])
    (hfirstFeed : '\n' ∉ first.toList) (hsecondFeed : '\n' ∉ second.toList) (after : String) :
    leadingLines (before ++ first ++ after) = leadingLines (before ++ second ++ after) := by
  obtain ⟨above, start, habove, hstart, hbefore⟩ := exists_above before.toList
  have hsettled : ∀ text : String, LeavesNothingOpen (before ++ text) →
      tokenize (before ++ text) ≠ .ok [] → '\n' ∉ text.toList →
      leadingLines (before ++ text ++ after)
        = (above.map Text.trim).takeWhile isLeadingLine := by
    intro text hopen hlines hfeed
    have ⟨lines, _, htokenize, _⟩ := hopen
    have htext : (before ++ text).toList
        = above.flatMap (· ++ ['\n']) ++ (start ++ text.toList) := by
      rw [String.toList_append, hbefore, List.append_assoc]
    refine leadingLines_of_settled hopen htokenize ?_ htext habove ?_ after
    · rintro rfl
      exact hlines htokenize
    · simp [hstart, hfeed]
  rw [hsettled first hfirst hfirstLines hfirstFeed, hsettled second hsecond hsecondLines hsecondFeed]

end LslFront
