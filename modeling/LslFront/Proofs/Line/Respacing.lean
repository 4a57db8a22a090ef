import LslFront.Proofs.Line.Grouping

/-!
# Tokens with single blanks between them

A source without directives says the same as its tokens with a blank between neighbours: read
again, they are the same tokens and end their lines at the same places.  A token that is read on
its own is read whole, whatever it was cut out of, and where lines end depends on the tokens alone.
-/

namespace LslFront

namespace Lexer

variable {lexer after : Lexer} {line : Line}

theorem lines_of_some (h : lexer.nextLine = (.ok (some line), after)) :
    lexer.lines = after.lines.map (line :: ·) := by
  rw [Lexer.lines]
  split <;> simp_all

theorem lines_of_none (h : lexer.nextLine = (.ok none, after)) : lexer.lines = .ok [] := by
  rw [Lexer.lines]
  split <;> simp_all

theorem lines_of_error {fault : Fault} (h : lexer.nextLine = (.error fault, after)) :
    lexer.lines = .error fault := by
  rw [Lexer.lines]
  split <;> simp_all

theorem nextLine_of_run {scan : Scan} {result : Option Line}
    (h : lexer.fresh.run lexer.rest = scan.run [])
    (hresult : scan.atEnd = .ok result) :
    ∃ after, lexer.nextLine = (.ok result, after) ∧ after.rest = [] ∧ after.depth = scan.depth := by
  have houtcome : lexer.fresh.run lexer.rest = ⟨.ok result, [], scan.line, scan.depth⟩ := by
    rw [h, Scan.run, hresult]
  refine ⟨{ lexer with rest := [], line := scan.line, depth := scan.depth }, ?_, rfl, rfl⟩
  simp only [nextLine, houtcome]

/-- Nothing but perhaps a blank is left. -/
theorem lines_of_end (hdepth : lexer.depth = 0) (hrest : lexer.rest = [] ∨ lexer.rest = [' ']) :
    lexer.lines = .ok [] := by
  have hend : lexer.fresh.atEnd = .ok none := by
    simp [Scan.atEnd, fresh, hdepth, Draft.flush, Draft.empty, Draft.line?]
  have hrun : lexer.fresh.run lexer.rest = lexer.fresh.run [] := by
    rcases hrest with hrest | hrest
    · rw [hrest]
    · rw [hrest, lexer.holds_fresh.run_blank]
  obtain ⟨after, hnext, -, -⟩ := nextLine_of_run hrun hend
  exact lines_of_none hnext

end Lexer

/-! ### A blank at the end -/

namespace Scan

variable {scan : Scan}

/-- A blank at the end of a source takes no part in what the end completes. -/
theorem step_blank (h : scan.Sound) : ∃ next, scan.step ' ' = .more next ∧
    next.line = scan.line ∧ next.depth = scan.depth ∧
    ∀ line, next.atEnd = .ok line → scan.atEnd = .ok line := by
  obtain ⟨mode, draft, number, depth⟩ := scan
  have hmode := h.2
  cases mode with
  | code =>
      refine ⟨_, rfl, rfl, rfl, fun line hend => ?_⟩
      simpa [atEnd, Draft.flush] using hend
  | slash =>
      refine ⟨_, rfl, rfl, rfl, fun line hend => ?_⟩
      simpa [atEnd, Draft.flush, keepSlash] using hend
  | lineComment => exact ⟨_, rfl, rfl, rfl, fun _ hend => hend⟩
  | blockComment => exact ⟨_, rfl, rfl, rfl, fun _ hend => hend⟩
  | blockStar => exact ⟨_, rfl, rfl, rfl, fun _ hend => hend⟩
  | literal quote start text =>
      have hquote : ' ' ≠ quote := by
        rcases hmode.1 with rfl | rfl <;> decide
      have hstep := @step_of_literal ⟨.literal quote start text, draft, number, depth⟩ _ _ _ rfl ' '
      rw [if_neg hquote] at hstep
      exact ⟨_, hstep, rfl, rfl, fun _ hend => by cases hend⟩
  | escape quote start text => exact ⟨_, rfl, rfl, rfl, fun _ hend => by cases hend⟩
  | includeName start name => exact ⟨_, rfl, rfl, rfl, fun _ hend => by cases hend⟩

/-- What a run over a source with a blank at its end gives, it gives without the blank, unless the
    blank is all that stands after a line that leaves parentheses open. -/
theorem run_without_blank (source : List Char) {line : Option Line} : ∀ {scan : Scan}, scan.Sound →
    (scan.run (source ++ [' '])).result = .ok line →
    ((scan.run (source ++ [' '])).rest = [' '] → (scan.run (source ++ [' '])).depth = 0) →
    ∃ rest, scan.run source = { scan.run (source ++ [' ']) with rest := rest } ∧
      ((scan.run (source ++ [' '])).rest = rest ++ [' '] ∨
        (scan.run (source ++ [' '])).rest = [] ∧ rest = []) := by
  induction source with
  | nil =>
      intro scan hsound h _
      obtain ⟨next, hstep, hline, hdepth, hend⟩ := step_blank hsound
      rw [List.nil_append, run_of_more hstep] at h ⊢
      refine ⟨[], ?_, .inr ⟨rfl, rfl⟩⟩
      simp only [run] at h ⊢
      rw [h, hend line h, hline, hdepth]
  | cons c rest ih =>
      intro scan hsound h hclosed
      have hnext := sound_step hsound c
      rw [List.cons_append, run] at h hclosed ⊢
      rw [run]
      cases hstep : scan.step c with
      | more next =>
          rw [hstep] at hnext
          simp only [hstep] at h hclosed ⊢
          exact ih hnext h hclosed
      | done last =>
          simp only [hstep] at h hclosed ⊢
          refine ⟨rest, ?_, .inl (by simp)⟩
          cases rest with
          | nil =>
              have hdepth : last.depth = 0 := by simpa using hclosed
              simp [hdepth]
          | cons d rest => simp
      | refused cause =>
          simp only [hstep] at h
          cases h

end Scan

namespace Lexer

variable {lexer after : Lexer}

theorem depth_of_lines_blank {lines : List Line} (hrest : lexer.rest = [' '])
    (h : lexer.lines = .ok lines) : lexer.depth = 0 := by
  by_contra hdepth
  have hrun : lexer.fresh.run lexer.rest = lexer.fresh.run [] := by
    rw [hrest, lexer.holds_fresh.run_blank]
  have hend : lexer.fresh.atEnd = .error .openParenthesis := if_neg hdepth
  obtain ⟨after, hnext⟩ : ∃ after, lexer.nextLine
      = (.error ⟨.lexical .openParenthesis lexer.name, lexer.line⟩, after) := by
    simp only [nextLine, hrun, Scan.run, hend]
    exact ⟨_, rfl⟩
  rw [lines_of_error hnext] at h
  cases h

theorem nextLine_without_blank {source : List Char} {result : Option Line}
    (hrest : lexer.rest = source ++ [' ']) (h : lexer.nextLine = (.ok result, after))
    (hclosed : after.rest = [' '] → after.depth = 0) :
    ∃ rest, nextLine { lexer with rest := source } = (.ok result, { after with rest := rest }) ∧
      (after.rest = rest ++ [' '] ∨ after.rest = [] ∧ rest = []) := by
  simp only [nextLine, hrest] at h
  split at h
  · rename_i found hfound
    obtain ⟨rfl, rfl⟩ : found = result ∧ _ = after := by simpa using h
    obtain ⟨rest, hrun, hleft⟩ :=
      Scan.run_without_blank source (Scan.sound_fresh lexer) hfound hclosed
    refine ⟨rest, ?_, hleft⟩
    have hfresh : fresh { lexer with rest := source } = lexer.fresh := rfl
    simp only [nextLine, hfresh, hrun, hfound]
  · simp at h

theorem lines_without_blank {lines : List Line} (h : lexer.lines = .ok lines) :
    ∀ {source : List Char}, lexer.rest = source ++ [' '] →
      Lexer.lines { lexer with rest := source } = .ok lines := by
  fun_induction Lexer.lines lexer generalizing lines with
  | case1 => cases h
  | case2 lexer after hline =>
      intro source hrest
      cases h
      have hclosed : after.rest = [' '] → after.depth = 0 := by
        intro hblank
        rw [(ended_of_nextLine hline).2] at hblank
        cases hblank
      obtain ⟨rest, hnext, -⟩ := nextLine_without_blank hrest hline hclosed
      exact lines_of_none hnext
  | case3 lexer line after hline _ ih =>
      intro source hrest
      obtain ⟨others, hothers, rfl⟩ := map_eq_ok_iff.1 h
      have hclosed : after.rest = [' '] → after.depth = 0 :=
        fun hblank => depth_of_lines_blank hblank hothers
      obtain ⟨rest, hnext, hleft⟩ := nextLine_without_blank hrest hline hclosed
      rw [lines_of_some hnext]
      rcases hleft with hleft | ⟨hleft, rfl⟩
      · rw [ih hothers hleft]
        rfl
      · have hsame : { after with rest := [] } = after := by rw [← hleft]
        rw [hsame, hothers]
        rfl

end Lexer

/-! ### Reading respaced lines -/

theorem Lexer.lines_of_grouped {depth : Nat} {lines : List (List String)}
    (h : Grouped depth lines) : ∀ {lexer : Lexer}, lexer.depth = depth →
      lexer.rest = spaced lines.flatten ∨ lexer.rest = ' ' :: spaced lines.flatten →
      ∃ given, lexer.lines = .ok given ∧ given.map Line.tokens = lines := by
  induction h with
  | nil => exact fun hdepth hrest => ⟨[], lines_of_end hdepth hrest, rfl⟩
  | @line depth after tokens lines hline _ ih =>
      intro lexer hdepth hrest
      subst hdepth
      have hspaced : spaced (tokens :: lines).flatten = spaced tokens ++ spaced lines.flatten := by
        simp [spaced]
      rw [hspaced] at hrest
      obtain ⟨number, next, hnext, hleft, hafter⟩ := nextLine_of_isLine hline hrest
      obtain ⟨given, hgiven, htokens⟩ := ih hafter (.inr hleft)
      refine ⟨⟨number, tokens⟩ :: given, ?_, by rw [List.map_cons, htokens]⟩
      rw [lines_of_some hnext, hgiven]
      rfl
  | @last depth tokens hne htokens hplain hdepth =>
      intro lexer hopened hrest
      subst hopened
      have hfresh := lexer.holds_fresh
      obtain ⟨last, hlast, hrun⟩ := Scan.run_tokens htokens hfresh hplain hdepth
      obtain ⟨number, hline⟩ := hlast.exists_line? (by simpa using hne)
      have houtcome : lexer.fresh.run lexer.rest = last.run [] := by
        have hspaced : spaced [tokens].flatten = spaced tokens ++ [] := by simp
        rw [hspaced] at hrest
        rcases hrest with hrest | hrest
        · rw [hrest, hrun]
        · rw [hrest, hfresh.run_blank, hrun]
      have hend : last.atEnd = .ok (some ⟨number, tokens⟩) := by
        rw [Scan.atEnd, hlast.code]
        simp only [hlast.opened, if_true]
        rw [hlast.flush_eq, hline, List.nil_append]
      obtain ⟨after, hnext, hleft, hafter⟩ := nextLine_of_run houtcome hend
      have hclosed : after.depth = 0 := hafter.trans hlast.opened
      refine ⟨[⟨number, tokens⟩], ?_, rfl⟩
      rw [lines_of_some hnext, lines_of_end hclosed (.inl hleft)]
      rfl

/-- What is written out with a blank after each token has one after the last token, too. -/
theorem spaced_eq_intercalate {tokens : List String} (h : tokens ≠ []) :
    spaced tokens = (String.intercalate " " tokens).toList ++ [' '] := by
  induction tokens with
  | nil => exact absurd rfl h
  | cons token rest ih =>
      cases rest with
      | nil => simp [spaced]
      | cons next more =>
          have hcons : spaced (token :: next :: more)
              = token.toList ++ ' ' :: spaced (next :: more) := by simp [spaced]
          rw [hcons, ih (by simp)]
          simp [String.toList_intercalate]

/-- Lines written out with a blank between neighbours are read as these lines. -/
theorem tokenize_of_grouped {groups : List (List String)} (h : Grouped 0 groups) :
    ∃ lines, tokenize (String.intercalate " " groups.flatten) = .ok lines ∧
      lines.map Line.tokens = groups := by
  by_cases hempty : groups.flatten = []
  · obtain ⟨given, hgiven, htokens⟩ := @Lexer.lines_of_grouped _ _ h
      (Lexer.ofText "" none) rfl (.inl (by simp [hempty, spaced, Lexer.ofText]))
    refine ⟨given, ?_, htokens⟩
    rw [hempty]
    exact hgiven
  · obtain ⟨given, hgiven, htokens⟩ := @Lexer.lines_of_grouped _ _ h
      ⟨spaced groups.flatten, 1, 0, false, none⟩ rfl (.inl rfl)
    exact ⟨given, Lexer.lines_without_blank hgiven (spaced_eq_intercalate hempty), htokens⟩

/-- The tokens of a source that begins no line with a directive, with a blank between neighbours,
    are read as the same tokens in the same lines. -/
theorem tokenize_respaced {source : String} {lines : List Line} (h : tokenize source = .ok lines)
    (hplain : ∀ line ∈ lines, ∀ first ∈ line.tokens.head?, isDirective first = false) :
    ∃ again, tokenize (String.intercalate " " (lines.flatMap Line.tokens)) = .ok again ∧
      again.map Line.tokens = lines.map Line.tokens := by
  rw [List.flatMap_def]
  exact tokenize_of_grouped (Lexer.grouped_lines h hplain)

/-- Signs and points beside names and numbers, and a `;` between parentheses. -/
theorem tokenize_respaced_signs :
    let lines : List Line := [⟨1, ["x", "=", "a", "++", "+", "b", ";"]⟩,
      ⟨1, ["y", "#", "z", "(", "'p\n'", ",", "1.", ";", ".5e+3", ")", "\x7b"]⟩, ⟨2, ["k", "/"]⟩]
    tokenize "x=a+++b/**/;y#z('p\n',1.;.5e+3)\x7bk/" = .ok lines ∧
      ∃ again,
        tokenize "x = a ++ + b ; y # z ( 'p\n' , 1. ; .5e+3 ) \x7b k /" = .ok again ∧
        again.map Line.tokens = lines.map Line.tokens := by
  intro lines
  have hlines : tokenize "x=a+++b/**/;y#z('p\n',1.;.5e+3)\x7bk/" = .ok lines := by decide +kernel
  have hplain : ∀ line ∈ lines, ∀ first ∈ line.tokens.head?, isDirective first = false := by
    decide +kernel
  obtain ⟨again, hagain, htokens⟩ := tokenize_respaced hlines hplain
  have hjoined : String.intercalate " " (lines.flatMap Line.tokens)
      = "x = a ++ + b ; y # z ( 'p\n' , 1. ; .5e+3 ) \x7b k /" := by cbv
  rw [hjoined] at hagain
  exact ⟨hlines, again, hagain, htokens⟩

end LslFront
