import LslFront.Proofs.Line.Gathering
import LslFront.Proofs.Line.Writing

/-!
# Where lines end

A logical line goes on until a token ends it: a brace, or a `;` outside of parentheses.  Apart from
that only a line feed can end a line that begins with a directive, and the source the last line.
The parentheses are counted from line to line, and none is open at the end.
-/

namespace LslFront

/-- How a line of these tokens ends, if `depth` parentheses are open before it, and so many after
    it, where `rest` is to come. -/
inductive Ends (depth : Nat) : List String → Nat → List Char → Prop where
  | token {init : List String} {last : String} {after : Nat} {rest : List Char} :
      init.foldlM lineStep depth = some after → EndsLine after last →
      Ends depth (init ++ [last]) after rest
  | lineFeed {tokens : List String} {after : Nat} {rest : List Char} :
      tokens.head?.any isDirective → tokens.foldlM lineStep depth = some after →
      Ends depth tokens after rest
  | source {tokens : List String} : tokens.foldlM lineStep depth = some 0 → Ends depth tokens 0 []

/-! ### Tokens that end no line -/

theorem foldlM_lineStep_of_not_mark {tokens : List String}
    (h : ∀ token ∈ tokens, token ∉ markTokens) (depth : Nat) :
    tokens.foldlM lineStep depth = some depth := by
  induction tokens with
  | nil => rfl
  | cons token rest ih =>
      obtain ⟨htoken, hrest⟩ := List.forall_mem_cons.mp h
      rw [List.foldlM_cons, lineStep_of_not_mark htoken]
      exact ih hrest

theorem foldlM_lineStep_concat {init : List String} {token : String} {depth between after : Nat}
    (hinit : init.foldlM lineStep depth = some between) (h : lineStep between token = some after) :
    (init ++ [token]).foldlM lineStep depth = some after := by
  simp [List.foldlM_append, hinit, h]

/-! ### Drafts -/

/-- The complete tokens of the line lead from `depth` open parentheses to those of the state. -/
def Scan.Level (depth : Nat) (scan : Scan) : Prop :=
  scan.draft.tokens.foldlM lineStep depth = some scan.depth

def ScanStep.Level (depth : Nat) : ScanStep → Prop
  | .more next => next.Level depth
  | .done last => ∀ rest, Ends depth last.draft.tokens last.depth rest
  | .refused _ => True

namespace Scan

variable {scan next : Scan} {depth : Nat} {c : Char}

theorem foldlM_flush (h : scan.Level depth) (hsound : scan.draft.Sound) :
    scan.draft.flush.tokens.foldlM lineStep depth = some scan.depth := by
  have hword : ∀ token ∈ splitWord scan.draft.word, token ∉ markTokens :=
    fun token hmem => not_mark_of_raw (hsound.isRaw_of_mem hmem)
  rw [Draft.flush, List.foldlM_append, h]
  exact foldlM_lineStep_of_not_mark hword scan.depth

theorem level_flush (h : scan.Level depth) (hsound : scan.draft.Sound)
    (hdraft : next.draft = scan.draft.flush) (hdepth : next.depth = scan.depth) :
    next.Level depth := by
  rw [Level, hdraft, hdepth]
  exact foldlM_flush h hsound

theorem level_emit (h : scan.Level depth) (hsound : scan.draft.Sound) {token : String}
    {line : Nat} (hdraft : next.draft = scan.draft.emit token line)
    (hstep : lineStep scan.depth token = some next.depth) : next.Level depth := by
  rw [Level, hdraft]
  exact foldlM_lineStep_concat (foldlM_flush h hsound) hstep

theorem level_lineFeed (h : scan.Level depth) (hsound : scan.draft.Sound) :
    scan.lineFeed.Level depth := by
  have hflush := foldlM_flush h hsound
  unfold lineFeed
  simp only
  split
  · rename_i hdirective
    split
    · rename_i hlast
      -- The backslash that is dropped did not change the count.
      obtain ⟨rest, hrest⟩ := List.getLast?_eq_some_iff.mp hlast
      rw [hrest] at hflush
      obtain ⟨between, hbetween, hstep⟩ := foldlM_append_eq_some_iff.1 hflush
      obtain rfl : between = scan.depth := Option.some.inj hstep
      simpa only [ScanStep.Level, Level, hrest, List.dropLast_concat] using hbetween
    · exact fun _ => .lineFeed hdirective hflush
  · exact hflush

theorem level_codeStep (h : scan.Level depth) (hsound : scan.draft.Sound) (c : Char) :
    (scan.codeStep c).Level depth := by
  have hcases := scan.onCode_codeStep c
  generalize scan.codeStep c = step at hcases ⊢
  cases hcases with
  | blank => exact level_flush h hsound rfl rfl
  | lineFeed => exact level_lineFeed h hsound
  | slash => exact h
  | quote => exact h
  | mark _ hstep => exact level_emit h hsound rfl hstep
  | ending hends => exact fun _ => .token (foldlM_flush h hsound) hends
  | unmatched => trivial
  | includeName => exact h
  | word => exact h

theorem level_step (h : scan.Level depth) (hsound : scan.Sound) (c : Char) :
    (scan.step c).Level depth := by
  have hmode := hsound.2
  unfold step
  split
  · exact level_codeStep h hsound.1 c
  · split
    · exact level_flush h hsound.1 rfl rfl
    · exact level_flush h hsound.1 rfl rfl
    · exact @level_codeStep scan.keepSlash _ h (sound_keepSlash hsound.1) c
  · split
    · exact level_lineFeed h hsound.1
    · exact h
  · exact h
  · split
    · exact h
    · exact h
    · exact h
  · rename_i quote start text heq
    rw [heq] at hmode
    obtain ⟨hquote, body, htext, -⟩ := hmode
    simp only
    split
    · have hmark : text.push c ∉ markTokens := not_mark_of_quote hquote (by simp [htext])
      exact level_emit h hsound.1 rfl (lineStep_of_not_mark hmark scan.depth)
    · exact h
  · exact h
  · split
    · refine level_emit h hsound.1 rfl (lineStep_of_not_mark ?_ scan.depth)
      exact not_mark_of_quote (.inl rfl) (by simp [show toString "\"" = "\"" from rfl])
    · trivial
    · exact h

/-- A line that the end of the source completes has closed its parentheses. -/
theorem closed_of_atEnd {line : Line} (h : scan.Level depth) (hsound : scan.Sound)
    (hend : scan.atEnd = .ok (some line)) :
    scan.depth = 0 ∧ line.tokens ≠ [] ∧ line.tokens.foldlM lineStep depth = some 0 := by
  obtain ⟨hdepth, hline⟩ := atEnd_eq_ok hend
  refine ⟨hdepth, ?_⟩
  rw [← hdepth]
  rcases hline with hline | hline
  · obtain ⟨htokens, hne⟩ := Draft.tokens_of_line? hline.symm
    rw [htokens]
    exact ⟨hne, foldlM_flush h hsound.1⟩
  · obtain ⟨htokens, hne⟩ := Draft.tokens_of_line? hline.symm
    rw [htokens]
    exact ⟨hne, @foldlM_flush scan.keepSlash _ h (sound_keepSlash hsound.1)⟩

/-- A line that a run gives ends as lines do. -/
theorem ends_run (source : List Char) {line : Line} : ∀ {scan : Scan}, scan.Level depth →
    scan.Sound → (scan.run source).result = .ok (some line) →
    line.tokens ≠ [] ∧ Ends depth line.tokens (scan.run source).depth (scan.run source).rest := by
  induction source with
  | nil =>
      intro scan h hsound hresult
      obtain ⟨hdepth, hne, hfold⟩ := closed_of_atEnd h hsound hresult
      rw [run, hdepth]
      exact ⟨hne, .source hfold⟩
  | cons c rest ih =>
      intro scan h hsound hresult
      have hlevel := level_step h hsound c
      have hnext := sound_step hsound c
      rw [run] at hresult ⊢
      split at hresult
      · rename_i next hstep
        rw [hstep] at hlevel hnext
        exact ih hlevel hnext hresult
      · rename_i last hstep
        rw [hstep] at hlevel
        split at hresult
        · cases hresult
        · rename_i hopen
          obtain ⟨htokens, hne⟩ := Draft.tokens_of_line? (Except.ok.inj hresult)
          rw [if_neg hopen, htokens]
          exact ⟨hne, hlevel rest⟩
      · cases hresult

/-- What completes a line before the end of the source has left a token in it. -/
theorem exists_line_of_done {last : Scan} (h : scan.Level depth) (hsound : scan.Sound)
    (hwhole : scan.draft.Whole) (hstep : scan.step c = .done last) :
    ∃ line, last.draft.line? = some line := by
  have hlevel := level_step h hsound c
  have hadvances := advances_step hsound c
  rw [hstep] at hlevel hadvances
  cases hline : last.draft.line? with
  | some line => exact ⟨line, rfl⟩
  | none =>
      have hlast := (hadvances.1.whole hwhole).tokens_eq_nil hadvances.2.2 hline
      have hends := hlevel [c]
      rw [hlast] at hends
      generalize hnil : ([] : List String) = tokens at hends
      generalize last.depth = after at hends
      cases hends with
      | token => simp at hnil
      | lineFeed hdirective => simp [← hnil] at hdirective

/-- A run that gives no line has come to the end of the source with no parenthesis open. -/
theorem ended_of_run (source : List Char) : ∀ {scan : Scan}, scan.Level depth → scan.Sound →
    scan.draft.Whole → (scan.run source).result = .ok none →
    depth = 0 ∧ (scan.run source).rest = [] := by
  induction source with
  | nil =>
      intro scan h hsound hwhole hresult
      obtain ⟨hdepth, hline⟩ := atEnd_eq_ok hresult
      refine ⟨?_, rfl⟩
      rcases hline with hline | hline
      · have hnone := hwhole.flush.tokens_eq_nil rfl hline.symm
        have hflush := foldlM_flush h hsound.1
        rw [hnone, hdepth] at hflush
        exact Option.some.inj hflush
      · have hkeep : scan.keepSlash.draft.Whole := hwhole.push '/' scan.line
        have hnone := hkeep.flush.tokens_eq_nil rfl hline.symm
        have hflush := @foldlM_flush scan.keepSlash _ h (sound_keepSlash hsound.1)
        rw [hnone, show scan.keepSlash.depth = 0 from hdepth] at hflush
        exact Option.some.inj hflush
  | cons c rest ih =>
      intro scan h hsound hwhole hresult
      have hlevel := level_step h hsound c
      have hnext := sound_step hsound c
      have hadvances := advances_step hsound c
      rw [run] at hresult ⊢
      split at hresult
      · rename_i next hstep
        rw [hstep] at hlevel hnext hadvances
        exact ih hlevel hnext (hadvances.1.whole hwhole) hresult
      · rename_i last hstep
        split at hresult
        · cases hresult
        · obtain ⟨line, hline⟩ := exists_line_of_done h hsound hwhole hstep
          cases hline.symm.trans (Except.ok.inj hresult)
      · cases hresult

end Scan

/-! ### All lines -/

/-- The tokens of lines, one line after the other, with `depth` parentheses open before them and
    none after them.  A line stops at the token that ends it, at the line feed of a directive, or,
    if it is the last one, where the source ends. -/
inductive Arranged : Nat → List (List String) → Prop where
  | nil : Arranged 0 []
  | ended {depth after : Nat} {init : List String} {last : String} {lines : List (List String)} :
      init.foldlM lineStep depth = some after → EndsLine after last → Arranged after lines →
      Arranged depth ((init ++ [last]) :: lines)
  | directive {depth after : Nat} {tokens : List String} {lines : List (List String)} :
      tokens.head?.any isDirective → tokens.foldlM lineStep depth = some after →
      Arranged after lines → Arranged depth (tokens :: lines)
  | last {depth : Nat} {tokens : List String} : tokens ≠ [] →
      tokens.foldlM lineStep depth = some 0 → Arranged depth [tokens]

/-- The same for lines that begin with no directive: only the last line may be ended by the
    source. -/
inductive Grouped : Nat → List (List String) → Prop where
  | nil : Grouped 0 []
  | line {depth after : Nat} {tokens : List String} {lines : List (List String)} :
      IsLine depth tokens after → Grouped after lines → Grouped depth (tokens :: lines)
  | last {depth : Nat} {tokens : List String} : tokens ≠ [] → (∀ token ∈ tokens, LexedToken token) →
      (∀ first ∈ tokens.head?, isDirective first = false) →
      tokens.foldlM lineStep depth = some 0 → Grouped depth [tokens]

theorem Arranged.grouped {depth : Nat} {lines : List (List String)} (h : Arranged depth lines)
    (hlexed : ∀ tokens ∈ lines, LexedTokens tokens)
    (hplain : ∀ tokens ∈ lines, ∀ first ∈ tokens.head?, isDirective first = false) :
    Grouped depth lines := by
  have hnone : ∀ tokens ∈ lines, ¬ tokens.head?.any isDirective := by
    intro tokens hmem hany
    obtain ⟨first, hhead, hdirective⟩ := (Option.any_eq_true _ _).mp hany
    rw [hplain tokens hmem first hhead] at hdirective
    cases hdirective
  have hall : ∀ tokens ∈ lines, ∀ token ∈ tokens, LexedToken token :=
    fun tokens hmem => (hlexed tokens hmem).resolve_right (hnone tokens hmem)
  clear hlexed
  induction h with
  | nil => exact .nil
  | ended hinit hends _ ih =>
      obtain ⟨hfirst, hplain⟩ := List.forall_mem_cons.mp hplain
      obtain ⟨-, hnone⟩ := List.forall_mem_cons.mp hnone
      obtain ⟨htokens, hall⟩ := List.forall_mem_cons.mp hall
      exact .line ⟨htokens, hfirst, _, _, rfl, hinit, hends⟩ (ih hplain hnone hall)
  | directive hany => exact absurd hany (hnone _ List.mem_cons_self)
  | last hne hdepth =>
      exact .last hne (hall _ List.mem_cons_self) (hplain _ List.mem_cons_self) hdepth

namespace Lexer

variable {lexer after : Lexer}

theorem level_fresh (lexer : Lexer) : lexer.fresh.Level lexer.depth := rfl

theorem ends_nextLine {line : Line} (h : lexer.nextLine = (.ok (some line), after)) :
    line.tokens ≠ [] ∧ Ends lexer.depth line.tokens after.depth after.rest := by
  obtain ⟨hresult, rfl⟩ := result_of_nextLine h
  exact Scan.ends_run lexer.rest (level_fresh lexer) (Scan.sound_fresh lexer) hresult

theorem ended_of_nextLine (h : lexer.nextLine = (.ok none, after)) :
    lexer.depth = 0 ∧ after.rest = [] := by
  obtain ⟨hresult, rfl⟩ := result_of_nextLine h
  exact Scan.ended_of_run lexer.rest (level_fresh lexer) (Scan.sound_fresh lexer)
    Draft.whole_empty hresult

theorem lines_eq_nil {lines : List Line} (hrest : lexer.rest = []) (h : lexer.lines = .ok lines) :
    lines = [] := by
  rw [Lexer.lines] at h
  split at h
  · cases h
  · exact (Except.ok.inj h).symm
  · rename_i line next hline
    have hlt := nextLine_rest_lt hline
    simp [hrest] at hlt

theorem arranged_lines {lines : List Line} (h : lexer.lines = .ok lines) :
    Arranged lexer.depth (lines.map Line.tokens) := by
  fun_induction Lexer.lines lexer generalizing lines with
  | case1 => cases h
  | case2 lexer after hline =>
      cases h
      rw [(ended_of_nextLine hline).1]
      exact .nil
  | case3 lexer line after hline _ ih =>
      obtain ⟨others, hothers, rfl⟩ := map_eq_ok_iff.1 h
      have hrest := ih hothers
      obtain ⟨hne, hends⟩ := ends_nextLine hline
      rw [List.map_cons]
      generalize line.tokens = tokens at hne hends ⊢
      generalize after.depth = depth at hends hrest
      generalize hleft : after.rest = rest at hends
      cases hends with
      | token hinit hend => exact .ended hinit hend hrest
      | lineFeed hany hdepth => exact .directive hany hdepth hrest
      | source hsource =>
          obtain rfl := lines_eq_nil hleft hothers
          exact .last hne hsource

theorem grouped_lines {lines : List Line} (h : lexer.lines = .ok lines)
    (hplain : ∀ line ∈ lines, ∀ first ∈ line.tokens.head?, isDirective first = false) :
    Grouped lexer.depth (lines.map Line.tokens) := by
  apply (arranged_lines h).grouped
  · exact List.forall_mem_map.mpr (lexedTokens_of_lines h)
  · exact List.forall_mem_map.mpr hplain

end Lexer

end LslFront
