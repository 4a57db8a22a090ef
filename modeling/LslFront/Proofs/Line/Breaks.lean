import LslFront.Proofs.Line.Grouping

/-!
# Lines and parentheses

Parentheses are counted over all tokens of a source, whatever lines these stand in.  A source that
can be cut into lines closes what it opens and nothing else, and the count says where its lines
end: after every brace and after every `;` that no parenthesis is open around.  A line that ends
elsewhere is a directive or the last one.

The lexer counts line by line, and a directive that is continued loses a token on the way.  So what
a line adds to the count is read off the tokens that it is left with.
-/

namespace LslFront

/-! ### Counting -/

/-- How many more parentheses the tokens open than they close. -/
def parenBalance (tokens : List String) : Int :=
  tokens.count "(" - tokens.count ")"

@[simp] theorem parenBalance_nil : parenBalance [] = 0 := rfl

@[simp] theorem parenBalance_append (tokens more : List String) :
    parenBalance (tokens ++ more) = parenBalance tokens + parenBalance more := by
  simp only [parenBalance, List.count_append]
  omega

/-- Tokens lead from `depth` open parentheses to `after`, and never close one that is not open. -/
structure Counts (depth : Nat) (tokens : List String) (after : Nat) : Prop where
  total : (after : Int) = depth + parenBalance tokens
  nonneg : ∀ before, before <+: tokens → 0 ≤ depth + parenBalance before

namespace Counts

variable {depth between after : Nat} {tokens more : List String}

theorem nil (depth : Nat) : Counts depth [] depth where
  total := by simp
  nonneg := by
    intro before hprefix
    rw [List.prefix_nil.mp hprefix]
    simp

theorem single {token : String} (h : (after : Int) = depth + parenBalance [token]) :
    Counts depth [token] after where
  total := h
  nonneg := by
    intro before hprefix
    rcases List.prefix_cons_iff.mp hprefix with rfl | ⟨rest, rfl, hrest⟩
    · simp
    · rw [List.prefix_nil.mp hrest, ← h]
      exact Int.natCast_nonneg after

theorem append (hfirst : Counts depth tokens between) (hrest : Counts between more after) :
    Counts depth (tokens ++ more) after where
  total := by
    rw [parenBalance_append, hrest.total, hfirst.total, Int.add_assoc]
  nonneg := by
    intro before hprefix
    rcases List.prefix_or_prefix_of_prefix hprefix (List.prefix_append tokens more) with
      hinner | ⟨part, rfl⟩
    · exact hfirst.nonneg before hinner
    · have hpart := hrest.nonneg part ((List.prefix_append_right_inj tokens).mp hprefix)
      rwa [parenBalance_append, ← Int.add_assoc, ← hfirst.total]

end Counts

theorem parenBalance_singleton (token : String) :
    parenBalance [token] = if token = "(" then 1 else if token = ")" then -1 else 0 := by
  have hopening : [token].count "(" = if token = "(" then 1 else 0 := by
    simp [List.count_singleton, beq_iff_eq]
  have hclosing : [token].count ")" = if token = ")" then 1 else 0 := by
    simp [List.count_singleton, beq_iff_eq]
  rw [parenBalance, hopening, hclosing]
  split
  · rename_i h
    simp [h]
  · split <;> simp

theorem counts_of_lineStep {depth after : Nat} {token : String}
    (h : lineStep depth token = some after) : Counts depth [token] after := by
  apply Counts.single
  rw [parenBalance_singleton]
  unfold lineStep at h
  grind

theorem counts_of_endsLine {depth : Nat} {token : String} (h : EndsLine depth token) :
    Counts depth [token] depth := by
  apply Counts.single
  rw [parenBalance_singleton]
  rcases h with rfl | rfl | ⟨rfl, -⟩ <;> simp

theorem counts_of_foldlM {depth after : Nat} {tokens : List String}
    (h : tokens.foldlM lineStep depth = some after) : Counts depth tokens after := by
  induction tokens generalizing depth with
  | nil =>
      obtain rfl : depth = after := Option.some.inj h
      exact .nil depth
  | cons token rest ih =>
      obtain ⟨between, hstep, hrest⟩ := foldlM_cons_eq_some_iff.1 h
      exact (counts_of_lineStep hstep).append (ih hrest)

/-- No token inside of a line could have ended it. -/
theorem exists_of_foldlM {depth after : Nat} {before rest : List String} {token : String}
    (h : (before ++ token :: rest).foldlM lineStep depth = some after) :
    ∃ between, Counts depth before between ∧ ¬ EndsLine between token := by
  obtain ⟨between, hbefore, hrest⟩ := foldlM_append_eq_some_iff.1 h
  obtain ⟨_, hstep, -⟩ := foldlM_cons_eq_some_iff.1 hrest
  refine ⟨between, counts_of_foldlM hbefore, ?_⟩
  rintro (rfl | rfl | ⟨rfl, rfl⟩) <;> cases hstep

/-! ### Where lines break -/

/-- After the tokens of `before`, the token ends a line. -/
def BreaksAfter (before : List String) (token : String) : Prop :=
  token = "\x7b" ∨ token = "\x7d" ∨ token = ";" ∧ parenBalance before = 0

theorem Counts.endsLine_iff {before : List String} {depth : Nat} (h : Counts 0 before depth)
    (token : String) : EndsLine depth token ↔ BreaksAfter before token := by
  have htotal : parenBalance before = depth := by simpa using h.total.symm
  rw [EndsLine, BreaksAfter, htotal, Int.natCast_eq_zero]

/-- Lines that break where they have to, and nowhere else. -/
structure LineBreaks (lines : List (List String)) : Prop where
  nonneg : ∀ before, before <+: lines.flatten → 0 ≤ parenBalance before
  closed : parenBalance lines.flatten = 0
  ne_nil : ∀ tokens ∈ lines, tokens ≠ []
  /-- Nothing follows in its line on a token that ends lines. -/
  last : ∀ earlier before token rest later,
    lines = earlier ++ (before ++ token :: rest) :: later →
      BreaksAfter (earlier.flatten ++ before) token → rest = []
  /-- A line before others is a directive or stops at such a token. -/
  ended : ∀ earlier tokens later, lines = earlier ++ tokens :: later → later ≠ [] →
    tokens.head?.any isDirective ∨
      ∃ before token, tokens = before ++ [token] ∧ BreaksAfter (earlier.flatten ++ before) token

namespace Arranged

variable {depth : Nat} {tokens : List String} {lines earlier later : List (List String)}

theorem ne_nil (h : Arranged depth (tokens :: later)) : tokens ≠ [] := by
  cases h with
  | ended => simp
  | directive hdirective =>
      rintro rfl
      cases hdirective
  | last hne => exact hne

theorem tail (h : Arranged depth (tokens :: later)) :
    ∃ between, Counts depth tokens between ∧ Arranged between later := by
  cases h with
  | ended hinit hends hlater =>
      exact ⟨_, (counts_of_foldlM hinit).append (counts_of_endsLine hends), hlater⟩
  | directive _ htokens hlater => exact ⟨_, counts_of_foldlM htokens, hlater⟩
  | last _ htokens => exact ⟨0, counts_of_foldlM htokens, .nil⟩

/-- The lines after some others are arranged, with what is open by then. -/
theorem of_append (h : Arranged depth (earlier ++ later)) :
    ∃ between, Counts depth earlier.flatten between ∧ Arranged between later := by
  induction earlier generalizing depth with
  | nil => exact ⟨depth, .nil depth, h⟩
  | cons tokens rest ih =>
      obtain ⟨inner, htokens, hrest⟩ := tail h
      obtain ⟨between, hcounts, hlater⟩ := ih hrest
      exact ⟨between, htokens.append hcounts, hlater⟩

theorem counts (h : Arranged depth lines) : Counts depth lines.flatten 0 := by
  rw [← List.append_nil lines] at h
  obtain ⟨between, hcounts, hnil⟩ := of_append h
  cases hnil
  exact hcounts

/-- A token that ends lines where it stands is the last one of its line. -/
theorem exists_of_token {before rest : List String} {token : String}
    (h : Arranged depth ((before ++ token :: rest) :: later)) :
    ∃ between, Counts depth before between ∧ (EndsLine between token → rest = []) := by
  -- Unless it is the last one, it is among those that the line was continued after.
  have hinner : ∀ {more : List String} {after : Nat},
      (before ++ token :: more).foldlM lineStep depth = some after →
      ∃ between, Counts depth before between ∧ (EndsLine between token → rest = []) := by
    intro more after hfold
    obtain ⟨between, hcounts, hnot⟩ := exists_of_foldlM hfold
    exact ⟨between, hcounts, fun hends => absurd hends hnot⟩
  generalize hline : before ++ token :: rest = tokens at h
  cases h with
  | @ended _ after init last _ hinit hends _ =>
      rcases List.eq_nil_or_concat rest with rfl | ⟨more, final, rfl⟩
      · obtain ⟨rfl, -⟩ := List.append_inj' hline rfl
        exact ⟨after, counts_of_foldlM hinit, fun _ => rfl⟩
      · have hinit' : init = before ++ token :: more := by
          rw [List.concat_eq_append, ← List.cons_append, ← List.append_assoc] at hline
          exact (List.append_inj' hline rfl).1.symm
        rw [hinit'] at hinit
        exact hinner hinit
  | directive _ hfold _ =>
      rw [← hline] at hfold
      exact hinner hfold
  | last _ hfold =>
      rw [← hline] at hfold
      exact hinner hfold

theorem lineBreaks (h : Arranged 0 lines) : LineBreaks lines where
  nonneg := by
    intro before hprefix
    simpa using h.counts.nonneg before hprefix
  closed := by simpa using h.counts.total.symm
  ne_nil := by
    intro tokens hmem
    obtain ⟨earlier, later, rfl⟩ := List.append_of_mem hmem
    obtain ⟨_, -, hlater⟩ := h.of_append
    exact ne_nil hlater
  last := by
    rintro earlier before token rest later rfl hbreaks
    obtain ⟨between, hearlier, hlater⟩ := h.of_append
    obtain ⟨after, hbefore, hends⟩ := exists_of_token hlater
    exact hends (((hearlier.append hbefore).endsLine_iff token).mpr hbreaks)
  ended := by
    rintro earlier tokens later rfl hlater
    obtain ⟨between, hearlier, hline⟩ := h.of_append
    cases hline with
    | ended hinit hends _ =>
        right
        have hcounts := hearlier.append (counts_of_foldlM hinit)
        exact ⟨_, _, rfl, (hcounts.endsLine_iff _).mp hends⟩
    | directive hdirective _ _ => exact .inl hdirective
    | last => exact absurd rfl hlater

end Arranged

/-- A source that can be cut into lines is cut where its braces and its parentheses say. -/
theorem tokenize_lineBreaks {source : String} {lines : List Line} (h : tokenize source = .ok lines) :
    LineBreaks (lines.map Line.tokens) :=
  (Lexer.arranged_lines h).lineBreaks

/-- A directive that is continued, a parenthesis that stays open over two lines, and a line that
    only the source ends. -/
theorem tokenize_lineBreaks_open :
    let lines : List Line := [⟨1, ["#a", "(", "b"]⟩, ⟨3, [";", ")", "c", ";"]⟩,
      ⟨3, ["for", "(", "i", ";", "j", "\x7b"]⟩, ⟨3, [";", "k", "\x7d"]⟩, ⟨4, [")", "x"]⟩]
    tokenize "#a(\\\nb\n;)c;for(i;j\x7b;k\x7d\n)x" = .ok lines ∧
      LineBreaks (lines.map Line.tokens) := by
  intro lines
  have hlines : tokenize "#a(\\\nb\n;)c;for(i;j\x7b;k\x7d\n)x" = .ok lines := by decide +kernel
  exact ⟨hlines, tokenize_lineBreaks hlines⟩

end LslFront
