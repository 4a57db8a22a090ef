import LslFront.Proofs.Block.Header
import LslFront.Proofs.Resolved.Tokens

/-!
# Which bracket ends a header

A header is cut out of its line by one count for round and square brackets together.  It ends where
the count comes back to zero, and the bracket that stands there may be of either kind, as may each
one that closes another on the way.  Where a line does begin with a parenthesis that is properly
closed, what is cut out is what stands between that parenthesis and the one that matches it.
-/

namespace LslFront

/-! ### Proper nesting -/

/-- Each round and each square bracket is closed by one of its own kind, and what stands between the
    two is nested by itself. -/
inductive Nested : List String → Prop where
  | nil : Nested []
  | token {token : String} : opensBracket token = false → closesBracket token = false →
      Nested [token]
  | append {tokens more : List String} : Nested tokens → Nested more → Nested (tokens ++ more)
  | round {inner : List String} : Nested inner → Nested ("(" :: (inner ++ [")"]))
  | square {inner : List String} : Nested inner → Nested ("[" :: (inner ++ ["]"]))

theorem Nested.balanced {tokens : List String} (h : Nested tokens) :
    Balanced bracketStep tokens := by
  induction h with
  | nil => exact .nil
  | token hopen hclose => exact .token fun depth => by simp [bracketStep, hopen, hclose]
  | append _ _ ihtokens ihmore => exact ihtokens.append ihmore
  | round _ ih => exact ih.bracketed (fun _ => rfl) (fun _ => rfl)
  | square _ ih => exact ih.bracketed (fun _ => rfl) (fun _ => rfl)

/-- An expression is nested.  So where a header is resolved as one, only the bracket that ended it
    has been left unchecked. -/
theorem nested_of_resolveTokens {scope : Scope} {tokens : List String} {value : Resolved}
    (h : resolveTokens scope tokens = .ok value) : Nested tokens := by
  refine written_of_resolveTokens .nil ?_ (fun _ _ => .append) ?_ h
  · intro token hplain
    exact .token (not_opens_of_isPlain hplain) (not_closes_of_isPlain hplain)
  · intro opening closing inner hpair hinner
    simp only [List.mem_cons, List.not_mem_nil, or_false, Prod.mk.injEq] at hpair
    rcases hpair with ⟨rfl, rfl⟩ | ⟨rfl, rfl⟩ | ⟨rfl, rfl⟩
    · exact .round hinner
    · exact .square hinner
    · have hopening : Nested ["<"] := .token (by decide) (by decide)
      have hclosing : Nested [">"] := .token (by decide) (by decide)
      exact hopening.append (hinner.append hclosing)

/-! ### What is cut out -/

section

variable {keyword : String} {tokens header inner rest after : List String} {depth between : Nat}

/-- With one more bracket open around them, tokens count alike. -/
theorem foldlM_bracketStep_succ (h : tokens.foldlM bracketStep depth = some between) :
    tokens.foldlM bracketStep (depth + 1) = some (between + 1) := by
  induction tokens generalizing depth with
  | nil =>
      obtain rfl : depth = between := Option.some.inj h
      rfl
  | cons token rest ih =>
      obtain ⟨middle, hstep, hrest⟩ := foldlM_cons_eq_some_iff.1 h
      refine foldlM_cons_eq_some_iff.2 ⟨middle + 1, ?_, ih hrest⟩
      unfold bracketStep at hstep ⊢
      grind

theorem balanced_of_foldlM (h : tokens.foldlM bracketStep 0 = some 0) :
    Balanced bracketStep tokens := by
  intro depth
  induction depth with
  | zero => exact h
  | succ depth ih => exact foldlM_bracketStep_succ ih

/-- A header stops at the first bracket that closes more than has been opened. -/
theorem cutHeader_eq_ok (h : cutHeader keyword (depth + 1) tokens = .ok (header, rest)) :
    ∃ close, closesBracket close ∧ tokens = header ++ close :: rest ∧
      header.foldlM bracketStep depth = some 0 ∧ isUncontrolled header := by
  induction tokens generalizing depth header with
  | nil => cases h
  | cons token others ih =>
      cases hstep : bracketStep depth token with
      | none =>
          obtain ⟨hclose, rfl⟩ := bracketStep_eq_none_iff.1 hstep
          rw [Nat.zero_add, cutHeader_of_closes hclose] at h
          cases h
          exact ⟨token, hclose, rfl, rfl, rfl⟩
      | some inner =>
          cases hcontrol : Builtin.isControl token with
          | true =>
              rw [cutHeader_of_isControl hcontrol] at h
              cases h
          | false =>
              rw [cutHeader_of_step hstep hcontrol] at h
              obtain ⟨⟨found, after⟩, hfound, heq⟩ := map_eq_ok_iff.1 h
              obtain ⟨rfl, rfl⟩ := Prod.mk.inj heq
              obtain ⟨close, hclose, rfl, hcount, hfree⟩ := ih hfound
              refine ⟨close, hclose, rfl, ?_, ?_⟩
              · rw [List.foldlM_cons, hstep]
                exact hcount
              · rw [isUncontrolled, List.all_cons, hcontrol]
                exact hfree

/-- What is cut out is balanced as far as the count goes, and free of control words. -/
theorem splitHeader_eq_ok_iff : splitHeader keyword tokens = .ok (header, rest) ↔
    (∃ close, closesBracket close ∧ tokens = "(" :: (header ++ close :: rest)) ∧
      Balanced bracketStep header ∧ isUncontrolled header := by
  constructor
  · intro h
    unfold splitHeader at h
    split at h
    · cases h
    · split at h
      · rename_i token others hopen
        have hcut : cutHeader keyword (0 + 1) others = .ok (header, rest) := h
        obtain ⟨close, hclose, rfl, hcount, hfree⟩ := cutHeader_eq_ok hcut
        exact ⟨⟨close, hclose, by rw [hopen]⟩, balanced_of_foldlM hcount, hfree⟩
      · cases h
  · rintro ⟨⟨close, hclose, rfl⟩, hbalanced, hfree⟩
    exact splitHeader_of_closes keyword rest hclose hbalanced hfree

/-- Nothing that is balanced goes on behind a bracket that closes more than has been opened. -/
theorem not_balanced_of_closes {close : String} (hheader : Balanced bracketStep header)
    (hclose : closesBracket close) : ¬ Balanced bracketStep (header ++ close :: rest) := by
  intro h
  have hcount := h 0
  have hstep : bracketStep 0 close = none := bracketStep_eq_none_iff.2 ⟨hclose, rfl⟩
  rw [List.foldlM_append, hheader 0, Option.bind_eq_bind, Option.bind_some, List.foldlM_cons, hstep]
    at hcount
  cases hcount

/-- There is one place only where a balanced header can be closed. -/
theorem header_unique {close closing : String} (hheader : Balanced bracketStep header)
    (hinner : Balanced bracketStep inner) (hclose : closesBracket close)
    (hclosing : closesBracket closing)
    (h : header ++ close :: rest = inner ++ closing :: after) :
    header = inner ∧ close = closing ∧ rest = after := by
  rcases List.append_eq_append_iff.mp h with ⟨more, rfl, hmore⟩ | ⟨more, rfl, hmore⟩
  · cases more with
    | nil => simpa using hmore
    | cons token more =>
        obtain ⟨rfl, -⟩ := List.cons.inj hmore
        exact absurd hinner (not_balanced_of_closes hheader hclose)
  · cases more with
    | nil => simpa [eq_comm] using hmore
    | cons token more =>
        obtain ⟨rfl, -⟩ := List.cons.inj hmore
        exact absurd hheader (not_balanced_of_closes hinner hclosing)

end

/-- A header ends where the count of both kinds of brackets does.  It ends at the parenthesis that
    matches its own, and is nested by itself, if the tokens begin with a parenthesis that is properly
    closed anywhere. -/
theorem splitHeader_matches {keyword : String} {tokens header rest : List String}
    (h : splitHeader keyword tokens = .ok (header, rest)) :
    (∃ close, closesBracket close ∧ tokens = "(" :: (header ++ close :: rest)) ∧
      Balanced bracketStep header ∧
      (tokens = "(" :: (header ++ ")" :: rest) ∧ Nested header ↔
        ∃ inner after, tokens = "(" :: (inner ++ ")" :: after) ∧ Nested inner) := by
  obtain ⟨⟨close, hclose, htokens⟩, hbalanced, -⟩ := splitHeader_eq_ok_iff.1 h
  refine ⟨⟨close, hclose, htokens⟩, hbalanced, ?_, ?_⟩
  · rintro ⟨hmatched, hnested⟩
    exact ⟨header, rest, hmatched, hnested⟩
  · rintro ⟨inner, after, hmatched, hnested⟩
    obtain ⟨-, hcut⟩ := List.cons.inj (htokens.symm.trans hmatched)
    obtain ⟨rfl, -, rfl⟩ := header_unique hbalanced hnested.balanced hclose (by decide) hcut
    exact ⟨hmatched, hnested⟩

/-- A header with brackets of both kinds in it, and brackets of the body behind it. -/
theorem splitHeader_matches_nested :
    let tokens := ["(", "f", "(", "[", "a", "]", ")", ")", "g", "(", "b", ")", ";"]
    splitHeader "if" tokens = .ok (["f", "(", "[", "a", "]", ")"], ["g", "(", "b", ")", ";"]) ∧
      Nested ["f", "(", "[", "a", "]", ")"] := by
  intro tokens
  have hsplit : splitHeader "if" tokens
      = .ok (["f", "(", "[", "a", "]", ")"], ["g", "(", "b", ")", ";"]) := by decide
  have hcall : Nested (["f"] ++ "(" :: (["[", "a", "]"] ++ [")"])) := by
    refine .append (.token ?_ ?_) (.round (.square (.token ?_ ?_))) <;> decide
  exact ⟨hsplit, ((splitHeader_matches hsplit).2.2.mpr ⟨_, _, rfl, hcall⟩).2⟩

/-- A square bracket can end a header, and in it a parenthesis can close a square bracket. -/
theorem splitHeader_crosses :
    let tokens := ["(", "[", "a", ")", "]", "\x7b"]
    splitHeader "while" tokens = .ok (["[", "a", ")"], ["\x7b"]) ∧
      tokens ≠ "(" :: (["[", "a", ")"] ++ ")" :: ["\x7b"]) := by
  decide

end LslFront
