import LslFront.Proofs.Line.Tokens
import LslFront.Proofs.Token.Text

/-!
# What a line under way has gathered

The characters of a line under way are those of its complete tokens and of the word that is not
yet split.  Splitting the word moves no character, so what the machine does to a draft either leaves
the characters as they are or puts some at their end; only the backslash that continues a
preprocessor line is taken back.
-/

namespace LslFront

namespace Draft

variable {draft : Draft} {line : Nat}

def chars (draft : Draft) : List Char :=
  charsOf draft.tokens ++ draft.word.toList

@[simp] theorem chars_empty : empty.chars = [] := rfl

@[simp] theorem chars_flush (draft : Draft) : draft.flush.chars = draft.chars := by
  simp [chars, flush]

@[simp] theorem chars_push (draft : Draft) (c : Char) (line : Nat) :
    (draft.push c line).chars = draft.chars ++ [c] := by
  simp [chars, push, mark]

@[simp] theorem chars_emit (draft : Draft) (token : String) (line : Nat) :
    (draft.emit token line).chars = draft.chars ++ token.toList := by
  simp [chars, emit, flush, mark]

@[simp] theorem first_flush (draft : Draft) : draft.flush.first = draft.first := rfl

@[simp] theorem first_push (draft : Draft) (c : Char) (line : Nat) :
    (draft.push c line).first = (draft.first <|> some line) := rfl

@[simp] theorem first_emit (draft : Draft) (token : String) (line : Nat) :
    (draft.emit token line).first = (draft.first <|> some line) := rfl

/-- No token is empty, and the line has its number as soon as anything has been gathered. -/
structure Whole (draft : Draft) : Prop where
  nonempty : ∀ token ∈ draft.tokens, token ≠ ""
  begun : draft.chars ≠ [] → draft.first.isSome

theorem whole_empty : empty.Whole where
  nonempty := by simp [empty]
  begun h := absurd rfl h

theorem Whole.flush (h : draft.Whole) : draft.flush.Whole where
  nonempty := by
    intro token hmem
    rcases List.mem_append.mp hmem with hmem | hmem
    · exact h.nonempty token hmem
    · exact ne_empty_of_mem_splitWord hmem
  begun hne := h.begun (by simpa using hne)

theorem isSome_orElse (first : Option Nat) (line : Nat) : (first <|> some line).isSome := by
  cases first <;> rfl

theorem Whole.push (h : draft.Whole) (c : Char) (line : Nat) : (draft.push c line).Whole where
  nonempty := h.nonempty
  begun _ := isSome_orElse _ _

theorem Whole.emit (h : draft.Whole) {token : String} (hne : token ≠ "") (line : Nat) :
    (draft.emit token line).Whole where
  nonempty := by
    intro found hmem
    rcases List.mem_append.mp hmem with hmem | hmem
    · exact h.flush.nonempty found hmem
    · rwa [List.mem_singleton.mp hmem]
  begun _ := isSome_orElse _ _

/-- The first token begins with the first character that has been gathered. -/
theorem Whole.head?_chars (h : draft.Whole) {first : String} {rest : List String}
    (htokens : draft.tokens = first :: rest) : draft.chars.head? = first.toList.head? := by
  have hne : first.toList ≠ [] := by
    intro hempty
    exact h.nonempty first (by simp [htokens]) (String.toList_eq_nil_iff.mp hempty)
  rw [chars, htokens, charsOf_cons, List.append_assoc, List.head?_append_of_ne_nil _ hne]

/-- The line that a draft without an open word makes holds all that has been gathered. -/
theorem Whole.chars_line? (h : draft.Whole) (hword : draft.word = "") :
    (draft.line?.map fun line => charsOf line.tokens).getD [] = draft.chars := by
  have hchars : draft.chars = charsOf draft.tokens := by simp [chars, hword]
  unfold line?
  split
  · exact hchars.symm
  · rename_i hnone
    cases htokens : draft.tokens with
    | nil => simp [hchars, htokens]
    | cons first rest =>
        have hhead : draft.chars ≠ [] := by
          have hne := h.nonempty first (by simp [htokens])
          simp [hchars, htokens, hne]
        obtain ⟨number, hnumber⟩ := Option.isSome_iff_exists.mp (h.begun hhead)
        exact absurd htokens (hnone number first rest hnumber)

/-- Nothing has been gathered of a line that is not handed out. -/
theorem Whole.tokens_eq_nil (h : draft.Whole) (hword : draft.word = "")
    (hline : draft.line? = none) : draft.tokens = [] := by
  have hchars := h.chars_line? hword
  rw [hline] at hchars
  cases htokens : draft.tokens with
  | nil => rfl
  | cons first rest =>
      have hne := h.nonempty first (by simp [htokens])
      simp [chars, htokens, hne] at hchars

/-! ### What a step does -/

/-- What the machine does to a draft. -/
inductive Moves : Draft → Draft → Prop where
  | keep {draft : Draft} : Moves draft draft
  | flush {draft : Draft} : Moves draft draft.flush
  | push {draft : Draft} (c : Char) (line : Nat) : Moves draft (draft.push c line)
  | emit {draft : Draft} {token : String} (line : Nat) : token ≠ "" →
      Moves draft (draft.emit token line)
  | continued {draft : Draft} : draft.flush.isPreprocessor →
      draft.flush.tokens.getLast? = some "\\" →
      Moves draft { draft.flush with tokens := draft.flush.tokens.dropLast }
  | trans {draft middle last : Draft} : Moves draft middle → Moves middle last → Moves draft last

theorem Moves.whole {next : Draft} (h : draft.Moves next) (hwhole : draft.Whole) : next.Whole := by
  induction h with
  | keep => exact hwhole
  | flush => exact hwhole.flush
  | push c line => exact hwhole.push c line
  | emit line hne => exact hwhole.emit hne line
  | @continued draft hfirst hlast =>
      have hflush := hwhole.flush
      obtain ⟨first, rest, -, htokens, -⟩ := exists_of_continued hfirst hlast
      refine ⟨fun token hmem => hflush.nonempty token (List.mem_of_mem_dropLast hmem), ?_⟩
      intro _
      refine hflush.begun ?_
      have hne : first ≠ "" := hflush.nonempty first (by simp [htokens])
      rw [chars, htokens]
      simp [hne]
  | trans _ _ hfirst hrest => exact hrest (hfirst hwhole)

/-- The number of a line and its first character stay. -/
theorem Moves.begun {next : Draft} (h : draft.Moves next) {number : Nat} {c : Char}
    (hfirst : draft.first = some number) (hchar : draft.chars.head? = some c) :
    next.first = some number ∧ next.chars.head? = some c := by
  induction h with
  | keep => exact ⟨hfirst, hchar⟩
  | flush => exact ⟨hfirst, by rwa [chars_flush]⟩
  | push d line =>
      rw [first_push, hfirst, chars_push, List.head?_append, hchar]
      exact ⟨rfl, rfl⟩
  | emit line hne =>
      rw [first_emit, hfirst, chars_emit, List.head?_append, hchar]
      exact ⟨rfl, rfl⟩
  | @continued draft hdirective hlast =>
      refine ⟨hfirst, ?_⟩
      obtain ⟨first, rest, hmark, htokens, hdropped⟩ := exists_of_continued hdirective hlast
      rw [← chars_flush] at hchar
      have hne : first.toList ≠ [] := by
        intro hempty
        simp [isDirective, hempty] at hmark
      rw [chars, htokens, charsOf_cons, List.append_assoc, List.head?_append_of_ne_nil _ hne]
        at hchar
      simp only [chars, hdropped, charsOf_cons, List.append_assoc]
      rwa [List.head?_append_of_ne_nil _ hne]
  | trans _ _ ihmiddle ihlast =>
      obtain ⟨hmiddle, hmiddleChar⟩ := ihmiddle hfirst hchar
      exact ihlast hmiddle hmiddleChar

end Draft

/-- Where an error is detected, by what is to come of the source. -/
def LexicalCause.DetectedAt (rest : List Char) : LexicalCause → Prop
  | .unmatchedClose => rest.head? = some ')'
  | .openIncludeName => rest = [] ∨ rest.head? = some '\n'
  | .openParenthesis | .openComment | .openLiteral => rest = []

/-- What a step on `c` does apart from the mode and the count of parentheses. -/
def ScanStep.Advances (scan : Scan) (c : Char) : ScanStep → Prop
  | .more next => scan.draft.Moves next.draft ∧ next.line = scan.lineAfter c
  | .done last => scan.draft.Moves last.draft ∧ last.line = scan.lineAfter c ∧ last.draft.word = ""
  | .refused cause => ∀ rest, cause.DetectedAt (c :: rest)

namespace Scan

variable {scan : Scan} {c : Char}

theorem moves_emitChar (scan : Scan) (c : Char) : scan.draft.Moves (scan.emitChar c).draft :=
  .emit scan.line String.singleton_ne_empty

theorem advances_lineFeed (scan : Scan) : scan.lineFeed.Advances scan '\n' := by
  unfold lineFeed
  simp only
  split
  · rename_i hdirective
    split
    · rename_i hlast
      exact ⟨.continued hdirective hlast, rfl⟩
    · exact ⟨.flush, rfl, rfl⟩
  · exact ⟨.flush, rfl⟩

theorem advances_codeStep (scan : Scan) (c : Char) : (scan.codeStep c).Advances scan c := by
  have hcases := scan.onCode_codeStep c
  generalize scan.codeStep c = step at hcases ⊢
  -- Of the characters of code only a line feed changes the number.
  have hline : c ≠ '\n' → scan.line = scan.lineAfter c := fun hc => (if_neg hc).symm
  have hmarked : String.singleton c ∈ markTokens → c ≠ '\n' := by
    rintro hmark rfl
    exact absurd hmark (by decide)
  cases hcases with
  | blank hc => exact ⟨.flush, hline (by rintro rfl; simp at hc)⟩
  | lineFeed => exact advances_lineFeed scan
  | slash => exact ⟨.keep, rfl⟩
  | quote hc => exact ⟨.keep, hline (by rintro rfl; simp at hc)⟩
  | mark hmark => exact ⟨moves_emitChar scan c, hline (hmarked hmark)⟩
  | ending hends =>
      exact ⟨moves_emitChar scan c, hline (hmarked hends.mem_markTokens), rfl⟩
  | unmatched => exact fun _ => rfl
  | includeName => exact ⟨.keep, rfl⟩
  | word hc => exact ⟨.push c scan.line, hline (by rintro rfl; exact hc (by decide))⟩

theorem advances_keepSlash (h : (scan.keepSlash.codeStep c).Advances scan.keepSlash c) :
    (scan.keepSlash.codeStep c).Advances scan c := by
  have hpush : scan.draft.Moves scan.keepSlash.draft := .push '/' scan.line
  cases hstep : scan.keepSlash.codeStep c with
  | more next =>
      rw [hstep] at h
      exact ⟨hpush.trans h.1, h.2⟩
  | done last =>
      rw [hstep] at h
      exact ⟨hpush.trans h.1, h.2⟩
  | refused cause =>
      rw [hstep] at h
      exact h

theorem advances_step (h : scan.Sound) (c : Char) : (scan.step c).Advances scan c := by
  have hmode := h.2
  unfold step
  split
  · exact advances_codeStep scan c
  · split
    · exact ⟨.flush, rfl⟩
    · exact ⟨.flush, rfl⟩
    · exact advances_keepSlash (advances_codeStep _ c)
  · split
    · rename_i hline
      rw [hline]
      exact advances_lineFeed scan
    · rename_i hline
      exact ⟨.keep, (if_neg hline).symm⟩
  · exact ⟨.keep, rfl⟩
  · split
    · exact ⟨.keep, rfl⟩
    · exact ⟨.keep, rfl⟩
    · exact ⟨.keep, rfl⟩
  · rename_i quote start text heq
    rw [heq] at hmode
    simp only
    split
    · rename_i hend
      have hline : c ≠ '\n' := by
        rw [hend]
        rcases hmode.1 with rfl | rfl <;> decide
      exact ⟨.emit start String.push_ne_empty, (if_neg hline).symm⟩
    · exact ⟨.keep, rfl⟩
  · exact ⟨.keep, rfl⟩
  · split
    · refine ⟨.emit _ ?_, rfl⟩
      simp [show toString "\"" = "\"" from rfl]
    · exact fun _ => .inr rfl
    · rename_i hline
      exact ⟨.keep, (if_neg hline).symm⟩

end Scan

end LslFront
