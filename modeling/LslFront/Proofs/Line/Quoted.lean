import LslFront.Proofs.Constant.Quoting
import LslFront.Proofs.Line.Single

/-!
# Quoted tokens

The lexer puts quotes around nothing but literals and the names of includes, and it closes each with
the quote that it opened it with.  So every token that begins with a quote can be read as a string
literal, in directives as well as outside of them.
-/

namespace LslFront

/-! ### Kinds of tokens -/

/-- A token that the lexer makes, in whatever line: one of those outside directives, or the name in
    an include directive, which has double quotes put around it. -/
inductive MadeToken : String → Prop where
  | lexed {token} : LexedToken token → MadeToken token
  | includeName (name : String) : MadeToken s!"\"{name}\""

section

variable {token : String}

theorem not_isQuoted_of_raw (h : ∀ c ∈ token.toList, isRaw c) : isQuoted token = false := by
  unfold isQuoted
  split
  · rename_i c rest hlist
    have hc : isRaw c := h c (by simp [hlist])
    cases hquote : c == '"' || c == '\'' with
    | false => rfl
    | true =>
        simp only [Bool.or_eq_true, beq_iff_eq] at hquote
        rcases hquote with rfl | rfl <;> cases hc
  · rfl

theorem LexedToken.not_isMalformed (h : LexedToken token) : ¬ IsMalformed token := by
  cases h with
  | piece _ hraw =>
      rintro ⟨hquoted, -⟩
      rw [not_isQuoted_of_raw hraw] at hquoted
      cases hquoted
  | mark hmark =>
      have hall : ∀ mark ∈ markTokens, isQuoted mark = false := by decide
      rintro ⟨hquoted, -⟩
      rw [hall token hmark] at hquoted
      cases hquoted
  | literal hquote _ htoken => exact not_isMalformed_of_closed hquote htoken

theorem MadeToken.not_isMalformed (h : MadeToken token) : ¬ IsMalformed token := by
  cases h with
  | lexed h => exact h.not_isMalformed
  | includeName name =>
      refine @not_isMalformed_of_closed _ '"' name.toList (.inl rfl) ?_
      rw [show s!"\"{name}\"" = "\"" ++ name ++ "\"" from rfl]
      simp

end

/-! ### The machine -/

def MadeTokens (tokens : List String) : Prop :=
  ∀ token ∈ tokens, MadeToken token

def ScanStep.Made : ScanStep → Prop
  | .more next => MadeTokens next.draft.tokens
  | .done last => MadeTokens last.draft.tokens
  | .refused _ => True

namespace Draft

variable {draft : Draft}

theorem made_flush (h : MadeTokens draft.tokens) (hsound : draft.Sound) :
    MadeTokens draft.flush.tokens := by
  refine List.forall_mem_append.mpr ⟨h, fun token hmem => .lexed ?_⟩
  exact .piece (.of_mem_splitWord hmem) (hsound.isRaw_of_mem hmem)

theorem made_emit (h : MadeTokens draft.tokens) (hsound : draft.Sound) {token : String}
    (htoken : MadeToken token) (line : Nat) : MadeTokens (draft.emit token line).tokens :=
  List.forall_mem_append.mpr ⟨made_flush h hsound, by simpa using htoken⟩

end Draft

namespace Scan

variable {scan : Scan}

theorem made_lineFeed (h : MadeTokens scan.draft.tokens) (hsound : scan.draft.Sound) :
    scan.lineFeed.Made := by
  have hflush := Draft.made_flush h hsound
  unfold lineFeed
  simp only
  split
  · split
    · exact fun token hmem => hflush token (List.mem_of_mem_dropLast hmem)
    · exact hflush
  · exact hflush

theorem made_codeStep (h : MadeTokens scan.draft.tokens) (hsound : scan.draft.Sound) (c : Char) :
    (scan.codeStep c).Made := by
  have hcases := scan.onCode_codeStep c
  generalize scan.codeStep c = step at hcases ⊢
  cases hcases with
  | blank => exact Draft.made_flush h hsound
  | lineFeed => exact made_lineFeed h hsound
  | slash => exact h
  | quote => exact h
  | mark hmark => exact Draft.made_emit h hsound (.lexed (.mark hmark)) _
  | ending hends => exact Draft.made_emit h hsound (.lexed (.mark hends.mem_markTokens)) _
  | unmatched => trivial
  | includeName => exact h
  | word => exact h

theorem made_step (h : MadeTokens scan.draft.tokens) (hsound : scan.Sound) (c : Char) :
    (scan.step c).Made := by
  have hmode := hsound.2
  unfold step
  split
  · exact made_codeStep h hsound.1 c
  · split
    · exact Draft.made_flush h hsound.1
    · exact Draft.made_flush h hsound.1
    · exact @made_codeStep scan.keepSlash h (sound_keepSlash hsound.1) c
  · split
    · exact made_lineFeed h hsound.1
    · exact h
  · exact h
  · split
    · exact h
    · exact h
    · exact h
  · rename_i quote start text heq
    rw [heq] at hmode
    obtain ⟨hquote, body, htext, hbody⟩ := hmode
    simp only
    split
    · rename_i hend
      have hliteral : LexedToken (text.push c) := .literal hquote hbody (by simp [htext, hend])
      exact Draft.made_emit h hsound.1 (.lexed hliteral) _
    · exact h
  · exact h
  · split
    · exact Draft.made_emit h hsound.1 (.includeName _) _
    · trivial
    · exact h

theorem made_run (source : List Char) {line : Line} : ∀ {scan : Scan},
    MadeTokens scan.draft.tokens → scan.Sound → (scan.run source).result = .ok (some line) →
    MadeTokens line.tokens := by
  induction source with
  | nil =>
      intro scan h hsound hresult
      rcases (atEnd_eq_ok hresult).2 with hline | hline
      · rw [(Draft.tokens_of_line? hline.symm).1]
        exact Draft.made_flush h hsound.1
      · rw [(Draft.tokens_of_line? hline.symm).1]
        exact @Draft.made_flush scan.keepSlash.draft h (sound_keepSlash hsound.1)
  | cons c rest ih =>
      intro scan h hsound hresult
      have hmade := made_step h hsound c
      have hnext := sound_step hsound c
      rw [run] at hresult
      split at hresult
      · rename_i next hstep
        rw [hstep] at hmade hnext
        exact ih hmade hnext hresult
      · rename_i last hstep
        rw [hstep] at hmade
        split at hresult
        · cases hresult
        · rw [(Draft.tokens_of_line? (Except.ok.inj hresult)).1]
          exact hmade
      · cases hresult

end Scan

theorem Lexer.madeTokens_of_nextLine {lexer after : Lexer} {line : Line}
    (h : lexer.nextLine = (.ok (some line), after)) : MadeTokens line.tokens := by
  have hfresh : MadeTokens lexer.fresh.draft.tokens := fun _ hmem => absurd hmem List.not_mem_nil
  exact Scan.made_run lexer.rest hfresh (Scan.sound_fresh lexer) (result_of_nextLine h).1

/-! ### Literals as sources -/

theorem literalBody_escaped (quote : Char) (text : List Char) :
    LiteralBody quote (escaped quote text) := by
  induction text with
  | nil => exact .nil
  | cons c rest ih =>
      rw [escaped_cons]
      split
      · exact .escaped ih
      · rename_i hc
        exact .plain (fun h => hc (.inr h)) (fun h => hc (.inl h)) ih

theorem tokenize_literalOf {quote : Char} (hquote : quote = '"' ∨ quote = '\'') (text : String) :
    ∃ number, tokenize (literalOf quote text) = .ok [⟨number, [literalOf quote text]⟩] :=
  tokenize_literal hquote (literalBody_escaped quote text.toList) String.toList_ofList

end LslFront
