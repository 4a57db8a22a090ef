import LslFront.Line.Lexer
import LslFront.Proofs.Success
import LslFront.Proofs.Token.Split

/-!
# The tokens of lines

What the lexer makes is of three kinds: tokens of a raw word, tokens that are one character of
their own, and quoted literals.  Only the name in an include directive is of no such kind, so the
lines that hold a directive are left out.
-/

namespace LslFront

/-! ### Kinds of tokens -/

/-- The characters that do not join a raw word where they stand in code.  A slash may begin a
    comment and joins the word only if it does not. -/
def codeMarks : List Char :=
  [' ', '\t', '\r', '\n', '/', '"', '\'', ';', '\x7b', '\x7d', '(', ')', '@', ',', '~', '?', '\\',
   '[', ']']

def markTokens : List String :=
  [";", "\x7b", "\x7d", "(", ")", "@", ",", "~", "?", "\\", "[", "]"]

def isRaw (c : Char) : Bool :=
  c == '/' || !codeMarks.contains c

/-- What stands between the quotes of a literal: a backslash protects the next character. -/
inductive LiteralBody (quote : Char) : List Char → Prop where
  | nil : LiteralBody quote []
  | plain {c rest} : c ≠ quote → c ≠ '\\' → LiteralBody quote rest →
      LiteralBody quote (c :: rest)
  | escaped {c rest} : LiteralBody quote rest → LiteralBody quote ('\\' :: c :: rest)

theorem LiteralBody.append {quote : Char} {body more : List Char} (hbody : LiteralBody quote body)
    (hmore : LiteralBody quote more) : LiteralBody quote (body ++ more) := by
  induction hbody with
  | nil => exact hmore
  | plain hquote hescape _ ih => exact .plain hquote hescape ih
  | escaped _ ih => exact .escaped ih

/-- A token that the lexer makes outside directives. -/
inductive LexedToken : String → Prop where
  | piece {token} : IsPiece token → (∀ c ∈ token.toList, isRaw c) → LexedToken token
  | mark {token} : token ∈ markTokens → LexedToken token
  | literal {token quote body} : quote = '"' ∨ quote = '\'' → LiteralBody quote body →
      token.toList = quote :: (body ++ [quote]) → LexedToken token

theorem not_mem_codeMarks_of_isWordChar {c : Char} (h : isWordChar c) : c ∉ codeMarks := by
  have hmarks : codeMarks.any isWordChar = false := by decide
  exact fun hmem => List.any_eq_false.mp hmarks c hmem h

theorem isRaw_of_isWordChar {c : Char} (h : isWordChar c) : isRaw c := by
  simp [isRaw, not_mem_codeMarks_of_isWordChar h]

theorem LexedToken.word {token : String} (hne : token ≠ "")
    (h : ∀ c ∈ token.toList, isWordChar c) : LexedToken token :=
  .piece (.inl ⟨hne, joined_of_isWordChar h⟩) fun c hc => isRaw_of_isWordChar (h c hc)

/-- The tokens are of these kinds unless they begin with a directive. -/
def LexedTokens (tokens : List String) : Prop :=
  (∀ token ∈ tokens, LexedToken token) ∨ tokens.head?.any isDirective

theorem directive_append {tokens : List String} (h : tokens.head?.any isDirective)
    (more : List String) : (tokens ++ more).head?.any isDirective := by
  cases tokens with
  | nil => cases h
  | cons first rest => exact h

theorem LexedTokens.append {tokens more : List String} (h : LexedTokens tokens)
    (hmore : ∀ token ∈ more, LexedToken token) : LexedTokens (tokens ++ more) := by
  rcases h with hall | hdirective
  · left
    intro token hmem
    rcases List.mem_append.mp hmem with hmem | hmem
    · exact hall token hmem
    · exact hmore token hmem
  · exact .inr (directive_append hdirective more)

/-- A line that is continued keeps the directive that it begins with. -/
theorem exists_of_continued {tokens : List String} (hfirst : tokens.head?.any isDirective)
    (hlast : tokens.getLast? = some "\\") :
    ∃ first rest, isDirective first ∧ tokens = first :: rest ∧
      tokens.dropLast = first :: rest.dropLast := by
  obtain ⟨first, hhead, hdirective⟩ := (Option.any_eq_true _ _).mp hfirst
  cases tokens with
  | nil => cases hhead
  | cons token rest =>
      obtain rfl : token = first := Option.some.inj hhead
      refine ⟨token, rest, hdirective, rfl, ?_⟩
      cases rest with
      | nil =>
          obtain rfl : token = "\\" := Option.some.inj hlast
          exact absurd hdirective (by decide)
      | cons next more => rfl

/-! ### Tokens that end lines -/

/-- The count of open parentheses after one more token, if the token does not end the line. -/
def lineStep (depth : Nat) (token : String) : Option Nat :=
  if token = "(" then some (depth + 1)
  else if token = ")" then if depth = 0 then none else some (depth - 1)
  else if token = ";" then if depth = 0 then none else some depth
  else if token = "\x7b" ∨ token = "\x7d" then none
  else some depth

theorem lineStep_of_not_mark {token : String} (h : token ∉ markTokens) (depth : Nat) :
    lineStep depth token = some depth := by
  simp only [markTokens, List.mem_cons, List.not_mem_nil, or_false, not_or] at h
  simp [lineStep, h]

/-- The token ends a line when `depth` parentheses are open. -/
def EndsLine (depth : Nat) (token : String) : Prop :=
  token = "\x7b" ∨ token = "\x7d" ∨ token = ";" ∧ depth = 0

theorem EndsLine.mem_markTokens {depth : Nat} {token : String} (h : EndsLine depth token) :
    token ∈ markTokens := by
  rcases h with rfl | rfl | ⟨rfl, -⟩ <;> decide

/-! ### Drafts -/

namespace Draft

/-- What has been gathered will make tokens of these kinds. -/
def Sound (draft : Draft) : Prop :=
  LexedTokens draft.tokens ∧ ∀ c ∈ draft.word.toList, isRaw c

variable {draft : Draft} {line : Nat}

theorem sound_empty : empty.Sound := by
  refine ⟨.inl ?_, ?_⟩ <;> simp [empty]

theorem Sound.isRaw_of_mem (h : draft.Sound) {token : String}
    (hmem : token ∈ splitWord draft.word) : ∀ c ∈ token.toList, isRaw c := by
  intro c hc
  rcases mem_of_mem_splitWord hmem hc with hc | rfl | rfl
  · exact h.2 c hc
  · decide
  · decide

theorem Sound.flush (h : draft.Sound) : draft.flush.Sound := by
  refine ⟨h.1.append ?_, by simp [Draft.flush]⟩
  exact fun token hmem => .piece (.of_mem_splitWord hmem) (h.isRaw_of_mem hmem)

theorem Sound.push (h : draft.Sound) {c : Char} (hc : isRaw c) : (draft.push c line).Sound := by
  refine ⟨h.1, ?_⟩
  intro d hd
  have hd : d ∈ draft.word.toList ∨ d = c := by simpa [Draft.push, mark] using hd
  rcases hd with hd | rfl
  · exact h.2 d hd
  · exact hc

theorem Sound.emit (h : draft.Sound) {token : String} (htoken : LexedToken token) :
    (draft.emit token line).Sound := by
  refine ⟨h.flush.1.append ?_, by simp [Draft.emit, Draft.flush, mark]⟩
  intro found hmem
  rw [List.mem_singleton.mp hmem]
  exact htoken

/-- The word of an include directive is the first token. -/
theorem directive_of_isInclude (h : draft.isInclude) :
    draft.flush.tokens.head?.any isDirective := by
  simp only [isInclude, Bool.or_eq_true, beq_iff_eq] at h
  have hname : isDirective (draft.tokens.head?.getD draft.word) ∧
      splitWord (draft.tokens.head?.getD draft.word) = [draft.tokens.head?.getD draft.word] := by
    rcases h with h | h
    · rw [h]
      decide
    · rw [h]
      decide
  cases htokens : draft.tokens with
  | nil =>
      simp only [htokens, List.head?_nil, Option.getD_none] at hname
      simpa [Draft.flush, htokens, hname.2] using hname.1
  | cons first rest =>
      simp only [htokens, List.head?_cons, Option.getD_some] at hname
      simpa [Draft.flush, htokens] using hname.1

theorem tokens_of_line? {line : Line} (h : draft.line? = some line) :
    line.tokens = draft.tokens ∧ draft.tokens ≠ [] := by
  unfold line? at h
  split at h
  · rename_i htokens
    cases h
    exact ⟨rfl, by simp [htokens]⟩
  · cases h

end Draft

/-! ### The machine -/

/-- What the mode says of a line under way: an open literal is one so far, and the name of an
    include is only read in a directive. -/
def ScanMode.Sound (draft : Draft) : ScanMode → Prop
  | .literal quote _ text => (quote = '"' ∨ quote = '\'') ∧
      ∃ body, text.toList = quote :: body ∧ LiteralBody quote body
  | .escape quote _ text => (quote = '"' ∨ quote = '\'') ∧
      ∃ body, text.toList = quote :: (body ++ ['\\']) ∧ LiteralBody quote body
  | .includeName _ _ => draft.isInclude
  | _ => True

def Scan.Sound (scan : Scan) : Prop :=
  scan.draft.Sound ∧ scan.mode.Sound scan.draft

/-- What the machine does with a character of code. -/
inductive Scan.OnCode (scan : Scan) : Char → ScanStep → Prop where
  | blank {c : Char} : c = ' ' ∨ c = '\t' ∨ c = '\r' →
      OnCode scan c (.more { scan with draft := scan.draft.flush })
  | lineFeed : OnCode scan '\n' scan.lineFeed
  | slash : OnCode scan '/' (.more { scan with mode := .slash })
  | quote {c : Char} : c = '"' ∨ c = '\'' →
      OnCode scan c (.more { scan with mode := .literal c scan.line (String.singleton c) })
  | mark {c : Char} {after : Nat} : String.singleton c ∈ markTokens →
      lineStep scan.depth (String.singleton c) = some after →
      OnCode scan c (.more { scan.emitChar c with depth := after })
  | ending {c : Char} : EndsLine scan.depth (String.singleton c) →
      OnCode scan c (.done (scan.emitChar c))
  | unmatched : scan.depth = 0 → OnCode scan ')' (.refused .unmatchedClose)
  | includeName : scan.draft.isInclude →
      OnCode scan '<' (.more { scan with mode := .includeName scan.line "" })
  | word {c : Char} : c ∉ codeMarks →
      OnCode scan c (.more { scan with draft := scan.draft.push c scan.line })

theorem Scan.onCode_codeStep (scan : Scan) (c : Char) : scan.OnCode c (scan.codeStep c) := by
  unfold codeStep
  split
  · exact .blank (.inl rfl)
  · exact .blank (.inr (.inl rfl))
  · exact .blank (.inr (.inr rfl))
  · exact .lineFeed
  · exact .slash
  · exact .quote (.inl rfl)
  · exact .quote (.inr rfl)
  · split
    · rename_i hdepth
      exact .ending (.inr (.inr ⟨rfl, hdepth⟩))
    · rename_i hdepth
      exact .mark (by decide) (by simp [lineStep, hdepth])
  · exact .ending (.inl rfl)
  · exact .ending (.inr (.inl rfl))
  · exact .mark (by decide) rfl
  · split
    · rename_i hdepth
      exact .unmatched hdepth
    · rename_i hdepth
      exact .mark (by decide) (by simp [lineStep, hdepth])
  · exact .mark (by decide) rfl
  · exact .mark (by decide) rfl
  · exact .mark (by decide) rfl
  · exact .mark (by decide) rfl
  · exact .mark (by decide) rfl
  · exact .mark (by decide) rfl
  · exact .mark (by decide) rfl
  · split
    · rename_i hinclude
      obtain ⟨hc, hinclude⟩ := Bool.and_eq_true_iff.mp hinclude
      obtain rfl := of_decide_eq_true hc
      exact .includeName hinclude
    · refine .word ?_
      simp_all [codeMarks]

def ScanStep.Sound : ScanStep → Prop
  | .more next => next.Sound
  | .done last => last.Sound
  | .refused _ => True

namespace Scan

variable {scan : Scan}

theorem sound_fresh (lexer : Lexer) : lexer.fresh.Sound :=
  ⟨Draft.sound_empty, trivial⟩

theorem sound_lineFeed (h : scan.draft.Sound) : scan.lineFeed.Sound := by
  have hflush := h.flush
  unfold lineFeed
  simp only
  split
  · rename_i hdirective
    split
    · rename_i hlast
      -- The first token is a directive, so it is not the backslash that is dropped.
      obtain ⟨first, rest, hmark, -, hdropped⟩ := exists_of_continued hdirective hlast
      refine ⟨⟨.inr ?_, hflush.2⟩, trivial⟩
      simp only [hdropped, List.head?_cons]
      exact hmark
    · exact ⟨hflush, trivial⟩
  · exact ⟨hflush, trivial⟩

theorem sound_codeStep (h : scan.draft.Sound) (hcode : scan.mode = .code) (c : Char) :
    (scan.codeStep c).Sound := by
  have hmode : ∀ draft, scan.mode.Sound draft := by
    intro draft
    rw [hcode]
    trivial
  have hcases := scan.onCode_codeStep c
  generalize scan.codeStep c = step at hcases ⊢
  cases hcases with
  | blank => exact ⟨h.flush, hmode _⟩
  | lineFeed => exact sound_lineFeed h
  | slash => exact ⟨h, trivial⟩
  | quote hquote => exact ⟨h, hquote, [], by simp, .nil⟩
  | mark hmark => exact ⟨h.emit (.mark hmark), hmode _⟩
  | ending hends => exact ⟨h.emit (.mark hends.mem_markTokens), hmode _⟩
  | unmatched => trivial
  | includeName hinclude => exact ⟨h, hinclude⟩
  | word hc => exact ⟨h.push (by simp [isRaw, hc]), hmode _⟩

theorem sound_keepSlash (h : scan.draft.Sound) : scan.keepSlash.draft.Sound :=
  h.push (by decide)

theorem sound_step (h : scan.Sound) (c : Char) : (scan.step c).Sound := by
  obtain ⟨hdraft, hmode⟩ := h
  unfold step
  split
  · exact sound_codeStep hdraft ‹_› c
  · split
    · exact ⟨hdraft.flush, trivial⟩
    · exact ⟨hdraft.flush, trivial⟩
    · exact sound_codeStep (sound_keepSlash hdraft) rfl c
  · split
    · exact sound_lineFeed hdraft
    · exact ⟨hdraft, hmode⟩
  · refine ⟨hdraft, ?_⟩
    simp only
    split <;> trivial
  · split
    · exact ⟨hdraft, trivial⟩
    · exact ⟨hdraft, hmode⟩
    · exact ⟨hdraft, trivial⟩
  · rename_i quote start text heq
    rw [heq] at hmode
    obtain ⟨hquote, body, htext, hbody⟩ := hmode
    have hpush : (text.push c).toList = quote :: (body ++ [c]) := by simp [htext]
    simp only
    split
    · rename_i hend
      refine ⟨hdraft.emit (.literal hquote hbody ?_), trivial⟩
      rw [hpush, hend]
    · rename_i hend
      refine ⟨hdraft, ?_⟩
      simp only
      split
      · rename_i hescape
        exact ⟨hquote, body, by rw [hpush, hescape], hbody⟩
      · rename_i hescape
        exact ⟨hquote, body ++ [c], hpush, hbody.append (.plain hend hescape .nil)⟩
  · rename_i quote start text heq
    rw [heq] at hmode
    obtain ⟨hquote, body, htext, hbody⟩ := hmode
    refine ⟨hdraft, hquote, body ++ ['\\', c], ?_, hbody.append (.escaped .nil)⟩
    simp [htext]
  · rename_i start name heq
    rw [heq] at hmode
    split
    · have hdirective := Draft.directive_of_isInclude hmode
      refine ⟨⟨.inr (directive_append hdirective _), ?_⟩, trivial⟩
      simp [Draft.emit, Draft.flush, Draft.mark]
    · trivial
    · exact ⟨hdraft, hmode⟩

/-- A source ends a line only outside of comments and literals and with no parenthesis open. -/
theorem atEnd_eq_ok {line : Option Line} (h : scan.atEnd = .ok line) :
    scan.depth = 0 ∧ (line = scan.draft.flush.line? ∨ line = scan.keepSlash.draft.flush.line?) := by
  unfold atEnd at h
  split at h
  · cases h
  · cases h
  · cases h
  · cases h
  · cases h
  · split at h
    · rename_i hdepth
      exact ⟨hdepth, .inr (Except.ok.inj h).symm⟩
    · cases h
  · split at h
    · rename_i hdepth
      exact ⟨hdepth, .inl (Except.ok.inj h).symm⟩
    · cases h
  · split at h
    · rename_i hdepth
      exact ⟨hdepth, .inl (Except.ok.inj h).symm⟩
    · cases h

theorem sound_run (source : List Char) {line : Line} : ∀ {scan : Scan}, scan.Sound →
    (scan.run source).result = .ok (some line) → LexedTokens line.tokens := by
  induction source with
  | nil =>
      intro scan h hresult
      rcases (atEnd_eq_ok hresult).2 with hline | hline
      · rw [(Draft.tokens_of_line? hline.symm).1]
        exact h.1.flush.1
      · rw [(Draft.tokens_of_line? hline.symm).1]
        exact (sound_keepSlash h.1).flush.1
  | cons c rest ih =>
      intro scan h hresult
      have hstep := sound_step h c
      rw [run] at hresult
      split at hresult
      · rename_i next hnext
        rw [hnext] at hstep
        exact ih hstep hresult
      · rename_i last hlast
        rw [hlast] at hstep
        split at hresult
        · cases hresult
        · rw [(Draft.tokens_of_line? (Except.ok.inj hresult)).1]
          exact hstep.1.1
      · cases hresult

end Scan

/-- A call that succeeds gives what the machine gives, and the place after it is where that run
    ended. -/
theorem Lexer.result_of_nextLine {lexer after : Lexer} {line : Option Line}
    (h : lexer.nextLine = (.ok line, after)) :
    (lexer.fresh.run lexer.rest).result = .ok line ∧ after = { lexer with
      rest := (lexer.fresh.run lexer.rest).rest
      line := (lexer.fresh.run lexer.rest).line
      depth := (lexer.fresh.run lexer.rest).depth } := by
  simp only [nextLine] at h
  split at h
  · rename_i found hfound
    obtain ⟨rfl, rfl⟩ : found = line ∧ _ = after := by simpa using h
    exact ⟨hfound, rfl⟩
  · simp at h

theorem Lexer.lexedTokens_of_nextLine {lexer after : Lexer} {line : Line}
    (h : lexer.nextLine = (.ok (some line), after)) : LexedTokens line.tokens :=
  Scan.sound_run lexer.rest (Scan.sound_fresh lexer) (result_of_nextLine h).1

theorem Lexer.lexedTokens_of_lines {lexer : Lexer} {lines : List Line}
    (h : lexer.lines = .ok lines) : ∀ line ∈ lines, LexedTokens line.tokens := by
  fun_induction Lexer.lines lexer generalizing lines with
  | case1 => cases h
  | case2 =>
      cases h
      simp
  | case3 lexer line after hline _ ih =>
      obtain ⟨others, hothers, rfl⟩ := map_eq_ok_iff.1 h
      exact List.forall_mem_cons.mpr ⟨lexedTokens_of_nextLine hline, ih hothers⟩

end LslFront
