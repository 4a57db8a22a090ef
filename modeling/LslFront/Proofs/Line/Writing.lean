import LslFront.Proofs.Expr.Brackets
import LslFront.Proofs.Line.Tokens
import LslFront.Proofs.Source.Runs

/-!
# Writing lines

A line that is written out with a blank after each token is read as the tokens that it was written
from.  Between two tokens the machine holds no word, so what it does with the next token does not
depend on how the tokens before it were written.
-/

namespace LslFront

def spaced (tokens : List String) : List Char :=
  tokens.flatMap fun token => token.toList ++ [' ']

theorem not_mark_of_raw {token : String} (h : ∀ c ∈ token.toList, isRaw c) :
    token ∉ markTokens := by
  intro hmem
  have hall : ∀ mark ∈ markTokens, mark.toList.all isRaw = false := by decide
  rw [← List.all_eq_true, hall token hmem] at h
  cases h

theorem not_mark_of_quote {token : String} {quote : Char} (hquote : quote = '"' ∨ quote = '\'')
    (h : token.toList.head? = some quote) : token ∉ markTokens := by
  intro hmem
  have hall : ∀ mark ∈ markTokens, mark.toList.head? ≠ some '"' ∧ mark.toList.head? ≠ some '\'' := by
    decide
  rcases hquote with rfl | rfl
  · exact (hall token hmem).1 h
  · exact (hall token hmem).2 h

/-- The tokens are a line if `depth` parentheses are open before them; then `after` are open after
    them. -/
def IsLine (depth : Nat) (tokens : List String) (after : Nat) : Prop :=
  (∀ token ∈ tokens, LexedToken token) ∧ (∀ first ∈ tokens.head?, isDirective first = false) ∧
    ∃ init last, tokens = init ++ [last] ∧ init.foldlM lineStep depth = some after ∧
      EndsLine after last

/-! ### Words -/

theorem Draft.isInclude_eq_false {draft : Draft}
    (h : isDirective (draft.tokens.head?.getD draft.word) = false) : draft.isInclude = false := by
  cases hinclude : draft.isInclude with
  | false => rfl
  | true =>
      simp only [isInclude, Bool.or_eq_true, beq_iff_eq] at hinclude
      rcases hinclude with heq | heq
      · rw [heq] at h
        exact absurd h (by decide)
      · rw [heq] at h
        exact absurd h (by decide)

theorem isDirective_of_append {word : String} {text : List Char}
    (h : isDirective (word ++ String.ofList text) = false) : isDirective word = false := by
  unfold isDirective at h ⊢
  cases hword : word.toList with
  | nil => rfl
  | cons c rest => simpa [hword] using h

/-- A token that a word is split into holds a slash only as a division. -/
theorem IsPiece.eq_of_mem_slash {token : String} (h : IsPiece token) (hslash : '/' ∈ token.toList) :
    token = "/" ∨ token = "/=" := by
  rcases h with ⟨-, hjoined⟩ | ⟨c, rfl⟩ | hlong
  · obtain ⟨before, after, heq⟩ := List.append_of_mem hslash
    have hjoin := hjoined before '/' after heq
    simp [continuesWord, show isWordChar '/' = false by decide] at hjoin
  · obtain rfl : '/' = c := by simpa using hslash
    exact .inl rfl
  · have hall : ∀ operator ∈ longOperators, '/' ∈ operator.toList →
        operator = "/" ∨ operator = "/=" := by decide
    exact hall token hlong hslash

theorem push_append_ofList (word : String) (c : Char) (text : List Char) :
    word.push c ++ String.ofList text = word ++ String.ofList (c :: text) := by
  apply String.toList_injective
  simp

/-! ### Steps -/

namespace Scan

variable {scan next : Scan} {c : Char}

theorem run_of_more (h : scan.step c = .more next) (rest : List Char) :
    scan.run (c :: rest) = next.run rest := by
  rw [run, h]

theorem step_of_code (hcode : scan.mode = .code) (c : Char) : scan.step c = scan.codeStep c := by
  rw [step.eq_def, hcode]

theorem step_of_literal {quote : Char} {start : Nat} {text : String}
    (hmode : scan.mode = .literal quote start text) (c : Char) :
    scan.step c
      = if c = quote then .more ⟨.code, scan.draft.emit (text.push c) start, scan.line, scan.depth⟩
        else .more { scan with
          mode := if c = '\\' then .escape quote start (text.push c)
                  else .literal quote start (text.push c)
          line := scan.lineAfter c } := by
  rw [step.eq_def, hmode]

theorem codeStep_blank (scan : Scan) :
    scan.codeStep ' ' = .more { scan with draft := scan.draft.flush } := rfl

theorem codeStep_quote {quote : Char} (h : quote = '"' ∨ quote = '\'') :
    scan.codeStep quote
      = .more { scan with mode := .literal quote scan.line (String.singleton quote) } := by
  rcases h with rfl | rfl <;> rfl

theorem codeStep_raw (hc : c ∉ codeMarks) (hinclude : scan.draft.isInclude = false) :
    scan.codeStep c = .more { scan with draft := scan.draft.push c scan.line } := by
  unfold codeStep
  split
  all_goals first
    | exact absurd (by decide) hc
    | rw [hinclude, Bool.and_false, if_neg (by simp)]

end Scan

/-! ### Between tokens -/

/-- Outside comments and literals, with these tokens complete, this word gathered and so many
    parentheses open. -/
structure Scan.Holds (scan : Scan) (tokens : List String) (word : String) (depth : Nat) :
    Prop where
  code : scan.mode = .code
  complete : scan.draft.tokens = tokens
  gathered : scan.draft.word = word
  opened : scan.depth = depth
  begun : tokens ≠ [] ∨ word ≠ "" → scan.draft.first.isSome

namespace Scan.Holds

variable {scan : Scan} {tokens : List String} {word token : String} {depth : Nat}

theorem mark_isSome (draft : Draft) (line : Nat) : (draft.mark line).first.isSome := by
  cases hfirst : draft.first <;> simp [Draft.mark, hfirst]

theorem push (h : scan.Holds tokens word depth) (c : Char) :
    Holds { scan with draft := scan.draft.push c scan.line } tokens (word.push c) depth where
  code := h.code
  complete := h.complete
  gathered := by simp [Draft.push, Draft.mark, h.gathered]
  opened := h.opened
  begun _ := mark_isSome scan.draft scan.line

theorem flush (h : scan.Holds tokens token depth) (hne : token ≠ "") (hpiece : IsPiece token) :
    Holds { scan with draft := scan.draft.flush } (tokens ++ [token]) "" depth where
  code := h.code
  complete := by simp [Draft.flush, h.complete, h.gathered, hpiece.splitWord_eq]
  gathered := rfl
  opened := h.opened
  begun _ := h.begun (.inr hne)

theorem emit (h : scan.Holds tokens "" depth) (token : String) (start line after : Nat) :
    Holds ⟨.code, scan.draft.emit token start, line, after⟩ (tokens ++ [token]) "" after where
  code := rfl
  complete := by
    simp [Draft.emit, Draft.flush, Draft.mark, h.complete, h.gathered]
  gathered := by simp [Draft.emit, Draft.flush, Draft.mark]
  opened := rfl
  begun _ := mark_isSome scan.draft.flush start

theorem emitChar (h : scan.Holds tokens "" depth) (c : Char) (after : Nat) :
    Holds { scan.emitChar c with depth := after } (tokens ++ [String.singleton c]) "" after := by
  have hemit := h.emit (String.singleton c) scan.line scan.line after
  rw [← h.code] at hemit
  exact hemit

theorem exists_line? (h : scan.Holds tokens word depth) (hne : tokens ≠ []) :
    ∃ number, scan.draft.line? = some ⟨number, tokens⟩ := by
  obtain ⟨number, hnumber⟩ := Option.isSome_iff_exists.mp (h.begun (.inl hne))
  obtain ⟨token, rest, rfl⟩ := List.exists_cons_of_ne_nil hne
  exact ⟨number, by simp [Draft.line?, hnumber, h.complete]⟩

theorem flush_eq (h : scan.Holds tokens "" depth) : scan.draft.flush = scan.draft := by
  obtain ⟨mode, ⟨held, word, first⟩, line, open_⟩ := scan
  obtain rfl : word = "" := h.gathered
  simp [Draft.flush]

theorem run_blank (h : scan.Holds tokens "" depth) (rest : List Char) :
    scan.run (' ' :: rest) = scan.run rest := by
  have hstep : scan.step ' ' = .more scan := by
    rw [step_of_code h.code, codeStep_blank, h.flush_eq]
  exact run_of_more hstep rest

end Scan.Holds

namespace Scan

variable {scan : Scan} {tokens : List String} {word token : String} {depth : Nat}

theorem run_raw {text : List Char} (hraw : ∀ c ∈ text, c ∉ codeMarks) :
    ∀ {scan : Scan} {word : String}, scan.Holds tokens word depth →
      isDirective (tokens.head?.getD (word ++ String.ofList text)) = false →
      ∃ next : Scan, next.Holds tokens (word ++ String.ofList text) depth ∧
        ∀ rest, scan.run (text ++ rest) = next.run rest := by
  induction text with
  | nil =>
      intro scan word hholds _
      exact ⟨scan, by simpa using hholds, fun _ => rfl⟩
  | cons c text ih =>
      intro scan word hholds hplain
      obtain ⟨hc, hraw⟩ := List.forall_mem_cons.mp hraw
      have hinclude : scan.draft.isInclude = false := by
        refine Draft.isInclude_eq_false ?_
        rw [hholds.complete, hholds.gathered]
        cases tokens with
        | nil => exact isDirective_of_append hplain
        | cons token rest => exact hplain
      rw [← push_append_ofList] at hplain ⊢
      obtain ⟨next, hnext, hrun⟩ := ih hraw (hholds.push c) hplain
      refine ⟨next, hnext, fun rest => ?_⟩
      rw [← hrun, List.cons_append]
      exact run_of_more ((step_of_code hholds.code c).trans (codeStep_raw hc hinclude)) _

theorem run_word_end (hholds : scan.Holds tokens token depth) (hne : token ≠ "")
    (hpiece : IsPiece token) : ∃ next : Scan, next.Holds (tokens ++ [token]) "" depth ∧
      ∀ rest, scan.run (' ' :: rest) = next.run rest := by
  refine ⟨_, hholds.flush hne hpiece, fun rest => run_of_more ?_ rest⟩
  rw [step_of_code hholds.code, codeStep_blank]

theorem run_slash {c : Char} (hholds : scan.Holds tokens word depth) (hslash : c ≠ '/')
    (hstar : c ≠ '*') : ∃ next : Scan, next.Holds tokens (word.push '/') depth ∧
      ∀ rest, scan.run ('/' :: c :: rest) = next.run (c :: rest) := by
  refine ⟨_, hholds.push '/', fun rest => ?_⟩
  have hopens : scan.step '/' = .more { scan with mode := .slash } := step_of_code hholds.code '/'
  have hkeeps : step { scan with mode := .slash } c
      = step { scan with draft := scan.draft.push '/' scan.line } c := by
    rw [step_of_code (hholds.push '/').code]
    simp only [step, keepSlash, ← hholds.code]
  rw [run_of_more hopens, run, run, hkeeps]

theorem run_literal {quote : Char} {body : List Char} (hquote : quote ≠ '\\')
    (hbody : LiteralBody quote body) : ∀ {scan : Scan} {start : Nat} {text : String},
      scan.mode = .literal quote start text →
      ∃ line, ∀ rest, scan.run (body ++ quote :: rest)
        = run ⟨.code, scan.draft.emit (text ++ String.ofList (body ++ [quote])) start, line,
            scan.depth⟩ rest := by
  induction hbody with
  | nil =>
      intro scan start text hmode
      refine ⟨scan.line, fun rest => run_of_more ?_ rest⟩
      rw [step_of_literal hmode, if_pos rfl, List.nil_append, ← push_append_ofList]
      simp
  | @plain c body hne hescape hbody ih =>
      intro scan start text hmode
      have hstep := step_of_literal hmode c
      rw [if_neg hne, if_neg hescape] at hstep
      obtain ⟨line, hrun⟩ :=
        @ih { scan with mode := .literal quote start (text.push c), line := scan.lineAfter c }
          start (text.push c) rfl
      refine ⟨line, fun rest => ?_⟩
      rw [List.cons_append, run_of_more hstep, hrun, push_append_ofList, List.cons_append]
  | @escaped c body hbody ih =>
      intro scan start text hmode
      have hstep := step_of_literal hmode '\\'
      rw [if_neg (Ne.symm hquote), if_pos rfl] at hstep
      obtain ⟨line, hrun⟩ :=
        @ih { scan with mode := .literal quote start ((text.push '\\').push c),
                        line := lineAfter { scan with line := scan.lineAfter '\\' } c }
          start ((text.push '\\').push c) rfl
      refine ⟨line, fun rest => ?_⟩
      rw [List.cons_append, List.cons_append, run_of_more hstep, run_of_more rfl]
      refine (hrun rest).trans ?_
      rw [push_append_ofList, push_append_ofList, List.cons_append, List.cons_append]

/-! ### Tokens -/

theorem run_piece (hholds : scan.Holds tokens "" depth) (hpiece : IsPiece token)
    (hraw : ∀ c ∈ token.toList, isRaw c)
    (hplain : isDirective (tokens.head?.getD token) = false) :
    ∃ next : Scan, next.Holds (tokens ++ [token]) "" depth ∧
      ∀ rest, scan.run (token.toList ++ ' ' :: rest) = next.run rest := by
  by_cases hslash : '/' ∈ token.toList
  · rcases hpiece.eq_of_mem_slash hslash with rfl | rfl
    · obtain ⟨gathered, hgathered, hrun⟩ := run_slash (c := ' ') hholds (by decide) (by decide)
      obtain ⟨next, hnext, hend⟩ := run_word_end hgathered (by decide) hpiece
      exact ⟨next, hnext, fun rest => (hrun rest).trans (hend rest)⟩
    · obtain ⟨gathered, hgathered, hrun⟩ := run_slash (c := '=') hholds (by decide) (by decide)
      have hunmarked : ∀ c ∈ ['='], c ∉ codeMarks := by simp [codeMarks]
      have hspelled : "".push '/' ++ String.ofList ['='] = "/=" := by decide
      obtain ⟨between, hbetween, hgather⟩ := run_raw hunmarked hgathered (by rwa [hspelled])
      rw [hspelled] at hbetween
      obtain ⟨next, hnext, hend⟩ := run_word_end hbetween (by decide) hpiece
      exact ⟨next, hnext, fun rest => (hrun _).trans ((hgather _).trans (hend rest))⟩
  · have hunmarked : ∀ c ∈ token.toList, c ∉ codeMarks := by
      intro c hc
      have hc' := hraw c hc
      rw [isRaw, Bool.or_eq_true, beq_iff_eq] at hc'
      rcases hc' with rfl | hc'
      · exact absurd hc hslash
      · simpa using hc'
    have hspelled : "" ++ String.ofList token.toList = token := by simp
    have hplain' : isDirective (tokens.head?.getD ("" ++ String.ofList token.toList)) = false := by
      rwa [hspelled]
    obtain ⟨gathered, hgathered, hrun⟩ := run_raw hunmarked hholds hplain'
    rw [hspelled] at hgathered
    obtain ⟨next, hnext, hend⟩ := run_word_end hgathered hpiece.ne_empty hpiece
    exact ⟨next, hnext, fun rest => (hrun _).trans (hend rest)⟩

theorem run_mark (hholds : scan.Holds tokens "" depth) (hmark : token ∈ markTokens) {after : Nat}
    (hstep : lineStep depth token = some after) :
    ∃ next : Scan, next.Holds (tokens ++ [token]) "" after ∧
      ∀ rest, scan.run (token.toList ++ ' ' :: rest) = next.run rest := by
  suffices htaken : ∃ c, token = String.singleton c ∧
      scan.codeStep c = .more { scan.emitChar c with depth := after } by
    obtain ⟨c, rfl, htaken⟩ := htaken
    have hnext := hholds.emitChar c after
    refine ⟨_, hnext, fun rest => ?_⟩
    rw [String.toList_singleton, List.singleton_append,
      run_of_more ((step_of_code hholds.code c).trans htaken), hnext.run_blank]
  have hopened := hholds.opened
  simp only [markTokens, List.mem_cons, List.not_mem_nil, or_false] at hmark
  rcases hmark with rfl | rfl | rfl | rfl | rfl | rfl | rfl | rfl | rfl | rfl | rfl | rfl
  · have hne : depth ≠ 0 := by
      rintro rfl
      cases hstep
    obtain rfl : depth = after := by simpa [lineStep, hne] using hstep
    refine ⟨';', rfl, (if_neg (by rwa [hopened])).trans ?_⟩
    rw [← hopened]
    rfl
  · cases hstep
  · cases hstep
  · cases hstep
    exact ⟨'(', rfl, by rw [← hopened]; rfl⟩
  · have hne : depth ≠ 0 := by
      rintro rfl
      cases hstep
    obtain rfl : depth - 1 = after := by simpa [lineStep, hne] using hstep
    refine ⟨')', rfl, (if_neg (by rwa [hopened])).trans ?_⟩
    rw [← hopened]
  all_goals
    cases hstep
    rw [← hopened]
  · exact ⟨'@', rfl, rfl⟩
  · exact ⟨',', rfl, rfl⟩
  · exact ⟨'~', rfl, rfl⟩
  · exact ⟨'?', rfl, rfl⟩
  · exact ⟨'\\', rfl, rfl⟩
  · exact ⟨'[', rfl, rfl⟩
  · exact ⟨']', rfl, rfl⟩

theorem run_token (hholds : scan.Holds tokens "" depth) (htoken : LexedToken token)
    (hplain : isDirective (tokens.head?.getD token) = false) {after : Nat}
    (hstep : lineStep depth token = some after) :
    ∃ next : Scan, next.Holds (tokens ++ [token]) "" after ∧
      ∀ rest, scan.run (token.toList ++ ' ' :: rest) = next.run rest := by
  cases htoken with
  | piece hpiece hraw =>
      have hafter := lineStep_of_not_mark (not_mark_of_raw hraw) depth
      obtain rfl : depth = after := Option.some.inj (hafter.symm.trans hstep)
      exact run_piece hholds hpiece hraw hplain
  | mark hmark => exact run_mark hholds hmark hstep
  | @literal quote body hquote hbody htext =>
      have hmark : token ∉ markTokens := not_mark_of_quote hquote (by rw [htext]; rfl)
      have hafter := lineStep_of_not_mark hmark depth
      obtain rfl : depth = after := Option.some.inj (hafter.symm.trans hstep)
      have hstop : quote ≠ '\\' := by
        rcases hquote with rfl | rfl <;> decide
      obtain ⟨line, hrun⟩ := @run_literal quote body hstop hbody
        { scan with mode := .literal quote scan.line (String.singleton quote) } scan.line
        (String.singleton quote) rfl
      have hspelled : String.singleton quote ++ String.ofList (body ++ [quote]) = token := by
        apply String.toList_injective
        simp [htext]
      have hnext := hholds.emit token scan.line line depth
      refine ⟨_, hnext, fun rest => ?_⟩
      rw [htext, List.cons_append, List.append_assoc, List.singleton_append,
        run_of_more ((step_of_code hholds.code quote).trans (codeStep_quote hquote)), hrun, hspelled,
        ← hnext.run_blank, hholds.opened]

theorem run_tokens {init : List String} (htokens : ∀ token ∈ init, LexedToken token) :
    ∀ {scan : Scan} {before : List String} {depth after : Nat}, scan.Holds before "" depth →
      (∀ first ∈ (before ++ init).head?, isDirective first = false) →
      init.foldlM lineStep depth = some after →
      ∃ next : Scan, next.Holds (before ++ init) "" after ∧
        ∀ rest, scan.run (spaced init ++ rest) = next.run rest := by
  induction init with
  | nil =>
      intro scan before depth after hholds _ hdepth
      obtain rfl : depth = after := Option.some.inj hdepth
      exact ⟨scan, by simpa using hholds, fun _ => rfl⟩
  | cons token init ih =>
      intro scan before depth after hholds hplain hdepth
      obtain ⟨htoken, htokens⟩ := List.forall_mem_cons.mp htokens
      obtain ⟨between, hstep, hdepth⟩ := foldlM_cons_eq_some_iff.1 hdepth
      have hfirst : isDirective (before.head?.getD token) = false := by
        refine hplain _ ?_
        cases before <;> simp
      obtain ⟨middle, hmiddle, hrun⟩ := run_token hholds htoken hfirst hstep
      rw [List.append_cons] at hplain ⊢
      obtain ⟨next, hnext, hruns⟩ := ih htokens hmiddle hplain hdepth
      refine ⟨next, hnext, fun rest => ?_⟩
      rw [← hruns, ← hrun, spaced, List.flatMap_cons, List.append_assoc, List.append_assoc]
      rfl

theorem run_end (hholds : scan.Holds tokens "" depth) (hends : EndsLine depth token)
    {rest : List Char} (hrest : rest ≠ []) : ∃ number,
      scan.run (token.toList ++ rest)
        = ⟨.ok (some ⟨number, tokens ++ [token]⟩), rest, scan.line, depth⟩ := by
  suffices htaken : ∃ c, token = String.singleton c ∧ scan.codeStep c = .done (scan.emitChar c) by
    obtain ⟨c, rfl, htaken⟩ := htaken
    obtain ⟨number, hline⟩ := (hholds.emitChar c depth).exists_line? (by simp)
    refine ⟨number, ?_⟩
    have hrest : rest.isEmpty = false := by simpa using hrest
    rw [String.toList_singleton, List.singleton_append, run, step_of_code hholds.code, htaken]
    simp only [hrest, Bool.false_and, Bool.false_eq_true, if_false, ← hline, ← hholds.opened]
    rfl
  have hopened := hholds.opened
  rcases hends with rfl | rfl | ⟨rfl, rfl⟩
  · exact ⟨'\x7b', rfl, rfl⟩
  · exact ⟨'\x7d', rfl, rfl⟩
  · exact ⟨';', rfl, if_pos hopened⟩

end Scan

/-! ### Lines -/

theorem Lexer.holds_fresh (lexer : Lexer) : lexer.fresh.Holds [] "" lexer.depth where
  code := rfl
  complete := rfl
  gathered := rfl
  opened := rfl
  begun h := by simp at h

/-- A line that is written out is read, whether or not a blank is left from the line before it. -/
theorem Lexer.nextLine_of_isLine {lexer : Lexer} {tokens : List String} {after : Nat}
    {rest : List Char} (hline : IsLine lexer.depth tokens after)
    (hrest : lexer.rest = spaced tokens ++ rest ∨ lexer.rest = ' ' :: (spaced tokens ++ rest)) :
    ∃ number next, lexer.nextLine = (.ok (some ⟨number, tokens⟩), next) ∧
      next.rest = ' ' :: rest ∧ next.depth = after := by
  obtain ⟨htokens, hplain, init, last, rfl, hdepth, hends⟩ := hline
  have hfresh := lexer.holds_fresh
  have hinit : ∀ token ∈ init, LexedToken token :=
    fun token hmem => htokens token (List.mem_append_left _ hmem)
  have hfirst : ∀ first ∈ init.head?, isDirective first = false := by
    intro first hmem
    refine hplain first ?_
    rw [Option.mem_def] at hmem
    rw [List.head?_append, hmem]
    rfl
  obtain ⟨before, hbefore, hrun⟩ := Scan.run_tokens hinit hfresh hfirst hdepth
  obtain ⟨number, hend⟩ := Scan.run_end hbefore hends (List.cons_ne_nil ' ' rest)
  have hspaced : spaced (init ++ [last]) ++ rest
      = spaced init ++ (last.toList ++ ' ' :: rest) := by
    simp [spaced]
  have houtcome : lexer.fresh.run lexer.rest
      = ⟨.ok (some ⟨number, init ++ [last]⟩), ' ' :: rest, before.line, after⟩ := by
    rw [hspaced] at hrest
    rcases hrest with hrest | hrest
    · rw [hrest, hrun, hend]
      rfl
    · rw [hrest, hfresh.run_blank, hrun, hend]
      rfl
  refine ⟨number, { lexer with rest := ' ' :: rest, line := before.line, depth := after }, ?_, rfl,
    rfl⟩
  simp only [nextLine, houtcome]

namespace Source

variable {limit : Nat}

theorem nextLine_of_top {source : Source limit} {line : Line} {next : Lexer}
    (h : source.top.nextLine = (.ok (some line), next)) :
    source.nextLine = (.ok (some line), { source with top := next, lastLine := line.number }) := by
  have hpull : pullLine source.top source.below = (.ok (some line), next, source.below) := by
    cases hbelow : source.below with
    | nil => simp [pullLine, h]
    | cons below rest => simp [pullLine, h]
  simp [nextLine, hpull]

theorem hands_of_isLine {lines : List (List String)}
    (hlines : ∀ tokens ∈ lines, IsLine 0 tokens 0) :
    ∀ {source : Source limit}, source.top.depth = 0 →
      source.top.rest = spaced lines.flatten ∨ source.top.rest = ' ' :: spaced lines.flatten →
      ∃ given after, source.Hands given after ∧ given.map Line.tokens = lines := by
  induction lines with
  | nil => exact fun _ _ => ⟨[], _, .nil, rfl⟩
  | cons tokens lines ih =>
      intro source hdepth hrest
      obtain ⟨hline, hlines⟩ := List.forall_mem_cons.mp hlines
      have hspaced : spaced (tokens :: lines).flatten = spaced tokens ++ spaced lines.flatten := by
        simp [spaced]
      rw [hspaced] at hrest
      have hline : IsLine source.top.depth tokens 0 := by rwa [hdepth]
      obtain ⟨number, next, hnext, hleft, hafter⟩ := Lexer.nextLine_of_isLine hline hrest
      have hgives := nextLine_of_top hnext
      obtain ⟨given, after, hhands, htokens⟩ :=
        @ih hlines { source with top := next, lastLine := number } hafter (.inr hleft)
      exact ⟨⟨number, tokens⟩ :: given, after, .cons hgives hhands, by rw [List.map_cons, htokens]⟩

end Source

end LslFront
