import LslFront.Proofs.Line.Respacing

/-!
# Sources of one word

A source that is one token makes one line of this token, and a source that is one raw word makes one
line of the tokens that the word is split into.  So what is written for a number or a string can be
read as a script of its own.
-/

namespace LslFront

/-! ### One token -/

theorem tokenize_token {token : String} (htoken : LexedToken token)
    (hplain : isDirective token = false) (hmark : token ∉ markTokens) :
    ∃ number, tokenize token = .ok [⟨number, [token]⟩] := by
  have hstep : [token].foldlM lineStep 0 = some 0 :=
    foldlM_lineStep_of_not_mark (by simpa using hmark) 0
  have hgrouped : Grouped 0 [[token]] :=
    .last (List.cons_ne_nil _ _) (by simpa using htoken) (by simpa using hplain) hstep
  obtain ⟨lines, hlines, htokens⟩ := tokenize_of_grouped hgrouped
  obtain ⟨line, rfl, hline⟩ := List.map_eq_singleton_iff.mp htokens
  exact ⟨line.number, by rw [← hline]; exact hlines⟩

theorem tokenize_literal {token : String} {quote : Char} {body : List Char}
    (hquote : quote = '"' ∨ quote = '\'') (hbody : LiteralBody quote body)
    (htoken : token.toList = quote :: (body ++ [quote])) :
    ∃ number, tokenize token = .ok [⟨number, [token]⟩] := by
  have hmark : token ∉ markTokens := not_mark_of_quote hquote (by simp [htoken])
  refine tokenize_token (.literal hquote hbody htoken) ?_ hmark
  rcases hquote with rfl | rfl <;> simp [isDirective, htoken]

theorem tokenize_wordChars {word : String} (hne : word ≠ "")
    (h : ∀ c ∈ word.toList, isWordChar c) : ∃ number, tokenize word = .ok [⟨number, [word]⟩] := by
  have hraw : ∀ c ∈ word.toList, isRaw c := fun c hc => isRaw_of_isWordChar (h c hc)
  refine tokenize_token (.word hne h) ?_ (not_mark_of_raw hraw)
  cases hdirective : isDirective word with
  | false => rfl
  | true =>
      obtain ⟨rest, hlist⟩ := List.head?_eq_some_iff.mp (beq_iff_eq.mp hdirective)
      exact absurd (h '#' (by simp [hlist])) (by decide)

/-! ### One raw word -/

/-- The end of the source completes the word, and the word the line. -/
theorem tokenize_word {word : String} (hraw : ∀ c ∈ word.toList, c ∉ codeMarks)
    (hplain : isDirective word = false) (hne : splitWord word ≠ []) :
    ∃ number, tokenize word = .ok [⟨number, splitWord word⟩] := by
  have hfresh := (Lexer.ofText word none).holds_fresh
  obtain ⟨next, hnext, hrun⟩ := Scan.run_raw hraw hfresh (by simpa using hplain)
  rw [String.ofList_toList, String.empty_append] at hnext
  have hword : word ≠ "" := by
    rintro rfl
    exact hne splitWord_empty
  obtain ⟨number, hnumber⟩ := Option.isSome_iff_exists.mp (hnext.begun (.inr hword))
  have hline : next.draft.flush.line? = some ⟨number, splitWord word⟩ := by
    obtain ⟨first, rest, hsplit⟩ := List.exists_cons_of_ne_nil hne
    simp [Draft.line?, Draft.flush, hnumber, hnext.complete, hnext.gathered, hsplit]
  have hend : next.atEnd = .ok (some ⟨number, splitWord word⟩) := by
    rw [Scan.atEnd, hnext.code]
    simp only [hnext.opened]
    rw [← hline]
    rfl
  have hwhole : (Lexer.ofText word none).fresh.run (Lexer.ofText word none).rest = next.run [] := by
    simpa [Lexer.ofText] using hrun []
  obtain ⟨after, hgives, hleft, hafter⟩ := Lexer.nextLine_of_run hwhole hend
  have hclosed : after.depth = 0 := hafter.trans hnext.opened
  refine ⟨number, ?_⟩
  rw [tokenize, Lexer.lines_of_some hgives, Lexer.lines_of_end hclosed (.inl hleft)]
  rfl

theorem signOf?_of_isWordChar {token : String} (h : ∀ c ∈ token.toList, isWordChar c) :
    signOf? token = none := by
  cases hsign : signOf? token with
  | none => rfl
  | some sign =>
      have hmem : sign ∈ token.toList := by
        unfold signOf? at hsign
        split at hsign
        · cases hsign
        · rename_i c rest hlist
          split at hsign
          · obtain rfl : c = sign := Option.some.inj hsign
            simp [hlist]
          · cases hsign
      have hword := h sign hmem
      rcases signOf?_eq hsign with rfl | rfl <;> cases hword

/-- No operator of several characters begins with a minus and goes on with a word character. -/
theorem not_longOperator_minus {c : Char} (h : isWordChar c) : "-".push c ∉ longOperators := by
  have hall : longOperators.all (fun operator => !operator.toList.any isWordChar) := by decide
  intro hmem
  have hnone := List.all_eq_true.mp hall _ hmem
  simp [h] at hnone

/-- A minus before a word is a token of its own. -/
theorem splitWord_minus {text : List Char} (hne : text ≠ []) (h : ∀ c ∈ text, isWordChar c) :
    splitWord (String.ofList ('-' :: text)) = ["-", String.ofList text] := by
  obtain ⟨c, rest, rfl⟩ := List.exists_cons_of_ne_nil hne
  have hc : isWordChar c := h c (by simp)
  have hminus : (Gathered.word "").step '-' (some c) = ([], .operator "-") := by
    have hstop : continuesWord "" '-' (some c) = false := by
      simp [continuesWord, awaitsExponent, show isWordChar '-' = false by decide]
    simp [Gathered.step, hstop, Gathered.tokens]
  have hbegins : (Gathered.operator "-").step c rest.head?
      = (["-"], .word (String.ofList [c])) := by
    have hjoins : continuesWord "" c rest.head? := continuesWord_of_isWordChar hc
    have hends := not_longOperator_minus hc
    simp [Gathered.step, Gathered.start, hends, hjoins]
  have hword : (Gathered.word (String.ofList [c])).cut rest = [String.ofList (c :: rest)] :=
    @Joined.cut [c] rest (joined_of_isWordChar h) (by simp)
  have hcut : (Gathered.word "").cut ('-' :: c :: rest) = ["-", String.ofList (c :: rest)] := by
    rw [Gathered.cut, List.head?_cons, hminus]
    simp only [List.nil_append]
    rw [Gathered.cut, hbegins]
    simp only [hword, List.singleton_append]
  have hplain : signOf? (String.ofList (c :: rest)) = none :=
    signOf?_of_isWordChar (by simpa using h)
  rw [splitWord, String.toList_ofList, hcut]
  generalize String.ofList (c :: rest) = word at hplain ⊢
  have hsign : signOf? "-" = some '-' := by decide
  have hrun : SignRun.spelling ⟨'-', ["-"]⟩ = ["-"] := by decide
  simp [respellRuns, respellFrom, hsign, hplain, hrun]

theorem tokenize_minus {text : List Char} (hne : text ≠ []) (h : ∀ c ∈ text, isWordChar c) :
    ∃ number, tokenize (String.ofList ('-' :: text))
      = .ok [⟨number, ["-", String.ofList text]⟩] := by
  have hraw : ∀ c ∈ (String.ofList ('-' :: text)).toList, c ∉ codeMarks := by
    rw [String.toList_ofList]
    refine List.forall_mem_cons.mpr ⟨by decide, fun c hc => ?_⟩
    exact not_mem_codeMarks_of_isWordChar (h c hc)
  have hplain : isDirective (String.ofList ('-' :: text)) = false := by simp [isDirective]
  have hsplit := splitWord_minus hne h
  rw [← hsplit]
  exact tokenize_word hraw hplain (by rw [hsplit]; exact List.cons_ne_nil _ _)

end LslFront
