import LslFront.Proofs.Line.Joining

/-!
# Texts that leave nothing open

A text leaves nothing open if what is written behind it begins a line of its own.  It is enough to
try a semicolon: a line that is open would take it, a comment would hide it, and an open parenthesis
would keep the line from ending at it.  So such a text can stand in front of any other, and what
follows is read as by itself, further down by the line feeds of the text.
-/

namespace LslFront

/-- A semicolon behind the text is a line of its own. -/
def LeavesNothingOpen (text : String) : Prop :=
  ∃ lines number, tokenize text = .ok lines ∧
    tokenize (text ++ ";") = .ok (lines ++ [⟨number, [";"]⟩])

/-! ### One more character -/

namespace Scan

variable {scan last : Scan} {source : List Char} {c : Char} {depth : Nat}

/-- A run over one character that gives a line, or none, has taken the character. -/
theorem rest_run_single {line : Option Line} (h : (scan.run [c]).result = .ok line) :
    (scan.run [c]).rest = [] := by
  rw [run] at h ⊢
  split at h
  · rfl
  · split <;> rfl
  · cases h

/-- If nothing is left for a line and a semicolon makes one, the machine is back where it began. -/
theorem UnderWay.eq_fresh_of_semicolon (h : last.UnderWay depth) (hend : last.atEnd = .ok none)
    {line : Line} (hmark : (last.run [';']).result = .ok (some line)) :
    last = ⟨.code, .empty, last.line, 0⟩ := by
  refine h.eq_fresh ?_ hend
  obtain ⟨mode, draft, number, depth⟩ := last
  cases mode with
  | code => rfl
  | lineComment =>
      -- The comment takes the semicolon.
      cases hend.symm.trans hmark
  | slash =>
      -- The slash itself would be a token.
      simp only [atEnd] at hend
      split at hend
      · have hwhole : (keepSlash ⟨.slash, draft, number, depth⟩).draft.Whole := h.whole.push '/' number
        have htokens := hwhole.flush.tokens_eq_nil rfl (Except.ok.inj hend)
        have hchars : (draft.push '/' number).chars = [] := by
          rw [← Draft.chars_flush, Draft.chars]
          exact (congrArg (charsOf · ++ []) htokens)
        simp at hchars
      · cases hend
  | _ => cases hend

end Scan

namespace Lexer

variable {lexer after : Lexer} {lines : List Line} {before : List Char} {last : Scan}

theorem exists_nextLine_of_lines {line : Line} (h : lexer.lines = .ok (line :: lines)) :
    ∃ after, lexer.nextLine = (.ok (some line), after) := by
  rcases hnext : lexer.nextLine with ⟨result, after⟩
  match result with
  | .error fault =>
      rw [lines_of_error hnext] at h
      cases h
  | .ok none =>
      rw [lines_of_none hnext] at h
      cases h
  | .ok (some found) =>
      rw [lines_of_some hnext] at h
      obtain ⟨others, -, heq⟩ := map_eq_ok_iff.1 h
      obtain ⟨rfl, -⟩ := List.cons.inj heq
      exact ⟨after, rfl⟩

theorem ofText_append (text more : String) (name : Option String) :
    ofText (text ++ more) name = (ofText text name).followed more.toList := by
  rw [ofText, String.toList_append]
  rfl

/-- A text that completes no line has at most one with one character more. -/
theorem length_lines_followed_le (h : lexer.fresh.Passes lexer.rest last) {c : Char}
    (hlines : (lexer.followed [c]).lines = .ok lines) : lines.length ≤ 1 := by
  have hrun : (lexer.followed [c]).fresh.run (lexer.followed [c]).rest = last.run [c] :=
    h.run_append [c]
  rcases hnext : (lexer.followed [c]).nextLine with ⟨result, after⟩
  match result with
  | .error fault =>
      rw [lines_of_error hnext] at hlines
      cases hlines
  | .ok none =>
      rw [lines_of_none hnext] at hlines
      cases hlines
      exact Nat.zero_le _
  | .ok (some line) =>
      obtain ⟨hresult, hafter⟩ := result_of_nextLine hnext
      rw [hrun] at hresult hafter
      have hrest : after.rest = [] := by
        rw [hafter]
        exact Scan.rest_run_single hresult
      rw [lines_of_some hnext] at hlines
      obtain ⟨others, hothers, rfl⟩ := map_eq_ok_iff.1 hlines
      rw [lines_eq_nil hrest hothers]
      exact Nat.le_refl _

/-- The lines of a text that leaves nothing open are followed by those of the next. -/
theorem lines_followed_of_semicolon (hline : lexer.line = numberAfter before)
    (h : lexer.lines = .ok lines) {number : Nat}
    (hmark : (lexer.followed [';']).lines = .ok (lines ++ [⟨number, [";"]⟩])) (more : List Char) :
    (lexer.followed more).lines = (lexer.skipped more).lines.map (lines ++ ·) := by
  fun_induction Lexer.lines lexer generalizing lines before with
  | case1 => cases h
  | case2 lexer after hnext =>
      cases h
      have hback : ∀ last, lexer.fresh.Passes lexer.rest last → last.atEnd = .ok none →
          last = ⟨.code, .empty, last.line, 0⟩ := by
        intro last hlast hend
        have hway := hlast.underWay (Scan.underWay_fresh lexer)
        obtain ⟨after, hsemicolon⟩ := exists_nextLine_of_lines hmark
        have hrun : (last.run [';']).result = .ok (some ⟨number, [";"]⟩) := by
          rw [← hlast.run_append [';']]
          exact (result_of_nextLine hsemicolon).1
        exact hway.eq_fresh_of_semicolon hend hrun
      rw [lines_congr (nextLine_followed_of_none hline hback hnext more)]
      cases (lexer.skipped more).lines <;> rfl
  | case3 lexer line after hnext _ ih =>
      obtain ⟨others, hothers, rfl⟩ := map_eq_ok_iff.1 h
      obtain ⟨taken, hcall⟩ := exists_callPlaced hline hnext
      have hcomplete : ¬ ∃ last, lexer.fresh.Passes lexer.rest last := by
        rintro ⟨last, hlast⟩
        have hlength := length_lines_followed_le hlast hmark
        simp at hlength
      have hrest : (after.followed [';']).lines = .ok (others ++ [⟨number, [";"]⟩]) := by
        rw [lines_of_some (nextLine_followed_of_some hnext hcomplete [';'])] at hmark
        obtain ⟨found, hfound, heq⟩ := map_eq_ok_iff.1 hmark
        obtain rfl : found = others ++ [⟨number, [";"]⟩] := (List.cons.inj heq).2
        exact hfound
      rw [lines_of_some (nextLine_followed_of_some hnext hcomplete more),
        ih hcall.counter hothers hrest, skipped_of_nextLine hline hnext]
      cases (lexer.skipped more).lines <;> rfl

end Lexer

/-- Behind a text that leaves nothing open the lines of another text are those that it has by
    itself, further down. -/
theorem tokenize_append_of_settled {text : String} {lines : List Line} (h : LeavesNothingOpen text)
    (hlines : tokenize text = .ok lines) (more : String) :
    tokenize (text ++ more) = (shiftedAnswer (text.toList.count '\n')
      (List.map (Line.shifted (text.toList.count '\n'))) (tokenize more)).map (lines ++ ·) := by
  obtain ⟨found, number, hfound, hmark⟩ := h
  obtain rfl : found = lines := Except.ok.inj (hfound.symm.trans hlines)
  have hskipped : (Lexer.ofText text none).skipped more.toList
      = (Lexer.ofText more none).shifted (text.toList.count '\n') := rfl
  have hline : (Lexer.ofText text none).line = numberAfter [] := rfl
  rw [tokenize, Lexer.ofText_append] at hmark
  rw [tokenize, Lexer.ofText_append, Lexer.lines_followed_of_semicolon hline hlines hmark, hskipped,
    Lexer.shifted_lines]
  rfl

section

variable {text more : String} {lines all : List Line}

theorem tokenize_append_eq_ok_iff (h : LeavesNothingOpen text) (hlines : tokenize text = .ok lines) :
    tokenize (text ++ more) = .ok all ↔ ∃ others, tokenize more = .ok others ∧
      lines ++ others.map (Line.shifted (text.toList.count '\n')) = all := by
  simp [tokenize_append_of_settled h hlines, shiftedAnswer]

theorem leavesNothingOpen_empty : LeavesNothingOpen "" :=
  ⟨[], 1, by cbv, by cbv⟩

theorem LeavesNothingOpen.append (h : LeavesNothingOpen text) (hmore : LeavesNothingOpen more) :
    LeavesNothingOpen (text ++ more) := by
  have ⟨lines, _, hlines, _⟩ := h
  obtain ⟨others, number, hothers, hmark⟩ := hmore
  refine ⟨lines ++ others.map (Line.shifted (text.toList.count '\n')),
    number + text.toList.count '\n', ?_, ?_⟩
  · exact (tokenize_append_eq_ok_iff h hlines).mpr ⟨others, hothers, rfl⟩
  · rw [String.append_assoc]
    exact (tokenize_append_eq_ok_iff h hlines).mpr ⟨_, hmark, by simp [Line.shifted]⟩

end

end LslFront
