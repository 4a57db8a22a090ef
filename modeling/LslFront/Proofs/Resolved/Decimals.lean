import LslFront.Proofs.Constant.Decimals
import LslFront.Proofs.Resolved.Literals

/-!
# Decimal numbers in scripts

A decimal number with a point or an exponent is a script of one token: its point joins the digits
before or after it, and the sign of its exponent stands between the mark and a digit.  The token is
a value, and it resolves to the double that a cast of the same text gives.
-/

namespace LslFront

/-! ### One word -/

/-- Word characters join whatever stands before them. -/
theorem Joined.append_words {text more : List Char} {ahead : Option Char}
    (h : Joined text (more.head?.or ahead)) (hmore : ∀ c ∈ more, isWordChar c) :
    Joined (text ++ more) ahead := by
  induction more generalizing text with
  | nil => simpa using h
  | cons c rest ih =>
      obtain ⟨hc, hrest⟩ := List.forall_mem_cons.mp hmore
      have hpush : Joined (text ++ [c]) (rest.head?.or ahead) :=
        Joined.push (by simpa using h) (continuesWord_of_isWordChar hc)
      simpa using ih hpush hrest

namespace WrittenDecimal

variable {d : WrittenDecimal}

theorem exists_isDigit_stem (d : WrittenDecimal) : ∃ c ∈ d.stem, c.isDigit := by
  obtain hne | ⟨row, hrow, hne⟩ := d.has_digits
  · obtain ⟨c, rest, hwhole⟩ := List.exists_cons_of_ne_nil hne
    exact ⟨c, by simp [stem, hwhole], d.isDigit_whole c (by simp [hwhole])⟩
  · obtain ⟨c, rest, rfl⟩ := List.exists_cons_of_ne_nil hne
    exact ⟨c, by simp [stem, pointed_of_some hrow], d.isDigit_fraction _ hrow c (by simp)⟩

theorem count_point {row : List Char} (h : ∀ c ∈ row, c.isDigit) : row.count '.' = 0 :=
  List.count_eq_zero.mpr fun hmem => absurd (h '.' hmem) (by decide)

theorem isDecimalStem_stem (d : WrittenDecimal) : isDecimalStem d.stem := by
  obtain ⟨c, hmem, hc⟩ := d.exists_isDigit_stem
  have hany : d.stem.any Char.isDigit := List.any_eq_true.mpr ⟨c, hmem, hc⟩
  have hall : d.stem.all (fun c => c.isDigit || c == '.') :=
    List.all_eq_true.mpr fun c hc => by simpa using mem_stem hc
  have hcount : d.stem.count '.' ≤ 1 := by
    rw [stem, List.count_append, count_point d.isDigit_whole]
    cases hfraction : d.fraction with
    | none => simp [pointed_of_none hfraction]
    | some row =>
        simp [pointed_of_some hfraction, count_point (d.isDigit_fraction row hfraction)]
  simp [isDecimalStem, hany, hall, hcount]

theorem joined_stem (d : WrittenDecimal) (ahead : Option Char) : Joined d.stem ahead := by
  have hwhole : ∀ ahead, Joined d.whole ahead := fun _ =>
    joined_of_isWordChar fun c hc => isWordChar_of_isDigit (d.isDigit_whole c hc)
  cases hfraction : d.fraction with
  | none => simpa [stem, pointed_of_none hfraction] using hwhole ahead
  | some row =>
      have hrow := d.isDigit_fraction row hfraction
      -- Digits before the point make the word a number; without them a digit stands after it.
      have hpoint : continuesWord (String.ofList d.whole) '.' (row.head?.or ahead) := by
        obtain hne | ⟨row', hrow', hne⟩ := d.has_digits
        · obtain ⟨c, rest, hlist⟩ := List.exists_cons_of_ne_nil hne
          have hstem : isDecimalStem d.whole := by
            have hdigit : c.isDigit := d.isDigit_whole c (by simp [hlist])
            have hany : d.whole.any Char.isDigit := by simp [hlist, hdigit]
            have hall : d.whole.all (fun c => c.isDigit || c == '.') :=
              List.all_eq_true.mpr fun c hc => by simp [d.isDigit_whole c hc]
            simp [isDecimalStem, hany, hall, count_point d.isDigit_whole]
          simp [continuesWord, hstem]
        · obtain rfl : row' = row := Option.some.inj (hrow'.symm.trans hfraction)
          obtain ⟨c, rest, rfl⟩ := List.exists_cons_of_ne_nil hne
          have hdigit : c.isDigit := hrow c (by simp)
          simp [continuesWord, hdigit]
      have hjoined : Joined (d.whole ++ ['.'] ++ row) ahead :=
        ((hwhole _).push hpoint).append_words fun c hc => isWordChar_of_isDigit (hrow c hc)
      simpa [stem, pointed_of_some hfraction] using hjoined

theorem joined_exponent {e : WrittenExponent} (hexponent : d.exponent = some e) :
    Joined d.chars none := by
  obtain ⟨first, rest, hdigits⟩ := List.exists_cons_of_ne_nil e.digits_ne_nil
  have hwords : ∀ c ∈ e.digits, isWordChar c := fun c hc =>
    isWordChar_of_isDigit (e.isDigit_digits c hc)
  have hfirst : first.isDigit := e.isDigit_digits first (by simp [hdigits])
  have hmark : isWordChar e.mark := by
    rcases e.mark_eq with heq | heq <;> rw [heq] <;> decide
  have hstem : ∀ ahead, Joined (d.stem ++ [e.mark]) ahead := fun ahead =>
    (d.joined_stem _).push (continuesWord_of_isWordChar hmark)
  have hawaits : awaitsExponent (d.stem ++ [e.mark]) := by
    rcases e.mark_eq with heq | heq <;> simp [awaitsExponent, heq, d.isDecimalStem_stem]
  cases hsign : e.sign with
  | none =>
      have hjoined : Joined (d.stem ++ [e.mark] ++ e.digits) none := (hstem _).append_words hwords
      simpa [chars, exponentChars_of_some hexponent, WrittenExponent.chars, hsign] using hjoined
  | some sign =>
      have hjoins : continuesWord (String.ofList (d.stem ++ [e.mark])) sign e.digits.head? := by
        rcases e.sign_eq sign hsign with rfl | rfl <;>
          simp [continuesWord, hawaits, hdigits, hfirst]
      have hjoined : Joined (d.stem ++ [e.mark] ++ [sign] ++ e.digits) none :=
        ((hstem _).push (by simpa using hjoins)).append_words hwords
      simpa [chars, exponentChars_of_some hexponent, WrittenExponent.chars, hsign] using hjoined

theorem joined_chars (d : WrittenDecimal) : Joined d.chars none := by
  cases hexponent : d.exponent with
  | none => simpa [chars, exponentChars_of_none hexponent] using d.joined_stem none
  | some e => exact joined_exponent hexponent

/-! ### One token -/

variable {token : String}

theorem isRaw_of_mem_chars {c : Char} (h : c ∈ d.chars) : isRaw c := by
  rcases mem_chars h with hdigit | hmark
  · exact isRaw_of_isWordChar (isWordChar_of_isDigit hdigit)
  · have hall : numberMarks.all isRaw := by decide
    exact List.all_eq_true.mp hall c hmark

theorem tokenize_eq (htoken : token.toList = d.chars) :
    ∃ number, tokenize token = .ok [⟨number, [token]⟩] := by
  have hraw : ∀ c ∈ token.toList, isRaw c := fun c hc => isRaw_of_mem_chars (htoken ▸ hc)
  have hne : token ≠ "" := by
    rintro rfl
    obtain ⟨c, rest, hlist, -⟩ | ⟨c, rest, hlist, -⟩ := d.opens
    all_goals
      rw [← htoken] at hlist
      cases hlist
  have hplain : isDirective token = false := by
    obtain ⟨c, rest, hlist, hc⟩ | ⟨c, rest, hlist, -⟩ := d.opens
    · have hhash : c ≠ '#' := by
        rintro rfl
        cases hc
      simp [isDirective, htoken, hlist, hhash]
    · simp [isDirective, htoken, hlist]
  have hjoined : Joined token.toList none := by
    rw [htoken]
    exact d.joined_chars
  exact tokenize_token (.piece (.inl ⟨hne, hjoined⟩) hraw) hplain (not_mark_of_raw hraw)

theorem isNumeric_token (htoken : token.toList = d.chars) : isNumeric token := by
  obtain ⟨c, rest, hlist, hc⟩ | ⟨c, rest, hlist, hc⟩ := d.opens
  · have hpoint : c ≠ '.' := by
      rintro rfl
      cases hc
    unfold isNumeric
    rw [htoken, hlist]
    split
    · rename_i heq
      exact absurd (List.cons.inj heq).1 hpoint
    · rename_i heq
      rwa [← (List.cons.inj heq).1]
    · rename_i heq
      cases heq
  · simp [isNumeric, htoken, hlist, hc]

theorem ofToken_eq {scope : Scope} (htoken : token.toList = d.chars)
    (h : d.fraction.isSome ∨ d.exponent.isSome) :
    Resolved.ofToken scope token = .ok (.constant (.float d.number.toFloat)) := by
  have hnumber := numberOfLiteral?_eq htoken h
  obtain ⟨c, rest, hlist, hc⟩ | ⟨c, rest, hlist, -⟩ := d.opens
  · exact ofToken_number (by rw [htoken, hlist]; rfl) hc hnumber
  · have hquoted : isQuoted token = false := by simp [isQuoted, htoken, hlist]
    rw [Resolved.ofToken, if_neg (by simp [hquoted]), if_pos (by simp [htoken, hlist]), hnumber]

end WrittenDecimal

/-- A decimal number with a point or an exponent is one line of one token, the token is a value, and
    the value that it resolves to is the one that a cast of the text to float gives: the number that
    is written, rounded to a double. -/
theorem float_readers_agree (scope : Scope) (d : WrittenDecimal)
    (h : d.fraction.isSome ∨ d.exponent.isSome) (token : String) (htoken : token.toList = d.chars) :
    (∃ number, tokenize token = .ok [⟨number, [token]⟩]) ∧
      recombineCasts [token] = .ok [token] ∧ parseExpression [token] = .ok (.value token) ∧
      resolveTokens scope [token] = .ok (.constant (.float (floatPrefix token))) ∧
      (Constant.string token).castTo? .float = some (.float (floatPrefix token)) ∧
      floatPrefix token = d.number.toFloat := by
  have hfloat := WrittenDecimal.floatPrefix_eq htoken
  have hoperand : isOperand token := by simp [isOperand, WrittenDecimal.isNumeric_token htoken]
  have hexpr : Expr.Grammatical false (.value token) := .value hoperand
  refine ⟨WrittenDecimal.tokenize_eq htoken, rfl,
    parseExpression_of_writes hexpr hexpr.map_castSpelling, ?_, rfl, hfloat⟩
  rw [resolveTokens_operand hoperand, WrittenDecimal.ofToken_eq htoken h, hfloat]

/-- The text `.5e+3` is the number `5 · 10 ^ 2`. -/
theorem float_readers_agree_leading_point :
    (∃ number, tokenize ".5e+3" = .ok [⟨number, [".5e+3"]⟩]) ∧
      resolveTokens ⟨.standard, fun _ => false⟩ [".5e+3"]
        = .ok (.constant (.float (floatPrefix ".5e+3"))) ∧
      floatPrefix ".5e+3" = Decimal.toFloat ⟨5, 2⟩ := by
  let power : WrittenExponent := ⟨'e', some '+', ['3'], .inl rfl, by simp, by simp, by simp⟩
  let d : WrittenDecimal := ⟨[], some ['5'], some power, by simp, by simp, by simp⟩
  have hnumber : d.number = ⟨5, 2⟩ := by decide
  have hchars : (".5e+3" : String).toList = d.chars := by decide
  obtain ⟨hline, -, -, hvalue, -, hfloat⟩ :=
    float_readers_agree ⟨.standard, fun _ => false⟩ d (.inl rfl) ".5e+3" hchars
  exact ⟨hline, hvalue, hnumber ▸ hfloat⟩

end LslFront
