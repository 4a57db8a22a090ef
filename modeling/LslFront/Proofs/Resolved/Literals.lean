import LslFront.Proofs.Constant.Integers
import LslFront.Proofs.Expr.Completeness
import LslFront.Proofs.Line.Single
import LslFront.Proofs.Resolved.Parentheses

/-!
# Integers in scripts

An integer that is written out is a script of one or two tokens, and these resolve to the integer.
The reader of literals knows no sign, so a negative integer is a minus and a literal, and the
literal that is too large by one is read together with its minus.  A row of hexadecimal digits of
any length is one literal.  On all of these the cast of a string to integer agrees.
-/

namespace LslFront

variable {scope : Scope} {token : String}

/-! ### One operand -/

theorem resolveTokens_operand (h : isOperand token) :
    resolveTokens scope [token] = Resolved.ofToken scope token := by
  have hexpr : Expr.Grammatical false (.value token) := .value h
  have hparse : parseExpression [token] = .ok (.value token) :=
    parseExpression_of_writes hexpr hexpr.map_castSpelling
  have hcasts : recombineCasts [token] = .ok [token] := rfl
  simp only [resolveTokens, hcasts, hparse, ok_mapError, ok_bind, Expr.resolve]

theorem resolveTokens_minus (h : isOperand token) :
    resolveTokens scope ["-", token] = (Expr.unary .neg (.value token)).resolve scope := by
  have hexpr : Expr.Grammatical false (.unary .neg (.value token)) :=
    .unary (.value h) (Nat.le_add_left 10 2)
  have hparse : parseExpression ["-", token] = .ok (.unary .neg (.value token)) :=
    parseExpression_of_writes hexpr hexpr.map_castSpelling
  have hcasts : recombineCasts ["-", token] = .ok ["-", token] := rfl
  simp only [resolveTokens, hcasts, hparse, ok_mapError, ok_bind]

/-! ### One number -/

theorem isOperand_of_isDigit {c : Char} (hhead : token.toList.head? = some c) (hc : c.isDigit) :
    isOperand token := by
  obtain ⟨rest, hlist⟩ := List.head?_eq_some_iff.mp hhead
  have hnumeric : isNumeric token := by
    unfold isNumeric
    rw [hlist]
    split
    · rename_i heq
      obtain ⟨rfl, -⟩ := List.cons.inj heq
      cases hc
    · rename_i heq
      obtain ⟨rfl, -⟩ := List.cons.inj heq
      exact hc
    · rename_i heq
      cases heq
  simp [isOperand, hnumeric]

theorem ofToken_number {c : Char} (hhead : token.toList.head? = some c) (hc : c.isDigit)
    {number : Constant} (hnumber : numberOfLiteral? token = some number) :
    Resolved.ofToken scope token = .ok (.constant number) := by
  obtain ⟨rest, hlist⟩ := List.head?_eq_some_iff.mp hhead
  have hquoted : isQuoted token = false := by
    have hquotes : c ≠ '"' ∧ c ≠ '\'' := by
      constructor
      · rintro rfl
        cases hc
      · rintro rfl
        cases hc
    simp [isQuoted, hlist, hquotes]
  rw [Resolved.ofToken, if_neg (by simp [hquoted]), if_pos (by simp [hlist, hc]), hnumber]

section

variable {row : List Char}

theorem exists_head?_isDigit (hne : row ≠ []) (h : ∀ c ∈ row, c.isDigit) :
    ∃ c, (String.ofList row).toList.head? = some c ∧ c.isDigit := by
  obtain ⟨c, rest, rfl⟩ := List.exists_cons_of_ne_nil hne
  exact ⟨c, by simp, h c (by simp)⟩

theorem ofToken_digits (hne : row ≠ []) (h : ∀ c ∈ row, c.isDigit) (hlt : numeral 10 row < 2 ^ 31) :
    Resolved.ofToken scope (String.ofList row)
      = .ok (.constant (.integer (.ofNat (numeral 10 row)))) := by
  obtain ⟨c, hhead, hc⟩ := exists_head?_isDigit hne h
  have hnumber := @numberOfLiteral?_digits (String.ofList row) (by simpa using hne)
    (by simpa using h) (by simpa using hlt)
  rw [String.toList_ofList] at hnumber
  exact ofToken_number hhead hc hnumber

theorem resolveTokens_digits (hne : row ≠ []) (h : ∀ c ∈ row, c.isDigit)
    (hlt : numeral 10 row < 2 ^ 31) :
    resolveTokens scope [String.ofList row]
      = .ok (.constant (.integer (.ofNat (numeral 10 row)))) := by
  obtain ⟨c, hhead, hc⟩ := exists_head?_isDigit hne h
  rw [resolveTokens_operand (isOperand_of_isDigit hhead hc), ofToken_digits hne h hlt]

/-- A literal that a minus stands before may be larger by one. -/
theorem resolveTokens_minus_toDigits {n : Nat} (hle : n ≤ 2 ^ 31) :
    resolveTokens scope ["-", String.ofList (Nat.toDigits 10 n)]
      = .ok (.constant (.integer (.ofInt (-n)))) := by
  obtain ⟨c, hhead, hc⟩ := exists_head?_isDigit (@Nat.toDigits_ne_nil n 10) isDigit_of_mem_toDigits
  have hleast : String.ofList (Nat.toDigits 10 (2 ^ 31)) = leastIntegerDigits := by decide
  rw [resolveTokens_minus (isOperand_of_isDigit hhead hc)]
  rcases Nat.lt_or_eq_of_le hle with hlt | rfl
  · have hleaf : ¬ (UnaryOp.neg = .neg ∧
        (Expr.value (String.ofList (Nat.toDigits 10 n))).isLeaf leastIntegerDigits) := by
      rintro ⟨-, hleaf⟩
      have htoken := String.ofList_injective ((Expr.value.inj (Expr.isLeaf_iff.1 hleaf)).trans
        hleast.symm)
      rw [← numeral_toDigits n, htoken, numeral_toDigits] at hlt
      exact absurd hlt (Nat.lt_irrefl _)
    have hoperand := @ofToken_digits scope _ (@Nat.toDigits_ne_nil n 10) isDigit_of_mem_toDigits
      (by rwa [numeral_toDigits])
    rw [numeral_toDigits] at hoperand
    rw [Expr.resolve, if_neg hleaf, Expr.resolve, hoperand, Int32.ofInt_neg, Int32.ofInt_eq_ofNat]
    rfl
  · rw [hleast, resolve_minus_leastIntegerDigits]
    rfl

end

/-! ### Readers of integers -/

/-- An integer that is written out is one line, whose tokens resolve to it. -/
theorem exists_tokens_of_integer (scope : Scope) (i : Int32) :
    ∃ number tokens, tokenize (toString i.toInt) = .ok [⟨number, tokens⟩] ∧
      resolveTokens scope tokens = .ok (.constant (.integer i)) := by
  have hwords : ∀ n, ∀ c ∈ Nat.toDigits 10 n, isWordChar c :=
    fun n c hc => isWordChar_of_isDigit (isDigit_of_mem_toDigits c hc)
  have hhigh : i.toInt < 2 ^ 31 := Int32.toInt_lt i
  have hlow : -2 ^ 31 ≤ i.toInt := Int32.le_toInt i
  cases hi : i.toInt with
  | ofNat n =>
      obtain ⟨number, hnumber⟩ := @tokenize_wordChars (String.ofList (Nat.toDigits 10 n))
        (by simp) (by simpa using hwords n)
      refine ⟨number, _, by rw [toString_ofNat, hnumber], ?_⟩
      rw [hi] at hhigh
      have hlt : n < 2 ^ 31 := Int.ofNat_lt.mp hhigh
      rw [resolveTokens_digits (@Nat.toDigits_ne_nil n 10) isDigit_of_mem_toDigits
        (by rwa [numeral_toDigits]), numeral_toDigits, ← Int32.ofInt_eq_ofNat, ← Int.ofNat_eq_natCast,
        ← hi, Int32.ofInt_toInt]
  | negSucc n =>
      obtain ⟨number, hnumber⟩ :=
        tokenize_minus (@Nat.toDigits_ne_nil (n + 1) 10) (hwords (n + 1))
      refine ⟨number, _, by rw [toString_negSucc, hnumber], ?_⟩
      rw [hi] at hlow
      have hle : n + 1 ≤ 2 ^ 31 := by omega
      rw [resolveTokens_minus_toDigits hle, show -((n + 1 : Nat) : Int) = Int.negSucc n from rfl, ← hi,
        Int32.ofInt_toInt]

theorem toInt_integerPrefix (text : String) :
    (integerPrefix text).toInt = (writtenInteger text.toList).bmod (2 ^ 32) := by
  rw [integerPrefix_eq_ofInt]
  exact Int32.toInt_ofInt

/-- An integer that is written out is read back, both as a script and as a string that is cast.  A
    row of hexadecimal digits is one token, and both readers reduce the number that it writes.  A
    string that is cast is read as the number at its front, whatever its size, which is reduced. -/
theorem integer_readers_agree (scope : Scope) :
    (∀ i : Int32, (∃ number tokens, tokenize (toString i.toInt) = .ok [⟨number, tokens⟩] ∧
        resolveTokens scope tokens = .ok (.constant (.integer i))) ∧
      integerPrefix (toString i.toInt) = i) ∧
    (∀ digits : List Char, digits ≠ [] → (∀ c ∈ digits, (digitOf? 16 c).isSome) →
      ∀ token : String, token.toList = '0' :: 'x' :: digits →
        (∃ number, tokenize token = .ok [⟨number, [token]⟩]) ∧
        ∃ i : Int32, i.toInt = (numeral 16 digits : Int).bmod (2 ^ 32) ∧
          resolveTokens scope [token] = .ok (.constant (.integer i)) ∧ integerPrefix token = i) ∧
    ∀ text : String, (integerPrefix text).toInt = (writtenInteger text.toList).bmod (2 ^ 32) := by
  refine ⟨fun i => ⟨exists_tokens_of_integer scope i, ?_⟩, ?_, toInt_integerPrefix⟩
  · rw [integerPrefix_eq_ofInt, writtenInteger_toString, Int32.ofInt_toInt]
  · intro digits hne hdigits token htoken
    have hhead : token.toList.head? = some '0' := by rw [htoken]; rfl
    refine ⟨tokenize_wordChars ?_ ?_, .ofInt (numeral 16 digits), Int32.toInt_ofInt, ?_, ?_⟩
    · rintro rfl
      cases htoken
    · rw [htoken]
      have hmark : isWordChar '0' ∧ isWordChar 'x' := by decide
      simpa [hmark] using fun c hc => isWordChar_of_digitOf? (hdigits c hc)
    · have hnumber := numberOfLiteral?_hex htoken hne hdigits
      rw [resolveTokens_operand (isOperand_of_isDigit hhead (by decide)),
        ofToken_number hhead (by decide) hnumber, Int32.ofInt_eq_ofNat]
    · rw [integerPrefix_eq_ofInt, htoken, writtenInteger_hex hdigits]

/-- Nine hexadecimal digits, of which the last eight count, and a number before a point. -/
theorem integer_readers_agree_reduced :
    let digits := ['1', 'F', 'f', 'F', 'f', 'F', 'f', 'F', 'e']
    (digits ≠ [] ∧ ∀ c ∈ digits, (digitOf? 16 c).isSome) ∧ numeral 16 digits = 8589934590 ∧
      (∃ number, tokenize "0x1FfFfFfFe" = .ok [⟨number, ["0x1FfFfFfFe"]⟩]) ∧
      integerPrefix "0x1FfFfFfFe" = -2 ∧ (integerPrefix "\t-4294967300.5").toInt = -4 := by
  intro digits
  have hne : digits ≠ [] := by decide
  have hdigits : ∀ c ∈ digits, (digitOf? 16 c).isSome := List.all_eq_true.mp (by decide)
  have hvalue : numeral 16 digits = 8589934590 := by decide
  obtain ⟨-, hhex, hcast⟩ := integer_readers_agree ⟨.standard, fun _ => false⟩
  obtain ⟨hline, i, hi, -, hread⟩ := hhex digits hne hdigits "0x1FfFfFfFe" (by decide)
  refine ⟨⟨hne, hdigits⟩, hvalue, hline, ?_, ?_⟩
  · rw [hread]
    apply Int32.toInt_inj.mp
    rw [hi, hvalue]
    decide
  · rw [hcast]
    decide

end LslFront
