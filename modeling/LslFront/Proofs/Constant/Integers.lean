import LslFront.Constant.Reading
import LslFront.Proofs.Token.Split
import Mathlib

/-!
# Integers as they are written

A row of digits writes a natural number of any size, and a reader that keeps 32 bits throughout ends
with that number reduced.  So it does not matter whether a number is reduced at every digit or once
at the end, nor on which side of the reduction its sign is changed.

The readers of literals and of strings that are cast are both measured by `numeral` and
`writtenInteger`, which never reduce anything.
-/

namespace LslFront

/-! ### Digits -/

/-- The digit that a character is in a base of at most sixteen.  Letters are digits in either
    case. -/
def digitOf? (base : Nat) (c : Char) : Option Nat :=
  (List.range base).find? fun d => c == Nat.digitChar d || c == (Nat.digitChar d).toUpper

theorem lt_of_hexDigit? {c : Char} {d : Nat} (h : Text.hexDigit? c = some d) : c.toNat < 128 := by
  unfold Text.hexDigit? at h
  split at h
  · rename_i hdigit
    have hle : c.toNat ≤ '9'.toNat := (Char.isDigit_iff_toNat.mp hdigit).2
    exact Nat.lt_of_le_of_lt hle (by decide)
  · split at h
    · rename_i hlower
      have hle : c.toNat ≤ 'f'.toNat := hlower.2
      exact Nat.lt_of_le_of_lt hle (by decide)
    · split at h
      · rename_i hupper
        have hle : c.toNat ≤ 'F'.toNat := hupper.2
        exact Nat.lt_of_le_of_lt hle (by decide)
      · cases h

theorem hexDigit?_eq_some_iff {c : Char} {d : Nat} : Text.hexDigit? c = some d ↔
    d < 16 ∧ (c = Nat.digitChar d ∨ c = (Nat.digitChar d).toUpper) := by
  constructor
  · intro h
    have hall : ∀ n < 128, ∀ d ∈ Text.hexDigit? (Char.ofNat n),
        d < 16 ∧ (Char.ofNat n = Nat.digitChar d ∨ Char.ofNat n = (Nat.digitChar d).toUpper) := by
      decide
    have hc := hall c.toNat (lt_of_hexDigit? h) d
    rw [Char.ofNat_toNat] at hc
    exact hc h
  · rintro ⟨hd, hc⟩
    have hall : ∀ d < 16, Text.hexDigit? (Nat.digitChar d) = some d ∧
        Text.hexDigit? (Nat.digitChar d).toUpper = some d := by decide
    rcases hc with rfl | rfl
    · exact (hall d hd).1
    · exact (hall d hd).2

theorem digitOf?_eq_some_iff {base : Nat} (hbase : base ≤ 16) {c : Char} {d : Nat} :
    digitOf? base c = some d ↔ d < base ∧ Text.hexDigit? c = some d := by
  have hfound : ∀ {e}, digitOf? base c = some e → e < base ∧ Text.hexDigit? c = some e := by
    intro e h
    have hlt : e < base := List.mem_range.mp (List.mem_of_find?_eq_some h)
    have hspells := List.find?_some h
    simp only [Bool.or_eq_true, beq_iff_eq] at hspells
    exact ⟨hlt, hexDigit?_eq_some_iff.2 ⟨by omega, hspells⟩⟩
  refine ⟨hfound, fun ⟨hlt, h⟩ => ?_⟩
  have hspells := (hexDigit?_eq_some_iff.1 h).2
  have hsome : (digitOf? base c).isSome := by
    rw [digitOf?, List.find?_isSome]
    exact ⟨d, List.mem_range.mpr hlt, by simpa using hspells⟩
  obtain ⟨e, he⟩ := Option.isSome_iff_exists.mp hsome
  rw [he, ← h, (hfound he).2]

theorem digitOf?_sixteen : digitOf? 16 = Text.hexDigit? := by
  funext c
  refine Option.ext fun d => ?_
  rw [digitOf?_eq_some_iff (Nat.le_refl 16), and_iff_right_iff_imp]
  exact fun h => (hexDigit?_eq_some_iff.1 h).1

theorem isWordChar_of_digitOf? {c : Char} (h : (digitOf? 16 c).isSome) : isWordChar c := by
  have hall : ∀ d < 16, isWordChar (Nat.digitChar d) ∧ isWordChar (Nat.digitChar d).toUpper := by
    decide
  obtain ⟨d, hd⟩ := Option.isSome_iff_exists.mp h
  rw [digitOf?_sixteen, hexDigit?_eq_some_iff] at hd
  obtain ⟨hd, rfl | rfl⟩ := hd
  · exact (hall d hd).1
  · exact (hall d hd).2

theorem decDigit?_eq_some_iff {c : Char} {d : Nat} :
    Text.decDigit? c = some d ↔ c.isDigit ∧ Decimal.digitValue c = d := by
  unfold Text.decDigit? Decimal.digitValue
  split <;> simp_all

theorem digitValue_lt {c : Char} (h : c.isDigit) : Decimal.digitValue c < 10 := by
  have hle : c.toNat ≤ '9'.toNat := (Char.isDigit_iff_toNat.mp h).2
  exact Nat.lt_of_le_of_lt (Nat.sub_le_sub_right hle _) (by decide)

theorem digitOf?_ten : digitOf? 10 = Text.decDigit? := by
  funext c
  refine Option.ext fun d => ?_
  rw [digitOf?_eq_some_iff (by decide), decDigit?_eq_some_iff, Text.hexDigit?]
  by_cases hdigit : c.isDigit
  · rw [if_pos hdigit, Option.some_inj]
    have hlt := digitValue_lt hdigit
    constructor
    · exact fun h => ⟨hdigit, h.2⟩
    · rintro ⟨-, rfl⟩
      exact ⟨hlt, rfl⟩
  · rw [if_neg hdigit]
    constructor
    · rintro ⟨hlt, h⟩
      -- A letter is a digit of ten and more.
      split at h
      · have hd := Option.some.inj h
        omega
      · split at h
        · have hd := Option.some.inj h
          omega
        · cases h
    · exact fun h => absurd h.1 hdigit

/-! ### Rows of digits -/

/-- The number that a row of digits writes.  It can be of any size. -/
def numeral (base : Nat) (row : List Char) : Nat :=
  Nat.ofDigits base (row.filterMap (digitOf? base)).reverse

/-- The longest row of digits at the front. -/
def leadingDigits (base : Nat) (text : List Char) : List Char :=
  text.takeWhile fun c => (digitOf? base c).isSome

section

variable {base : Nat} {row : List Char}

@[simp] theorem numeral_nil (base : Nat) : numeral base [] = 0 := rfl

theorem numeral_concat {c : Char} {d : Nat} (h : digitOf? base c = some d) :
    numeral base (row ++ [c]) = base * numeral base row + d := by
  simp [numeral, List.filterMap_append, h, Nat.ofDigits_cons]
  omega

theorem leadingDigits_eq_self (h : ∀ c ∈ row, (digitOf? base c).isSome) :
    leadingDigits base row = row :=
  List.takeWhile_eq_self_iff.mpr h

theorem digitsPrefix_eq (digit? : Char → Option Nat) (text : List Char) :
    digitsPrefix digit? text = (text.takeWhile fun c => (digit? c).isSome).filterMap digit? := by
  induction text with
  | nil => rfl
  | cons c rest ih =>
      rw [digitsPrefix]
      split
      · rename_i d hd
        simp [hd, ih]
      · rename_i hd
        simp [hd]

/-- A number that is reduced at every digit is the number that is reduced once. -/
theorem wrapDigits_eq (base : Nat) (digits : List Nat) :
    wrapDigits (.ofNat base) digits = .ofNat (Nat.ofDigits base digits.reverse) := by
  rw [wrapDigits, Nat.ofDigits_eq_foldr, List.foldr_reverse]
  suffices hfold : ∀ n : Nat, digits.foldl (fun m d => m * Int32.ofNat base + Int32.ofNat d) (Int32.ofNat n)
      = Int32.ofNat (digits.foldl (fun m d => d + base * m) n) by
    exact hfold 0
  induction digits with
  | nil => exact fun _ => rfl
  | cons d rest ih =>
      intro n
      rw [List.foldl_cons, List.foldl_cons, ← ih, Int32.ofNat_add, Int32.ofNat_mul, Int32.add_comm,
        Int32.mul_comm]

end

/-! ### Strings that are cast -/

/-- The integer at the front of a text: blanks, at most one sign, perhaps `0x` or `0X`, and the
    longest row of digits of the base.  It can be of any size; no digits make zero. -/
def writtenInteger (text : List Char) : Int :=
  let text := text.dropWhile Text.isBlank
  let unsigned := if text.head? = some '-' ∨ text.head? = some '+' then text.tail else text
  let magnitude :=
    if unsigned.take 2 = ['0', 'x'] ∨ unsigned.take 2 = ['0', 'X'] then
      numeral 16 (leadingDigits 16 (unsigned.drop 2))
    else numeral 10 (leadingDigits 10 unsigned)
  if text.head? = some '-' then -(magnitude : Int) else magnitude

theorem signPrefix_eq (text : List Char) : signPrefix text = (decide (text.head? = some '-'),
    if text.head? = some '-' ∨ text.head? = some '+' then text.tail else text) := by
  unfold signPrefix
  split
  · simp
  · simp
  · rename_i hminus hplus
    have hneither : text.head? ≠ some '-' ∧ text.head? ≠ some '+' := by
      constructor
      · intro h
        obtain ⟨rest, rfl⟩ := List.head?_eq_some_iff.mp h
        exact hminus rest rfl
      · intro h
        obtain ⟨rest, rfl⟩ := List.head?_eq_some_iff.mp h
        exact hplus rest rfl
    simp [hneither]

theorem afterHexMark?_eq (text : List Char) : afterHexMark? text =
    if text.take 2 = ['0', 'x'] ∨ text.take 2 = ['0', 'X'] then some (text.drop 2) else none := by
  unfold afterHexMark?
  split
  · simp
  · simp
  · rename_i hlower hupper
    rcases text with _ | ⟨first, _ | ⟨second, rest⟩⟩
    · simp
    · simp
    · rw [if_neg]
      rintro (h | h)
      · simp at h
        exact hlower rest (by rw [h.1, h.2])
      · simp at h
        exact hupper rest (by rw [h.1, h.2])

theorem wrapDigits_digitsPrefix {base : Nat} {digit? : Char → Option Nat}
    (h : digitOf? base = digit?) (text : List Char) :
    wrapDigits (.ofNat base) (digitsPrefix digit? text)
      = .ofNat (numeral base (leadingDigits base text)) := by
  rw [digitsPrefix_eq, wrapDigits_eq, numeral, leadingDigits, h]

theorem integerPrefix_eq_ofInt (text : String) :
    integerPrefix text = .ofInt (writtenInteger text.toList) := by
  have hhex : ∀ digits, wrapDigits 16 (digitsPrefix Text.hexDigit? digits)
      = .ofNat (numeral 16 (leadingDigits 16 digits)) := wrapDigits_digitsPrefix digitOf?_sixteen
  have hdec : ∀ digits, wrapDigits 10 (digitsPrefix Text.decDigit? digits)
      = .ofNat (numeral 10 (leadingDigits 10 digits)) := wrapDigits_digitsPrefix digitOf?_ten
  simp only [integerPrefix, writtenInteger, Text.trimStart, signPrefix_eq, afterHexMark?_eq,
    decide_eq_true_eq]
  generalize text.toList.dropWhile Text.isBlank = rest
  generalize (if rest.head? = some '-' ∨ rest.head? = some '+' then rest.tail else rest) = unsigned
  by_cases hmark : unsigned.take 2 = ['0', 'x'] ∨ unsigned.take 2 = ['0', 'X']
  · simp only [if_pos hmark, hhex]
    split
    · rw [Int32.ofInt_neg, Int32.ofInt_eq_ofNat]
    · rw [Int32.ofInt_eq_ofNat]
  · simp only [if_neg hmark, hdec]
    split
    · rw [Int32.ofInt_neg, Int32.ofInt_eq_ofNat]
    · rw [Int32.ofInt_eq_ofNat]

/-! ### Integers written out -/

theorem digitOf?_digitChar {base d : Nat} (hbase : base ≤ 16) (hd : d < base) :
    digitOf? base (Nat.digitChar d) = some d :=
  (digitOf?_eq_some_iff hbase).mpr ⟨hd, hexDigit?_eq_some_iff.2 ⟨by omega, .inl rfl⟩⟩

theorem digitOf?_of_isDigit {c : Char} (h : c.isDigit) :
    digitOf? 10 c = some (Decimal.digitValue c) := by
  rw [digitOf?_ten]
  exact decDigit?_eq_some_iff.2 ⟨h, rfl⟩

theorem numeral_toDigits (n : Nat) : numeral 10 (Nat.toDigits 10 n) = n := by
  have hdigit : ∀ {row d}, d < 10 → numeral 10 (row ++ [Nat.digitChar d]) = 10 * numeral 10 row + d :=
    fun hd => numeral_concat (digitOf?_digitChar (by decide) hd)
  induction n using Nat.strong_induction_on with
  | _ n ih =>
      rw [Nat.toDigits_eq_if (by decide)]
      split
      · rename_i hn
        simpa using @hdigit [] n hn
      · rename_i hn
        rw [hdigit (Nat.mod_lt n (by decide)), ih (n / 10) (by omega)]
        omega

section

variable {row : List Char}

theorem not_isBlank_of_isDigit {c : Char} (h : c.isDigit) : Text.isBlank c = false := by
  obtain ⟨hlow, hhigh⟩ := Char.isDigit_iff_toNat.mp h
  rw [show '0'.toNat = 48 from rfl] at hlow
  rw [show '9'.toNat = 57 from rfl] at hhigh
  simp [Text.isBlank]
  omega

theorem not_sign_of_isDigit {c : Char} (h : c.isDigit) : c ≠ '+' ∧ c ≠ '-' := by
  constructor
  · rintro rfl
    cases h
  · rintro rfl
    cases h

theorem not_marked_of_isDigit (h : ∀ c ∈ row, c.isDigit) :
    ¬ (row.take 2 = ['0', 'x'] ∨ row.take 2 = ['0', 'X']) := by
  rintro (heq | heq)
  · have hmem : 'x' ∈ row := List.mem_of_mem_take (by rw [heq]; simp)
    exact absurd (h 'x' hmem) (by decide)
  · have hmem : 'X' ∈ row := List.mem_of_mem_take (by rw [heq]; simp)
    exact absurd (h 'X' hmem) (by decide)

theorem leadingDigits_of_isDigit (h : ∀ c ∈ row, c.isDigit) : leadingDigits 10 row = row :=
  leadingDigits_eq_self fun c hc => by simp [digitOf?_of_isDigit (h c hc)]

theorem writtenInteger_digits (h : ∀ c ∈ row, c.isDigit) : writtenInteger row = numeral 10 row := by
  have hstart : row.dropWhile Text.isBlank = row := by
    cases row with
    | nil => rfl
    | cons c rest =>
        have hc : Text.isBlank c = false := not_isBlank_of_isDigit (h c (by simp))
        rw [List.dropWhile_cons_of_neg (by simp [hc])]
  have hsign : row.head? ≠ some '-' ∧ row.head? ≠ some '+' := by
    constructor
    · exact fun hhead => absurd (h '-' (List.mem_of_mem_head? hhead)) (by decide)
    · exact fun hhead => absurd (h '+' (List.mem_of_mem_head? hhead)) (by decide)
  simp only [writtenInteger, hstart, hsign, or_self, if_false, if_neg (not_marked_of_isDigit h),
    leadingDigits_of_isDigit h]

theorem writtenInteger_minus (h : ∀ c ∈ row, c.isDigit) :
    writtenInteger ('-' :: row) = -(numeral 10 row : Int) := by
  have hstart : ('-' :: row).dropWhile Text.isBlank = '-' :: row := rfl
  simp only [writtenInteger, hstart, List.head?_cons, true_or, if_true, List.tail_cons,
    if_neg (not_marked_of_isDigit h), leadingDigits_of_isDigit h]

theorem writtenInteger_hex (h : ∀ c ∈ row, (digitOf? 16 c).isSome) :
    writtenInteger ('0' :: 'x' :: row) = numeral 16 row := by
  have hstart : ('0' :: 'x' :: row).dropWhile Text.isBlank = '0' :: 'x' :: row := rfl
  simp [writtenInteger, hstart, leadingDigits_eq_self h]

theorem toString_ofNat (n : Nat) : toString (Int.ofNat n) = String.ofList (Nat.toDigits 10 n) :=
  Nat.repr_eq_ofList_toDigits

theorem toString_negSucc (n : Nat) :
    toString (Int.negSucc n) = String.ofList ('-' :: Nat.toDigits 10 (n + 1)) := by
  rw [show toString (Int.negSucc n) = "-" ++ (n + 1).repr from rfl, Nat.repr_eq_ofList_toDigits]
  simp

theorem isDigit_of_mem_toDigits {n : Nat} : ∀ c ∈ Nat.toDigits 10 n, c.isDigit :=
  fun _ => Nat.isDigit_of_mem_toDigits (by decide) (by decide)

/-- An integer that is written out is read back. -/
theorem writtenInteger_toString (i : Int) : writtenInteger (toString i).toList = i := by
  cases i with
  | ofNat n =>
      rw [toString_ofNat, String.toList_ofList, writtenInteger_digits isDigit_of_mem_toDigits,
        numeral_toDigits]
      rfl
  | negSucc n =>
      rw [toString_negSucc, String.toList_ofList, writtenInteger_minus isDigit_of_mem_toDigits,
        numeral_toDigits]
      rfl

/-! ### Literals -/

theorem natural_eq_numeral (h : ∀ c ∈ row, c.isDigit) :
    Decimal.natural row = numeral 10 row := by
  induction row using List.reverseRecOn with
  | nil => rfl
  | append_singleton row c ih =>
      have hrow : ∀ d ∈ row, d.isDigit := fun d hd => h d (by simp [hd])
      have hc : c.isDigit := h c (by simp)
      rw [numeral_concat (digitOf?_of_isDigit hc), ← ih hrow]
      simp [Decimal.natural]

theorem numberOfLiteral?_digits {token : String} (hne : token.toList ≠ [])
    (h : ∀ c ∈ token.toList, c.isDigit) (hlt : numeral 10 token.toList < 2 ^ 31) :
    numberOfLiteral? token = some (.integer (.ofNat (numeral 10 token.toList))) := by
  have hmark : afterHexMark? token.toList = none := by
    rw [afterHexMark?_eq, if_neg (not_marked_of_isDigit h)]
  have hall : token.toList.all Char.isDigit := List.all_eq_true.mpr h
  have hlt : numeral 10 token.toList < Nat.pow 2 31 := hlt
  have hnonempty : token.toList.isEmpty = false := List.isEmpty_eq_false_iff.mpr hne
  simp only [numberOfLiteral?, hmark, hall, natural_eq_numeral h, hlt, hnonempty, decide_true,
    Bool.not_false, Bool.and_true, if_true]

theorem numberOfLiteral?_hex {token : String} (htoken : token.toList = '0' :: 'x' :: row)
    (hne : row ≠ []) (h : ∀ c ∈ row, (digitOf? 16 c).isSome) :
    numberOfLiteral? token = some (.integer (.ofNat (numeral 16 row))) := by
  have hmark : afterHexMark? token.toList = some row := by
    rw [htoken]
    rfl
  rw [digitOf?_sixteen] at h
  have hnonempty : row.isEmpty = false := List.isEmpty_eq_false_iff.mpr hne
  have hall : row.any (Text.hexDigit? · |>.isNone) = false := by
    refine List.any_eq_false.mpr fun c hc => ?_
    simpa using Option.isSome_iff_ne_none.mp (h c hc)
  have hvalue : wrapDigits 16 (row.filterMap Text.hexDigit?) = .ofNat (numeral 16 row) := by
    rw [numeral, digitOf?_sixteen]
    exact wrapDigits_eq 16 _
  simp only [numberOfLiteral?, hmark, hnonempty, hall, hvalue, Bool.or_false, Bool.false_eq_true,
    if_false]

end

end LslFront
