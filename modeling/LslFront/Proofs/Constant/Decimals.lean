import LslFront.Proofs.Constant.Integers

/-!
# Decimal numbers as they are written

A decimal number has digits before its point, after it, or on both sides, and then perhaps an
exponent.  A reader has to find where one part ends and the next begins; as each part ends at a
character that the part cannot hold, the longest reading of a part is the part as it was written.

The cast of a string and the reader of literals both take the number at the front of a text.  On a
written number that is the whole text, so they agree.
-/

namespace LslFront

/-! ### Parts of a number -/

/-- An exponent: a mark, perhaps a sign, and digits. -/
structure WrittenExponent where
  mark : Char
  sign : Option Char
  digits : List Char
  mark_eq : mark = 'e' ∨ mark = 'E'
  sign_eq : ∀ c ∈ sign, c = '+' ∨ c = '-'
  digits_ne_nil : digits ≠ []
  isDigit_digits : ∀ c ∈ digits, c.isDigit

/-- A decimal number: digits, then perhaps a point and more digits, then perhaps an exponent.  One
    side of the point may have no digits. -/
structure WrittenDecimal where
  whole : List Char
  fraction : Option (List Char)
  exponent : Option WrittenExponent
  isDigit_whole : ∀ c ∈ whole, c.isDigit
  isDigit_fraction : ∀ row ∈ fraction, ∀ c ∈ row, c.isDigit
  has_digits : whole ≠ [] ∨ ∃ row ∈ fraction, row ≠ []

namespace WrittenExponent

def chars (e : WrittenExponent) : List Char :=
  e.mark :: (e.sign.toList ++ e.digits)

def value (e : WrittenExponent) : Int :=
  if e.sign = some '-' then -(Decimal.natural e.digits : Int) else Decimal.natural e.digits

end WrittenExponent

namespace WrittenDecimal

/-- The point and the digits after it. -/
def pointed (d : WrittenDecimal) : List Char :=
  (d.fraction.map ('.' :: ·)).getD []

/-- The number without its exponent. -/
def stem (d : WrittenDecimal) : List Char :=
  d.whole ++ d.pointed

def exponentChars (d : WrittenDecimal) : List Char :=
  (d.exponent.map WrittenExponent.chars).getD []

def chars (d : WrittenDecimal) : List Char :=
  d.stem ++ d.exponentChars

/-- All digits without the point, and the exponent less the number of digits after the point. -/
def number (d : WrittenDecimal) : Decimal :=
  ⟨Decimal.natural (d.whole ++ d.fraction.getD []),
    (d.exponent.map WrittenExponent.value).getD 0 - (d.fraction.getD []).length⟩

variable {d : WrittenDecimal}

theorem pointed_of_some {row : List Char} (h : d.fraction = some row) :
    d.pointed = '.' :: row := by
  simp [pointed, h]

theorem pointed_of_none (h : d.fraction = none) : d.pointed = [] := by
  simp [pointed, h]

theorem exponentChars_of_some {e : WrittenExponent} (h : d.exponent = some e) :
    d.exponentChars = e.chars := by
  simp [exponentChars, h]

theorem exponentChars_of_none (h : d.exponent = none) : d.exponentChars = [] := by
  simp [exponentChars, h]

/-- A number begins with a digit, or with a point and a digit. -/
theorem opens (d : WrittenDecimal) :
    (∃ c rest, d.chars = c :: rest ∧ c.isDigit) ∨
      ∃ c rest, d.chars = '.' :: c :: rest ∧ c.isDigit := by
  cases hwhole : d.whole with
  | cons c rest =>
      left
      refine ⟨c, rest ++ d.pointed ++ d.exponentChars, ?_, d.isDigit_whole c (by simp [hwhole])⟩
      simp [chars, stem, hwhole]
  | nil =>
      right
      obtain hne | ⟨row, hrow, hne⟩ := d.has_digits
      · exact absurd hwhole hne
      · obtain ⟨c, rest, rfl⟩ := List.exists_cons_of_ne_nil hne
        refine ⟨c, rest ++ d.exponentChars, ?_, d.isDigit_fraction _ hrow c (by simp)⟩
        simp [chars, stem, hwhole, pointed_of_some hrow]

/-- What a number is written with beside digits. -/
def numberMarks : List Char :=
  ['.', 'e', 'E', '+', '-']

theorem mem_exponentChars {c : Char} (h : c ∈ d.exponentChars) : c.isDigit ∨ c ∈ numberMarks := by
  cases hexponent : d.exponent with
  | none =>
      rw [exponentChars_of_none hexponent] at h
      cases h
  | some e =>
      rw [exponentChars_of_some hexponent, WrittenExponent.chars] at h
      rcases List.mem_cons.mp h with rfl | h
      · right
        rcases e.mark_eq with heq | heq <;> simp [heq, numberMarks]
      · rcases List.mem_append.mp h with hsign | hdigit
        · right
          rcases e.sign_eq c (Option.mem_toList.mp hsign) with heq | heq <;>
            simp [heq, numberMarks]
        · exact .inl (e.isDigit_digits c hdigit)

theorem mem_stem {c : Char} (h : c ∈ d.stem) : c.isDigit ∨ c = '.' := by
  rcases List.mem_append.mp h with hwhole | hpointed
  · exact .inl (d.isDigit_whole c hwhole)
  · cases hfraction : d.fraction with
    | none =>
        rw [pointed_of_none hfraction] at hpointed
        cases hpointed
    | some row =>
        rw [pointed_of_some hfraction] at hpointed
        rcases List.mem_cons.mp hpointed with heq | hmem
        · exact .inr heq
        · exact .inl (d.isDigit_fraction row hfraction c hmem)

theorem mem_chars {c : Char} (h : c ∈ d.chars) : c.isDigit ∨ c ∈ numberMarks := by
  rcases List.mem_append.mp h with hstem | hexponent
  · exact (mem_stem hstem).imp_right fun heq => by simp [heq, numberMarks]
  · exact mem_exponentChars hexponent

end WrittenDecimal

/-! ### Reading -/

theorem WrittenDecimal.eq_of_head?_exponentChars {d : WrittenDecimal} {c : Char}
    (h : c ∈ d.exponentChars.head?) : c = 'e' ∨ c = 'E' := by
  cases hexponent : d.exponent with
  | none =>
      rw [exponentChars_of_none hexponent] at h
      cases h
  | some e =>
      rw [exponentChars_of_some hexponent] at h
      obtain rfl : e.mark = c := Option.some.inj h
      exact e.mark_eq

theorem WrittenDecimal.isDigit_of_head?_exponentChars {d : WrittenDecimal} {c : Char}
    (h : c ∈ d.exponentChars.head?) : c.isDigit = false := by
  rcases eq_of_head?_exponentChars h with rfl | rfl <;> decide

namespace Decimal

open WrittenDecimal (eq_of_head?_exponentChars isDigit_of_head?_exponentChars)

theorem row_append {digits rest : List Char} (hdigits : ∀ c ∈ digits, c.isDigit)
    (hrest : ∀ c ∈ rest.head?, c.isDigit = false) : row (digits ++ rest) = (digits, rest) := by
  rw [row, List.span_eq_takeWhile_dropWhile, List.takeWhile_append_of_pos hdigits,
    List.dropWhile_append_of_pos hdigits]
  cases rest with
  | nil => simp
  | cons c rest => simp [hrest c rfl]

theorem exponentPrefix_chars (e : WrittenExponent) : exponentPrefix e.chars = (e.value, []) := by
  obtain ⟨mark, sign, digits, hmark, hsign, hne, hdigits⟩ := e
  obtain ⟨first, rest, rfl⟩ := List.exists_cons_of_ne_nil hne
  have hrow : row (first :: rest) = (first :: rest, []) := by
    have happend : row (first :: rest ++ []) = (first :: rest, []) := row_append hdigits (by simp)
    rwa [List.append_nil] at happend
  simp only [WrittenExponent.chars, WrittenExponent.value, exponentPrefix, if_pos hmark]
  cases sign with
  | some c =>
      rcases hsign c rfl with rfl | rfl
      · simp [hrow]
      · simp [hrow]
  | none =>
      have hfirst : first.isDigit := hdigits first (by simp)
      simp [not_sign_of_isDigit hfirst, hrow]

theorem exponentPrefix_exponentChars (d : WrittenDecimal) :
    exponentPrefix d.exponentChars = ((d.exponent.map WrittenExponent.value).getD 0, []) := by
  cases hexponent : d.exponent with
  | none => simp [WrittenDecimal.exponentChars_of_none hexponent, exponentPrefix]
  | some e => simp [WrittenDecimal.exponentChars_of_some hexponent, exponentPrefix_chars]

/-- The digits before the point, and what is read of the rest: the digits after it, if there is a
    point, and the exponent. -/
theorem row_chars (d : WrittenDecimal) : row d.chars = (d.whole, d.pointed ++ d.exponentChars) := by
  have hrest : ∀ c ∈ (d.pointed ++ d.exponentChars).head?, c.isDigit = false := by
    cases hfraction : d.fraction with
    | none =>
        rw [WrittenDecimal.pointed_of_none hfraction, List.nil_append]
        exact fun c hc => isDigit_of_head?_exponentChars hc
    | some row =>
        rw [WrittenDecimal.pointed_of_some hfraction]
        rintro c ⟨⟩
        decide
  rw [WrittenDecimal.chars, WrittenDecimal.stem, List.append_assoc]
  exact row_append d.isDigit_whole hrest

/-- A number is read as a whole. -/
theorem read?_chars (d : WrittenDecimal) : read? d.chars = some (d.number, []) := by
  have hexponent := exponentPrefix_exponentChars d
  cases hfraction : d.fraction with
  | none =>
      have hwhole : d.whole ≠ [] := by simpa [hfraction] using d.has_digits
      have hrow : row d.chars = (d.whole, d.exponentChars) := by
        rw [row_chars, WrittenDecimal.pointed_of_none hfraction, List.nil_append]
      -- What follows is no point, so the reader goes on to the exponent.
      have hpoint : ∀ tail, d.exponentChars ≠ '.' :: tail := by
        intro tail heq
        obtain h | h := eq_of_head?_exponentChars (d := d) (c := '.') (by rw [heq]; rfl)
        all_goals cases h
      simp [read?, hrow, hwhole, hexponent, WrittenDecimal.number, hfraction]
  | some digits =>
      have hrow : row d.chars = (d.whole, '.' :: (digits ++ d.exponentChars)) := by
        rw [row_chars, WrittenDecimal.pointed_of_some hfraction, List.cons_append]
      have hdigits : row (digits ++ d.exponentChars) = (digits, d.exponentChars) :=
        row_append (d.isDigit_fraction digits hfraction) fun c hc =>
          isDigit_of_head?_exponentChars hc
      have hsome : (d.whole.isEmpty && digits.isEmpty) = false := by
        simpa [hfraction, Decidable.imp_iff_not_or] using d.has_digits
      simp [read?, hrow, hdigits, hsome, hexponent, WrittenDecimal.number, hfraction]

end Decimal

namespace WrittenDecimal

variable {d : WrittenDecimal}

theorem not_hexMarked (d : WrittenDecimal) : afterHexMark? d.chars = none := by
  rw [afterHexMark?_eq, if_neg]
  have hmarks : ∀ c ∈ d.chars, c ≠ 'x' ∧ c ≠ 'X' := by
    intro c hc
    rcases mem_chars hc with hdigit | hmark
    · constructor
      · rintro rfl
        cases hdigit
      · rintro rfl
        cases hdigit
    · have hall : ∀ mark ∈ numberMarks, mark ≠ 'x' ∧ mark ≠ 'X' := by simp [numberMarks]
      exact hall c hmark
  rintro (heq | heq)
  · exact (hmarks 'x' (List.mem_of_mem_take (by rw [heq]; simp))).1 rfl
  · exact (hmarks 'X' (List.mem_of_mem_take (by rw [heq]; simp))).2 rfl

theorem exists_mark (h : d.fraction.isSome ∨ d.exponent.isSome) :
    ∃ c ∈ d.chars, c.isDigit = false := by
  rcases h with h | h
  · obtain ⟨row, hrow⟩ := Option.isSome_iff_exists.mp h
    exact ⟨'.', by simp [chars, stem, pointed_of_some hrow], by decide⟩
  · obtain ⟨e, he⟩ := Option.isSome_iff_exists.mp h
    refine ⟨e.mark, by simp [chars, exponentChars_of_some he, WrittenExponent.chars], ?_⟩
    rcases e.mark_eq with heq | heq <;> simp [heq]

/-- A number with a point or an exponent is a double, however large it is. -/
theorem numberOfLiteral?_eq {token : String} (htoken : token.toList = d.chars)
    (h : d.fraction.isSome ∨ d.exponent.isSome) :
    numberOfLiteral? token = some (.float d.number.toFloat) := by
  obtain ⟨c, hmem, hc⟩ := exists_mark h
  have hall : d.chars.all Char.isDigit = false := List.all_eq_false.mpr ⟨c, hmem, by simp [hc]⟩
  have hwhole : Decimal.ofText? d.chars = some d.number := by
    rw [Decimal.ofText?, Decimal.read?_chars]
  simp [numberOfLiteral?, htoken, not_hexMarked, hall, hwhole]

/-- A number begins with no blank and with no sign, so a cast takes it as it is. -/
theorem floatPrefix_eq {token : String} (htoken : token.toList = d.chars) :
    floatPrefix token = d.number.toFloat := by
  have hstart : Text.trimStart d.chars = d.chars ∧ signPrefix d.chars = (false, d.chars) := by
    obtain ⟨c, rest, hlist, hc⟩ | ⟨c, rest, hlist, -⟩ := d.opens
    · rw [hlist, signPrefix_eq]
      simp [Text.trimStart, not_isBlank_of_isDigit hc, not_sign_of_isDigit hc]
    · have hpoint : Text.isBlank '.' = false := by decide
      rw [hlist, signPrefix_eq]
      simp [Text.trimStart, hpoint]
  rw [floatPrefix, floatPrefixChars, htoken, hstart.1, hstart.2]
  simp [Decimal.read?_chars]

end WrittenDecimal

end LslFront
