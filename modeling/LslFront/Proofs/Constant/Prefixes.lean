import LslFront.Proofs.Constant.Decimals
import LslFront.Proofs.Dialect.Leading

/-!
# Numbers at the front of a text

A string that is cast to a float gives the longest number that it begins with.  The reader goes
through the text once: a sign, digits, a point and digits, an exponent.  Each part is taken as far
as it goes, and an exponent mark that no digits follow is given back, so what has been read is a
number in its written form, and no longer beginning of the text is one.
-/

namespace LslFront

namespace Decimal

variable {cs digits tail : List Char}

/-! ### Parts -/

theorem row_eq (cs : List Char) : row cs = (cs.takeWhile Char.isDigit, cs.dropWhile Char.isDigit) :=
  List.span_eq_takeWhile_dropWhile ..

theorem row_append_rest (cs : List Char) : (row cs).1 ++ (row cs).2 = cs := by
  rw [row_eq]
  exact List.takeWhile_append_dropWhile

theorem isDigit_of_mem_row : ∀ c ∈ (row cs).1, c.isDigit := by
  rw [row_eq]
  exact fun c hc => List.mem_takeWhile_imp hc

/-- A row of digits goes on as long as digits follow. -/
theorem row_digits_append (h : ∀ c ∈ digits, c.isDigit) (tail : List Char) :
    row (digits ++ tail) = (digits ++ (row tail).1, (row tail).2) := by
  rw [row_eq, row_eq, List.takeWhile_append_of_pos h, List.dropWhile_append_of_pos h]

theorem row_of_not_isDigit {c : Char} (h : c.isDigit = false) (rest : List Char) :
    row (c :: rest) = ([], c :: rest) := by
  simp [row_eq, h]

theorem length_row_le (cs : List Char) : (row cs).2.length ≤ cs.length := by
  have hlength := congrArg List.length (row_append_rest cs)
  rw [List.length_append] at hlength
  omega

/-- A point and the digits after it, and what follows them. -/
def fractionPrefix : List Char → Option (List Char) × List Char
  | '.' :: rest => (some (row rest).1, (row rest).2)
  | cs => (none, cs)

theorem fractionPrefix_of_ne {c : Char} (h : c ≠ '.') (rest : List Char) :
    fractionPrefix (c :: rest) = (none, c :: rest) := by
  unfold fractionPrefix
  split
  · rename_i heq
    exact absurd (List.cons.inj heq).1 h
  · rfl

theorem length_fractionPrefix_le (cs : List Char) : (fractionPrefix cs).2.length ≤ cs.length := by
  unfold fractionPrefix
  split
  · exact (length_row_le _).trans (Nat.le_succ _)
  · exact le_rfl

/-- What is taken for a point and digits stands at the front of the text. -/
theorem fractionPrefix_spec (cs : List Char) :
    cs = ((fractionPrefix cs).1.map ('.' :: ·)).getD [] ++ (fractionPrefix cs).2 ∧
      ∀ row ∈ (fractionPrefix cs).1, ∀ c ∈ row, c.isDigit := by
  unfold fractionPrefix
  split
  · rename_i rest
    refine ⟨by simp [row_append_rest], ?_⟩
    rintro _ ⟨⟩
    exact isDigit_of_mem_row
  · exact ⟨rfl, by simp⟩

theorem exponentPrefix_cons (mark : Char) (rest : List Char) : exponentPrefix (mark :: rest) =
    if (mark = 'e' ∨ mark = 'E') ∧ (row (signPrefix rest).2).1 ≠ [] then
      (if (signPrefix rest).1 then -(natural (row (signPrefix rest).2).1 : Int)
        else natural (row (signPrefix rest).2).1, (row (signPrefix rest).2).2)
    else (0, mark :: rest) := by
  by_cases hmark : mark = 'e' ∨ mark = 'E'
  · -- In each case of the sign, the digits are those that are left without it.
    fun_cases signPrefix rest
    all_goals
      simp only [exponentPrefix, if_pos hmark]
      split
      · rename_i hrow
        simp [hrow]
      · rename_i hne hrow
        rw [hrow]
        exact (if_pos ⟨hmark, hne⟩).symm
  · simp [exponentPrefix, hmark]

theorem read?_eq (cs : List Char) :
    let whole := row cs
    let fraction := fractionPrefix whole.2
    let power := exponentPrefix fraction.2
    read? cs = if whole.1 = [] ∧ fraction.1.getD [] = [] then none
      else some (⟨natural (whole.1 ++ fraction.1.getD []),
        power.1 - (fraction.1.getD []).length⟩, power.2) := by
  intro whole fraction power
  simp only [whole, fraction, power, read?]
  rcases row cs with ⟨digits, _ | ⟨c, rest⟩⟩
  · simp [fractionPrefix]
  · by_cases hpoint : c = '.'
    · subst hpoint
      simp [fractionPrefix]
    · simp [fractionPrefix_of_ne hpoint, hpoint]

end Decimal

/-! ### Signs -/

/-- What is taken for the sign of a text stands at its front. -/
theorem exists_signPrefix (cs : List Char) : ∃ sign : Option Char,
    (∀ c ∈ sign, c = '+' ∨ c = '-') ∧ cs = sign.toList ++ (signPrefix cs).2 ∧
      ((signPrefix cs).1 ↔ sign = some '-') := by
  unfold signPrefix
  split
  · exact ⟨some '-', by simp, rfl, by simp⟩
  · exact ⟨some '+', by simp, rfl, by simp⟩
  · exact ⟨none, by simp, rfl, by simp⟩

theorem signPrefix_append {sign : Option Char} (hsign : ∀ c ∈ sign, c = '+' ∨ c = '-')
    {rest : List Char} (hrest : ∀ c ∈ rest.head?, c ≠ '+' ∧ c ≠ '-') :
    signPrefix (sign.toList ++ rest) = (decide (sign = some '-'), rest) := by
  cases sign with
  | some c =>
      rcases hsign c rfl with rfl | rfl
      · rfl
      · rfl
  | none =>
      cases rest with
      | nil => rfl
      | cons c rest =>
          obtain ⟨hplus, hminus⟩ := hrest c rfl
          rw [signPrefix_eq]
          simp [hplus, hminus]

/-! ### Numbers -/

theorem WrittenExponent.head?_digits_append (e : WrittenExponent) (tail : List Char) :
    ∀ c ∈ (e.digits ++ tail).head?, c ≠ '+' ∧ c ≠ '-' := by
  obtain ⟨first, rest, hdigits⟩ := List.exists_cons_of_ne_nil e.digits_ne_nil
  rw [hdigits]
  intro c hc
  obtain rfl : first = c := Option.some.inj hc
  exact not_sign_of_isDigit (e.isDigit_digits first (by simp [hdigits]))

namespace Decimal

variable {cs rest : List Char} {number : Decimal}

/-- What is taken for an exponent is one, or nothing. -/
theorem exists_exponentPrefix (cs : List Char) : ∃ exponent : Option WrittenExponent,
    cs = (exponent.map WrittenExponent.chars).getD [] ++ (exponentPrefix cs).2 ∧
      (exponent.map WrittenExponent.value).getD 0 = (exponentPrefix cs).1 := by
  cases cs with
  | nil => exact ⟨none, rfl, rfl⟩
  | cons mark rest =>
      rw [exponentPrefix_cons]
      split
      · rename_i h
        obtain ⟨sign, hsign, hrest, hnegative⟩ := exists_signPrefix rest
        refine ⟨some ⟨mark, sign, _, h.1, hsign, h.2, isDigit_of_mem_row⟩, ?_, ?_⟩
        · conv_lhs => rw [hrest, ← row_append_rest (signPrefix rest).2]
          simp [WrittenExponent.chars]
        · simp [WrittenExponent.value, hnegative]
      · exact ⟨none, rfl, rfl⟩

theorem length_exponentPrefix_le (cs : List Char) : (exponentPrefix cs).2.length ≤ cs.length := by
  obtain ⟨exponent, hcs, -⟩ := exists_exponentPrefix cs
  have hlength := congrArg List.length hcs
  rw [List.length_append] at hlength
  omega

/-- No longer exponent is left out. -/
theorem length_exponentPrefix_append_le (e : WrittenExponent) (tail : List Char) :
    (exponentPrefix (e.chars ++ tail)).2.length ≤ tail.length := by
  have hsign : signPrefix (e.sign.toList ++ (e.digits ++ tail))
      = (decide (e.sign = some '-'), e.digits ++ tail) :=
    signPrefix_append e.sign_eq (e.head?_digits_append tail)
  rw [WrittenExponent.chars, List.cons_append, List.append_assoc, exponentPrefix_cons, hsign,
    row_digits_append e.isDigit_digits, if_pos ⟨e.mark_eq, by simp [e.digits_ne_nil]⟩]
  exact length_row_le tail

/-- What is read is a number, and it stands at the front of the text. -/
theorem exists_of_read? (h : read? cs = some (number, rest)) :
    ∃ d : WrittenDecimal, cs = d.chars ++ rest ∧ d.number = number := by
  rw [read?_eq] at h
  split at h
  · cases h
  · rename_i hdigits
    obtain ⟨rfl, rfl⟩ := Prod.mk.inj (Option.some.inj h)
    obtain ⟨hfraction, hrow⟩ := fractionPrefix_spec (row cs).2
    obtain ⟨exponent, hexponent, hvalue⟩ :=
      exists_exponentPrefix (fractionPrefix (row cs).2).2
    have hsome : (row cs).1 ≠ [] ∨ ∃ digits ∈ (fractionPrefix (row cs).2).1, digits ≠ [] := by
      refine (not_and_or.mp hdigits).imp_right fun hne => ?_
      cases hpoint : (fractionPrefix (row cs).2).1 with
      | none => simp [hpoint] at hne
      | some digits => exact ⟨digits, rfl, by simpa [hpoint] using hne⟩
    refine ⟨⟨(row cs).1, _, exponent, isDigit_of_mem_row, hrow, hsome⟩, ?_, ?_⟩
    · conv_lhs => rw [← row_append_rest cs, hfraction, hexponent]
      simp [WrittenDecimal.chars, WrittenDecimal.stem, WrittenDecimal.pointed,
        WrittenDecimal.exponentChars]
    · rw [WrittenDecimal.number, hvalue]

/-- No digit and no point goes on where an exponent begins. -/
theorem row_exponent (e : WrittenExponent) (tail : List Char) :
    row (e.chars ++ tail) = ([], e.chars ++ tail) ∧
      fractionPrefix (e.chars ++ tail) = (none, e.chars ++ tail) := by
  have hmark : e.mark.isDigit = false ∧ e.mark ≠ '.' := by
    rcases e.mark_eq with heq | heq <;> simp [heq]
  exact ⟨row_of_not_isDigit hmark.1 _, fractionPrefix_of_ne hmark.2 _⟩

/-- Where a number stands at the front of a text, one is read that is no shorter. -/
theorem exists_read?_append (d : WrittenDecimal) (tail : List Char) :
    ∃ number rest, read? (d.chars ++ tail) = some (number, rest) ∧ rest.length ≤ tail.length := by
  have hrow : row (d.chars ++ tail)
      = (d.whole ++ (row (d.pointed ++ (d.exponentChars ++ tail))).1,
        (row (d.pointed ++ (d.exponentChars ++ tail))).2) := by
    rw [← row_digits_append d.isDigit_whole]
    simp [WrittenDecimal.chars, WrittenDecimal.stem]
  rw [read?_eq, hrow]
  cases hfraction : d.fraction with
  | none =>
      have hwhole : d.whole ≠ [] := by simpa [hfraction] using d.has_digits
      rw [WrittenDecimal.pointed_of_none hfraction, List.nil_append, if_neg (by simp [hwhole])]
      refine ⟨_, _, rfl, ?_⟩
      cases hexponent : d.exponent with
      | none =>
          rw [WrittenDecimal.exponentChars_of_none hexponent, List.nil_append]
          exact (length_exponentPrefix_le _).trans
            ((length_fractionPrefix_le _).trans (length_row_le tail))
      | some e =>
          obtain ⟨hrow, hpoint⟩ := row_exponent e tail
          rw [WrittenDecimal.exponentChars_of_some hexponent, hrow, hpoint]
          exact length_exponentPrefix_append_le e tail
  | some digits =>
      have hdigits := d.isDigit_fraction digits hfraction
      rw [WrittenDecimal.pointed_of_some hfraction, List.cons_append,
        row_of_not_isDigit (by decide), fractionPrefix, row_digits_append hdigits, if_neg]
      · refine ⟨_, _, rfl, ?_⟩
        cases hexponent : d.exponent with
        | none =>
            rw [WrittenDecimal.exponentChars_of_none hexponent, List.nil_append]
            exact (length_exponentPrefix_le _).trans (length_row_le tail)
        | some e =>
            rw [WrittenDecimal.exponentChars_of_some hexponent, (row_exponent e tail).1]
            exact length_exponentPrefix_append_le e tail
      · have hsome : d.whole ≠ [] ∨ digits ≠ [] := by simpa [hfraction] using d.has_digits
        rintro ⟨hwhole, hrow⟩
        simp only [List.append_nil] at hwhole
        rw [Option.getD_some, List.append_eq_nil_iff] at hrow
        exact hsome.elim (· hwhole) (· hrow.1)

/-- A mark that no digits follow is given back. -/
example : read? "5.e+x".toList = some (⟨5, 0⟩, "e+x".toList) := by decide

/-- The reader of whole texts takes the written numbers and nothing else. -/
theorem ofText?_eq_some_iff :
    ofText? cs = some number ↔ ∃ d : WrittenDecimal, cs = d.chars ∧ d.number = number := by
  constructor
  · intro h
    unfold ofText? at h
    split at h
    · rename_i hread
      cases h
      obtain ⟨d, hcs, hnumber⟩ := exists_of_read? hread
      exact ⟨d, by simpa using hcs, hnumber⟩
    · cases h
  · rintro ⟨d, rfl, rfl⟩
    rw [ofText?, read?_chars]

end Decimal

/-! ### Numbers with a sign -/

/-- A decimal number, perhaps with a sign in front of it. -/
structure SignedDecimal where
  sign : Option Char
  magnitude : WrittenDecimal
  sign_eq : ∀ c ∈ sign, c = '+' ∨ c = '-'

/-- The double that a whole text writes: a decimal number, infinity, or what is no number, each of
    them with a sign or without. -/
def doubleOfText? (text : List Char) : Option Float :=
  let (negative, rest) := signPrefix text
  let magnitude? :=
    match Decimal.ofText? rest with
    | some number => some number.toFloat
    | none =>
        if Text.lower rest = "inf".toList ∨ Text.lower rest = "infinity".toList then some (1.0 / 0.0)
        else if Text.lower rest = "nan".toList then some (0.0 / 0.0)
        else none
  magnitude?.map fun magnitude => if negative then -magnitude else magnitude

namespace SignedDecimal

def chars (d : SignedDecimal) : List Char :=
  d.sign.toList ++ d.magnitude.chars

/-- The number, rounded to a double. -/
def toFloat (d : SignedDecimal) : Float :=
  if d.sign = some '-' then -d.magnitude.number.toFloat else d.magnitude.number.toFloat

/-- The number stands at the front of the text, and no longer one does. -/
def IsLongest (d : SignedDecimal) (text : List Char) : Prop :=
  d.chars <+: text ∧ ∀ other : SignedDecimal, other.chars <+: text →
    other.chars.length ≤ d.chars.length

theorem signPrefix_chars (d : SignedDecimal) (tail : List Char) : signPrefix (d.chars ++ tail)
    = (decide (d.sign = some '-'), d.magnitude.chars ++ tail) := by
  rw [chars, List.append_assoc]
  refine signPrefix_append d.sign_eq ?_
  obtain ⟨c, rest, hchars, hc⟩ | ⟨c, rest, hchars, -⟩ := d.magnitude.opens
  · rw [hchars]
    rintro _ ⟨⟩
    exact not_sign_of_isDigit hc
  · rw [hchars]
    rintro _ ⟨⟩
    decide

/-- A written number is never refused. -/
theorem doubleOfText?_chars (d : SignedDecimal) : doubleOfText? d.chars = some d.toFloat := by
  have hsign := d.signPrefix_chars []
  rw [List.append_nil, List.append_nil] at hsign
  have hmagnitude : Decimal.ofText? d.magnitude.chars = some d.magnitude.number :=
    Decimal.ofText?_eq_some_iff.2 ⟨d.magnitude, rfl, rfl⟩
  simp [doubleOfText?, hsign, hmagnitude, toFloat]

end SignedDecimal

/-- A cast takes the longest number at the front of the text that is left without the blanks before
    it, and zero if there is no number. -/
theorem floatPrefixChars_cases (text : List Char) :
    (∃ d : SignedDecimal, d.IsLongest (Text.trimStart text) ∧ floatPrefixChars text = d.toFloat) ∨
      (∀ d : SignedDecimal, ¬ d.chars <+: Text.trimStart text) ∧ floatPrefixChars text = 0.0 := by
  rw [floatPrefixChars]
  generalize Text.trimStart text = cs
  obtain ⟨sign, hsign, hcs, hnegative⟩ := exists_signPrefix cs
  -- Any number at the front has the same sign, so its digits begin what follows the sign.
  have hfront : ∀ d : SignedDecimal, d.chars <+: cs → ∃ number rest,
      Decimal.read? (signPrefix cs).2 = some (number, rest) ∧
        d.chars.length + rest.length ≤ cs.length := by
    rintro d ⟨tail, rfl⟩
    obtain ⟨number, rest, hread, hle⟩ := Decimal.exists_read?_append d.magnitude tail
    rw [d.signPrefix_chars]
    refine ⟨number, rest, hread, ?_⟩
    rw [List.length_append]
    omega
  cases hread : Decimal.read? (signPrefix cs).2 with
  | none =>
      refine .inr ⟨fun d hd => ?_, by simp [hread]⟩
      obtain ⟨number, rest, hsome, -⟩ := hfront d hd
      rw [hread] at hsome
      cases hsome
  | some found =>
      obtain ⟨number, rest⟩ := found
      obtain ⟨magnitude, hmagnitude, rfl⟩ := Decimal.exists_of_read? hread
      let d : SignedDecimal := ⟨sign, magnitude, hsign⟩
      have hwhole : d.chars ++ rest = cs := by
        rw [hcs, hmagnitude, ← List.append_assoc]
        rfl
      refine .inl ⟨d, ⟨⟨rest, hwhole⟩, fun other hother => ?_⟩, ?_⟩
      · obtain ⟨number, rest', hsome, hle⟩ := hfront other hother
        rw [hread] at hsome
        obtain ⟨-, rfl⟩ := Prod.mk.inj (Option.some.inj hsome)
        rw [← hwhole, List.length_append] at hle
        omega
      · simp only [hread, SignedDecimal.toFloat, hnegative, d]

/-! ### Components -/

/-- The text is written between `<` and `>`, with commas between the parts, and no part is
    blank. -/
structure WritesParts (text : List Char) (parts : List (List Char)) : Prop where
  written : Text.trim text = '<' :: ([','].intercalate parts ++ ['>'])
  ne_nil : parts ≠ []
  no_comma : ∀ part ∈ parts, ',' ∉ part
  not_blank : ∀ part ∈ parts, ∃ c ∈ part, Text.isBlank c = false

theorem Text.between?_eq_some_iff {first last : Char} {text inner : List Char} :
    between? first last text = some inner ↔ text = first :: (inner ++ [last]) := by
  cases text with
  | nil => simp [between?]
  | cons c rest =>
      rw [between?, Option.ite_none_right_eq_some, List.cons.injEq, and_assoc]
      refine and_congr_right fun _ => ?_
      constructor
      · rintro ⟨hlast, hinner⟩
        rw [← Option.some.inj hinner, List.dropLast_append_getLast? last hlast]
      · rintro rfl
        simp

theorem Text.trim_eq_nil_iff {text : List Char} : trim text = [] ↔ ∀ c ∈ text, isBlank c := by
  refine ⟨fun h => ?_, trim_of_blanks⟩
  obtain ⟨indent, tail, hindent, htail, htext⟩ := exists_trim text
  rw [htext, h, List.append_nil]
  exact List.forall_mem_append.mpr ⟨hindent, htail⟩

theorem Text.trim_ne_nil_iff {text : List Char} :
    trim text ≠ [] ↔ ∃ c ∈ text, isBlank c = false := by
  simp [trim_eq_nil_iff]

/-- What a cast makes of a part of a text. -/
def partValue (part : List Char) : Float :=
  floatPrefix (.ofList (Text.trim part))

theorem map_partValue (parts : List (List Char)) :
    (parts.map Text.trim).map floatPrefixChars = parts.map partValue := by
  simp [partValue, floatPrefix, Function.comp_def]

theorem any_isEmpty_eq_false_iff {parts : List (List Char)} :
    (parts.map Text.trim).any List.isEmpty = false ↔
      ∀ part ∈ parts, ∃ c ∈ part, Text.isBlank c = false := by
  simp [Text.trim_ne_nil_iff]

/-- The components of a text are the values of its parts. -/
theorem components?_eq_some_iff {text : String} {values : List Float} :
    components? text = some values ↔
      ∃ parts, WritesParts text.toList parts ∧ parts.map partValue = values := by
  rw [components?, Option.bind_eq_bind, Option.bind_eq_some_iff]
  simp only [Option.ite_none_left_eq_some, Bool.not_eq_true, any_isEmpty_eq_false_iff,
    map_partValue, Option.some.injEq]
  constructor
  · rintro ⟨inner, hinner, hblank, rfl⟩
    obtain ⟨parts, hne, hcomma, rfl⟩ := exists_separated ',' inner
    rw [List.splitOn_intercalate ',' hcomma hne] at hblank ⊢
    exact ⟨parts, ⟨Text.between?_eq_some_iff.1 hinner, hne, hcomma, hblank⟩, rfl⟩
  · rintro ⟨parts, hparts, rfl⟩
    refine ⟨_, Text.between?_eq_some_iff.2 hparts.written, ?_⟩
    rw [List.splitOn_intercalate ',' hparts.no_comma hparts.ne_nil]
    exact ⟨hparts.not_blank, rfl⟩

/-- The vector that three parts write, or the zero vector. -/
theorem vectorOfText_cases (text : String) :
    (∃ x y z, WritesParts text.toList [x, y, z] ∧
      vectorOfText text = ⟨partValue x, partValue y, partValue z⟩) ∨
    (∀ x y z, ¬ WritesParts text.toList [x, y, z]) ∧ vectorOfText text = ⟨0.0, 0.0, 0.0⟩ := by
  rw [vectorOfText]
  split
  · rename_i hvalues
    obtain ⟨parts, hparts, heq⟩ := components?_eq_some_iff.1 hvalues
    simp only [List.map_eq_cons_iff, List.map_eq_nil_iff] at heq
    obtain ⟨x, _, rfl, rfl, y, _, rfl, rfl, z, _, rfl, rfl, rfl⟩ := heq
    exact .inl ⟨x, y, z, hparts, rfl⟩
  · rename_i hnot
    refine .inr ⟨fun x y z hparts => ?_, rfl⟩
    exact hnot _ _ _ (components?_eq_some_iff.2 ⟨_, hparts, rfl⟩)

/-- The rotation that four parts write, or the rotation by no angle. -/
theorem rotationOfText_cases (text : String) :
    (∃ x y z r, WritesParts text.toList [x, y, z, r] ∧
      rotationOfText text = ⟨partValue x, partValue y, partValue z, partValue r⟩) ∨
    (∀ x y z r, ¬ WritesParts text.toList [x, y, z, r]) ∧
      rotationOfText text = ⟨0.0, 0.0, 0.0, 1.0⟩ := by
  rw [rotationOfText]
  split
  · rename_i hvalues
    obtain ⟨parts, hparts, heq⟩ := components?_eq_some_iff.1 hvalues
    simp only [List.map_eq_cons_iff, List.map_eq_nil_iff] at heq
    obtain ⟨x, _, rfl, rfl, y, _, rfl, rfl, z, _, rfl, rfl, r, _, rfl, rfl, rfl⟩ := heq
    exact .inl ⟨x, y, z, r, hparts, rfl⟩
  · rename_i hnot
    refine .inr ⟨fun x y z r hparts => ?_, rfl⟩
    exact hnot _ _ _ _ (components?_eq_some_iff.2 ⟨_, hparts, rfl⟩)

/-- A cast to float gives the double that the longest number at the front of the text writes, which
    is a text that the reader of doubles never refuses, or zero if the text begins with no number.
    A cast to vector or rotation gives what casts of the parts between `<` and `>` give, if there
    are three or four of them and none is blank, and the zero of the type otherwise. -/
theorem casts_read_longest_number :
    (∀ d : SignedDecimal, doubleOfText? d.chars = some d.toFloat) ∧
    ∀ text : String,
      ((∃ d : SignedDecimal, d.IsLongest (Text.trimStart text.toList) ∧
          doubleOfText? d.chars = some (floatPrefix text)) ∨
        (∀ d : SignedDecimal, ¬ d.chars <+: Text.trimStart text.toList) ∧
          floatPrefix text = 0.0) ∧
      ((∃ x y z, WritesParts text.toList [x, y, z] ∧
          vectorOfText text = ⟨partValue x, partValue y, partValue z⟩) ∨
        (∀ x y z, ¬ WritesParts text.toList [x, y, z]) ∧ vectorOfText text = ⟨0.0, 0.0, 0.0⟩) ∧
      ((∃ x y z r, WritesParts text.toList [x, y, z, r] ∧
          rotationOfText text = ⟨partValue x, partValue y, partValue z, partValue r⟩) ∨
        (∀ x y z r, ¬ WritesParts text.toList [x, y, z, r]) ∧
          rotationOfText text = ⟨0.0, 0.0, 0.0, 1.0⟩) := by
  refine ⟨SignedDecimal.doubleOfText?_chars, fun text => ⟨?_, vectorOfText_cases text,
    rotationOfText_cases text⟩⟩
  rcases floatPrefixChars_cases text.toList with ⟨d, hlongest, hvalue⟩ | hnone
  · exact .inl ⟨d, hlongest, by rw [d.doubleOfText?_chars, floatPrefix, hvalue]⟩
  · exact .inr hnone

end LslFront
