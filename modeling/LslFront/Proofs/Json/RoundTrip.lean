import LslFront.Json.Reader
import LslFront.Proofs.Constant.Decimals

/-!
# JSON that is written and read

A value that is written, on one line or on several, is read back.  Two kinds of values are left
out, because nothing can be written for them: a number whose text is no number, and a string whose
escapes leave half of a surrogate pair.

Only a number does not know by itself where it ends.  So what follows a value must not go on with
a number, and behind an item that is a comma, a blank or a bracket.
-/

namespace LslFront

/-- A number of the format: perhaps a minus, a whole part without a needless zero in front, perhaps
    a point with digits after it, and perhaps an exponent. -/
structure JsonNumber where
  negative : Bool
  magnitude : WrittenDecimal
  whole_ne_nil : magnitude.whole ≠ []
  whole_of_zero : magnitude.whole.head? = some '0' → magnitude.whole = ['0']
  fraction_ne_nil : ∀ row ∈ magnitude.fraction, row ≠ []

namespace JsonNumber

def chars (n : JsonNumber) : List Char :=
  (if n.negative then ['-'] else []) ++ n.magnitude.chars

theorem magnitude_opens (n : JsonNumber) : ∃ c more, n.magnitude.chars = c :: more ∧ c.isDigit := by
  obtain ⟨first, more, hmore⟩ := List.exists_cons_of_ne_nil n.whole_ne_nil
  refine ⟨first, more ++ n.magnitude.pointed ++ n.magnitude.exponentChars, ?_,
    n.magnitude.isDigit_whole first (by simp [hmore])⟩
  simp [WrittenDecimal.chars, WrittenDecimal.stem, hmore]

theorem opens (n : JsonNumber) : ∃ c more, n.chars = c :: more ∧ (c.isDigit ∨ c = '-') := by
  obtain ⟨c, more, hmore, hc⟩ := n.magnitude_opens
  cases hnegative : n.negative with
  | true => exact ⟨'-', n.magnitude.chars, by simp [chars, hnegative], .inr rfl⟩
  | false => exact ⟨c, more, by simp [chars, hnegative, hmore], .inl hc⟩

end JsonNumber

namespace Json

/-- The numbers in the value are numbers, and its strings have a text. -/
inductive Written : Json → Prop
  | null : Written null
  | bool (value : Bool) : Written (bool value)
  | number {text : String} (n : JsonNumber) (htext : text.toList = n.chars) : Written (number text)
  | text (s : String) : Written (text s)
  | array {items : List Json} (hitems : ∀ item ∈ items, Written item) : Written (array items)
  | object {fields : List (JsonText × Json)} (hnames : ∀ field ∈ fields, field.1.isSome)
      (hvalues : ∀ field ∈ fields, Written field.2) : Written (object fields)

theorem Written.record {fields : List (String × Json)} (h : ∀ field ∈ fields, Written field.2) :
    Written (record fields) := by
  refine .object ?_ ?_
  · simp only [List.forall_mem_map]
    exact fun field _ => rfl
  · simp only [List.forall_mem_map]
    exact h

/-! ### Numbers -/

/-- Only zero is written with a zero in front. -/
theorem toDigits_eq_zero_of_head? (n : Nat) :
    (Nat.toDigits 10 n).head? = some '0' → Nat.toDigits 10 n = ['0'] := by
  induction n using Nat.strong_induction_on with
  | _ n ih =>
      rw [Nat.toDigits_eq_if (by decide)]
      split
      · exact fun hhead => congrArg (fun c => [c]) (Option.some.inj hhead)
      · rename_i hn
        intro hhead
        have hne : Nat.toDigits 10 (n / 10) ≠ [] := Nat.toDigits_ne_nil
        rw [List.head?_append_of_ne_nil _ hne] at hhead
        have hzero := congrArg (numeral 10) (ih (n / 10) (by omega) hhead)
        rw [numeral_toDigits] at hzero
        have hvalue : numeral 10 ['0'] = 0 := by decide
        omega

/-- A natural number is written as a number. -/
theorem Written.natural (n : Nat) : Written (natural n) := by
  refine .number ⟨false, ⟨Nat.toDigits 10 n, none, none, isDigit_of_mem_toDigits, by simp,
    .inl Nat.toDigits_ne_nil⟩, Nat.toDigits_ne_nil, toDigits_eq_zero_of_head? n, by simp⟩ ?_
  simp [JsonNumber.chars, WrittenDecimal.chars, WrittenDecimal.stem, WrittenDecimal.pointed,
    WrittenDecimal.exponentChars]

/-- No number goes on with the text. -/
def EndsNumber (rest : List Char) : Prop :=
  ∀ c ∈ rest.head?, c.isDigit = false ∧ c ∉ ['.', 'e', 'E']

section

variable {row rest : List Char}

theorem digits?_append (hne : row ≠ []) (hrow : ∀ c ∈ row, c.isDigit)
    (hrest : ∀ c ∈ rest.head?, c.isDigit = false) : digits? (row ++ rest) = some (row, rest) := by
  have hspan : (row ++ rest).span Char.isDigit = (row, rest) := Decimal.row_append hrow hrest
  rw [digits?, hspan]
  cases row with
  | nil => exact absurd rfl hne
  | cons c row => rfl

theorem wholePart?_append (hne : row ≠ []) (hzero : row.head? = some '0' → row = ['0'])
    (hrow : ∀ c ∈ row, c.isDigit) (hrest : ∀ c ∈ rest.head?, c.isDigit = false) :
    wholePart? (row ++ rest) = some (row, rest) := by
  have hneeded : ¬ (row.head? = some '0' ∧ row.length > 1) := by
    rintro ⟨hhead, hlength⟩
    rw [hzero hhead] at hlength
    cases hlength with
    | step h => cases h
  simp only [wholePart?, digits?_append hne hrow hrest, Option.bind_eq_bind, Option.bind_some,
    if_neg hneeded]

variable {d : WrittenDecimal}

theorem fractionPart?_append (hne : ∀ row ∈ d.fraction, row ≠ [])
    (hrest : ∀ c ∈ rest.head?, c.isDigit = false ∧ c ≠ '.') :
    fractionPart? (d.pointed ++ rest) = some (d.pointed, rest) := by
  cases hfraction : d.fraction with
  | none =>
      rw [WrittenDecimal.pointed_of_none hfraction, List.nil_append]
      cases rest with
      | nil => rfl
      | cons c rest => simp [fractionPart?, (hrest c rfl).2]
  | some row =>
      have hdigits : digits? (row ++ rest) = some (row, rest) :=
        digits?_append (hne row hfraction) (d.isDigit_fraction row hfraction)
          fun c hc => (hrest c hc).1
      rw [WrittenDecimal.pointed_of_some hfraction, List.cons_append, fractionPart?, hdigits]
      rfl

theorem exponentPart?_append (hrest : EndsNumber rest) :
    exponentPart? (d.exponentChars ++ rest) = some (d.exponentChars, rest) := by
  cases hexponent : d.exponent with
  | none =>
      rw [WrittenDecimal.exponentChars_of_none hexponent, List.nil_append]
      cases rest with
      | nil => rfl
      | cons c rest =>
          have hc : ¬ (c = 'e' ∨ c = 'E') := by
            have hmarks := (hrest c rfl).2
            simp only [List.mem_cons, not_or] at hmarks
            tauto
          simp only [exponentPart?, if_neg hc]
  | some e =>
      have hdigits : digits? (e.digits ++ rest) = some (e.digits, rest) :=
        digits?_append e.digits_ne_nil e.isDigit_digits fun c hc => (hrest c hc).1
      rw [WrittenDecimal.exponentChars_of_some hexponent, WrittenExponent.chars]
      cases hsign : e.sign with
      | some sign => simp [exponentPart?, e.mark_eq, e.sign_eq sign hsign, hdigits]
      | none =>
          obtain ⟨first, more, hmore⟩ := List.exists_cons_of_ne_nil e.digits_ne_nil
          have hfirst := not_sign_of_isDigit (e.isDigit_digits first (by simp [hmore]))
          rw [hmore, List.cons_append] at hdigits
          simp [exponentPart?, e.mark_eq, hmore, hfirst, hdigits]

theorem head?_exponentChars_append (hrest : EndsNumber rest) :
    ∀ c ∈ (d.exponentChars ++ rest).head?, c.isDigit = false ∧ c ≠ '.' := by
  intro c hc
  rw [List.head?_append] at hc
  rcases Option.or_eq_some_iff.mp hc with hmark | ⟨-, hc⟩
  · rcases WrittenDecimal.eq_of_head?_exponentChars hmark with rfl | rfl
    · decide
    · decide
  · exact ⟨(hrest c hc).1, fun heq => (hrest c hc).2 (by simp [heq])⟩

theorem head?_pointed_append (hrest : EndsNumber rest) :
    ∀ c ∈ (d.pointed ++ (d.exponentChars ++ rest)).head?, c.isDigit = false := by
  cases hfraction : d.fraction with
  | none =>
      rw [WrittenDecimal.pointed_of_none hfraction, List.nil_append]
      exact fun c hc => (head?_exponentChars_append hrest c hc).1
  | some row =>
      rw [WrittenDecimal.pointed_of_some hfraction]
      rintro c ⟨⟩
      decide

/-- Each part of a number ends where the next one begins, so it is read as it was written. -/
theorem readNumber?_append (n : JsonNumber) (hrest : EndsNumber rest) :
    readNumber? (n.chars ++ rest) = some (number (.ofList n.chars), rest) := by
  have hwhole : wholePart? (n.magnitude.chars ++ rest)
      = some (n.magnitude.whole, n.magnitude.pointed ++ (n.magnitude.exponentChars ++ rest)) := by
    rw [WrittenDecimal.chars, WrittenDecimal.stem, List.append_assoc, List.append_assoc]
    exact wholePart?_append n.whole_ne_nil n.whole_of_zero n.magnitude.isDigit_whole
      (head?_pointed_append hrest)
  have hfraction := fractionPart?_append n.fraction_ne_nil
    (head?_exponentChars_append (d := n.magnitude) hrest)
  have hpower := exponentPart?_append (d := n.magnitude) hrest
  have hchars : n.magnitude.whole ++ n.magnitude.pointed ++ n.magnitude.exponentChars
      = n.magnitude.chars := rfl
  obtain ⟨c, more, hmore, hc⟩ := n.magnitude_opens
  rw [hmore, List.cons_append] at hwhole
  cases hnegative : n.negative with
  | true =>
      have hread : readNumber? ('-' :: c :: (more ++ rest)) = some (number (.ofList ('-' ::
          (n.magnitude.whole ++ n.magnitude.pointed ++ n.magnitude.exponentChars))), rest) := by
        simp [readNumber?, hwhole, hfraction, hpower]
      rw [JsonNumber.chars, hnegative, if_pos rfl, List.append_assoc, hmore, List.cons_append]
      rw [hchars, hmore] at hread
      exact hread
  | false =>
      have hread : readNumber? (c :: (more ++ rest)) = some (number (.ofList
          (n.magnitude.whole ++ n.magnitude.pointed ++ n.magnitude.exponentChars)), rest) := by
        simp [readNumber?, not_sign_of_isDigit hc, hwhole, hfraction, hpower]
      rw [JsonNumber.chars, hnegative, if_neg (by decide), List.nil_append, hmore, List.cons_append]
      rw [hchars, hmore] at hread
      exact hread

end

/-! ### Strings -/

/-- A unit that is not a surrogate stands for a character by itself. -/
theorem textOfPieces?_unit {n : Nat} (h : n < 0xD800) (pieces : List Piece) :
    textOfPieces? (.unit n :: pieces) = (textOfPieces? pieces).map (Char.ofNat n :: ·) := by
  have hhigh : ¬ (0xD800 ≤ n ∧ n < 0xDC00) := by omega
  have hlow : ¬ (0xDC00 ≤ n ∧ n < 0xE000) := by omega
  have half : ¬ (0xD800 ≤ n ∧ n < 0xE000) := by omega
  rcases pieces with _ | ⟨_ | low, rest⟩
  · simp [textOfPieces?, half]
  · simp [textOfPieces?, half]
  · rw [textOfPieces?, if_neg hhigh, if_neg hlow]

theorem hexUnit?_control {n : Nat} (h : n < 0x20) :
    hexUnit? ['0', '0', Nat.digitChar (n / 16), Nat.digitChar (n % 16)] = some (n, []) := by
  have hall : ∀ n < 0x20, hexUnit? ['0', '0', Nat.digitChar (n / 16), Nat.digitChar (n % 16)]
      = some (n, []) := by decide
  exact hall n h

/-- A character stands for itself, or is escaped by a letter or by the unit of a control
    character. -/
theorem escapeChar_cases (c : Char) :
    (escapeChar c = [c] ∧ 0x20 ≤ c.toNat ∧ c ≠ '"' ∧ c ≠ '\\') ∨
      (∃ letter, escapeChar c = ['\\', letter] ∧ letter ≠ 'u' ∧ escaped? letter = some c) ∨
      c.toNat < 0x20 ∧ escapeChar c
        = ['\\', 'u', '0', '0', Nat.digitChar (c.toNat / 16), Nat.digitChar (c.toNat % 16)] := by
  unfold escapeChar
  split
  case h_8 hquote hbackslash _ _ _ _ _ =>
    split
    · rename_i hcontrol
      exact .inr (.inr ⟨hcontrol, rfl⟩)
    · rename_i hcontrol
      exact .inl ⟨rfl, Nat.le_of_not_lt hcontrol, hquote, hbackslash⟩
  all_goals exact .inr (.inl ⟨_, rfl, by decide, rfl⟩)

/-- A character is read as itself, or as the unit of a control character. -/
theorem readPieces?_escapeChar (c : Char) : ∃ piece : Piece,
    (piece = .char c ∨ piece = .unit c.toNat ∧ c.toNat < 0x20) ∧
      ∀ {pieces rest rest'}, readPieces? rest = some (pieces, rest') →
        readPieces? (escapeChar c ++ rest) = some (piece :: pieces, rest') := by
  obtain ⟨hself, hle, hquote, hbackslash⟩ | ⟨letter, hletter, hunit, hescaped⟩ | ⟨hlt, hcontrol⟩ :=
    escapeChar_cases c
  · refine ⟨.char c, .inl rfl, fun hread => ?_⟩
    rw [hself, List.singleton_append]
    simp [readPieces?, hbackslash, Nat.not_lt.mpr hle, hread]
  · refine ⟨.char c, .inl rfl, fun hread => ?_⟩
    rw [hletter]
    simp [readPieces?, hunit, hescaped, hread]
  · refine ⟨.unit c.toNat, .inr ⟨rfl, hlt⟩, fun hread => ?_⟩
    rw [hcontrol]
    simp [readPieces?, hexUnit?_control hlt, hread]

/-- A text that is written between quotes is read back. -/
theorem readText?_append (s : String) (rest : List Char) :
    readText? (s.toList.flatMap escapeChar ++ '"' :: rest) = some (some s, rest) := by
  suffices hpieces : ∀ cs : List Char, ∃ pieces,
      readPieces? (cs.flatMap escapeChar ++ '"' :: rest) = some (pieces, rest) ∧
        textOfPieces? pieces = some cs by
    obtain ⟨pieces, hread, htext⟩ := hpieces s.toList
    simp [readText?, hread, htext]
  intro cs
  induction cs with
  | nil => exact ⟨[], rfl, rfl⟩
  | cons c cs ih =>
      obtain ⟨pieces, hread, htext⟩ := ih
      obtain ⟨piece, hpiece, hadds⟩ := readPieces?_escapeChar c
      refine ⟨piece :: pieces, ?_, ?_⟩
      · rw [List.flatMap_cons, List.append_assoc]
        exact hadds hread
      · rcases hpiece with rfl | ⟨rfl, hlt⟩
        · simp [textOfPieces?, htext]
        · simp [textOfPieces?_unit (by omega : c.toNat < 0xD800), htext]

/-! ### Blanks -/

theorem skipSpace_append {blanks : List Char} (h : ∀ c ∈ blanks, isSpace c) (cs : List Char) :
    skipSpace (blanks ++ cs) = skipSpace cs :=
  List.dropWhile_append_of_pos h

theorem skipSpace_cons {c : Char} (h : isSpace c = false) (cs : List Char) :
    skipSpace (c :: cs) = c :: cs :=
  List.dropWhile_cons_of_neg (by simp [h])

theorem skipSpace_idem (cs : List Char) : skipSpace (skipSpace cs) = skipSpace cs :=
  List.dropWhile_idempotent isSpace cs

theorem isSpace_of_mem_indentation {level : Nat} : ∀ c ∈ (indentation level).toList, isSpace c := by
  intro c hc
  rw [indentation, String.toList_ofList, List.mem_cons, List.mem_replicate] at hc
  rcases hc with rfl | ⟨-, rfl⟩
  · decide
  · decide

theorem isSpace_of_mem_opening (pretty : Bool) (level : Nat) :
    ∀ c ∈ (opening pretty level).toList, isSpace c := by
  cases pretty with
  | true => exact isSpace_of_mem_indentation
  | false => simp [opening]

theorem skipSpace_opening (pretty : Bool) (level : Nat) (cs : List Char) :
    skipSpace ((opening pretty level).toList ++ cs) = skipSpace cs :=
  skipSpace_append (isSpace_of_mem_opening pretty level) cs

theorem skipSpace_closing (pretty : Bool) (level : Nat) (cs : List Char) :
    skipSpace ((closing pretty level).toList ++ cs) = skipSpace cs :=
  skipSpace_opening pretty level cs

/-- No reader minds the blanks in front. -/
theorem readValue?_of_skipSpace {cs cs' : List Char} (h : skipSpace cs = skipSpace cs')
    (budget : Nat) : readValue? budget cs = readValue? budget cs' := by
  cases budget with
  | zero => rfl
  | succ budget => simp only [readValue?, h]

theorem readItems?_of_skipSpace {cs cs' : List Char} (h : skipSpace cs = skipSpace cs')
    (budget : Nat) : readItems? budget cs = readItems? budget cs' := by
  cases budget with
  | zero => rfl
  | succ budget => simp only [readItems?, readValue?_of_skipSpace h]

theorem readFields?_of_skipSpace {cs cs' : List Char} (h : skipSpace cs = skipSpace cs')
    (budget : Nat) : readFields? budget cs = readFields? budget cs' := by
  cases budget with
  | zero => rfl
  | succ budget => simp only [readFields?, h]

/-- An item or a field ends where a comma or a bracket follows, perhaps after blanks. -/
theorem endsNumber_of_skipSpace {tail rest : List Char} {mark : Char}
    (hmark : mark ∈ [',', ']', '\x7d']) (h : skipSpace tail = mark :: rest) : EndsNumber tail := by
  intro c hc
  obtain ⟨tail, rfl⟩ := List.head?_eq_some_iff.mp hc
  have hends : c ∈ [' ', '\n', '\r', '\t', ',', ']', '\x7d'] := by
    cases hspace : isSpace c with
    | true =>
        simp only [isSpace, Bool.or_eq_true, beq_iff_eq] at hspace
        simp [← or_assoc, hspace]
    | false =>
        rw [skipSpace_cons hspace] at h
        obtain rfl : c = mark := (List.cons.inj h).1
        simp only [List.mem_cons] at hmark ⊢
        tauto
  simp only [List.mem_cons, List.not_mem_nil, or_false] at hends
  rcases hends with rfl | rfl | rfl | rfl | rfl | rfl | rfl <;> decide

/-! ### Values -/

/-- Wherever the value is written, it is read back, and nothing behind it is lost.  A call for each
    character is enough. -/
def ReadsBack (json : Json) : Prop :=
  ∀ (pretty : Bool) (level budget : Nat) (rest : List Char),
    (json.write pretty level).toList.length ≤ budget → EndsNumber rest →
      readValue? budget ((json.write pretty level).toList ++ rest) = some (json, rest)

theorem writeItems_cons (pretty : Bool) (level : Nat) (item : Json) (items : List Json) :
    writeItems pretty level (item :: items) = opening pretty level ++ item.write pretty level
      ++ if items = [] then "" else "," ++ writeItems pretty level items := by
  cases items with
  | nil => simp [writeItems]
  | cons next rest => simp [writeItems, String.append_assoc]

theorem writeFields_cons (pretty : Bool) (level : Nat) (name : JsonText) (value : Json)
    (fields : List (JsonText × Json)) :
    writeFields pretty level ((name, value) :: fields) = opening pretty level ++ writeText name
      ++ colon pretty ++ value.write pretty level
      ++ if fields = [] then "" else "," ++ writeFields pretty level fields := by
  cases fields with
  | nil => simp [writeFields]
  | cons next rest => simp [writeFields, String.append_assoc]

theorem toList_write_array (pretty : Bool) (level : Nat) (items : List Json) :
    ((array items).write pretty level).toList = '[' :: ((if items = [] then []
      else (writeItems pretty (level + 1) items).toList ++ (closing pretty level).toList)
        ++ [']']) := by
  cases items with
  | nil => simp [write]
  | cons item rest => simp [write]

theorem toList_write_object (pretty : Bool) (level : Nat) (fields : List (JsonText × Json)) :
    ((object fields).write pretty level).toList = '\x7b' :: ((if fields = [] then []
      else (writeFields pretty (level + 1) fields).toList ++ (closing pretty level).toList)
        ++ ['\x7d']) := by
  cases fields with
  | nil => simp [write]
  | cons field rest => simp [write]

/-- Items are read back up to the bracket behind them.  The call for an item is paid for by the
    comma or the bracket in front of it. -/
theorem readItems?_append {pretty : Bool} {level : Nat} {tail rest : List Char}
    (htail : skipSpace tail = ']' :: rest) {items : List Json} (hne : items ≠ [])
    (h : ∀ item ∈ items, ReadsBack item) {budget : Nat}
    (hbudget : (writeItems pretty level items).toList.length < budget) :
    readItems? budget ((writeItems pretty level items).toList ++ tail) = some (items, rest) := by
  induction items generalizing budget with
  | nil => exact absurd rfl hne
  | cons item items ih =>
      obtain ⟨hitem, hitems⟩ := List.forall_mem_cons.mp h
      obtain ⟨budget, rfl⟩ := Nat.exists_eq_add_one_of_ne_zero (Nat.ne_zero_of_lt hbudget)
      rw [writeItems_cons] at hbudget ⊢
      simp only [String.toList_append, List.length_append, List.append_assoc] at hbudget ⊢
      rw [readItems?_of_skipSpace (skipSpace_opening pretty level _)]
      simp only [readItems?]
      by_cases hnil : items = []
      · subst hnil
        have hread := hitem pretty level budget tail (by omega)
          (endsNumber_of_skipSpace (by simp) htail)
        simp [hread, htail]
      · have hcomma : skipSpace (',' :: ((writeItems pretty level items).toList ++ tail))
            = ',' :: ((writeItems pretty level items).toList ++ tail) :=
          skipSpace_cons (by decide) _
        have hread := hitem pretty level budget _ (by omega)
          (endsNumber_of_skipSpace (by simp) hcomma)
        have hmore : readItems? budget ((writeItems pretty level items).toList ++ tail)
            = some (items, rest) := by
          refine ih hnil hitems ?_
          simp [if_neg hnil] at hbudget
          omega
        simp [if_neg hnil, hread, hcomma, hmore]

/-- After a colon there may be a blank. -/
theorem skipSpace_colon (pretty : Bool) (cs : List Char) : ∃ more,
    skipSpace ((colon pretty).toList ++ cs) = ':' :: more ∧ skipSpace more = skipSpace cs := by
  cases pretty with
  | true => exact ⟨' ' :: cs, rfl, rfl⟩
  | false => exact ⟨cs, rfl, rfl⟩

theorem toList_writeText_some (s : String) :
    (writeText (some s)).toList = '"' :: (s.toList.flatMap escapeChar ++ ['"']) :=
  String.toList_ofList

/-- Fields are read back up to the bracket behind them. -/
theorem readFields?_append {pretty : Bool} {level : Nat} {tail rest : List Char}
    (htail : skipSpace tail = '\x7d' :: rest) {fields : List (JsonText × Json)} (hne : fields ≠ [])
    (hnames : ∀ field ∈ fields, field.1.isSome) (hvalues : ∀ field ∈ fields, ReadsBack field.2)
    {budget : Nat} (hbudget : (writeFields pretty level fields).toList.length < budget) :
    readFields? budget ((writeFields pretty level fields).toList ++ tail)
      = some (fields, rest) := by
  induction fields generalizing budget with
  | nil => exact absurd rfl hne
  | cons field fields ih =>
      obtain ⟨name, value⟩ := field
      obtain ⟨hname, hotherNames⟩ := List.forall_mem_cons.mp hnames
      obtain ⟨hvalue, hotherValues⟩ : ReadsBack value ∧ ∀ field ∈ fields, ReadsBack field.2 :=
        List.forall_mem_cons.mp hvalues
      obtain ⟨s, rfl⟩ := Option.isSome_iff_exists.mp hname
      obtain ⟨budget, rfl⟩ := Nat.exists_eq_add_one_of_ne_zero (Nat.ne_zero_of_lt hbudget)
      rw [writeFields_cons] at hbudget ⊢
      simp only [String.toList_append, List.length_append, List.append_assoc] at hbudget ⊢
      rw [readFields?_of_skipSpace (skipSpace_opening pretty level _), toList_writeText_some]
      simp only [List.cons_append, List.append_assoc, List.nil_append]
      -- The name and the colon are the same whether another field follows or not.
      obtain ⟨more, hcolon, hmore⟩ := skipSpace_colon pretty ((value.write pretty level).toList
        ++ ((if fields = [] then "" else "," ++ writeFields pretty level fields).toList ++ tail))
      rw [readFields?, skipSpace_cons (by decide)]
      simp only [readText?_append, hcolon, readValue?_of_skipSpace hmore, Option.bind_eq_bind,
        Option.bind_some]
      by_cases hnil : fields = []
      · subst hnil
        have hread := hvalue pretty level budget tail (by omega)
          (endsNumber_of_skipSpace (by simp) htail)
        simp [hread, htail]
      · have hcomma : skipSpace (',' :: ((writeFields pretty level fields).toList ++ tail))
            = ',' :: ((writeFields pretty level fields).toList ++ tail) :=
          skipSpace_cons (by decide) _
        have hread := hvalue pretty level budget _ (by omega)
          (endsNumber_of_skipSpace (by simp) hcomma)
        have hrest : readFields? budget ((writeFields pretty level fields).toList ++ tail)
            = some (fields, rest) := by
          refine ih hnil hotherNames hotherValues ?_
          simp [if_neg hnil] at hbudget
          omega
        simp [if_neg hnil, hread, hcomma, hrest]

/-- No item begins with what closes an array, so a row of items is not taken for the end. -/
theorem readValue?_array {budget : Nat} {cs rest : List Char} {items : List Json}
    (h : readItems? budget cs = some (items, rest)) :
    readValue? (budget + 1) ('[' :: cs) = some (array items, rest) := by
  rw [readValue?, skipSpace_cons (by decide)]
  simp only
  split
  · rename_i more hmore
    rw [readItems?_of_skipSpace (hmore.trans (skipSpace_cons (by decide) more).symm)] at h
    rcases budget with _ | _ | budget <;> cases h
  · rename_i hskip
    rw [readItems?_of_skipSpace (skipSpace_idem _), h]
    rfl

theorem readValue?_object {budget : Nat} {cs rest : List Char} {fields : List (JsonText × Json)}
    (h : readFields? budget cs = some (fields, rest)) :
    readValue? (budget + 1) ('\x7b' :: cs) = some (object fields, rest) := by
  rw [readValue?, skipSpace_cons (by decide)]
  simp only
  split
  · rename_i more hmore
    rw [readFields?_of_skipSpace (hmore.trans (skipSpace_cons (by decide) more).symm)] at h
    rcases budget with _ | budget <;> cases h
  · rename_i hskip
    rw [readFields?_of_skipSpace (skipSpace_idem _), h]
    rfl

theorem readValue?_number {budget : Nat} {c : Char} (hc : c.isDigit ∨ c = '-') (cs : List Char) :
    readValue? (budget + 1) (c :: cs) = readNumber? (c :: cs) := by
  have hother : ∀ mark : Char, mark.isDigit = false ∧ mark ≠ '-' → c ≠ mark := by
    rintro mark ⟨hdigit, hminus⟩ rfl
    exact hc.elim (by simp [hdigit]) hminus
  have hspace : isSpace c = false := by
    simp [isSpace, hother]
  rw [readValue?, skipSpace_cons hspace]
  split
  case h_8 => rfl
  case h_1 heq => cases heq
  all_goals
    rename_i heq
    exact absurd (List.cons.inj heq).1 (hother _ (by decide))

/-- A value that is written is read back wherever it stands. -/
theorem readsBack_of_written {json : Json} (h : Written json) : ReadsBack json := by
  induction h with
  | null =>
      rintro pretty level (_ | budget) rest hbudget -
      · simp [write] at hbudget
      · rw [write]
        rfl
  | bool value =>
      rintro pretty level (_ | budget) rest hbudget -
      · cases value <;> simp [write] at hbudget
      · cases value <;> rw [write] <;> rfl
  | number n htext =>
      obtain ⟨c, more, hmore, hc⟩ := n.opens
      rintro pretty level (_ | budget) rest hbudget hrest
      · simp [write, htext, hmore] at hbudget
      · rw [write, htext, hmore, List.cons_append, readValue?_number hc, ← List.cons_append,
          ← hmore, readNumber?_append n hrest, ← htext, String.ofList_toList]
  | text s =>
      rintro pretty level (_ | budget) rest hbudget -
      · simp [write, text, toList_writeText_some] at hbudget
      · rw [text, write, toList_writeText_some, List.cons_append, readValue?,
          skipSpace_cons (by decide)]
        simp [readText?_append]
  | @array items hitems ih =>
      rintro pretty level (_ | budget) rest hbudget -
      · simp [toList_write_array] at hbudget
      · rw [toList_write_array] at hbudget ⊢
        by_cases hnil : items = []
        · subst hnil
          rfl
        · have hclosing := (skipSpace_closing pretty level (']' :: rest)).trans
            (skipSpace_cons (by decide) rest)
          simp [hnil] at hbudget ⊢
          exact readValue?_array (readItems?_append hclosing hnil ih (by omega))
  | @object fields hnames hvalues ih =>
      rintro pretty level (_ | budget) rest hbudget -
      · simp [toList_write_object] at hbudget
      · rw [toList_write_object] at hbudget ⊢
        by_cases hnil : fields = []
        · subst hnil
          rfl
        · have hclosing := (skipSpace_closing pretty level ('\x7d' :: rest)).trans
            (skipSpace_cons (by decide) rest)
          simp [hnil] at hbudget ⊢
          exact readValue?_object (readFields?_append hclosing hnil hnames ih (by omega))

/-- What is written is read back. -/
theorem ofText?_write {json : Json} (h : Written json) (pretty : Bool) :
    ofText? (json.write pretty 0) = some json := by
  have hbudget : ∀ n, n ≤ 2 * n + 2 := fun n => by omega
  have hread := readsBack_of_written h pretty 0 _ [] (hbudget _) (by simp [EndsNumber])
  rw [List.append_nil] at hread
  rw [ofText?]
  simp only [hread]
  rfl

end Json

end LslFront
