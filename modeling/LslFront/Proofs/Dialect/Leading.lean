import LslFront.Dialect.Directives
import Mathlib

/-!
# The leading block

The dialect of a script is decided by the lines that it begins with.  Here these lines and the
directives on them are described without a reader: a script is lines with line feeds between them,
its block is all lines before the first that is neither blank nor a comment, and a directive is a
key and a value that stand on a line of the block.  The dialect in force is a union over the
directives that stand somewhere in the block, `testBit_accepted`, so neither their order nor their
number matters, nor anything that stands in the block between them or in the script after it.
-/

namespace LslFront

/-! ### Blanks around a text -/

namespace Text

variable {text tail : List Char}

theorem trimEnd_append_cons (before after : List Char) {c : Char} (hc : isBlank c = false) :
    trimEnd (before ++ c :: after) = before ++ c :: trimEnd after := by
  have hstop : (c :: before.reverse).dropWhile isBlank = c :: before.reverse :=
    List.dropWhile_cons_of_neg (by simp [hc])
  have hreverse : (before ++ c :: after).reverse = after.reverse ++ c :: before.reverse := by simp
  rw [trimEnd, trimEnd, hreverse, List.dropWhile_append, hstop]
  split
  · rename_i hempty
    simp [List.isEmpty_iff.mp hempty]
  · simp

theorem trimEnd_append_blanks (h : ∀ c ∈ tail, isBlank c) :
    trimEnd (text ++ tail) = trimEnd text := by
  have hreverse : ∀ c ∈ tail.reverse, isBlank c := fun c hc => h c (List.mem_reverse.mp hc)
  rw [trimEnd, List.reverse_append, List.dropWhile_append_of_pos hreverse, trimEnd]

theorem exists_trimEnd (text : List Char) :
    ∃ tail, (∀ c ∈ tail, isBlank c) ∧ text = trimEnd text ++ tail := by
  refine ⟨(text.reverse.takeWhile isBlank).reverse, ?_, ?_⟩
  · intro c hc
    exact List.mem_takeWhile_imp (List.mem_reverse.mp hc)
  · rw [trimEnd, ← List.reverse_append, List.takeWhile_append_dropWhile, List.reverse_reverse]

theorem trim_of_indent {indent : List Char} (h : ∀ c ∈ indent, isBlank c) {c : Char}
    (hc : isBlank c = false) (rest : List Char) :
    trim (indent ++ c :: rest) = c :: trimEnd rest := by
  rw [trim, trimStart, List.dropWhile_append_of_pos h, List.dropWhile_cons_of_neg (by simp [hc])]
  exact trimEnd_append_cons [] rest hc

theorem trim_of_blanks (h : ∀ c ∈ text, isBlank c) : trim text = [] := by
  rw [trim, trimStart, List.dropWhile_eq_nil_iff.mpr h]
  rfl

/-- A text is its blanks in front, what is left of it, and its blanks at the end. -/
theorem exists_trim (text : List Char) : ∃ indent tail, (∀ c ∈ indent, isBlank c) ∧
    (∀ c ∈ tail, isBlank c) ∧ text = indent ++ trim text ++ tail := by
  obtain ⟨tail, htail, hend⟩ := exists_trimEnd (trimStart text)
  refine ⟨text.takeWhile isBlank, tail, fun c hc => List.mem_takeWhile_imp hc, htail, ?_⟩
  rw [List.append_assoc, trim, ← hend, trimStart, List.takeWhile_append_dropWhile]

theorem trim_append_blanks (h : ∀ c ∈ tail, isBlank c) : trim (text ++ tail) = trim text := by
  by_cases hblank : ∀ c ∈ text, isBlank c
  · rw [trim_of_blanks hblank, trim_of_blanks]
    intro c hc
    exact (List.mem_append.mp hc).elim (hblank c) (h c)
  · have hstart : (trimStart text).isEmpty = false := by
      rw [List.isEmpty_eq_false_iff, trimStart, ne_eq, List.dropWhile_eq_nil_iff]
      exact hblank
    have hrest : trimStart (text ++ tail) = trimStart text ++ tail := by
      rw [trimStart, List.dropWhile_append, ← trimStart, if_neg (by simp [hstart])]
    rw [trim, hrest, trimEnd_append_blanks h, trim]

theorem trim_trimEnd (text : List Char) : trim (trimEnd text) = trim text := by
  obtain ⟨tail, htail, hend⟩ := exists_trimEnd text
  conv_rhs => rw [hend, trim_append_blanks htail]

theorem splitFirst?_eq_some_iff {sep : Char} {before after : List Char} :
    splitFirst? sep text = some (before, after) ↔ text = before ++ sep :: after ∧ sep ∉ before := by
  induction text generalizing before with
  | nil => simp [splitFirst?]
  | cons c rest ih =>
      rw [splitFirst?]
      by_cases hc : c = sep
      · cases before with
        | nil => simp [hc]
        | cons d before =>
            simp only [if_pos hc, List.cons_append, List.cons.injEq, List.mem_cons]
            constructor
            · intro h
              cases h
            · rintro ⟨⟨rfl, -⟩, hnot⟩
              exact absurd (.inl hc.symm) hnot
      · cases before with
        | nil => simp [hc]
        | cons d before =>
            rw [if_neg hc, List.mem_cons, not_or]
            constructor
            · intro h
              obtain ⟨⟨first, left⟩, hfirst, heq⟩ := Option.map_eq_some_iff.mp h
              obtain ⟨⟨rfl, rfl⟩, rfl⟩ : (c = d ∧ first = before) ∧ left = after := by
                simpa using heq
              obtain ⟨rfl, hnot⟩ := ih.mp hfirst
              exact ⟨rfl, Ne.symm hc, hnot⟩
            · rintro ⟨heq, -, hnot⟩
              obtain ⟨rfl, hrest⟩ := List.cons.inj heq
              rw [ih.mpr ⟨hrest, hnot⟩]
              rfl

end Text

/-! ### Lines -/

/-- Nothing but blanks, or a comment after blanks. -/
inductive IsLeading : List Char → Prop where
  | blank {line} : (∀ c ∈ line, Text.isBlank c) → IsLeading line
  | comment {indent text} : (∀ c ∈ indent, Text.isBlank c) →
      IsLeading (indent ++ '/' :: '/' :: text)

theorem isLeadingLine_trim_iff {line : List Char} :
    isLeadingLine (Text.trim line) ↔ IsLeading line := by
  obtain ⟨indent, tail, hindent, htail, hline⟩ := Text.exists_trim line
  constructor
  · intro h
    rw [isLeadingLine, Bool.or_eq_true, List.isEmpty_iff, List.isPrefixOf_iff_prefix] at h
    rcases h with hempty | ⟨text, htext⟩
    · rw [hempty, List.append_nil] at hline
      rw [hline]
      refine .blank fun c hc => ?_
      exact (List.mem_append.mp hc).elim (hindent c) (htail c)
    · have hcomment : line = indent ++ '/' :: '/' :: (text ++ tail) := by
        rw [hline, ← htext]
        simp
      rw [hcomment]
      exact .comment hindent
  · intro h
    cases h with
    | blank hblank =>
        rw [Text.trim_of_blanks hblank]
        rfl
    | comment hindent =>
        rename_i text
        have hslash : Text.isBlank '/' = false := by decide
        have hend : Text.trimEnd ('/' :: text) = '/' :: Text.trimEnd text :=
          Text.trimEnd_append_cons [] text hslash
        rw [Text.trim_of_indent hindent hslash, hend]
        rfl

/-- The text is the lines of the block and then others, and the block goes as far as it can. -/
def BeginsWith (source : String) (block : List (List Char)) : Prop :=
  ∃ others, block ++ others ≠ [] ∧ (∀ line ∈ block ++ others, '\n' ∉ line) ∧
    source.toList = ['\n'].intercalate (block ++ others) ∧
    (∀ line ∈ block, IsLeading line) ∧ ∀ line ∈ others.head?, ¬ IsLeading line

theorem leadingLines_eq {source : String} {block : List (List Char)}
    (h : BeginsWith source block) : leadingLines source = block.map Text.trim := by
  obtain ⟨others, hne, hlines, hsource, hblock, hothers⟩ := h
  have hall : ∀ line ∈ block.map Text.trim, isLeadingLine line := by
    intro line hmem
    obtain ⟨written, hwritten, rfl⟩ := List.mem_map.mp hmem
    exact isLeadingLine_trim_iff.2 (hblock written hwritten)
  have hstop : (others.map Text.trim).takeWhile isLeadingLine = [] := by
    cases others with
    | nil => rfl
    | cons line rest =>
        have hnot : ¬ isLeadingLine (Text.trim line) := by
          rw [isLeadingLine_trim_iff]
          exact hothers line rfl
        exact List.takeWhile_cons_of_neg hnot
  rw [leadingLines, hsource, List.splitOn_intercalate '\n' hlines hne, List.map_append,
    List.takeWhile_append_of_pos hall, hstop, List.append_nil]

/-- Every text is parts with separators between them. -/
theorem exists_separated (sep : Char) (text : List Char) :
    ∃ parts, parts ≠ [] ∧ (∀ part ∈ parts, sep ∉ part) ∧ text = [sep].intercalate parts := by
  induction text with
  | nil => exact ⟨[[]], by simp, by simp, rfl⟩
  | cons c rest ih =>
      obtain ⟨parts, hne, hparts, hrest⟩ := ih
      obtain ⟨first, others, rfl⟩ := List.exists_cons_of_ne_nil hne
      by_cases hc : c = sep
      · refine ⟨[] :: first :: others, by simp, List.forall_mem_cons.mpr ⟨by simp, hparts⟩, ?_⟩
        rw [hrest, hc]
        rfl
      · obtain ⟨hfirst, hothers⟩ := List.forall_mem_cons.mp hparts
        refine ⟨(c :: first) :: others, by simp, List.forall_mem_cons.mpr ⟨?_, hothers⟩, ?_⟩
        · simpa [Ne.symm hc] using hfirst
        · rw [hrest]
          cases others <;> rfl

theorem exists_beginsWith (source : String) : ∃ block, BeginsWith source block := by
  obtain ⟨lines, hne, hlines, hsource⟩ := exists_separated '\n' source.toList
  let leads (line : List Char) : Bool := isLeadingLine (Text.trim line)
  refine ⟨lines.takeWhile leads, lines.dropWhile leads, ?_⟩
  rw [List.takeWhile_append_dropWhile]
  refine ⟨hne, hlines, hsource, fun line hmem => ?_, fun line hhead => ?_⟩
  · have hleads : leads line := List.mem_takeWhile_imp hmem
    exact isLeadingLine_trim_iff.1 hleads
  · intro hleading
    have hnot := List.head?_dropWhile_not leads lines
    rw [Option.mem_def.mp hhead] at hnot
    exact absurd (isLeadingLine_trim_iff.2 hleading) (by simpa [leads] using hnot)

/-! ### Directives -/

/-- A text without the blanks around it, in small letters. -/
def Text.folded (text : List Char) : List Char :=
  lower (trim text)

theorem Dialect.ofMode?_congr {name other : List Char} (h : Text.folded name = Text.folded other) :
    ofMode? name = ofMode? other := by
  simp only [Text.folded] at h
  simp only [ofMode?, h]

theorem Dialect.ofExtension?_congr {name other : List Char}
    (h : Text.folded name = Text.folded other) : ofExtension? name = ofExtension? other := by
  simp only [Text.folded] at h
  simp only [ofExtension?, h]

namespace Directive

/-- On the line stand, after blanks, `//#!`, the key, a colon and the value. -/
def Keyed (line key value : List Char) : Prop :=
  ∃ indent, (∀ c ∈ indent, Text.isBlank c) ∧ ':' ∉ key ∧
    line = indent ++ ("//#!".toList ++ (key ++ ':' :: value))

/-- What a key and a value mean together. -/
inductive Means (key value : List Char) : Directive → Prop where
  | mode {dialect} : Text.folded key = "mode".toList → Dialect.ofMode? value = some dialect →
      Means key value (.mode dialect)
  | enable {dialect} : Text.folded key = "enable".toList →
      Dialect.ofExtension? value = some dialect → Means key value (.enable dialect)

/-- The directive is written on the line. -/
def IsOn (directive : Directive) (line : List Char) : Prop :=
  ∃ key value, Keyed line key value ∧ Means key value directive

/-- The lines hold the same key and the same value, but for letter case and the blanks around
    them. -/
def Respelled (line other : List Char) : Prop :=
  ∃ key value otherKey otherValue, Keyed line key value ∧ Keyed other otherKey otherValue ∧
    Text.folded key = Text.folded otherKey ∧ Text.folded value = Text.folded otherValue

variable {line other key value : List Char} {directive : Directive}

theorem Means.congr (h : Means key value directive) {otherKey otherValue : List Char}
    (hkey : Text.folded key = Text.folded otherKey)
    (hvalue : Text.folded value = Text.folded otherValue) :
    Means otherKey otherValue directive := by
  cases h with
  | mode hmode hdialect =>
      exact .mode (hkey ▸ hmode) (Dialect.ofMode?_congr hvalue ▸ hdialect)
  | enable henable hdialect =>
      exact .enable (hkey ▸ henable) (Dialect.ofExtension?_congr hvalue ▸ hdialect)

theorem ofLine?_eq_some_iff : ofLine? line = some directive ↔
    ∃ key value, ':' ∉ key ∧ line = "//#!".toList ++ (key ++ ':' :: value) ∧
      Means key value directive := by
  unfold ofLine?
  constructor
  · intro h
    obtain ⟨body, hbody, hrest⟩ := Option.bind_eq_some_iff.mp h
    obtain ⟨⟨key, value⟩, hsplit, hnamed⟩ := Option.bind_eq_some_iff.mp hrest
    obtain ⟨rfl, hkey⟩ := Text.splitFirst?_eq_some_iff.1 hsplit
    refine ⟨key, value, hkey, (List.isPrefixOf?_eq_some_iff_append_eq.mp hbody).symm, ?_⟩
    simp only at hnamed
    split at hnamed
    · rename_i hname
      obtain ⟨dialect, hdialect, rfl⟩ := Option.map_eq_some_iff.mp hnamed
      exact .mode (by rw [← hname, String.toList_ofList]; rfl) hdialect
    · rename_i hname
      obtain ⟨dialect, hdialect, rfl⟩ := Option.map_eq_some_iff.mp hnamed
      exact .enable (by rw [← hname, String.toList_ofList]; rfl) hdialect
    · cases hnamed
  · rintro ⟨key, value, hkey, rfl, hmeans⟩
    have hbody : "//#!".toList.isPrefixOf? ("//#!".toList ++ (key ++ ':' :: value))
        = some (key ++ ':' :: value) := List.isPrefixOf?_eq_some_iff_append_eq.mpr rfl
    have hsplit : Text.splitFirst? ':' (key ++ ':' :: value) = some (key, value) :=
      Text.splitFirst?_eq_some_iff.2 ⟨rfl, hkey⟩
    simp only [hbody, hsplit, Option.bind_some, Option.bind_eq_bind]
    cases hmeans with
    | mode hname hdialect =>
        rw [Text.folded] at hname
        simp [hname, hdialect]
    | enable hname hdialect =>
        rw [Text.folded] at hname
        simp [hname, hdialect]

theorem Keyed.not_mem (h : Keyed line key value) : ':' ∉ key := by
  obtain ⟨-, -, hkey, -⟩ := h
  exact hkey

theorem Keyed.trim_eq (h : Keyed line key value) :
    Text.trim line = "//#!".toList ++ (key ++ ':' :: Text.trimEnd value) := by
  obtain ⟨indent, hindent, -, rfl⟩ := h
  have hslash : Text.isBlank '/' = false := by decide
  have hcolon : Text.isBlank ':' = false := by decide
  have hend := Text.trimEnd_append_cons ("/#!".toList ++ key) value hcolon
  have hmark : "//#!".toList ++ (key ++ ':' :: value)
      = '/' :: ("/#!".toList ++ key ++ ':' :: value) := by simp
  rw [hmark, Text.trim_of_indent hindent hslash, hend]
  simp

/-- The reader of directives sees the line without the blanks around it. -/
theorem ofLine?_trim_iff : ofLine? (Text.trim line) = some directive ↔ directive.IsOn line := by
  rw [ofLine?_eq_some_iff]
  constructor
  · rintro ⟨key, value, hkey, htrim, hmeans⟩
    obtain ⟨indent, tail, hindent, htail, hline⟩ := Text.exists_trim line
    refine ⟨key, value ++ tail, ⟨indent, hindent, hkey, ?_⟩, hmeans.congr rfl ?_⟩
    · rw [hline, htrim]
      simp
    · rw [Text.folded, Text.folded, Text.trim_append_blanks htail]
  · rintro ⟨key, value, hkeyed, hmeans⟩
    have hvalue : Text.folded value = Text.folded (Text.trimEnd value) := by
      rw [Text.folded, Text.folded, Text.trim_trimEnd]
    exact ⟨key, Text.trimEnd value, hkeyed.not_mem, hkeyed.trim_eq, hmeans.congr rfl hvalue⟩

theorem Keyed.unique (h : Keyed line key value) {otherKey otherValue : List Char}
    (hother : Keyed line otherKey otherValue) :
    key = otherKey ∧ Text.folded value = Text.folded otherValue := by
  have hlines := h.trim_eq.symm.trans hother.trim_eq
  have hsplit := Text.splitFirst?_eq_some_iff.2 ⟨List.append_cancel_left hlines, hother.not_mem⟩
  rw [Text.splitFirst?_eq_some_iff.2 ⟨rfl, h.not_mem⟩] at hsplit
  obtain ⟨rfl, hvalues⟩ := Prod.mk.inj (Option.some.inj hsplit)
  refine ⟨rfl, ?_⟩
  rw [Text.folded, Text.folded, ← Text.trim_trimEnd value, hvalues, Text.trim_trimEnd]

theorem IsOn.respelled (h : directive.IsOn line) (hrespelled : Respelled line other) :
    directive.IsOn other := by
  obtain ⟨key, value, hkeyed, hmeans⟩ := h
  obtain ⟨found, foundValue, otherKey, otherValue, hfound, hother, hkeys, hvalues⟩ := hrespelled
  obtain ⟨rfl, hsame⟩ := hkeyed.unique hfound
  exact ⟨otherKey, otherValue, hother, hmeans.congr hkeys (hsame.trans hvalues)⟩

end Directive

/-! ### Unions -/

theorem Dialect.testBit_unions (dialects : List Dialect) (i : Nat) :
    (unions dialects).bits.testBit i = dialects.any (·.bits.testBit i) := by
  induction dialects with
  | nil => exact Nat.zero_testBit i
  | cons dialect rest ih => exact (Nat.testBit_or ..).trans (congrArg _ ih)

/-- The directive stands somewhere in the block. -/
def Directive.StandsIn (directive : Directive) (block : List (List Char)) : Prop :=
  ∃ line ∈ block, directive.IsOn line

namespace Directives

variable {source : String} {block : List (List Char)}

theorem mem_iff_standsIn (h : BeginsWith source block) (directive : Directive) :
    directive ∈ (leadingLines source).filterMap Directive.ofLine? ↔ directive.StandsIn block := by
  rw [leadingLines_eq h, List.mem_filterMap]
  constructor
  · rintro ⟨line, hline, hdirective⟩
    obtain ⟨written, hwritten, rfl⟩ := List.mem_map.mp hline
    exact ⟨written, hwritten, Directive.ofLine?_trim_iff.1 hdirective⟩
  · rintro ⟨written, hwritten, hdirective⟩
    exact ⟨Text.trim written, List.mem_map_of_mem hwritten,
      Directive.ofLine?_trim_iff.2 hdirective⟩

/-- Directives of one kind are told by what they name. -/
theorem mem_filterMap_iff {named? : Directive → Option Dialect} {kind : Dialect → Directive}
    (hkind : ∀ directive dialect, named? directive = some dialect ↔ directive = kind dialect)
    {directives : List Directive} {dialect : Dialect} :
    dialect ∈ directives.filterMap named? ↔ kind dialect ∈ directives := by
  simp [List.mem_filterMap, hkind]

theorem mem_modes_iff {directives : List Directive} {mode : Dialect} :
    mode ∈ directives.filterMap Directive.mode? ↔ .mode mode ∈ directives :=
  mem_filterMap_iff fun directive _ => by cases directive <;> simp [Directive.mode?]

theorem mem_enabled_iff {directives : List Directive} {extension : Dialect} :
    extension ∈ directives.filterMap Directive.enabled? ↔ .enable extension ∈ directives :=
  mem_filterMap_iff fun directive _ => by cases directive <;> simp [Directive.enabled?]

theorem testBit_ofList_mode (directives : List Directive) (baseline : Dialect) (i : Nat) :
    ((ofList directives).mode.getD baseline).bits.testBit i ↔
      (∃ mode, .mode mode ∈ directives ∧ mode.bits.testBit i) ∨
        (¬ ∃ mode, .mode mode ∈ directives) ∧ baseline.bits.testBit i := by
  simp only [← mem_modes_iff, ofList]
  cases hmodes : directives.filterMap Directive.mode? with
  | nil => simp
  | cons first rest =>
      have hnamed : ∃ mode, mode ∈ first :: rest := ⟨first, List.mem_cons_self⟩
      simp only [Option.getD_some, Dialect.testBit_unions, List.any_eq_true, hnamed,
        not_true_eq_false, false_and, or_false]

theorem testBit_ofList_enabled (directives : List Directive) (i : Nat) :
    (ofList directives).enabled.bits.testBit i ↔
      ∃ extension, .enable extension ∈ directives ∧ extension.bits.testBit i := by
  simp only [ofList, Dialect.testBit_unions, List.any_eq_true, mem_enabled_iff]

/-- The modes that stand in the block are in force, or the baseline if there are none, and with
    them the extensions that stand in the block. -/
theorem testBit_accepted (h : BeginsWith source block) (baseline : Dialect) (i : Nat) :
    ((ofSource source).accepted baseline).bits.testBit i ↔
      ((∃ mode, (Directive.mode mode).StandsIn block ∧ mode.bits.testBit i) ∨
        (¬ ∃ mode, (Directive.mode mode).StandsIn block) ∧ baseline.bits.testBit i) ∨
      ∃ extension, (Directive.enable extension).StandsIn block ∧ extension.bits.testBit i := by
  have hbits := @Nat.testBit_or ((ofSource source).mode.getD baseline).bits
    (ofSource source).enabled.bits i
  rw [accepted, Dialect.union, hbits, Bool.or_eq_true, ofSource, testBit_ofList_mode,
    testBit_ofList_enabled]
  simp only [mem_iff_standsIn h]

theorem standsIn_of_respelled {other : List (List Char)}
    (h : ∀ line ∈ block, ∀ directive : Directive, directive.IsOn line →
      ∃ written ∈ other, Directive.Respelled line written)
    {directive : Directive} (hstands : directive.StandsIn block) : directive.StandsIn other := by
  obtain ⟨line, hline, hdirective⟩ := hstands
  obtain ⟨written, hwritten, hrespelled⟩ := h line hline directive hdirective
  exact ⟨written, hwritten, hdirective.respelled hrespelled⟩

end Directives

/-- Every script begins with a block.  The dialect in force is the union of the modes that stand in
    it, or the baseline if there are none, and of the extensions that stand in it.  So scripts are in
    one dialect if each directive in the block of one is found, in whatever letter case and with
    whatever blanks, in the block of the other: it does not matter in which order and how often, what
    else stands in the blocks, and what stands after them. -/
theorem accepted_of_leading_block :
    (∀ source, ∃ block, BeginsWith source block) ∧
    (∀ source block, BeginsWith source block → ∀ (baseline : Dialect) (i : Nat),
      ((Directives.ofSource source).accepted baseline).bits.testBit i ↔
        ((∃ mode, (Directive.mode mode).StandsIn block ∧ mode.bits.testBit i) ∨
          (¬ ∃ mode, (Directive.mode mode).StandsIn block) ∧ baseline.bits.testBit i) ∨
        ∃ extension, (Directive.enable extension).StandsIn block ∧ extension.bits.testBit i) ∧
    ∀ source block other otherBlock, BeginsWith source block → BeginsWith other otherBlock →
      (∀ line ∈ block, ∀ directive : Directive, directive.IsOn line →
        ∃ written ∈ otherBlock, Directive.Respelled line written) →
      (∀ line ∈ otherBlock, ∀ directive : Directive, directive.IsOn line →
        ∃ written ∈ block, Directive.Respelled line written) →
      ∀ baseline, (Directives.ofSource source).accepted baseline
        = (Directives.ofSource other).accepted baseline := by
  refine ⟨exists_beginsWith, fun _ _ h => Directives.testBit_accepted h, ?_⟩
  intro source block other otherBlock hsource hother hforth hback baseline
  have hsame : ∀ directive : Directive,
      directive.StandsIn block ↔ directive.StandsIn otherBlock := fun directive =>
    ⟨Directives.standsIn_of_respelled hforth, Directives.standsIn_of_respelled hback⟩
  refine Dialect.ext_testBit fun i => Bool.eq_iff_iff.mpr ?_
  rw [Directives.testBit_accepted hsource, Directives.testBit_accepted hother]
  simp only [hsame]

/-- Two scripts that name the mode `lsl` and enable `admin`. -/
theorem accepted_of_leading_block_respelled :
    let source := "//#!Mode:lsl\n//#!Enable:admin\ninteger x;"
    let other := "//#! ENABLE : Admin\n// notes\n//#!mode: LSL "
    ∃ block otherBlock, BeginsWith source block ∧ BeginsWith other otherBlock ∧
      (Directives.ofSource source).accepted .standard
        = (Directives.ofSource other).accepted .standard := by
  intro source other
  let mode := "//#!Mode:lsl".toList
  let enable := "//#!Enable:admin".toList
  let otherMode := "//#!mode: LSL ".toList
  let otherEnable := "//#! ENABLE : Admin".toList
  let notes := "// notes".toList
  have hleading : ∀ line ∈ [mode, enable, otherEnable, notes, otherMode], IsLeading line := by
    have hall : [mode, enable, otherEnable, notes, otherMode].all
        (fun line => isLeadingLine (Text.trim line)) := by decide
    exact fun line hline => isLeadingLine_trim_iff.1 (List.all_eq_true.mp hall line hline)
  have hsource : BeginsWith source [mode, enable] := by
    have hcode : ¬ isLeadingLine (Text.trim "integer x;".toList) := by decide
    refine ⟨["integer x;".toList], by simp, by decide, by decide,
      fun line hline => hleading line (by grind), ?_⟩
    rintro line ⟨⟩
    exact fun h => hcode (isLeadingLine_trim_iff.2 h)
  have hother : BeginsWith other [otherEnable, notes, otherMode] :=
    ⟨[], by simp, by decide, by decide,
      fun line hline => hleading line (by grind), by simp⟩
  have hmodes : Directive.Keyed mode "Mode".toList "lsl".toList ∧
      Directive.Keyed otherMode "mode".toList " LSL ".toList :=
    ⟨⟨[], by simp, by decide, by decide⟩,
      ⟨[], by simp, by decide, by decide⟩⟩
  have henables : Directive.Keyed enable "Enable".toList "admin".toList ∧
      Directive.Keyed otherEnable " ENABLE ".toList " Admin".toList :=
    ⟨⟨[], by simp, by decide, by decide⟩,
      ⟨[], by simp, by decide, by decide⟩⟩
  refine ⟨_, _, hsource, hother,
    accepted_of_leading_block.2.2 _ _ _ _ hsource hother ?_ ?_ .standard⟩
  · intro line hline directive _
    rcases List.mem_pair.mp hline with rfl | rfl
    · exact ⟨otherMode, by simp, _, _, _, _, hmodes.1, hmodes.2, by decide, by decide⟩
    · exact ⟨otherEnable, by simp, _, _, _, _, henables.1, henables.2, by decide,
        by decide⟩
  · intro line hline directive hdirective
    have hnotes : Directive.ofLine? (Text.trim notes) = none := by decide
    simp only [List.mem_cons, List.not_mem_nil, or_false] at hline
    rcases hline with rfl | rfl | rfl
    · exact ⟨enable, by simp, _, _, _, _, henables.2, henables.1, by decide,
        by decide⟩
    · rw [← Directive.ofLine?_trim_iff, hnotes] at hdirective
      cases hdirective
    · exact ⟨mode, by simp, _, _, _, _, hmodes.2, hmodes.1, by decide, by decide⟩

end LslFront
