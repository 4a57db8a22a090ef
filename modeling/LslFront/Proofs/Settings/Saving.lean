import LslFront.Command
import LslFront.Proofs.Json.RoundTrip

/-!
# Settings that are saved

The settings are saved as an object with a field for each of them.  Somebody may edit the file
before it is read again: fields may go, as long as the version stays, others that nobody knows may
come, and the order is free.  What is read of a name are all fields with that name, and neither the
order nor the other fields have a part in that.
-/

namespace LslFront

namespace Settings

/-! ### Values of fields -/

/-- Digits are read from the left to the right. -/
theorem foldlM_decDigit? {row : List Char} (h : ∀ c ∈ row, c.isDigit) :
    row.foldlM (fun n c => (Text.decDigit? c).map (n * 10 + ·)) 0 = some (numeral 10 row) := by
  induction row using List.reverseRecOn with
  | nil => rfl
  | append_singleton row c ih =>
      have hc : c.isDigit := h c (by simp)
      have hdigit : Text.decDigit? c = some (Decimal.digitValue c) :=
        decDigit?_eq_some_iff.2 ⟨hc, rfl⟩
      rw [List.foldlM_append, ih fun d hd => h d (by simp [hd]),
        numeral_concat (digitOf?_of_isDigit hc)]
      simp [hdigit, Nat.mul_comm]

theorem natural?_natural {n bound : Nat} (h : n < bound) :
    natural? bound (.natural n) = some n := by
  simp [natural?, Json.natural, foldlM_decDigit? isDigit_of_mem_toDigits, numeral_toDigits, h]

theorem word32?_natural (n : UInt32) : word32? (.natural n.toNat) = some n := by
  rw [word32?, natural?_natural n.toNat_lt]
  simp

theorem word64?_natural (n : UInt64) : word64? (.natural n.toNat) = some n := by
  rw [word64?, natural?_natural n.toNat_lt]
  simp

theorem strings?_array (texts : List String) :
    strings? (.array (texts.map .text)) = some texts := by
  rw [strings?]
  induction texts with
  | nil => rfl
  | cons s rest ih =>
      rw [List.map_cons, List.mapM_cons, ih]
      rfl

/-! ### Fields of an object -/

/-- Fields with names that have a text, as they stand in an object. -/
def named (entries : List (String × Json)) : List (JsonText × Json) :=
  entries.map fun (name, value) => (some name, value)

theorem fst_ne_of_mem_named {entries : List (String × Json)} {name : String}
    (h : name ∉ entries.map Prod.fst) : ∀ field ∈ named entries, field.1 ≠ some name := by
  simp only [named, List.forall_mem_map]
  rintro entry hentry heq
  exact h (List.mem_map.mpr ⟨entry, hentry, Option.some.inj heq⟩)

section

variable {fields fields' : List (JsonText × Json)} {name : String}

/-- The order of the fields does not matter. -/
theorem field?_of_perm (h : fields.Perm fields') (name : String) :
    field? fields name = field? fields' name := by
  have hnamed := h.filter fun field => field.1 == some name
  simp only [field?]
  generalize fields.filter _ = named at hnamed ⊢
  generalize fields'.filter _ = named' at hnamed ⊢
  rcases named with _ | ⟨field, _ | ⟨next, rest⟩⟩
  · rw [hnamed.nil_eq]
  · rw [hnamed.singleton_eq]
  · -- Two fields with the name are two in any order.
    have hlength := hnamed.length_eq
    rcases named' with _ | ⟨field', _ | ⟨next', rest'⟩⟩
    · cases hlength
    · cases hlength
    · rfl

/-- Only the fields of the name matter. -/
theorem field?_congr (h : fields.filter (fun field => field.1 == some name)
    = fields'.filter fun field => field.1 == some name) :
    field? fields name = field? fields' name := by
  simp only [field?]
  rw [h]

/-- Fields with other names do not matter. -/
theorem field?_append_of_ne {added : List (JsonText × Json)}
    (h : ∀ field ∈ added, field.1 ≠ some name) :
    field? (fields ++ added) name = field? fields name := by
  have hnone : added.filter (fun field => field.1 == some name) = [] :=
    List.filter_eq_nil_iff.mpr fun field hfield => by simpa using h field hfield
  exact field?_congr (by rw [List.filter_append, hnone, List.append_nil])

/-- A field that goes is gone, and no other field goes with it. -/
theorem field?_filter (keep : JsonText → Bool) (name : String) :
    field? (fields.filter fun field => keep field.1) name
      = if keep (some name) then field? fields name else some none := by
  have hfilter :
      (fields.filter fun field => keep field.1).filter (fun field => field.1 == some name)
        = fields.filter fun field => field.1 == some name && keep (some name) := by
    rw [List.filter_filter]
    refine List.filter_congr fun field _ => ?_
    cases hname : field.1 == some name with
    | true => rw [eq_of_beq hname]
    | false => rfl
  cases hkeep : keep (some name) with
  | true => exact field?_congr (by simp only [hfilter, hkeep, Bool.and_true])
  | false => exact @field?_congr _ [] name (by simp only [hfilter, hkeep, Bool.and_false]; simp)

/-- Where no name is repeated, a field is what is found under its name. -/
theorem field?_of_nodup {entries : List (String × Json)} (h : (entries.map Prod.fst).Nodup)
    (name : String) : field? (named entries) name = some (entries.lookup name) := by
  induction entries with
  | nil => rfl
  | cons entry rest ih =>
      obtain ⟨known, value⟩ := entry
      obtain ⟨hknown, hrest⟩ := List.nodup_cons.mp h
      have hcons : named ((known, value) :: rest) = [(some known, value)] ++ named rest := rfl
      by_cases hname : known = name
      · subst hname
        rw [hcons, field?_append_of_ne (fst_ne_of_mem_named hknown)]
        simp [field?]
      · have hskip : (name == known) = false := beq_eq_false_iff_ne.mpr (Ne.symm hname)
        rw [List.lookup_cons, hskip, ← ih hrest, hcons]
        exact field?_congr (by simp [hname])

end

/-- A field that has been removed has its default. -/
theorem read?_ite {α : Type} {read : Json → Option α} {json : Json} {value : α}
    (h : read json = some value) (default : α) (removed : Prop) [Decidable removed] :
    read? read default (if removed then none else some json)
      = some (if removed then default else value) := by
  split
  · rfl
  · exact h

/-! ### Edited settings -/

def fieldNames : List String :=
  ["version", "default_mode", "enable", "include_dirs", "max_include_depth"]

/-- The fields in the order in which they are saved. -/
def savedFields (settings : Settings) : List (String × Json) :=
  [("version", .natural settings.version.toNat),
    ("default_mode", .text settings.defaultMode),
    ("enable", .array (settings.enable.map .text)),
    ("include_dirs", .array (settings.includeDirs.map .text)),
    ("max_include_depth", .natural settings.maxIncludeDepth.toNat)]

theorem map_fst_savedFields (settings : Settings) :
    settings.savedFields.map Prod.fst = fieldNames := rfl

theorem written_savedFields (settings : Settings) :
    ∀ field ∈ settings.savedFields, field.2.Written := by
  have htexts : ∀ texts : List String, (Json.array (texts.map .text)).Written := by
    refine fun texts => .array fun item hitem => ?_
    obtain ⟨s, -, rfl⟩ := List.mem_map.mp hitem
    exact .text s
  simp only [savedFields, List.forall_mem_cons]
  exact ⟨.natural _, .text _, htexts _, htexts _, .natural _, by simp⟩

/-- The settings with the standard value for each field that has been removed. -/
def without (removed : List String) (settings : Settings) : Settings where
  version := settings.version
  defaultMode := if "default_mode" ∈ removed then standard.defaultMode else settings.defaultMode
  enable := if "enable" ∈ removed then standard.enable else settings.enable
  includeDirs := if "include_dirs" ∈ removed then standard.includeDirs else settings.includeDirs
  maxIncludeDepth :=
    if "max_include_depth" ∈ removed then standard.maxIncludeDepth else settings.maxIncludeDepth

/-- The saved fields with some of them removed, others added, and all in any order. -/
structure IsEdited (settings : Settings) (removed : List String)
    (added fields : List (String × Json)) : Prop where
  version_stays : "version" ∉ removed
  added_unknown : ∀ field ∈ added, field.1 ∉ fieldNames
  perm : fields.Perm (settings.savedFields.filter (fun field => field.1 ∉ removed) ++ added)

namespace IsEdited

variable {settings : Settings} {removed : List String} {added fields : List (String × Json)}

/-- A field is read as it was saved, or it has been removed. -/
theorem field?_eq (h : IsEdited settings removed added fields) {name : String}
    (hname : name ∈ fieldNames) : field? (named fields) name
      = some (if name ∈ removed then none else settings.savedFields.lookup name) := by
  have hadded : name ∉ added.map Prod.fst := by
    rw [List.mem_map]
    rintro ⟨field, hfield, rfl⟩
    exact h.added_unknown field hfield hname
  have hperm : (named fields).Perm
      (named (settings.savedFields.filter fun field => field.1 ∉ removed) ++ named added) := by
    rw [named, named, named, ← List.map_append]
    exact h.perm.map _
  have hkept : named (settings.savedFields.filter fun field => field.1 ∉ removed)
      = (named settings.savedFields).filter fun field => field.1.all (· ∉ removed) := by
    rw [named, named, List.filter_map]
    rfl
  have hsaved : (settings.savedFields.map Prod.fst).Nodup := by
    rw [map_fst_savedFields]
    decide
  rw [field?_of_perm hperm, field?_append_of_ne (fst_ne_of_mem_named hadded), hkept,
    field?_filter (fun name => name.all (· ∉ removed)), field?_of_nodup hsaved]
  by_cases hremoved : name ∈ removed
  · simp [hremoved]
  · simp [hremoved]

/-- Each field is read from its own value or has its default. -/
theorem ofJson?_eq (h : IsEdited settings removed added fields) :
    ofJson? (.record fields) = some (settings.without removed) := by
  have hnames : (named fields).any (·.1.isNone) = false := by simp [named]
  have hversion : ("version" ∈ removed) = False := eq_false h.version_stays
  have hrecord : Json.record fields = .object (named fields) := rfl
  rw [hrecord, ofJson?, hnames]
  rw [h.field?_eq (by decide : "version" ∈ fieldNames),
    h.field?_eq (by decide : "default_mode" ∈ fieldNames),
    h.field?_eq (by decide : "enable" ∈ fieldNames),
    h.field?_eq (by decide : "include_dirs" ∈ fieldNames),
    h.field?_eq (by decide : "max_include_depth" ∈ fieldNames)]
  have hmode := read?_ite
    (rfl : string? (.text settings.defaultMode) = some settings.defaultMode) standard.defaultMode
    ("default_mode" ∈ removed)
  have henable := read?_ite (strings?_array settings.enable) standard.enable ("enable" ∈ removed)
  have hdirs := read?_ite (strings?_array settings.includeDirs) standard.includeDirs
    ("include_dirs" ∈ removed)
  have hdepth := read?_ite (word64?_natural settings.maxIncludeDepth) standard.maxIncludeDepth
    ("max_include_depth" ∈ removed)
  simp [savedFields, List.lookup, ofFields?, hversion, word32?_natural, hmode, henable, hdirs,
    hdepth, without]

/-- What is written of the edited object can be read. -/
theorem written (h : IsEdited settings removed added fields)
    (hadded : ∀ field ∈ added, field.2.Written) : (Json.record fields).Written := by
  refine .record fun field hfield => ?_
  rcases List.mem_append.mp (h.perm.mem_iff.mp hfield) with hsaved | hnew
  · exact settings.written_savedFields field (List.mem_of_mem_filter hsaved)
  · exact hadded field hnew

end IsEdited

/-- Settings that nobody has edited. -/
theorem isEdited_nil (settings : Settings) :
    settings.IsEdited [] [] settings.savedFields where
  version_stays := List.not_mem_nil
  added_unknown := by simp
  perm := by simp

/-! ### Loading -/

/-- The text of a settings file stands for the settings, wherever the file is. -/
def Loads (text : String) (settings : Settings) : Prop :=
  ofText text = .ok settings ∧ ∀ (view : FileView) (directory : String),
    view (joinPath directory settingsFile) = .ok (.file (some text)) →
      loadSettings view directory = .ok settings

theorem loads_of_ofJson? {text : String} {json : Json} {settings : Settings}
    (htext : Json.ofText? text = some json) (hjson : ofJson? json = some settings) :
    Loads text settings := by
  have hread : ofText text = .ok settings := by simp [ofText, htext, hjson]
  refine ⟨hread, fun view directory hview => ?_⟩
  simp [loadSettings, FileView.read, hview, hread]

/-- Settings that are saved and loaded are the same, and an edit of the file has no other effect
    than that removed fields get their defaults. -/
theorem saving_keeps_settings (settings : Settings) :
    Loads settings.toText settings ∧
      ∀ {removed : List String} {added fields : List (String × Json)},
        settings.IsEdited removed added fields →
          (∀ text, Json.ofText? text = some (.record fields) →
            Loads text (settings.without removed)) ∧
          ((∀ field ∈ added, field.2.Written) → ∀ pretty,
            Loads ((Json.record fields).write pretty 0) (settings.without removed)) := by
  have hedited : ∀ {removed : List String} {added fields : List (String × Json)},
      settings.IsEdited removed added fields → ∀ text, Json.ofText? text = some (.record fields) →
        Loads text (settings.without removed) :=
    fun h _ htext => loads_of_ofJson? htext h.ofJson?_eq
  refine ⟨?_, fun h => ⟨hedited h, fun hadded pretty => ?_⟩⟩
  · have hwritten := settings.isEdited_nil.written (by simp)
    have hall : settings.without [] = settings := by simp [without]
    rw [← hall]
    exact hedited settings.isEdited_nil _ (Json.ofText?_write hwritten true)
  · exact hedited h _ (Json.ofText?_write (h.written hadded) pretty)

/-- One field is removed, one is added, the order is turned around, and quotes are spelled as
    units. -/
theorem saving_keeps_settings_reversed :
    Loads ("\x7b\"note\": null, \"max_include_depth\": 3, \"include_dirs\": "
        ++ "[\"/opt/\\u0022lsl\\u0022\"], \"default_mode\": \"lsl\", \"version\": 7\x7d")
      ⟨7, "lsl", [], ["/opt/\"lsl\""], 3⟩ := by
  have hedited : IsEdited ⟨7, "lsl", ["admin"], ["/opt/\"lsl\""], 3⟩ ["enable"] [("note", .null)]
      [("note", .null), ("max_include_depth", .natural 3),
        ("include_dirs", .array [.text "/opt/\"lsl\""]), ("default_mode", .text "lsl"),
        ("version", .natural 7)] :=
    ⟨by decide, by decide, List.reverse_perm'.mp (.refl _)⟩
  exact ((saving_keeps_settings _).2 hedited).1 _ (by cbv)

end Settings

end LslFront
