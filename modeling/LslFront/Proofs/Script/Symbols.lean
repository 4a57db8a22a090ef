import LslFront.Proofs.Success
import LslFront.Script.Symbols

/-!
# New names

A name can be declared where the dialect leaves it free, no global variable and no function holds
it, and the innermost scope does not either.  All but the last is the same in every scope of a
body, for a body does not change the script; so a scope is well formed if its names differ and the
script admits each of them, and all scopes that are ever open are.
-/

namespace LslFront

/-! ### Names that can be declared -/

/-- The dialect leaves the name to the script. -/
structure Dialect.Usable (dialect : Dialect) (name : String) : Prop where
  identifier : isIdentifier name
  notReserved : Builtin.isReserved name = false
  notFunction : Builtin.function? name dialect = none
  notConstant : Builtin.constant? name dialect = none

/-- Nothing but the innermost scope can hold the name. -/
structure Script.Admits (script : Script) (name : String) : Prop where
  usable : script.dialect.Usable name
  notGlobal : name ∉ script.globals.names
  notFunction : name ∉ script.functions.names

/-- The parameter as an entry of a scope. -/
def Parameter.entry (param : Parameter) : String × Ty :=
  (param.name, param.ty)

namespace Symbols

variable {symbols symbols' : Symbols} {name : String} {ty : Ty}

theorem holder?_eq_none_iff : symbols.holder? name = none ↔
    Builtin.isReserved name = false ∧ Builtin.function? name symbols.dialect = none ∧
      Builtin.constant? name symbols.dialect = none ∧ name ∉ symbols.script.globals.names ∧
      name ∉ symbols.script.functions.names ∧
      ∀ innermost ∈ symbols.scopes.head?, name ∉ innermost.names := by
  unfold holder?
  cases symbols.scopes.head? with
  | none => simp [ite_eq_iff, Table.contains]
  | some innermost => simp [ite_eq_iff, Table.contains]

theorem checkNew_eq_ok_iff {done : Unit} : symbols.checkNew name = .ok done ↔
    symbols.script.Admits name ∧ ∀ innermost ∈ symbols.scopes.head?, name ∉ innermost.names := by
  unfold checkNew
  constructor
  · intro h
    split at h
    · rename_i hidentifier
      split at h
      · cases h
      · rename_i hfree
        obtain ⟨hreserved, hfunction, hconstant, hglobal, hown, hscope⟩ :=
          holder?_eq_none_iff.1 hfree
        exact ⟨⟨⟨hidentifier, hreserved, hfunction, hconstant⟩, hglobal, hown⟩, hscope⟩
    · cases h
  · rintro ⟨⟨⟨hidentifier, hreserved, hfunction, hconstant⟩, hglobal, hown⟩, hscope⟩
    have hfree : symbols.holder? name = none :=
      holder?_eq_none_iff.2 ⟨hreserved, hfunction, hconstant, hglobal, hown, hscope⟩
    rw [if_pos hidentifier, hfree]

/-! ### Scopes -/

theorem closeScope_eq_ok_iff : symbols.closeScope = .ok symbols' ↔ ∃ innermost outer,
    symbols.scopes = innermost :: outer ∧ symbols' = { symbols with scopes := outer } := by
  unfold closeScope
  split
  · rename_i hnone
    simp [hnone]
  · rename_i innermost outer hscopes
    simp [hscopes, eq_comm]

theorem declare_eq_ok_iff : symbols.declare name ty = .ok symbols' ↔ ∃ innermost outer,
    symbols.scopes = innermost :: outer ∧ symbols.script.Admits name ∧ name ∉ innermost.names ∧
      symbols' = { symbols with scopes := innermost.insert name ty :: outer } := by
  unfold declare
  simp only [bind_eq_ok_iff, checkNew_eq_ok_iff]
  constructor
  · rintro ⟨_, ⟨hadmits, hnew⟩, h⟩
    split at h
    · cases h
    · rename_i innermost outer hscopes
      cases h
      exact ⟨innermost, outer, hscopes, hadmits, hnew innermost (by simp [hscopes]), rfl⟩
  · rintro ⟨innermost, outer, hscopes, hadmits, hnew, rfl⟩
    refine ⟨(), ⟨hadmits, ?_⟩, ?_⟩
    · simpa [hscopes] using hnew
    · simp [hscopes]

theorem script_closeScope (h : symbols.closeScope = .ok symbols') :
    symbols'.script = symbols.script := by
  obtain ⟨innermost, outer, -, rfl⟩ := closeScope_eq_ok_iff.1 h
  rfl

theorem script_declare (h : symbols.declare name ty = .ok symbols') :
    symbols'.script = symbols.script := by
  obtain ⟨innermost, outer, -, -, -, rfl⟩ := declare_eq_ok_iff.1 h
  rfl

theorem script_declareAll {params : List Parameter} (h : symbols.declareAll params = .ok symbols') :
    symbols'.script = symbols.script := by
  induction params generalizing symbols with
  | nil =>
      cases h
      rfl
  | cons param rest ih =>
      obtain ⟨next, hdeclare, h⟩ := bind_eq_ok_iff.1 h
      rw [ih h, script_declare hdeclare]

/-- In each open scope the names differ, and the script admits them. -/
def WellScoped (symbols : Symbols) : Prop :=
  ∀ scope ∈ symbols.scopes, scope.names.Nodup ∧ ∀ name ∈ scope.names, symbols.script.Admits name

theorem WellScoped.openScope (h : symbols.WellScoped) : symbols.openScope.WellScoped := by
  have hempty : (Table.empty : Table Ty).names.Nodup ∧
      ∀ name ∈ (Table.empty : Table Ty).names, symbols.script.Admits name := by
    simp
  exact List.forall_mem_cons.mpr ⟨hempty, h⟩

theorem WellScoped.closeScope (h : symbols.WellScoped)
    (hclose : symbols.closeScope = .ok symbols') : symbols'.WellScoped := by
  obtain ⟨innermost, outer, hscopes, rfl⟩ := closeScope_eq_ok_iff.1 hclose
  rw [WellScoped, hscopes] at h
  exact (List.forall_mem_cons.mp h).2

theorem WellScoped.declare (h : symbols.WellScoped)
    (hdeclare : symbols.declare name ty = .ok symbols') : symbols'.WellScoped := by
  obtain ⟨innermost, outer, hscopes, hadmits, hnew, rfl⟩ := declare_eq_ok_iff.1 hdeclare
  rw [WellScoped, hscopes] at h
  obtain ⟨⟨hnodup, hinner⟩, houter⟩ := List.forall_mem_cons.mp h
  refine List.forall_mem_cons.mpr ⟨?_, houter⟩
  rw [Table.names_insert_of_notMem hnew]
  constructor
  · exact List.nodup_append'.mpr ⟨hnodup, List.nodup_singleton name, by simpa using hnew⟩
  · intro known hknown
    rcases List.mem_append.mp hknown with hknown | hknown
    · exact hinner known hknown
    · rw [List.mem_singleton.mp hknown]
      exact hadmits

/-! ### Parameters -/

/-- Parameters are declared in the innermost scope, in order. -/
theorem declareAll_eq_ok {params : List Parameter} {innermost : Table Ty} {outer : List (Table Ty)}
    (hscopes : symbols.scopes = innermost :: outer) (h : symbols.declareAll params = .ok symbols') :
    ∃ scope, symbols' = { symbols with scopes := scope :: outer } ∧
      scope.entries = innermost.entries ++ params.map Parameter.entry := by
  induction params generalizing symbols innermost with
  | nil =>
      cases h
      exact ⟨innermost, by rw [← hscopes], by simp⟩
  | cons param rest ih =>
      obtain ⟨next, hdeclare, h⟩ := bind_eq_ok_iff.1 h
      obtain ⟨innermost', outer', hscopes', -, hnew, rfl⟩ := declare_eq_ok_iff.1 hdeclare
      rw [hscopes] at hscopes'
      cases hscopes'
      obtain ⟨scope, rfl, hentries⟩ := ih rfl h
      refine ⟨scope, rfl, ?_⟩
      rw [hentries, Table.entries_insert hnew, List.append_assoc]
      rfl

theorem WellScoped.declareAll {params : List Parameter} (h : symbols.WellScoped)
    (hall : symbols.declareAll params = .ok symbols') : symbols'.WellScoped := by
  induction params generalizing symbols with
  | nil =>
      cases hall
      exact h
  | cons param rest ih =>
      obtain ⟨next, hdeclare, hall⟩ := bind_eq_ok_iff.1 hall
      exact ih (h.declare hdeclare) hall

end Symbols

end LslFront
