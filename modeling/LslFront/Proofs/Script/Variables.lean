import LslFront.Proofs.Resolved.Variables
import LslFront.Proofs.Script.Names

/-!
# Variables never hide constants

Variables enter the symbols in two ways, as globals and in the scopes of blocks, and in both only
under names that `checkNew` lets pass.  Such a name is left free by the dialect, and the dialect of
a script never changes; so no variable hides a built-in constant, whatever is done to the symbols
and in which order.
-/

namespace LslFront

namespace Symbols

/-- The symbols after an operation.  One that fails leaves them as they were. -/
def settle (symbols : Symbols) (result : Except Cause Symbols) : Symbols :=
  match result with
  | .ok after => after
  | .error _ => symbols

def insertGlobal (symbols : Symbols) (name : String) (global : Global) : Symbols :=
  let globals := symbols.script.globals.insert name global
  { symbols with script := { symbols.script with globals } }

def insertFunction (symbols : Symbols) (name : String) (function : Function) : Symbols :=
  let functions := symbols.script.functions.insert name function
  { symbols with script := { symbols.script with functions } }

/-- Where operations on the symbols can lead to, from those of a blank script: opening and closing
    scopes, declaring locals, and entering globals and functions under names that have been let
    pass, now or at some other time. -/
inductive Reached (dialect : Dialect) : Symbols → Prop where
  | start : Reached dialect (.ofDialect dialect)
  | openScope {symbols} : Reached dialect symbols → Reached dialect symbols.openScope
  | closeScope {symbols} : Reached dialect symbols →
      Reached dialect (symbols.settle symbols.closeScope)
  | declare {symbols} (name ty) : Reached dialect symbols →
      Reached dialect (symbols.settle (symbols.declare name ty))
  | insertGlobal {symbols asked name} (global) : Reached dialect symbols → Reached dialect asked →
      asked.checkNew name = .ok () → Reached dialect (symbols.insertGlobal name global)
  | insertFunction {symbols asked name} (function) : Reached dialect symbols →
      Reached dialect asked → asked.checkNew name = .ok () →
      Reached dialect (symbols.insertFunction name function)

/-- All variables have names that the dialect leaves free. -/
structure VariablesUsable (dialect : Dialect) (symbols : Symbols) : Prop where
  agrees : symbols.dialect = dialect
  globals : ∀ name ∈ symbols.script.globals.names, dialect.Usable name
  locals : ∀ scope ∈ symbols.scopes, ∀ name ∈ scope.names, dialect.Usable name

namespace VariablesUsable

variable {dialect : Dialect} {symbols : Symbols}

theorem clear (h : symbols.VariablesUsable dialect) : symbols.scope.Clear := by
  intro name hvariable
  have husable : dialect.Usable name := by
    rcases Bool.or_eq_true_iff.mp hvariable with hlocal | hglobal
    · obtain ⟨scope, hscope, hname⟩ := List.any_eq_true.mp hlocal
      exact h.locals scope hscope name (Table.contains_iff.1 hname)
    · exact h.globals name (Table.contains_iff.1 hglobal)
  rw [← h.agrees] at husable
  exact husable.notConstant

/-- A name that is let pass is left free. -/
theorem usable_of_checkNew (h : symbols.VariablesUsable dialect) {name : String}
    (hnew : symbols.checkNew name = .ok ()) : dialect.Usable name := by
  have husable := (checkNew_eq_ok_iff.1 hnew).1.usable
  rwa [show symbols.script.dialect = dialect from h.agrees] at husable

theorem start (dialect : Dialect) : (ofDialect dialect).VariablesUsable dialect where
  agrees := rfl
  globals := fun _ hname => absurd hname List.not_mem_nil
  locals := fun _ hscope => absurd hscope List.not_mem_nil

theorem openScope (h : symbols.VariablesUsable dialect) :
    symbols.openScope.VariablesUsable dialect where
  agrees := h.agrees
  globals := h.globals
  locals := List.forall_mem_cons.mpr ⟨fun _ hname => absurd hname List.not_mem_nil, h.locals⟩

theorem closeScope (h : symbols.VariablesUsable dialect) :
    (symbols.settle symbols.closeScope).VariablesUsable dialect := by
  cases hclose : symbols.closeScope with
  | error _ => exact h
  | ok closed =>
      obtain ⟨innermost, outer, hscopes, rfl⟩ := closeScope_eq_ok_iff.1 hclose
      have hlocals := h.locals
      rw [hscopes] at hlocals
      exact ⟨h.agrees, h.globals, (List.forall_mem_cons.mp hlocals).2⟩

theorem declare (h : symbols.VariablesUsable dialect) (name : String) (ty : Ty) :
    (symbols.settle (symbols.declare name ty)).VariablesUsable dialect := by
  cases hdeclare : symbols.declare name ty with
  | error _ => exact h
  | ok declared =>
      obtain ⟨innermost, outer, hscopes, hadmits, hnew, rfl⟩ := declare_eq_ok_iff.1 hdeclare
      have hlocals := h.locals
      rw [hscopes] at hlocals
      obtain ⟨hinner, houter⟩ := List.forall_mem_cons.mp hlocals
      refine ⟨h.agrees, h.globals, List.forall_mem_cons.mpr ⟨?_, houter⟩⟩
      intro known hknown
      rw [Table.names_insert_of_notMem hnew, List.mem_append, List.mem_singleton] at hknown
      rcases hknown with hknown | rfl
      · exact hinner known hknown
      · have husable := hadmits.usable
        rwa [show symbols.script.dialect = dialect from h.agrees] at husable

theorem insertGlobal (h : symbols.VariablesUsable dialect) {name : String}
    (husable : dialect.Usable name) (global : Global) :
    (symbols.insertGlobal name global).VariablesUsable dialect where
  agrees := h.agrees
  globals := by
    intro known hknown
    have hmem : known ∈ (symbols.script.globals.insert name global).names := hknown
    rw [Table.names_insert] at hmem
    split at hmem
    · exact h.globals known hmem
    · rcases List.mem_append.mp hmem with hmem | hmem
      · exact h.globals known hmem
      · rw [List.mem_singleton.mp hmem]
        exact husable
  locals := h.locals

end VariablesUsable

/-- Whatever is done to the symbols, no variable hides a built-in constant. -/
theorem Reached.variablesUsable {dialect : Dialect} {symbols : Symbols}
    (h : symbols.Reached dialect) : symbols.VariablesUsable dialect := by
  induction h with
  | start => exact .start dialect
  | openScope _ ih => exact ih.openScope
  | closeScope _ ih => exact ih.closeScope
  | declare name ty _ ih => exact ih.declare name ty
  | insertGlobal global _ _ hnew ih ihasked =>
      exact ih.insertGlobal (ihasked.usable_of_checkNew hnew) global
  | insertFunction _ _ _ _ ih _ => exact ⟨ih.agrees, ih.globals, ih.locals⟩

end Symbols

/-! ### Scripts under way -/

namespace Reading

/-- The open scopes hold nothing but names that the script admits. -/
theorem Sound.wellScoped {reading : Reading} (h : reading.Sound) :
    reading.symbols.WellScoped := by
  obtain ⟨symbols, place⟩ := reading
  have hplaced := h.placed
  cases place with
  | topLevel | inState =>
      have hnone : symbols.scopes = [] := hplaced
      show symbols.WellScoped
      rw [Symbols.WellScoped, hnone]
      exact fun _ hscope => absurd hscope List.not_mem_nil
  | functionBody =>
      obtain ⟨params, hbody, -⟩ := hplaced
      exact hbody.wellScoped
  | handlerBody =>
      have hbody : Body.Sound .event _ [] symbols _ := hplaced
      exact hbody.wellScoped

theorem Reached.variablesUsable {dialect : Dialect} {reading : Reading}
    (h : reading.Reached dialect) : reading.symbols.VariablesUsable dialect where
  agrees := h.dialect_eq
  globals := by
    have husable := h.topLevel.usable
    rw [h.dialect_eq] at husable
    exact (List.forall_mem_append.mp husable).1
  locals := by
    intro scope hscope name hname
    have hadmits := (h.sound.wellScoped scope hscope).2 name hname
    rw [← h.dialect_eq]
    exact hadmits.usable

end Reading

end LslFront
