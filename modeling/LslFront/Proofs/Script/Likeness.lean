import LslFront.Proofs.Block.Likeness
import LslFront.Proofs.Resolved.Variables
import LslFront.Proofs.Script.Symbols

/-!
# Scripts that differ in their expressions only

`Likeness` goes on from trees to scripts, and to the symbols of a script that is being read: the
tables have the same names in the same order, and what stands under each name is alike.  The scopes
of open blocks hold no expressions and are the same.

A likeness is lawful if a name that is free in the first dialect is free in the second, and if what
is resolved in the first one can be resolved in the second, with expressions that are alike.  Then
names can be declared in both scripts or in neither.
-/

namespace LslFront

/-! ### Tables -/

namespace Table

variable {α : Type} {R : α → α → Prop} {table table' : Table α}

/-- The same names in the same order, with entries that are related. -/
def Alike (R : α → α → Prop) (table table' : Table α) : Prop :=
  List.Forall₂ (fun entry entry' => entry.1 = entry'.1 ∧ R entry.2 entry'.2)
    table.entries table'.entries

namespace Alike

theorem empty : Alike R Table.empty Table.empty :=
  .nil

theorem names_eq (h : table.Alike R table') : table.names = table'.names := by
  have hnames : List.Forall₂ (· = ·) table.names table'.names :=
    List.forall₂_map_left_iff.mpr (List.forall₂_map_right_iff.mpr (h.imp fun _ _ => And.left))
  rwa [List.forall₂_eq_eq_eq] at hnames

theorem contains_eq (h : table.Alike R table') (name : String) :
    table.contains name = table'.contains name := by
  rw [contains, contains, h.names_eq]

theorem isEmpty_eq (h : table.Alike R table') : table.isEmpty = table'.isEmpty := by
  rw [Bool.eq_iff_iff, isEmpty, isEmpty, List.isEmpty_iff_length_eq_zero,
    List.isEmpty_iff_length_eq_zero, List.Forall₂.length_eq h]

theorem values (h : table.Alike R table') : List.Forall₂ R table.values table'.values :=
  List.forall₂_map_left_iff.mpr (List.forall₂_map_right_iff.mpr (h.imp fun _ _ => And.right))

theorem modify (h : table.Alike R table') (name : String) {f g : α → α}
    (hmodify : ∀ a b, R a b → R (f a) (g b)) :
    (table.modify name f).Alike R (table'.modify name g) := by
  refine List.forall₂_map_left_iff.mpr (List.forall₂_map_right_iff.mpr (h.imp ?_))
  rintro ⟨known, a⟩ ⟨known', b⟩ ⟨hname, hab⟩
  obtain rfl : known = known' := hname
  refine ⟨rfl, ?_⟩
  by_cases hknown : known = name
  · simpa [hknown] using hmodify a b hab
  · simpa [hknown] using hab

theorem insert (h : table.Alike R table') (name : String) {a b : α} (hab : R a b) :
    (table.insert name a).Alike R (table'.insert name b) := by
  unfold Table.insert
  rw [h.contains_eq]
  split
  · exact h.modify name fun _ _ _ => hab
  · exact List.rel_append h (.cons ⟨rfl, hab⟩ .nil)

end Alike

end Table

/-! ### Scripts -/

/-- The same tokens, on lines that are alike. -/
structure Line.Alike (like : Likeness) (first second : Line) : Prop where
  number : like.line first.number second.number
  tokens : first.tokens = second.tokens

structure Global.Alike (like : Likeness) (first second : Global) : Prop where
  ty : first.ty = second.ty
  line : like.line first.line second.line
  initializer : Option.Rel (Line.Alike like) first.initializer second.initializer
  value : Option.Rel like.expression first.value second.value

structure Function.Alike (like : Likeness) (first second : Function) : Prop where
  returnType : first.returnType = second.returnType
  params : first.params = second.params
  body : first.body.Alike like second.body
  line : like.line first.line second.line

structure Handler.Alike (like : Likeness) (first second : Handler) : Prop where
  params : first.params = second.params
  body : first.body.Alike like second.body
  line : like.line first.line second.line

structure ScriptState.Alike (like : Likeness) (first second : ScriptState) : Prop where
  line : like.line first.line second.line
  events : first.events.Alike (Handler.Alike like) second.events

structure Script.Alike (like : Likeness) (first second : Script) : Prop where
  dialect : like.dialect first.dialect second.dialect
  globals : first.globals.Alike (Global.Alike like) second.globals
  functions : first.functions.Alike (Function.Alike like) second.functions
  states : first.states.Alike (ScriptState.Alike like) second.states
  includes : first.includes = second.includes

/-- All expressions of a script: the values of its globals, and what stands in its bodies. -/
def Script.expressions (script : Script) : List Resolved :=
  script.globals.values.flatMap (·.value.toList)
    ++ script.functions.values.flatMap (·.body.expressions)
    ++ script.states.values.flatMap fun state =>
        state.events.values.flatMap (·.body.expressions)

theorem Script.Alike.expressions {like : Likeness} {script script' : Script}
    (h : script.Alike like script') :
    List.Forall₂ like.expression script.expressions script'.expressions := by
  refine List.rel_append (List.rel_append ?_ ?_) ?_
  · exact List.rel_flatMap h.globals.values fun _ _ hglobal => hglobal.value.toList
  · exact List.rel_flatMap h.functions.values fun _ _ hfunction => hfunction.body.expressions
  · refine List.rel_flatMap h.states.values fun _ _ hstate => ?_
    exact List.rel_flatMap hstate.events.values fun _ _ hhandler => hhandler.body.expressions

theorem Script.Alike.blank {like : Likeness} {dialect dialect' : Dialect}
    (h : like.dialect dialect dialect') :
    (Script.blank dialect).Alike like (.blank dialect') :=
  ⟨h, .empty, .empty, .empty, rfl⟩

/-! ### Likenesses that are kept -/

/-- What is resolved in the first scope is resolved alike in the second. -/
structure Likeness.Resolves (like : Likeness) (scope scope' : Scope) : Prop where
  tokens : ∀ tokens, Carries like.expression (resolveTokens scope tokens)
    (resolveTokens scope' tokens)
  lists : ∀ tokens, Carries (List.Forall₂ like.expression) (resolveTokenList scope tokens)
    (resolveTokenList scope' tokens)

structure Likeness.Lawful (like : Likeness) : Prop where
  usable : ∀ {dialect dialect' name}, like.dialect dialect dialect' →
    dialect.Usable name → dialect'.Usable name
  resolves : ∀ {dialect dialect' isVariable}, like.dialect dialect dialect' →
    Scope.Clear ⟨dialect, isVariable⟩ → like.Resolves ⟨dialect, isVariable⟩ ⟨dialect', isVariable⟩

/-! ### Symbols -/

namespace Symbols

/-- Symbols of scripts that are alike, in the same scopes. -/
structure Alike (like : Likeness) (symbols symbols' : Symbols) : Prop where
  script : symbols.script.Alike like symbols'.script
  scopes : symbols.scopes = symbols'.scopes

variable {like : Likeness} {symbols symbols' : Symbols}

theorem Alike.isVariable_eq (h : symbols.Alike like symbols') :
    symbols.isVariable = symbols'.isVariable := by
  funext name
  rw [isVariable, isVariable, h.scopes, h.script.globals.contains_eq]

theorem Alike.resolves (hlike : like.Lawful) (h : symbols.Alike like symbols')
    (hclear : symbols.scope.Clear) : like.Resolves symbols.scope symbols'.scope := by
  rw [scope, scope, ← h.isVariable_eq]
  exact hlike.resolves h.script.dialect hclear

theorem Alike.withGlobals (h : symbols.Alike like symbols') {globals globals' : Table Global}
    (hglobals : globals.Alike (Global.Alike like) globals') :
    Alike like { symbols with script := { symbols.script with globals } }
      { symbols' with script := { symbols'.script with globals := globals' } } :=
  ⟨{ h.script with globals := hglobals }, h.scopes⟩

theorem Alike.withFunctions (h : symbols.Alike like symbols')
    {functions functions' : Table Function}
    (hfunctions : functions.Alike (Function.Alike like) functions') :
    Alike like { symbols with script := { symbols.script with functions } }
      { symbols' with script := { symbols'.script with functions := functions' } } :=
  ⟨{ h.script with functions := hfunctions }, h.scopes⟩

theorem Alike.withStates (h : symbols.Alike like symbols') {states states' : Table ScriptState}
    (hstates : states.Alike (ScriptState.Alike like) states') :
    Alike like { symbols with script := { symbols.script with states } }
      { symbols' with script := { symbols'.script with states := states' } } :=
  ⟨{ h.script with states := hstates }, h.scopes⟩

theorem Alike.openScope (h : symbols.Alike like symbols') :
    symbols.openScope.Alike like symbols'.openScope :=
  ⟨h.script, congrArg (Table.empty :: ·) h.scopes⟩

theorem Alike.closeScope (h : symbols.Alike like symbols') :
    Carries (Alike like) symbols.closeScope symbols'.closeScope := by
  intro closed hclosed
  obtain ⟨innermost, outer, hscopes, rfl⟩ := closeScope_eq_ok_iff.1 hclosed
  rw [h.scopes] at hscopes
  exact ⟨_, closeScope_eq_ok_iff.2 ⟨innermost, outer, hscopes, rfl⟩, h.script, rfl⟩

/-- A script that is alike admits the name, too. -/
theorem Alike.admits (hlike : like.Lawful) (h : symbols.Alike like symbols') {name : String}
    (hadmits : symbols.script.Admits name) : symbols'.script.Admits name where
  usable := hlike.usable h.script.dialect hadmits.usable
  notGlobal := h.script.globals.names_eq ▸ hadmits.notGlobal
  notFunction := h.script.functions.names_eq ▸ hadmits.notFunction

theorem Alike.checkNew (hlike : like.Lawful) (h : symbols.Alike like symbols') (name : String) :
    Carries (fun _ _ => True) (symbols.checkNew name) (symbols'.checkNew name) := by
  intro _ hnew
  obtain ⟨hadmits, hscope⟩ := checkNew_eq_ok_iff.1 hnew
  rw [h.scopes] at hscope
  exact ⟨(), checkNew_eq_ok_iff.2 ⟨h.admits hlike hadmits, hscope⟩, trivial⟩

theorem Alike.declare (hlike : like.Lawful) (h : symbols.Alike like symbols') (name : String)
    (ty : Ty) : Carries (Alike like) (symbols.declare name ty) (symbols'.declare name ty) := by
  intro declared hdeclared
  obtain ⟨innermost, outer, hscopes, hadmits, hnew, rfl⟩ := declare_eq_ok_iff.1 hdeclared
  rw [h.scopes] at hscopes
  exact ⟨_, declare_eq_ok_iff.2 ⟨innermost, outer, hscopes, h.admits hlike hadmits, hnew, rfl⟩,
    h.script, rfl⟩

theorem Alike.declareAll (hlike : like.Lawful) (h : symbols.Alike like symbols')
    (params : List Parameter) :
    Carries (Alike like) (symbols.declareAll params) (symbols'.declareAll params) := by
  induction params generalizing symbols symbols' with
  | nil => exact .ok h
  | cons param rest ih =>
      unfold Symbols.declareAll
      apply (h.declare hlike param.name param.ty).bind
      exact fun _ _ hnext => ih hnext

end Symbols

end LslFront
