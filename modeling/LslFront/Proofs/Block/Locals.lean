import LslFront.Proofs.Block.Scopes
import LslFront.Proofs.Source.Runs

/-!
# What a body leaves of its names

Each block inside a body opens a scope where it begins and drops it where it ends, whatever
statement the block belongs to.  A body without braces has no scope, but nothing can be declared in
it either.  So of all variables in a body those are left that it declares itself, outside of the
blocks in it.  They stand in the scope in which the body was begun, as if they had been declared
there one after the other, and whatever is asked about a name is answered like that.

This needs no well-formed scopes to begin with: a declaration is accepted or not by itself.
-/

namespace LslFront

/-- The entry of a scope as it is declared. -/
def Parameter.ofEntry (entry : String × Ty) : Parameter :=
  ⟨entry.2, entry.1⟩

/-- The second symbols have the entries in the innermost scope, behind what was there, and differ
    from the first in nothing else. -/
structure Symbols.Gains (symbols : Symbols) (entries : List (String × Ty)) (symbols' : Symbols) :
    Prop where
  depth : symbols'.depth = symbols.depth
  script : symbols'.script = symbols.script
  scopes : ∀ innermost outer, symbols.scopes = innermost :: outer →
    ∃ own, symbols'.scopes = own :: outer ∧ own.entries = innermost.entries ++ entries
  isVariable_iff : ∀ name, symbols'.isVariable name ↔
    name ∈ entries.map Prod.fst ∨ symbols.isVariable name
  checkNew_eq : ∀ name, symbols'.checkNew name =
    if name ∈ entries.map Prod.fst then .error (.declaration (.collision name .local))
    else symbols.checkNew name

namespace Symbols

variable {symbols symbols' next : Symbols} {known : String} {ty : Ty}

theorem declareAll_append (symbols : Symbols) (params more : List Parameter) :
    symbols.declareAll (params ++ more) = symbols.declareAll params >>= (·.declareAll more) := by
  induction params generalizing symbols with
  | nil => rfl
  | cons param rest ih =>
      simp only [List.cons_append, declareAll, ih, bind_assoc]

/-! ### One declaration -/

theorem isVariable_of_declare (h : symbols.declare known ty = .ok symbols') (name : String) :
    symbols'.isVariable name ↔ name = known ∨ symbols.isVariable name := by
  obtain ⟨innermost, outer, hscopes, -, hnew, rfl⟩ := declare_eq_ok_iff.1 h
  have hinsert : (innermost.insert known ty).contains name
      ↔ innermost.contains name ∨ name = known := by
    simp [Table.contains_iff, Table.names_insert_of_notMem hnew]
  simp only [isVariable, hscopes, List.any_cons, Bool.or_eq_true, hinsert]
  tauto

/-- The name is taken, and every other name is what it was. -/
theorem checkNew_of_declare (h : symbols.declare known ty = .ok symbols') (name : String) :
    symbols'.checkNew name =
      if name = known then .error (.declaration (.collision name .local))
      else symbols.checkNew name := by
  obtain ⟨innermost, outer, hscopes, ⟨husable, hglobal, hfunction⟩, hnew, rfl⟩ :=
    declare_eq_ok_iff.1 h
  split
  · rename_i heq
    subst heq
    simp [checkNew, holder?, dialect, Table.contains, husable.identifier, husable.notReserved,
      husable.notFunction, husable.notConstant, hglobal, hfunction,
      Table.names_insert_of_notMem hnew]
  · rename_i hne
    simp [checkNew, holder?, dialect, hscopes, Table.contains,
      Table.names_insert_of_notMem hnew, hne]

theorem depth_of_declare (h : symbols.declare known ty = .ok symbols') :
    symbols'.depth = symbols.depth := by
  obtain ⟨innermost, outer, hscopes, -, -, rfl⟩ := declare_eq_ok_iff.1 h
  simp [depth, hscopes]

theorem gains_of_declare (h : symbols.declare known ty = .ok symbols') :
    symbols.Gains [(known, ty)] symbols' where
  depth := depth_of_declare h
  script := script_declare h
  scopes := by
    obtain ⟨innermost, outer, hscopes, -, hnew, rfl⟩ := declare_eq_ok_iff.1 h
    intro innermost' outer' hscopes'
    cases hscopes.symm.trans hscopes'
    exact ⟨innermost.insert known ty, rfl, Table.entries_insert hnew ty⟩
  isVariable_iff name := by simp [isVariable_of_declare h name]
  checkNew_eq name := by simp [checkNew_of_declare h name]

/-! ### Several declarations -/

theorem Gains.nil (symbols : Symbols) : symbols.Gains [] symbols where
  depth := rfl
  script := rfl
  scopes innermost outer hscopes := ⟨innermost, hscopes, by simp⟩
  isVariable_iff name := by simp
  checkNew_eq name := by simp

theorem Gains.append {entries more : List (String × Ty)} (h : symbols.Gains entries next)
    (hmore : next.Gains more symbols') : symbols.Gains (entries ++ more) symbols' where
  depth := hmore.depth.trans h.depth
  script := hmore.script.trans h.script
  scopes innermost outer hscopes := by
    obtain ⟨middle, hmiddle, hentries⟩ := h.scopes innermost outer hscopes
    obtain ⟨own, hown, hadded⟩ := hmore.scopes middle outer hmiddle
    exact ⟨own, hown, by rw [hadded, hentries, List.append_assoc]⟩
  isVariable_iff name := by
    rw [hmore.isVariable_iff, h.isVariable_iff, List.map_append, List.mem_append]
    tauto
  checkNew_eq name := by
    rw [hmore.checkNew_eq, h.checkNew_eq, List.map_append]
    by_cases hlater : name ∈ more.map Prod.fst
    · rw [if_pos hlater, if_pos (List.mem_append_right _ hlater)]
    · have hmem : name ∈ entries.map Prod.fst ++ more.map Prod.fst
          ↔ name ∈ entries.map Prod.fst := by
        rw [List.mem_append, or_iff_left hlater]
      rw [if_neg hlater, if_congr hmem rfl rfl]

/-- Declarations are kept in the innermost scope, and change nothing else. -/
theorem gains_of_declareAll {entries : List (String × Ty)}
    (h : symbols.declareAll (entries.map .ofEntry) = .ok symbols') :
    symbols.Gains entries symbols' := by
  induction entries generalizing symbols with
  | nil =>
      cases h
      exact .nil _
  | cons entry rest ih =>
      obtain ⟨next, hdeclare, hrest⟩ := bind_eq_ok_iff.1 h
      exact (gains_of_declare hdeclare).append (ih hrest)

end Symbols

/-! ### Bodies under way -/

/-- The statements of the outermost of the open blocks. -/
def outermostStatements (innermost : List Statement) : List Waiting → List Statement
  | [] => innermost
  | outer :: others => outermostStatements outer.statements others

/-- What the declarations of these statements make of the symbols, by themselves. -/
def Symbols.declareLocals (symbols : Symbols) (statements : List Statement) :
    Except Cause Symbols :=
  symbols.declareAll ((declarations statements).map .ofEntry)

theorem Symbols.declareLocals_congr (symbols : Symbols) {statements more : List Statement}
    (h : declarations statements = declarations more) :
    symbols.declareLocals statements = symbols.declareLocals more := by
  rw [declareLocals, h, declareLocals]

/-- One more declaration is made after the others. -/
theorem Symbols.declareLocals_concat {symbols own : Symbols} {statements : List Statement}
    (h : symbols.declareLocals statements = .ok own) (line : Nat) (ty : Ty) (name : String)
    (value : Option Resolved) :
    symbols.declareLocals (statements ++ [.declaration line ty name value])
      = own.declare name ty := by
  have hlast : declarations [.declaration line ty name value] = [(name, ty)] := rfl
  rw [declareLocals] at h ⊢
  rw [declarations_append, hlast, List.map_append, declareAll_append, h, ok_bind]
  exact bind_pure (own.declare name ty)

theorem declarations_outermostStatements {statements more : List Statement}
    (h : declarations statements = declarations more) (waiting : List Waiting) :
    declarations (outermostStatements statements waiting)
      = declarations (outermostStatements more waiting) := by
  cases waiting with
  | nil => exact h
  | cons outer others => rfl

/-- Statements without a body declare nothing, wherever they are put. -/
theorem Hole.declarations_putStatement {kind : BodyKind} {statement : Statement} (hole : Hole)
    (statements : List Statement) (h : statement.isPlain kind) :
    declarations (hole.putStatement statements statement) = declarations statements := by
  by_cases hhole : hole = .statement
  · subst hhole
    simp [putStatement, declarations, Statement.declared?_of_isPlain h]
  · exact declarations_congr (leaves_putStatement statements (.inl hhole))

/-- The scopes of the blocks inside a body stand on top of what the declarations of the body's own
    block make of the symbols that it was begun with. -/
def Body.Scoped (start symbols : Symbols) (body : Body) : Prop :=
  ∃ inner own, start.declareLocals (outermostStatements body.statements body.waiting) = .ok own ∧
    symbols = { own with scopes := inner ++ own.scopes } ∧ inner.length = body.waiting.length

/-- When the body is complete, nothing but its own declarations is left. -/
def Body.Progress.Scoped (start : Symbols) : Progress → Prop
  | .more symbols body => body.Scoped start symbols
  | .finished symbols block => start.declareLocals block.statements = .ok symbols

namespace Body

variable {start symbols symbols' : Symbols} {kind : BodyKind} {body : Body} {progress : Progress}

theorem scoped_opened (start : Symbols) (line : Nat) : (opened line).Scoped start start :=
  ⟨[], start, rfl, rfl, rfl⟩

/-- The innermost block gets other statements that declare the same variables. -/
theorem Scoped.replace (h : body.Scoped start symbols) {statements : List Statement}
    (hdeclared : declarations statements = declarations body.statements) (line : Nat)
    (doBlock : Option (Hole × Block)) :
    Scoped start symbols ⟨line, statements, body.waiting, doBlock⟩ := by
  obtain ⟨inner, own, hown, hsymbols, hlength⟩ := h
  refine ⟨inner, own, ?_, hsymbols, hlength⟩
  rw [← hown]
  exact start.declareLocals_congr (declarations_outermostStatements hdeclared body.waiting)

/-- A variable is declared in the scope of the innermost block, which may be the body's own. -/
theorem Scoped.declares (h : body.Scoped start symbols) {name : String} {ty : Ty}
    (hdeclare : symbols.declare name ty = .ok symbols') (line : Nat) (value : Option Resolved) :
    (body.put .statement (.declaration line ty name value)).Scoped start symbols' := by
  obtain ⟨inner, own, hown, rfl, hlength⟩ := h
  rw [Scoped, put, Hole.putStatement]
  cases inner with
  | nil =>
      have hwaiting : body.waiting = [] := List.length_eq_zero_iff.mp hlength.symm
      refine ⟨[], symbols', ?_, rfl, hlength⟩
      simp only [hwaiting, outermostStatements] at hown ⊢
      rw [Symbols.declareLocals_concat hown]
      exact hdeclare
  | cons innermost others =>
      obtain ⟨outer, rest, hwaiting⟩ := List.exists_cons_of_length_eq_add_one hlength.symm
      obtain ⟨_, _, hscopes, -, -, rfl⟩ := Symbols.declare_eq_ok_iff.1 hdeclare
      cases hscopes
      refine ⟨innermost.insert name ty :: others, own, ?_, rfl, hlength⟩
      simp only [hwaiting, outermostStatements] at hown ⊢
      exact hown

theorem Scoped.descend (h : body.Scoped start symbols) (line : Nat) (hole : Hole) (isDo : Bool) :
    (body.descend line hole isDo).Scoped start symbols.openScope := by
  obtain ⟨inner, own, hown, rfl, hlength⟩ := h
  exact ⟨.empty :: inner, own, hown, rfl, congrArg (· + 1) hlength⟩

/-- The scope of the innermost block is dropped, with all that the block has declared. -/
theorem Scoped.leave (h : body.Scoped start symbols) {outer : Waiting} {others : List Waiting}
    (hwaiting : body.waiting = outer :: others) (hclose : symbols.closeScope = .ok symbols') :
    Scoped start symbols' ⟨outer.line, outer.statements, others, none⟩ := by
  obtain ⟨inner, own, hown, rfl, hlength⟩ := h
  rw [hwaiting] at hown hlength
  obtain ⟨scope, rest, rfl⟩ := List.exists_cons_of_length_eq_add_one hlength
  obtain ⟨_, _, hscopes, rfl⟩ := Symbols.closeScope_eq_ok_iff.1 hclose
  cases hscopes
  exact ⟨rest, own, hown, rfl, Nat.succ.inj hlength⟩

/-- Every move keeps the scopes of the open blocks apart. -/
theorem Scoped.step (h : body.Scoped start symbols) (hmoves : body.Moves kind symbols progress) :
    progress.Scoped start := by
  cases hmoves with
  | plain _ _ hplain => exact h.replace (Hole.declarations_putStatement _ _ hplain) _ _
  | declares _ hdeclare => exact h.declares hdeclare _ _
  | opens => exact h.descend _ _ _
  | @closes outer others _ _ hwaiting _ hclose =>
      have hinto := declarations_congr
        (outer.hole.leaves_putBlock outer.statements (.mk body.line true body.statements))
      exact (h.leave hwaiting hclose).replace hinto _ none
  | awaits _ hwaiting _ hclose => exact (h.leave hwaiting hclose).replace rfl _ _
  | @repeats hole block condition _ =>
      have hput : declarations
          (hole.putStatement body.statements (.doWhile block.line block condition))
            = declarations body.statements :=
        declarations_congr (Hole.leaves_putStatement body.statements (.inr rfl))
      exact h.replace hput _ none
  | finishes _ hwaiting =>
      obtain ⟨inner, own, hown, rfl, hlength⟩ := h
      rw [hwaiting] at hown hlength
      obtain rfl : inner = [] := List.length_eq_zero_iff.mp hlength
      exact hown

end Body

/-- After a body the symbols are what the declarations in it make of them by themselves, without
    those in its blocks.  So the scope in which the body was begun has gained these variables, and
    nothing else is different. -/
theorem readBody_locals {limit : Nat} {symbols symbols' : Symbols} {kind : BodyKind} {line : Nat}
    {source after : Source limit} {block : Block}
    (h : readBody symbols kind line source = .ok ((symbols', block), after)) :
    symbols.declareLocals block.statements = .ok symbols' ∧
      symbols.Gains (declarations block.statements) symbols' := by
  have hscoped : Body.Progress.Scoped symbols (.finished symbols' block) :=
    readBody_induction h (Body.scoped_opened symbols line) Body.Scoped.step
  exact ⟨hscoped, Symbols.gains_of_declareAll hscoped⟩

/-- The variables of a branch and of a block that stands by itself are gone, and one of them has
    used a name again. -/
theorem readBody_locals_nested :
    let source := Source.ofText
      "integer a; if (a) \x7b integer b; a = b; \x7d \x7b string a; \x7d string d; \x7d" 0
    let symbols := (Symbols.ofDialect .standard).openScope
    ∃ symbols' block after, readBody symbols .event 1 source = .ok ((symbols', block), after)
      ∧ symbols'.scopes.map Table.entries = [[("a", .integer), ("d", .string)]]
      ∧ symbols.declareLocals block.statements = .ok symbols'
      ∧ symbols.Gains (declarations block.statements) symbols' := by
  intro source symbols
  have hcomputed : ((source.runFor (Body.machine .event) .none 10 (symbols, .opened 1)).bind
      Except.toOption).map (fun answer => answer.1.1.scopes.map Table.entries)
        = some [[("a", .integer), ("d", .string)]] := by decide +kernel
  obtain ⟨⟨symbols', block⟩, after, hread, hscopes⟩ := Source.exists_of_runFor hcomputed
  exact ⟨symbols', block, after, hread, hscopes, readBody_locals hread⟩

end LslFront
