import LslFront.Proofs.Block.Moves
import LslFront.Proofs.Block.Nesting
import LslFront.Proofs.Script.Symbols

/-!
# The scopes of a body

While a body is being read, each open block has a scope, and the scope holds the variables that the
statements of the block declare, in their order; before those of the body itself stand its
parameters.  The scopes are gone when the body is complete.  So what scopes ensure is turned into a
rule on blocks, `Tidy`, as each block is closed: an open block follows the rule because its scope is
well formed, and a closed one goes on following it.

`Body.Sound` joins what holds between two lines, and `Body.Sound.step` says that a line keeps it.
-/

namespace LslFront

/-! ### Declarations -/

/-- The variable that a statement declares. -/
def Statement.declared? : Statement → Option (String × Ty)
  | .declaration _ ty name _ => some (name, ty)
  | _ => none

/-- The variables that are declared by the statements themselves, in order. -/
def declarations (statements : List Statement) : List (String × Ty) :=
  statements.filterMap Statement.declared?

def declaredNames (statements : List Statement) : List String :=
  (declarations statements).map Prod.fst

@[simp] theorem declarations_nil : declarations [] = [] := rfl

@[simp] theorem declarations_append (statements more : List Statement) :
    declarations (statements ++ more) = declarations statements ++ declarations more :=
  List.filterMap_append

theorem Statement.isLeaf_of_declared? {statement : Statement} {entry : String × Ty}
    (h : statement.declared? = some entry) : statement.isLeaf := by
  cases statement with
  | declaration => rfl
  | _ => cases h

/-- What a block declares is seen in its leaves. -/
theorem declarations_leaves (statements : List Statement) :
    declarations (leaves statements) = declarations statements := by
  induction statements with
  | nil => rfl
  | cons statement rest ih =>
      cases hdeclared : statement.declared? with
      | none =>
          by_cases hleaf : statement.isLeaf
          · simpa [declarations, leaves, hleaf, hdeclared] using ih
          · simpa [declarations, leaves, hleaf, hdeclared] using ih
      | some entry =>
          have hleaf := Statement.isLeaf_of_declared? hdeclared
          simpa [declarations, leaves, hleaf, hdeclared] using ih

theorem declaredNames_leaves (statements : List Statement) :
    declaredNames (leaves statements) = declaredNames statements := by
  rw [declaredNames, declarations_leaves, declaredNames]

theorem declarations_congr {statements more : List Statement}
    (h : leaves statements = leaves more) : declarations statements = declarations more := by
  rw [← declarations_leaves, h, declarations_leaves]

/-! ### Statements by themselves -/

/-- May the statement itself stand in a body of this kind?  Only handlers change the state. -/
def Statement.allowed (kind : BodyKind) : Statement → Bool
  | .stateChange .. => kind == .event
  | _ => true

section

variable {kind : BodyKind} {statement : Statement}

theorem Statement.isLeaf_of_isPlain (h : statement.isPlain kind) : statement.isLeaf := by
  cases statement with
  | expression | ret | stateChange | jump | label | empty => rfl
  | _ => cases h

theorem Statement.declared?_of_isPlain (h : statement.isPlain kind) :
    statement.declared? = none := by
  cases statement with
  | declaration => cases h
  | _ => rfl

theorem Statement.allowed_of_isPlain (h : statement.isPlain kind) : statement.allowed kind := by
  cases statement with
  | stateChange => exact h
  | _ => rfl

end

/-- The rule for the blocks of a body: their statements are allowed there, and the variables that a
    block declares have different names, which the script admits. -/
structure Tidy (kind : BodyKind) (script : Script) (braced : Bool) (statements : List Statement) :
    Prop where
  allowed : ∀ statement ∈ statements, statement.allowed kind
  distinct : (declaredNames statements).Nodup
  admitted : ∀ name ∈ declaredNames statements, script.Admits name

section

variable {kind : BodyKind} {script : Script}

theorem Tidy.nil (braced : Bool) : Tidy kind script braced [] where
  allowed := by simp
  distinct := by simp [declaredNames]
  admitted := by simp [declaredNames]

theorem Tidy.plain {statement : Statement} (braced : Bool) (h : statement.isPlain kind) :
    Tidy kind script braced [statement] := by
  have hnone := Statement.declared?_of_isPlain h
  constructor
  · simpa using Statement.allowed_of_isPlain h
  · simp [declaredNames, declarations, hnone]
  · simp [declaredNames, declarations, hnone]

end

/-! ### Open blocks -/

/-- The statements of the open blocks, innermost first. -/
def Body.frames (body : Body) : List (List Statement) :=
  body.statements :: body.waiting.map Waiting.statements

/-- What the scopes of the open blocks hold, innermost first: the variables that each of them
    declares, and for the body itself `outermost` before them. -/
def openScopes (outermost : List (String × Ty)) (innermost : List Statement) :
    List Waiting → List (List (String × Ty))
  | [] => [outermost ++ declarations innermost]
  | outer :: others => declarations innermost :: openScopes outermost outer.statements others

theorem openScopes_congr {outermost : List (String × Ty)} {statements more : List Statement}
    {waiting : List Waiting} (h : declarations statements = declarations more) :
    openScopes outermost statements waiting = openScopes outermost more waiting := by
  cases waiting with
  | nil => rw [openScopes, openScopes, h]
  | cons outer others => rw [openScopes, openScopes, h]

/-- The first scope is that of the innermost block. -/
theorem exists_openScopes (outermost : List (String × Ty)) (waiting : List Waiting) :
    ∃ before outer, ∀ statements,
      openScopes outermost statements waiting = (before ++ declarations statements) :: outer := by
  cases waiting with
  | nil => exact ⟨outermost, [], fun _ => rfl⟩
  | cons outer others => exact ⟨[], _, fun _ => rfl⟩

/-! ### Bodies under way -/

/-- All that is complete of a body obeys the rule. -/
structure Body.Obeys (rule : BlockRule) (body : Body) : Prop where
  frames : ∀ statements ∈ body.frames, Obey rule (allBlocks statements)
  doBlock : ∀ hole block, body.doBlock = some (hole, block) → Obey rule block.blocks

/-- What holds of a body between two lines.  Its scopes stand on top of those `outside`. -/
structure Body.Sound (kind : BodyKind) (outermost : List (String × Ty))
    (outside : List (List (String × Ty))) (symbols : Symbols) (body : Body) : Prop where
  wellScoped : symbols.WellScoped
  scopes : symbols.scopes.map Table.entries
    = openScopes outermost body.statements body.waiting ++ outside
  allowed : ∀ statements ∈ body.frames, ∀ statement ∈ leaves statements, statement.allowed kind
  obeys : body.Obeys (Tidy kind symbols.script)

/-- What holds of a body that is complete. -/
structure Block.Sound (kind : BodyKind) (outermost : List (String × Ty))
    (outside : List (List (String × Ty))) (symbols : Symbols) (block : Block) : Prop where
  wellScoped : symbols.WellScoped
  scopes : symbols.scopes.map Table.entries
    = (outermost ++ declarations block.statements) :: outside
  obeys : Obey (Tidy kind symbols.script) block.blocks

namespace Body

variable {kind : BodyKind} {outermost : List (String × Ty)} {outside : List (List (String × Ty))}
  {symbols symbols' : Symbols} {body : Body}

theorem frames_put (hole : Hole) (statement : Statement) : (body.put hole statement).frames
    = hole.putStatement body.statements statement :: body.waiting.map Waiting.statements :=
  rfl

/-- A body that has only been opened has no statement yet. -/
theorem sound_opened {line : Nat} (hscoped : symbols.WellScoped)
    (hscopes : symbols.scopes.map Table.entries = outermost :: outside) :
    (opened line).Sound kind outermost outside symbols where
  wellScoped := hscoped
  scopes := by simp [hscopes, opened, openScopes]
  allowed := by simp [frames, opened]
  obeys := by
    constructor
    · intro statements hstatements
      rw [List.mem_singleton.mp hstatements]
      exact obey_nil
    · intro hole block hdo
      cases hdo

/-- The innermost scope ends with the variables of the innermost block. -/
theorem Sound.exists_scope (h : body.Sound kind outermost outside symbols) :
    ∃ scope others before, symbols.scopes = scope :: others ∧
      scope.entries = before ++ declarations body.statements := by
  obtain ⟨before, outer, hopen⟩ := exists_openScopes outermost body.waiting
  have hscopes := h.scopes
  rw [hopen, List.cons_append] at hscopes
  obtain ⟨scope, others, hsplit, hentries, -⟩ := List.map_eq_cons_iff.mp hscopes
  exact ⟨scope, others, before, hsplit, hentries⟩

/-- The innermost block follows the rule already: its names are among those of its scope. -/
theorem Sound.tidy (h : body.Sound kind outermost outside symbols) :
    Tidy kind symbols.script true (leaves body.statements) := by
  obtain ⟨scope, others, before, hsplit, hentries⟩ := h.exists_scope
  obtain ⟨hnodup, hadmits⟩ := h.wellScoped scope (by simp [hsplit])
  have hnames : scope.names = before.map Prod.fst ++ declaredNames body.statements := by
    rw [Table.names, hentries, List.map_append, declaredNames]
  rw [hnames] at hnodup hadmits
  constructor
  · exact h.allowed body.statements List.mem_cons_self
  · rw [declaredNames_leaves]
    exact hnodup.of_append_right
  · intro name hname
    rw [declaredNames_leaves] at hname
    exact hadmits name (List.mem_append_right _ hname)

/-- The innermost block may be closed. -/
theorem Sound.obey_innermost (h : body.Sound kind outermost outside symbols) (line : Nat) :
    Obey (Tidy kind symbols.script) (Block.mk line true body.statements).blocks :=
  obey_blocks.2 ⟨h.tidy, h.obeys.frames body.statements List.mem_cons_self⟩

/-! ### What a line keeps -/

/-- The innermost block gets other statements that declare the same variables. -/
theorem Sound.replace (h : body.Sound kind outermost outside symbols) {statements : List Statement}
    (hdeclared : declarations statements = declarations body.statements)
    (hallowed : ∀ statement ∈ leaves statements, statement.allowed kind)
    (hobey : Obey (Tidy kind symbols.script) (allBlocks statements)) :
    Sound kind outermost outside symbols ⟨body.line, statements, body.waiting, none⟩ where
  wellScoped := h.wellScoped
  scopes := by rw [h.scopes, openScopes_congr hdeclared]
  allowed := List.forall_mem_cons.mpr ⟨hallowed, (List.forall_mem_cons.mp h.allowed).2⟩
  obeys := by
    constructor
    · exact List.forall_mem_cons.mpr ⟨hobey, (List.forall_mem_cons.mp h.obeys.frames).2⟩
    · intro hole block hdo
      cases hdo

theorem Sound.put_plain (h : body.Sound kind outermost outside symbols)
    (hidle : body.doBlock = none) (hole : Hole) {statement : Statement}
    (hplain : statement.isPlain kind) :
    (body.put hole statement).Sound kind outermost outside symbols := by
  have hleaf := Statement.isLeaf_of_isPlain hplain
  have hobey : Obey (Tidy kind symbols.script)
      (allBlocks (hole.putStatement body.statements statement)) := by
    apply Hole.obey_putStatement (.nil false) (h.obeys.frames body.statements List.mem_cons_self)
    · rw [leaves_singleton hleaf]
      exact .plain false hplain
    · rw [Statement.blocks_of_isLeaf hleaf]
      exact obey_nil
  have hput : body.put hole statement
      = ⟨body.line, hole.putStatement body.statements statement, body.waiting, none⟩ := by
    rw [put, hidle]
  rw [hput]
  have hinner := h.allowed body.statements List.mem_cons_self
  -- By itself the statement is a new leaf of the block; in any other place it is inside a body.
  by_cases hhole : hole = .statement
  · subst hhole
    refine h.replace ?_ ?_ hobey
    · simp [Hole.putStatement, declarations, Statement.declared?_of_isPlain hplain]
    · intro inner hmem
      rw [Hole.putStatement, leaves_append, leaves_singleton hleaf] at hmem
      rcases List.mem_append.mp hmem with hmem | hmem
      · exact hinner inner hmem
      · rw [List.mem_singleton.mp hmem]
        exact Statement.allowed_of_isPlain hplain
  · have hleaves : leaves (hole.putStatement body.statements statement) = leaves body.statements :=
      Hole.leaves_putStatement body.statements (.inl hhole)
    refine h.replace (declarations_congr hleaves) ?_ hobey
    rw [hleaves]
    exact hinner

/-- The `while` of a `do` is put into its place. -/
theorem Sound.put_doWhile (h : body.Sound kind outermost outside symbols) {hole : Hole}
    {block : Block} (hdo : body.doBlock = some (hole, block)) (line : Nat) (condition : Resolved) :
    Sound kind outermost outside symbols
      { body.put hole (.doWhile line block condition) with doBlock := none } := by
  have hleaves : leaves (hole.putStatement body.statements (.doWhile line block condition))
      = leaves body.statements :=
    Hole.leaves_putStatement body.statements (.inr rfl)
  apply h.replace (declarations_congr hleaves)
  · rw [hleaves]
    exact h.allowed body.statements List.mem_cons_self
  · apply Hole.obey_putStatement (.nil false) (h.obeys.frames body.statements List.mem_cons_self)
    · rw [leaves_singleton_of_not rfl]
      exact .nil false
    · exact h.obeys.doBlock hole block hdo

theorem Sound.put_block (h : body.Sound kind outermost outside symbols) (hole : Hole)
    {block : Block} (hblock : Obey (Tidy kind symbols.script) block.blocks) :
    Sound kind outermost outside symbols
      ⟨body.line, hole.putBlock body.statements block, body.waiting, none⟩ := by
  have hleaves := hole.leaves_putBlock body.statements block
  apply h.replace (declarations_congr hleaves)
  · rw [hleaves]
    exact h.allowed body.statements List.mem_cons_self
  · exact Hole.obey_putBlock (.nil false) (h.obeys.frames body.statements List.mem_cons_self) hole
      hblock

theorem Sound.declares (h : body.Sound kind outermost outside symbols)
    (hidle : body.doBlock = none) {line : Nat} {ty : Ty} {name : String} {value : Option Resolved}
    (hdeclare : symbols.declare name ty = .ok symbols') :
    (body.put .statement (.declaration line ty name value)).Sound kind outermost outside
      symbols' := by
  have hscoped := h.wellScoped.declare hdeclare
  obtain ⟨innermost, outer, hsplit, -, hnew, rfl⟩ := Symbols.declare_eq_ok_iff.1 hdeclare
  obtain ⟨before, others, hopen⟩ := exists_openScopes outermost body.waiting
  have hscopes := h.scopes
  rw [hsplit, hopen, List.map_cons, List.cons_append, List.cons.injEq] at hscopes
  obtain ⟨hentries, hothers⟩ := hscopes
  refine ⟨hscoped, ?_, ?_, ?_, ?_⟩
  · rw [List.map_cons, Table.entries_insert hnew, hothers, hentries]
    simp [put, hopen, Hole.putStatement, declarations, Statement.declared?]
  · rw [frames_put, Hole.putStatement]
    refine List.forall_mem_cons.mpr ⟨?_, (List.forall_mem_cons.mp h.allowed).2⟩
    intro statement hmem
    rw [leaves_append, leaves_singleton rfl] at hmem
    rcases List.mem_append.mp hmem with hmem | hmem
    · exact h.allowed body.statements List.mem_cons_self statement hmem
    · rw [List.mem_singleton.mp hmem]
      rfl
  · rw [frames_put, Hole.putStatement]
    refine List.forall_mem_cons.mpr ⟨?_, (List.forall_mem_cons.mp h.obeys.frames).2⟩
    rw [obey_allBlocks_append]
    exact ⟨h.obeys.frames body.statements List.mem_cons_self,
      obey_allBlocks_singleton.2 obey_nil⟩
  · intro hole block hdo
    rw [put, hidle] at hdo
    cases hdo

theorem Sound.descend (h : body.Sound kind outermost outside symbols) (line : Nat) (hole : Hole)
    (isDo : Bool) :
    (body.descend line hole isDo).Sound kind outermost outside symbols.openScope where
  wellScoped := h.wellScoped.openScope
  scopes := by
    rw [Symbols.openScope, List.map_cons, h.scopes]
    rfl
  allowed := List.forall_mem_cons.mpr ⟨by simp [Body.descend], h.allowed⟩
  obeys := by
    constructor
    · exact List.forall_mem_cons.mpr ⟨obey_nil, h.obeys.frames⟩
    · intro hole block hdo
      cases hdo

/-- The scope of the innermost block is closed, and the block around it goes on. -/
theorem Sound.leave (h : body.Sound kind outermost outside symbols) {outer : Waiting}
    {others : List Waiting} (hwaiting : body.waiting = outer :: others)
    (hclose : symbols.closeScope = .ok symbols') :
    Sound kind outermost outside symbols' ⟨outer.line, outer.statements, others, none⟩ := by
  have hscoped := h.wellScoped.closeScope hclose
  obtain ⟨innermost, rest, hsplit, rfl⟩ := Symbols.closeScope_eq_ok_iff.1 hclose
  have hscopes := h.scopes
  rw [hsplit, hwaiting, openScopes, List.map_cons, List.cons_append, List.cons.injEq] at hscopes
  have hframes : ∀ statements ∈ outer.statements :: others.map Waiting.statements,
      statements ∈ body.frames := by
    intro statements hmem
    rw [frames, hwaiting]
    exact List.mem_cons_of_mem _ hmem
  constructor
  · exact hscoped
  · exact hscopes.2
  · intro statements hmem
    exact h.allowed statements (hframes statements hmem)
  · constructor
    · intro statements hmem
      exact h.obeys.frames statements (hframes statements hmem)
    · intro hole block hdo
      cases hdo

theorem Sound.await (h : body.Sound kind outermost outside symbols) (hole : Hole) {block : Block}
    (hblock : Obey (Tidy kind symbols.script) block.blocks) :
    Sound kind outermost outside symbols { body with doBlock := some (hole, block) } where
  wellScoped := h.wellScoped
  scopes := h.scopes
  allowed := h.allowed
  obeys := by
    constructor
    · exact h.obeys.frames
    · intro hole block hdo
      cases hdo
      exact hblock

end Body

/-- What holds after a line, of the body or of the block that it has become. -/
def Body.Progress.Sound (kind : BodyKind) (outermost : List (String × Ty))
    (outside : List (List (String × Ty))) : Progress → Prop
  | .more symbols body => body.Sound kind outermost outside symbols
  | .finished symbols block => block.Sound kind outermost outside symbols

/-- Every move keeps what holds of a body. -/
theorem Body.Sound.step {kind : BodyKind} {outermost : List (String × Ty)}
    {outside : List (List (String × Ty))} {symbols : Symbols} {body : Body} {progress : Progress}
    (h : body.Sound kind outermost outside symbols) (hmoves : body.Moves kind symbols progress) :
    progress.Sound kind outermost outside := by
  cases hmoves with
  | plain hidle _ hplain => exact h.put_plain hidle _ hplain
  | declares hidle hdeclare => exact h.declares hidle hdeclare
  | opens => exact h.descend _ _ _
  | closes _ hwaiting _ hclose =>
      refine (h.leave hwaiting hclose).put_block _ ?_
      rw [Symbols.script_closeScope hclose]
      exact h.obey_innermost _
  | awaits _ hwaiting _ hclose =>
      refine (h.leave hwaiting hclose).await _ ?_
      rw [Symbols.script_closeScope hclose]
      exact h.obey_innermost _
  | repeats hdo => exact h.put_doWhile hdo _ _
  | finishes _ hwaiting =>
      refine ⟨h.wellScoped, ?_, h.obey_innermost _⟩
      rw [h.scopes, hwaiting]
      rfl

end LslFront
