import LslFront.Proofs.Block.Scopes
import LslFront.Proofs.Source.Runs

/-!
# The shape of bodies

A body without braces is one statement, and that is no declaration and no block.  An `else` belongs
to the innermost `if` that is open: a then branch without braces does not end in an `if` that could
have taken it instead.

The second is not decided when a statement is complete, for a later line can give it an else, and a
still later one can give that else another.  `Statement.Formed` says of a tree what each of these
changes keeps: no then branch would take an `else`.  As an `else` looks for its `if` by the same
search, it goes into a then branch only where there is an `if` for it, and makes a new then branch
only of one that would not take it.
-/

namespace LslFront

/-! ### Well-formed trees -/

/-- May the statement be a body without braces? -/
def Statement.standsAlone : Statement → Bool
  | .declaration .. | .block .. => false
  | _ => true

mutual

def Statement.Formed : Statement → Prop
  | .block _ body => body.Formed
  | .ifThen _ _ thenBranch => thenBranch.Formed
  | .ifElse _ _ thenBranch elseBranch =>
      thenBranch.withElse? (.bare 0) = none ∧ thenBranch.Formed ∧ elseBranch.Formed
  | .whileLoop _ _ body => body.Formed
  | .doWhile _ body _ => body.isBraced ∧ body.Formed
  | .forLoop _ _ _ _ body => body.Formed
  | _ => True

def Block.Formed : Block → Prop
  | .mk _ braced statements =>
      (braced = false → ∃ statement, statements = [statement] ∧ statement.standsAlone)
        ∧ AllFormed statements

def AllFormed : List Statement → Prop
  | [] => True
  | statement :: rest => statement.Formed ∧ AllFormed rest

end

theorem allFormed_iff {statements : List Statement} :
    AllFormed statements ↔ ∀ statement ∈ statements, statement.Formed := by
  induction statements with
  | nil => simp [AllFormed]
  | cons statement rest ih => rw [AllFormed, ih, List.forall_mem_cons]

theorem allFormed_append {statements more : List Statement} :
    AllFormed (statements ++ more) ↔ AllFormed statements ∧ AllFormed more := by
  simp only [allFormed_iff, List.forall_mem_append]

theorem allFormed_singleton {statement : Statement} :
    AllFormed [statement] ↔ statement.Formed := by
  rw [allFormed_iff, List.forall_mem_singleton]

theorem Block.formed_braced (line : Nat) {statements : List Statement} (h : AllFormed statements) :
    (Block.mk line true statements).Formed :=
  ⟨nofun, h⟩

theorem Block.formed_single {statement : Statement} (halone : statement.standsAlone)
    (h : statement.Formed) : (Block.single statement).Formed :=
  ⟨fun _ => ⟨statement, rfl, halone⟩, allFormed_singleton.2 h⟩

theorem Statement.formed_of_isPlain {kind : BodyKind} {statement : Statement}
    (h : statement.isPlain kind) : statement.Formed := by
  cases statement with
  | expression | ret | stateChange | jump | label | empty => trivial
  | _ => cases h

theorem Statement.standsAlone_of_isPlain {kind : BodyKind} {statement : Statement}
    (h : statement.isPlain kind) : statement.standsAlone := by
  cases statement with
  | declaration | block => cases h
  | _ => rfl

theorem Control.formed_close (control : Control) (line : Nat) {body : Block} (h : body.Formed) :
    (control.close line body).Formed := by
  cases control <;> exact h

theorem Control.standsAlone_close (control : Control) (line : Nat) (body : Block) :
    (control.close line body).standsAlone := by
  cases control <;> rfl

/-! ### Attaching an else -/

theorem Statement.standsAlone_withElse? {statement statement' : Statement} {elseBlock : Block}
    (h : statement.withElse? elseBlock = some statement') : statement'.standsAlone := by
  cases statement with
  | ifThen line condition thenBranch =>
      rw [Statement.withElse?] at h
      split at h
      · cases h
        rfl
      · cases h
        rfl
  | ifElse | whileLoop | forLoop =>
      obtain ⟨inner, -, rfl⟩ := Option.map_eq_some_iff.mp h
      rfl
  | _ => cases h

mutual

theorem Statement.formed_withElse? {elseBlock : Block} (helse : elseBlock.Formed) :
    ∀ {statement statement' : Statement}, statement.withElse? elseBlock = some statement' →
      statement.Formed → statement'.Formed
  | .ifThen line condition thenBranch, _, h, hformed => by
      rw [Statement.withElse?] at h
      split at h
      · rename_i inner hinner
        cases h
        exact Block.formed_withElse? helse hinner hformed
      · -- The `if` gets the else itself only because its then branch would not take one.
        rename_i hclosed
        cases h
        exact ⟨withElse?_eq_none_of _ hclosed, hformed, helse⟩
  | .ifElse line condition thenBranch elseBranch, _, h, ⟨hclosed, hthen, hbranch⟩ => by
      obtain ⟨inner, hinner, rfl⟩ := Option.map_eq_some_iff.mp h
      exact ⟨hclosed, hthen, Block.formed_withElse? helse hinner hbranch⟩
  | .whileLoop line condition body, _, h, hformed => by
      obtain ⟨inner, hinner, rfl⟩ := Option.map_eq_some_iff.mp h
      exact Block.formed_withElse? helse hinner hformed
  | .forLoop line start condition step body, _, h, hformed => by
      obtain ⟨inner, hinner, rfl⟩ := Option.map_eq_some_iff.mp h
      exact Block.formed_withElse? helse hinner hformed
  | .expression .., _, h, _ | .declaration .., _, h, _ | .ret .., _, h, _
  | .stateChange .., _, h, _ | .jump .., _, h, _ | .label .., _, h, _ | .block .., _, h, _
  | .doWhile .., _, h, _ | .empty .., _, h, _ => by
      cases h

theorem Block.formed_withElse? {elseBlock : Block} (helse : elseBlock.Formed) :
    ∀ {block block' : Block}, block.withElse? elseBlock = some block' →
      block.Formed → block'.Formed
  | .mk line true statements, _, h, _ => by cases h
  | .mk line false statements, _, h, ⟨himplicit, hall⟩ => by
      obtain ⟨inner, hinner, rfl⟩ := Option.map_eq_some_iff.mp h
      refine ⟨fun _ => ?_, formed_lastWithElse? helse hinner hall⟩
      obtain ⟨statement, rfl, halone⟩ := himplicit rfl
      obtain ⟨statement', hstatement', rfl⟩ := Option.map_eq_some_iff.mp hinner
      exact ⟨statement', rfl, Statement.standsAlone_withElse? hstatement'⟩

theorem formed_lastWithElse? {elseBlock : Block} (helse : elseBlock.Formed) :
    ∀ {statements statements' : List Statement},
      lastWithElse? statements elseBlock = some statements' →
      AllFormed statements → AllFormed statements'
  | [], _, h, _ => by cases h
  | [statement], _, h, hformed => by
      obtain ⟨inner, hinner, rfl⟩ := Option.map_eq_some_iff.mp h
      exact ⟨Statement.formed_withElse? helse hinner hformed.1, trivial⟩
  | statement :: next :: rest, _, h, hformed => by
      obtain ⟨inner, hinner, rfl⟩ := Option.map_eq_some_iff.mp h
      exact ⟨hformed.1, formed_lastWithElse? helse hinner hformed.2⟩

end

/-! ### Filling a place -/

namespace Hole

variable {statements : List Statement}

theorem formed_elseBranch {block : Block} (hall : AllFormed statements) (hblock : block.Formed) :
    AllFormed ((lastWithElse? statements block).getD statements) := by
  cases h : lastWithElse? statements block with
  | none => exact hall
  | some statements' => exact formed_lastWithElse? hblock h hall

theorem formed_putStatement (hall : AllFormed statements) (hole : Hole) {statement : Statement}
    (halone : statement.standsAlone) (h : statement.Formed) :
    AllFormed (hole.putStatement statements statement) := by
  induction hole generalizing statement with
  | statement => exact allFormed_append.2 ⟨hall, allFormed_singleton.2 h⟩
  | elseBranch => exact formed_elseBranch hall (Block.formed_single halone h)
  | body control outer ih =>
      exact ih (control.standsAlone_close _ _)
        (control.formed_close _ (Block.formed_single halone h))

theorem formed_putBlock (hall : AllFormed statements) (hole : Hole) {block : Block}
    (h : block.Formed) : AllFormed (hole.putBlock statements block) := by
  cases hole with
  | statement => exact allFormed_append.2 ⟨hall, allFormed_singleton.2 h⟩
  | elseBranch => exact formed_elseBranch hall h
  | body control outer =>
      exact formed_putStatement hall outer (control.standsAlone_close _ _)
        (control.formed_close _ h)

end Hole

/-! ### Bodies under way -/

/-- All that is complete of a body is well formed, and the block of a `do` has braces. -/
structure Body.Formed (body : Body) : Prop where
  frames : ∀ statements ∈ body.frames, AllFormed statements
  doBlock : ∀ hole block, body.doBlock = some (hole, block) → block.isBraced ∧ block.Formed

def Body.Progress.Formed : Progress → Prop
  | .more _ body => body.Formed
  | .finished _ block => block.Formed

namespace Body

variable {body : Body}

theorem formed_opened (line : Nat) : (opened line).Formed where
  frames := List.forall_mem_singleton.mpr trivial
  doBlock := nofun

theorem Formed.innermost (h : body.Formed) : AllFormed body.statements :=
  h.frames body.statements List.mem_cons_self

theorem Formed.put (h : body.Formed) {hole : Hole} {statement : Statement}
    (hall : AllFormed (hole.putStatement body.statements statement)) :
    (body.put hole statement).Formed where
  frames := List.forall_mem_cons.mpr ⟨hall, (List.forall_mem_cons.mp h.frames).2⟩
  doBlock := h.doBlock

/-- The innermost block gets other statements. -/
theorem Formed.replace (h : body.Formed) {line : Nat} {statements : List Statement}
    (hall : AllFormed statements) : Formed ⟨line, statements, body.waiting, none⟩ where
  frames := List.forall_mem_cons.mpr ⟨hall, (List.forall_mem_cons.mp h.frames).2⟩
  doBlock := nofun

/-- The block around the innermost goes on. -/
theorem Formed.leave (h : body.Formed) {outer : Waiting} {others : List Waiting}
    (hwaiting : body.waiting = outer :: others) :
    Formed ⟨outer.line, outer.statements, others, none⟩ where
  frames := by
    have hframes := h.frames
    rw [Body.frames, hwaiting] at hframes
    exact (List.forall_mem_cons.mp hframes).2
  doBlock := nofun

theorem Formed.await (h : body.Formed) (hole : Hole) {block : Block}
    (hblock : block.isBraced ∧ block.Formed) :
    Formed { body with doBlock := some (hole, block) } where
  frames := h.frames
  doBlock := by
    rintro _ _ ⟨⟩
    exact hblock

/-- Every move keeps what is complete well formed. -/
theorem Formed.step {kind : BodyKind} {symbols : Symbols} {progress : Progress} (h : body.Formed)
    (hmoves : body.Moves kind symbols progress) : progress.Formed := by
  cases hmoves with
  | plain _ _ hplain =>
      exact h.put (Hole.formed_putStatement h.innermost _
        (Statement.standsAlone_of_isPlain hplain) (Statement.formed_of_isPlain hplain))
  | declares => exact h.put (allFormed_append.2 ⟨h.innermost, allFormed_singleton.2 trivial⟩)
  | opens => exact ⟨List.forall_mem_cons.mpr ⟨trivial, h.frames⟩, fun _ _ hdo => by cases hdo⟩
  | closes _ hwaiting =>
      have houter := h.leave hwaiting
      exact houter.replace
        (Hole.formed_putBlock houter.innermost _ (Block.formed_braced _ h.innermost))
  | awaits _ hwaiting =>
      exact (h.leave hwaiting).await _ ⟨rfl, Block.formed_braced _ h.innermost⟩
  | repeats hdo =>
      exact h.replace (Hole.formed_putStatement h.innermost _ rfl (h.doBlock _ _ hdo))
  | finishes => exact Block.formed_braced body.line h.innermost

end Body

theorem formed_of_readBody {limit : Nat} {symbols symbols' : Symbols} {kind : BodyKind} {line : Nat}
    {source after : Source limit} {block : Block}
    (h : readBody symbols kind line source = .ok ((symbols', block), after)) : block.Formed :=
  readBody_induction h (P := Body.Progress.Formed) (Body.formed_opened line) fun hbody hmoves =>
    hbody.step hmoves

/-! ### Open ifs -/

/-- The bodies of a statement after which an `else` could be meant for an `if` inside them. -/
def Statement.bodies : Statement → List Block
  | .ifThen _ _ thenBranch => [thenBranch]
  | .ifElse _ _ thenBranch elseBranch => [thenBranch, elseBranch]
  | .whileLoop _ _ body | .forLoop _ _ _ _ body => [body]
  | _ => []

/-- The inner statement is the last one of a body without braces. -/
def Statement.EndsIn (outer inner : Statement) : Prop :=
  ∃ body ∈ outer.bodies, body.isBraced = false ∧ body.statements.getLast? = some inner

/-- An `if` without an else is reached through bodies without braces. -/
def Statement.HasOpenIf (statement : Statement) : Prop :=
  ∃ line condition thenBranch,
    Relation.ReflTransGen Statement.EndsIn statement (.ifThen line condition thenBranch)

theorem Block.Formed.formed_of_mem {block : Block} (h : block.Formed) {statement : Statement}
    (hmem : statement ∈ block.statements) : statement.Formed := by
  obtain ⟨line, braced, statements⟩ := block
  exact allFormed_iff.1 h.2 statement hmem

theorem Statement.Formed.formed_of_mem_bodies {statement : Statement} (h : statement.Formed)
    {body : Block} (hbody : body ∈ statement.bodies) : body.Formed := by
  cases statement with
  | ifElse line condition thenBranch elseBranch =>
      obtain ⟨-, hthen, helse⟩ := h
      exact List.forall_mem_cons.mpr ⟨hthen, List.forall_mem_singleton.mpr helse⟩ body hbody
  | ifThen | whileLoop | forLoop =>
      rw [List.mem_singleton.mp hbody]
      exact h
  | _ => cases hbody

theorem Block.isSome_withElse?_of_getLast? {block : Block} {last : Statement} (elseBlock : Block)
    (hbraced : block.isBraced = false) (hlast : block.statements.getLast? = some last)
    (h : (last.withElse? elseBlock).isSome) : (block.withElse? elseBlock).isSome := by
  obtain ⟨line, braced, statements⟩ := block
  cases hbraced
  obtain ⟨before, rfl⟩ := List.getLast?_eq_some_iff.mp hlast
  simpa [Block.withElse?, lastWithElse?_append] using h

/-- What a body would take, its statement would: a then branch that has its else takes none. -/
theorem Statement.Formed.isSome_withElse?_of_body {statement : Statement} (h : statement.Formed)
    {body elseBlock : Block} (hbody : body ∈ statement.bodies)
    (hsome : (body.withElse? elseBlock).isSome) : (statement.withElse? elseBlock).isSome := by
  cases statement with
  | ifThen line condition thenBranch =>
      rw [Statement.withElse?]
      split <;> rfl
  | ifElse line condition thenBranch elseBranch =>
      rw [Statement.withElse?, Option.isSome_map]
      rcases List.mem_cons.mp hbody with rfl | hbody
      · rw [withElse?_eq_none_of elseBlock h.1] at hsome
        cases hsome
      · rw [← List.mem_singleton.mp hbody]
        exact hsome
  | whileLoop | forLoop =>
      rw [Statement.withElse?, Option.isSome_map, ← List.mem_singleton.mp hbody]
      exact hsome
  | _ => cases hbody

/-- An `if` that is open can be given an else, since no then branch on the way would take it. -/
theorem Statement.Formed.isSome_withElse? {statement : Statement} (hformed : statement.Formed)
    (hopen : statement.HasOpenIf) (elseBlock : Block) : (statement.withElse? elseBlock).isSome := by
  obtain ⟨line, condition, thenBranch, hreach⟩ := hopen
  induction hreach using Relation.ReflTransGen.head_induction_on with
  | refl =>
      rw [Statement.withElse?]
      split <;> rfl
  | head hends _ ih =>
      rename_i outer inner
      obtain ⟨body, hbody, hbraced, hlast⟩ := hends
      have hinner := (hformed.formed_of_mem_bodies hbody).formed_of_mem (List.mem_of_getLast? hlast)
      have hsome := Block.isSome_withElse?_of_getLast? elseBlock hbraced hlast (ih hinner)
      exact hformed.isSome_withElse?_of_body hbody hsome

/-! ### Every depth -/

mutual

theorem Block.Formed.formed_of_mem_blocks : ∀ {block : Block}, block.Formed →
    ∀ {inner : Block}, inner ∈ block.blocks → inner.Formed
  | .mk line braced statements, h, inner, hmem => by
      rcases List.mem_cons.mp hmem with rfl | hmem
      · exact h
      · exact AllFormed.formed_of_mem_allBlocks h.2 hmem

theorem Statement.Formed.formed_of_mem_blocks : ∀ {statement : Statement}, statement.Formed →
    ∀ {inner : Block}, inner ∈ statement.blocks → inner.Formed
  | .block _ body, h, inner, hmem | .ifThen _ _ body, h, inner, hmem
  | .whileLoop _ _ body, h, inner, hmem | .forLoop _ _ _ _ body, h, inner, hmem =>
      Block.Formed.formed_of_mem_blocks (show body.Formed from h) hmem
  | .doWhile _ body _, h, inner, hmem => Block.Formed.formed_of_mem_blocks h.2 hmem
  | .ifElse _ _ thenBranch elseBranch, h, inner, hmem => by
      rcases List.mem_append.mp hmem with hmem | hmem
      · exact Block.Formed.formed_of_mem_blocks h.2.1 hmem
      · exact Block.Formed.formed_of_mem_blocks h.2.2 hmem
  | .expression .., _, _, hmem | .declaration .., _, _, hmem | .ret .., _, _, hmem
  | .stateChange .., _, _, hmem | .jump .., _, _, hmem | .label .., _, _, hmem
  | .empty .., _, _, hmem => absurd hmem List.not_mem_nil

theorem AllFormed.formed_of_mem_allBlocks : ∀ {statements : List Statement}, AllFormed statements →
    ∀ {inner : Block}, inner ∈ allBlocks statements → inner.Formed
  | [], _, _, hmem => absurd hmem List.not_mem_nil
  | statement :: rest, h, inner, hmem => by
      rcases List.mem_append.mp hmem with hmem | hmem
      · exact Statement.Formed.formed_of_mem_blocks h.1 hmem
      · exact AllFormed.formed_of_mem_allBlocks h.2 hmem

end

/-- What the statements that stand directly in a block are like. -/
structure Block.Shaped (block : Block) : Prop where
  implicit : block.isBraced = false →
    ∃ statement, block.statements = [statement] ∧ statement.standsAlone
  doWhile : ∀ line body condition, .doWhile line body condition ∈ block.statements → body.isBraced
  innermost : ∀ line condition thenBranch elseBranch,
    .ifElse line condition thenBranch elseBranch ∈ block.statements →
      thenBranch.isBraced = false → takesElse thenBranch.statements = false
        ∧ ∀ last, thenBranch.statements.getLast? = some last → ¬ last.HasOpenIf

theorem Block.takesElse_of_isBraced {block : Block} (hbraced : block.isBraced = false)
    (h : block.withElse? (.bare 0) = none) : takesElse block.statements = false := by
  obtain ⟨line, braced, statements⟩ := block
  cases hbraced
  have hnone : lastWithElse? statements (.bare 0) = none := Option.map_eq_none_iff.mp h
  simp [takesElse, Block.statements, hnone]

theorem Block.Formed.shaped {block : Block} (h : block.Formed) : block.Shaped where
  implicit := by
    obtain ⟨line, braced, statements⟩ := block
    exact h.1
  doWhile line body condition hmem := (h.formed_of_mem hmem).1
  innermost line condition thenBranch elseBranch hmem hbraced := by
    obtain ⟨hclosed, hthen, -⟩ := h.formed_of_mem hmem
    refine ⟨Block.takesElse_of_isBraced hbraced hclosed, fun last hlast hopen => ?_⟩
    have hlastFormed := hthen.formed_of_mem (List.mem_of_getLast? hlast)
    have hsome := Block.isSome_withElse?_of_getLast? (.bare 0) hbraced hlast
      (hlastFormed.isSome_withElse? hopen _)
    rw [hclosed] at hsome
    cases hsome

/-- At every depth of a body that has been read, a body without braces is one statement, the body
    of a `do` has braces, and an else belongs to the innermost `if` that was open. -/
theorem readBody_shaped {limit : Nat} {symbols symbols' : Symbols} {kind : BodyKind} {line : Nat}
    {source after : Source limit} {block inner : Block}
    (h : readBody symbols kind line source = .ok ((symbols', block), after))
    (hinner : inner ∈ block.blocks) : inner.Shaped :=
  ((formed_of_readBody h).formed_of_mem_blocks hinner).shaped

/-- The first else goes into the body of the loop, and the second past it to the outer `if`. -/
theorem readBody_shaped_loop :
    let source := Source.ofText
      "if (a) while (b) if (c) x = 1; else y = 2; else do \x7b \x7d while (d); \x7d" 0
    let symbols := (Symbols.ofDialect .standard).openScope
    ∃ symbols' block after, readBody symbols .event 1 source = .ok ((symbols', block), after)
      ∧ block.blocks.map Block.isBraced = [true, false, false, false, false, false, true]
      ∧ ∀ inner ∈ block.blocks, inner.Shaped := by
  intro source symbols
  have hcomputed : ((source.runFor (Body.machine .event) .none 8 (symbols, .opened 1)).bind
      Except.toOption).map (fun answer => answer.1.2.blocks.map Block.isBraced)
        = some [true, false, false, false, false, false, true] := by decide +kernel
  obtain ⟨⟨⟨symbols', block⟩, after⟩, hanswer, hblocks⟩ := Option.map_eq_some_iff.mp hcomputed
  obtain ⟨answer, hrun, hok⟩ := Option.bind_eq_some_iff.mp hanswer
  have hread : readBody symbols .event 1 source = .ok ((symbols', block), after) := by
    rw [readBody, Source.run_of_runFor hrun]
    cases answer with
    | error fault => cases hok
    | ok result =>
        cases hok
        rfl
  exact ⟨symbols', block, after, hread, hblocks, fun inner hinner => readBody_shaped hread hinner⟩

end LslFront
