import LslFront.Proofs.Block.Else

/-!
# Blocks inside blocks

`Block.blocks` lists a block and all the blocks inside it, whatever statements they are the bodies
of.  So what is to hold at every depth of a body is said of each block of this list, and of what
stands directly in it.

A rule on blocks looks at their leaves, the statements without a body.  It may look no further, for
an `else` on a later line changes the other ones: attaching it keeps every rule, and it keeps the
leaves of the block where it is attached.
-/

namespace LslFront

/-! ### Blocks -/

mutual

/-- The blocks of a statement, at every depth. -/
def Statement.blocks : Statement → List Block
  | .block _ body => body.blocks
  | .ifThen _ _ thenBranch => thenBranch.blocks
  | .ifElse _ _ thenBranch elseBranch => thenBranch.blocks ++ elseBranch.blocks
  | .whileLoop _ _ body => body.blocks
  | .doWhile _ body _ => body.blocks
  | .forLoop _ _ _ _ body => body.blocks
  | _ => []

/-- A block and the blocks inside it, at every depth. -/
def Block.blocks : Block → List Block
  | .mk line braced statements => .mk line braced statements :: allBlocks statements

def allBlocks : List Statement → List Block
  | [] => []
  | statement :: rest => statement.blocks ++ allBlocks rest

end

@[simp] theorem allBlocks_append (statements more : List Statement) :
    allBlocks (statements ++ more) = allBlocks statements ++ allBlocks more := by
  induction statements with
  | nil => rfl
  | cons statement rest ih => rw [List.cons_append, allBlocks, allBlocks, ih, List.append_assoc]

/-! ### Leaves -/

/-- A statement without a body. -/
def Statement.isLeaf : Statement → Bool
  | .block .. | .ifThen .. | .ifElse .. | .whileLoop .. | .doWhile .. | .forLoop .. => false
  | _ => true

/-- The statements without a body, in order. -/
def leaves (statements : List Statement) : List Statement :=
  statements.filter Statement.isLeaf

theorem Statement.blocks_of_isLeaf {statement : Statement} (h : statement.isLeaf) :
    statement.blocks = [] := by
  cases statement with
  | block | ifThen | ifElse | whileLoop | doWhile | forLoop => cases h
  | _ => rfl

@[simp] theorem leaves_nil : leaves [] = [] := rfl

@[simp] theorem leaves_append (statements more : List Statement) :
    leaves (statements ++ more) = leaves statements ++ leaves more :=
  List.filter_append ..

theorem leaves_singleton {statement : Statement} (h : statement.isLeaf) :
    leaves [statement] = [statement] :=
  List.filter_cons_of_pos h

theorem leaves_singleton_of_not {statement : Statement} (h : statement.isLeaf = false) :
    leaves [statement] = [] := by
  simp [leaves, h]

theorem mem_leaves {statement : Statement} {statements : List Statement} :
    statement ∈ leaves statements ↔ statement ∈ statements ∧ statement.isLeaf :=
  List.mem_filter

/-! ### Rules -/

/-- What is asked of a block, by its braces and its leaves. -/
abbrev BlockRule := Bool → List Statement → Prop

/-- Each of the blocks is as the rule asks. -/
def Obey (rule : BlockRule) (blocks : List Block) : Prop :=
  ∀ block ∈ blocks, rule block.isBraced (leaves block.statements)

variable {rule : BlockRule}

theorem obey_nil : Obey rule [] :=
  fun _ hmem => absurd hmem List.not_mem_nil

theorem obey_append {blocks more : List Block} :
    Obey rule (blocks ++ more) ↔ Obey rule blocks ∧ Obey rule more :=
  List.forall_mem_append

/-- Every block inside a block is one of its statements' blocks. -/
theorem obey_blocks {line : Nat} {braced : Bool} {statements : List Statement} :
    Obey rule (Block.mk line braced statements).blocks
      ↔ rule braced (leaves statements) ∧ Obey rule (allBlocks statements) :=
  List.forall_mem_cons

theorem obey_allBlocks_append {statements more : List Statement} :
    Obey rule (allBlocks (statements ++ more))
      ↔ Obey rule (allBlocks statements) ∧ Obey rule (allBlocks more) := by
  rw [allBlocks_append, obey_append]

theorem obey_allBlocks_singleton {statement : Statement} :
    Obey rule (allBlocks [statement]) ↔ Obey rule statement.blocks := by
  rw [allBlocks, allBlocks, List.append_nil]

/-! ### Attaching an else -/

theorem Statement.isLeaf_withElse? {statement statement' : Statement} {elseBlock : Block}
    (h : statement.withElse? elseBlock = some statement') :
    statement.isLeaf = false ∧ statement'.isLeaf = false := by
  cases statement with
  | ifThen line condition thenBranch =>
      rw [Statement.withElse?] at h
      split at h
      · cases h
        exact ⟨rfl, rfl⟩
      · cases h
        exact ⟨rfl, rfl⟩
  | ifElse line condition thenBranch elseBranch =>
      obtain ⟨inner, -, rfl⟩ := Option.map_eq_some_iff.mp h
      exact ⟨rfl, rfl⟩
  | whileLoop line condition body =>
      obtain ⟨inner, -, rfl⟩ := Option.map_eq_some_iff.mp h
      exact ⟨rfl, rfl⟩
  | forLoop line start condition step body =>
      obtain ⟨inner, -, rfl⟩ := Option.map_eq_some_iff.mp h
      exact ⟨rfl, rfl⟩
  | _ => cases h

theorem leaves_lastWithElse? {elseBlock : Block} {statements statements' : List Statement}
    (h : lastWithElse? statements elseBlock = some statements') :
    leaves statements' = leaves statements := by
  rcases List.eq_nil_or_concat statements with rfl | ⟨before, last, rfl⟩
  · cases h
  · rw [List.concat_eq_append] at h ⊢
    rw [lastWithElse?_append] at h
    obtain ⟨last', hlast, rfl⟩ := Option.map_eq_some_iff.mp h
    obtain ⟨hold, hnew⟩ := Statement.isLeaf_withElse? hlast
    rw [leaves_append, leaves_append, leaves_singleton_of_not hold, leaves_singleton_of_not hnew]

mutual

theorem Statement.obey_withElse? {elseBlock : Block} (helse : Obey rule elseBlock.blocks) :
    ∀ {statement statement' : Statement}, statement.withElse? elseBlock = some statement' →
      Obey rule statement.blocks → Obey rule statement'.blocks
  | .ifThen line condition thenBranch, _, h, hobey => by
      rw [Statement.withElse?] at h
      split at h
      · rename_i inner hinner
        cases h
        exact Block.obey_withElse? helse hinner hobey
      · cases h
        exact obey_append.2 ⟨hobey, helse⟩
  | .ifElse line condition thenBranch elseBranch, _, h, hobey => by
      obtain ⟨inner, hinner, rfl⟩ := Option.map_eq_some_iff.mp h
      obtain ⟨hthen, hbranch⟩ := obey_append.1 hobey
      exact obey_append.2 ⟨hthen, Block.obey_withElse? helse hinner hbranch⟩
  | .whileLoop line condition body, _, h, hobey => by
      obtain ⟨inner, hinner, rfl⟩ := Option.map_eq_some_iff.mp h
      exact Block.obey_withElse? helse hinner hobey
  | .forLoop line start condition step body, _, h, hobey => by
      obtain ⟨inner, hinner, rfl⟩ := Option.map_eq_some_iff.mp h
      exact Block.obey_withElse? helse hinner hobey
  | .expression .., _, h, _ | .declaration .., _, h, _ | .ret .., _, h, _
  | .stateChange .., _, h, _ | .jump .., _, h, _ | .label .., _, h, _ | .block .., _, h, _
  | .doWhile .., _, h, _ | .empty .., _, h, _ => by
      cases h

theorem Block.obey_withElse? {elseBlock : Block} (helse : Obey rule elseBlock.blocks) :
    ∀ {block block' : Block}, block.withElse? elseBlock = some block' →
      Obey rule block.blocks → Obey rule block'.blocks
  | .mk line true statements, _, h, _ => by cases h
  | .mk line false statements, _, h, hobey => by
      obtain ⟨inner, hinner, rfl⟩ := Option.map_eq_some_iff.mp h
      obtain ⟨hrule, hstatements⟩ := obey_blocks.1 hobey
      rw [← leaves_lastWithElse? hinner] at hrule
      exact obey_blocks.2 ⟨hrule, obey_lastWithElse? helse hinner hstatements⟩

theorem obey_lastWithElse? {elseBlock : Block} (helse : Obey rule elseBlock.blocks) :
    ∀ {statements statements' : List Statement},
      lastWithElse? statements elseBlock = some statements' →
      Obey rule (allBlocks statements) → Obey rule (allBlocks statements')
  | [], _, h, _ => by cases h
  | [statement], _, h, hobey => by
      obtain ⟨inner, hinner, rfl⟩ := Option.map_eq_some_iff.mp h
      rw [obey_allBlocks_singleton] at hobey ⊢
      exact Statement.obey_withElse? helse hinner hobey
  | statement :: next :: rest, _, h, hobey => by
      obtain ⟨inner, hinner, rfl⟩ := Option.map_eq_some_iff.mp h
      obtain ⟨hfirst, hrest⟩ := obey_append.1 hobey
      exact obey_append.2 ⟨hfirst, obey_lastWithElse? helse hinner hrest⟩

end

/-! ### Filling a place -/

namespace Control

theorem isLeaf_close (control : Control) (line : Nat) (body : Block) :
    (control.close line body).isLeaf = false := by
  cases control <;> rfl

/-- The blocks of a control statement are those of its body. -/
theorem blocks_close (control : Control) (line : Nat) (body : Block) :
    (control.close line body).blocks = body.blocks := by
  cases control <;> rfl

end Control

namespace Hole

variable {statements : List Statement} {block : Block}

theorem leaves_elseBranch (statements : List Statement) (block : Block) :
    leaves ((lastWithElse? statements block).getD statements) = leaves statements := by
  cases h : lastWithElse? statements block with
  | none => rfl
  | some statements' => exact leaves_lastWithElse? h

/-- What is put into a place is a leaf of the block only if it is one and stands by itself. -/
theorem leaves_putStatement (statements : List Statement) {hole : Hole} {statement : Statement}
    (h : hole ≠ .statement ∨ statement.isLeaf = false) :
    leaves (hole.putStatement statements statement) = leaves statements := by
  induction hole generalizing statement with
  | statement =>
      rw [putStatement, leaves_append, leaves_singleton_of_not (h.resolve_left (by simp)),
        List.append_nil]
  | elseBranch => exact leaves_elseBranch statements _
  | body control outer ih => exact ih (.inr (control.isLeaf_close _ _))

theorem leaves_putBlock (hole : Hole) (statements : List Statement) (block : Block) :
    leaves (hole.putBlock statements block) = leaves statements := by
  cases hole with
  | statement => rw [putBlock, leaves_append, leaves_singleton_of_not rfl, List.append_nil]
  | elseBranch => exact leaves_elseBranch statements block
  | body control outer => exact leaves_putStatement statements (.inr (control.isLeaf_close _ _))

theorem obey_elseBranch (hstatements : Obey rule (allBlocks statements))
    (hblock : Obey rule block.blocks) :
    Obey rule (allBlocks ((lastWithElse? statements block).getD statements)) := by
  cases h : lastWithElse? statements block with
  | none => exact hstatements
  | some statements' => exact obey_lastWithElse? hblock h hstatements

theorem obey_single {statement : Statement} (hbody : rule false (leaves [statement]))
    (h : Obey rule statement.blocks) : Obey rule (Block.single statement).blocks :=
  obey_blocks.2 ⟨hbody, obey_allBlocks_singleton.2 h⟩

theorem obey_putStatement (hempty : rule false [])
    (hstatements : Obey rule (allBlocks statements)) {hole : Hole} {statement : Statement}
    (hbody : rule false (leaves [statement])) (h : Obey rule statement.blocks) :
    Obey rule (allBlocks (hole.putStatement statements statement)) := by
  induction hole generalizing statement with
  | statement => exact obey_allBlocks_append.2 ⟨hstatements, obey_allBlocks_singleton.2 h⟩
  | elseBranch => exact obey_elseBranch hstatements (obey_single hbody h)
  | body control outer ih =>
      apply ih
      · rw [leaves_singleton_of_not (control.isLeaf_close _ _)]
        exact hempty
      · rw [Control.blocks_close]
        exact obey_single hbody h

theorem obey_putBlock (hempty : rule false []) (hstatements : Obey rule (allBlocks statements))
    (hole : Hole) (hblock : Obey rule block.blocks) :
    Obey rule (allBlocks (hole.putBlock statements block)) := by
  cases hole with
  | statement =>
      exact obey_allBlocks_append.2 ⟨hstatements, obey_allBlocks_singleton.2 hblock⟩
  | elseBranch => exact obey_elseBranch hstatements hblock
  | body control outer =>
      apply obey_putStatement hempty hstatements
      · rw [leaves_singleton_of_not (control.isLeaf_close _ _)]
        exact hempty
      · rw [Control.blocks_close]
        exact hblock

end Hole

/-! ### State changes -/

theorem mem_allStateChanges_of_mem {line : Nat} {target : String} {statements : List Statement}
    (h : .stateChange line target ∈ statements) : (target, line) ∈ allStateChanges statements := by
  induction statements with
  | nil => exact absurd h List.not_mem_nil
  | cons statement rest ih =>
      rw [allStateChanges]
      rcases List.mem_cons.mp h with hfirst | hrest
      · rw [← hfirst]
        exact List.mem_append_left _ List.mem_cons_self
      · exact List.mem_append_right _ (ih hrest)

mutual

/-- A state change in a block at any depth is among those of the whole. -/
theorem Block.mem_stateChanges {line : Nat} {target : String} {inner : Block}
    (hchange : .stateChange line target ∈ inner.statements) :
    ∀ {block : Block}, inner ∈ block.blocks → (target, line) ∈ block.stateChanges
  | .mk number braced statements, h => by
      rcases List.mem_cons.mp h with rfl | h
      · exact mem_allStateChanges_of_mem hchange
      · exact mem_allStateChanges hchange h

theorem Statement.mem_stateChanges {line : Nat} {target : String} {inner : Block}
    (hchange : .stateChange line target ∈ inner.statements) :
    ∀ {statement : Statement}, inner ∈ statement.blocks → (target, line) ∈ statement.stateChanges
  | .block _ body, h | .ifThen _ _ body, h | .whileLoop _ _ body, h | .doWhile _ body _, h
  | .forLoop _ _ _ _ body, h => Block.mem_stateChanges hchange (show inner ∈ body.blocks from h)
  | .ifElse _ _ thenBranch elseBranch, h => by
      rcases List.mem_append.mp h with h | h
      · exact List.mem_append_left _ (Block.mem_stateChanges hchange h)
      · exact List.mem_append_right _ (Block.mem_stateChanges hchange h)
  | .expression .., h | .declaration .., h | .ret .., h | .stateChange .., h | .jump .., h
  | .label .., h | .empty .., h => absurd h List.not_mem_nil

theorem mem_allStateChanges {line : Nat} {target : String} {inner : Block}
    (hchange : .stateChange line target ∈ inner.statements) :
    ∀ {statements : List Statement}, inner ∈ allBlocks statements →
      (target, line) ∈ allStateChanges statements
  | [], h => absurd h List.not_mem_nil
  | statement :: rest, h => by
      rcases List.mem_append.mp h with h | h
      · exact List.mem_append_left _ (Statement.mem_stateChanges hchange h)
      · exact List.mem_append_right _ (mem_allStateChanges hchange h)

end

end LslFront
