import LslFront.Block.Effect

/-!
# Where an else goes

`withElse?` gives an else branch to the innermost `if` that can take one.  Whether there is such
an `if` does not depend on the branch, and an else branch that has just been given is where the
next else is looked for.
-/

namespace LslFront

/-! ### The last statement -/

theorem lastWithElse?_cons (statement : Statement) {rest : List Statement} (h : rest ≠ [])
    (elseBlock : Block) :
    lastWithElse? (statement :: rest) elseBlock
      = (lastWithElse? rest elseBlock).map (statement :: ·) := by
  cases rest with
  | nil => exact absurd rfl h
  | cons next rest => rw [lastWithElse?]

theorem lastWithElse?_ne_nil {statements statements' : List Statement} {elseBlock : Block}
    (h : lastWithElse? statements elseBlock = some statements') : statements' ≠ [] := by
  rintro rfl
  unfold lastWithElse? at h
  split at h
  · cases h
  · obtain ⟨last, -, hnil⟩ := Option.map_eq_some_iff.mp h
    cases hnil
  · obtain ⟨others, -, hnil⟩ := Option.map_eq_some_iff.mp h
    cases hnil

theorem lastWithElse?_append (statements : List Statement) (last : Statement) (elseBlock : Block) :
    lastWithElse? (statements ++ [last]) elseBlock
      = (last.withElse? elseBlock).map fun last => statements ++ [last] := by
  induction statements with
  | nil => rfl
  | cons statement rest ih =>
      rw [List.cons_append, lastWithElse?_cons statement (by simp), ih, Option.map_map]
      rfl

/-! ### Whether there is an open if -/

mutual

theorem Statement.isSome_withElse? (elseBlock other : Block) : ∀ statement : Statement,
    (statement.withElse? elseBlock).isSome = (statement.withElse? other).isSome
  | .ifThen line condition thenBranch => by
      simp only [Statement.withElse?]
      cases thenBranch.withElse? elseBlock <;> cases thenBranch.withElse? other <;> rfl
  | .ifElse line condition thenBranch elseBranch => by
      simp only [Statement.withElse?, Option.isSome_map]
      exact Block.isSome_withElse? elseBlock other elseBranch
  | .whileLoop line condition body => by
      simp only [Statement.withElse?, Option.isSome_map]
      exact Block.isSome_withElse? elseBlock other body
  | .forLoop line start condition step body => by
      simp only [Statement.withElse?, Option.isSome_map]
      exact Block.isSome_withElse? elseBlock other body
  | .expression .. | .declaration .. | .ret .. | .stateChange .. | .jump .. | .label ..
  | .block .. | .doWhile .. | .empty .. => rfl

theorem Block.isSome_withElse? (elseBlock other : Block) : ∀ block : Block,
    (block.withElse? elseBlock).isSome = (block.withElse? other).isSome
  | .mk line true statements => rfl
  | .mk line false statements => by
      simp only [Block.withElse?, Bool.false_eq_true, if_false, Option.isSome_map]
      exact isSome_lastWithElse? elseBlock other statements

theorem isSome_lastWithElse? (elseBlock other : Block) : ∀ statements : List Statement,
    (lastWithElse? statements elseBlock).isSome = (lastWithElse? statements other).isSome
  | [] => rfl
  | [statement] => by
      simp only [lastWithElse?, Option.isSome_map]
      exact Statement.isSome_withElse? elseBlock other statement
  | statement :: next :: rest => by
      simp only [lastWithElse?, Option.isSome_map]
      exact isSome_lastWithElse? elseBlock other (next :: rest)

end

theorem withElse?_eq_none_of {block elseBlock : Block} (other : Block)
    (h : block.withElse? elseBlock = none) : block.withElse? other = none := by
  have hopen := Block.isSome_withElse? elseBlock other block
  rw [h] at hopen
  exact Option.isNone_iff_eq_none.mp (by simpa using hopen.symm)

theorem Statement.line_withElse? {statement statement' : Statement} {elseBlock : Block}
    (h : statement.withElse? elseBlock = some statement') : statement'.line = statement.line := by
  cases statement with
  | ifThen line condition thenBranch =>
      simp only [Statement.withElse?] at h
      split at h
      · cases h
        rfl
      · cases h
        rfl
  | ifElse line condition thenBranch elseBranch =>
      obtain ⟨inner, -, rfl⟩ := Option.map_eq_some_iff.mp h
      rfl
  | whileLoop line condition body =>
      obtain ⟨inner, -, rfl⟩ := Option.map_eq_some_iff.mp h
      rfl
  | forLoop line start condition step body =>
      obtain ⟨inner, -, rfl⟩ := Option.map_eq_some_iff.mp h
      rfl
  | _ => cases h

/-! ### An else inside an else -/

mutual

/-- After one else has been given, the next goes into it if it can take one. -/
theorem Statement.withElse?_withElse? {first second both : Block}
    (hboth : first.withElse? second = some both) : ∀ {statement statement' : Statement},
    statement.withElse? first = some statement' →
    ∃ statement'', statement'.withElse? second = some statement'' ∧
      statement.withElse? both = some statement''
  | .ifThen line condition thenBranch, _, h => by
      simp only [Statement.withElse?] at h
      split at h
      · rename_i inner hinner
        cases h
        obtain ⟨inner', hsecond, hall⟩ := Block.withElse?_withElse? hboth hinner
        exact ⟨.ifThen line condition inner', by simp [Statement.withElse?, hsecond],
          by simp [Statement.withElse?, hall]⟩
      · rename_i hnone
        cases h
        have hall := withElse?_eq_none_of both hnone
        exact ⟨.ifElse line condition thenBranch both, by simp [Statement.withElse?, hboth],
          by simp [Statement.withElse?, hall]⟩
  | .ifElse line condition thenBranch elseBranch, _, h => by
      obtain ⟨inner, hinner, rfl⟩ := Option.map_eq_some_iff.mp h
      obtain ⟨inner', hsecond, hall⟩ := Block.withElse?_withElse? hboth hinner
      exact ⟨.ifElse line condition thenBranch inner', by simp [Statement.withElse?, hsecond],
        by simp [Statement.withElse?, hall]⟩
  | .whileLoop line condition body, _, h => by
      obtain ⟨inner, hinner, rfl⟩ := Option.map_eq_some_iff.mp h
      obtain ⟨inner', hsecond, hall⟩ := Block.withElse?_withElse? hboth hinner
      exact ⟨.whileLoop line condition inner', by simp [Statement.withElse?, hsecond],
        by simp [Statement.withElse?, hall]⟩
  | .forLoop line start condition step body, _, h => by
      obtain ⟨inner, hinner, rfl⟩ := Option.map_eq_some_iff.mp h
      obtain ⟨inner', hsecond, hall⟩ := Block.withElse?_withElse? hboth hinner
      exact ⟨.forLoop line start condition step inner', by simp [Statement.withElse?, hsecond],
        by simp [Statement.withElse?, hall]⟩
  | .expression .., _, h | .declaration .., _, h | .ret .., _, h | .stateChange .., _, h
  | .jump .., _, h | .label .., _, h | .block .., _, h | .doWhile .., _, h | .empty .., _, h => by
      cases h

theorem Block.withElse?_withElse? {first second both : Block}
    (hboth : first.withElse? second = some both) : ∀ {block block' : Block},
    block.withElse? first = some block' →
    ∃ block'', block'.withElse? second = some block'' ∧ block.withElse? both = some block''
  | .mk line true statements, _, h => by cases h
  | .mk line false statements, _, h => by
      obtain ⟨inner, hinner, rfl⟩ := Option.map_eq_some_iff.mp h
      obtain ⟨inner', hsecond, hall⟩ := lastWithElse?_lastWithElse? hboth hinner
      exact ⟨.mk line false inner', by simp [Block.withElse?, hsecond],
        by simp [Block.withElse?, hall]⟩

theorem lastWithElse?_lastWithElse? {first second both : Block}
    (hboth : first.withElse? second = some both) : ∀ {statements statements' : List Statement},
    lastWithElse? statements first = some statements' →
    ∃ statements'', lastWithElse? statements' second = some statements'' ∧
      lastWithElse? statements both = some statements''
  | [], _, h => by cases h
  | [statement], _, h => by
      obtain ⟨inner, hinner, rfl⟩ := Option.map_eq_some_iff.mp h
      obtain ⟨inner', hsecond, hall⟩ := Statement.withElse?_withElse? hboth hinner
      exact ⟨[inner'], by simp [lastWithElse?, hsecond], by simp [lastWithElse?, hall]⟩
  | statement :: next :: rest, _, h => by
      obtain ⟨inner, hinner, rfl⟩ := Option.map_eq_some_iff.mp h
      obtain ⟨inner', hsecond, hall⟩ := lastWithElse?_lastWithElse? hboth hinner
      refine ⟨statement :: inner', ?_, by simp [lastWithElse?, hall]⟩
      rw [lastWithElse?_cons statement (lastWithElse?_ne_nil hinner), hsecond]
      rfl

end

/-! ### Places -/

namespace Hole

/-- The place can be filled: an else branch has an `if` that it is for. -/
def Fits (statements : List Statement) : Hole → Prop
  | .statement => True
  | .elseBranch => takesElse statements
  | .body _ outer => outer.Fits statements

theorem exists_lastWithElse? {statements : List Statement} (h : takesElse statements)
    (elseBlock : Block) : ∃ statements', lastWithElse? statements elseBlock = some statements' := by
  have hopen := isSome_lastWithElse? (.bare 0) elseBlock statements
  rw [takesElse] at h
  exact Option.isSome_iff_exists.mp (hopen ▸ h)

/-- A statement that has been put into a place is the one that the next else goes into. -/
theorem lastWithElse?_putStatement {statements : List Statement} {hole : Hole} {elseBlock : Block}
    (hfits : hole.Fits statements) : ∀ {statement statement' : Statement},
    statement.withElse? elseBlock = some statement' →
    lastWithElse? (hole.putStatement statements statement) elseBlock
      = some (hole.putStatement statements statement') := by
  -- A statement and a body that is that statement take an else alike.
  have hsingle : ∀ {statement statement' : Statement},
      statement.withElse? elseBlock = some statement' →
      (Block.single statement).withElse? elseBlock = some (.single statement') := by
    intro statement statement' h
    simp [Block.single, Block.withElse?, lastWithElse?, h, Statement.line_withElse? h]
  induction hole with
  | statement =>
      intro statement statement' h
      rw [putStatement, putStatement, lastWithElse?_append, h]
      rfl
  | elseBranch =>
      intro statement statement' h
      obtain ⟨filled, hfilled⟩ := exists_lastWithElse? hfits (.single statement)
      obtain ⟨filled', hsecond, hall⟩ := lastWithElse?_lastWithElse? (hsingle h) hfilled
      rw [putStatement, putStatement, hfilled, hall]
      exact hsecond
  | body control outer ih =>
      intro statement statement' h
      refine ih hfits ?_
      have hbody := hsingle h
      have hline := Statement.line_withElse? h
      cases control with
      | ifThen condition => simp [Control.close, Statement.withElse?, hbody, hline]
      | whileLoop condition => simp [Control.close, Statement.withElse?, hbody, hline]
      | forLoop start condition step => simp [Control.close, Statement.withElse?, hbody, hline]

/-- An `if` that has been put into a place, and whose branch is closed, gets its else there. -/
theorem putBlock_elseBranch {statements : List Statement} {hole : Hole} {line : Nat}
    {condition : Resolved} {thenBranch : Block} (hfits : hole.Fits statements) (elseBlock : Block)
    (hclosed : thenBranch.withElse? elseBlock = none) :
    putBlock (hole.putStatement statements (.ifThen line condition thenBranch)) elseBlock
        .elseBranch
      = hole.putStatement statements (.ifElse line condition thenBranch elseBlock) := by
  have hgiven : Statement.withElse? (.ifThen line condition thenBranch) elseBlock
      = some (.ifElse line condition thenBranch elseBlock) := by
    simp [Statement.withElse?, hclosed]
  rw [putBlock, lastWithElse?_putStatement hfits hgiven]
  rfl

end Hole

end LslFront
