import LslFront.Block.Effect
import LslFront.Dialect
import LslFront.Proofs.Block.Else
import Mathlib

/-!
# Trees that differ in their expressions only

Two statements are alike if they are built the same way and what they hold at each place is alike: a
`Likeness` says which dialects, which line numbers and which expressions count as such.  So one
relation compares the trees of two runs, and a tree that is alike to itself is one in which every
line number and every expression has a property.

Whatever the reader of bodies does to trees keeps them alike.
-/

namespace Option.Rel

variable {α β α' β' : Type} {R : α → α' → Prop} {S : β → β' → Prop}
  {first : Option α} {second : Option α'}

theorem map (h : Option.Rel R first second) {f : α → β} {g : α' → β'}
    (hmap : ∀ a b, R a b → S (f a) (g b)) : Option.Rel S (first.map f) (second.map g) := by
  cases h with
  | some h => exact .some (hmap _ _ h)
  | none => exact .none

theorem toList (h : Option.Rel R first second) : List.Forall₂ R first.toList second.toList := by
  cases h with
  | some h => exact .cons h .nil
  | none => exact .nil

theorem getD (h : Option.Rel R first second) {a : α} {b : α'} (hdefault : R a b) :
    R (first.getD a) (second.getD b) := by
  cases h with
  | some h => exact h
  | none => exact hdefault

theorem isSome_eq (h : Option.Rel R first second) : first.isSome = second.isSome := by
  cases h <;> rfl

end Option.Rel

namespace LslFront

/-- What counts as alike. -/
structure Likeness where
  dialect : Dialect → Dialect → Prop
  line : Nat → Nat → Prop
  expression : Resolved → Resolved → Prop

mutual

/-- Statements that are built the same way. -/
inductive Statement.Alike (like : Likeness) : Statement → Statement → Prop where
  | expression {line line' value value'} : like.line line line' → like.expression value value' →
      Statement.Alike like (.expression line value) (.expression line' value')
  | declaration {line line' ty name value value'} : like.line line line' →
      Option.Rel like.expression value value' →
      Statement.Alike like (.declaration line ty name value) (.declaration line' ty name value')
  | ret {line line' value value'} : like.line line line' →
      Option.Rel like.expression value value' →
      Statement.Alike like (.ret line value) (.ret line' value')
  | stateChange {line line' target} : like.line line line' →
      Statement.Alike like (.stateChange line target) (.stateChange line' target)
  | jump {line line' label} : like.line line line' →
      Statement.Alike like (.jump line label) (.jump line' label)
  | label {line line' name} : like.line line line' →
      Statement.Alike like (.label line name) (.label line' name)
  | block {line line' body body'} : like.line line line' → Block.Alike like body body' →
      Statement.Alike like (.block line body) (.block line' body')
  | ifThen {line line' condition condition' thenBranch thenBranch'} : like.line line line' →
      like.expression condition condition' → Block.Alike like thenBranch thenBranch' →
      Statement.Alike like (.ifThen line condition thenBranch)
        (.ifThen line' condition' thenBranch')
  | ifElse {line line' condition condition' thenBranch thenBranch' elseBranch elseBranch'} :
      like.line line line' → like.expression condition condition' →
      Block.Alike like thenBranch thenBranch' → Block.Alike like elseBranch elseBranch' →
      Statement.Alike like (.ifElse line condition thenBranch elseBranch)
        (.ifElse line' condition' thenBranch' elseBranch')
  | whileLoop {line line' condition condition' body body'} : like.line line line' →
      like.expression condition condition' → Block.Alike like body body' →
      Statement.Alike like (.whileLoop line condition body) (.whileLoop line' condition' body')
  | doWhile {line line' body body' condition condition'} : like.line line line' →
      Block.Alike like body body' → like.expression condition condition' →
      Statement.Alike like (.doWhile line body condition) (.doWhile line' body' condition')
  | forLoop {line line' start start' condition condition' step step' body body'} :
      like.line line line' → List.Forall₂ like.expression start start' →
      Option.Rel like.expression condition condition' →
      List.Forall₂ like.expression step step' → Block.Alike like body body' →
      Statement.Alike like (.forLoop line start condition step body)
        (.forLoop line' start' condition' step' body')
  | empty {line line'} : like.line line line' →
      Statement.Alike like (.empty line) (.empty line')

inductive Block.Alike (like : Likeness) : Block → Block → Prop where
  | mk {line line' braced statements statements'} : like.line line line' →
      List.Forall₂ (Statement.Alike like) statements statements' →
      Block.Alike like (.mk line braced statements) (.mk line' braced statements')

end

section

variable {like : Likeness}

theorem Statement.Alike.line {statement statement' : Statement}
    (h : statement.Alike like statement') : like.line statement.line statement'.line := by
  cases h <;> assumption

theorem Block.Alike.line {block block' : Block} (h : block.Alike like block') :
    like.line block.line block'.line := by
  cases h
  assumption

theorem Block.Alike.single {statement statement' : Statement}
    (h : statement.Alike like statement') :
    (Block.single statement).Alike like (.single statement') :=
  .mk h.line (.cons h .nil)

theorem Block.Alike.bare {line line' : Nat} (h : like.line line line') :
    (Block.bare line).Alike like (.bare line') :=
  .mk h .nil

end

/-! ### What trees hold -/

mutual

/-- The expressions of a statement, in the order in which they are written. -/
def Statement.expressions : Statement → List Resolved
  | .expression _ value => [value]
  | .declaration _ _ _ value | .ret _ value => value.toList
  | .block _ body => body.expressions
  | .ifThen _ condition thenBranch => condition :: thenBranch.expressions
  | .ifElse _ condition thenBranch elseBranch =>
      condition :: (thenBranch.expressions ++ elseBranch.expressions)
  | .whileLoop _ condition body => condition :: body.expressions
  | .doWhile _ body condition => body.expressions ++ [condition]
  | .forLoop _ start condition step body =>
      start ++ condition.toList ++ step ++ body.expressions
  | .stateChange .. | .jump .. | .label .. | .empty _ => []

def Block.expressions : Block → List Resolved
  | .mk _ _ statements => allExpressions statements

def allExpressions : List Statement → List Resolved
  | [] => []
  | statement :: rest => statement.expressions ++ allExpressions rest

end

mutual

theorem Statement.Alike.expressions {like : Likeness} : ∀ {statement statement' : Statement},
    statement.Alike like statement' →
      List.Forall₂ like.expression statement.expressions statement'.expressions
  | .expression .., _, .expression _ hvalue => .cons hvalue .nil
  | .declaration .., _, .declaration _ hvalue => hvalue.toList
  | .ret .., _, .ret _ hvalue => hvalue.toList
  | .block .., _, .block _ hbody => hbody.expressions
  | .ifThen .., _, .ifThen _ hcondition hthen => .cons hcondition hthen.expressions
  | .ifElse .., _, .ifElse _ hcondition hthen helse =>
      .cons hcondition (List.rel_append hthen.expressions helse.expressions)
  | .whileLoop .., _, .whileLoop _ hcondition hbody => .cons hcondition hbody.expressions
  | .doWhile .., _, .doWhile _ hbody hcondition =>
      List.rel_append hbody.expressions (.cons hcondition .nil)
  | .forLoop .., _, .forLoop _ hstart hcondition hstep hbody =>
      List.rel_append (List.rel_append (List.rel_append hstart hcondition.toList) hstep)
        hbody.expressions
  | .stateChange .., _, .stateChange _ | .jump .., _, .jump _ | .label .., _, .label _
  | .empty _, _, .empty _ => .nil

theorem Block.Alike.expressions {like : Likeness} : ∀ {block block' : Block},
    block.Alike like block' → List.Forall₂ like.expression block.expressions block'.expressions
  | .mk .., _, .mk _ hstatements => forall₂_allExpressions hstatements

theorem forall₂_allExpressions {like : Likeness} : ∀ {statements statements' : List Statement},
    List.Forall₂ (Statement.Alike like) statements statements' →
      List.Forall₂ like.expression (allExpressions statements) (allExpressions statements')
  | [], _, .nil => .nil
  | _ :: _, _, .cons hfirst hrest =>
      List.rel_append hfirst.expressions (forall₂_allExpressions hrest)

end

/-- The same target, on lines that are alike. -/
def SameTarget (like : Likeness) (change change' : String × Nat) : Prop :=
  change.1 = change'.1 ∧ like.line change.2 change'.2

mutual

theorem Statement.Alike.stateChanges {like : Likeness} : ∀ {statement statement' : Statement},
    statement.Alike like statement' →
      List.Forall₂ (SameTarget like) statement.stateChanges statement'.stateChanges
  | .stateChange .., _, .stateChange hline => .cons ⟨rfl, hline⟩ .nil
  | .block .., _, .block _ hbody => hbody.stateChanges
  | .ifThen .., _, .ifThen _ _ hthen => hthen.stateChanges
  | .ifElse .., _, .ifElse _ _ hthen helse =>
      List.rel_append hthen.stateChanges helse.stateChanges
  | .whileLoop .., _, .whileLoop _ _ hbody => hbody.stateChanges
  | .doWhile .., _, .doWhile _ hbody _ => hbody.stateChanges
  | .forLoop .., _, .forLoop _ _ _ _ hbody => hbody.stateChanges
  | .expression .., _, .expression .. | .declaration .., _, .declaration .. | .ret .., _, .ret ..
  | .jump .., _, .jump _ | .label .., _, .label _ | .empty _, _, .empty _ => .nil

theorem Block.Alike.stateChanges {like : Likeness} : ∀ {block block' : Block},
    block.Alike like block' →
      List.Forall₂ (SameTarget like) block.stateChanges block'.stateChanges
  | .mk .., _, .mk _ hstatements => forall₂_allStateChanges hstatements

theorem forall₂_allStateChanges {like : Likeness} : ∀ {statements statements' : List Statement},
    List.Forall₂ (Statement.Alike like) statements statements' →
      List.Forall₂ (SameTarget like) (allStateChanges statements) (allStateChanges statements')
  | [], _, .nil => .nil
  | _ :: _, _, .cons hfirst hrest =>
      List.rel_append hfirst.stateChanges (forall₂_allStateChanges hrest)

end

/-! ### Attaching an else -/

section

variable {like : Likeness}

mutual

theorem Statement.Alike.withElse? {elseBlock elseBlock' : Block}
    (helse : elseBlock.Alike like elseBlock') : ∀ {statement statement' : Statement},
    statement.Alike like statement' →
      Option.Rel (Statement.Alike like) (statement.withElse? elseBlock)
        (statement'.withElse? elseBlock')
  | .ifThen _ _ thenBranch, .ifThen _ _ thenBranch', .ifThen hline hcondition hthen => by
      have hinner := Block.Alike.withElse? helse hthen
      simp only [Statement.withElse?]
      generalize thenBranch.withElse? elseBlock = inner,
        thenBranch'.withElse? elseBlock' = inner' at hinner ⊢
      cases hinner with
      | some hinner => exact .some (.ifThen hline hcondition hinner)
      | none => exact .some (.ifElse hline hcondition hthen helse)
  | .ifElse .., _, .ifElse hline hcondition hthen hbranch => by
      simp only [Statement.withElse?]
      apply Option.Rel.map (Block.Alike.withElse? helse hbranch)
      exact fun _ _ hinner => .ifElse hline hcondition hthen hinner
  | .whileLoop .., _, .whileLoop hline hcondition hbody => by
      simp only [Statement.withElse?]
      apply Option.Rel.map (Block.Alike.withElse? helse hbody)
      exact fun _ _ hinner => .whileLoop hline hcondition hinner
  | .forLoop .., _, .forLoop hline hstart hcondition hstep hbody => by
      simp only [Statement.withElse?]
      apply Option.Rel.map (Block.Alike.withElse? helse hbody)
      exact fun _ _ hinner => .forLoop hline hstart hcondition hstep hinner
  | .expression .., _, .expression .. | .declaration .., _, .declaration .. | .ret .., _, .ret ..
  | .stateChange .., _, .stateChange _ | .jump .., _, .jump _ | .label .., _, .label _
  | .block .., _, .block .. | .doWhile .., _, .doWhile .. | .empty _, _, .empty _ => .none

theorem Block.Alike.withElse? {elseBlock elseBlock' : Block}
    (helse : elseBlock.Alike like elseBlock') : ∀ {block block' : Block},
    block.Alike like block' →
      Option.Rel (Block.Alike like) (block.withElse? elseBlock) (block'.withElse? elseBlock')
  | .mk _ true _, _, .mk .. => .none
  | .mk _ false _, _, .mk hline hstatements => by
      simp only [Block.withElse?, Bool.false_eq_true, if_false]
      apply Option.Rel.map (rel_lastWithElse? helse hstatements)
      exact fun _ _ hinner => .mk hline hinner

theorem rel_lastWithElse? {elseBlock elseBlock' : Block}
    (helse : elseBlock.Alike like elseBlock') : ∀ {statements statements' : List Statement},
    List.Forall₂ (Statement.Alike like) statements statements' →
      Option.Rel (List.Forall₂ (Statement.Alike like)) (lastWithElse? statements elseBlock)
        (lastWithElse? statements' elseBlock')
  | [], _, .nil => .none
  | [_], _, .cons hlast .nil => by
      simp only [lastWithElse?]
      apply Option.Rel.map (Statement.Alike.withElse? helse hlast)
      exact fun _ _ hinner => .cons hinner .nil
  | _ :: _ :: _, _, .cons hfirst (.cons hnext hrest) => by
      simp only [lastWithElse?]
      apply Option.Rel.map (rel_lastWithElse? helse (.cons hnext hrest))
      exact fun _ _ hinner => .cons hfirst hinner

end

/-- Statements that are alike take an else both or neither. -/
theorem takesElse_eq {statements statements' : List Statement} {line line' : Nat}
    (hline : like.line line line')
    (h : List.Forall₂ (Statement.Alike like) statements statements') :
    takesElse statements = takesElse statements' := by
  rw [takesElse, takesElse, isSome_lastWithElse? (.bare 0) (.bare line),
    isSome_lastWithElse? (.bare 0) (.bare line')]
  exact (rel_lastWithElse? (Block.Alike.bare hline) h).isSome_eq

/-! ### Places and effects -/

inductive Control.Alike (like : Likeness) : Control → Control → Prop where
  | ifThen {condition condition'} : like.expression condition condition' →
      Control.Alike like (.ifThen condition) (.ifThen condition')
  | whileLoop {condition condition'} : like.expression condition condition' →
      Control.Alike like (.whileLoop condition) (.whileLoop condition')
  | forLoop {start start' condition condition' step step'} :
      List.Forall₂ like.expression start start' → Option.Rel like.expression condition condition' →
      List.Forall₂ like.expression step step' →
      Control.Alike like (.forLoop start condition step) (.forLoop start' condition' step')

inductive Hole.Alike (like : Likeness) : Hole → Hole → Prop where
  | statement : Hole.Alike like .statement .statement
  | elseBranch : Hole.Alike like .elseBranch .elseBranch
  | body {control control' outer outer'} : control.Alike like control' →
      Hole.Alike like outer outer' → Hole.Alike like (.body control outer) (.body control' outer')

inductive Effect.Alike (like : Likeness) : Effect → Effect → Prop where
  | complete {hole hole' statement statement'} : Hole.Alike like hole hole' →
      Statement.Alike like statement statement' →
      Effect.Alike like (.complete hole statement) (.complete hole' statement')
  | declares {ty name value value'} : Option.Rel like.expression value value' →
      Effect.Alike like (.declares ty name value) (.declares ty name value')
  | opens {hole hole'} : Hole.Alike like hole hole' →
      Effect.Alike like (.opens hole) (.opens hole')
  | opensDo {hole hole'} : Hole.Alike like hole hole' →
      Effect.Alike like (.opensDo hole) (.opensDo hole')

theorem Control.Alike.close {control control' : Control} {line line' : Nat} {body body' : Block}
    (h : control.Alike like control') (hline : like.line line line')
    (hbody : body.Alike like body') :
    (control.close line body).Alike like (control'.close line' body') := by
  cases h with
  | ifThen hcondition => exact .ifThen hline hcondition hbody
  | whileLoop hcondition => exact .whileLoop hline hcondition hbody
  | forLoop hstart hcondition hstep => exact .forLoop hline hstart hcondition hstep hbody

namespace Hole.Alike

variable {hole hole' : Hole} {statements statements' : List Statement}

theorem isStatement_eq (h : hole.Alike like hole') : hole.isStatement = hole'.isStatement := by
  cases h <;> rfl

theorem putStatement (h : hole.Alike like hole')
    (hstatements : List.Forall₂ (Statement.Alike like) statements statements')
    {statement statement' : Statement} (hstatement : statement.Alike like statement') :
    List.Forall₂ (Statement.Alike like) (hole.putStatement statements statement)
      (hole'.putStatement statements' statement') := by
  induction h generalizing statement statement' with
  | statement => exact List.rel_append hstatements (.cons hstatement .nil)
  | elseBranch => exact (rel_lastWithElse? (.single hstatement) hstatements).getD hstatements
  | body hcontrol _ ih => exact ih (hcontrol.close hstatement.line (.single hstatement))

theorem putBlock (h : hole.Alike like hole')
    (hstatements : List.Forall₂ (Statement.Alike like) statements statements')
    {block block' : Block} (hblock : block.Alike like block') :
    List.Forall₂ (Statement.Alike like) (hole.putBlock statements block)
      (hole'.putBlock statements' block') := by
  cases h with
  | statement => exact List.rel_append hstatements (.cons (.block hblock.line hblock) .nil)
  | elseBranch => exact (rel_lastWithElse? hblock hstatements).getD hstatements
  | body hcontrol houter =>
      exact houter.putStatement hstatements (hcontrol.close hblock.line hblock)

end Hole.Alike

end

end LslFront
