import LslFront.Resolved

/-!
# Statement blocks

The body of a function or an event handler.  A braced block holds any number of statements; a
body that is written without braces is a block that holds exactly one.  Every statement carries
the number of the line where it begins.
-/

namespace LslFront

mutual

/-- A statement of a body. -/
inductive Statement where
  | expression (line : Nat) (value : Resolved)
  | declaration (line : Nat) (ty : Ty) (name : String) (value : Option Resolved)
  | ret (line : Nat) (value : Option Resolved)
  | stateChange (line : Nat) (target : String)
  | jump (line : Nat) (label : String)
  | label (line : Nat) (name : String)
  /-- A braced block that stands by itself. -/
  | block (line : Nat) (body : Block)
  | ifThen (line : Nat) (condition : Resolved) (thenBranch : Block)
  | ifElse (line : Nat) (condition : Resolved) (thenBranch elseBranch : Block)
  | whileLoop (line : Nat) (condition : Resolved) (body : Block)
  | doWhile (line : Nat) (body : Block) (condition : Resolved)
  | forLoop (line : Nat) (start : List Resolved) (condition : Option Resolved)
      (step : List Resolved) (body : Block)
  | empty (line : Nat)

/-- Statements that stand together. -/
inductive Block where
  | mk (line : Nat) (braced : Bool) (statements : List Statement)

end

deriving instance BEq, Repr for Statement, Block

namespace Statement

def line : Statement → Nat
  | expression line _ | declaration line _ _ _ | ret line _ | stateChange line _
  | jump line _ | label line _ | block line _ | ifThen line _ _ | ifElse line _ _ _
  | whileLoop line _ _ | doWhile line _ _ | forLoop line _ _ _ _ | empty line => line

end Statement

namespace Block

def line : Block → Nat
  | mk line _ _ => line

/-- Was the block written with braces? -/
def isBraced : Block → Bool
  | mk _ braced _ => braced

def statements : Block → List Statement
  | mk _ _ statements => statements

/-- The block that a body without braces stands for. -/
def single (statement : Statement) : Block :=
  mk statement.line false [statement]

def bare (line : Nat) : Block :=
  mk line true []

end Block

/-! ### State changes -/

mutual

/-- The state changes in a statement with their lines, in the order in which they are written. -/
def Statement.stateChanges : Statement → List (String × Nat)
  | .stateChange line target => [(target, line)]
  | .block _ body => body.stateChanges
  | .ifThen _ _ thenBranch => thenBranch.stateChanges
  | .ifElse _ _ thenBranch elseBranch => thenBranch.stateChanges ++ elseBranch.stateChanges
  | .whileLoop _ _ body => body.stateChanges
  | .doWhile _ body _ => body.stateChanges
  | .forLoop _ _ _ _ body => body.stateChanges
  | _ => []

def Block.stateChanges : Block → List (String × Nat)
  | .mk _ _ statements => allStateChanges statements

def allStateChanges : List Statement → List (String × Nat)
  | [] => []
  | statement :: rest => statement.stateChanges ++ allStateChanges rest

end

/-! ### Attaching an else -/

mutual

/-- The statement with an else branch given to its innermost `if` that can still take one, if it
    has such an `if`.  The search goes through bodies without braces: a brace closes every `if`
    inside it. -/
def Statement.withElse? (statement : Statement) (elseBlock : Block) : Option Statement :=
  match statement with
  | .ifThen line condition thenBranch =>
      match thenBranch.withElse? elseBlock with
      | some inner => some (.ifThen line condition inner)
      | none => some (.ifElse line condition thenBranch elseBlock)
  | .ifElse line condition thenBranch elseBranch =>
      (elseBranch.withElse? elseBlock).map (.ifElse line condition thenBranch)
  | .whileLoop line condition body => (body.withElse? elseBlock).map (.whileLoop line condition)
  | .forLoop line start condition step body =>
      (body.withElse? elseBlock).map (.forLoop line start condition step)
  | _ => none

/-- The block with an else branch given to its last statement, if it has no braces. -/
def Block.withElse? (block elseBlock : Block) : Option Block :=
  match block with
  | .mk line braced statements =>
      if braced then none else (lastWithElse? statements elseBlock).map (.mk line braced)

/-- The statements with an else branch given to the last of them. -/
def lastWithElse? (statements : List Statement) (elseBlock : Block) : Option (List Statement) :=
  match statements with
  | [] => none
  | [statement] => (statement.withElse? elseBlock).map ([·])
  | statement :: next :: rest => (lastWithElse? (next :: rest) elseBlock).map (statement :: ·)

end

/-- Does the last statement have an `if` that can still take an else? -/
def takesElse (statements : List Statement) : Bool :=
  (lastWithElse? statements (.bare 0)).isSome

end LslFront
