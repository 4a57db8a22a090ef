import LslFront.Block
import LslFront.Block.Header
import LslFront.Resolved.Resolve

/-!
# What one line does to a block

A logical line of a body is a whole statement, or the beginning of one whose innermost body is a
braced block that the following lines fill.  The control statements around such a block are kept
in a `Hole`: it says where the block goes, and with it every statement that the block completes.

```
if (a) while (b) {      the block is the body of a `while`,
                        which is the branch of an `if`,
                        which is a statement of the enclosing block
```
-/

namespace LslFront

/-- Where a body stands: user functions may not change the state. -/
inductive BodyKind where
  | function
  | event
deriving DecidableEq, Repr

/-- A control statement whose body is still to come. -/
inductive Control where
  | ifThen (condition : Resolved)
  | whileLoop (condition : Resolved)
  | forLoop (start : List Resolved) (condition : Option Resolved) (step : List Resolved)
deriving BEq, Repr

def Control.close (line : Nat) (body : Block) : Control → Statement
  | ifThen condition => .ifThen line condition body
  | whileLoop condition => .whileLoop line condition body
  | forLoop start condition step => .forLoop line start condition step body

/-- The place that a statement or a block is read for. -/
inductive Hole where
  /-- A statement of the enclosing block. -/
  | statement
  /-- The else branch of the last statement of the enclosing block. -/
  | elseBranch
  /-- The body of a control statement, which itself is read for another place. -/
  | body (control : Control) (outer : Hole)
deriving BEq, Repr

namespace Hole

def isStatement : Hole → Bool
  | statement => true
  | _ => false

/-- The statements of the enclosing block after `statement` has been put into the place. -/
def putStatement (statements : List Statement) (statement : Statement) :
    Hole → List Statement
  | .statement => statements ++ [statement]
  | .elseBranch => (lastWithElse? statements (.single statement)).getD statements
  | .body control outer =>
      outer.putStatement statements (control.close statement.line (.single statement))

/-- The statements of the enclosing block after a braced block has been put into the place. -/
def putBlock (statements : List Statement) (block : Block) : Hole → List Statement
  | .statement => statements ++ [.block block.line block]
  | .elseBranch => (lastWithElse? statements block).getD statements
  | .body control outer => outer.putStatement statements (control.close block.line block)

end Hole

/-- What a line does. -/
inductive Effect where
  /-- It holds a whole statement. -/
  | complete (hole : Hole) (statement : Statement)
  /-- It declares a variable, which is a statement of the enclosing block. -/
  | declares (ty : Ty) (name : String) (value : Option Resolved)
  /-- It opens a block. -/
  | opens (hole : Hole)
  /-- It opens the block of a `do`. -/
  | opensDo (hole : Hole)

/-! ### Reading a line -/

def headedWords : List String := ["if", "while", "for"]

/-- The three parts of a `for` header, resolved from left to right. -/
def resolveForHeader (scope : Scope) (header : List String) : Except Cause Control :=
  match headerParts 0 header with
  | [start, condition, step] => do
      let start ← resolveTokenList scope start
      let condition ←
        if condition.isEmpty then pure none
        else (resolveTokens scope condition).map some
      let step ← resolveTokenList scope step
      return .forLoop start condition step
  | _ => .error (.structural .forParts)

def resolveControl (scope : Scope) (word : String) (header : List String) :
    Except Cause Control :=
  match word with
  | "if" => (resolveTokens scope header).map .ifThen
  | "while" => (resolveTokens scope header).map .whileLoop
  | _ => resolveForHeader scope header

/-- The name and the initial value of a local variable, from what follows its type. -/
def localDeclaration (scope : Scope) (ty : Ty) (tokens : List String) : Except Cause Effect := do
  let tokens ← (withoutSemicolon tokens).mapError .structural
  match tokens with
  | [name] => return .declares ty name none
  | name :: equals :: first :: rest =>
      if equals = "=" then return .declares ty name (← resolveTokens scope (first :: rest))
      else .error (.declaration (.malformedLocal ty))
  | _ => .error (.declaration (.malformedLocal ty))

/-- A statement without a body that begins with `word`. -/
def simpleStatement (scope : Scope) (kind : BodyKind) (line : Nat) (word : String)
    (rest : List String) : Except Cause Statement :=
  match word with
  | "return" => do
      let tokens ← (withoutSemicolon rest).mapError .structural
      if tokens.isEmpty then return .ret line none
      else return .ret line (some (← resolveTokens scope tokens))
  | "state" =>
      if kind = .event then
        ((singleName "state" rest).mapError .structural).map (.stateChange line)
      else .error (.structural .functionStateChange)
  | "jump" => ((singleName "jump" rest).mapError .structural).map (.jump line)
  | "@" => ((singleName "@" rest).mapError .structural).map (.label line)
  | _ => do
      let tokens ← (withoutSemicolon (word :: rest)).mapError .structural
      return .expression line (← resolveTokens scope tokens)

/-- What the tokens of a line, read for a place, do there. -/
def readEffect (scope : Scope) (kind : BodyKind) (line : Nat) (hole : Hole)
    (tokens : List String) : Except Cause Effect :=
  match tokens with
  | [] => .error (.structural (if hole.isStatement then .noStatement else .noBody))
  | word :: rest =>
      if word = "\x7b" ∧ rest = [] then .ok (.opens hole)
      else if word = "\x7d" then .error (.structural .strayBrace)
      else if word = ";" ∧ rest = [] then .ok (.complete hole (.empty line))
      else if word = "else" then .error (.structural .strayElse)
      else if word ∈ headedWords then
        match cut : splitHeader word rest with
        | .error cause => .error (.structural cause)
        | .ok (header, after) =>
            match resolveControl scope word header with
            | .error cause => .error cause
            | .ok control =>
                have := splitHeader_length cut
                readEffect scope kind line (.body control hole) after
      else if word = "do" then
        if rest = ["\x7b"] then .ok (.opensDo hole) else .error (.structural .doBrace)
      else if isDirective word then .error (.structural (.directive word))
      else
        match Ty.ofWord? word with
        | some ty =>
            if hole.isStatement then localDeclaration scope ty rest
            else .error (.structural .bareDeclaration)
        | none => (simpleStatement scope kind line word rest).map (.complete hole)
termination_by tokens.length

end LslFront
