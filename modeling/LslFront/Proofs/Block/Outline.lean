import LslFront.Block.Reader
import LslFront.Proofs.Block.Header
import LslFront.Proofs.Resolved.Tokens

/-!
# Outlines of bodies

An outline is a body without the numbers of its lines.  A written outline holds the words and the
tokens that a script has; a resolved one holds what they stand for.  `Outline.lines` writes an
outline as logical lines, `Outline.resolve` replaces each expression by its resolution, with the
names in force where it stands, and `Block.unnumbered` is what a block says when its line numbers
are forgotten.  None of them knows how lines are read.
-/

namespace LslFront

/-! ### Trees -/

mutual

/-- A statement by its shape, with types of kind `τ` and expressions of kind `ε`. -/
inductive Outline (τ ε : Type) where
  | expression (value : ε)
  | declaration (ty : τ) (name : String) (value : Option ε)
  | ret (value : Option ε)
  | stateChange (target : String)
  | jump (label : String)
  | label (name : String)
  /-- A braced block that stands by itself. -/
  | block (statements : List (Outline τ ε))
  | ifThen (condition : ε) (thenBranch : OutlineBody τ ε)
  | ifElse (condition : ε) (thenBranch elseBranch : OutlineBody τ ε)
  | whileLoop (condition : ε) (body : OutlineBody τ ε)
  | doWhile (statements : List (Outline τ ε)) (condition : ε)
  | forLoop (start : List ε) (condition : Option ε) (step : List ε) (body : OutlineBody τ ε)
  | empty

/-- The body of a control statement. -/
inductive OutlineBody (τ ε : Type) where
  | braced (statements : List (Outline τ ε))
  | single (statement : Outline τ ε)

end

/-- A word together with the type that it names. -/
structure TypeWord where
  word : String
  ty : Ty
  names : Ty.ofWord? word = some ty

/-- An outline as it is written: type words, and the tokens of expressions. -/
abbrev Written := Outline TypeWord (List String)

abbrev WrittenBody := OutlineBody TypeWord (List String)

abbrev Meant := Outline Ty Resolved

abbrev MeantBody := OutlineBody Ty Resolved

/-! ### Writing -/

def forHeader (start : List (List String)) (condition : Option (List String))
    (step : List (List String)) : List String :=
  commaSeparated start ++ ";" :: (condition.getD [] ++ ";" :: commaSeparated step)

mutual

/-- The logical lines of a statement whose first line begins with the tokens `before`. -/
def Outline.lines (before : List String) : Written → List (List String)
  | .expression value => [before ++ value ++ [";"]]
  | .declaration ty name none => [before ++ [ty.word, name, ";"]]
  | .declaration ty name (some value) => [before ++ ty.word :: name :: "=" :: value ++ [";"]]
  | .ret none => [before ++ ["return", ";"]]
  | .ret (some value) => [before ++ "return" :: value ++ [";"]]
  | .stateChange target => [before ++ ["state", target, ";"]]
  | .jump label => [before ++ ["jump", label, ";"]]
  | .label name => [before ++ ["@", name, ";"]]
  | .block statements => (before ++ ["\x7b"]) :: (linesOfAll statements ++ [["\x7d"]])
  | .ifThen condition thenBranch =>
      thenBranch.lines (before ++ "if" :: "(" :: condition ++ [")"])
  | .ifElse condition thenBranch elseBranch =>
      thenBranch.lines (before ++ "if" :: "(" :: condition ++ [")"]) ++ elseBranch.lines ["else"]
  | .whileLoop condition body => body.lines (before ++ "while" :: "(" :: condition ++ [")"])
  | .doWhile statements condition =>
      (before ++ ["do", "\x7b"]) :: (linesOfAll statements
        ++ [["\x7d"], "while" :: "(" :: condition ++ [")", ";"]])
  | .forLoop start condition step body =>
      body.lines (before ++ "for" :: "(" :: forHeader start condition step ++ [")"])
  | .empty => [before ++ [";"]]

def OutlineBody.lines (before : List String) : WrittenBody → List (List String)
  | .braced statements => (before ++ ["\x7b"]) :: (linesOfAll statements ++ [["\x7d"]])
  | .single statement => statement.lines before

def linesOfAll : List Written → List (List String)
  | [] => []
  | statement :: rest => statement.lines [] ++ linesOfAll rest

end

/-! ### Open ifs -/

mutual

/-- Does the statement end in an `if` that an else on the next line would belong to? -/
def Outline.isOpen {τ ε : Type} : Outline τ ε → Bool
  | .ifThen _ _ => true
  | .ifElse _ _ elseBranch => elseBranch.isOpen
  | .whileLoop _ body => body.isOpen
  | .forLoop _ _ _ body => body.isOpen
  | _ => false

/-- Does the body end in an `if` that an else on the next line would belong to?  A brace closes
    every `if` inside it. -/
def OutlineBody.isOpen {τ ε : Type} : OutlineBody τ ε → Bool
  | .braced _ => false
  | .single statement => statement.isOpen

end

/-! ### What can be written -/

/-- May the statement stand as a body without braces? -/
def Outline.isBodied {τ ε : Type} : Outline τ ε → Bool
  | .declaration .. => false
  | .block _ => false
  | _ => true

mutual

/-- A statement that can be written where it stands: it changes the state only in an event
    handler, its names are identifiers, no control word stands in a header, no body without braces
    is a declaration or a block, and no then branch takes the else that follows it. -/
def Outline.isWritable (kind : BodyKind) : Written → Bool
  | .expression _ | .declaration .. | .ret _ | .empty => true
  | .stateChange target => kind == .event && isIdentifier target
  | .jump label => isIdentifier label
  | .label name => isIdentifier name
  | .block statements => allWritable kind statements
  | .ifThen condition thenBranch => isUncontrolled condition && thenBranch.isWritable kind
  | .ifElse condition thenBranch elseBranch =>
      isUncontrolled condition && thenBranch.isWritable kind && !thenBranch.isOpen
        && elseBranch.isWritable kind
  | .whileLoop condition body => isUncontrolled condition && body.isWritable kind
  | .doWhile statements condition => allWritable kind statements && isUncontrolled condition
  | .forLoop start condition step body =>
      start.all isUncontrolled && condition.all isUncontrolled && step.all isUncontrolled
        && body.isWritable kind

def OutlineBody.isWritable (kind : BodyKind) : WrittenBody → Bool
  | .braced statements => allWritable kind statements
  | .single statement => statement.isBodied && statement.isWritable kind

def allWritable (kind : BodyKind) : List Written → Bool
  | [] => true
  | statement :: rest => statement.isWritable kind && allWritable kind rest

end

/-! ### Resolving -/

def resolveOptional (scope : Scope) : Option (List String) → Except Cause (Option Resolved)
  | none => .ok none
  | some tokens => (resolveTokens scope tokens).map some

/-- The symbols after a statement of a block: a declaration adds its name to the innermost scope,
    and what is declared in an inner block is gone after it. -/
def Outline.declare (symbols : Symbols) : Written → Except Cause Symbols
  | .declaration ty name _ => symbols.declare name ty.ty
  | _ => .ok symbols

mutual

/-- The statement with each expression replaced by its resolution where it stands. -/
def Outline.resolve (symbols : Symbols) : Written → Except Cause Meant
  | .expression value => return .expression (← resolveTokens symbols.scope value)
  | .declaration ty name value =>
      return .declaration ty.ty name (← resolveOptional symbols.scope value)
  | .ret value => return .ret (← resolveOptional symbols.scope value)
  | .stateChange target => return .stateChange target
  | .jump label => return .jump label
  | .label name => return .label name
  | .block statements => return .block (← resolveStatements symbols.openScope statements).2
  | .ifThen condition thenBranch =>
      return .ifThen (← resolveTokens symbols.scope condition) (← thenBranch.resolve symbols)
  | .ifElse condition thenBranch elseBranch =>
      return .ifElse (← resolveTokens symbols.scope condition) (← thenBranch.resolve symbols)
        (← elseBranch.resolve symbols)
  | .whileLoop condition body =>
      return .whileLoop (← resolveTokens symbols.scope condition) (← body.resolve symbols)
  | .doWhile statements condition => do
      let (_, statements) ← resolveStatements symbols.openScope statements
      return .doWhile statements (← resolveTokens symbols.scope condition)
  | .forLoop start condition step body =>
      return .forLoop (← start.mapM (resolveTokens symbols.scope))
        (← resolveOptional symbols.scope condition) (← step.mapM (resolveTokens symbols.scope))
        (← body.resolve symbols)
  | .empty => return .empty

def OutlineBody.resolve (symbols : Symbols) : WrittenBody → Except Cause MeantBody
  | .braced statements => return .braced (← resolveStatements symbols.openScope statements).2
  | .single statement => return .single (← statement.resolve symbols)

/-- The statements of a block with each expression replaced by its resolution where it stands, and
    the symbols after the last. -/
def resolveStatements (symbols : Symbols) : List Written → Except Cause (Symbols × List Meant)
  | [] => .ok (symbols, [])
  | statement :: rest => do
      let first ← statement.resolve symbols
      let (symbols, others) ← resolveStatements (← statement.declare symbols) rest
      return (symbols, first :: others)

end

/-- Only a declaration changes the symbols, and none is a body without braces. -/
theorem Outline.declare_of_isBodied {statement : Written} (h : statement.isBodied)
    (symbols : Symbols) : statement.declare symbols = .ok symbols := by
  cases statement with
  | declaration => cases h
  | _ => rfl

/-! ### Blocks without line numbers -/

mutual

/-- The statement with this outline, all of it on line zero. -/
def Outline.statement : Meant → Statement
  | .expression value => .expression 0 value
  | .declaration ty name value => .declaration 0 ty name value
  | .ret value => .ret 0 value
  | .stateChange target => .stateChange 0 target
  | .jump label => .jump 0 label
  | .label name => .label 0 name
  | .block statements => .block 0 (.mk 0 true (statementsOf statements))
  | .ifThen condition thenBranch => .ifThen 0 condition thenBranch.block
  | .ifElse condition thenBranch elseBranch =>
      .ifElse 0 condition thenBranch.block elseBranch.block
  | .whileLoop condition body => .whileLoop 0 condition body.block
  | .doWhile statements condition => .doWhile 0 (.mk 0 true (statementsOf statements)) condition
  | .forLoop start condition step body => .forLoop 0 start condition step body.block
  | .empty => .empty 0

def OutlineBody.block : MeantBody → Block
  | .braced statements => .mk 0 true (statementsOf statements)
  | .single statement => .mk 0 false [statement.statement]

def statementsOf : List Meant → List Statement
  | [] => []
  | statement :: rest => statement.statement :: statementsOf rest

end

mutual

def Statement.unnumbered : Statement → Statement
  | .expression _ value => .expression 0 value
  | .declaration _ ty name value => .declaration 0 ty name value
  | .ret _ value => .ret 0 value
  | .stateChange _ target => .stateChange 0 target
  | .jump _ label => .jump 0 label
  | .label _ name => .label 0 name
  | .block _ body => .block 0 body.unnumbered
  | .ifThen _ condition thenBranch => .ifThen 0 condition thenBranch.unnumbered
  | .ifElse _ condition thenBranch elseBranch =>
      .ifElse 0 condition thenBranch.unnumbered elseBranch.unnumbered
  | .whileLoop _ condition body => .whileLoop 0 condition body.unnumbered
  | .doWhile _ body condition => .doWhile 0 body.unnumbered condition
  | .forLoop _ start condition step body => .forLoop 0 start condition step body.unnumbered
  | .empty _ => .empty 0

def Block.unnumbered : Block → Block
  | .mk _ braced statements => .mk 0 braced (allUnnumbered statements)

def allUnnumbered : List Statement → List Statement
  | [] => []
  | statement :: rest => statement.unnumbered :: allUnnumbered rest

end

/-! ### Induction -/

def OutlineBody.statements {τ ε : Type} : OutlineBody τ ε → List (Outline τ ε)
  | .braced statements => statements
  | .single statement => [statement]

/-- What holds of every outline, given that it holds of the statements inside. -/
@[elab_as_elim]
theorem Outline.induction {τ ε : Type} {P : Outline τ ε → Prop}
    (expression : ∀ value, P (.expression value))
    (declaration : ∀ ty name value, P (.declaration ty name value))
    (ret : ∀ value, P (.ret value))
    (stateChange : ∀ target, P (.stateChange target))
    (jump : ∀ label, P (.jump label))
    (label : ∀ name, P (.label name))
    (block : ∀ statements, (∀ s ∈ statements, P s) → P (.block statements))
    (ifThen : ∀ condition thenBranch, (∀ s ∈ thenBranch.statements, P s) →
      P (.ifThen condition thenBranch))
    (ifElse : ∀ condition thenBranch elseBranch, (∀ s ∈ thenBranch.statements, P s) →
      (∀ s ∈ elseBranch.statements, P s) → P (.ifElse condition thenBranch elseBranch))
    (whileLoop : ∀ condition body, (∀ s ∈ body.statements, P s) → P (.whileLoop condition body))
    (doWhile : ∀ statements condition, (∀ s ∈ statements, P s) →
      P (.doWhile statements condition))
    (forLoop : ∀ start condition step body, (∀ s ∈ body.statements, P s) →
      P (.forLoop start condition step body))
    (empty : P .empty) (outline : Outline τ ε) : P outline := by
  refine @Outline.rec τ ε P (fun body => ∀ s ∈ body.statements, P s)
    (fun statements => ∀ s ∈ statements, P s) expression declaration ret stateChange jump label
    block ifThen ifElse whileLoop doWhile forLoop empty (fun _ h => h) ?_
    (fun s hs => absurd hs List.not_mem_nil) ?_ outline
  · intro statement hstatement s hs
    rw [List.mem_singleton.mp hs]
    exact hstatement
  · intro first rest hfirst hrest s hs
    rcases List.mem_cons.mp hs with rfl | hs
    · exact hfirst
    · exact hrest s hs

end LslFront
