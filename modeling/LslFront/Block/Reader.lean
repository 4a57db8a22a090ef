import LslFront.Block.Effect
import LslFront.Script.Symbols
import LslFront.Source.Machine

/-!
# Reading bodies

The lines of a body are read after the `{` that opens it, up to its own `}`.  The blocks that are
open form a stack: each block that waits for an inner one remembers its own statements and the
place that the inner block is for.  Opening a block inside the body opens a scope for names, and
closing it closes that scope; the scope of the body itself belongs to whoever reads the body.

A `do` block that has been closed is not a statement yet: the line after it must be its `while`.
-/

namespace LslFront

/-- A block that waits for one inside it. -/
structure Waiting where
  line : Nat
  statements : List Statement
  /-- What the inner block is for. -/
  hole : Hole
  /-- Is the inner block that of a `do`? -/
  isDo : Bool
deriving Repr

/-- A body under way. -/
structure Body where
  /-- The line that opened the innermost block. -/
  line : Nat
  /-- The statements of the innermost block. -/
  statements : List Statement
  /-- The blocks around it, innermost first. -/
  waiting : List Waiting
  /-- The block of a `do` that waits for its `while`, and the place of that statement. -/
  doBlock : Option (Hole × Block)
deriving Repr

namespace Body

def opened (line : Nat) : Body :=
  ⟨line, [], [], none⟩

def put (body : Body) (hole : Hole) (statement : Statement) : Body :=
  { body with statements := hole.putStatement body.statements statement }

def descend (body : Body) (line : Nat) (hole : Hole) (isDo : Bool) : Body :=
  ⟨line, [], ⟨body.line, body.statements, hole, isDo⟩ :: body.waiting, none⟩

inductive Progress where
  | more (symbols : Symbols) (body : Body)
  | finished (symbols : Symbols) (block : Block)

/-- A `}`: the innermost block is complete. -/
def close (symbols : Symbols) (body : Body) : Except Fault Progress :=
  let block := Block.mk body.line true body.statements
  match body.waiting with
  | [] => .ok (.finished symbols block)
  | outer :: others => do
      let symbols ← onLine body.line symbols.closeScope
      if outer.isDo then
        return .more symbols ⟨outer.line, outer.statements, others, some (outer.hole, block)⟩
      else
        let statements := outer.hole.putBlock outer.statements block
        return .more symbols ⟨outer.line, statements, others, none⟩

def closeDo (symbols : Symbols) (body : Body) (hole : Hole) (block : Block) :
    List String → Except Cause Progress
  | [] => .error (.structural .doWhile)
  | word :: rest =>
      if word = "while" then do
        let (header, after) ← (splitHeader word rest).mapError .structural
        if after = [";"] then
          let condition ← resolveTokens symbols.scope header
          let statement := Statement.doWhile block.line block condition
          return .more symbols { body.put hole statement with doBlock := none }
        else .error (.structural .doSemicolon)
      else .error (.structural .doWhile)

/-- What a line that has been understood does to the body. -/
def apply (symbols : Symbols) (body : Body) (line : Nat) : Effect → Except Cause Progress
  | .complete hole statement => .ok (.more symbols (body.put hole statement))
  | .declares ty name value => do
      let symbols ← symbols.declare name ty
      return .more symbols (body.put .statement (.declaration line ty name value))
  | .opens hole => .ok (.more symbols.openScope (body.descend line hole false))
  | .opensDo hole => .ok (.more symbols.openScope (body.descend line hole true))

def readStatement (symbols : Symbols) (kind : BodyKind) (body : Body) (line : Line) :
    Except Cause Progress :=
  match line.tokens with
  | "else" :: rest =>
      if takesElse body.statements then do
        body.apply symbols line.number
          (← readEffect symbols.scope kind line.number .elseBranch rest)
      else .error (.structural .strayElse)
  | tokens => do
      body.apply symbols line.number
        (← readEffect symbols.scope kind line.number .statement tokens)

def step (symbols : Symbols) (kind : BodyKind) (body : Body) (line : Line) :
    Except Fault Progress :=
  match body.doBlock with
  | some (hole, block) => onLine line.number (body.closeDo symbols hole block line.tokens)
  | none =>
      if line.tokens = ["\x7d"] then body.close symbols
      else onLine line.number (body.readStatement symbols kind line)

/-- The source ends inside the body.  The number is that of the last line. -/
def atEnd (body : Body) (lastLine : Nat) : Fault :=
  match body.doBlock with
  | some (_, block) => ⟨.structural .doWhile, block.line⟩
  | none => ⟨.structural (.openBlock body.line), lastLine⟩

/-- The machine that reads one body and stops after its `}`. -/
def machine (kind : BodyKind) : Machine (Symbols × Body) (Symbols × Block) where
  step := fun (symbols, body) line => do
    match ← body.step symbols kind line with
    | .more symbols body => return .more (symbols, body)
    | .finished symbols block => return .finished (symbols, block)
  atEnd := fun (_, body) lastLine => .error (body.atEnd lastLine)

end Body

/-- Read a body that was opened on `line` and begins at this place of the source.  It declares its
    variables in the innermost scope of the symbols. -/
def readBody {limit : Nat} (symbols : Symbols) (kind : BodyKind) (line : Nat)
    (source : Source limit) : Except Fault ((Symbols × Block) × Source limit) :=
  source.run (Body.machine kind) .none (symbols, .opened line)

end LslFront
