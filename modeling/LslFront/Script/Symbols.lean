import LslFront.Builtin.Function
import LslFront.Builtin.Word
import LslFront.Resolved.Resolve
import LslFront.Script

/-!
# Symbols

The names in force while a script is being read: what has been declared at top level, and a stack
of scopes for the blocks that are open.  A new name must be an identifier and must not be held by
anything visible; of the open scopes only the innermost counts, so an inner block may reuse a name
of an outer one.
-/

namespace LslFront

/-- The script so far and the scopes of the open blocks, innermost first. -/
structure Symbols where
  script : Script
  scopes : List (Table Ty)
deriving Repr

namespace Symbols

def ofDialect (dialect : Dialect) : Symbols :=
  ⟨.blank dialect, []⟩

def dialect (symbols : Symbols) : Dialect :=
  symbols.script.dialect

def depth (symbols : Symbols) : Nat :=
  symbols.scopes.length

def openScope (symbols : Symbols) : Symbols :=
  { symbols with scopes := .empty :: symbols.scopes }

def closeScope (symbols : Symbols) : Except Cause Symbols :=
  match symbols.scopes with
  | [] => .error (.defect .noScopeToClose)
  | _ :: outer => .ok { symbols with scopes := outer }

/-- What already holds a name. -/
def holder? (symbols : Symbols) (name : String) : Option Holder :=
  if Builtin.isReserved name then some .reservedWord
  else if (Builtin.function? name symbols.dialect).isSome then some .builtinFunction
  else if (Builtin.constant? name symbols.dialect).isSome then some .builtinConstant
  else if symbols.script.globals.contains name then some .global
  else if symbols.script.functions.contains name then some .function
  else if symbols.scopes.head?.any (·.contains name) then some .local
  else none

/-- May a new name be declared here? -/
def checkNew (symbols : Symbols) (name : String) : Except Cause Unit :=
  if isIdentifier name then
    match symbols.holder? name with
    | some holder => .error (.declaration (.collision name holder))
    | none => .ok ()
  else .error (.declaration (.notIdentifier name))

/-- Declare a parameter or a local variable in the innermost scope. -/
def declare (symbols : Symbols) (name : String) (ty : Ty) : Except Cause Symbols := do
  symbols.checkNew name
  match symbols.scopes with
  | [] => .error (.defect .localOutsideScope)
  | innermost :: outer => return { symbols with scopes := innermost.insert name ty :: outer }

def declareAll (symbols : Symbols) : List Parameter → Except Cause Symbols
  | [] => .ok symbols
  | param :: rest => do
      let symbols ← symbols.declare param.name param.ty
      symbols.declareAll rest

/-- Is the name a variable, of an open block or of the whole script? -/
def isVariable (symbols : Symbols) (name : String) : Bool :=
  symbols.scopes.any (·.contains name) || symbols.script.globals.contains name

/-- What names mean in an expression that stands here. -/
def scope (symbols : Symbols) : Scope :=
  ⟨symbols.dialect, symbols.isVariable⟩

end Symbols

end LslFront
