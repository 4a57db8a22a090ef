import LslFront.Block
import LslFront.Dialect
import LslFront.Line
import LslFront.Table

/-!
# Scripts

What is known of a script when it has been read: its global variables, its functions, and its
states with their event handlers, each table in the order of declaration.
-/

namespace LslFront

structure Parameter where
  ty : Ty
  name : String
deriving DecidableEq, Repr

/-- A global variable.  The initializer is kept as written, beside its resolved form. -/
structure Global where
  ty : Ty
  line : Nat
  initializer : Option Line
  value : Option Resolved
deriving Repr

/-- A function of the script; one without a return type gives no value. -/
structure Function where
  returnType : Option Ty
  params : List Parameter
  body : Block
  line : Nat
deriving Repr

/-- What a state does when an event arrives. -/
structure Handler where
  params : List Parameter
  body : Block
  line : Nat
deriving Repr

structure ScriptState where
  line : Nat
  events : Table Handler
deriving Repr

/-- A script that has been read. -/
structure Script where
  dialect : Dialect
  globals : Table Global
  functions : Table Function
  states : Table ScriptState
  includes : List String
deriving Repr

def Script.blank (dialect : Dialect) : Script :=
  ⟨dialect, .empty, .empty, .empty, []⟩

end LslFront
