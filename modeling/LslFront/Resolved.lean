import LslFront.Constant
import LslFront.Operator

/-!
# Resolved expressions

The tree of an expression after its constant parts have been computed.  A node that is not a
constant is kept for the running script, with its operands resolved.
-/

namespace LslFront

/-- An expression whose constant parts have been computed. -/
inductive Resolved where
  | constant (value : Constant)
  | variable (name : String)
  | binary (op : BinaryOp) (left right : Resolved)
  | member (object : Resolved) (name : String)
  | unary (op : UnaryOp) (operand : Resolved)
  | suffix (op : SuffixOp) (operand : Resolved)
  | call (name : String) (args : List Resolved)
  | list (items : List Resolved)
  | vector (components : List Resolved)
  | rotation (components : List Resolved)
deriving BEq, Repr

namespace Resolved

/-- The value, if the expression has been reduced to one. -/
def constant? : Resolved → Option Constant
  | constant value => some value
  | _ => none

def isConstant (resolved : Resolved) : Bool :=
  resolved.constant?.isSome

end Resolved

end LslFront
