import LslFront.Operator

/-!
# Expressions

The tree of an expression as it is written.  Leaves keep their token: what a name or a literal
means is settled later.  Groups keep their children in a list, although a well-formed group has
exactly one, and a member access is a binary operation whose right side is the name as a leaf.
-/

namespace LslFront

/-- An expression as it is written. -/
inductive Expr where
  /-- An identifier, a number or a quoted literal. -/
  | value (token : String)
  | binary (op : BinaryOp) (left right : Expr)
  | unary (op : UnaryOp) (operand : Expr)
  | suffix (op : SuffixOp) (operand : Expr)
  /-- Between round brackets. -/
  | group (children : List Expr)
  /-- Between square brackets. -/
  | list (items : List Expr)
  /-- Between `<` and `>`: a vector or a rotation, by the number of its components. -/
  | angle (components : List Expr)
  | call (name : String) (args : List Expr)
deriving BEq, Repr

def Expr.isLeaf (token : String) : Expr → Bool
  | .value found => found == token
  | _ => false

end LslFront
