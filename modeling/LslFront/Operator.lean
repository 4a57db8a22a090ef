import LslFront.Ty

/-!
# Operators

The operators of expressions, each with the symbol that a script writes for it.  A binary
operator is an assignment, the member access, or folds two values into one.
-/

namespace LslFront

inductive BinaryOp where
  | add | sub | mul | div | mod
  | shl | shr | bitAnd | bitOr | bitXor
  | and | or
  | eq | ne | lt | gt | le | ge
  /-- As in `v.x`: the right side is a name and not an operand. -/
  | member
  | assign | addAssign | subAssign | mulAssign | divAssign | modAssign
deriving DecidableEq, Repr

namespace BinaryOp

def symbol : BinaryOp → String
  | add => "+"
  | sub => "-"
  | mul => "*"
  | div => "/"
  | mod => "%"
  | shl => "<<"
  | shr => ">>"
  | bitAnd => "&"
  | bitOr => "|"
  | bitXor => "^"
  | and => "&&"
  | or => "||"
  | eq => "=="
  | ne => "!="
  | lt => "<"
  | gt => ">"
  | le => "<="
  | ge => ">="
  | member => "."
  | assign => "="
  | addAssign => "+="
  | subAssign => "-="
  | mulAssign => "*="
  | divAssign => "/="
  | modAssign => "%="

def isAssignment : BinaryOp → Bool
  | assign | addAssign | subAssign | mulAssign | divAssign | modAssign => true
  | _ => false

end BinaryOp

/-- Operators written before their operand. -/
inductive UnaryOp where
  | plus
  | neg
  | not
  | bitNot
  | increment
  | decrement
  | cast (ty : Ty)
deriving DecidableEq, Repr

def UnaryOp.symbol : UnaryOp → String
  | plus => "+"
  | neg => "-"
  | not => "!"
  | bitNot => "~"
  | increment => "++"
  | decrement => "--"
  | cast ty => ty.cast

/-- Operators written after their operand. -/
inductive SuffixOp where
  | increment
  | decrement
deriving DecidableEq, Repr

def SuffixOp.symbol : SuffixOp → String
  | increment => "++"
  | decrement => "--"

end LslFront
