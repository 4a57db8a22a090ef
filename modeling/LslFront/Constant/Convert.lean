import LslFront.Constant.Printing
import LslFront.Constant.Reading
import LslFront.Operator

/-!
# Converting constants

What casts and the operators before an operand make of one constant.
-/

namespace LslFront.Constant

/-- The constant that a cast gives, for the pairs of kinds that have one.  Every constant has a
    string; a string can be read as any type but a list; and a key is a string. -/
def castTo? (target : Ty) (value : Constant) : Option Constant :=
  match target, value with
  | .string, value => some (string value.text)
  | .key, string s => some (string s)
  | .integer, integer i => some (integer i)
  | .integer, float f => some (integer (truncateToInteger f))
  | .integer, string s => some (integer (integerPrefix s))
  | .float, integer i => some (float (ofInteger i))
  | .float, float f => some (float f)
  | .float, string s => some (float (floatPrefix s))
  | .vector, vector v => some (vector v)
  | .vector, string s => some (vector (vectorOfText s))
  | .rotation, rotation r => some (rotation r)
  | .rotation, string s => some (rotation (rotationOfText s))
  | _, _ => none

/-- The component that a member name selects, as a double.  Only vectors and rotations have any. -/
def component? (value : Constant) (name : String) : Option Float :=
  match value with
  | vector v => v.component? name
  | rotation r => r.component? name
  | _ => none

def hasComponents : Constant → Bool
  | vector _ | rotation _ => true
  | _ => false

end LslFront.Constant
