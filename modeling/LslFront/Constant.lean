import LslFront.Binary64
import LslFront.Space
import LslFront.Ty

/-!
# Constants

The values that an expression can be reduced to before the script runs: 32-bit integers, doubles,
strings, vectors and rotations.  A key is a string and a list is never reduced, so the kinds of
constants are five of the seven types.
-/

namespace LslFront

abbrev Vector := Vec3 Float

abbrev Rotation := Quat Float

/-- A value that is known before the script runs. -/
inductive Constant where
  | integer (value : Int32)
  | float (value : Float)
  | string (value : String)
  | vector (value : Vector)
  | rotation (value : Rotation)
deriving DecidableEq, Repr

/-- A double from an integer; every integer of 32 bits is one. -/
def ofInteger (i : Int32) : Float :=
  .ofInt i.toInt

namespace Constant

def kind : Constant → Ty
  | integer _ => .integer
  | float _ => .float
  | string _ => .string
  | vector _ => .vector
  | rotation _ => .rotation

/-- The value as a double, if the constant is a number. -/
def number? : Constant → Option Float
  | integer i => some (ofInteger i)
  | float f => some f
  | _ => none

/-- The truth values of a script are the integers one and zero. -/
def ofBool (b : Bool) : Constant :=
  integer (if b then 1 else 0)

/-- The value with its sign changed, which a string does not have.  The least integer is its own
    negative. -/
def negated? : Constant → Option Constant
  | integer i => some (integer (-i))
  | float f => some (float (-f))
  | vector v => some (vector (v.map (-·)))
  | rotation r => some (rotation (r.map (-·)))
  | string _ => none

end Constant

/-- A double made an integer: the fraction is dropped and the rest is reduced modulo `2 ^ 32`.
    What is not finite, or too large to be counted in 64 bits, gives the least integer; the bound
    is the double `2 ^ 63 - 1024`. -/
def truncateToInteger (f : Float) : Int32 :=
  match Binary64.ofFloat f with
  | .finite negative significand exponent =>
      let magnitude := Binary64.floorMagnitude significand exponent
      if magnitude ≥ Nat.pow 2 63 - 1024 then Int32.minValue
      else .ofInt (if negative then -(magnitude : Int) else magnitude)
  | _ => Int32.minValue

end LslFront
