import LslFront.Constant
import LslFront.Decimal.Fixed

/-!
# Printing constants

The text that a cast to string gives.  Doubles have six places.  The components of a vector or a
rotation have five, but six when the value is an element of a list that is cast.
-/

namespace LslFront.Constant

/-- Components between angle brackets, each with the same number of places. -/
def angleText (places : Nat) (components : List Float) : String :=
  "<" ++ String.intercalate ", " (components.map (fixedText places)) ++ ">"

/-- The text of a constant whose vectors and rotations are written with `places` places. -/
def textWith (places : Nat) : Constant → String
  | integer i => toString i.toInt
  | float f => fixedText 6 f
  | string s => s
  | vector v => angleText places v.toList
  | rotation r => angleText places r.toList

def text : Constant → String :=
  textWith 5

def elementText : Constant → String :=
  textWith 6

/-- A constant as it is shown to a person: its text, with quotes around a string. -/
def shown : Constant → String
  | string s => s!"\"{s}\""
  | value => value.text

end LslFront.Constant
