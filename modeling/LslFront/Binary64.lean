/-!
# Binary64 numbers taken apart

A finite double is `± significand · 2 ^ exponent` with a natural significand below `2 ^ 53`.
Truncation, the exact remainder and all printing work on that form in exact arithmetic, so none
of them rounds in between.
-/

namespace LslFront

/-- A double by its kind. -/
inductive Binary64 where
  | finite (negative : Bool) (significand : Nat) (exponent : Int)
  | infinite (negative : Bool)
  | nan
deriving DecidableEq, Repr

namespace Binary64

def minExponent : Int := -1074

/-- The number that 64 bits stand for. -/
def ofBits (bits : Nat) : Binary64 :=
  let negative := bits / Nat.pow 2 63 % 2 == 1
  let field := bits / Nat.pow 2 52 % Nat.pow 2 11
  let fraction := bits % Nat.pow 2 52
  if field = 2047 then if fraction = 0 then .infinite negative else .nan
  else if field = 0 then .finite negative fraction minExponent
  else .finite negative (Nat.pow 2 52 + fraction) (minExponent + (field - 1 : Nat))

def ofFloat (x : Float) : Binary64 :=
  ofBits x.toBits.toNat

/-- The bits of `significand · 2 ^ exponent`, for a significand below `2 ^ 53` and an exponent
    that is not below the least.  The significand moves up as far as it can. -/
def magnitudeBits (significand : Nat) (exponent : Int) : Nat :=
  let room := 52 - significand.log2
  let shift := min room (exponent - minExponent).toNat
  let significand := significand * Nat.pow 2 shift
  if significand < Nat.pow 2 52 then significand
  else significand - Nat.pow 2 52 + ((exponent - shift - minExponent).toNat + 1) * Nat.pow 2 52

def toFloat : Binary64 → Float
  | .finite negative significand exponent =>
      .ofBits (.ofNat (magnitudeBits significand exponent + if negative then Nat.pow 2 63 else 0))
  | .infinite negative => .ofBits (.ofNat (2047 * Nat.pow 2 52 + if negative then Nat.pow 2 63 else 0))
  | .nan => .ofBits (.ofNat (2047 * Nat.pow 2 52 + Nat.pow 2 51))

def floorMagnitude (significand : Nat) (exponent : Int) : Nat :=
  significand * Nat.pow 2 exponent.toNat / Nat.pow 2 (-exponent).toNat

/-- What is left of `a` when the multiples of `b` are taken away, with the sign of `a`.  Both are
    brought to one exponent, where the remainder of natural numbers is exact. -/
def remainder : Binary64 → Binary64 → Binary64
  | .finite negative s e, .finite _ t f =>
      if t = 0 then .nan
      else
        let g := min e f
        .finite negative (s * Nat.pow 2 (e - g).toNat % (t * Nat.pow 2 (f - g).toNat)) g
  | .finite negative s e, .infinite _ => .finite negative s e
  | _, _ => .nan

end Binary64

def floatRemainder (x y : Float) : Float :=
  ((Binary64.ofFloat x).remainder (Binary64.ofFloat y)).toFloat

end LslFront
