import LslFront.Binary64

/-!
# Fixed places

A double written with a fixed number of places after the point.  The number is taken exactly and
rounded once, a half going to the even neighbour; a number that rounds to zero keeps its sign.
-/

namespace LslFront

/-- The integer nearest to `num / den`; halfway, the even one. -/
def divHalfEven (num den : Nat) : Nat :=
  let q := num / den
  let r := num % den
  if 2 * r < den then q
  else if 2 * r = den then q + q % 2
  else q + 1

def padZeros (width : Nat) (digits : List Char) : List Char :=
  List.replicate (width - digits.length) '0' ++ digits

/-- A natural number with a point before its last `places` digits. -/
def pointed (places n : Nat) : List Char :=
  let digits := padZeros (places + 1) (Nat.toDigits 10 n)
  let whole := digits.length - places
  digits.take whole ++ '.' :: digits.drop whole

def fixedText (places : Nat) (x : Float) : String :=
  match Binary64.ofFloat x with
  | .nan => "NaN"
  | .infinite negative => if negative then "-inf" else "inf"
  | .finite negative significand exponent =>
      let scaled :=
        divHalfEven (significand * Nat.pow 10 places * Nat.pow 2 exponent.toNat) (Nat.pow 2 (-exponent).toNat)
      let text := pointed places scaled
      .ofList (if negative then '-' :: text else text)

end LslFront
