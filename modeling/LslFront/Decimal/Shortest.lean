import LslFront.Binary64

/-!
# Shortest decimals

A double written with the fewest digits that read back as the same double.  The reals that round
to a double form an interval, whose ends belong to it exactly when its significand is even.  On
the grid of the multiples of a power of ten, the double has two neighbours; if any point of the
grid lies in the interval then one of these does.  So the coarsest grid with a neighbour in the
interval gives the fewest digits.  Of two such neighbours the nearer is taken, and halfway
between them the even one.
-/

namespace LslFront

/-- The number `digits · 10 ^ exponent`. -/
structure ShortDecimal where
  digits : Nat
  exponent : Int
deriving DecidableEq, Repr

namespace ShortDecimal

/-- The neighbour of `significand · 2 ^ exponent` on the grid of `10 ^ grid` that reads back, if
    any does.  All lengths are counted in quarters of the unit `2 ^ exponent`, times `scale`. -/
def onGrid? (significand : Nat) (exponent grid : Int) : Option Nat :=
  let scale := Nat.pow 2 (exponent - 2).toNat * Nat.pow 10 (-grid).toNat
  let cell := Nat.pow 2 (2 - exponent).toNat * Nat.pow 10 grid.toNat
  let value := 4 * significand * scale
  let narrow := significand = Nat.pow 2 52 ∧ Binary64.minExponent < exponent
  let least := (4 * significand - if narrow then 1 else 2) * scale
  let greatest := (4 * significand + 2) * scale
  let closed := significand % 2 = 0
  let below := value / cell
  let above := below + 1
  let belowFits := least < below * cell ∨ (closed ∧ least = below * cell)
  let aboveFits := above * cell < greatest ∨ (closed ∧ above * cell = greatest)
  if belowFits ∧ aboveFits then
    let toBelow := value - below * cell
    let toAbove := above * cell - value
    if toBelow < toAbove ∨ (toBelow = toAbove ∧ below % 2 = 0) then some below else some above
  else if belowFits then some below
  else if aboveFits then some above
  else none

/-- The first of `count` grids, from `grid` to finer ones, that has a fitting neighbour. -/
def firstGrid (significand : Nat) (exponent : Int) : Nat → Int → ShortDecimal
  | 0, grid => ⟨0, grid⟩
  | count + 1, grid =>
      match onGrid? significand exponent grid with
      | some digits => ⟨digits, grid⟩
      | none => firstGrid significand exponent count (grid - 1)

/-- The shortest decimal of a positive double.  The first grid is coarser than the number is
    large, and 17 digits always read back. -/
def ofParts (significand : Nat) (exponent : Int) : ShortDecimal :=
  let size := (significand.log2 + exponent) * 30103 / 100000
  firstGrid significand exponent 21 (size + 2)

def digitChars (number : ShortDecimal) : List Char :=
  Nat.toDigits 10 number.digits

/-- Where the point stands, counted from the front of the digits. -/
def pointPosition (number : ShortDecimal) : Int :=
  number.digitChars.length + number.exponent

/-- All digits with the point in its place and at least one digit on either side of it. -/
def plain (number : ShortDecimal) : List Char :=
  let digits := number.digitChars
  let point := number.pointPosition
  if point ≤ 0 then '0' :: '.' :: (List.replicate (-point).toNat '0' ++ digits)
  else if digits.length ≤ point then
    digits ++ List.replicate (point - digits.length).toNat '0' ++ ['.', '0']
  else digits.take point.toNat ++ '.' :: digits.drop point.toNat

def scientific (number : ShortDecimal) : List Char :=
  let power := number.pointPosition - 1
  let mark := if power < 0 then ['e', '-'] else ['e', '+']
  let mantissa :=
    match number.digitChars with
    | [] => []
    | [d] => [d]
    | d :: rest => d :: '.' :: rest
  mantissa ++ mark ++ Nat.toDigits 10 power.natAbs

/-- Plain between `10 ^ -5` and `10 ^ 16`, scientific outside. -/
def text (number : ShortDecimal) : List Char :=
  if -4 ≤ number.pointPosition ∧ number.pointPosition ≤ 16 then number.plain
  else number.scientific

end ShortDecimal

def shortestText? (x : Float) : Option String :=
  match Binary64.ofFloat x with
  | .finite negative significand exponent =>
      let text :=
        if significand = 0 then ['0', '.', '0']
        else (ShortDecimal.ofParts significand exponent).text
      some (.ofList (if negative then '-' :: text else text))
  | _ => none

end LslFront
