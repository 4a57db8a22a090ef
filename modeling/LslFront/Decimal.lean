import LslFront.Text

/-!
# Decimal numbers

A decimal number is written as digits with at most one point among or before them, then perhaps
an exponent: `12`, `1.`, `1.5`, `.5`, each also with `e3`, `E-3` and the like.  The reader takes
the longest such beginning of a text; an exponent mark without digits after it is not part of
the number.

The value `digits · 10 ^ exponent` is kept exactly and rounded once, to the nearest double.
-/

namespace LslFront

/-- The number `digits · 10 ^ exponent`, without sign. -/
structure Decimal where
  digits : Nat
  exponent : Int
deriving DecidableEq, Repr

namespace Decimal

def digitValue (c : Char) : Nat :=
  c.toNat - '0'.toNat

def natural (row : List Char) : Nat :=
  row.foldl (fun n c => 10 * n + digitValue c) 0

def row (cs : List Char) : List Char × List Char :=
  cs.span Char.isDigit

/-- An exponent at the front of a text, and what follows it; `0` and the whole text if there is
    none. -/
def exponentPrefix (cs : List Char) : Int × List Char :=
  match cs with
  | mark :: rest =>
      if mark = 'e' ∨ mark = 'E' then
        let (negative, digits) : Bool × List Char :=
          match rest with
          | '-' :: digits => (true, digits)
          | '+' :: digits => (false, digits)
          | digits => (false, digits)
        match row digits with
        | ([], _) => (0, cs)
        | (power, after) =>
            (if negative then -(natural power : Int) else natural power, after)
      else (0, cs)
  | [] => (0, cs)

/-- The longest decimal number at the front of a text, and what follows it. -/
def read? (cs : List Char) : Option (Decimal × List Char) :=
  let (whole, afterWhole) := row cs
  let (fraction, rest) :=
    match afterWhole with
    | '.' :: tail => row tail
    | _ => ([], afterWhole)
  if whole.isEmpty && fraction.isEmpty then none
  else
    let (power, after) := exponentPrefix rest
    some (⟨natural (whole ++ fraction), power - fraction.length⟩, after)

/-- The decimal number that a whole text writes. -/
def ofText? (cs : List Char) : Option Decimal :=
  match read? cs with
  | some (number, []) => some number
  | _ => none

def digitCount (n : Nat) : Nat :=
  (Nat.toDigits 10 n).length

/-- The nearest double.  Numbers beyond the greatest double by a factor of ten are infinite, and
    those below the least by a factor of ten are zero, whatever their exact value. -/
def toFloat (number : Decimal) : Float :=
  let magnitude := digitCount number.digits + number.exponent
  if number.digits = 0 ∨ magnitude < -330 then 0.0
  else if magnitude > 320 then 1.0 / 0.0
  else .ofScientific number.digits (number.exponent < 0) number.exponent.natAbs

end Decimal

end LslFront
