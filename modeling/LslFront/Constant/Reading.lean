import LslFront.Constant
import LslFront.Decimal

/-!
# Reading constants

Two kinds of reading.  A *literal* of a script is read as a whole, and one that does not fit its
grammar is refused.  A *string that is cast* is read as far as it goes: what follows the longest
readable beginning is dropped, and an unreadable string gives the zero of the type.
-/

namespace LslFront

/-! ### Digits -/

/-- The longest row of digits at the front, as values. -/
def digitsPrefix (digit? : Char → Option Nat) : List Char → List Nat
  | [] => []
  | c :: rest =>
      match digit? c with
      | some d => d :: digitsPrefix digit? rest
      | none => []

/-- What is written after `0x`, if the text begins so. -/
def afterHexMark? : List Char → Option (List Char)
  | '0' :: 'x' :: rest => some rest
  | '0' :: 'X' :: rest => some rest
  | _ => none

def wrapDigits (base : Int32) (digits : List Nat) : Int32 :=
  digits.foldl (fun n d => n * base + .ofNat d) 0

/-! ### Strings that are cast -/

/-- A sign at the front, and what follows it. -/
def signPrefix : List Char → Bool × List Char
  | '-' :: rest => (true, rest)
  | '+' :: rest => (false, rest)
  | cs => (false, cs)

/-- The integer at the front of a string: blanks, a sign, then decimal digits, or `0x` and
    hexadecimal digits.  No digits make zero. -/
def integerPrefix (text : String) : Int32 :=
  let (negative, rest) := signPrefix (Text.trimStart text.toList)
  let magnitude :=
    match afterHexMark? rest with
    | some digits => wrapDigits 16 (digitsPrefix Text.hexDigit? digits)
    | none => wrapDigits 10 (digitsPrefix Text.decDigit? rest)
  if negative then -magnitude else magnitude

/-- The double at the front of some characters: a sign, then the longest decimal number.  No
    number makes zero, without the sign. -/
def floatPrefixChars (cs : List Char) : Float :=
  let (negative, rest) := signPrefix (Text.trimStart cs)
  match Decimal.read? rest with
  | some (number, _) => if negative then -number.toFloat else number.toFloat
  | none => 0.0

def floatPrefix (text : String) : Float :=
  floatPrefixChars text.toList

/-- The numbers written between `<` and `>` with commas between them; no part may be blank. -/
def components? (text : String) : Option (List Float) := do
  let inner ← Text.between? '<' '>' (Text.trim text.toList)
  let parts := (inner.splitOn ',').map Text.trim
  if parts.any List.isEmpty then none
  else some (parts.map floatPrefixChars)

/-- The vector that a string writes; the zero vector if it writes none. -/
def vectorOfText (text : String) : Vector :=
  match components? text with
  | some [x, y, z] => ⟨x, y, z⟩
  | _ => ⟨0.0, 0.0, 0.0⟩

/-- The rotation that a string writes; the rotation by no angle if it writes none. -/
def rotationOfText (text : String) : Rotation :=
  match components? text with
  | some [x, y, z, s] => ⟨x, y, z, s⟩
  | _ => ⟨0.0, 0.0, 0.0, 1.0⟩

/-! ### Literals -/

/-- The characters that the inside of a string literal stands for.  A backslash before `n` is a
    line feed and before `t` four spaces; before any other character it stands for that character,
    and at the very end for itself. -/
def unescape : List Char → List Char
  | [] => []
  | ['\\'] => ['\\']
  | '\\' :: 'n' :: rest => '\n' :: unescape rest
  | '\\' :: 't' :: rest => ' ' :: ' ' :: ' ' :: ' ' :: unescape rest
  | '\\' :: c :: rest => c :: unescape rest
  | c :: rest => c :: unescape rest

/-- The string that a quoted token stands for.  It must close with the quote it opens with. -/
def stringOfLiteral? (token : String) : Option String :=
  match token.toList with
  | [] => none
  | quote :: rest =>
      if quote = '"' ∨ quote = '\'' then
        (Text.between? quote quote (quote :: rest)).map fun inner => .ofList (unescape inner)
      else none

/-- The number that a numeric token stands for.  Hexadecimal digits wrap; a row of decimal digits
    is an integer as long as it fits 32 bits with a sign, and a double beyond that. -/
def numberOfLiteral? (token : String) : Option Constant :=
  let cs := token.toList
  match afterHexMark? cs with
  | some digits =>
      if digits.isEmpty || digits.any (Text.hexDigit? · |>.isNone) then none
      else some (.integer (wrapDigits 16 (digits.filterMap Text.hexDigit?)))
  | none =>
      if cs.all Char.isDigit && Decimal.natural cs < Nat.pow 2 31 && !cs.isEmpty then
        some (.integer (.ofNat (Decimal.natural cs)))
      else (Decimal.ofText? cs).map fun number => .float number.toFloat

end LslFront
