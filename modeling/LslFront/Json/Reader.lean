import LslFront.Json
import LslFront.Text

/-!
# Reading JSON

The grammar is taken strictly: blanks are the four ASCII ones, a number has no leading zero and
no empty part, a string holds no control character, and nothing but blanks may follow the value.
Every function that nests counts down a budget; two calls for each character are enough.
-/

namespace LslFront.Json

def isSpace (c : Char) : Bool :=
  c == ' ' || c == '\n' || c == '\r' || c == '\t'

def skipSpace (cs : List Char) : List Char :=
  cs.dropWhile isSpace

/-- What follows an expected beginning. -/
def afterWord? (word : String) (cs : List Char) : Option (List Char) :=
  word.toList.isPrefixOf? cs

/-! ### Numbers -/

def digits? (cs : List Char) : Option (List Char × List Char) :=
  match cs.span Char.isDigit with
  | ([], _) => none
  | found => some found

/-- The whole part of a number: a single zero, or digits that begin with another. -/
def wholePart? (cs : List Char) : Option (List Char × List Char) := do
  let (found, rest) ← digits? cs
  if found.head? = some '0' ∧ found.length > 1 then none else some (found, rest)

def fractionPart? : List Char → Option (List Char × List Char)
  | '.' :: rest => (digits? rest).map fun (found, rest) => ('.' :: found, rest)
  | cs => some ([], cs)

def exponentPart? : List Char → Option (List Char × List Char)
  | mark :: rest =>
      if mark = 'e' ∨ mark = 'E' then
        match rest with
        | sign :: more =>
            if sign = '+' ∨ sign = '-' then
              (digits? more).map fun (found, rest) => (mark :: sign :: found, rest)
            else (digits? rest).map fun (found, rest) => (mark :: found, rest)
        | [] => none
      else some ([], mark :: rest)
  | [] => some ([], [])

def readNumber? (cs : List Char) : Option (Json × List Char) := do
  let (sign, rest) :=
    match cs with
    | '-' :: rest => (['-'], rest)
    | cs => ([], cs)
  let (whole, rest) ← wholePart? rest
  let (fraction, rest) ← fractionPart? rest
  let (power, rest) ← exponentPart? rest
  return (number (.ofList (sign ++ whole ++ fraction ++ power)), rest)

/-! ### Strings -/

/-- A 16-bit unit written as four hexadecimal digits. -/
def hexUnit? : List Char → Option (Nat × List Char)
  | a :: b :: c :: d :: rest => do
      let a ← Text.hexDigit? a
      let b ← Text.hexDigit? b
      let c ← Text.hexDigit? c
      let d ← Text.hexDigit? d
      return (((a * 16 + b) * 16 + c) * 16 + d, rest)
  | _ => none

/-- The character that a letter after a backslash stands for. -/
def escaped? : Char → Option Char
  | '"' => some '"'
  | '\\' => some '\\'
  | '/' => some '/'
  | 'b' => some '\x08'
  | 'f' => some '\x0c'
  | 'n' => some '\n'
  | 'r' => some '\r'
  | 't' => some '\t'
  | _ => none

/-- An element of a string as it is written. -/
inductive Piece where
  | char (c : Char)
  | unit (n : Nat)
deriving DecidableEq, Repr

/-- The elements of a string up to its closing quote, and what follows it. -/
def readPieces? : List Char → Option (List Piece × List Char)
  | [] => none
  | '"' :: rest => some ([], rest)
  | '\\' :: 'u' :: a :: b :: c :: d :: rest => do
      let (n, _) ← hexUnit? [a, b, c, d]
      let (pieces, rest) ← readPieces? rest
      return (.unit n :: pieces, rest)
  | '\\' :: letter :: rest => do
      let c ← escaped? letter
      let (pieces, rest) ← readPieces? rest
      return (.char c :: pieces, rest)
  | c :: rest =>
      if c.toNat < 0x20 ∨ c = '\\' then none
      else do
        let (pieces, rest) ← readPieces? rest
        return (.char c :: pieces, rest)

/-- The text of some elements; every surrogate must have its partner. -/
def textOfPieces? : List Piece → Option (List Char)
  | [] => some []
  | .char c :: rest => (textOfPieces? rest).map (c :: ·)
  | .unit high :: .unit low :: rest =>
      if 0xD800 ≤ high ∧ high < 0xDC00 then
        if 0xDC00 ≤ low ∧ low < 0xE000 then
          (textOfPieces? rest).map
            (Char.ofNat (0x10000 + (high - 0xD800) * 0x400 + (low - 0xDC00)) :: ·)
        else none
      else if 0xDC00 ≤ high ∧ high < 0xE000 then none
      else (textOfPieces? (.unit low :: rest)).map (Char.ofNat high :: ·)
  | .unit n :: rest =>
      if 0xD800 ≤ n ∧ n < 0xE000 then none else (textOfPieces? rest).map (Char.ofNat n :: ·)

def readText? (cs : List Char) : Option (JsonText × List Char) := do
  let (pieces, rest) ← readPieces? cs
  return ((textOfPieces? pieces).map .ofList, rest)

/-! ### Values -/

mutual

/-- A value, perhaps after blanks, and what follows it. -/
def readValue? (budget : Nat) (cs : List Char) : Option (Json × List Char) :=
  match budget with
  | 0 => none
  | budget + 1 =>
      match skipSpace cs with
      | [] => none
      | '"' :: rest => (readText? rest).map fun (text, rest) => (string text, rest)
      | '[' :: rest =>
          match skipSpace rest with
          | ']' :: rest => some (array [], rest)
          | rest => (readItems? budget rest).map fun (items, rest) => (array items, rest)
      | '\x7b' :: rest =>
          match skipSpace rest with
          | '\x7d' :: rest => some (object [], rest)
          | rest => (readFields? budget rest).map fun (fields, rest) => (object fields, rest)
      | 'n' :: rest => (afterWord? "ull" rest).map (null, ·)
      | 't' :: rest => (afterWord? "rue" rest).map (bool true, ·)
      | 'f' :: rest => (afterWord? "alse" rest).map (bool false, ·)
      | cs => readNumber? cs

def readItems? (budget : Nat) (cs : List Char) : Option (List Json × List Char) :=
  match budget with
  | 0 => none
  | budget + 1 => do
      let (item, rest) ← readValue? budget cs
      match skipSpace rest with
      | ']' :: rest => return ([item], rest)
      | ',' :: rest =>
          let (items, rest) ← readItems? budget rest
          return (item :: items, rest)
      | _ => none

def readFields? (budget : Nat) (cs : List Char) :
    Option (List (JsonText × Json) × List Char) :=
  match budget with
  | 0 => none
  | budget + 1 =>
      match skipSpace cs with
      | '"' :: rest => do
          let (name, rest) ← readText? rest
          match skipSpace rest with
          | ':' :: rest =>
              let (value, rest) ← readValue? budget rest
              match skipSpace rest with
              | '\x7d' :: rest => return ([(name, value)], rest)
              | ',' :: rest =>
                  let (fields, rest) ← readFields? budget rest
                  return ((name, value) :: fields, rest)
              | _ => none
          | _ => none
      | _ => none

end

def ofText? (text : String) : Option Json := do
  let cs := text.toList
  let (value, rest) ← readValue? (2 * cs.length + 2) cs
  if (skipSpace rest).isEmpty then some value else none

end LslFront.Json
