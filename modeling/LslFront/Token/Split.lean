import LslFront.Token
import LslFront.Token.Runs

/-!
# Splitting words

A word is a stretch of a script without blanks, brackets or quotes.  It is cut into tokens from
left to right: word characters stay together, operators are taken longest first.  Four rules let
a character join the word that is being gathered although it is no word character:

* a `.` before a digit, or after a plain decimal number (`.5`, `1.`, `1.5`);
* a `+` or `-` between an exponent mark and a digit (`2e-3`);
* a `#` before a letter when nothing is gathered yet (`#include`).

The reader looks at one character ahead and never goes back.  Every operator of two or three
characters becomes an operator again when its last character is dropped, so an operator can be
grown one character at a time and the result is the longest match.
-/

namespace LslFront

def longOperators : List String :=
  ["<<=", ">>=",
   "+=", "++", "-=", "--", "->", ":=", "::", "<=", "<<", ">=", ">>", "==", "=>", "!=", "^=",
   "&=", "&&", "|=", "||", "##", "*=", "/=", "%="]

/-! ### Numbers that are being gathered -/

/-- At least one digit and at most one point, with nothing between them. -/
def isDecimalStem (word : List Char) : Bool :=
  word.any Char.isDigit && word.all (fun c => c.isDigit || c == '.') && word.count '.' ≤ 1

/-- A decimal number followed by an exponent mark and nothing else. -/
def awaitsExponent (word : List Char) : Bool :=
  match word.reverse with
  | mark :: stem => (mark == 'e' || mark == 'E') && isDecimalStem stem.reverse
  | [] => false

/-- Does `c`, with `ahead` after it, continue the word gathered so far? -/
def continuesWord (word : String) (c : Char) (ahead : Option Char) : Bool :=
  isWordChar c
    || (c == '.' && (ahead.any Char.isDigit || isDecimalStem word.toList))
    || ((c == '+' || c == '-') && ahead.any Char.isDigit && awaitsExponent word.toList)
    || (c == '#' && word.isEmpty && ahead.any Char.isAlpha)

/-! ### The cutter -/

/-- What has been read of the token under way. -/
inductive Gathered where
  | word (text : String)
  | operator (text : String)
deriving DecidableEq, Repr

/-- The token that ends where the gathered text ends; nothing gathered gives no token. -/
def Gathered.tokens : Gathered → List String
  | .word text => if text.isEmpty then [] else [text]
  | .operator text => [text]

/-- Begin anew with `c`: it joins an empty word or begins an operator. -/
def Gathered.start (c : Char) (ahead : Option Char) : Gathered :=
  if continuesWord "" c ahead then .word (String.singleton c) else .operator (String.singleton c)

/-- One character more: the tokens that are complete now, and what is gathered after it. -/
def Gathered.step (c : Char) (ahead : Option Char) : Gathered → List String × Gathered
  | .word text =>
      if continuesWord text c ahead then ([], .word (text.push c))
      else ((Gathered.word text).tokens, .operator (String.singleton c))
  | .operator text =>
      if longOperators.contains (text.push c) then ([], .operator (text.push c))
      else ([text], .start c ahead)

/-- The tokens of what is gathered followed by the characters to come. -/
def Gathered.cut (held : Gathered) : List Char → List String
  | [] => held.tokens
  | c :: rest =>
      let (complete, next) := held.step c rest.head?
      complete ++ next.cut rest

/-- The tokens of a raw word: cut, then with its runs of signs respelled. -/
def splitWord (word : String) : List String :=
  respellRuns ((Gathered.word "").cut word.toList)

end LslFront
