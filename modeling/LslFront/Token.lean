/-!
# Tokens

A token of a script is the text of an identifier, a number, a quoted literal or an operator; no
type is attached to it.  What a token can be is read off its first characters, and the readers of
this module are the only places that do so: the parser, the cast pass and the declaration scanner
all ask them.

All classes are ASCII.  A character outside ASCII never belongs to a word: it makes a token of
its own.
-/

namespace LslFront

/-! ### Character classes -/

/-- A character that continues a word: a letter, a digit, `_` or `$`. -/
def isWordChar (c : Char) : Bool :=
  c.isAlphanum || c == '_' || c == '$'

def startsIdentifier (c : Char) : Bool :=
  c.isAlpha || c == '_' || c == '$'

/-! ### Classes of tokens -/

def isIdentifier (token : String) : Bool :=
  match token.toList with
  | [] => false
  | c :: rest => startsIdentifier c && rest.all isWordChar

/-- A token that is read as a number: it begins with a digit, or with a point and a digit. -/
def isNumeric (token : String) : Bool :=
  match token.toList with
  | '.' :: c :: _ => c.isDigit
  | c :: _ => c.isDigit
  | [] => false

def isQuoted (token : String) : Bool :=
  match token.toList with
  | c :: _ => c == '"' || c == '\''
  | [] => false

/-- A token that stands for a value of its own.  A lone point counts: it can only be the rest of
    a number that was cut short. -/
def isLiteral (token : String) : Bool :=
  match token.toList with
  | c :: _ => c.isDigit || c == '.' || c == '"' || c == '\''
  | [] => false

/-- After such a token an operand is complete, so a `(` that follows opens a group or a call. -/
def endsOperand (token : String) : Bool :=
  token == ")" || token == "]" || isIdentifier token || isLiteral token

/-- Such a token is the first of an operand. -/
def startsOperand (token : String) : Bool :=
  token == "(" || token == "[" || isIdentifier token || isLiteral token

def isDirective (token : String) : Bool :=
  token.toList.head? == some '#'

end LslFront
