/-!
# Logical lines

A script is read as a sequence of logical lines.  A logical line holds the tokens up to and
including a `;`, `{` or `}` that ends it, whatever line feeds stand between them, and carries the
number of the source line where its first token begins.  That one number counts for each of its
tokens, so it is kept once.
-/

namespace LslFront

structure Line where
  number : Nat
  tokens : List String
deriving DecidableEq, Repr

namespace Line

def placed (line : Line) : List (String × Nat) :=
  line.tokens.map (·, line.number)

/-- The printed form: the tokens with a blank between neighbours. -/
def text (line : Line) : String :=
  String.intercalate " " line.tokens

end Line

end LslFront
