/-!
# Reserved words

A reserved word is never a name.  Control words are the reserved words that begin a statement;
none of them may stand in the header of a control statement.
-/

namespace LslFront.Builtin

/-- The words that no name may be. -/
def reservedWords : List String :=
  ["integer", "float", "string", "key", "vector", "rotation", "quaternion", "list", "void",
   "if", "else", "for", "while", "do", "return", "state", "default", "jump", "print"]

def controlWords : List String :=
  ["if", "else", "for", "while", "do", "return", "state", "jump"]

def isReserved (word : String) : Bool :=
  reservedWords.contains word

def isControl (word : String) : Bool :=
  controlWords.contains word

end LslFront.Builtin
