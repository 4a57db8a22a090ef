/-!
# Types of the language

Seven primitive types.  The word `quaternion` is another spelling of `rotation`; every type is
printed by its own first word.
-/

namespace LslFront

inductive Ty where
  | integer
  | float
  | string
  | key
  | vector
  | rotation
  | list
deriving DecidableEq, Repr

namespace Ty

def ofWord? : String → Option Ty
  | "integer" => some .integer
  | "float" => some .float
  | "string" => some .string
  | "key" => some .key
  | "vector" => some .vector
  | "rotation" => some .rotation
  | "quaternion" => some .rotation
  | "list" => some .list
  | _ => none

def word : Ty → String
  | integer => "integer"
  | float => "float"
  | string => "string"
  | key => "key"
  | vector => "vector"
  | rotation => "rotation"
  | list => "list"

theorem ofWord?_word (ty : Ty) : ofWord? ty.word = some ty := by
  cases ty <;> rfl

/-- The type named by a cast token, which is its word between parentheses. -/
def ofCast? (token : String) : Option Ty :=
  match token.toList with
  | '(' :: rest =>
      match rest.getLast? with
      | some ')' => ofWord? (String.ofList rest.dropLast)
      | _ => none
  | _ => none

def cast (ty : Ty) : String :=
  s!"({ty.word})"

/-- Type words separated by commas, as a signature is shown. -/
def listed (types : List Ty) : String :=
  String.intercalate ", " (types.map word)

end Ty

end LslFront
