/-!
# JSON values

The values of the interchange format, and how they are written.  A number is kept as its text, so
that nothing is lost between reading and writing.  A string is written with escapes, and escapes
can spell half of a surrogate pair without the other half; such a string is grammatical and has no
text.
-/

namespace LslFront

/-- The text of a string, unless its escapes leave a surrogate without its partner. -/
abbrev JsonText := Option String

/-- A value of the format. -/
inductive Json where
  | null
  | bool (value : Bool)
  | number (text : String)
  | string (text : JsonText)
  | array (items : List Json)
  /-- The fields in the order in which they are written; names may be repeated. -/
  | object (fields : List (JsonText × Json))
deriving Repr

namespace Json

def text (s : String) : Json :=
  string (some s)

def natural (n : Nat) : Json :=
  number (toString n)

def integer (n : Int) : Json :=
  number (toString n)

def record (fields : List (String × Json)) : Json :=
  object (fields.map fun (name, value) => (some name, value))

/-- The value if there is one, and null otherwise. -/
def optional {α : Type} (write : α → Json) : Option α → Json
  | some value => write value
  | none => null

/-! ### Writing -/

/-- A character inside a string.  Quotes, backslashes and control characters are escaped. -/
def escapeChar (c : Char) : List Char :=
  match c with
  | '"' => ['\\', '"']
  | '\\' => ['\\', '\\']
  | '\x08' => ['\\', 'b']
  | '\x0c' => ['\\', 'f']
  | '\n' => ['\\', 'n']
  | '\r' => ['\\', 'r']
  | '\t' => ['\\', 't']
  | c =>
      if c.toNat < 0x20 then
        ['\\', 'u', '0', '0', Nat.digitChar (c.toNat / 16), Nat.digitChar (c.toNat % 16)]
      else [c]

def quoted (s : String) : String :=
  .ofList ('"' :: (s.toList.flatMap escapeChar ++ ['"']))

/-- A string as it is written; one without a text is written as null. -/
def writeText : JsonText → String
  | some s => quoted s
  | none => "null"

/-- The line feed and the indentation before an item. -/
def indentation (level : Nat) : String :=
  .ofList ('\n' :: List.replicate (2 * level) ' ')

def opening (pretty : Bool) (level : Nat) : String :=
  if pretty then indentation level else ""

def closing (pretty : Bool) (level : Nat) : String :=
  if pretty then indentation level else ""

def colon (pretty : Bool) : String :=
  if pretty then ": " else ":"

mutual

/-- The value on one line, or with one item on each line if `pretty`, each level of nesting
    indented by two spaces. -/
def write (pretty : Bool) (level : Nat) : Json → String
  | null => "null"
  | bool true => "true"
  | bool false => "false"
  | number text => text
  | string text => writeText text
  | array items =>
      if items.isEmpty then "[]"
      else "[" ++ writeItems pretty (level + 1) items ++ closing pretty level ++ "]"
  | object fields =>
      if fields.isEmpty then "\x7b\x7d"
      else "\x7b" ++ writeFields pretty (level + 1) fields ++ closing pretty level ++ "\x7d"

def writeItems (pretty : Bool) (level : Nat) : List Json → String
  | [] => ""
  | [item] => opening pretty level ++ write pretty level item
  | item :: next :: rest =>
      opening pretty level ++ write pretty level item ++ ","
        ++ writeItems pretty level (next :: rest)

def writeFields (pretty : Bool) (level : Nat) : List (JsonText × Json) → String
  | [] => ""
  | [(name, value)] =>
      opening pretty level ++ writeText name ++ colon pretty ++ write pretty level value
  | (name, value) :: next :: rest =>
      opening pretty level ++ writeText name ++ colon pretty ++ write pretty level value ++ ","
        ++ writeFields pretty level (next :: rest)

end

def compact (json : Json) : String :=
  json.write false 0

def pretty (json : Json) : String :=
  json.write true 0

end Json

end LslFront
