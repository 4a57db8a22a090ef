import LslFront.Builtin.Word
import LslFront.Fault
import LslFront.Token

/-!
# Headers and tails of statements

Cutting the tokens of a statement where the grammar of statements cuts them: at the parenthesis
that closes a header, at the semicolons of a `for` header, and at the semicolon that ends the
statement.  Round and square brackets count alike.
-/

namespace LslFront

def opensBracket (token : String) : Bool :=
  token == "(" || token == "["

def closesBracket (token : String) : Bool :=
  token == ")" || token == "]"

/-- What stands before the bracket that closes the outermost of `depth` open ones, and what
    stands after it.  No control word may come before it. -/
def cutHeader (keyword : String) (depth : Nat) :
    List String → Except StructureCause (List String × List String)
  | [] => .error (.openHeader keyword)
  | token :: rest =>
      if opensBracket token then
        (cutHeader keyword (depth + 1) rest).map fun (header, after) => (token :: header, after)
      else if closesBracket token then
        if depth ≤ 1 then .ok ([], rest)
        else
          (cutHeader keyword (depth - 1) rest).map fun (header, after) => (token :: header, after)
      else if Builtin.isControl token then .error (.headerKeyword token keyword)
      else (cutHeader keyword depth rest).map fun (header, after) => (token :: header, after)

/-- The header that follows a control word, without its parentheses, and what stands after it. -/
def splitHeader (keyword : String) :
    List String → Except StructureCause (List String × List String)
  | [] => .error (.headerParenthesis keyword)
  | token :: rest =>
      if token = "(" then cutHeader keyword 1 rest else .error (.headerParenthesis keyword)

theorem cutHeader_length {keyword : String} {tokens header after : List String} {depth : Nat}
    (h : cutHeader keyword depth tokens = .ok (header, after)) :
    after.length < tokens.length := by
  induction tokens generalizing depth header with
  | nil => simp [cutHeader] at h
  | cons token rest ih =>
      have deeper {d : Nat}
          (h : ((cutHeader keyword d rest).map fun (header, after) => (token :: header, after))
            = .ok (header, after)) : after.length < (token :: rest).length := by
        cases cut : cutHeader keyword d rest with
        | error cause => simp [cut, Except.map] at h
        | ok parts =>
            obtain ⟨inner, tail⟩ := parts
            obtain ⟨-, rfl⟩ : token :: inner = header ∧ tail = after := by
              simpa [cut, Except.map] using h
            exact Nat.lt_succ_of_lt (ih cut)
      unfold cutHeader at h
      split at h
      · exact deeper h
      · split at h
        · split at h
          · obtain ⟨-, rfl⟩ : [] = header ∧ rest = after := by simpa using h
            simp
          · exact deeper h
        · split at h
          · simp at h
          · exact deeper h

theorem splitHeader_length {keyword : String} {tokens header after : List String}
    (h : splitHeader keyword tokens = .ok (header, after)) : after.length < tokens.length := by
  unfold splitHeader at h
  split at h
  · simp at h
  · split at h
    · exact Nat.lt_succ_of_lt (cutHeader_length h)
    · simp at h

/-- The parts of a header between the semicolons that stand outside all brackets. -/
def headerParts (depth : Nat) : List String → List (List String)
  | [] => [[]]
  | token :: rest =>
      if token = ";" ∧ depth = 0 then [] :: headerParts 0 rest
      else
        let deeper :=
          if opensBracket token then depth + 1
          else if closesBracket token then depth - 1
          else depth
        match headerParts deeper rest with
        | [] => [[token]]
        | part :: others => (token :: part) :: others

def withoutSemicolon (tokens : List String) : Except StructureCause (List String) :=
  match tokens.getLast? with
  | some last => if last = ";" then .ok tokens.dropLast else .error (.missingSemicolon last)
  | none => .error .noStatement

/-- The name in a statement that is a keyword, a name and a semicolon. -/
def singleName (keyword : String) : List String → Except StructureCause String
  | [name, semicolon] =>
      if semicolon = ";" ∧ isIdentifier name then .ok name else .error (.nameShape keyword)
  | _ => .error (.nameShape keyword)

end LslFront
