import LslFront.Fault
import LslFront.Script

/-!
# Headers of functions and event handlers

A header is a name, parameters between parentheses, and the brace that opens the body.
-/

namespace LslFront

structure Signature where
  name : String
  params : List Parameter
deriving DecidableEq, Repr

/-- One parameter: a type and a name.  The name is not looked at here. -/
def readParameter : List String → Except DeclarationCause Parameter
  | [word, name] =>
      match Ty.ofWord? word with
      | some ty => .ok ⟨ty, name⟩
      | none => .error (.parameterType word)
  | _ => .error .parameterShape

def readParameters (tokens : List String) : Except DeclarationCause (List Parameter) :=
  if tokens.isEmpty then .ok []
  else (tokens.splitOn ",").mapM readParameter

/-- A header, which must be the whole line. -/
def readSignature (tokens : List String) : Except DeclarationCause Signature :=
  match tokens with
  | name :: opening :: rest =>
      match rest.reverse with
      | brace :: closing :: inner =>
          if opening = "(" ∧ closing = ")" then
            if brace = "\x7b" then
              (readParameters inner.reverse).map (Signature.mk name)
            else .error (.headerBrace name)
          else .error .malformedHeader
      | _ => .error .malformedHeader
  | _ => .error .malformedHeader

end LslFront
