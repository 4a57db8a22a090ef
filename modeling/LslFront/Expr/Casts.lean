import LslFront.Fault
import LslFront.Token

/-!
# Casts

A cast is written as three tokens, `(` type `)`, and parsed as one.  Such a triple is a cast only
where an operand is awaited: after a complete operand the parenthesis belongs to a call or begins
something else.  A name in parentheses that is no type may stand there as well, as long as no
operand follows: then it is an ordinary group.
-/

namespace LslFront

def awaitsOperand (before : Option String) : Bool :=
  !before.any endsOperand

/-- Collapse the casts of some tokens, the token `before` having been written last. -/
def collapseCasts (before : Option String) : List String → Except ResolutionCause (List String)
  | first :: name :: close :: rest =>
      if awaitsOperand before && first == "(" && close == ")" && isIdentifier name then
        if (Ty.ofWord? name).isSome then
          let cast := s!"({name})"
          (collapseCasts (some cast) rest).map (cast :: ·)
        else if rest.head?.any startsOperand then .error (.notAType name)
        else (collapseCasts (some first) (name :: close :: rest)).map (first :: ·)
      else (collapseCasts (some first) (name :: close :: rest)).map (first :: ·)
  | short => .ok short

def recombineCasts (tokens : List String) : Except ResolutionCause (List String) :=
  collapseCasts none tokens

end LslFront
