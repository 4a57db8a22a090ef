/-!
# Runs of signs

Longest-match cutting reads `+++++` as `++ ++ +`.  The language fixes another reading for short
runs: three signs are `++ +`, four are `++ + +` and five are `++ + ++`; every other run of `+` or
of `-` stays as it was cut.  A run is a maximal group of neighbouring tokens made of one sign.
-/

namespace LslFront

/-- The sign that a token repeats, if it is a `+` or `-` written one or more times. -/
def signOf? (token : String) : Option Char :=
  match token.toList with
  | [] => none
  | c :: rest => if (c == '+' || c == '-') && rest.all (· == c) then some c else none

def runReading? (sign : Char) (count : Nat) : Option (List String) :=
  let one := String.ofList [sign]
  let two := String.ofList [sign, sign]
  match count with
  | 3 => some [two, one]
  | 4 => some [two, one, one]
  | 5 => some [two, one, two]
  | _ => none

/-- Neighbouring tokens of one sign. -/
structure SignRun where
  sign : Char
  tokens : List String
deriving DecidableEq, Repr

def SignRun.count (run : SignRun) : Nat :=
  run.tokens.foldr (fun token count => token.length + count) 0

/-- The run by its fixed reading, or as it was cut where it has none. -/
def SignRun.spelling (run : SignRun) : List String :=
  (runReading? run.sign run.count).getD run.tokens

/-- The tokens after an open run, with every run in them respelled. -/
def respellFrom : Option SignRun → List String → List String
  | none, [] => []
  | some run, [] => run.spelling
  | none, token :: rest =>
      match signOf? token with
      | some sign => respellFrom (some ⟨sign, [token]⟩) rest
      | none => token :: respellFrom none rest
  | some run, token :: rest =>
      match signOf? token with
      | some sign =>
          if sign = run.sign then respellFrom (some ⟨sign, run.tokens ++ [token]⟩) rest
          else run.spelling ++ respellFrom (some ⟨sign, [token]⟩) rest
      | none => run.spelling ++ token :: respellFrom none rest

def respellRuns (tokens : List String) : List String :=
  respellFrom none tokens

end LslFront
