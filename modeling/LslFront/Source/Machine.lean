import LslFront.Source.Rank

/-!
# Machines that read sources

A machine reads a source line by line.  After each line it goes on in a new state, asks for
another source to be opened at this place, or has finished and leaves the rest of the source
unread.  `Source.run` feeds a source to a machine; an error ends the run at once.

Everything that is read from a script, a whole script as well as the body of one function, is read
by such a machine.
-/

namespace LslFront

/-- What a machine does after a line. -/
inductive Next (σ ρ : Type) where
  | more (state : σ)
  /-- Open the named source here, or leave it if it has been included and `once` is set. -/
  | splice (state : σ) (name : String) (once : Bool)
  | finished (result : ρ)

/-- A reader with states of type `σ` and results of type `ρ`.  At the end of the source it is
    told the number of the line handed out last. -/
structure Machine (σ ρ : Type) where
  step : σ → Line → Except Fault (Next σ ρ)
  atEnd : σ → Nat → Except Fault ρ

variable {σ ρ : Type}

/-- Feed the lines of a source to a machine.  The result comes with the place after the last line
    that was taken. -/
def Source.run {limit : Nat} (machine : Machine σ ρ) (loader : Loader) (state : σ)
    (source : Source limit) : Except Fault (ρ × Source limit) :=
  match taken : source.nextLine with
  | (.error fault, _) => .error fault
  | (.ok none, after) => (machine.atEnd state after.lastLine).map (·, after)
  | (.ok (some line), after) =>
      match machine.step state line with
      | .error fault => .error fault
      | .ok (.finished result) => .ok (result, after)
      | .ok (.more state) =>
          have := nextLine_rank_lt taken
          after.run machine loader state
      | .ok (.splice state name once) =>
          match spliced : after.splice loader name once with
          | .error cause => .error ⟨cause, line.number⟩
          | .ok (_, opened) =>
              have := splice_rank_lt taken spliced
              opened.run machine loader state
termination_by source.rank
decreasing_by all_goals assumption

end LslFront
