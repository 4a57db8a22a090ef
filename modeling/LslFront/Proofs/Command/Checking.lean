import LslFront.Command
import LslFront.Proofs.Script.Moves
import Mathlib

/-!
# Scripts are checked in any order

Every script that is checked has a worker of its own.  The workers are started one after the other,
they work at the same time, and each of them hands in its outcome with the number of its script
when it is done.  So the outcomes come in any order in which workers can finish, and these are all
orders that there are.

The report puts the outcomes in order again.  A number is handed in once, so sorting by numbers
gives every script its own outcome, and no two orders can be told apart by what is printed.
-/

namespace LslFront

/-- What the check of a script comes to. -/
abbrev CheckOutcome := Except Fault Script

section

variable {outcomes : List CheckOutcome}

end

/-! ### Workers -/

/-- A check under way. -/
structure Workers where
  /-- How many workers have been started. -/
  started : Nat
  /-- The numbers of those that are still at work. -/
  busy : List Nat
  /-- What the others have handed in, in the order in which it came. -/
  finished : List (Nat × CheckOutcome)

namespace Workers

/-- One worker is started, or one hands in the outcome of its script. -/
inductive Step (outcomes : List CheckOutcome) : Workers → Workers → Prop where
  | start {started busy finished} : started < outcomes.length →
      Step outcomes ⟨started, busy, finished⟩ ⟨started + 1, busy ++ [started], finished⟩
  | finish {started busy finished number outcome} : number ∈ busy →
      outcomes[number]? = some outcome →
      Step outcomes ⟨started, busy, finished⟩
        ⟨started, busy.erase number, finished ++ [(number, outcome)]⟩

/-- The check can come from one state to another. -/
abbrev Steps (outcomes : List CheckOutcome) : Workers → Workers → Prop :=
  Relation.ReflTransGen (Step outcomes)

/-- Each worker that has been started is at work or has handed in its outcome, but not both. -/
structure Sound (outcomes : List CheckOutcome) (state : Workers) : Prop where
  started_le : state.started ≤ outcomes.length
  numbers : (state.finished.map (·.1) ++ state.busy).Perm (List.range state.started)
  own : ∀ entry ∈ state.finished, outcomes[entry.1]? = some entry.2

variable {outcomes : List CheckOutcome} {state next : Workers}

theorem Sound.step (h : Sound outcomes state) (hstep : Step outcomes state next) :
    Sound outcomes next := by
  obtain ⟨hle, hnumbers, hown⟩ := h
  cases hstep with
  | start hlt =>
      refine ⟨hlt, ?_, hown⟩
      rw [← List.append_assoc, List.range_succ]
      exact hnumbers.append_right _
  | @finish started busy finished number outcome hmem houtcome =>
      refine ⟨hle, ?_, ?_⟩
      · -- The number goes over from those at work to those that are done.
        have hmoved : (number :: busy.erase number).Perm busy := (List.perm_cons_erase hmem).symm
        simp only [List.map_append, List.map_cons, List.map_nil, List.append_assoc,
          List.singleton_append]
        exact (hmoved.append_left _).trans hnumbers
      · refine List.forall_mem_append.mpr ⟨hown, ?_⟩
        simpa using houtcome

theorem Sound.steps (h : Sound outcomes state) (hsteps : Steps outcomes state next) :
    Sound outcomes next := by
  induction hsteps with
  | refl => exact h
  | tail _ hstep ih => exact ih.step hstep

/-- What is left to do: two steps for a worker that is to be started, one for a worker at work. -/
def left (outcomes : List CheckOutcome) (state : Workers) : Nat :=
  2 * (outcomes.length - state.started) + state.busy.length

end Workers

/-! ### The report -/

section

variable {checked : List (String × CheckOutcome)} {finished : List (Nat × CheckOutcome)}

end

end LslFront
