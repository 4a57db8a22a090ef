import LslFront.Proofs.Success
import LslFront.Source.Machine

/-!
# Machines on given lines

`Source.run` takes its lines from a source one at a time.  What a machine does with some lines is
stated here without a source, by `Machine.Passes`, and what a source hands out without a machine,
by `Source.Hands`.  A run over a source is then one over the lines that it hands out.
-/

namespace LslFront

variable {σ ρ : Type} {limit : Nat}

/-- The source hands out `lines` one after the other and is then at `after`. -/
inductive Source.Hands : Source limit → List Line → Source limit → Prop where
  | nil {source} : Hands source [] source
  | cons {source next after line lines} : source.nextLine = (.ok (some line), next) →
      Hands next lines after → Hands source (line :: lines) after

def Source.take (count : Nat) (source : Source limit) : Option (List Line × Source limit) :=
  match count with
  | 0 => some ([], source)
  | count + 1 =>
      match source.nextLine with
      | (.ok (some line), next) =>
          (next.take count).map fun (lines, after) => (line :: lines, after)
      | _ => none

theorem Source.hands_of_take {count : Nat} {source after : Source limit} {lines : List Line}
    (h : source.take count = some (lines, after)) : source.Hands lines after := by
  induction count generalizing source lines with
  | zero =>
      cases h
      exact .nil
  | succ count ih =>
      rw [take] at h
      split at h
      · rename_i line next hline
        obtain ⟨⟨others, last⟩, hothers, heq⟩ := Option.map_eq_some_iff.mp h
        cases heq
        exact .cons hline (ih hothers)
      · cases h

/-- What a source hands out depends on nothing else, so one of two stretches goes on with the
    other. -/
theorem Source.Hands.comparable {source after place : Source limit}
    {lines others : List Line} (h : source.Hands lines after)
    (hothers : source.Hands others place) : lines <+: others ∨ others <+: lines := by
  induction h generalizing others with
  | nil => exact .inl List.nil_prefix
  | cons hline _ ih =>
      cases hothers with
      | nil => exact .inr List.nil_prefix
      | cons hnext hrest =>
          cases hline.symm.trans hnext
          exact (ih hrest).imp (List.prefix_cons_inj _).mpr (List.prefix_cons_inj _).mpr

/-- The machine takes `lines` one after the other and goes on after each of them. -/
inductive Machine.Passes (machine : Machine σ ρ) : σ → List Line → σ → Prop where
  | nil {state} : Passes machine state [] state
  | cons {state next final line lines} : machine.step state line = .ok (.more next) →
      Passes machine next lines final → Passes machine state (line :: lines) final

namespace Machine.Passes

variable {machine : Machine σ ρ} {state middle final : σ} {lines more : List Line}

theorem single {line : Line} (h : machine.step state line = .ok (.more final)) :
    machine.Passes state [line] final :=
  .cons h .nil

theorem append (hfirst : machine.Passes state lines middle)
    (hrest : machine.Passes middle more final) : machine.Passes state (lines ++ more) final := by
  induction hfirst with
  | nil => exact hrest
  | cons hstep _ ih => exact .cons hstep (ih hrest)

theorem exists_of_append (h : machine.Passes state (lines ++ more) final) :
    ∃ middle, machine.Passes state lines middle ∧ machine.Passes middle more final := by
  induction lines generalizing state with
  | nil => exact ⟨state, .nil, h⟩
  | cons line rest ih =>
      cases h with
      | cons hstep hrest =>
          obtain ⟨middle, hmiddle, hmore⟩ := ih hrest
          exact ⟨middle, .cons hstep hmiddle, hmore⟩

end Machine.Passes

namespace Source

variable {machine : Machine σ ρ} {state next : σ} {source after : Source limit}

/-- One line of a run. -/
theorem run_eq (machine : Machine σ ρ) (loader : Loader) (state : σ) (source : Source limit) :
    source.run machine loader state
      = match source.nextLine with
        | (.error fault, _) => .error fault
        | (.ok none, place) => (machine.atEnd state place.lastLine).map (·, place)
        | (.ok (some line), place) =>
            match machine.step state line with
            | .error fault => .error fault
            | .ok (.finished result) => .ok (result, place)
            | .ok (.more next) => place.run machine loader next
            | .ok (.splice next name once) =>
                match place.splice loader name once with
                | .error cause => .error ⟨cause, line.number⟩
                | .ok (_, opened) => opened.run machine loader next := by
  rw [Source.run]
  split
  · rename_i hline
    rw [hline]
  · rename_i hline
    rw [hline]
  · rename_i hline
    simp only [hline]
    cases machine.step state _ with
    | error fault => rfl
    | ok outcome =>
        cases outcome with
        | more next => rfl
        | finished result => rfl
        | splice next name once =>
            simp only
            split
            · rename_i hsplice
              rw [hsplice]
            · rename_i hsplice
              rw [hsplice]

theorem run_of_fault {fault : Fault} {place : Source limit} (loader : Loader)
    (hline : source.nextLine = (.error fault, place)) :
    source.run machine loader state = .error fault := by
  rw [run_eq, hline]

theorem run_of_end {place : Source limit} (loader : Loader)
    (hline : source.nextLine = (.ok none, place)) :
    source.run machine loader state = (machine.atEnd state place.lastLine).map (·, place) := by
  rw [run_eq, hline]

theorem run_of_refused {line : Line} {place : Source limit} {fault : Fault} (loader : Loader)
    (hline : source.nextLine = (.ok (some line), place))
    (hstep : machine.step state line = .error fault) :
    source.run machine loader state = .error fault := by
  rw [run_eq, hline]
  simp only [hstep]

theorem run_of_more {line : Line} {place : Source limit} (loader : Loader)
    (hline : source.nextLine = (.ok (some line), place))
    (hstep : machine.step state line = .ok (.more next)) :
    source.run machine loader state = place.run machine loader next := by
  rw [run_eq, hline]
  simp only [hstep]

theorem run_of_finished {line : Line} {place : Source limit} {result : ρ} (loader : Loader)
    (hline : source.nextLine = (.ok (some line), place))
    (hstep : machine.step state line = .ok (.finished result)) :
    source.run machine loader state = .ok (result, place) := by
  rw [run_eq, hline]
  simp only [hstep]

/-- Another source is opened at this place, or the run fails there. -/
theorem run_of_splice {line : Line} {place : Source limit} {name : String} {once : Bool}
    {loader : Loader} (hline : source.nextLine = (.ok (some line), place))
    (hstep : machine.step state line = .ok (.splice next name once)) :
    source.run machine loader state
      = match place.splice loader name once with
        | .error cause => .error ⟨cause, line.number⟩
        | .ok (_, opened) => opened.run machine loader next := by
  rw [run_eq, hline]
  simp only [hstep]

theorem run_of_passes {lines more : List Line} (loader : Loader)
    (hpasses : machine.Passes state lines next) (hhands : source.Hands (lines ++ more) after) :
    ∃ place : Source limit, place.Hands more after ∧
      source.run machine loader state = place.run machine loader next := by
  induction hpasses generalizing source with
  | nil => exact ⟨source, hhands, rfl⟩
  | cons hstep _ ih =>
      cases hhands with
      | cons hline hhands =>
          obtain ⟨place, hplace, hrun⟩ := ih hhands
          exact ⟨place, hplace, by rw [run_of_more loader hline hstep, hrun]⟩

/-- A machine that opens no source and gives nothing at the end of one has passed all lines but the
    last that it took. -/
theorem exists_passes_of_run {loader : Loader} {result : ρ}
    (hsplice : ∀ state line next name once, machine.step state line ≠ .ok (.splice next name once))
    (hend : ∀ state lastLine result, machine.atEnd state lastLine ≠ .ok result)
    (h : source.run machine loader state = .ok (result, after)) :
    ∃ lines last final, source.Hands (lines ++ [last]) after ∧
      machine.Passes state lines final ∧ machine.step final last = .ok (.finished result) := by
  fun_induction Source.run machine loader state source with
  | case1 | case3 | case6 => cases h
  | case2 state source place hline =>
      obtain ⟨found, hfound, -⟩ := map_eq_ok_iff.1 h
      exact absurd hfound (hend _ _ _)
  | case4 state source line place hline found hstep =>
      cases h
      exact ⟨[], line, state, .cons hline .nil, .nil, hstep⟩
  | case5 state source line place hline next hstep _ ih =>
      obtain ⟨lines, last, final, hhands, hpasses, hfinished⟩ := ih h
      exact ⟨line :: lines, last, final, .cons hline hhands, .cons hstep hpasses, hfinished⟩
  | case7 state source line place hline next name once hstep =>
      exact absurd hstep (hsplice _ _ _ _ _)

/-! ### Runs that are computed -/

/-- What a run over at most `count` lines gives, if so many are enough. -/
def runFor (machine : Machine σ ρ) (loader : Loader) (count : Nat) (state : σ)
    (source : Source limit) : Option (Except Fault (ρ × Source limit)) :=
  match count with
  | 0 => none
  | count + 1 =>
      match source.nextLine with
      | (.error fault, _) => some (.error fault)
      | (.ok none, after) => some ((machine.atEnd state after.lastLine).map (·, after))
      | (.ok (some line), after) =>
          match machine.step state line with
          | .error fault => some (.error fault)
          | .ok (.finished result) => some (.ok (result, after))
          | .ok (.more state) => after.runFor machine loader count state
          | .ok (.splice state name once) =>
              match after.splice loader name once with
              | .error cause => some (.error ⟨cause, line.number⟩)
              | .ok (_, opened) => opened.runFor machine loader count state

/-- A run that is computed line by line is the run. -/
theorem run_of_runFor {loader : Loader} {count : Nat} {answer : Except Fault (ρ × Source limit)}
    (h : source.runFor machine loader count state = some answer) :
    source.run machine loader state = answer := by
  fun_induction Source.runFor machine loader count state source with
  | case1 => cases h
  | case2 state source count fault place hline =>
      cases h
      exact run_of_fault loader hline
  | case3 state source count place hline =>
      cases h
      exact run_of_end loader hline
  | case4 state source count line place hline fault hstep =>
      cases h
      exact run_of_refused loader hline hstep
  | case5 state source count line place hline result hstep =>
      cases h
      exact run_of_finished loader hline hstep
  | case6 state source count line place hline next hstep ih =>
      rw [run_of_more loader hline hstep]
      exact ih h
  | case7 state source count line place hline next name once hstep cause hsplice =>
      cases h
      rw [run_of_splice hline hstep, hsplice]
  | case8 state source count line place hline next name once hstep included opened hsplice ih =>
      rw [run_of_splice hline hstep, hsplice]
      exact ih h

/-- A run that is computed and succeeds, by what is asked of its result. -/
theorem exists_of_runFor {α : Type} {loader : Loader} {count : Nat} {f : ρ × Source limit → α}
    {value : α}
    (h : ((source.runFor machine loader count state).bind Except.toOption).map f = some value) :
    ∃ result after, source.run machine loader state = .ok (result, after) ∧
      f (result, after) = value := by
  obtain ⟨⟨result, after⟩, hanswer, hvalue⟩ := Option.map_eq_some_iff.mp h
  obtain ⟨answer, hrun, hok⟩ := Option.bind_eq_some_iff.mp hanswer
  cases answer with
  | error fault => cases hok
  | ok answer =>
      cases hok
      exact ⟨result, after, run_of_runFor hrun, hvalue⟩

end Source

/-! ### Two machines -/

section

variable {machine : Machine σ ρ} {loader : Loader} {σ' ρ' : Type}
  {R : σ → σ' → Prop} {S : ρ → ρ' → Prop}

/-- Two machines go on alike after a line, in related states or with related results. -/
inductive Next.Related (R : σ → σ' → Prop) (S : ρ → ρ' → Prop) : Next σ ρ → Next σ' ρ' → Prop where
  | more {state state'} : R state state' → Related R S (.more state) (.more state')
  | splice {state state' name once} : R state state' →
      Related R S (.splice state name once) (.splice state' name once)
  | finished {result result'} : S result result' →
      Related R S (.finished result) (.finished result')

/-- If on every line and at the end the second machine does what the first one does, then it does
    so on every source, and takes as many of its lines. -/
theorem Source.carries_run {machine' : Machine σ' ρ'}
    (hstep : ∀ state state' line, R state state' →
      Carries (Next.Related R S) (machine.step state line) (machine'.step state' line))
    (hend : ∀ state state' lastLine, R state state' →
      Carries S (machine.atEnd state lastLine) (machine'.atEnd state' lastLine))
    {state : σ} {state' : σ'} (h : R state state') (source : Source limit) :
    Carries (fun first second => S first.1 second.1 ∧ first.2 = second.2)
      (source.run machine loader state) (source.run machine' loader state') := by
  fun_induction Source.run machine loader state source generalizing state' with
  | case1 | case3 | case6 => exact .error _ _
  | case2 state source after hline =>
      rw [Source.run_of_end loader hline]
      exact (hend state state' after.lastLine h).map fun _ _ hresult => ⟨hresult, rfl⟩
  | case4 state source line after hline result hmachine =>
      obtain ⟨next, hmachine', hnext⟩ := hstep state state' line h _ hmachine
      cases hnext with
      | finished hresult =>
          rw [Source.run_of_finished loader hline hmachine']
          exact .ok ⟨hresult, rfl⟩
  | case5 state source line after hline next hmachine _ ih =>
      obtain ⟨_, hmachine', hnext⟩ := hstep state state' line h _ hmachine
      cases hnext with
      | more hstate =>
          rw [Source.run_of_more loader hline hmachine']
          exact ih hstate
  | case7 state source line after hline next name once hmachine answer opened hsplice _ ih =>
      obtain ⟨_, hmachine', hnext⟩ := hstep state state' line h _ hmachine
      cases hnext with
      | splice hstate =>
          rw [Source.run_of_splice hline hmachine', hsplice]
          exact ih hstate

end

end LslFront
