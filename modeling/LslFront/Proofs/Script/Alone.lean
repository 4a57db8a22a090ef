import LslFront.Proofs.Line.Settled
import LslFront.Proofs.Script.Moves

/-!
# Scripts that include nothing

Without a loader no other source can be had, so a line that asks for one ends the reading.  A script
that is compiled without a loader is then what its own lines make of it: they can be told apart,
each of them is taken, and the last leaves the script at top level.
-/

namespace LslFront

namespace Source

variable {σ ρ : Type} {machine : Machine σ ρ} {limit : Nat} {state final : σ} {lines : List Line}
  {source after : Source limit}

/-- Only the main source is open, and no other has been. -/
structure Alone (source : Source limit) : Prop where
  below : source.below = []
  included : source.included = []

theorem alone_ofText (text : String) (limit : Nat) : (ofText text limit).Alone :=
  ⟨rfl, rfl⟩

/-- The main source hands out the lines of its lexer. -/
theorem Alone.of_nextLine (h : source.Alone) {result : Except Fault (Option Line)}
    (hline : source.nextLine = (result, after)) :
    source.top.nextLine = (result, after.top) ∧ after.Alone := by
  obtain ⟨top, below, included, lastLine, shallow⟩ := source
  obtain ⟨rfl, rfl⟩ : below = [] ∧ included = [] := ⟨h.below, h.included⟩
  rcases hnext : top.nextLine with ⟨_ | _ | line, rest⟩
  all_goals
    simp only [nextLine, pullLine, hnext, Prod.mk.injEq] at hline
    obtain ⟨rfl, rfl⟩ := hline
    exact ⟨rfl, rfl, rfl⟩

theorem Alone.splice_ne_ok (h : source.Alone) (name : String) (once : Bool)
    (opened : Bool × Source limit) : source.splice .none name once ≠ .ok opened := by
  unfold splice
  rw [h.included]
  split
  · rename_i hseen
    simp at hseen
  · split
    · exact fun heq => by cases heq
    · exact fun heq => by cases heq

/-- A machine that only gives a result at the end has passed all lines when it does. -/
theorem Alone.exists_passes_of_run (h : source.Alone) {result : ρ}
    (hfinished : ∀ state line result, machine.step state line ≠ .ok (.finished result))
    (hrun : source.run machine .none state = .ok (result, after)) :
    ∃ lines final, source.top.lines = .ok lines ∧ machine.Passes state lines final ∧
      machine.atEnd final after.lastLine = .ok result ∧ after.included = [] := by
  fun_induction Source.run machine Loader.none state source with
  | case1 | case3 | case6 => cases hrun
  | case2 state source place hline =>
      obtain ⟨htop, halone⟩ := h.of_nextLine hline
      obtain ⟨found, hend, heq⟩ := map_eq_ok_iff.1 hrun
      cases heq
      exact ⟨[], state, Lexer.lines_of_none htop, .nil, hend, halone.included⟩
  | case4 state source line place hline result hstep => exact absurd hstep (hfinished _ _ _)
  | case5 state source line place hline next hstep _ ih =>
      obtain ⟨htop, halone⟩ := h.of_nextLine hline
      obtain ⟨lines, final, hlines, hpasses, hend⟩ := ih halone hrun
      refine ⟨line :: lines, final, ?_, .cons hstep hpasses, hend⟩
      rw [Lexer.lines_of_some htop, hlines]
      rfl
  | case7 state source line place hline next name once hstep answer opened hsplice =>
      exact absurd hsplice ((h.of_nextLine hline).2.splice_ne_ok name once _)

/-- When a machine has passed all lines, the run ends in the state that it has come to. -/
theorem Alone.run_of_passes (h : source.Alone) (loader : Loader)
    (hlines : source.top.lines = .ok lines) (hpasses : machine.Passes state lines final) :
    ∃ after : Source limit, after.included = [] ∧ source.run machine loader state
      = (machine.atEnd final after.lastLine).map (·, after) := by
  induction hpasses generalizing source with
  | nil =>
      rcases hline : source.nextLine with ⟨result, after⟩
      obtain ⟨htop, halone⟩ := h.of_nextLine hline
      match result with
      | .error fault => cases (Lexer.lines_of_error htop).symm.trans hlines
      | .ok none => exact ⟨after, halone.included, run_of_end loader hline⟩
      | .ok (some line) =>
          rw [Lexer.lines_of_some htop] at hlines
          obtain ⟨_, -, heq⟩ := map_eq_ok_iff.1 hlines
          cases heq
  | cons hstep _ ih =>
      obtain ⟨rest, hnext⟩ := Lexer.exists_nextLine_of_lines hlines
      rcases hline : source.nextLine with ⟨result, place⟩
      obtain ⟨htop, halone⟩ := h.of_nextLine hline
      obtain ⟨rfl, rfl⟩ := Prod.mk.inj (htop.symm.trans hnext)
      rw [Lexer.lines_of_some htop] at hlines
      obtain ⟨others, hothers, heq⟩ := map_eq_ok_iff.1 hlines
      obtain ⟨-, rfl⟩ := List.cons.inj heq
      obtain ⟨after, hincluded, hrun⟩ := ih halone hothers
      exact ⟨after, hincluded, by rw [run_of_more loader hline hstep, hrun]⟩

end Source

/-! ### Initializers -/

namespace Global

def Resolvable (scope : Scope) (global : Global) : Prop :=
  ∀ line ∈ global.initializer, ∃ value, resolveTokens scope line.tokens = .ok value

/-- The global with its initializer resolved. -/
def resolved (scope : Scope) (global : Global) : Global :=
  match global.initializer with
  | none => global
  | some line => { global with value := (resolveTokens scope line.tokens).toOption }

end Global

/-- An entry of the table of globals, with the initializer resolved. -/
def resolvedEntry (scope : Scope) (entry : String × Global) : String × Global :=
  (entry.1, entry.2.resolved scope)

/-- What names mean in the initializers of a script: all of its globals are known there. -/
def Script.scope (script : Script) : Scope :=
  ⟨script.dialect, script.globals.contains⟩

namespace Reading

section

variable {scope : Scope} {entries globals : List (String × Global)}

theorem resolveGlobals_cons_eq_ok_iff {name : String} {global : Global} :
    resolveGlobals scope ((name, global) :: entries) = .ok globals ↔
      global.Resolvable scope ∧ ∃ others, resolveGlobals scope entries = .ok others ∧
        resolvedEntry scope (name, global) :: others = globals := by
  obtain ⟨ty, line, initializer, value⟩ := global
  cases initializer with
  | none => simp [resolveGlobals, Global.Resolvable, resolvedEntry, Global.resolved]
  | some initializer =>
      cases hvalue : resolveTokens scope initializer.tokens with
      | error cause =>
          simp [resolveGlobals, hvalue, onLine, Except.mapError, Global.Resolvable]
      | ok found =>
          simp [resolveGlobals, hvalue, onLine, Global.Resolvable, resolvedEntry, Global.resolved,
            Except.toOption]

/-- Each initializer is resolved by itself, in the same scope. -/
theorem resolveGlobals_eq_ok_iff : resolveGlobals scope entries = .ok globals ↔
    (∀ entry ∈ entries, entry.2.Resolvable scope) ∧
      entries.map (resolvedEntry scope) = globals := by
  induction entries generalizing globals with
  | nil => simp [resolveGlobals]
  | cons entry rest ih =>
      rw [resolveGlobals_cons_eq_ok_iff, List.forall_mem_cons, List.map_cons]
      simp [ih, and_assoc]

end

/-! ### The end of a script -/

/-- A source that includes nothing may end here, and this is its script. -/
structure Completes (reading : Reading) (script : Script) : Prop where
  place : reading.place = .topLevel
  default : reading.symbols.script.states.contains defaultState
  targets : checkTargets reading.symbols.script = .ok ()
  resolvable : ∀ entry ∈ reading.symbols.script.globals.entries,
    entry.2.Resolvable reading.symbols.scope
  script : script = { reading.symbols.script with
    globals := ⟨reading.symbols.script.globals.entries.map (resolvedEntry reading.symbols.scope)⟩
    includes := [] }

theorem completes_iff {reading : Reading} {script : Script} (lastLine : Nat) :
    reading.Completes script ↔
      ∃ result, reading.atEnd lastLine = .ok result ∧ { result with includes := [] } = script := by
  constructor
  · rintro ⟨hplace, hdefault, htargets, hresolvable, rfl⟩
    exact ⟨_, atEnd_eq_ok_iff.2 ⟨hplace, hdefault, htargets, _,
      resolveGlobals_eq_ok_iff.2 ⟨hresolvable, rfl⟩, rfl⟩, rfl⟩
  · rintro ⟨result, hend, rfl⟩
    obtain ⟨hplace, hdefault, htargets, globals, hglobals, rfl⟩ := atEnd_eq_ok_iff.1 hend
    obtain ⟨hresolvable, rfl⟩ := resolveGlobals_eq_ok_iff.1 hglobals
    exact ⟨hplace, hdefault, htargets, hresolvable, rfl⟩

end Reading

/-- What compiling without a loader gives: the script that is complete when the lines of the source
    have been taken. -/
theorem compile_eq_ok_iff {source : String} {options : Options} {script : Script} :
    compile source options .none = .ok script ↔ ∃ lines final, tokenize source = .ok lines ∧
      Reading.machine.Passes
        ⟨.ofDialect ((Directives.ofSource source).accepted options.baseline), .topLevel⟩ lines final ∧
      final.Completes script := by
  have halone := Source.alone_ofText source options.includeLimit
  constructor
  · intro h
    obtain ⟨⟨result, after⟩, hrun, h⟩ := bind_eq_ok_iff.1 h
    obtain ⟨lines, final, hlines, hpasses, hend, hincluded⟩ :=
      halone.exists_passes_of_run Reading.step_ne_finished hrun
    refine ⟨lines, final, hlines, hpasses, (final.completes_iff after.lastLine).mpr ⟨result, hend, ?_⟩⟩
    rw [← hincluded]
    exact Except.ok.inj h
  · rintro ⟨lines, final, hlines, hpasses, hcompletes⟩
    obtain ⟨after, hincluded, hrun⟩ := halone.run_of_passes .none hlines hpasses
    obtain ⟨result, hend, rfl⟩ := (Reading.completes_iff after.lastLine).mp hcompletes
    rw [compile, hrun]
    simp [Reading.machine, hend, hincluded]

end LslFront
