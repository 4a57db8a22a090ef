import LslFront.Proofs.Script.Moves
import LslFront.Proofs.Source.Rounds

/-!
# Reading a script ends

The rounds in which a script is read begin with its main source.  A source may include itself, or
others that include it, with or without `_once`; the reading of every source ends all the same, and
the depth of the options is never exceeded.
-/

namespace LslFront

/-- Where the reading of a source begins. -/
def compileStart (source : String) (options : Options) : Reading × Source options.includeLimit :=
  (⟨.ofDialect ((Directives.ofSource source).accepted options.baseline), .topLevel⟩,
    .ofText source options.includeLimit)

theorem compile_eq_run (source : String) (options : Options) (loader : Loader) :
    compile source options loader
      = ((compileStart source options).2.run Reading.machine loader
          (compileStart source options).1).map
        fun (script, after) => { script with includes := after.included } := by
  unfold compile compileStart
  simp only
  cases (Source.ofText source options.includeLimit).run Reading.machine loader _ with
  | error fault => rfl
  | ok result => rfl

/-- Whatever the source, the depth and the loader, reading ends: no rounds go on for ever, and the
    rounds from the start of the source come to a last one, which gives a script or a fault.  At no
    time, before or after a line is taken, are more sources open than one more than the depth. -/
theorem compile_ends (source : String) (options : Options) (loader : Loader) :
    (∀ rounds : Nat → Reading × Source options.includeLimit,
      ∃ n, ¬ Reading.machine.Round loader (rounds n) (rounds (n + 1))) ∧
    (∃ last answer, Reading.machine.Rounds loader (compileStart source options) last ∧
      Reading.machine.Ends loader last answer ∧
      compile source options loader
        = answer.map fun (script, after) => { script with includes := after.included }) ∧
    ∀ config, Reading.machine.Rounds loader (compileStart source options) config →
      config.2.depth ≤ options.includeLimit + 1 ∧
        config.2.nextLine.2.depth ≤ options.includeLimit + 1 := by
  refine ⟨Reading.machine.exists_not_round loader, ?_, ?_⟩
  · obtain ⟨last, hrounds, hends⟩ :=
      Reading.machine.exists_ends loader (compileStart source options)
    exact ⟨last, _, hrounds, hends, compile_eq_run source options loader⟩
  · intro config hrounds
    have hstart : (compileStart source options).2.depth ≤ options.includeLimit + 1 :=
      Nat.succ_le_succ (Nat.zero_le _)
    have hdepth := hrounds.depth_le hstart
    exact ⟨hdepth, (Source.depth_of_nextLine rfl).trans hdepth⟩

/-- Two sources that include each other, until there is no room for another. -/
theorem compile_ends_mutual :
    let sources := Loader.ofList [("a", "#include \"b\""), ("b", "\n#include \"a\"")]
    let options : Options := ⟨.standard, 2⟩
    ∃ last answer,
      Reading.machine.Rounds sources (compileStart "#include \"a\"" options) last ∧
      Reading.machine.Ends sources last answer ∧ last.2.depth ≤ 3 ∧
      answer.map (fun (script, after) => { script with includes := after.included })
        = .error ⟨.declaration (.includeDepth 2 "a"), 2⟩ := by
  intro sources options
  obtain ⟨-, ⟨last, answer, hrounds, hends, hanswer⟩, hdepth⟩ :=
    compile_ends "#include \"a\"" options sources
  refine ⟨last, answer, hrounds, hends, (hdepth last hrounds).1, ?_⟩
  have hcomputed : (compileFor 5 "#include \"a\"" options sources).bind fault?
      = some ⟨.declaration (.includeDepth 2 "a"), 2⟩ := by decide
  rw [← hanswer]
  exact compile_eq_error_of_compileFor hcomputed

end LslFront
