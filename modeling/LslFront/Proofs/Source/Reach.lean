import LslFront.Proofs.Success
import LslFront.Source.Machine

/-!
# Where machines come to

The states that a machine can come to, whatever lines it is given, are those that `Machine.Reaches`
holds of.  What a run over a source gives is what the machine gives in one of them; apart from
that, a run can only fail where the source fails.  So what is to hold after every run is shown of
the states that are reached, one line at a time.
-/

namespace LslFront

variable {σ ρ : Type} {limit : Nat} {machine : Machine σ ρ} {loader : Loader}

/-- The machine can come from `start` to a state. -/
inductive Machine.Reaches (machine : Machine σ ρ) (start : σ) : σ → Prop where
  | start : Reaches machine start start
  | more {state next line} : Reaches machine start state →
      machine.step state line = .ok (.more next) → Reaches machine start next
  | splice {state next line name once} : Reaches machine start state →
      machine.step state line = .ok (.splice next name once) → Reaches machine start next

/-- The machine gives a result in this state, on a line or at the end of the source. -/
inductive Machine.Gives (machine : Machine σ ρ) (state : σ) : Except Fault ρ → Prop where
  | refused {line fault} : machine.step state line = .error fault →
      Gives machine state (.error fault)
  | finished {line result} : machine.step state line = .ok (.finished result) →
      Gives machine state (.ok result)
  | atEnd {lastLine answer} : machine.atEnd state lastLine = answer → Gives machine state answer

/-- The line is one that a lexer gives. -/
def Line.Lexed (line : Line) : Prop :=
  ∃ lexer after : Lexer, lexer.nextLine = (.ok (some line), after)

/-- The causes for which a source fails by itself: it cannot be cut into lines, or a source that it
    includes cannot be had. -/
inductive Cause.OfSource : Cause → Prop where
  | lexical cause source : OfSource (.lexical cause source)
  | unreadable name failure : OfSource (.unreadable name failure)
  | tooDeep limit name : OfSource (.declaration (.includeDepth limit name))

theorem Lexer.ofSource_of_nextLine {lexer after : Lexer} {fault : Fault}
    (h : lexer.nextLine = (.error fault, after)) : fault.cause.OfSource := by
  simp only [nextLine] at h
  split at h
  · simp at h
  · cases h
    exact .lexical _ _

theorem ofSource_of_pullLine {top : Lexer} {below : List Lexer} {fault : Fault}
    (h : (pullLine top below).1 = .error fault) : fault.cause.OfSource := by
  induction below generalizing top with
  | nil => exact Lexer.ofSource_of_nextLine (Prod.ext h rfl)
  | cons next rest ih =>
      rw [pullLine] at h
      split at h
      · exact ih h
      · rename_i hline
        exact Lexer.ofSource_of_nextLine (hline.trans (Prod.ext h rfl))

theorem exists_lexer_of_pullLine {top : Lexer} {below : List Lexer} {line : Line}
    (h : (pullLine top below).1 = .ok (some line)) :
    ∃ lexer after : Lexer, lexer.nextLine = (.ok (some line), after) := by
  induction below generalizing top with
  | nil => exact ⟨top, top.nextLine.2, Prod.ext h rfl⟩
  | cons next rest ih =>
      rw [pullLine] at h
      split at h
      · exact ih h
      · rename_i hline
        exact ⟨top, _, hline.trans (Prod.ext h rfl)⟩

namespace Source

theorem ofSource_of_nextLine {source after : Source limit} {fault : Fault}
    (h : source.nextLine = (.error fault, after)) : fault.cause.OfSource := by
  simp only [nextLine] at h
  split at h
  · simp at h
  · exact ofSource_of_pullLine (congrArg Prod.fst h)

/-- One of the open sources has the line. -/
theorem exists_lexer_of_nextLine {source after : Source limit} {line : Line}
    (h : source.nextLine = (.ok (some line), after)) :
    ∃ lexer after : Lexer, lexer.nextLine = (.ok (some line), after) := by
  simp only [nextLine] at h
  split at h
  · rename_i found hfound
    obtain ⟨rfl, -⟩ : found = line ∧ _ := by simpa using h
    exact exists_lexer_of_pullLine hfound
  · exact exists_lexer_of_pullLine (Prod.mk.inj h).1

theorem ofSource_of_splice {source : Source limit} {name : String} {once : Bool} {cause : Cause}
    (h : source.splice loader name once = .error cause) : cause.OfSource := by
  unfold splice at h
  split at h
  · cases h
  · split at h
    · split at h
      · cases h
        exact .unreadable _ _
      · cases h
    · cases h
      exact .tooDeep _ _

/-- A run fails with errors of a kind if the source does and if the machine does in every state that
    has the invariant, on every line that a lexer can give. -/
theorem failsOnly_run {I : σ → Prop} {Q : Fault → Prop}
    (hsource : ∀ fault : Fault, fault.cause.OfSource → Q fault)
    (hstep : ∀ {state line}, I state → line.Lexed → FailsOnly Q (machine.step state line))
    (hmore : ∀ {state line next}, I state → line.Lexed →
      machine.step state line = .ok (.more next) → I next)
    (hsplice : ∀ {state line next name once}, I state → line.Lexed →
      machine.step state line = .ok (.splice next name once) → I next)
    (hend : ∀ {state} lastLine, I state → FailsOnly Q (machine.atEnd state lastLine))
    {start : σ} (hstart : I start) (source : Source limit) :
    FailsOnly Q (source.run machine loader start) := by
  fun_induction Source.run machine loader start source with
  | case1 state source fault after hline =>
      exact FailsOnly.error_iff.2 (hsource fault (ofSource_of_nextLine hline))
  | case2 state source after hline => exact (hend after.lastLine hstart).map _
  | case3 state source line after hline fault hfault =>
      exact FailsOnly.error_iff.2 (hstep hstart (exists_lexer_of_nextLine hline) fault hfault)
  | case4 => exact .ok _
  | case5 state source line after hline next hnext _ ih =>
      exact ih (hmore hstart (exists_lexer_of_nextLine hline) hnext)
  | case6 state source line after hline next name once hnext cause hcause =>
      exact FailsOnly.error_iff.2 (hsource _ (ofSource_of_splice hcause))
  | case7 state source line after hline next name once hnext answer opened hopened _ ih =>
      exact ih (hsplice hstart (exists_lexer_of_nextLine hline) hnext)

/-- A run fails where its source does, or gives what the machine gives in a state that it has come
    to. -/
theorem run_gives (machine : Machine σ ρ) (loader : Loader) (start : σ) (source : Source limit) :
    (∃ fault, source.run machine loader start = .error fault ∧ fault.cause.OfSource) ∨
      ∃ final, machine.Reaches start final ∧
        machine.Gives final ((source.run machine loader start).map Prod.fst) := by
  -- The state from which the rest is read changes, and the first one is kept.
  suffices h : ∀ state, machine.Reaches start state → ∀ source : Source limit,
      (∃ fault, source.run machine loader state = .error fault ∧ fault.cause.OfSource) ∨
        ∃ final, machine.Reaches start final ∧
          machine.Gives final ((source.run machine loader state).map Prod.fst) from
    h start .start source
  intro state hreach source
  fun_induction Source.run machine loader state source with
  | case1 state source fault after hline =>
      left
      exact ⟨fault, rfl, ofSource_of_nextLine hline⟩
  | case2 state source after hline =>
      right
      refine ⟨state, hreach, ?_⟩
      cases hresult : machine.atEnd state after.lastLine with
      | error fault => exact .atEnd hresult
      | ok result => exact .atEnd hresult
  | case3 state source line after hline fault hstep =>
      right
      exact ⟨state, hreach, .refused hstep⟩
  | case4 state source line after hline result hstep =>
      right
      exact ⟨state, hreach, .finished hstep⟩
  | case5 state source line after hline next hstep _ ih => exact ih (hreach.more hstep)
  | case6 state source line after hline next name once hstep cause hsplice =>
      left
      exact ⟨_, rfl, ofSource_of_splice hsplice⟩
  | case7 state source line after hline next name once hstep answer opened hsplice _ ih =>
      exact ih (hreach.splice hstep)

variable {start : σ} {source after : Source limit}

theorem run_eq_ok {result : ρ} (h : source.run machine loader start = .ok (result, after)) :
    ∃ final, machine.Reaches start final ∧ machine.Gives final (.ok result) := by
  rcases run_gives machine loader start source with ⟨_, hfault, -⟩ | ⟨final, hreach, hgives⟩
  · rw [h] at hfault
    cases hfault
  · rw [h] at hgives
    exact ⟨final, hreach, hgives⟩

theorem run_eq_error {fault : Fault} (h : source.run machine loader start = .error fault) :
    fault.cause.OfSource ∨
      ∃ final, machine.Reaches start final ∧ machine.Gives final (.error fault) := by
  rcases run_gives machine loader start source with ⟨_, hfault, hof⟩ | ⟨final, hreach, hgives⟩
  · left
    rw [h] at hfault
    cases hfault
    exact hof
  · right
    rw [h] at hgives
    exact ⟨final, hreach, hgives⟩

end Source

end LslFront
