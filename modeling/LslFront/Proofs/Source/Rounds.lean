import LslFront.Proofs.Source.Runs

/-!
# Rounds of a machine

`Source.run` is a loop.  One round of it takes a line, lets the machine make a step, and opens the
source that the machine may ask for; a run is a chain of rounds that has come to its last one.  An
included source can be of any length, so nothing simple decreases from round to round; the rank of
the source does, and the number of open sources is checked by `Source.splice` alone.
-/

namespace LslFront

section

variable {σ ρ : Type} {limit : Nat}

/-- One round: a line is taken, and the machine goes on. -/
inductive Machine.Round (machine : Machine σ ρ) (loader : Loader) :
    σ × Source limit → σ × Source limit → Prop where
  | more {state next : σ} {source place : Source limit} {line} :
      source.nextLine = (.ok (some line), place) → machine.step state line = .ok (.more next) →
      Round machine loader (state, source) (next, place)
  | splice {state next : σ} {source place opened : Source limit} {line name once answer} :
      source.nextLine = (.ok (some line), place) →
      machine.step state line = .ok (.splice next name once) →
      place.splice loader name once = .ok (answer, opened) →
      Round machine loader (state, source) (next, opened)

/-- The last round, and what the run gives. -/
inductive Machine.Ends (machine : Machine σ ρ) (loader : Loader) :
    σ × Source limit → Except Fault (ρ × Source limit) → Prop where
  | fault {state : σ} {source place : Source limit} {fault} :
      source.nextLine = (.error fault, place) → Ends machine loader (state, source) (.error fault)
  | atEnd {state : σ} {source place : Source limit} : source.nextLine = (.ok none, place) →
      Ends machine loader (state, source) ((machine.atEnd state place.lastLine).map (·, place))
  | refused {state : σ} {source place : Source limit} {line fault} :
      source.nextLine = (.ok (some line), place) → machine.step state line = .error fault →
      Ends machine loader (state, source) (.error fault)
  | finished {state : σ} {source place : Source limit} {line result} :
      source.nextLine = (.ok (some line), place) →
      machine.step state line = .ok (.finished result) →
      Ends machine loader (state, source) (.ok (result, place))
  | unopened {state next : σ} {source place : Source limit} {line name once cause} :
      source.nextLine = (.ok (some line), place) →
      machine.step state line = .ok (.splice next name once) →
      place.splice loader name once = .error cause →
      Ends machine loader (state, source) (.error ⟨cause, line.number⟩)

/-- Rounds lead from the first state and source to others. -/
abbrev Machine.Rounds (machine : Machine σ ρ) (loader : Loader) :
    σ × Source limit → σ × Source limit → Prop :=
  Relation.ReflTransGen (machine.Round loader)

variable {machine : Machine σ ρ} {loader : Loader}

/-! ### Every run ends -/

theorem Machine.Round.rank_lt {before after : σ × Source limit}
    (h : machine.Round loader before after) :
    Ranks.Lt (limit + 1) after.2.rank before.2.rank := by
  cases h with
  | more hline _ => exact Source.nextLine_rank_lt hline
  | splice hline _ hsplice => exact Source.splice_rank_lt hline hsplice

theorem Machine.wellFounded_round (machine : Machine σ ρ) (loader : Loader) :
    WellFounded fun after before : σ × Source limit => machine.Round loader before after :=
  Subrelation.wf Machine.Round.rank_lt
    (InvImage.wf (fun config : σ × Source limit => config.2.rank)
      (Ranks.wellFounded_lt (limit + 1)))

/-- No rounds go on for ever. -/
theorem Machine.exists_not_round (machine : Machine σ ρ) (loader : Loader)
    (rounds : Nat → σ × Source limit) :
    ∃ n, ¬ machine.Round loader (rounds n) (rounds (n + 1)) := by
  by_contra hendless
  rw [not_exists] at hendless
  have hround : ∀ n, machine.Round loader (rounds n) (rounds (n + 1)) :=
    fun n => not_not.mp (hendless n)
  -- A configuration from which no round leads on is among them.
  obtain ⟨config, ⟨n, rfl⟩, hlast⟩ :=
    (machine.wellFounded_round loader).has_min (Set.range rounds) ⟨rounds 0, 0, rfl⟩
  exact hlast (rounds (n + 1)) ⟨n + 1, rfl⟩ (hround n)

/-- A run is a chain of rounds up to the last one, which gives its answer. -/
theorem Machine.exists_ends (machine : Machine σ ρ) (loader : Loader)
    (config : σ × Source limit) :
    ∃ last, machine.Rounds loader config last ∧
      machine.Ends loader last (config.2.run machine loader config.1) := by
  have hwell : WellFounded fun after before : σ × Source limit =>
      machine.Round loader before after := machine.wellFounded_round loader
  induction config using hwell.induction with
  | _ config ih =>
      obtain ⟨state, source⟩ := config
      have hgoes : ∀ next, machine.Round loader (state, source) next →
          source.run machine loader state = next.2.run machine loader next.1 →
          ∃ last, machine.Rounds loader (state, source) last ∧
            machine.Ends loader last (source.run machine loader state) := by
        intro next hround hrun
        obtain ⟨last, hrounds, hends⟩ := ih next hround
        exact ⟨last, .head hround hrounds, hrun ▸ hends⟩
      simp only
      rcases hline : source.nextLine with ⟨_ | _ | line, place⟩
      · rw [Source.run_of_fault loader hline]
        exact ⟨_, .refl, .fault hline⟩
      · rw [Source.run_of_end loader hline]
        exact ⟨_, .refl, .atEnd hline⟩
      · rcases hstep : machine.step state line with fault | next | ⟨next, name, once⟩ | result
        · rw [Source.run_of_refused loader hline hstep]
          exact ⟨_, .refl, .refused hline hstep⟩
        · exact hgoes (next, place) (.more hline hstep) (Source.run_of_more loader hline hstep)
        · have hrun : source.run machine loader state = _ := Source.run_of_splice hline hstep
          rcases hsplice : place.splice loader name once with cause | ⟨answer, opened⟩
          · rw [hsplice] at hrun
            rw [hrun]
            exact ⟨_, .refl, .unopened hline hstep hsplice⟩
          · rw [hsplice] at hrun
            exact hgoes (next, opened) (.splice hline hstep hsplice) hrun
        · rw [Source.run_of_finished loader hline hstep]
          exact ⟨_, .refl, .finished hline hstep⟩

/-! ### Open sources -/

namespace Source

variable {source place opened : Source limit}

/-- Taking a line opens no source. -/
theorem depth_of_nextLine {result : Except Fault (Option Line)}
    (h : source.nextLine = (result, place)) : place.depth ≤ source.depth := by
  have hlength := pullLine_length_le source.top source.below
  simp only [nextLine] at h
  split at h
  · obtain ⟨-, rfl⟩ := Prod.mk.inj h
    exact Nat.succ_le_succ hlength
  · obtain ⟨-, rfl⟩ := Prod.mk.inj h
    exact Nat.succ_le_succ hlength

/-- A source is left as it is, or another one is opened on top of it if there is room. -/
theorem exists_of_splice {name : String} {once answer : Bool}
    (h : source.splice loader name once = .ok (answer, opened)) :
    (answer = false ∧ opened = source) ∨
      ∃ text, answer = true ∧ loader name = .ok text ∧ source.depth ≤ limit ∧
        opened.top = .ofText text name ∧ opened.below = source.top :: source.below ∧
        opened.lastLine = source.lastLine := by
  unfold splice at h
  split at h
  · obtain ⟨rfl, rfl⟩ := Prod.mk.inj (Except.ok.inj h)
    exact .inl ⟨rfl, rfl⟩
  · split at h
    · rename_i hroom
      split at h
      · cases h
      · rename_i text htext
        obtain ⟨rfl, rfl⟩ := Prod.mk.inj (Except.ok.inj h)
        exact .inr ⟨text, rfl, htext, hroom, rfl, rfl, rfl⟩
    · cases h

theorem depth_of_splice {name : String} {once answer : Bool} (hdepth : source.depth ≤ limit + 1)
    (h : source.splice loader name once = .ok (answer, opened)) : opened.depth ≤ limit + 1 := by
  rcases exists_of_splice h with ⟨-, rfl⟩ | ⟨text, -, -, hroom, -, hbelow, -⟩
  · exact hdepth
  · rw [depth, hbelow]
    exact Nat.succ_le_succ hroom

end Source

/-- However many rounds are made, no more sources are open than the limit allows. -/
theorem Machine.Rounds.depth_le {first config : σ × Source limit}
    (h : machine.Rounds loader first config) (hfirst : first.2.depth ≤ limit + 1) :
    config.2.depth ≤ limit + 1 := by
  induction h with
  | refl => exact hfirst
  | tail _ hround ih =>
      cases hround with
      | more hline _ => exact (Source.depth_of_nextLine hline).trans ih
      | splice hline _ hsplice =>
          exact Source.depth_of_splice ((Source.depth_of_nextLine hline).trans ih) hsplice

end

end LslFront
