import LslFront.Source

/-!
# Why reading a source ends

Lines are taken from the innermost open source, so the outer ones are read more slowly.  Compare
the stacks of open sources from the outermost source inwards, by how many characters each has
left, a source that is not open counting least.  Taking a line makes the stack smaller in this
order, even when another source is opened right after it.  As no more than `limit + 1` sources are
ever open, the order is well founded.
-/

namespace LslFront

/-- A place in each of `n` nested sources, outermost first. -/
def Ranks : Nat → Type
  | 0 => Unit
  | n + 1 => Nat × Ranks n

namespace Ranks

/-- The places are compared one after the other. -/
def Lt : (n : Nat) → Ranks n → Ranks n → Prop
  | 0 => fun _ _ => False
  | n + 1 => Prod.Lex (· < ·) (Lt n)

theorem wellFounded_lt : (n : Nat) → WellFounded (Lt n)
  | 0 => ⟨fun place => ⟨place, fun _ less => less.elim⟩⟩
  | n + 1 => (Prod.lex Nat.lt_wfRel ⟨Lt n, wellFounded_lt n⟩).wf

instance (n : Nat) : WellFoundedRelation (Ranks n) := ⟨Lt n, wellFounded_lt n⟩

/-- The ranks of the characters left in each open source. -/
def ofList : (n : Nat) → List Nat → Ranks n
  | 0, _ => ()
  | n + 1, [] => (0, ofList n [])
  | n + 1, left :: rest => (left + 1, ofList n rest)

/-- Less is left somewhere, and what is deeper does not matter. -/
theorem ofList_lt {before deeper deeper' : List Nat} {left left' : Nat} (less : left' < left) :
    ∀ {n : Nat}, before.length < n →
      Lt n (ofList n (before ++ left' :: deeper')) (ofList n (before ++ left :: deeper)) := by
  induction before with
  | nil =>
      intro n room
      obtain ⟨m, rfl⟩ : ∃ m, n = m + 1 := ⟨n - 1, by simp at room; omega⟩
      exact Prod.Lex.left _ _ (Nat.succ_lt_succ less)
  | cons first rest ih =>
      intro n room
      obtain ⟨m, rfl⟩ : ∃ m, n = m + 1 := ⟨n - 1, by simp at room; omega⟩
      exact Prod.Lex.right _ (ih (by simpa using room))

end Ranks

/-! ### The stack of open sources -/

/-- The characters left in a stack of sources, outermost first. -/
def charactersLeft (top : Lexer) (below : List Lexer) : List Nat :=
  (below.reverse.map (·.rest.length)) ++ [top.rest.length]

theorem charactersLeft_cons (top next : Lexer) (below : List Lexer) :
    charactersLeft top (next :: below) = charactersLeft next below ++ [top.rest.length] := by
  simp [charactersLeft]

/-- A line comes out of some source of the stack, which then has less left; the sources outside
    of it are as they were. -/
theorem pullLine_charactersLeft {top : Lexer} {below : List Lexer} {line : Line}
    (h : (pullLine top below).1 = .ok (some line)) :
    ∃ before left left' deeper, left' < left ∧ before.length ≤ below.length ∧
      charactersLeft top below = before ++ left :: deeper ∧
      charactersLeft (pullLine top below).2.1 (pullLine top below).2.2 = before ++ [left'] := by
  induction below generalizing top with
  | nil =>
      exact ⟨[], top.rest.length, top.nextLine.2.rest.length, [],
        Lexer.nextLine_rest_lt (Prod.ext h rfl), Nat.le_refl _, rfl, rfl⟩
  | cons next rest ih =>
      cases read : top.nextLine with
      | mk result after =>
          match result with
          | .ok none =>
              simp only [pullLine, read] at h ⊢
              obtain ⟨before, left, left', deeper, less, size, old, new⟩ := ih h
              refine ⟨before, left, left', deeper ++ [top.rest.length], less,
                Nat.le_succ_of_le size, ?_, new⟩
              rw [charactersLeft_cons, old]
              simp
          | .ok (some found) =>
              simp only [pullLine, read]
              exact ⟨charactersLeft next rest, top.rest.length, after.rest.length, [],
                Lexer.nextLine_rest_lt read, by simp [charactersLeft],
                charactersLeft_cons .., charactersLeft_cons ..⟩
          | .error fault => simp [pullLine, read] at h

namespace Source

variable {limit : Nat}

def rank (source : Source limit) : Ranks (limit + 1) :=
  .ofList (limit + 1) (charactersLeft source.top source.below)

/-- What is left after a line has been taken, as it was before it. -/
theorem nextLine_charactersLeft {source after : Source limit} {line : Line}
    (h : source.nextLine = (.ok (some line), after)) :
    ∃ before left left' deeper, left' < left ∧ before.length < limit + 1 ∧
      charactersLeft source.top source.below = before ++ left :: deeper ∧
      charactersLeft after.top after.below = before ++ [left'] := by
  simp only [nextLine] at h
  split at h
  · rename_i found pulled
    obtain ⟨rfl, rfl⟩ : found = line ∧ _ = after := by simpa using h
    obtain ⟨before, left, left', deeper, less, size, old, new⟩ := pullLine_charactersLeft pulled
    exact ⟨before, left, left', deeper, less,
      Nat.lt_succ_of_le (Nat.le_trans size source.shallow), old, new⟩
  · rename_i other
    exact absurd (Prod.mk.inj h).1 (other line)

theorem nextLine_rank_lt {source after : Source limit} {line : Line}
    (h : source.nextLine = (.ok (some line), after)) :
    Ranks.Lt (limit + 1) after.rank source.rank := by
  obtain ⟨before, left, left', deeper, less, room, old, new⟩ := nextLine_charactersLeft h
  rw [rank, rank, old, new]
  exact Ranks.ofList_lt less room

theorem splice_rank_lt {source after opened : Source limit} {line : Line} {loader : Loader}
    {name : String} {once answer : Bool} (h : source.nextLine = (.ok (some line), after))
    (spliced : after.splice loader name once = .ok (answer, opened)) :
    Ranks.Lt (limit + 1) opened.rank source.rank := by
  unfold splice at spliced
  split at spliced
  · obtain ⟨-, rfl⟩ : false = answer ∧ after = opened := by simpa using spliced
    exact nextLine_rank_lt h
  · split at spliced
    · split at spliced
      · simp at spliced
      · rename_i text _
        obtain ⟨-, rfl⟩ : true = answer ∧ _ = opened := by simpa using spliced
        obtain ⟨before, left, left', deeper, less, room, old, new⟩ := nextLine_charactersLeft h
        rw [rank, rank, old, charactersLeft_cons, new, List.append_assoc]
        exact Ranks.ofList_lt less room
    · simp at spliced

end Source

end LslFront
