import LslFront.Fault
import Mathlib

/-!
# When a computation succeeds

The library's readers are computations in `Except`.  Each lemma says what the success of a compound
computation means for its parts, so that proofs about readers take them apart by name.  `FailsOnly`
says with which errors a computation can fail, and `Carries` compares the successes of two
computations, again by their parts.
-/

namespace LslFront

variable {α β ε ε' : Type}

@[simp] theorem pure_eq_ok (a : α) : (pure a : Except ε α) = .ok a := rfl

@[simp] theorem ok_bind (a : α) (next : α → Except ε β) : (Except.ok a >>= next) = next a := rfl

@[simp] theorem error_bind (e : ε) (next : α → Except ε β) :
    ((.error e : Except ε α) >>= next) = .error e := rfl

@[simp] theorem ok_map (a : α) (f : α → β) : (Except.ok a : Except ε α).map f = .ok (f a) := rfl

@[simp] theorem ok_mapError (a : α) (f : ε → ε') :
    (Except.ok a : Except ε α).mapError f = .ok a := rfl

@[simp] theorem bind_eq_ok_iff {first : Except ε α} {next : α → Except ε β} {b : β} :
    first >>= next = .ok b ↔ ∃ a, first = .ok a ∧ next a = .ok b := by
  cases first with
  | error e => simp
  | ok a => simp

@[simp] theorem map_eq_ok_iff {result : Except ε α} {f : α → β} {b : β} :
    result.map f = .ok b ↔ ∃ a, result = .ok a ∧ f a = b := by
  cases result with
  | error e => simp [Except.map]
  | ok a => simp

theorem map_eq_error_iff {result : Except ε α} {f : α → β} {e : ε} :
    result.map f = .error e ↔ result = .error e := by
  cases result with
  | error e => simp [Except.map]
  | ok a => simp

@[simp] theorem mapError_eq_ok_iff {result : Except ε α} {f : ε → ε'} {a : α} :
    result.mapError f = .ok a ↔ result = .ok a := by
  cases result with
  | error e => simp [Except.mapError]
  | ok a => simp

theorem onLine_eq_ok_iff {result : Except Cause α} {line : Nat} {a : α} :
    onLine line result = .ok a ↔ result = .ok a :=
  mapError_eq_ok_iff

theorem exists_of_mapM_eq_ok {f : α → Except ε β} {as : List α} {bs : List β}
    (h : as.mapM f = .ok bs) : ∀ a ∈ as, ∃ b, f a = .ok b := by
  induction as generalizing bs with
  | nil => exact fun a ha => absurd ha List.not_mem_nil
  | cons first rest ih =>
      simp only [List.mapM_cons, bind_eq_ok_iff, pure_eq_ok, Except.ok.injEq] at h
      obtain ⟨b, hb, others, hothers, -⟩ := h
      exact List.forall_mem_cons.mpr ⟨⟨b, hb⟩, ih hothers⟩

/-! ### Folds that can fail -/

section

variable {step : β → α → Option β} {tokens more : List α} {before after : β}

theorem foldlM_cons_eq_some_iff {token : α} :
    (token :: tokens).foldlM step before = some after ↔
      ∃ between, step before token = some between ∧ tokens.foldlM step between = some after := by
  rw [List.foldlM_cons, Option.bind_eq_bind, Option.bind_eq_some_iff]

theorem foldlM_append_eq_some_iff : (tokens ++ more).foldlM step before = some after ↔
    ∃ between, tokens.foldlM step before = some between ∧
      more.foldlM step between = some after := by
  rw [List.foldlM_append, Option.bind_eq_bind, Option.bind_eq_some_iff]

end

/-! ### Failure -/

/-- If the computation fails, then with an error of this kind. -/
def FailsOnly (P : ε → Prop) (result : Except ε α) : Prop :=
  ∀ e, result = .error e → P e

namespace FailsOnly

variable {P : ε → Prop}

@[simp] theorem ok (a : α) : FailsOnly P (.ok a) :=
  fun _ h => by cases h

@[simp] theorem error_iff {e : ε} : FailsOnly P (.error e : Except ε α) ↔ P e := by
  constructor
  · exact fun h => h e rfl
  · intro he found h
    cases h
    exact he

theorem bind {first : Except ε α} {next : α → Except ε β} (hfirst : FailsOnly P first)
    (hnext : ∀ a, first = .ok a → FailsOnly P (next a)) : FailsOnly P (first >>= next) := by
  cases first with
  | error e => exact error_iff.2 (error_iff.1 hfirst)
  | ok a => exact hnext a rfl

theorem map {result : Except ε α} (h : FailsOnly P result) (f : α → β) :
    FailsOnly P (result.map f) := by
  cases result with
  | error e => exact error_iff.2 (error_iff.1 h)
  | ok a => exact ok (f a)

theorem mapError {result : Except ε α} {f : ε → ε'} {Q : ε' → Prop}
    (h : ∀ e, result = .error e → Q (f e)) : FailsOnly Q (result.mapError f) := by
  cases result with
  | error e => exact error_iff.2 (h e rfl)
  | ok a => exact ok a

end FailsOnly

/-! ### Two computations -/

/-- If the first computation succeeds, so does the second, with a related result. -/
def Carries {α' : Type} (R : α → α' → Prop) (first : Except ε α) (second : Except ε α') : Prop :=
  ∀ a, first = .ok a → ∃ b, second = .ok b ∧ R a b

namespace Carries

variable {α' β' : Type} {R : α → α' → Prop} {S : β → β' → Prop}

theorem ok {a : α} {b : α'} (h : R a b) : Carries R (.ok a : Except ε α) (.ok b) := by
  rintro _ ⟨⟩
  exact ⟨b, rfl, h⟩

@[simp] theorem error (e : ε) (second : Except ε α') : Carries R (.error e) second :=
  fun _ h => by cases h

/-- A computation and itself. -/
theorem same {R : α → α → Prop} {result : Except ε α} (h : ∀ a, result = .ok a → R a a) :
    Carries R result result :=
  fun a ha => ⟨a, ha, h a ha⟩

/-- What a computation that is compared with itself gives is related to itself. -/
theorem self {R : α → α → Prop} {result : Except ε α} {a : α} (h : Carries R result result)
    (ha : result = .ok a) : R a a := by
  obtain ⟨b, hb, hab⟩ := h a ha
  rw [ha] at hb
  cases hb
  exact hab

theorem bind {first : Except ε α} {second : Except ε α'} {next : α → Except ε β}
    {next' : α' → Except ε β'} (h : Carries R first second)
    (hnext : ∀ a b, R a b → Carries S (next a) (next' b)) :
    Carries S (first >>= next) (second >>= next') := by
  cases first with
  | error e => exact error e _
  | ok a =>
      obtain ⟨b, rfl, hab⟩ := h a rfl
      exact hnext a b hab

/-- Two computations that begin alike. -/
theorem bind_same {first : Except ε α} {next : α → Except ε β} {next' : α → Except ε β'}
    (hnext : ∀ a, first = .ok a → Carries S (next a) (next' a)) :
    Carries S (first >>= next) (first >>= next') := by
  cases first with
  | error e => exact error e _
  | ok a => exact hnext a rfl

theorem map {first : Except ε α} {second : Except ε α'} {f : α → β} {g : α' → β'}
    (h : Carries R first second) (hmap : ∀ a b, R a b → S (f a) (g b)) :
    Carries S (first.map f) (second.map g) := by
  cases first with
  | error e => exact error e _
  | ok a =>
      obtain ⟨b, rfl, hab⟩ := h a rfl
      exact ok (hmap a b hab)

theorem mapError {first : Except ε α} {second : Except ε α'} (f g : ε → ε')
    (h : Carries R first second) : Carries R (first.mapError f) (second.mapError g) := by
  cases first with
  | error e => exact error (f e) _
  | ok a =>
      obtain ⟨b, rfl, hab⟩ := h a rfl
      exact ok hab

end Carries

/-- It does not matter to which lines failures are laid. -/
theorem Carries.onLine {α' : Type} {R : α → α' → Prop} {first : Except Cause α}
    {second : Except Cause α'} (line line' : Nat) (h : Carries R first second) :
    Carries R (onLine line first) (onLine line' second) :=
  h.mapError (Fault.mk · line) (Fault.mk · line')

end LslFront
