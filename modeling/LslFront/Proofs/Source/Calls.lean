import LslFront.Proofs.Source.Rounds

/-!
# Calls on a source

Whoever reads a source takes lines from it and asks it to open other sources, in any order.  A
source is opened whole or not at all: a call that is refused, or that finds the source included
already, leaves the place as it is, and so whatever is asked later is answered as if the call had
not been made.  The names of the sources that have been opened are kept in the order in which they
were first opened, each of them once.
-/

namespace LslFront

namespace Source

variable {limit : Nat}

/-! ### Histories -/

/-- What can be asked of a source. -/
inductive Call where
  | line
  /-- Another source is to be opened here, for the line `number`.  The loader is the one of this
      moment, for what stands behind it may change from call to call. -/
  | splice (loader : Loader) (name : String) (once : Bool) (number : Nat)

/-- What a call gives. -/
inductive Answer where
  | line (result : Except Fault (Option Line))
  | splice (result : Except Fault Bool)
deriving DecidableEq

def call (source : Source limit) : Call → Answer × Source limit
  | .line => (.line source.nextLine.1, source.nextLine.2)
  | .splice loader name once number =>
      match source.splice loader name once with
      | .ok (answer, after) => (.splice (.ok answer), after)
      | .error cause => (.splice (.error ⟨cause, number⟩), source)

/-- A call with its answer, and what the source tells of itself after it. -/
structure Event where
  call : Call
  answer : Answer
  included : List String
  lastLine : Nat

/-- The name of the source that has been opened. -/
def Event.opened? (event : Event) : Option String :=
  match event.call, event.answer with
  | .splice _ name _ _, .splice (.ok true) => some name
  | _, _ => none

/-- What calls give, one after the other, and the place after them. -/
def history (source : Source limit) : List Call → List Event × Source limit
  | [] => ([], source)
  | call :: rest =>
      let called := source.call call
      let others := called.2.history rest
      (⟨call, called.1, called.2.included, called.2.lastLine⟩ :: others.1, others.2)

theorem history_append (source : Source limit) (first rest : List Call) :
    source.history (first ++ rest)
      = ((source.history first).1 ++ ((source.history first).2.history rest).1,
          ((source.history first).2.history rest).2) := by
  induction first generalizing source with
  | nil => rfl
  | cons call first ih => simp only [List.cons_append, history, ih]

/-! ### One call -/

/-- Why a call opens no source, and what it gives then. -/
inductive Declines (source : Source limit) (loader : Loader) (name : String) (once : Bool)
    (number : Nat) : Except Fault Bool → Prop where
  | included : once → name ∈ source.included →
      Declines source loader name once number (.ok false)
  | tooDeep : limit ≤ source.below.length →
      Declines source loader name once number
        (.error ⟨.declaration (.includeDepth limit name), number⟩)
  | unreadable {failure} : loader name = .error failure →
      Declines source loader name once number (.error ⟨.unreadable name failure, number⟩)

section

variable {source after : Source limit} {loader : Loader} {name : String} {once : Bool}
  {number : Nat} {answer : Answer}

/-- A source is opened and its name is remembered, or the call is declined and the source is as it
    was. -/
theorem splice_cases (h : source.call (.splice loader name once number) = (answer, after)) :
    (∃ result, answer = .splice result ∧ source.Declines loader name once number result ∧
        after = source) ∨
      answer = .splice (.ok true) ∧ after.included
        = if name ∈ source.included then source.included else source.included ++ [name] := by
  simp only [call, splice] at h
  split at h
  · rename_i found opened hsplice
    split at hsplice
    · rename_i hknown
      cases hsplice
      cases h
      rw [Bool.and_eq_true, List.contains_iff_mem] at hknown
      exact .inl ⟨_, rfl, .included hknown.1 hknown.2, rfl⟩
    · split at hsplice
      · split at hsplice
        · cases hsplice
        · cases hsplice
          cases h
          exact .inr ⟨rfl, by simp⟩
      · cases hsplice
  · rename_i cause hsplice
    cases h
    split at hsplice
    · cases hsplice
    · split at hsplice
      · split at hsplice
        · rename_i failure hloader
          cases hsplice
          exact .inl ⟨_, rfl, .unreadable hloader, rfl⟩
        · cases hsplice
      · rename_i hroom
        cases hsplice
        exact .inl ⟨_, rfl, .tooDeep (Nat.le_of_not_lt hroom), rfl⟩

theorem included_nextLine (source : Source limit) :
    source.nextLine.2.included = source.included := by
  simp only [nextLine]
  split <;> rfl

theorem call_splice_of_mem (h : name ∈ source.included) (loader : Loader) (number : Nat) :
    source.call (.splice loader name true number) = (.splice (.ok false), source) := by
  have hknown : (true && source.included.contains name) = true := by
    simpa using h
  simp only [call, splice, hknown, if_true]

end

/-! ### What is remembered -/

/-- The source has been told to include these names, one after the other. -/
structure Remembers (source : Source limit) (names : List String) : Prop where
  once : source.included.Nodup
  firsts : source.included = names.eraseDups

theorem remembers_ofText (text : String) (limit : Nat) : (ofText text limit).Remembers [] where
  once := List.nodup_nil
  firsts := rfl

variable {source after : Source limit} {names : List String}

theorem Remembers.insert (h : source.Remembers names) {name : String}
    (hafter : after.included
      = if name ∈ source.included then source.included else source.included ++ [name]) :
    after.Remembers (names ++ [name]) := by
  have hmem : name ∈ source.included ↔ name ∈ names := by rw [h.firsts, List.mem_eraseDups]
  by_cases hknown : name ∈ source.included
  · rw [if_pos hknown] at hafter
    constructor
    · rw [hafter]
      exact h.once
    · rw [hafter, h.firsts, List.eraseDups_append]
      simp [List.removeAll, hmem.mp hknown]
  · rw [if_neg hknown] at hafter
    constructor
    · rw [hafter]
      exact List.nodup_append'.mpr ⟨h.once, List.nodup_singleton name, by simpa using hknown⟩
    · have hnew : [name].removeAll names = [name] := by
        simpa [List.removeAll] using fun hnames => hknown (hmem.mpr hnames)
      rw [hafter, h.firsts, List.eraseDups_append, hnew, List.eraseDups_cons]
      simp

/-- A call remembers the name of the source that it opens, and nothing else. -/
theorem Remembers.call (h : source.Remembers names) {call : Call} {answer : Answer}
    (hcall : source.call call = (answer, after)) (included : List String) (lastLine : Nat) :
    after.Remembers (names ++ (Event.opened? ⟨call, answer, included, lastLine⟩).toList) := by
  cases call with
  | line =>
      obtain ⟨rfl, rfl⟩ := Prod.mk.inj hcall
      have hsame := included_nextLine source
      simp only [Event.opened?, Option.toList_none, List.append_nil]
      exact ⟨hsame ▸ h.once, hsame ▸ h.firsts⟩
  | splice loader name once number =>
      rcases splice_cases hcall with ⟨result, rfl, hdeclines, rfl⟩ | ⟨rfl, hincluded⟩
      · cases hdeclines <;> simpa [Event.opened?] using h
      · exact h.insert hincluded

theorem Remembers.history (h : source.Remembers names) {calls : List Call} {events : List Event}
    (hcalls : source.history calls = (events, after)) :
    after.Remembers (names ++ events.filterMap Event.opened?) := by
  induction calls generalizing source names events with
  | nil =>
      cases hcalls
      simpa using h
  | cons call rest ih =>
      rcases hcall : source.call call with ⟨answer, next⟩
      simp only [Source.history, hcall] at hcalls
      obtain ⟨rfl, rfl⟩ := Prod.mk.inj hcalls
      have hrest := ih (h.call hcall next.included next.lastLine) rfl
      rw [List.append_assoc] at hrest
      rw [List.filterMap_cons]
      split
      · rename_i hnone
        rwa [hnone] at hrest
      · rename_i name hname
        rwa [hname] at hrest

/-- A call that opens nothing is seen in its own answer only. -/
theorem history_of_declined {first later : List Call} {events : List Event} {call : Call}
    {answer : Answer} {start : Source limit} (h : start.history first = (events, source))
    (hcall : source.call call = (answer, source)) :
    ∃ more last, start.history (first ++ later) = (events ++ more, last) ∧
      start.history (first ++ call :: later)
        = (events ++ ⟨call, answer, source.included, source.lastLine⟩ :: more, last) := by
  refine ⟨(source.history later).1, (source.history later).2, ?_, ?_⟩
  · rw [history_append, h]
  · rw [history_append, h, history, hcall]

end Source

/-- Whatever calls have been made on a source: it has been told to include the names of the sources
    that have been opened, in the order in which they were first opened, and none of them twice; a
    call for one of them that asks for it once opens nothing; and a call that opens nothing says
    why, leaves the source as it was, and changes no later answer. -/
theorem includes_atomic {text : String} {limit : Nat} {calls : List Source.Call}
    {events : List Source.Event} {source : Source limit}
    (h : (Source.ofText text limit).history calls = (events, source)) :
    source.included = (events.filterMap Source.Event.opened?).eraseDups ∧
      source.included.Nodup ∧
      (∀ name ∈ source.included, ∀ loader number,
        source.call (.splice loader name true number) = (.splice (.ok false), source)) ∧
      ∀ loader name once number answer after,
        source.call (.splice loader name once number) = (.splice answer, after) →
        answer ≠ .ok true →
          source.Declines loader name once number answer ∧ after = source ∧
          ∀ later, ∃ more last,
            (Source.ofText text limit).history (calls ++ later) = (events ++ more, last) ∧
            (Source.ofText text limit).history (calls ++ .splice loader name once number :: later)
              = (events ++ ⟨.splice loader name once number, .splice answer, source.included,
                  source.lastLine⟩ :: more, last) := by
  have hremembers := (Source.remembers_ofText text limit).history h
  refine ⟨hremembers.firsts, hremembers.once, ?_, ?_⟩
  · exact fun name hname loader number => Source.call_splice_of_mem hname loader number
  · intro loader name once number answer after hcall hdeclined
    rcases Source.splice_cases hcall with ⟨result, heq, hdeclines, rfl⟩ | ⟨heq, -⟩
    · cases heq
      exact ⟨hdeclines, rfl, fun later => Source.history_of_declined h hcall⟩
    · cases heq
      exact absurd rfl hdeclined

/-- One text cannot be read, one is not opened because another is open, and one because it has been
    opened before. -/
theorem includes_atomic_mixed :
    let loader := Loader.ofList [("a", "x;"), ("b", "y;")]
    let calls : List Source.Call := [.splice loader "c" false 1, .splice loader "b" true 2,
      .splice loader "a" false 3, .line, .line, .splice loader "a" false 4, .splice loader "b" true 5]
    let ran := (Source.ofText "z;" 1).history calls
    ran.1.map Source.Event.answer = [.splice (.error ⟨.unreadable "c" (.noSource "c"), 1⟩),
        .splice (.ok true), .splice (.error ⟨.declaration (.includeDepth 1 "a"), 3⟩),
        .line (.ok (some ⟨1, ["y", ";"]⟩)), .line (.ok (some ⟨1, ["z", ";"]⟩)), .splice (.ok true),
        .splice (.ok false)] ∧
      ran.2.included = ["b", "a"] ∧ (ran.1.filterMap Source.Event.opened?).eraseDups = ["b", "a"] ∧
      ∃ more last, (Source.ofText "z;" 1).history (calls ++ [.line]) = (ran.1 ++ more, last) ∧
        (Source.ofText "z;" 1).history (calls ++ .splice loader "b" true 6 :: [.line])
          = (ran.1 ++ ⟨.splice loader "b" true 6, .splice (.ok false), ["b", "a"], 1⟩ :: more,
              last) := by
  intro loader calls ran
  have hanswers : ran.1.map Source.Event.answer
      = [.splice (.error ⟨.unreadable "c" (.noSource "c"), 1⟩), .splice (.ok true),
        .splice (.error ⟨.declaration (.includeDepth 1 "a"), 3⟩),
        .line (.ok (some ⟨1, ["y", ";"]⟩)), .line (.ok (some ⟨1, ["z", ";"]⟩)), .splice (.ok true),
        .splice (.ok false)] := by decide
  have hincluded : ran.2.included = ["b", "a"] := by decide
  have hlast : ran.2.lastLine = 1 := by decide
  have hran : (Source.ofText "z;" 1).history calls = (ran.1, ran.2) := Prod.mk.eta.symm
  clear_value ran
  obtain ⟨hfirsts, -, hlisted, hdeclined⟩ := includes_atomic hran
  have hcall := hlisted "b" (by simp [hincluded]) loader 6
  obtain ⟨-, -, hunseen⟩ := hdeclined loader "b" true 6 (.ok false) ran.2 hcall (by decide)
  have hmore := hunseen [.line]
  rw [hincluded, hlast] at hmore
  exact ⟨hanswers, hincluded, by rw [← hfirsts, hincluded], hmore⟩

end LslFront
