import LslFront.Proofs.Expr.Brackets
import LslFront.Proofs.Success

/-!
# Headers around expressions

Where the brackets of a header are balanced, it is cut out of its line at the parenthesis that
closes it, and the header of a `for` falls apart at its own semicolons.
-/

namespace LslFront

def isUncontrolled (tokens : List String) : Bool :=
  tokens.all fun token => !Builtin.isControl token

theorem isControl_of_opens {token : String} (h : opensBracket token) :
    Builtin.isControl token = false := by
  simp only [opensBracket, Bool.or_eq_true, beq_iff_eq] at h
  rcases h with rfl | rfl <;> decide

theorem isControl_of_closes {token : String} (h : closesBracket token) :
    Builtin.isControl token = false := by
  simp only [closesBracket, Bool.or_eq_true, beq_iff_eq] at h
  rcases h with rfl | rfl <;> decide

theorem not_opens_of_closes {token : String} (h : closesBracket token) :
    opensBracket token = false := by
  simp only [closesBracket, Bool.or_eq_true, beq_iff_eq] at h
  rcases h with rfl | rfl <;> decide

/-! ### One token of a header -/

section

variable {keyword token : String} {rest : List String} {depth inner : Nat}

/-- Only a closing bracket can have no place in the count. -/
theorem bracketStep_eq_none_iff :
    bracketStep depth token = none ↔ closesBracket token ∧ depth = 0 := by
  unfold bracketStep
  cases hclose : closesBracket token with
  | true => simp [not_opens_of_closes hclose]
  | false => cases opensBracket token <;> simp

theorem cutHeader_of_step (hstep : bracketStep depth token = some inner)
    (hfree : Builtin.isControl token = false) :
    cutHeader keyword (depth + 1) (token :: rest)
      = (cutHeader keyword (inner + 1) rest).map fun (header, after) => (token :: header, after) := by
  unfold bracketStep at hstep
  rw [cutHeader]
  split at hstep
  · rename_i hopen
    cases hstep
    rw [if_pos hopen]
  · rename_i hopen
    rw [if_neg hopen]
    split at hstep
    · rename_i hclose
      split at hstep
      · cases hstep
      · cases hstep
        obtain ⟨outer, rfl⟩ : ∃ outer, depth = outer + 1 := ⟨depth - 1, by omega⟩
        rw [if_pos hclose, if_neg (by omega)]
        rfl
    · rename_i hclose
      cases hstep
      rw [if_neg hclose, if_neg (by simp [hfree])]

theorem cutHeader_of_closes (hclose : closesBracket token) :
    cutHeader keyword 1 (token :: rest) = .ok ([], rest) := by
  simp [cutHeader, not_opens_of_closes hclose, hclose]

theorem cutHeader_of_isControl (hcontrol : Builtin.isControl token) :
    cutHeader keyword depth (token :: rest) = .error (.headerKeyword token keyword) := by
  have hopen : ¬ opensBracket token := fun h => by simp [isControl_of_opens h] at hcontrol
  have hclose : ¬ closesBracket token := fun h => by simp [isControl_of_closes h] at hcontrol
  rw [cutHeader, if_neg hopen, if_neg hclose, if_pos hcontrol]

end

/-! ### Headers -/

/-- Tokens before which `depth` brackets are open, and after which `between`, are passed over. -/
theorem cutHeader_append {keyword : String} {tokens : List String} (more : List String)
    (hfree : isUncontrolled tokens) {depth between : Nat}
    (hdepth : tokens.foldlM bracketStep depth = some between) :
    cutHeader keyword (depth + 1) (tokens ++ more)
      = (cutHeader keyword (between + 1) more).map
          fun (header, after) => (tokens ++ header, after) := by
  induction tokens generalizing depth with
  | nil =>
      obtain rfl : depth = between := Option.some.inj hdepth
      rw [List.nil_append]
      cases cutHeader keyword (depth + 1) more with
      | error cause => rfl
      | ok parts => rfl
  | cons token rest ih =>
      obtain ⟨htoken, hrest⟩ : Builtin.isControl token = false ∧ isUncontrolled rest := by
        simpa [isUncontrolled] using hfree
      obtain ⟨inner, hstep, hinner⟩ := foldlM_cons_eq_some_iff.1 hdepth
      rw [List.cons_append, cutHeader_of_step hstep htoken, ih hrest hinner]
      cases cutHeader keyword (between + 1) more with
      | error cause => rfl
      | ok parts => rfl

/-- A balanced header is cut out whichever bracket closes it. -/
theorem splitHeader_of_closes (keyword : String) {header : List String} {close : String}
    (after : List String) (hclose : closesBracket close) (hbalanced : Balanced bracketStep header)
    (hfree : isUncontrolled header) :
    splitHeader keyword ("(" :: (header ++ close :: after)) = .ok (header, after) := by
  rw [splitHeader, if_pos rfl, ← Nat.zero_add 1, cutHeader_append _ hfree (hbalanced 0),
    Nat.zero_add, cutHeader_of_closes hclose]
  simp

theorem splitHeader_balanced (keyword : String) {header : List String} (after : List String)
    (hbalanced : Balanced bracketStep header) (hfree : isUncontrolled header) :
    splitHeader keyword ("(" :: (header ++ ")" :: after)) = .ok (header, after) :=
  splitHeader_of_closes keyword after (by decide) hbalanced hfree

theorem headerParts_of_step {token : String} {rest part : List String}
    {others : List (List String)} {depth inner : Nat} (hstep : bracketStep depth token = some inner)
    (hnot : ¬(token = ";" ∧ depth = 0)) (hparts : headerParts inner rest = part :: others) :
    headerParts depth (token :: rest) = (token :: part) :: others := by
  unfold bracketStep at hstep
  rw [headerParts, if_neg hnot]
  split at hstep
  · rename_i hopen
    cases hstep
    simp only [if_pos hopen, hparts]
  · rename_i hopen
    split at hstep
    · rename_i hclose
      split at hstep
      · cases hstep
      · cases hstep
        simp only [if_neg hopen, if_pos hclose, hparts]
    · rename_i hclose
      cases hstep
      simp only [if_neg hopen, if_neg hclose, hparts]

theorem headerParts_append {tokens more : List String} (hfree : ";" ∉ tokens) {depth between : Nat}
    {part : List String} {others : List (List String)}
    (hdepth : tokens.foldlM bracketStep depth = some between)
    (hparts : headerParts between more = part :: others) :
    headerParts depth (tokens ++ more) = (tokens ++ part) :: others := by
  induction tokens generalizing depth with
  | nil =>
      obtain rfl : depth = between := Option.some.inj hdepth
      exact hparts
  | cons token rest ih =>
      obtain ⟨htoken, hrest⟩ : ";" ≠ token ∧ ";" ∉ rest := by simpa using hfree
      obtain ⟨inner, hstep, hinner⟩ := foldlM_cons_eq_some_iff.1 hdepth
      exact headerParts_of_step hstep (fun h => htoken h.1.symm) (ih hrest hinner)

/-- The header of a `for` falls apart at the semicolons between its parts. -/
theorem headerParts_three {start condition step : List String}
    (hstart : Balanced bracketStep start) (hcondition : Balanced bracketStep condition)
    (hstep : Balanced bracketStep step) (hfreestart : ";" ∉ start)
    (hfreecondition : ";" ∉ condition) (hfreestep : ";" ∉ step) :
    headerParts 0 (start ++ ";" :: (condition ++ ";" :: step)) = [start, condition, step] := by
  have hlast : headerParts 0 step = [step] := by
    have hparts := headerParts_append hfreestep (hstep 0) (show headerParts 0 [] = [[]] from rfl)
    rwa [List.append_nil] at hparts
  have hcut : ∀ rest, headerParts 0 (";" :: rest) = [] :: headerParts 0 rest := fun _ => rfl
  have hmiddle :=
    headerParts_append hfreecondition (hcondition 0) ((hcut step).trans (by rw [hlast]))
  have hfirst := headerParts_append hfreestart (hstart 0)
    ((hcut (condition ++ ";" :: step)).trans (by rw [hmiddle]))
  rw [hfirst, List.append_nil, List.append_nil]

end LslFront
