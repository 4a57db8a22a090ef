import LslFront.Block.Header
import LslFront.Proofs.Expr.Grammar

/-!
# Brackets in expressions

What writes an expression closes each round or square bracket that it opens, and holds no
semicolon.  So a header or a statement can be cut out of a line without knowing the expressions
in it.
-/

namespace LslFront

/-! ### Counting brackets -/

/-- The count of open brackets after one more token.  No token may close a bracket that is not
    open. -/
def bracketStep (depth : Nat) (token : String) : Option Nat :=
  if opensBracket token then some (depth + 1)
  else if closesBracket token then
    if depth = 0 then none else some (depth - 1)
  else some depth

/-- Counted by `step`, the tokens close all brackets that they open, and no others. -/
def Balanced (step : Nat → String → Option Nat) (tokens : List String) : Prop :=
  ∀ depth, tokens.foldlM step depth = some depth

namespace Balanced

variable {step : Nat → String → Option Nat} {tokens more : List String}

theorem nil : Balanced step [] :=
  fun _ => rfl

theorem token {token : String} (h : ∀ depth, step depth token = some depth) :
    Balanced step [token] := by
  intro depth
  simp [h]

theorem append (hfirst : Balanced step tokens) (hrest : Balanced step more) :
    Balanced step (tokens ++ more) := by
  intro depth
  rw [List.foldlM_append, hfirst depth]
  exact hrest depth

theorem bracketed {opening closing : String}
    (hopening : ∀ depth, step depth opening = some (depth + 1))
    (hclosing : ∀ depth, step (depth + 1) closing = some depth) (hinner : Balanced step tokens) :
    Balanced step (opening :: (tokens ++ [closing])) := by
  intro depth
  rw [List.foldlM_cons, hopening depth, Option.bind_eq_bind, Option.bind_some,
    List.foldlM_append, hinner (depth + 1)]
  simp [hclosing]

end Balanced

/-! ### The tokens of expressions -/

def expressionMarks : List String :=
  "," :: "." :: (BinaryOp.assignments ++ BinaryOp.levels.flatten).map BinaryOp.symbol
    ++ ["!", "~", "++", "--"]
    ++ "(quaternion)" :: [Ty.integer, .float, .string, .key, .vector, .rotation, .list].map Ty.cast

/-- A token of an expression that is not a bracket. -/
def isPlain (token : String) : Bool :=
  isOperand token || isIdentifier token || expressionMarks.contains token

/-- What holds of plain tokens, of what is between brackets and of everything put together from
    such parts holds of what writes an expression. -/
theorem Expr.Grammatical.written {P : List String → Prop} (nil : P [])
    (plain : ∀ token, isPlain token → P [token])
    (append : ∀ tokens more, P tokens → P more → P (tokens ++ more))
    (bracketed : ∀ opening closing inner,
      (opening, closing) ∈ [("(", ")"), ("[", "]"), ("<", ">")] → P inner →
      P (opening :: (inner ++ [closing])))
    {angle : Bool} {expr : Expr} (h : expr.Grammatical angle) : P expr.tokens := by
  have cons : ∀ token tokens, isPlain token → P tokens → P (token :: tokens) :=
    fun token tokens htoken htokens => append [token] tokens (plain token htoken) htokens
  have separated : ∀ exprs : List Expr, (∀ e ∈ exprs, P e.tokens) → P (separatedTokens exprs) := by
    intro exprs
    induction exprs with
    | nil => exact fun _ => nil
    | cons expr rest ih =>
        intro hall
        obtain ⟨hexpr, hrest⟩ := List.forall_mem_cons.mp hall
        by_cases hnil : rest = []
        · subst hnil
          exact hexpr
        · rw [separatedTokens_cons expr hnil]
          exact append _ _ hexpr (cons "," _ (by decide) (ih hrest))
  have symbol : ∀ op : BinaryOp, isPlain op.symbol := by
    intro op
    cases op <;> decide
  induction h with
  | value hleaf => exact plain _ (by simp [isPlain, hleaf])
  | assignment _ _ _ _ ihleft ihright => exact append _ _ ihleft (cons _ _ (symbol _) ihright)
  | joined _ _ _ _ _ _ _ ihleft ihright => exact append _ _ ihleft (cons _ _ (symbol _) ihright)
  | @unary _ op _ _ _ ih =>
      refine cons _ _ ?_ ih
      cases op with
      | cast ty => cases ty <;> decide
      | _ => decide
  | @suffix _ op _ _ _ ih => exact append _ _ ih (plain _ (by cases op <;> decide))
  | member _ _ hname ih =>
      exact append _ _ ih (cons _ _ (symbol _) (plain _ (by simp [isPlain, hname])))
  | group _ ih => exact bracketed "(" ")" _ (by simp) ih
  | list _ ih => exact bracketed "[" "]" _ (by simp) (separated _ ih)
  | angle _ _ ih => exact bracketed "<" ">" _ (by simp) (separated _ ih)
  | call hname _ _ ih =>
      exact cons _ _ (by simp [isPlain, hname]) (bracketed "(" ")" _ (by simp) (separated _ ih))

/-- The count passes over plain tokens, and is the same before and after what is between
    brackets. -/
structure CountsBrackets (step : Nat → String → Option Nat) : Prop where
  plain {token : String} : isPlain token → ∀ depth, step depth token = some depth
  bracketed {opening closing : String} {inner : List String} :
    (opening, closing) ∈ [("(", ")"), ("[", "]"), ("<", ">")] → Balanced step inner →
      Balanced step (opening :: (inner ++ [closing]))

theorem not_opens_of_isPlain {token : String} (h : isPlain token) : opensBracket token = false := by
  cases hopen : opensBracket token with
  | false => rfl
  | true =>
      simp only [opensBracket, Bool.or_eq_true, beq_iff_eq] at hopen
      rcases hopen with rfl | rfl <;> exact absurd h (by decide)

theorem not_closes_of_isPlain {token : String} (h : isPlain token) : closesBracket token = false := by
  cases hclose : closesBracket token with
  | false => rfl
  | true =>
      simp only [closesBracket, Bool.or_eq_true, beq_iff_eq] at hclose
      rcases hclose with rfl | rfl <;> exact absurd h (by decide)

theorem countsBrackets_bracketStep : CountsBrackets bracketStep where
  plain {token} htoken depth := by
    simp [bracketStep, not_opens_of_isPlain htoken, not_closes_of_isPlain htoken]
  bracketed {opening closing inner} hpair hinner := by
    simp only [List.mem_cons, List.not_mem_nil, or_false, Prod.mk.injEq] at hpair
    rcases hpair with ⟨rfl, rfl⟩ | ⟨rfl, rfl⟩ | ⟨rfl, rfl⟩
    · exact hinner.bracketed (fun _ => rfl) (fun _ => rfl)
    · exact hinner.bracketed (fun _ => rfl) (fun _ => rfl)
    · have hopening : Balanced bracketStep ["<"] := .token fun _ => rfl
      have hclosing : Balanced bracketStep [">"] := .token fun _ => rfl
      exact hopening.append (hinner.append hclosing)

end LslFront
