import LslFront.Proofs.Expr.Casts
import LslFront.Proofs.Expr.Completeness
import LslFront.Resolved.Resolve

/-!
# Tokens that resolve

What is known of tokens from their having a resolved form: how they begin, that their brackets are
balanced, and that several of them with commas between them resolve one by one.
-/

namespace LslFront

/-- The tokens that begin a line which is no expression. -/
def statementWords : List String :=
  ["\x7b", "\x7d", ";", "if", "else", "while", "for", "do", "return", "state", "jump", "@"]

theorem not_mem_of_opensExpression {token : String} (h : opensExpression token) :
    token ∉ statementWords := by
  intro hmem
  simp only [statementWords, List.mem_cons, List.not_mem_nil, or_false] at hmem
  rcases hmem with rfl | rfl | rfl | rfl | rfl | rfl | rfl | rfl | rfl | rfl | rfl | rfl
  all_goals exact absurd h (by decide)

theorem ofWord?_of_opensExpression {token : String} (h : opensExpression token) :
    Ty.ofWord? token = none := by
  cases hty : Ty.ofWord? token with
  | none => rfl
  | some ty =>
      rcases Ty.word_of_ofWord? hty with rfl | ⟨rfl, rfl⟩
      · cases ty <;> exact absurd h (by decide)
      · exact absurd h (by decide)

/-! ### One expression -/

section

variable {scope : Scope} {tokens : List String} {value : Resolved}

theorem exists_of_resolveTokens (h : resolveTokens scope tokens = .ok value) :
    ∃ collapsed expr, recombineCasts tokens = .ok collapsed ∧ Writes collapsed expr ∧
      expr.Grammatical false ∧ expr.resolve scope = .ok value := by
  unfold resolveTokens at h
  simp only [bind_eq_ok_iff, mapError_eq_ok_iff] at h
  obtain ⟨collapsed, hcollapsed, expr, hexpr, hvalue⟩ := h
  obtain ⟨hwrites, hgrammatical⟩ := parseExpression_eq_ok_iff.1 hexpr
  exact ⟨collapsed, expr, hcollapsed, hwrites, hgrammatical, hvalue⟩

theorem written_of_resolveTokens {P : List String → Prop} (nil : P [])
    (plain : ∀ token, isPlain token → P [token])
    (append : ∀ tokens more, P tokens → P more → P (tokens ++ more))
    (bracketed : ∀ opening closing inner,
      (opening, closing) ∈ [("(", ")"), ("[", "]"), ("<", ">")] → P inner →
      P (opening :: (inner ++ [closing])))
    (h : resolveTokens scope tokens = .ok value) : P tokens := by
  obtain ⟨collapsed, expr, hcollapsed, hwrites, hgrammatical, -⟩ := exists_of_resolveTokens h
  have hspells := spells_of_collapseCasts hcollapsed
  rw [hwrites] at hspells
  exact hspells.written nil plain append bracketed hgrammatical

theorem balanced_of_resolveTokens {step : Nat → String → Option Nat} (hcounts : CountsBrackets step)
    (h : resolveTokens scope tokens = .ok value) : Balanced step tokens :=
  written_of_resolveTokens .nil (fun _ htoken => .token (hcounts.plain htoken))
    (fun _ _ => .append) (fun _ _ _ => hcounts.bracketed) h

/-- A token of an expression: a plain one or a bracket. -/
def isWithin (token : String) : Bool :=
  isPlain token || ["(", ")", "[", "]", "<", ">"].contains token

theorem isWithin_of_resolveTokens (h : resolveTokens scope tokens = .ok value) :
    ∀ token ∈ tokens, isWithin token := by
  refine written_of_resolveTokens (P := fun tokens => ∀ token ∈ tokens, isWithin token) (by simp)
    ?_ ?_ ?_ h
  · intro token htoken
    simp [isWithin, htoken]
  · intro tokens more htokens hmore token hmem
    rcases List.mem_append.mp hmem with hmem | hmem
    · exact htokens token hmem
    · exact hmore token hmem
  · intro opening closing inner hpair hinner token hmem
    have hends : isWithin opening ∧ isWithin closing := by
      simp only [List.mem_cons, List.not_mem_nil, or_false, Prod.mk.injEq] at hpair
      rcases hpair with ⟨rfl, rfl⟩ | ⟨rfl, rfl⟩ | ⟨rfl, rfl⟩ <;> decide
    simp only [List.mem_cons, List.mem_append, List.not_mem_nil, or_false] at hmem
    rcases hmem with rfl | hmem | rfl
    · exact hends.1
    · exact hinner token hmem
    · exact hends.2

theorem not_isDirective_of_isWithin {token : String} (h : isWithin token) :
    isDirective token = false := by
  cases hdirective : isDirective token with
  | false => rfl
  | true =>
      obtain ⟨rest, hlist⟩ : ∃ rest, token.toList = '#' :: rest := by
        simpa [isDirective, List.head?_eq_some_iff] using hdirective
      have hmarks : ∀ mark ∈ expressionMarks, isDirective mark = false := by decide
      have hbrackets : ∀ bracket ∈ ["(", ")", "[", "]", "<", ">"], isDirective bracket = false := by
        decide
      simp only [isWithin, isPlain, Bool.or_eq_true, List.contains_iff_mem] at h
      rcases h with ((hoperand | hidentifier) | hmark) | hbracket
      · simp [isOperand, isIdentifier, isNumeric, isQuoted, hlist, startsIdentifier] at hoperand
      · simp [isIdentifier, hlist, startsIdentifier] at hidentifier
      · rw [hmarks token hmark] at hdirective
        cases hdirective
      · rw [hbrackets token hbracket] at hdirective
        cases hdirective

theorem not_semicolon_of_isWithin (h : ∀ token ∈ tokens, isWithin token) : ";" ∉ tokens :=
  fun hmem => absurd (h ";" hmem) (by decide)

theorem opens_of_resolveTokens (h : resolveTokens scope tokens = .ok value) :
    ∃ first rest, tokens = first :: rest ∧ opensExpression first := by
  obtain ⟨collapsed, expr, hcollapsed, hwrites, hgrammatical, -⟩ := exists_of_resolveTokens h
  obtain ⟨spelled, others, htokens, hopens⟩ := hgrammatical.opens
  have hspells := spells_of_collapseCasts hcollapsed
  rw [hwrites, htokens] at hspells
  cases hspells with
  | @kept token rest _ _ =>
      refine ⟨token, rest, rfl, ?_⟩
      by_cases hcast : token = "(quaternion)"
      · rw [hcast]
        decide
      · rwa [castSpelling, if_neg hcast] at hopens
  | cast _ _ => exact ⟨_, _, rfl, by decide⟩

end

/-! ### Several expressions -/

def commaSeparated : List (List String) → List String
  | [] => []
  | [part] => part
  | part :: next :: rest => part ++ "," :: commaSeparated (next :: rest)

/-- What holds of a comma, and of tokens put together if of their parts, holds of parts with commas
    between them. -/
theorem commaSeparated_induction {P : List String → Prop} (nil : P []) (comma : P [","])
    (append : ∀ tokens more, P tokens → P more → P (tokens ++ more)) :
    ∀ {parts : List (List String)}, (∀ part ∈ parts, P part) → P (commaSeparated parts)
  | [], _ => nil
  | [part], h => h part List.mem_cons_self
  | part :: next :: rest, h => by
      obtain ⟨hpart, hrest⟩ := List.forall_mem_cons.mp h
      have hothers := commaSeparated_induction nil comma append hrest
      exact append _ _ hpart (append [","] _ comma hothers)

theorem resolveTokenList_commaSeparated {scope : Scope} {parts : List (List String)}
    {values : List Resolved} (h : parts.mapM (resolveTokens scope) = .ok values) :
    resolveTokenList scope (commaSeparated parts) = .ok values := by
  have hread : ∃ collapsed exprs, recombineCasts (commaSeparated parts) = .ok collapsed ∧
      WritesAll collapsed exprs ∧ (∀ expr ∈ exprs, expr.Grammatical false) ∧
      Expr.resolveAll scope exprs = .ok values ∧ exprs.length = parts.length := by
    induction parts generalizing values with
    | nil =>
        cases h
        exact ⟨[], [], rfl, rfl, by simp, rfl, rfl⟩
    | cons part rest ih =>
        simp only [List.mapM_cons, bind_eq_ok_iff, pure_eq_ok, Except.ok.injEq] at h
        obtain ⟨value, hvalue, others, hothers, rfl⟩ := h
        obtain ⟨first, expr, hfirst, hwrites, hgrammatical, hresolved⟩ :=
          exists_of_resolveTokens hvalue
        obtain ⟨second, exprs, hsecond, hwritesAll, hall, hresolvedAll, hlength⟩ := ih hothers
        have hgrammaticalAll : ∀ e ∈ expr :: exprs, e.Grammatical false :=
          List.forall_mem_cons.mpr ⟨hgrammatical, hall⟩
        have hvalues : Expr.resolveAll scope (expr :: exprs) = .ok (value :: others) := by
          simp [Expr.resolveAll, hresolved, hresolvedAll]
        cases rest with
        | nil =>
            obtain rfl := List.length_eq_zero_iff.mp hlength
            exact ⟨first, [expr], hfirst, hwrites, hgrammaticalAll, hvalues, rfl⟩
        | cons next rest =>
            have hne : exprs ≠ [] := List.ne_nil_of_length_eq_add_one hlength
            refine ⟨first ++ "," :: second, expr :: exprs, ?_, ?_, hgrammaticalAll, hvalues,
              by simp [hlength]⟩
            · rw [commaSeparated, recombineCasts, collapseCasts_comma hfirst, hsecond]
              rfl
            · have hcomma : castSpelling "," = "," := by decide
              rw [WritesAll, separatedTokens_cons expr hne, List.map_append, List.map_cons, hwrites,
                hwritesAll, hcomma]
  obtain ⟨collapsed, exprs, hcollapsed, hwrites, hgrammatical, hresolved, -⟩ := hread
  have hparsed := parseList_eq_ok_iff.2 ⟨hwrites, hgrammatical⟩
  simp [resolveTokenList, hcollapsed, hparsed, hresolved]

section

variable {scope : Scope} {parts : List (List String)} {values : List Resolved}

theorem balanced_commaSeparated {step : Nat → String → Option Nat} (hcounts : CountsBrackets step)
    (h : parts.mapM (resolveTokens scope) = .ok values) : Balanced step (commaSeparated parts) := by
  refine commaSeparated_induction .nil (.token (hcounts.plain (by decide))) (fun _ _ => .append) ?_
  intro part hmem
  obtain ⟨value, hvalue⟩ := exists_of_mapM_eq_ok h part hmem
  exact balanced_of_resolveTokens hcounts hvalue

theorem isWithin_commaSeparated (h : parts.mapM (resolveTokens scope) = .ok values) :
    ∀ token ∈ commaSeparated parts, isWithin token := by
  refine commaSeparated_induction (P := fun tokens => ∀ token ∈ tokens, isWithin token) (by simp)
    (by decide) ?_ ?_
  · intro tokens more htokens hmore token hmem
    exact (List.mem_append.mp hmem).elim (htokens token) (hmore token)
  · intro part hmem
    obtain ⟨value, hvalue⟩ := exists_of_mapM_eq_ok h part hmem
    exact isWithin_of_resolveTokens hvalue

end

end LslFront
