import LslFront.Proofs.Expr.Casts
import LslFront.Proofs.Expr.Completeness

/-!
# Names in parentheses

The cast pass sees only the tokens around a name in parentheses.  It takes the name for a type if an
operand follows, and refuses it if there is no such type.  In an expression no operand ever follows
on a parenthesis: what can follow is an operator, a closing token or a comma.  One of these looks
like the beginning of an operand, the point of a member access, which is also the first character
of a number.

So the pass leaves an expression without casts as it is, unless a member of a name in parentheses is
taken.  Such an expression is refused.
-/

namespace LslFront

/-! ### What follows on a parenthesis -/

/-- The token may come next: after a closing parenthesis the only one that looks like the beginning
    of an operand is the point. -/
def MayFollow (token next : String) : Prop :=
  token = ")" → startsOperand next → next = "."

theorem MayFollow.of_ne {token : String} (h : token ≠ ")") (next : String) : MayFollow token next :=
  fun heq => absurd heq h

theorem MayFollow.of_not_starts {next : String} (h : startsOperand next = false) (token : String) :
    MayFollow token next := by
  intro _ hstarts
  rw [h] at hstarts
  cases hstarts

theorem BinaryOp.mayFollow_symbol (op : BinaryOp) (token : String) : MayFollow token op.symbol := by
  intro _ hstarts
  cases op with
  | member => rfl
  | _ => exact absurd hstarts (by decide)

/-- Tokens may be carried on by one that may follow on any token. -/
theorem isChain_append_cons {tokens more : List String} {next : String}
    (hnext : ∀ token, MayFollow token next) (htokens : tokens.IsChain MayFollow)
    (hmore : (next :: more).IsChain MayFollow) : (tokens ++ next :: more).IsChain MayFollow := by
  apply htokens.append hmore
  rintro token - first hfirst
  cases hfirst
  exact hnext token

theorem isChain_operator {tokens more : List String} (op : BinaryOp)
    (htokens : tokens.IsChain MayFollow) (hmore : more.IsChain MayFollow) :
    (tokens ++ op.symbol :: more).IsChain MayFollow := by
  have hsymbol : op.symbol ≠ ")" := by cases op <;> decide
  apply isChain_append_cons op.mayFollow_symbol htokens
  exact hmore.cons fun next _ => .of_ne hsymbol next

theorem isChain_bracketed {opening closing : String} {inner : List String}
    (hopening : opening ≠ ")") (hclosing : startsOperand closing = false)
    (hinner : inner.IsChain MayFollow) :
    (opening :: (inner ++ [closing])).IsChain MayFollow := by
  have hclosed := isChain_append_cons (MayFollow.of_not_starts hclosing) hinner (.singleton closing)
  exact hclosed.cons fun next _ => .of_ne hopening next

theorem isChain_separated {exprs : List Expr} (h : ∀ expr ∈ exprs, expr.tokens.IsChain MayFollow) :
    (separatedTokens exprs).IsChain MayFollow := by
  induction exprs with
  | nil => exact .nil
  | cons expr rest ih =>
      obtain ⟨hexpr, hrest⟩ := List.forall_mem_cons.mp h
      by_cases hnil : rest = []
      · subst hnil
        exact hexpr
      · rw [separatedTokens_cons expr hnil]
        apply isChain_append_cons (MayFollow.of_not_starts (by decide)) hexpr
        exact (ih hrest).cons fun next _ => .of_ne (by decide) next

theorem Expr.Grammatical.isChain {angle : Bool} {expr : Expr} (h : expr.Grammatical angle) :
    expr.tokens.IsChain MayFollow := by
  induction h with
  | value => exact .singleton _
  | assignment _ _ _ _ ihleft ihright => exact isChain_operator _ ihleft ihright
  | joined _ _ _ _ _ _ _ ihleft ihright => exact isChain_operator _ ihleft ihright
  | @unary _ op _ _ _ ih =>
      have hsymbol : op.symbol ≠ ")" := by
        cases op with
        | cast ty => cases ty <;> decide
        | _ => decide
      exact ih.cons fun next _ => .of_ne hsymbol next
  | @suffix _ op _ _ _ ih =>
      have hsymbol : startsOperand op.symbol = false := by cases op <;> decide
      exact isChain_append_cons (MayFollow.of_not_starts hsymbol) ih (.singleton _)
  | member _ _ _ ih => exact isChain_operator .member ih (.singleton _)
  | @group _ child _ ih =>
      exact isChain_bracketed (by decide) (by decide)
        (isChain_separated (List.forall_mem_singleton.mpr ih))
  | list _ ih => exact isChain_bracketed (by decide) (by decide) (isChain_separated ih)
  | angle _ _ ih => exact isChain_bracketed (by decide) (by decide) (isChain_separated ih)
  | @call _ name _ hname _ _ ih =>
      have hne : name ≠ ")" := by
        rintro rfl
        exact absurd hname (by decide)
      have hargs := @isChain_bracketed "(" ")" _ (by decide) (by decide) (isChain_separated ih)
      exact hargs.cons fun next _ => .of_ne hne next

theorem isChain_of_parseExpression {tokens : List String} {expr : Expr}
    (h : parseExpression tokens = .ok expr) : tokens.IsChain MayFollow := by
  obtain ⟨hwrites, hgrammatical⟩ := parseExpression_eq_ok_iff.1 h
  have hchain := hgrammatical.isChain
  rw [← hwrites, List.isChain_map] at hchain
  refine hchain.imp fun token next hfollow hclosing hstarts => ?_
  -- A cast is no parenthesis and begins no operand, so its spelling makes no difference.
  have hnext : castSpelling next = next := by
    refine if_neg ?_
    rintro rfl
    exact absurd hstarts (by decide)
  rw [hclosing, hnext] at hfollow
  exact hfollow (by decide) hstarts

/-! ### The pass without casts -/

/-- No cast is written as three tokens. -/
def CastFree (tokens : List String) : Prop :=
  ∀ name, (Ty.ofWord? name).isSome → ¬ ["(", name, ")"] <:+: tokens

/-- Where an operand is awaited, a member is taken of the name alone between parentheses.  The token
    `before` stands in front of the tokens. -/
def TakesMember (before : Option String) (tokens : List String) (name : String) : Prop :=
  ∃ front rest, tokens = front ++ "(" :: name :: ")" :: "." :: rest ∧ isIdentifier name ∧
    awaitsOperand (front.getLast?.or before)

section

variable {before : Option String} {tokens rest : List String} {first token name : String}

theorem CastFree.of_forall (h : ∀ token ∈ tokens, Ty.ofWord? token = none) : CastFree tokens := by
  intro name hname hpart
  rw [h name (hpart.subset (by simp))] at hname
  cases hname

theorem CastFree.tail (h : CastFree (token :: tokens)) : CastFree tokens :=
  fun name hname hpart => h name hname (hpart.trans (List.suffix_cons token tokens).isInfix)

theorem takesMember_cons_iff : TakesMember before (first :: rest) name ↔
    (first = "(" ∧ (∃ after, rest = name :: ")" :: "." :: after) ∧ isIdentifier name ∧
      awaitsOperand before) ∨ TakesMember (some first) rest name := by
  constructor
  · rintro ⟨front, after, htokens, hname, hawaits⟩
    cases front with
    | nil =>
        obtain ⟨rfl, rfl⟩ := List.cons.inj htokens
        exact .inl ⟨rfl, ⟨after, rfl⟩, hname, hawaits⟩
    | cons token front =>
        obtain ⟨rfl, rfl⟩ := List.cons.inj htokens
        rw [getLast?_cons_or] at hawaits
        exact .inr ⟨front, after, rfl, hname, hawaits⟩
  · rintro (⟨rfl, ⟨after, rfl⟩, hname, hawaits⟩ | ⟨front, after, rfl, hname, hawaits⟩)
    · exact ⟨[], after, rfl, hname, hawaits⟩
    · refine ⟨first :: front, after, rfl, hname, ?_⟩
      rwa [getLast?_cons_or]

/-- The pass leaves the tokens as they are, or refuses a name of which a member is taken. -/
def Passes (before : Option String) (tokens : List String) : Prop :=
  (collapseCasts before tokens = .ok tokens ∧ ∀ name, ¬ TakesMember before tokens name) ∨
    ∃ name, collapseCasts before tokens = .error (.notAType name) ∧ TakesMember before tokens name

/-- A first token that is kept changes nothing. -/
theorem Passes.cons (h : Passes (some first) rest)
    (hkept : collapseCasts before (first :: rest)
      = (collapseCasts (some first) rest).map (first :: ·))
    (hnone : awaitsOperand before → first = "(" → ∀ name after, isIdentifier name →
      rest ≠ name :: ")" :: "." :: after) : Passes before (first :: rest) := by
  rcases h with ⟨hok, hfree⟩ | ⟨name, herror, htakes⟩
  · refine .inl ⟨by rw [hkept, hok]; rfl, fun name htakes => ?_⟩
    rcases takesMember_cons_iff.1 htakes with ⟨hopen, ⟨after, hrest⟩, hname, hawaits⟩ | htakes
    · exact hnone hawaits hopen name after hname hrest
    · exact hfree name htakes
  · exact .inr ⟨name, by rw [hkept, herror]; rfl, takesMember_cons_iff.2 (.inr htakes)⟩

theorem passes_of_isChain (hchain : tokens.IsChain MayFollow) (hfree : CastFree tokens) :
    Passes before tokens := by
  fun_induction collapseCasts before tokens with
  | case1 before first name close rest hshape htype =>
      simp only [Bool.and_eq_true, beq_iff_eq] at hshape
      obtain ⟨⟨⟨-, rfl⟩, rfl⟩, -⟩ := hshape
      exact absurd (List.prefix_append ["(", name, ")"] rest).isInfix (hfree name htype)
  | case2 before first name close rest hshape htype hnext =>
      have hrefused : collapseCasts before (first :: name :: close :: rest)
          = .error (.notAType name) := by
        rw [collapseCasts, if_pos hshape, if_neg htype, if_pos hnext]
      simp only [Bool.and_eq_true, beq_iff_eq] at hshape
      obtain ⟨⟨⟨hawaits, rfl⟩, rfl⟩, hname⟩ := hshape
      obtain ⟨next, hhead, hstarts⟩ := (Option.any_eq_true _ _).mp hnext
      obtain ⟨after, rfl⟩ := List.head?_eq_some_iff.mp hhead
      -- An operand cannot follow, so it is the point of a member access.
      obtain rfl : next = "." := by
        have hclosing := (List.isChain_cons_cons.mp hchain.tail).2
        exact (List.isChain_cons_cons.mp hclosing).1 rfl hstarts
      exact .inr ⟨name, hrefused, [], after, rfl, hname, hawaits⟩
  | case3 before first name close rest hshape htype hnext ih =>
      apply (ih hchain.tail hfree.tail).cons
      · rw [collapseCasts, if_pos hshape, if_neg htype, if_neg hnext]
      · rintro - - other after - hrest
        obtain ⟨-, hrest⟩ := List.cons.inj hrest
        obtain ⟨-, rfl⟩ := List.cons.inj hrest
        exact hnext rfl
  | case4 before first name close rest hshape ih =>
      apply (ih hchain.tail hfree.tail).cons
      · rw [collapseCasts, if_neg hshape]
      · intro hawaits hopen other after hother hrest
        obtain ⟨hname, hrest⟩ := List.cons.inj hrest
        obtain ⟨hclose, -⟩ := List.cons.inj hrest
        exact hshape (by simp [hawaits, hopen, hname, hclose, hother])
  | case5 before short hshort =>
      have hkept : collapseCasts before short = .ok short := by
        rcases short with _ | ⟨first, _ | ⟨second, _ | ⟨third, rest⟩⟩⟩
        · rfl
        · rfl
        · rfl
        · exact (hshort _ _ _ _ rfl).elim
      refine .inl ⟨hkept, ?_⟩
      rintro name ⟨front, rest, rfl, -, -⟩
      rcases front with _ | ⟨first, _ | ⟨second, front⟩⟩
      · exact hshort _ _ _ _ rfl
      · exact hshort _ _ _ _ rfl
      · cases front <;> exact hshort _ _ _ _ rfl

end

/-- The cast pass leaves an expression without casts as it is, unless a member of a name alone in
    parentheses is taken; then it refuses such a name. -/
theorem recombineCasts_parsed_iff {tokens : List String} {expr : Expr}
    (h : parseExpression tokens = .ok expr) (hfree : CastFree tokens) :
    (recombineCasts tokens = .ok tokens ↔ ∀ name, ¬ TakesMember none tokens name) ∧
      ∀ cause, recombineCasts tokens = .error cause →
        ∃ name, cause = .notAType name ∧ TakesMember none tokens name := by
  have hpasses : Passes none tokens := passes_of_isChain (isChain_of_parseExpression h) hfree
  unfold recombineCasts
  rcases hpasses with ⟨hok, hnone⟩ | ⟨name, herror, htakes⟩
  · refine ⟨⟨fun _ => hnone, fun _ => hok⟩, fun cause hcause => ?_⟩
    rw [hok] at hcause
    cases hcause
  · refine ⟨⟨fun hok => ?_, fun hnone => absurd htakes (hnone name)⟩, fun cause hcause => ?_⟩
    · rw [herror] at hok
      cases hok
    · rw [herror] at hcause
      cases hcause
      exact ⟨name, rfl, htakes⟩

/-- Before operators, closing tokens and commas, and where the parentheses are those of a call, a
    name may stand in parentheses. -/
theorem recombineCasts_parsed_iff_call :
    let tokens := ["(", "a", ")", "++", "<", "f", "(", "b", ")", ".", "x", "-", "<", "(", "c", ")",
      ",", "(", "a", ")", "*", "1", ",", "[", "(", "b", ")", "]", ">"]
    (∃ expr, parseExpression tokens = .ok expr) ∧ CastFree tokens ∧
      recombineCasts tokens = .ok tokens ∧ ∀ name, ¬ TakesMember none tokens name := by
  intro tokens
  have hfree : CastFree tokens := .of_forall (by decide)
  have hkept : recombineCasts tokens = .ok tokens := by decide
  obtain ⟨expr, hparsed⟩ : ∃ expr, parseExpression tokens = .ok expr := ⟨_, rfl⟩
  exact ⟨⟨expr, hparsed⟩, hfree, hkept, (recombineCasts_parsed_iff hparsed hfree).1.mp hkept⟩

/-- A member of a vector in parentheses is an expression, and the pass refuses it. -/
theorem recombineCasts_refuses_member :
    let tokens := ["(", "v", ")", ".", "x"]
    parseExpression tokens = .ok (.binary .member (.group [.value "v"]) (.value "x")) ∧
      CastFree tokens ∧ recombineCasts tokens = .error (.notAType "v") := by
  refine ⟨rfl, .of_forall (by decide), by decide⟩

end LslFront
