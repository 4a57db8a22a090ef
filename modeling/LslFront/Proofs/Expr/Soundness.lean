import LslFront.Proofs.Expr.Grammar
import LslFront.Proofs.Success

/-!
# What the parser reads

Every tree that the parser gives is a tree of the grammar, and writing it out gives the tokens that
it was read from, each in its one spelling.

The functions of the parser call each other, so what they read is stated for all of them at once,
for one budget, and carried from each budget to the next.  A level of operators is only ever given
with the levels above it; `BinaryOp.Climbs` says which operators those are.
-/

namespace LslFront

/-! ### Tokens and levels -/

/-- The levels are those of the operators that bind at least as tightly as `least`. -/
def BinaryOp.Climbs : Nat → List (List BinaryOp) → Prop
  | least, [] => least = 10
  | least, level :: tighter =>
      1 ≤ least ∧ least ≤ 9 ∧ (∀ op, op ∈ level ↔ op.binding = least) ∧ Climbs (least + 1) tighter

theorem BinaryOp.climbs_levels : Climbs 1 levels := by
  simp only [levels, Climbs]
  and_intros
  all_goals first | decide | (intro op; cases op <;> decide)

theorem BinaryOp.mem_assignments {op : BinaryOp} : op ∈ assignments ↔ op.isAssignment := by
  cases op <;> decide

theorem BinaryOp.of_ofToken? {ops : List BinaryOp} {angle : Bool} {token : String} {op : BinaryOp}
    (h : ofToken? ops angle token = some op) :
    op ∈ ops ∧ token = op.symbol ∧ (angle && op.closesAngle) = false := by
  have hwrites := List.find?_some h
  simp only [Bool.and_eq_true, beq_iff_eq, Bool.not_eq_true'] at hwrites
  exact ⟨List.mem_of_find?_eq_some h, hwrites.1.symm, hwrites.2⟩

/-- A type has one word, but `rotation` has two. -/
theorem Ty.word_of_ofWord? {word : String} {ty : Ty} (h : ofWord? word = some ty) :
    word = ty.word ∨ (word = "quaternion" ∧ ty = .rotation) := by
  unfold ofWord? at h
  split at h
  all_goals first
    | (cases h; exact .inl rfl)
    | (cases h; exact .inr ⟨rfl, rfl⟩)
    | cases h

theorem Ty.isIdentifier_of_ofWord? {word : String} {ty : Ty} (h : ofWord? word = some ty) :
    isIdentifier word := by
  rcases word_of_ofWord? h with rfl | ⟨rfl, -⟩
  · cases ty <;> decide
  · decide

theorem Ty.of_ofCast? {token : String} {ty : Ty} (h : ofCast? token = some ty) :
    ∃ word, ofWord? word = some ty ∧ token = String.ofList ('(' :: (word.toList ++ [')'])) := by
  unfold ofCast? at h
  split at h
  · rename_i rest htoken
    split at h
    · rename_i hlast
      refine ⟨_, h, ?_⟩
      obtain ⟨inner, rfl⟩ := List.getLast?_eq_some_iff.mp hlast
      rw [List.dropLast_concat, String.toList_ofList, ← htoken, String.ofList_toList]
    · cases h
  · cases h

theorem UnaryOp.of_ofToken? {token : String} {op : UnaryOp} (h : ofToken? token = some op) :
    castSpelling token = op.symbol := by
  unfold ofToken? at h
  split at h
  case h_7 =>
    obtain ⟨ty, hty, rfl⟩ := Option.map_eq_some_iff.mp h
    obtain ⟨word, hword, rfl⟩ := Ty.of_ofCast? hty
    rcases Ty.word_of_ofWord? hword with rfl | ⟨rfl, rfl⟩
    · cases ty <;> decide
    · decide
  all_goals (cases h; decide)

theorem SuffixOp.of_ofToken? {token : String} {op : SuffixOp} (h : ofToken? token = some op) :
    token = op.symbol := by
  unfold ofToken? at h
  split at h
  · cases h; rfl
  · cases h; rfl
  · cases h

/-! ### What is read -/

/-- `written`, which is in its one spelling, is `expr` written out and then `rest`, and `expr` is a
    tree of the grammar that binds at least as tightly as `least`. -/
structure Reads (angle : Bool) (least : Nat) (written : List String) (expr : Expr)
    (rest : List String) : Prop where
  written_eq : written = expr.tokens ++ rest.map castSpelling
  grammatical : expr.Grammatical angle
  least_le : least ≤ expr.binding

structure ReadsAll (angle : Bool) (written : List String) (exprs : List Expr)
    (rest : List String) : Prop where
  written_eq : written = separatedTokens exprs ++ rest.map castSpelling
  ne_nil : exprs ≠ []
  grammatical : ∀ expr ∈ exprs, expr.Grammatical angle

/-- What the functions of the parser read with one budget. -/
structure ParserReads (budget : Nat) : Prop where
  assignment : ∀ {angle tokens expr rest},
    parseAssignment budget angle tokens = .ok (expr, rest) →
    Reads angle 0 (tokens.map castSpelling) expr rest
  levels : ∀ {angle least levels tokens expr rest}, BinaryOp.Climbs least levels →
    parseLevels budget angle levels tokens = .ok (expr, rest) →
    Reads angle least (tokens.map castSpelling) expr rest
  joined : ∀ {angle least level tighter left tokens expr rest},
    BinaryOp.Climbs least (level :: tighter) → left.Grammatical angle → least ≤ left.binding →
    parseJoined budget angle level tighter left tokens = .ok (expr, rest) →
    Reads angle least (left.tokens ++ tokens.map castSpelling) expr rest
  unary : ∀ {angle tokens expr rest}, parseUnary budget angle tokens = .ok (expr, rest) →
    Reads angle 10 (tokens.map castSpelling) expr rest
  closed : ∀ {token tokens expr rest}, parseClosed budget token tokens = .ok (expr, rest) →
    ∀ angle, Reads angle 12 ((token :: tokens).map castSpelling) expr rest
  items : ∀ {close tokens exprs rest}, parseItems budget close tokens = .ok (exprs, rest) →
    tokens.map castSpelling
        = separatedTokens exprs ++ castSpelling close :: rest.map castSpelling ∧
      ∀ expr ∈ exprs, expr.Grammatical false
  separated : ∀ {angle tokens exprs rest},
    parseSeparated budget angle tokens = .ok (exprs, rest) →
    ReadsAll angle (tokens.map castSpelling) exprs rest

theorem expect_eq_ok {token : String} {tokens rest : List String}
    (h : expect token tokens = .ok rest) : tokens = token :: rest := by
  unfold expect at h
  split at h
  · cases h
  · split at h
    · rename_i heq
      cases h
      rw [heq]
    · cases h

theorem reads_leaf {token : String} (h : isOperand token) (angle : Bool) (rest : List String) :
    Reads angle 12 ((token :: rest).map castSpelling) (.value token) rest := by
  refine ⟨?_, .value h, Nat.le_refl _⟩
  rw [List.map_cons, castSpelling_of_isOperand h]
  rfl

theorem parseSuffixes_reads {angle : Bool} {operand expr : Expr} {tokens rest : List String}
    (hoperand : operand.Grammatical angle) (hbinding : 11 ≤ operand.binding)
    (h : parseSuffixes operand tokens = .ok (expr, rest)) :
    Reads angle 11 (operand.tokens ++ tokens.map castSpelling) expr rest := by
  fun_induction parseSuffixes operand tokens with
  | case1 operand =>
      cases h
      exact ⟨rfl, hoperand, hbinding⟩
  | case2 operand token tokens op hop ih =>
      have hread := ih (.suffix hoperand hbinding) (Nat.le_refl 11) h
      refine ⟨?_, hread.grammatical, hread.least_le⟩
      rw [← hread.written_eq, SuffixOp.of_ofToken? hop]
      simp [Expr.tokens]
  | case3 => cases h
  | case4 operand name after hname hnone ih =>
      have hread := ih (.member hoperand hbinding hname) (Nat.le_refl 11) h
      refine ⟨?_, hread.grammatical, hread.least_le⟩
      rw [← hread.written_eq]
      have hpoint : castSpelling "." = BinaryOp.symbol .member := by decide
      simp [Expr.tokens, castSpelling_of_isIdentifier hname, hpoint]
  | case5 => cases h
  | case6 operand token tokens hnone hpoint =>
      cases h
      exact ⟨rfl, hoperand, hbinding⟩

/-! ### From one budget to the next -/

namespace ParserReads

variable {budget : Nat} (reads : ParserReads budget)
include reads

theorem assignment_succ {angle : Bool} {tokens rest : List String} {expr : Expr}
    (h : parseAssignment (budget + 1) angle tokens = .ok (expr, rest)) :
    Reads angle 0 (tokens.map castSpelling) expr rest := by
  simp only [parseAssignment, bind_eq_ok_iff] at h
  obtain ⟨⟨left, between⟩, hleft, h⟩ := h
  have hread := reads.levels BinaryOp.climbs_levels hleft
  cases between with
  | nil =>
      cases h
      exact ⟨hread.written_eq, hread.grammatical, Nat.zero_le _⟩
  | cons token after =>
      simp only at h
      split at h
      · cases h
        exact ⟨hread.written_eq, hread.grammatical, Nat.zero_le _⟩
      · rename_i op hop
        simp only [bind_eq_ok_iff, pure_eq_ok, Except.ok.injEq, Prod.mk.injEq] at h
        obtain ⟨⟨right, _⟩, hright, rfl, rfl⟩ := h
        obtain ⟨hmem, rfl, -⟩ := BinaryOp.of_ofToken? hop
        have hnext := reads.assignment hright
        refine ⟨?_, .assignment (BinaryOp.mem_assignments.1 hmem) hread.grammatical
          hread.least_le hnext.grammatical, Nat.zero_le _⟩
        rw [hread.written_eq, List.map_cons, hnext.written_eq]
        simp [Expr.tokens]

theorem levels_succ {angle : Bool} {least : Nat} {levels : List (List BinaryOp)}
    {tokens rest : List String} {expr : Expr} (hclimbs : BinaryOp.Climbs least levels)
    (h : parseLevels (budget + 1) angle levels tokens = .ok (expr, rest)) :
    Reads angle least (tokens.map castSpelling) expr rest := by
  rw [parseLevels.eq_def] at h
  cases levels with
  | nil =>
      cases hclimbs
      exact reads.unary h
  | cons level tighter =>
      simp only [bind_eq_ok_iff] at h
      obtain ⟨⟨left, between⟩, hleft, h⟩ := h
      have hread := reads.levels hclimbs.2.2.2 hleft
      rw [hread.written_eq]
      exact reads.joined hclimbs hread.grammatical (Nat.le_of_succ_le hread.least_le) h

theorem joined_succ {angle : Bool} {least : Nat} {level : List BinaryOp}
    {tighter : List (List BinaryOp)} {left expr : Expr} {tokens rest : List String}
    (hclimbs : BinaryOp.Climbs least (level :: tighter)) (hleft : left.Grammatical angle)
    (hbinding : least ≤ left.binding)
    (h : parseJoined (budget + 1) angle level tighter left tokens = .ok (expr, rest)) :
    Reads angle least (left.tokens ++ tokens.map castSpelling) expr rest := by
  rw [parseJoined.eq_def] at h
  cases tokens with
  | nil =>
      cases h
      exact ⟨rfl, hleft, hbinding⟩
  | cons token after =>
      simp only at h
      split at h
      · cases h
        exact ⟨rfl, hleft, hbinding⟩
      · rename_i op hop
        simp only [bind_eq_ok_iff] at h
        obtain ⟨⟨right, between⟩, hright, h⟩ := h
        obtain ⟨hmem, rfl, hangle⟩ := BinaryOp.of_ofToken? hop
        obtain ⟨hlow, hhigh, hlevel, htighter⟩ := hclimbs
        obtain rfl := (hlevel op).mp hmem
        have hread := reads.levels htighter hright
        have hjoined : Expr.Grammatical angle (.binary op left right) :=
          .joined hlow hhigh hangle hleft hbinding hread.grammatical hread.least_le
        have hnext := reads.joined ⟨hlow, hhigh, hlevel, htighter⟩ hjoined (Nat.le_refl _) h
        refine ⟨?_, hnext.grammatical, hnext.least_le⟩
        rw [← hnext.written_eq, List.map_cons, hread.written_eq]
        simp [Expr.tokens]

theorem unary_succ {angle : Bool} {tokens rest : List String} {expr : Expr}
    (h : parseUnary (budget + 1) angle tokens = .ok (expr, rest)) :
    Reads angle 10 (tokens.map castSpelling) expr rest := by
  rw [parseUnary.eq_def] at h
  cases tokens with
  | nil => cases h
  | cons token after =>
      simp only at h
      split at h
      · rename_i op hop
        simp only [bind_eq_ok_iff, pure_eq_ok, Except.ok.injEq, Prod.mk.injEq] at h
        obtain ⟨⟨operand, _⟩, hoperand, rfl, rfl⟩ := h
        have hread := reads.unary hoperand
        refine ⟨?_, .unary hread.grammatical hread.least_le, Nat.le_refl _⟩
        rw [List.map_cons, hread.written_eq, UnaryOp.of_ofToken? hop]
        rfl
      · simp only [bind_eq_ok_iff] at h
        obtain ⟨⟨operand, between⟩, hoperand, h⟩ := h
        have hread := reads.closed hoperand angle
        have hnext := parseSuffixes_reads hread.grammatical
          (Nat.le_of_succ_le hread.least_le) h
        rw [hread.written_eq]
        exact ⟨hnext.written_eq, hnext.grammatical, Nat.le_of_succ_le hnext.least_le⟩

theorem items_succ {close : String} {tokens rest : List String} {exprs : List Expr}
    (h : parseItems (budget + 1) close tokens = .ok (exprs, rest)) :
    tokens.map castSpelling
        = separatedTokens exprs ++ castSpelling close :: rest.map castSpelling ∧
      ∀ expr ∈ exprs, expr.Grammatical false := by
  rw [parseItems] at h
  split at h
  · rename_i hclose
    cases h
    obtain ⟨after, rfl⟩ := List.head?_eq_some_iff.mp hclose
    exact ⟨rfl, fun _ hmem => absurd hmem List.not_mem_nil⟩
  · simp only [bind_eq_ok_iff, pure_eq_ok, Except.ok.injEq, Prod.mk.injEq] at h
    obtain ⟨⟨items, between⟩, hitems, _, hexpect, rfl, rfl⟩ := h
    obtain rfl := expect_eq_ok hexpect
    have hread := reads.separated hitems
    exact ⟨hread.written_eq, hread.grammatical⟩

theorem separated_succ {angle : Bool} {tokens rest : List String} {exprs : List Expr}
    (h : parseSeparated (budget + 1) angle tokens = .ok (exprs, rest)) :
    ReadsAll angle (tokens.map castSpelling) exprs rest := by
  simp only [parseSeparated, bind_eq_ok_iff] at h
  obtain ⟨⟨first, between⟩, hfirst, h⟩ := h
  have hread := reads.assignment hfirst
  have hsingle : ∀ expr ∈ [first], Expr.Grammatical angle expr := by
    intro expr hmem
    rw [List.mem_singleton.mp hmem]
    exact hread.grammatical
  cases between with
  | nil =>
      cases h
      exact ⟨hread.written_eq, by simp, hsingle⟩
  | cons token after =>
      simp only at h
      split at h
      · rename_i hcomma
        simp only [bind_eq_ok_iff, pure_eq_ok, Except.ok.injEq, Prod.mk.injEq] at h
        obtain ⟨⟨others, _⟩, hothers, rfl, rfl⟩ := h
        have hnext := reads.separated hothers
        refine ⟨?_, by simp, List.forall_mem_cons.mpr ⟨hread.grammatical, hnext.grammatical⟩⟩
        rw [hread.written_eq, hcomma, separatedTokens_cons first hnext.ne_nil, List.map_cons,
          hnext.written_eq]
        simp [show castSpelling "," = "," by decide]
      · cases h
        exact ⟨hread.written_eq, by simp, hsingle⟩

theorem closed_succ {token : String} {tokens rest : List String} {expr : Expr}
    (h : parseClosed (budget + 1) token tokens = .ok (expr, rest)) (angle : Bool) :
    Reads angle 12 ((token :: tokens).map castSpelling) expr rest := by
  rw [parseClosed.eq_def] at h
  simp only at h
  split at h
  · rename_i hopen
    simp only [bind_eq_ok_iff, pure_eq_ok, Except.ok.injEq, Prod.mk.injEq] at h
    obtain ⟨⟨child, between⟩, hchild, _, hexpect, rfl, rfl⟩ := h
    obtain rfl := expect_eq_ok hexpect
    have hread := reads.assignment hchild
    refine ⟨?_, .group hread.grammatical, Nat.le_refl _⟩
    rw [hopen, List.map_cons, hread.written_eq]
    simp [Expr.tokens, separatedTokens, castSpelling]
  · split at h
    · rename_i hopen
      simp only [bind_eq_ok_iff, pure_eq_ok, Except.ok.injEq, Prod.mk.injEq] at h
      obtain ⟨⟨items, _⟩, hitems, rfl, rfl⟩ := h
      obtain ⟨hwritten, hgrammatical⟩ := reads.items hitems
      refine ⟨?_, .list hgrammatical, Nat.le_refl _⟩
      rw [hopen, List.map_cons, hwritten]
      simp [Expr.tokens, castSpelling]
    · split at h
      · rename_i hopen
        simp only [bind_eq_ok_iff, pure_eq_ok, Except.ok.injEq, Prod.mk.injEq] at h
        obtain ⟨⟨components, _⟩, hcomponents, _, hexpect, rfl, rfl⟩ := h
        obtain rfl := expect_eq_ok hexpect
        have hread := reads.separated hcomponents
        refine ⟨?_, .angle hread.ne_nil hread.grammatical, Nat.le_refl _⟩
        rw [hopen, List.map_cons, hread.written_eq]
        simp [Expr.tokens, castSpelling]
      · split at h
        · rename_i hname
          split at h
          · cases h
          · rename_i hreserved
            have hfree : Builtin.isReserved token = false := by simpa using hreserved
            have hleaf : isOperand token := by simp [isOperand, hname, hfree]
            cases tokens with
            | nil =>
                cases h
                exact reads_leaf hleaf angle []
            | cons next after =>
                simp only at h
                split at h
                · rename_i hnext
                  simp only [bind_eq_ok_iff, pure_eq_ok, Except.ok.injEq, Prod.mk.injEq] at h
                  obtain ⟨⟨args, _⟩, hargs, rfl, rfl⟩ := h
                  obtain ⟨hwritten, hgrammatical⟩ := reads.items hargs
                  refine ⟨?_, .call hname hfree hgrammatical, Nat.le_refl _⟩
                  rw [hnext, List.map_cons, List.map_cons, hwritten,
                    castSpelling_of_isIdentifier hname]
                  simp [Expr.tokens, castSpelling]
                · cases h
                  exact reads_leaf hleaf angle (next :: after)
        · split at h
          · rename_i hliteral
            cases h
            refine reads_leaf ?_ angle tokens
            rw [isOperand, Bool.or_assoc, hliteral, Bool.or_true]
          · cases h

end ParserReads

theorem parserReads : ∀ budget, ParserReads budget
  | 0 => by
      constructor <;> intros <;> simp_all [parseAssignment, parseLevels, parseJoined, parseUnary,
        parseClosed, parseItems, parseSeparated]
  | budget + 1 =>
      have reads := parserReads budget
      { assignment := reads.assignment_succ
        levels := reads.levels_succ
        joined := reads.joined_succ
        unary := reads.unary_succ
        closed := reads.closed_succ
        items := reads.items_succ
        separated := reads.separated_succ }

/-! ### Whole token lists -/

theorem expectEnd_eq_ok {α : Type} {result : α × List String} {a : α}
    (h : expectEnd result = .ok a) : result = (a, []) := by
  obtain ⟨b, rest⟩ := result
  cases rest with
  | nil =>
      cases h
      rfl
  | cons token rest => cases h

theorem parseExpression_reads {tokens : List String} {expr : Expr}
    (h : parseExpression tokens = .ok expr) :
    expr.tokens = tokens.map castSpelling ∧ expr.Grammatical false := by
  obtain ⟨result, hresult, hend⟩ := bind_eq_ok_iff.1 h
  obtain rfl := expectEnd_eq_ok hend
  have hread := (parserReads _).assignment hresult
  exact ⟨by simpa using hread.written_eq.symm, hread.grammatical⟩

theorem parseList_reads {tokens : List String} {exprs : List Expr}
    (h : parseList tokens = .ok exprs) :
    separatedTokens exprs = tokens.map castSpelling ∧
      ∀ expr ∈ exprs, expr.Grammatical false := by
  unfold parseList at h
  split at h
  · rename_i hempty
    cases h
    exact ⟨by simp [separatedTokens, List.isEmpty_iff.mp hempty], by simp⟩
  · obtain ⟨result, hresult, hend⟩ := bind_eq_ok_iff.1 h
    obtain rfl := expectEnd_eq_ok hend
    have hread := (parserReads _).separated hresult
    exact ⟨by simpa using hread.written_eq.symm, hread.grammatical⟩

/-- Reading loses nothing and gives only trees of the grammar. -/
theorem parsed_writes_back :
    (∀ tokens expr, parseExpression tokens = .ok expr →
      expr.tokens = tokens.map castSpelling ∧ expr.Grammatical false) ∧
    ∀ tokens exprs, parseList tokens = .ok exprs →
      separatedTokens exprs = tokens.map castSpelling ∧
        ∀ expr ∈ exprs, expr.Grammatical false := by
  constructor
  · intro tokens expr h
    exact parseExpression_reads h
  · intro tokens exprs h
    exact parseList_reads h

/-- A comparison can stand in an angle literal between parentheses. -/
theorem parsed_writes_back_comparison :
    let tokens := ["v", "=", "(quaternion)", "x", "+", "<", "1", ",", "(", "a", ">", "b", ")", ",",
      "-", "i", "++", ">", ".", "z"]
    let literal := Expr.angle [.value "1", .group [.binary .gt (.value "a") (.value "b")],
      .unary .neg (.suffix .increment (.value "i"))]
    let expr := Expr.binary .assign (.value "v")
      (.binary .add (.unary (.cast .rotation) (.value "x")) (.binary .member literal (.value "z")))
    parseExpression tokens = .ok expr ∧
      expr.tokens = tokens.map castSpelling ∧ expr.Grammatical false ∧
      parseList ["a", ",", "b"] = .ok [.value "a", .value "b"] ∧
      separatedTokens [.value "a", .value "b"] = ["a", ",", "b"].map castSpelling := by
  intro tokens literal expr
  have hexpr : parseExpression tokens = .ok expr := rfl
  have hexprs : parseList ["a", ",", "b"] = .ok [.value "a", .value "b"] := rfl
  obtain ⟨hwritten, hgrammatical⟩ := parsed_writes_back.1 tokens expr hexpr
  exact ⟨hexpr, hwritten, hgrammatical, hexprs, (parsed_writes_back.2 _ _ hexprs).1⟩

end LslFront
