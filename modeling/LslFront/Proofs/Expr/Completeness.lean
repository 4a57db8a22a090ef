import LslFront.Proofs.Expr.Soundness

/-!
# What the parser accepts

Every tree of the grammar is read back from the tokens that write it, whatever follows them, as
long as what follows does not continue the expression.  With the soundness of the parser this says
that a token list has a tree exactly if it writes a tree of the grammar, and then only that one.

The parser meets the operators of one level from left to right while the tree nests them to the
left.  So the statement for a level is not that the parser returns the tree, but that it comes to
the point where the tree is the left operand of whatever follows.

Budgets are counted as they are spent.  Sixteen for each token are enough, because no chain of
calls without a token between them is longer.
-/

namespace LslFront

/-! ### What ends an expression -/

/-- `rest` does not continue an expression whose operators bind at least as tightly as `least`.  In
    angle mode, what ends the literal continues nothing. -/
def Halts (angle : Bool) (least : Nat) (rest : List String) : Prop :=
  ∀ token ∈ rest.head?, token ≠ "(" ∧ SuffixOp.ofToken? token = none ∧
    ∀ op : BinaryOp, least ≤ op.binding → op.symbol = token → (angle && op.closesAngle) = true

namespace Halts

variable {angle : Bool} {least : Nat} {rest : List String}

theorem nil : Halts angle least [] :=
  fun _ hmem => absurd hmem (by simp)

theorem mono {more : Nat} (h : Halts angle least rest) (hle : least ≤ more) :
    Halts angle more rest := by
  intro token hmem
  obtain ⟨hopen, hsuffix, hop⟩ := h token hmem
  exact ⟨hopen, hsuffix, fun op hbinding => hop op (Nat.le_trans hle hbinding)⟩

theorem head?_ne (h : Halts angle least rest) : rest.head? ≠ some "(" :=
  fun hhead => (h "(" hhead).1 rfl

end Halts

theorem BinaryOp.symbol_injective : Function.Injective symbol := by
  have hfind : ∀ op : BinaryOp,
      (member :: (assignments ++ levels.flatten)).find? (·.symbol == op.symbol) = some op := by
    intro op
    cases op <;> rfl
  intro op op' heq
  have hfound := hfind op'
  rw [← heq, hfind op] at hfound
  exact Option.some.inj hfound

theorem BinaryOp.ofToken?_symbol {ops : List BinaryOp} {angle : Bool} {op : BinaryOp}
    (hmem : op ∈ ops) (hangle : (angle && op.closesAngle) = false) :
    ofToken? ops angle op.symbol = some op := by
  cases hfound : ofToken? ops angle op.symbol with
  | none =>
      have hmissed := List.find?_eq_none.mp hfound op hmem
      simp [hangle] at hmissed
  | some other =>
      obtain ⟨-, hsymbol, -⟩ := of_ofToken? hfound
      rw [symbol_injective hsymbol]

theorem BinaryOp.not_suffix {op : BinaryOp} : SuffixOp.ofToken? op.symbol = none := by
  cases op <;> rfl

theorem halts_operator (angle : Bool) {least : Nat} {op : BinaryOp} (h : op.binding < least)
    (rest : List String) : Halts angle least (op.symbol :: rest) := by
  intro token hmem
  obtain rfl : op.symbol = token := by simpa using hmem
  refine ⟨by cases op <;> decide, BinaryOp.not_suffix, ?_⟩
  intro op' hbinding heq
  obtain rfl := BinaryOp.symbol_injective heq
  omega

theorem halts_closing (angle : Bool) {token : String} (h : token ∈ [")", "]", ","])
    (rest : List String) : Halts angle 0 (token :: rest) := by
  intro found hmem
  obtain rfl : token = found := by simpa using hmem
  simp only [List.mem_cons, List.not_mem_nil, or_false] at h
  rcases h with rfl | rfl | rfl
  all_goals
    refine ⟨by decide, by decide, ?_⟩
    intro op _ heq
    cases op <;> simp [BinaryOp.symbol] at heq

theorem halts_angle (rest : List String) : Halts true 0 (">" :: rest) := by
  intro token hmem
  obtain rfl : ">" = token := by simpa using hmem
  refine ⟨by decide, by decide, ?_⟩
  intro op _ heq
  cases op <;> simp_all [BinaryOp.symbol, BinaryOp.closesAngle]

theorem Halts.ofToken?_eq_none {angle : Bool} {least : Nat} {token : String} {rest : List String}
    {ops : List BinaryOp} (h : Halts angle least (token :: rest))
    (hops : ∀ op ∈ ops, least ≤ op.binding) : BinaryOp.ofToken? ops angle token = none := by
  cases hfound : BinaryOp.ofToken? ops angle token with
  | none => rfl
  | some op =>
      obtain ⟨hmem, rfl, hangle⟩ := BinaryOp.of_ofToken? hfound
      have hcloses := (h op.symbol rfl).2.2 op (hops op hmem) rfl
      rw [hangle] at hcloses
      cases hcloses

theorem Halts.not_assignment {angle : Bool} {token : String} {rest : List String}
    (h : Halts angle 0 (token :: rest)) :
    BinaryOp.ofToken? BinaryOp.assignments false token = none := by
  cases hfound : BinaryOp.ofToken? BinaryOp.assignments false token with
  | none => rfl
  | some op =>
      obtain ⟨hmem, rfl, -⟩ := BinaryOp.of_ofToken? hfound
      have hcloses := (h op.symbol rfl).2.2 op (Nat.zero_le _) rfl
      have hassign := BinaryOp.mem_assignments.1 hmem
      cases op <;> simp_all [BinaryOp.closesAngle, BinaryOp.isAssignment]

theorem parseSuffixes_halts {angle : Bool} {rest : List String} (operand : Expr)
    (h : Halts angle 11 rest) : parseSuffixes operand rest = .ok (operand, rest) := by
  cases rest with
  | nil => rfl
  | cons token rest =>
      obtain ⟨-, hsuffix, hop⟩ := h token rfl
      have hpoint : token ≠ "." := by
        rintro rfl
        have hcloses := hop .member (Nat.le_refl _) rfl
        simp [BinaryOp.closesAngle] at hcloses
      rw [parseSuffixes.eq_def]
      simp only [hsuffix, if_neg hpoint]

/-! ### Tokens that write an expression -/

/-- The tokens write the expression, a cast to `rotation` in either spelling. -/
def Writes (tokens : List String) (expr : Expr) : Prop :=
  tokens.map castSpelling = expr.tokens

def WritesAll (tokens : List String) (exprs : List Expr) : Prop :=
  tokens.map castSpelling = separatedTokens exprs

theorem exists_append_of_map_castSpelling {tokens before after : List String} {token : String}
    (h : tokens.map castSpelling = before ++ token :: after) (hne : token ≠ "(rotation)") :
    ∃ first second, tokens = first ++ token :: second ∧ first.map castSpelling = before ∧
      second.map castSpelling = after := by
  obtain ⟨first, others, rfl, hfirst, hothers⟩ := List.map_eq_append_iff.mp h
  obtain ⟨found, second, rfl, hfound, hsecond⟩ := List.map_eq_cons_iff.mp hothers
  obtain rfl := eq_of_castSpelling hfound hne
  exact ⟨first, second, rfl, hfirst, hsecond⟩

/-- The tokens of an operator before an operand are a token of the operator and the operand's. -/
theorem Writes.unary {tokens : List String} {op : UnaryOp} {operand : Expr}
    (h : Writes tokens (.unary op operand)) :
    ∃ token others, tokens = token :: others ∧ UnaryOp.ofToken? token = some op ∧
      Writes others operand := by
  obtain ⟨token, others, rfl, htoken, hothers⟩ := List.map_eq_cons_iff.mp h
  refine ⟨token, others, rfl, ?_, hothers⟩
  by_cases hcast : token = "(quaternion)"
  · subst hcast
    cases op with
    | cast ty => cases ty <;> first | rfl | exact absurd htoken (by decide)
    | _ => exact absurd htoken (by decide)
  · rw [castSpelling, if_neg hcast] at htoken
    subst htoken
    cases op with
    | cast ty => cases ty <;> rfl
    | _ => rfl

theorem Writes.length_pos {tokens : List String} {expr : Expr} (h : Writes tokens expr) :
    0 < tokens.length := by
  rw [← List.length_map castSpelling, h]
  exact List.length_pos_iff.mpr expr.tokens_ne_nil

/-! ### One closed form -/

/-- A closed form is read, and what follows it is left to the operators after an operand. -/
theorem parseUnary_of_closed {budget : Nat} {token : String} {tokens rest : List String}
    {expr : Expr} (angle : Bool) (hnounary : UnaryOp.ofToken? token = none)
    (hclosed : parseClosed budget token tokens = .ok (expr, rest)) :
    parseUnary (budget + 1) angle (token :: tokens) = parseSuffixes expr rest := by
  rw [parseUnary.eq_def]
  simp only [hnounary, hclosed, ok_bind]

theorem not_isDigit_of_startsIdentifier {c : Char} (h : startsIdentifier c) :
    c.isDigit = false := by
  cases hdigit : c.isDigit with
  | false => rfl
  | true =>
      simp only [startsIdentifier, Char.isAlpha, Char.isUpper, Char.isLower, Bool.or_eq_true,
        Bool.and_eq_true, decide_eq_true_eq, beq_iff_eq] at h
      rcases h with (h | rfl) | rfl
      · simp only [Char.isDigit, Bool.and_eq_true, decide_eq_true_eq] at hdigit
        grind
      · exact absurd hdigit (by decide)
      · exact absurd hdigit (by decide)

/-- A number or a quoted literal is no identifier. -/
theorem not_isIdentifier_of_literal {token : String}
    (h : (isNumeric token || isQuoted token) = true) : isIdentifier token = false := by
  cases hname : isIdentifier token with
  | false => rfl
  | true =>
      unfold isIdentifier at hname
      unfold isNumeric isQuoted at h
      split at hname
      · cases hname
      · rename_i c rest hlist
        simp only [Bool.and_eq_true] at hname
        have hdigit := not_isDigit_of_startsIdentifier hname.1
        rw [hlist] at h
        split at h
        · rename_i heq
          obtain ⟨rfl, rfl⟩ := List.cons.inj heq
          exact absurd hname.1 (by decide)
        · rename_i heq
          obtain ⟨rfl, rfl⟩ := List.cons.inj heq
          simp only [hdigit, Bool.false_or, Bool.or_eq_true, beq_iff_eq] at h
          rcases h with rfl | rfl
          · exact absurd hname.1 (by decide)
          · exact absurd hname.1 (by decide)
        · rename_i heq
          cases heq

theorem parseClosed_leaf {budget : Nat} {token : String} {rest : List String}
    (h : isOperand token) (hrest : rest.head? ≠ some "(") :
    parseClosed (budget + 1) token rest = .ok (.value token, rest) := by
  have hround : token ≠ "(" := by rintro rfl; exact absurd h (by decide)
  have hsquare : token ≠ "[" := by rintro rfl; exact absurd h (by decide)
  have hangle : token ≠ "<" := by rintro rfl; exact absurd h (by decide)
  rw [parseClosed.eq_def]
  simp only [if_neg hround, if_neg hsquare, if_neg hangle]
  by_cases hname : isIdentifier token
  · have hreserved : Builtin.isReserved token = false := by
      cases hliteral : isNumeric token || isQuoted token with
      | true => rw [not_isIdentifier_of_literal hliteral] at hname; cases hname
      | false => simpa [isOperand, Bool.or_assoc, hliteral, hname] using h
    rw [if_pos hname, if_neg (by simp [hreserved])]
    cases rest with
    | nil => rfl
    | cons next after =>
        have hnext : next ≠ "(" := by simpa using hrest
        exact if_neg hnext
  · have hliteral : (isNumeric token || isQuoted token) = true := by
      simpa [isOperand, hname] using h
    rw [if_neg hname, if_pos hliteral]

theorem UnaryOp.ofToken?_operand {token : String} (h : isOperand token) :
    ofToken? token = none := by
  cases hop : ofToken? token with
  | none => rfl
  | some op =>
      have hsymbol := of_ofToken? hop
      rw [castSpelling_of_isOperand h] at hsymbol
      subst hsymbol
      cases op with
      | cast ty => cases ty <;> exact absurd h (by decide)
      | _ => exact absurd h (by decide)

/-! ### What a tree is read as -/

/-- How a tree of the grammar is read, according to how tightly it binds. -/
structure Parses (angle : Bool) (expr : Expr) : Prop where
  suffixed : 11 ≤ expr.binding → ∀ {tokens rest budget}, Writes tokens expr →
    rest.head? ≠ some "(" → 16 * tokens.length ≤ budget →
    parseUnary budget angle (tokens ++ rest) = parseSuffixes expr rest
  unary : 10 ≤ expr.binding → ∀ {tokens rest budget}, Writes tokens expr →
    Halts angle 10 rest → 16 * tokens.length ≤ budget →
    parseUnary budget angle (tokens ++ rest) = .ok (expr, rest)
  /-- The tree is complete as the left operand of what follows; each operator in it has cost one. -/
  joined : ∀ {level tighter}, BinaryOp.Climbs expr.binding (level :: tighter) →
    ∀ {tokens rest budget}, Writes tokens expr → Halts angle (expr.binding + 1) rest →
    16 * tokens.length + 11 ≤ budget + expr.binding →
    ∃ left, budget ≤ left + tokens.length ∧
      parseLevels budget angle (level :: tighter) (tokens ++ rest)
        = parseJoined left angle level tighter expr rest
  assigned : expr.binding = 0 → ∀ {tokens rest budget}, Writes tokens expr →
    Halts angle 0 rest → 16 * tokens.length + 11 ≤ budget →
    parseAssignment budget angle (tokens ++ rest) = .ok (expr, rest)

namespace Parses

variable {angle : Bool} {expr : Expr}

/-- What holds of an expression that closes itself or ends in an operator after its operand. -/
theorem of_suffixed (hbinding : 11 ≤ expr.binding)
    (hread : ∀ {tokens rest budget}, Writes tokens expr → rest.head? ≠ some "(" →
      16 * tokens.length ≤ budget →
      parseUnary budget angle (tokens ++ rest) = parseSuffixes expr rest) :
    Parses angle expr where
  suffixed _ := hread
  unary _ := by
    intro tokens rest budget hwrites hhalts hbudget
    rw [hread hwrites hhalts.head?_ne hbudget]
    exact parseSuffixes_halts expr (hhalts.mono (by omega))
  joined hclimbs := by
    have := hclimbs.2.1
    omega
  assigned h := by omega

/-- With the levels from `least` on, a tree that binds at least as tightly is read whole. -/
theorem levels (h : Parses angle expr) {levels : List (List BinaryOp)} :
    ∀ {least}, BinaryOp.Climbs least levels → least ≤ expr.binding →
    ∀ {tokens rest budget}, Writes tokens expr → Halts angle least rest →
    16 * tokens.length + 11 ≤ budget + least →
    parseLevels budget angle levels (tokens ++ rest) = .ok (expr, rest) := by
  induction levels with
  | nil =>
      intro least hclimbs hleast tokens rest budget hwrites hhalts hbudget
      obtain rfl : least = 10 := hclimbs
      obtain ⟨budget, rfl⟩ : ∃ b, budget = b + 1 := ⟨budget - 1, by omega⟩
      rw [parseLevels.eq_def]
      exact h.unary hleast hwrites hhalts (by omega)
  | cons level tighter ih =>
      intro least hclimbs hleast tokens rest budget hwrites hhalts hbudget
      obtain ⟨hlow, hhigh, hlevel, htighter⟩ := hclimbs
      -- The operators of this level do not go on, so its loop gives back what it has.
      have hstop : ∀ left, 0 < left →
          parseJoined left angle level tighter expr rest = .ok (expr, rest) := by
        intro left hleft
        obtain ⟨left, rfl⟩ : ∃ b, left = b + 1 := ⟨left - 1, by omega⟩
        cases rest with
        | nil => rfl
        | cons token rest =>
            have hnone := hhalts.ofToken?_eq_none
              (fun op hmem => Nat.le_of_eq ((hlevel op).mp hmem).symm)
            rw [parseJoined.eq_def]
            simp only [hnone]
      have hpos := hwrites.length_pos
      rcases Nat.lt_or_eq_of_le hleast with hlt | rfl
      · obtain ⟨budget, rfl⟩ : ∃ b, budget = b + 1 := ⟨budget - 1, by omega⟩
        have hread := ih htighter hlt hwrites (hhalts.mono (Nat.le_succ _))
          (show _ ≤ budget + (least + 1) by omega)
        rw [parseLevels.eq_def]
        simp only [hread, ok_bind]
        exact hstop budget (by omega)
      · obtain ⟨left, hleft, hread⟩ := h.joined ⟨hlow, hhigh, hlevel, htighter⟩ hwrites
          (hhalts.mono (Nat.le_succ _)) hbudget
        rw [hread]
        exact hstop left (by omega)

/-- A tree that is followed by something else is read whole. -/
theorem assignment (h : Parses angle expr) {tokens rest : List String} {budget : Nat}
    (hwrites : Writes tokens expr) (hhalts : Halts angle 0 rest)
    (hbudget : 16 * tokens.length + 11 ≤ budget) :
    parseAssignment budget angle (tokens ++ rest) = .ok (expr, rest) := by
  rcases Nat.eq_zero_or_pos expr.binding with hzero | hpos
  · exact h.assigned hzero hwrites hhalts hbudget
  · obtain ⟨budget, rfl⟩ : ∃ b, budget = b + 1 := ⟨budget - 1, by omega⟩
    have hread := h.levels BinaryOp.climbs_levels hpos hwrites (hhalts.mono (Nat.zero_le _))
      (show _ ≤ budget + 1 by omega)
    rw [parseAssignment]
    simp only [hread, ok_bind]
    cases rest with
    | nil => rfl
    | cons token rest => simp only [hhalts.not_assignment, pure_eq_ok]

end Parses

/-! ### Brackets -/

@[simp] theorem expect_self (token : String) (rest : List String) :
    expect token (token :: rest) = .ok rest :=
  if_pos rfl

/-- Tokens that write something between two brackets are the brackets and what writes it. -/
theorem exists_bracketed {tokens inner : List String} {opening closing : String}
    (h : tokens.map castSpelling = opening :: (inner ++ [closing]))
    (hopening : opening ≠ "(rotation)") (hclosing : closing ≠ "(rotation)") :
    ∃ middle, tokens = opening :: (middle ++ [closing]) ∧ middle.map castSpelling = inner := by
  obtain ⟨first, others, rfl, hfirst, hothers⟩ := List.map_eq_cons_iff.mp h
  obtain ⟨middle, after, rfl, hmiddle, hafter⟩ :=
    exists_append_of_map_castSpelling hothers hclosing
  obtain rfl := eq_of_castSpelling hfirst hopening
  obtain rfl := List.map_eq_nil_iff.mp hafter
  exact ⟨middle, rfl, hmiddle⟩

/-- Expressions with commas between them are read up to what follows the last. -/
theorem parseSeparated_of_parses {angle : Bool} {exprs : List Expr} {rest : List String}
    (hparses : ∀ expr ∈ exprs, Parses angle expr) (hne : exprs ≠ [])
    (hhalts : Halts angle 0 rest) (hcomma : rest.head? ≠ some ",") :
    ∀ {tokens budget}, WritesAll tokens exprs → 16 * tokens.length + 12 ≤ budget →
      parseSeparated budget angle (tokens ++ rest) = .ok (exprs, rest) := by
  induction exprs with
  | nil => exact absurd rfl hne
  | cons expr others ih =>
      intro tokens budget hwrites hbudget
      obtain ⟨budget, rfl⟩ : ∃ b, budget = b + 1 := ⟨budget - 1, by omega⟩
      have hfirst := hparses expr List.mem_cons_self
      by_cases hothers : others = []
      · subst hothers
        have hread := hfirst.assignment hwrites hhalts (show _ ≤ budget by omega)
        rw [parseSeparated]
        simp only [hread, ok_bind]
        cases rest with
        | nil => rfl
        | cons token rest => exact if_neg (by simpa using hcomma)
      · rw [WritesAll, separatedTokens_cons expr hothers] at hwrites
        obtain ⟨first, second, rfl, hwrote, hwrites⟩ :=
          exists_append_of_map_castSpelling hwrites (by decide)
        rw [List.length_append, List.length_cons] at hbudget
        have hend : Halts angle 0 ("," :: (second ++ rest)) := halts_closing angle (by simp) _
        have hread := hfirst.assignment hwrote hend (show _ ≤ budget by omega)
        have hnext := ih (fun e hmem => hparses e (List.mem_cons_of_mem _ hmem)) hothers hwrites
          (show _ ≤ budget by omega)
        rw [List.append_assoc, List.cons_append, parseSeparated]
        simp only [hread, ok_bind, if_true, hnext, pure_eq_ok]


/-- Expressions with commas between them are read up to a closing bracket, which none opens. -/
theorem parseItems_of_parses {exprs : List Expr} {close : String} {tokens : List String}
    {budget : Nat} (hparses : ∀ expr ∈ exprs, Parses false expr)
    (hopens : ∀ expr ∈ exprs, expr.Grammatical false) (hclose : close ∈ [")", "]"])
    (hwrites : WritesAll tokens exprs) (hbudget : 16 * tokens.length + 13 ≤ budget)
    (rest : List String) :
    parseItems budget close (tokens ++ close :: rest) = .ok (exprs, rest) := by
  obtain ⟨budget, rfl⟩ : ∃ b, budget = b + 1 := ⟨budget - 1, by omega⟩
  rw [parseItems]
  cases exprs with
  | nil =>
      obtain rfl : tokens = [] := List.map_eq_nil_iff.mp hwrites
      simp
  | cons expr others =>
      have hnot : (tokens ++ close :: rest).head? ≠ some close := by
        intro hhead
        obtain ⟨token, after, htokens, hopen⟩ := (hopens expr List.mem_cons_self).opens
        obtain ⟨more, hmore⟩ := separatedTokens_cons_eq_append expr others
        rw [WritesAll, hmore, htokens] at hwrites
        obtain ⟨found, second, rfl, hfound, -⟩ := List.map_eq_cons_iff.mp hwrites
        obtain rfl : found = close := by simpa using hhead
        simp only [List.mem_cons, List.not_mem_nil, or_false] at hclose
        rcases hclose with rfl | rfl
        all_goals
          rw [← hfound] at hopen
          exact absurd hopen (by decide)
      have hcomma : close ≠ "," := by
        rintro rfl
        exact absurd hclose (by decide)
      have hend : Halts false 0 (close :: rest) := by
        refine halts_closing false ?_ rest
        simp only [List.mem_cons, List.not_mem_nil, or_false] at hclose ⊢
        exact hclose.imp id .inl
      have hread := parseSeparated_of_parses hparses (List.cons_ne_nil _ _) hend
        (by simpa using hcomma) hwrites (show _ ≤ budget by omega)
      rw [if_neg hnot]
      simp only [hread, ok_bind, expect_self, pure_eq_ok]

/-! ### Every tree of the grammar -/

namespace Parses

variable {angle : Bool}

theorem of_value {token : String} (h : isOperand token) : Parses angle (.value token) := by
  refine of_suffixed (Nat.le_succ 11) ?_
  intro tokens rest budget hwrites hrest hbudget
  obtain ⟨found, others, rfl, hfound, hothers⟩ := List.map_eq_cons_iff.mp hwrites
  obtain rfl := List.map_eq_nil_iff.mp hothers
  have hplain : token ≠ "(rotation)" := by
    rintro rfl
    exact absurd h (by decide)
  obtain rfl := eq_of_castSpelling hfound hplain
  rw [List.length_singleton] at hbudget
  obtain ⟨budget, rfl⟩ : ∃ b, budget = b + 2 := ⟨budget - 2, by omega⟩
  exact parseUnary_of_closed angle (UnaryOp.ofToken?_operand h) (parseClosed_leaf h hrest)

theorem of_group {child : Expr} (h : Parses false child) : Parses angle (.group [child]) := by
  refine of_suffixed (Nat.le_succ 11) ?_
  intro tokens rest budget hwrites hrest hbudget
  obtain ⟨middle, rfl, hmiddle⟩ := exists_bracketed hwrites (by decide) (by decide)
  simp only [List.length_cons, List.length_append, List.length_nil] at hbudget
  obtain ⟨budget, rfl⟩ : ∃ b, budget = b + 2 := ⟨budget - 2, by omega⟩
  have hend : Halts false 0 (")" :: rest) := halts_closing false (by simp) rest
  have hread := h.assignment hmiddle hend (show _ ≤ budget by omega)
  rw [List.cons_append, List.append_assoc]
  refine parseUnary_of_closed angle rfl ?_
  rw [parseClosed.eq_def]
  simp only [if_true, List.cons_append, List.nil_append, hread, ok_bind, expect_self, pure_eq_ok]

theorem of_list {items : List Expr} (hparses : ∀ item ∈ items, Parses false item)
    (hopens : ∀ item ∈ items, item.Grammatical false) : Parses angle (.list items) := by
  refine of_suffixed (Nat.le_succ 11) ?_
  intro tokens rest budget hwrites hrest hbudget
  obtain ⟨middle, rfl, hmiddle⟩ := exists_bracketed hwrites (by decide) (by decide)
  simp only [List.length_cons, List.length_append, List.length_nil] at hbudget
  obtain ⟨budget, rfl⟩ : ∃ b, budget = b + 2 := ⟨budget - 2, by omega⟩
  have hclose : "]" ∈ [")", "]"] := by simp
  have hread := parseItems_of_parses hparses hopens hclose hmiddle (show _ ≤ budget by omega) rest
  rw [List.cons_append, List.append_assoc]
  refine parseUnary_of_closed angle rfl ?_
  rw [parseClosed.eq_def]
  simp only [if_neg (show "[" ≠ "(" by decide), if_true, List.cons_append, List.nil_append, hread,
    ok_bind, pure_eq_ok]

theorem of_angle {components : List Expr} (hparses : ∀ c ∈ components, Parses true c)
    (hne : components ≠ []) : Parses angle (.angle components) := by
  refine of_suffixed (Nat.le_succ 11) ?_
  intro tokens rest budget hwrites hrest hbudget
  obtain ⟨middle, rfl, hmiddle⟩ := exists_bracketed hwrites (by decide) (by decide)
  simp only [List.length_cons, List.length_append, List.length_nil] at hbudget
  obtain ⟨budget, rfl⟩ : ∃ b, budget = b + 2 := ⟨budget - 2, by omega⟩
  have hread := parseSeparated_of_parses hparses hne (halts_angle rest) (by simp) hmiddle
    (show _ ≤ budget by omega)
  rw [List.cons_append, List.append_assoc]
  refine parseUnary_of_closed angle rfl ?_
  rw [parseClosed.eq_def]
  simp only [if_neg (show "<" ≠ "(" by decide), if_neg (show "<" ≠ "[" by decide), if_true,
    List.cons_append, List.nil_append, hread, ok_bind, expect_self, pure_eq_ok]

theorem of_call {name : String} {args : List Expr} (hname : isIdentifier name)
    (hfree : Builtin.isReserved name = false) (hparses : ∀ arg ∈ args, Parses false arg)
    (hopens : ∀ arg ∈ args, arg.Grammatical false) : Parses angle (.call name args) := by
  refine of_suffixed (Nat.le_succ 11) ?_
  intro tokens rest budget hwrites hrest hbudget
  obtain ⟨found, others, rfl, hfound, hothers⟩ := List.map_eq_cons_iff.mp hwrites
  obtain ⟨middle, rfl, hmiddle⟩ := exists_bracketed hothers (by decide) (by decide)
  have hplain : name ≠ "(rotation)" := by
    rintro rfl
    exact absurd hname (by decide)
  obtain rfl := eq_of_castSpelling hfound hplain
  simp only [List.length_cons, List.length_append, List.length_nil] at hbudget
  obtain ⟨budget, rfl⟩ : ∃ b, budget = b + 2 := ⟨budget - 2, by omega⟩
  have hclose : ")" ∈ [")", "]"] := by simp
  have hread := parseItems_of_parses hparses hopens hclose hmiddle (show _ ≤ budget by omega) rest
  have hleaf : isOperand found := by simp [isOperand, hname, hfree]
  rw [List.cons_append, List.cons_append, List.append_assoc]
  refine parseUnary_of_closed angle (UnaryOp.ofToken?_operand hleaf) ?_
  have hround : found ≠ "(" := by rintro rfl; exact absurd hname (by decide)
  have hsquare : found ≠ "[" := by rintro rfl; exact absurd hname (by decide)
  have hangle : found ≠ "<" := by rintro rfl; exact absurd hname (by decide)
  rw [parseClosed.eq_def]
  simp only [if_neg hround, if_neg hsquare, if_neg hangle, if_pos hname, hfree, Bool.false_eq_true,
    if_false, if_true, List.cons_append, List.nil_append, hread, ok_bind, pure_eq_ok]

theorem of_suffix {op : SuffixOp} {operand : Expr} (h : Parses angle operand)
    (hbinding : 11 ≤ operand.binding) : Parses angle (.suffix op operand) := by
  refine of_suffixed (Nat.le_refl 11) ?_
  intro tokens rest budget hwrites hrest hbudget
  obtain ⟨first, after, rfl, hfirst, hafter⟩ :=
    exists_append_of_map_castSpelling hwrites (by cases op <;> decide)
  obtain rfl := List.map_eq_nil_iff.mp hafter
  rw [List.length_append] at hbudget
  have hnext : (op.symbol :: rest).head? ≠ some "(" := by cases op <;> simp [SuffixOp.symbol]
  have hop : SuffixOp.ofToken? op.symbol = some op := by cases op <;> rfl
  rw [List.append_assoc, List.singleton_append,
    h.suffixed hbinding hfirst hnext (by omega), parseSuffixes.eq_def]
  simp only [hop]

theorem of_member {object : Expr} {name : String} (h : Parses angle object)
    (hbinding : 11 ≤ object.binding) (hname : isIdentifier name) :
    Parses angle (.binary .member object (.value name)) := by
  refine of_suffixed (Nat.le_refl 11) ?_
  intro tokens rest budget hwrites hrest hbudget
  obtain ⟨first, after, rfl, hfirst, hafter⟩ :=
    exists_append_of_map_castSpelling hwrites (by decide)
  obtain ⟨found, others, rfl, hfound, hothers⟩ := List.map_eq_cons_iff.mp hafter
  obtain rfl := List.map_eq_nil_iff.mp hothers
  have hplain : name ≠ "(rotation)" := by
    rintro rfl
    exact absurd hname (by decide)
  obtain rfl := eq_of_castSpelling hfound hplain
  rw [List.length_append] at hbudget
  have hnext : (BinaryOp.symbol .member :: found :: rest).head? ≠ some "(" := by
    simp [BinaryOp.symbol]
  rw [List.append_assoc, List.cons_append, List.singleton_append,
    h.suffixed hbinding hfirst hnext (by omega), parseSuffixes.eq_def]
  have hpoint : SuffixOp.ofToken? "." = none := rfl
  simp only [BinaryOp.symbol, hpoint, if_true, hname]

theorem of_unary {op : UnaryOp} {operand : Expr} (h : Parses angle operand)
    (hbinding : 10 ≤ operand.binding) : Parses angle (.unary op operand) where
  suffixed hhigh := by
    have hten : Expr.binding (.unary op operand) = 10 := rfl
    omega
  unary _ := by
    intro tokens rest budget hwrites hhalts hbudget
    obtain ⟨token, others, rfl, htoken, hothers⟩ := hwrites.unary
    rw [List.length_cons] at hbudget
    obtain ⟨budget, rfl⟩ : ∃ b, budget = b + 1 := ⟨budget - 1, by omega⟩
    have hread := h.unary hbinding hothers hhalts (show _ ≤ budget by omega)
    rw [List.cons_append, parseUnary.eq_def]
    simp only [htoken, hread, ok_bind, pure_eq_ok]
  joined hclimbs := by
    have hten : Expr.binding (.unary op operand) = 10 := rfl
    have := hclimbs.2.1
    omega
  assigned h := by cases h

theorem of_joined {op : BinaryOp} {left right : Expr} (hlow : 1 ≤ op.binding)
    (hhigh : op.binding ≤ 9) (hangle : (angle && op.closesAngle) = false)
    (hleft : Parses angle left) (hleast : op.binding ≤ left.binding)
    (hright : Parses angle right) (hmore : op.binding < right.binding) :
    Parses angle (.binary op left right) where
  suffixed hbinding := by
    have heq : Expr.binding (.binary op left right) = op.binding := rfl
    omega
  unary hbinding := by
    have heq : Expr.binding (.binary op left right) = op.binding := rfl
    omega
  assigned hzero := by
    have heq : Expr.binding (.binary op left right) = op.binding := rfl
    omega
  joined := by
    intro level tighter hclimbs tokens rest budget hwrites hhalts hbudget
    change BinaryOp.Climbs op.binding (level :: tighter) at hclimbs
    change Halts angle (op.binding + 1) rest at hhalts
    change 16 * tokens.length + 11 ≤ budget + op.binding at hbudget
    obtain ⟨first, second, rfl, hfirst, hsecond⟩ :=
      exists_append_of_map_castSpelling hwrites (by cases op <;> decide)
    simp only [List.length_append, List.length_cons] at hbudget
    have hpos := Writes.length_pos hfirst
    have hend : Halts angle (op.binding + 1) (op.symbol :: (second ++ rest)) :=
      halts_operator angle (Nat.lt_succ_self _) _
    -- The left operand ends where the operator stands, whether it is of this level or tighter.
    obtain ⟨granted, hspent, hread⟩ : ∃ granted, budget ≤ granted + first.length ∧
        parseLevels budget angle (level :: tighter) (first ++ op.symbol :: (second ++ rest))
          = parseJoined granted angle level tighter left (op.symbol :: (second ++ rest)) := by
      rcases Nat.lt_or_eq_of_le hleast with hlt | heq
      · obtain ⟨budget, rfl⟩ : ∃ b, budget = b + 1 := ⟨budget - 1, by omega⟩
        have hread := hleft.levels hclimbs.2.2.2 hlt hfirst hend
          (show _ ≤ budget + (op.binding + 1) by omega)
        refine ⟨budget, by omega, ?_⟩
        rw [parseLevels.eq_def]
        simp only [hread, ok_bind]
      · rw [heq] at hclimbs hend
        exact hleft.joined hclimbs hfirst hend (by omega)
    obtain ⟨spent, rfl⟩ : ∃ b, granted = b + 1 := ⟨granted - 1, by omega⟩
    have hop := BinaryOp.ofToken?_symbol ((hclimbs.2.2.1 op).mpr rfl) hangle
    have hnext := hright.levels hclimbs.2.2.2 hmore hsecond hhalts
      (show _ ≤ spent + (op.binding + 1) by omega)
    refine ⟨spent, by simp only [List.length_append, List.length_cons]; omega, ?_⟩
    rw [List.append_assoc, List.cons_append, hread, parseJoined.eq_def]
    simp only [hop, hnext, ok_bind]

theorem of_assignment {op : BinaryOp} {left right : Expr} (hop : op.isAssignment)
    (hleft : Parses angle left) (hleast : 1 ≤ left.binding) (hright : Parses angle right) :
    Parses angle (.binary op left right) := by
  have hzero : Expr.binding (.binary op left right) = 0 := by
    cases op <;> first | rfl | exact absurd hop (by decide)
  refine ⟨fun h => by omega, fun h => by omega, fun hclimbs => ?_, fun _ => ?_⟩
  · have := hclimbs.1
    omega
  · intro tokens rest budget hwrites hhalts hbudget
    obtain ⟨first, second, rfl, hfirst, hsecond⟩ :=
      exists_append_of_map_castSpelling hwrites (by cases op <;> decide)
    simp only [List.length_append, List.length_cons] at hbudget
    obtain ⟨budget, rfl⟩ : ∃ b, budget = b + 1 := ⟨budget - 1, by omega⟩
    have hlow : op.binding < 1 := Nat.lt_one_iff.mpr hzero
    have hread := hleft.levels BinaryOp.climbs_levels hleast hfirst
      (halts_operator angle hlow (second ++ rest)) (show _ ≤ budget + 1 by omega)
    have hfound : BinaryOp.ofToken? BinaryOp.assignments false op.symbol = some op :=
      BinaryOp.ofToken?_symbol (BinaryOp.mem_assignments.2 hop) rfl
    have hnext := hright.assignment hsecond hhalts (show _ ≤ budget by omega)
    rw [List.append_assoc, List.cons_append, parseAssignment]
    simp only [hread, ok_bind, hfound, hnext, pure_eq_ok]

end Parses

/-- A tree of the grammar is read from the tokens that write it. -/
theorem Expr.Grammatical.parses {angle : Bool} {expr : Expr} (h : expr.Grammatical angle) :
    Parses angle expr := by
  induction h with
  | value hleaf => exact .of_value hleaf
  | assignment hop _ hleast _ ihleft ihright => exact .of_assignment hop ihleft hleast ihright
  | joined hlow hhigh hangle _ hleast _ hmore ihleft ihright =>
      exact .of_joined hlow hhigh hangle ihleft hleast ihright hmore
  | unary _ hbinding ih => exact .of_unary ih hbinding
  | suffix _ hbinding ih => exact .of_suffix ih hbinding
  | member _ hbinding hname ih => exact .of_member ih hbinding hname
  | group _ ih => exact .of_group ih
  | list hitems ih => exact .of_list ih hitems
  | angle hne _ ih => exact .of_angle ih hne
  | call hname hfree hargs ih => exact .of_call hname hfree ih hargs

/-! ### Whole token lists -/

theorem parseExpression_of_writes {tokens : List String} {expr : Expr}
    (h : expr.Grammatical false) (hwrites : Writes tokens expr) :
    parseExpression tokens = .ok expr := by
  have hbudget : 16 * tokens.length + 11 ≤ parseBudget tokens := by
    unfold parseBudget
    omega
  have hread := h.parses.assignment hwrites Halts.nil hbudget
  rw [List.append_nil] at hread
  rw [parseExpression, hread]
  rfl

theorem parseList_of_writes {tokens : List String} {exprs : List Expr}
    (h : ∀ expr ∈ exprs, expr.Grammatical false) (hwrites : WritesAll tokens exprs) :
    parseList tokens = .ok exprs := by
  unfold parseList
  by_cases hexprs : exprs = []
  · subst hexprs
    obtain rfl : tokens = [] := List.map_eq_nil_iff.mp hwrites
    rfl
  · have hbudget : 16 * tokens.length + 12 ≤ parseBudget tokens := by
      unfold parseBudget
      omega
    have hread := parseSeparated_of_parses (fun expr hmem => (h expr hmem).parses) hexprs
      Halts.nil (by simp) hwrites hbudget
    have hnonempty : tokens.isEmpty = false := by
      refine List.isEmpty_eq_false_iff.mpr ?_
      rintro rfl
      exact hexprs (separatedTokens_eq_nil_iff.1 hwrites.symm)
    rw [List.append_nil] at hread
    rw [hnonempty, hread]
    rfl

/-- An expression is what the tokens make exactly if it is the tree of the grammar they write. -/
theorem parseExpression_eq_ok_iff {tokens : List String} {expr : Expr} :
    parseExpression tokens = .ok expr ↔ Writes tokens expr ∧ expr.Grammatical false := by
  constructor
  · intro h
    exact ⟨(parseExpression_reads h).1.symm, (parseExpression_reads h).2⟩
  · rintro ⟨hwrites, hgrammatical⟩
    exact parseExpression_of_writes hgrammatical hwrites

theorem parseList_eq_ok_iff {tokens : List String} {exprs : List Expr} :
    parseList tokens = .ok exprs ↔
      WritesAll tokens exprs ∧ ∀ expr ∈ exprs, expr.Grammatical false := by
  constructor
  · intro h
    exact ⟨(parseList_reads h).1.symm, (parseList_reads h).2⟩
  · rintro ⟨hwrites, hgrammatical⟩
    exact parseList_of_writes hgrammatical hwrites

/-- Every tree of the grammar is read back from its tokens, so no two trees are written alike. -/
theorem grammatical_reads_back :
    (∀ expr : Expr, expr.Grammatical false → parseExpression expr.tokens = .ok expr) ∧
    (∀ exprs : List Expr, exprs ≠ [] → (∀ expr ∈ exprs, expr.Grammatical false) →
      parseList (separatedTokens exprs) = .ok exprs) ∧
    ∀ expr expr' : Expr, expr.Grammatical false → expr'.Grammatical false →
      expr.tokens = expr'.tokens → expr = expr' := by
  have hread : ∀ expr : Expr, expr.Grammatical false → parseExpression expr.tokens = .ok expr :=
    fun expr h => parseExpression_of_writes h h.map_castSpelling
  refine ⟨hread, ?_, ?_⟩
  · intro exprs _ h
    have hwrites := map_castSpelling_separatedTokens fun expr hmem => (h expr hmem).map_castSpelling
    exact parseList_of_writes h hwrites
  · intro expr expr' h h' htokens
    have heq := hread expr h
    rw [htokens, hread expr' h'] at heq
    exact (Except.ok.inj heq).symm

/-- What stands before an operand and after it is told apart by its place. -/
theorem grammatical_reads_back_increment :
    let expr := Expr.binary .lt (.suffix .increment (.value "i"))
      (.unary .increment (.angle [.value "1", .value "2", .unary .neg (.value "x")]))
    expr.Grammatical false ∧
      parseExpression ["i", "++", "<", "++", "<", "1", ",", "2", ",", "-", "x", ">"] = .ok expr ∧
      parseList (separatedTokens [expr, expr]) = .ok [expr, expr] := by
  intro expr
  have hexpr : expr.Grammatical false := by
    refine .joined (by decide) (by decide) rfl (.suffix (.value (by decide)) (by decide))
      (by decide) (.unary (.angle (by decide) ?_) (by decide)) (by decide)
    intro c hmem
    simp only [List.mem_cons, List.not_mem_nil, or_false] at hmem
    rcases hmem with rfl | rfl | rfl
    · exact .value (by decide)
    · exact .value (by decide)
    · exact .unary (.value (by decide)) (by decide)
  refine ⟨hexpr, grammatical_reads_back.1 expr hexpr, ?_⟩
  refine grammatical_reads_back.2.1 [expr, expr] (by decide) ?_
  simp [hexpr]

end LslFront
