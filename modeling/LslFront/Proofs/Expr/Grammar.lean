import LslFront.Expr.Parser

/-!
# The grammar of expressions

An expression is written as a list of tokens by `Expr.tokens`, and `Expr.Grammatical` says which
trees such a list can have come from.  Both speak of trees alone, so the parser can be compared
with them from either side.

What decides the shape of a tree is how tightly its outermost operator binds.  An operand must
bind at least as tightly as its place asks for; everything between brackets binds tightest, which
is why brackets can stand anywhere.
-/

namespace LslFront

/-! ### Trees -/

/-- What holds of every expression, child by child. -/
@[elab_as_elim]
theorem Expr.induction {P : Expr → Prop}
    (value : ∀ token, P (.value token))
    (binary : ∀ op left right, P left → P right → P (.binary op left right))
    (unary : ∀ op operand, P operand → P (.unary op operand))
    (suffix : ∀ op operand, P operand → P (.suffix op operand))
    (group : ∀ children, (∀ child ∈ children, P child) → P (.group children))
    (list : ∀ items, (∀ item ∈ items, P item) → P (.list items))
    (angle : ∀ components, (∀ c ∈ components, P c) → P (.angle components))
    (call : ∀ name args, (∀ arg ∈ args, P arg) → P (.call name args))
    (expr : Expr) : P expr := by
  refine @Expr.rec P (fun exprs => ∀ e ∈ exprs, P e) value binary unary suffix group list angle
    call (fun e he => absurd he List.not_mem_nil) ?_ expr
  intro first rest hfirst hrest e he
  rcases List.mem_cons.mp he with rfl | he
  · exact hfirst
  · exact hrest e he

/-! ### Writing -/

mutual

/-- The tokens that write an expression.  A cast is one token. -/
def Expr.tokens : Expr → List String
  | .value token => [token]
  | .binary op left right => left.tokens ++ op.symbol :: right.tokens
  | .unary op operand => op.symbol :: operand.tokens
  | .suffix op operand => operand.tokens ++ [op.symbol]
  | .group children => "(" :: (separatedTokens children ++ [")"])
  | .list items => "[" :: (separatedTokens items ++ ["]"])
  | .angle components => "<" :: (separatedTokens components ++ [">"])
  | .call name args => name :: "(" :: (separatedTokens args ++ [")"])

/-- The tokens that write several expressions with commas between them. -/
def separatedTokens : List Expr → List String
  | [] => []
  | [expr] => expr.tokens
  | expr :: next :: rest => expr.tokens ++ "," :: separatedTokens (next :: rest)

end

/-- The one spelling of a token: the cast to `quaternion` is the cast to `rotation`. -/
def castSpelling (token : String) : String :=
  if token = "(quaternion)" then "(rotation)" else token

/-! ### Binding -/

/-- How tightly a binary operator binds.  Assignments bind loosest; a member access is as tight as
    an operator after its operand. -/
def BinaryOp.binding : BinaryOp → Nat
  | assign | addAssign | subAssign | mulAssign | divAssign | modAssign => 0
  | and | or => 1
  | bitOr => 2
  | bitXor => 3
  | bitAnd => 4
  | eq | ne => 5
  | lt | gt | le | ge => 6
  | shl | shr => 7
  | add | sub => 8
  | mul | div | mod => 9
  | member => 11

/-- How tightly the outermost operator of an expression binds.  Operators and casts before an
    operand bind tighter than all that join two operands, operators after it tighter still, and
    what has no outermost operator counts as tightest. -/
def Expr.binding : Expr → Nat
  | .binary op _ _ => op.binding
  | .unary .. => 10
  | .suffix .. => 11
  | _ => 12

/-! ### Trees of the grammar -/

def isOperand (token : String) : Bool :=
  (isIdentifier token && !Builtin.isReserved token) || isNumeric token || isQuoted token

/-- A tree of the grammar.  The mark says whether it stands directly inside an angle literal,
    where no operator may swallow the `>` that ends it. -/
inductive Expr.Grammatical : Bool → Expr → Prop where
  | value {angle token} : isOperand token → Grammatical angle (.value token)
  /-- To the right: an assignment may be assigned. -/
  | assignment {angle op left right} : op.isAssignment → Grammatical angle left →
      1 ≤ left.binding → Grammatical angle right → Grammatical angle (.binary op left right)
  /-- To the left: only the left operand may bind as loosely as the operator itself. -/
  | joined {angle op left right} : 1 ≤ op.binding → op.binding ≤ 9 →
      (angle && op.closesAngle) = false → Grammatical angle left → op.binding ≤ left.binding →
      Grammatical angle right → op.binding < right.binding →
      Grammatical angle (.binary op left right)
  | unary {angle op operand} : Grammatical angle operand → 10 ≤ operand.binding →
      Grammatical angle (.unary op operand)
  | suffix {angle op operand} : Grammatical angle operand → 11 ≤ operand.binding →
      Grammatical angle (.suffix op operand)
  /-- A member name may be a reserved word. -/
  | member {angle object name} : Grammatical angle object → 11 ≤ object.binding →
      isIdentifier name → Grammatical angle (.binary .member object (.value name))
  | group {angle child} : Grammatical false child → Grammatical angle (.group [child])
  | list {angle items} : (∀ item ∈ items, Grammatical false item) →
      Grammatical angle (.list items)
  | angle {angle components} : components ≠ [] → (∀ c ∈ components, Grammatical true c) →
      Grammatical angle (.angle components)
  | call {angle name args} : isIdentifier name → Builtin.isReserved name = false →
      (∀ arg ∈ args, Grammatical false arg) → Grammatical angle (.call name args)

/-! ### Small facts -/

theorem separatedTokens_cons (expr : Expr) {rest : List Expr} (h : rest ≠ []) :
    separatedTokens (expr :: rest) = expr.tokens ++ "," :: separatedTokens rest := by
  cases rest with
  | nil => exact absurd rfl h
  | cons next rest => rw [separatedTokens]

theorem separatedTokens_cons_eq_append (expr : Expr) (rest : List Expr) :
    ∃ others, separatedTokens (expr :: rest) = expr.tokens ++ others := by
  by_cases hrest : rest = []
  · subst hrest
    exact ⟨[], by rw [separatedTokens, List.append_nil]⟩
  · exact ⟨_, separatedTokens_cons expr hrest⟩

theorem Expr.tokens_ne_nil (expr : Expr) : expr.tokens ≠ [] := by
  cases expr <;> simp [Expr.tokens]

@[simp] theorem separatedTokens_eq_nil_iff {exprs : List Expr} :
    separatedTokens exprs = [] ↔ exprs = [] := by
  cases exprs with
  | nil => simp [separatedTokens]
  | cons expr rest =>
      obtain ⟨others, hothers⟩ := separatedTokens_cons_eq_append expr rest
      simp [hothers, expr.tokens_ne_nil]

theorem eq_of_castSpelling {token spelling : String} (h : castSpelling token = spelling)
    (hne : spelling ≠ "(rotation)") : token = spelling := by
  unfold castSpelling at h
  split at h
  · exact absurd h.symm hne
  · exact h

theorem castSpelling_of_isIdentifier {token : String} (h : isIdentifier token) :
    castSpelling token = token := by
  refine if_neg ?_
  rintro rfl
  exact absurd h (by decide)

theorem castSpelling_of_isOperand {token : String} (h : isOperand token) :
    castSpelling token = token := by
  refine if_neg ?_
  rintro rfl
  exact absurd h (by decide)

@[simp] theorem BinaryOp.castSpelling_symbol (op : BinaryOp) :
    castSpelling op.symbol = op.symbol := by
  cases op <;> decide

@[simp] theorem UnaryOp.castSpelling_symbol (op : UnaryOp) :
    castSpelling op.symbol = op.symbol := by
  cases op with
  | cast ty => cases ty <;> decide
  | _ => decide

@[simp] theorem SuffixOp.castSpelling_symbol (op : SuffixOp) :
    castSpelling op.symbol = op.symbol := by
  cases op <;> decide

def opensExpression (token : String) : Bool :=
  isOperand token || (UnaryOp.ofToken? token).isSome || ["(", "[", "<"].contains token

theorem Expr.Grammatical.opens {angle : Bool} {expr : Expr} (h : expr.Grammatical angle) :
    ∃ token rest, expr.tokens = token :: rest ∧ opensExpression token := by
  -- A tree that begins with its left operand begins as that does.
  have hleft : ∀ {left : Expr} (others : List String),
      (∃ token rest, left.tokens = token :: rest ∧ opensExpression token) →
      ∃ token rest, left.tokens ++ others = token :: rest ∧ opensExpression token := by
    rintro left others ⟨token, rest, htokens, hopens⟩
    exact ⟨token, rest ++ others, by rw [htokens, List.cons_append], hopens⟩
  induction h with
  | value hleaf => exact ⟨_, _, rfl, by simp [opensExpression, hleaf]⟩
  | assignment _ _ _ _ ih _ => exact hleft _ ih
  | joined _ _ _ _ _ _ _ ih _ => exact hleft _ ih
  | @unary _ op =>
      refine ⟨_, _, rfl, ?_⟩
      cases op with
      | cast ty => cases ty <;> decide
      | _ => decide
  | suffix _ _ ih => exact hleft _ ih
  | member _ _ _ ih => exact hleft _ ih
  | group => exact ⟨_, _, rfl, by decide⟩
  | list => exact ⟨_, _, rfl, by decide⟩
  | angle => exact ⟨_, _, rfl, by decide⟩
  | call hname hfree _ => exact ⟨_, _, rfl, by simp [opensExpression, isOperand, hname, hfree]⟩

theorem map_castSpelling_separatedTokens {exprs : List Expr}
    (h : ∀ expr ∈ exprs, expr.tokens.map castSpelling = expr.tokens) :
    (separatedTokens exprs).map castSpelling = separatedTokens exprs := by
  induction exprs with
  | nil => rfl
  | cons expr rest ih =>
      obtain ⟨hexpr, hrest⟩ := List.forall_mem_cons.mp h
      by_cases hnil : rest = []
      · subst hnil
        exact hexpr
      · have hcomma : castSpelling "," = "," := by decide
        rw [separatedTokens_cons expr hnil, List.map_append, List.map_cons, hexpr, hcomma, ih hrest]

/-- A tree of the grammar is written in the one spelling of its tokens. -/
theorem Expr.Grammatical.map_castSpelling {angle : Bool} {expr : Expr}
    (h : expr.Grammatical angle) : expr.tokens.map castSpelling = expr.tokens := by
  have hbrackets : ∀ bracket ∈ ["(", ")", "[", "]", "<", ">"], castSpelling bracket = bracket := by
    decide
  induction h with
  | value hleaf => simp [Expr.tokens, castSpelling_of_isOperand hleaf]
  | assignment _ _ _ _ ihleft ihright => simp [Expr.tokens, ihleft, ihright]
  | joined _ _ _ _ _ _ _ ihleft ihright => simp [Expr.tokens, ihleft, ihright]
  | unary _ _ ih => simp [Expr.tokens, ih]
  | suffix _ _ ih => simp [Expr.tokens, ih]
  | member _ _ hname ih => simp [Expr.tokens, ih, castSpelling_of_isIdentifier hname]
  | group _ ih => simp [Expr.tokens, separatedTokens, ih, hbrackets]
  | list _ ih => simp [Expr.tokens, map_castSpelling_separatedTokens ih, hbrackets]
  | angle _ _ ih => simp [Expr.tokens, map_castSpelling_separatedTokens ih, hbrackets]
  | call hname _ _ ih =>
      simp [Expr.tokens, map_castSpelling_separatedTokens ih, castSpelling_of_isIdentifier hname,
        hbrackets]

end LslFront
