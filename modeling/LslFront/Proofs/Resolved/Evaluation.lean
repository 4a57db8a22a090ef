import LslFront.Proofs.Expr.Grammar
import LslFront.Proofs.Success
import LslFront.Resolved.Resolve

/-!
# Evaluating expressions

An expression can be evaluated as it is written, from its leaves upwards, and in its resolved form.
Both evaluators apply the same tables to the values of operands, and both have no value where a
table has none or a division by zero is left to the running script.  What names mean comes from an
environment, which may know some of them only.

A list is no value: it is looked into only by a cast to string, through any number of parentheses.
Assignments, steps of a variable, calls and casts to list depend on the running script and have no
value here.

The main statement is that resolution keeps the value of every expression.
-/

namespace LslFront

/-! ### Operators on values -/

/-- The values of names that no built-in constant has. -/
abbrev Environment := String → Option Constant

def BinaryOp.apply? (op : BinaryOp) (a b : Constant) : Option Constant :=
  match op.fold a b with
  | .value result => some result
  | .atRunTime | .mismatch => none

/-- The value of an operator before a value. -/
def UnaryOp.apply? : UnaryOp → Constant → Option Constant
  | .plus, value => some value
  | .neg, value => value.negated?
  | .not, .integer i => some (.ofBool (i == 0))
  | .bitNot, .integer i => some (.integer (~~~i))
  | .cast target, value => value.castTo? target
  | _, _ => none

/-- The value of an operator before a list.  Only a cast to string has one. -/
def UnaryOp.applyToList? : UnaryOp → List Constant → Option Constant
  | .cast .string, items => some (.string (String.join (items.map Constant.elementText)))
  | _, _ => none

/-- The value of an operator before an operand that has a value or is a list. -/
def UnaryOp.applyTo? (op : UnaryOp) (value : Option Constant) (items : Option (List Constant)) :
    Option Constant :=
  items.bind op.applyToList? <|> value.bind op.apply?

def Constant.member? (object : Constant) (name : String) : Option Constant :=
  (object.component? name).map .float

/-- The value of an angle literal with these components, which must be numbers. -/
def Constant.ofComponents? (components : List Constant) : Option Constant :=
  match components.mapM Constant.number? with
  | some [x, y, z] => some (.vector ⟨x, y, z⟩)
  | some [x, y, z, s] => some (.rotation ⟨x, y, z, s⟩)
  | _ => none

/-- The value of a leaf.  A built-in constant is found before the environment is asked. -/
def tokenValue? (dialect : Dialect) (env : Environment) (token : String) : Option Constant :=
  if isQuoted token then (stringOfLiteral? token).map .string
  else if token.toList.head?.any (fun c => c.isDigit || c == '.') then numberOfLiteral? token
  else
    match Builtin.constant? token dialect with
    | some constant => some constant.value
    | none => env token

/-! ### Expressions as they are written -/

section
variable (dialect : Dialect) (env : Environment)

mutual

/-- The value of an expression as it is written.  A minus directly before the literal `2147483648`
    gives the least integer. -/
def Expr.value? : Expr → Option Constant
  | .value token => tokenValue? dialect env token
  | .binary op left right =>
      if op = .member then
        match right with
        | .value name => left.value?.bind (·.member? name)
        | _ => none
      else left.value?.bind fun a => right.value?.bind fun b => op.apply? a b
  | .unary op operand =>
      if op = .neg ∧ operand.isLeaf leastIntegerDigits then some (.integer Int32.minValue)
      else op.applyTo? operand.value? operand.items?
  | .group children =>
      match children with
      | [child] => child.value?
      | _ => none
  | .angle components => (Expr.values? components).bind Constant.ofComponents?
  | .suffix .. | .list _ | .call .. => none

/-- The values of the items, if the expression is a list, perhaps in parentheses. -/
def Expr.items? : Expr → Option (List Constant)
  | .list items => Expr.values? items
  | .group children =>
      match children with
      | [child] => child.items?
      | _ => none
  | .value _ | .binary .. | .unary .. | .suffix .. | .angle _ | .call .. => none

def Expr.values? : List Expr → Option (List Constant)
  | [] => some []
  | expr :: rest => expr.value?.bind fun value => (Expr.values? rest).map (value :: ·)

end

end

/-! ### Resolved expressions -/

section
variable (env : Environment)

mutual

def Resolved.value? : Resolved → Option Constant
  | .constant value => some value
  | .variable name => env name
  | .binary op left right => left.value?.bind fun a => right.value?.bind fun b => op.apply? a b
  | .member object name => object.value?.bind (·.member? name)
  | .unary op operand => op.applyTo? operand.value? operand.items?
  | .vector components | .rotation components =>
      (Resolved.values? components).bind Constant.ofComponents?
  | .suffix .. | .list _ | .call .. => none

def Resolved.items? : Resolved → Option (List Constant)
  | .list items => Resolved.values? items
  | _ => none

def Resolved.values? : List Resolved → Option (List Constant)
  | [] => some []
  | resolved :: rest =>
      resolved.value?.bind fun value => (Resolved.values? rest).map (value :: ·)

end

end

/-! ### One operator -/

namespace Resolved

variable {dialect : Dialect} {env : Environment}

@[simp] theorem constant?_constant (value : Constant) :
    (constant value).constant? = some value := rfl

@[simp] theorem value?_constant (value : Constant) : (constant value).value? env = some value := rfl

@[simp] theorem items?_constant (value : Constant) : (constant value).items? env = none := rfl

@[simp] theorem items?_list (items : List Resolved) :
    (list items).items? env = values? env items := rfl

@[simp] theorem value?_unary (op : UnaryOp) (operand : Resolved) :
    (unary op operand).value? env = op.applyTo? (operand.value? env) (operand.items? env) := rfl

@[simp] theorem values?_nil : values? env [] = some [] := rfl

@[simp] theorem values?_cons (first : Resolved) (rest : List Resolved) :
    values? env (first :: rest)
      = (first.value? env).bind fun value => (values? env rest).map (value :: ·) := rfl

theorem values?_of_constants {items : List Resolved} {values : List Constant}
    (h : items.mapM constant? = some values) : values? env items = some values := by
  induction items generalizing values with
  | nil => simpa using h
  | cons first rest ih =>
      rw [List.mapM_cons] at h
      cases first with
      | constant value =>
          obtain ⟨others, hrest, rfl⟩ : ∃ others, rest.mapM constant? = some others ∧
              value :: others = values := by simpa [Option.bind_eq_some_iff] using h
          simp [ih hrest]
      | _ => simp [constant?] at h

theorem values?_of_numbers (env : Environment) {components : List Resolved} {numbers : List Float}
    (h : components.mapM (fun c => c.constant?.bind Constant.number?) = some numbers) :
    ∃ values, values? env components = some values ∧
      values.mapM Constant.number? = some numbers := by
  induction components generalizing numbers with
  | nil => exact ⟨[], rfl, h⟩
  | cons first rest ih =>
      rw [List.mapM_cons] at h
      cases first with
      | constant value =>
          obtain ⟨number, hnumber, others, hrest, rfl⟩ : ∃ number,
              value.number? = some number ∧ ∃ others,
              rest.mapM (fun c => c.constant?.bind Constant.number?) = some others ∧
              number :: others = numbers := by simpa [Option.bind_eq_some_iff] using h
          obtain ⟨values, hvalues, hnumbers⟩ := ih hrest
          exact ⟨value :: values, by simp [hvalues],
            by simp [List.mapM_cons, hnumber, hnumbers]⟩
      | _ => simp [constant?] at h

theorem ofToken_value? {token : String} {resolved : Resolved}
    (h : ofToken ⟨dialect, fun _ => false⟩ token = .ok resolved) :
    resolved.value? env = tokenValue? dialect env token ∧ resolved.items? env = none := by
  unfold ofToken at h
  unfold tokenValue?
  split at h
  · rw [if_pos ‹_›]
    split at h
    · rename_i text htext
      cases h
      exact ⟨by rw [htext]; rfl, rfl⟩
    · cases h
  · rw [if_neg ‹_›]
    split at h
    · rw [if_pos ‹_›]
      split at h
      · rename_i number hnumber
        cases h
        exact ⟨by rw [hnumber]; rfl, rfl⟩
      · cases h
    · rw [if_neg ‹_›]
      have hconstant : Scope.constant? ⟨dialect, fun _ => false⟩ token
          = (Builtin.constant? token dialect).map (·.value) := rfl
      rw [hconstant] at h
      cases hfound : Builtin.constant? token dialect with
      | none =>
          rw [hfound] at h
          cases h
          exact ⟨rfl, rfl⟩
      | some constant =>
          rw [hfound] at h
          cases h
          exact ⟨rfl, rfl⟩

theorem castTo_value? {target : Ty} {operand resolved : Resolved}
    (h : castTo target operand = .ok resolved) :
    resolved.value? env
        = (UnaryOp.cast target).applyTo? (operand.value? env) (operand.items? env) ∧
      resolved.items? env = none := by
  have hkept : ∀ {operand : Resolved}, (unary (.cast target) operand).value? env
        = (UnaryOp.cast target).applyTo? (operand.value? env) (operand.items? env) ∧
      (unary (.cast target) operand).items? env = none := ⟨rfl, rfl⟩
  cases operand with
  | constant value =>
      simp only [castTo] at h
      split at h
      · cases h
        exact hkept
      · split at h
        · rename_i result hresult
          cases h
          exact ⟨by simp [UnaryOp.applyTo?, UnaryOp.apply?, hresult], rfl⟩
        · cases h
  | list items =>
      simp only [castTo] at h
      split at h
      · rename_i htarget
        subst htarget
        split at h
        · rename_i text htext
          obtain ⟨values, hvalues, rfl⟩ := Option.map_eq_some_iff.mp htext
          cases h
          have hitems : values? env items = some values := values?_of_constants hvalues
          exact ⟨by simp [hitems, UnaryOp.applyTo?, UnaryOp.applyToList?], rfl⟩
        · cases h
          exact hkept
      · cases h
        exact hkept
  | _ =>
      cases h
      exact hkept

theorem unaryConstant_apply? {op : UnaryOp} {value result : Constant}
    (h : unaryConstant op value = .ok result) : op.apply? value = some result := by
  unfold unaryConstant at h
  split at h
  · cases h; rfl
  · split at h
    · rename_i negated hnegated
      cases h
      exact hnegated
    · cases h
  · cases h; rfl
  · cases h; rfl
  · cases h
  · cases h
  · cases h

theorem ofUnary_value? {op : UnaryOp} {operand resolved : Resolved}
    (h : ofUnary op operand = .ok resolved) :
    resolved.value? env = op.applyTo? (operand.value? env) (operand.items? env) ∧
      resolved.items? env = none := by
  unfold ofUnary at h
  split at h
  · exact castTo_value? h
  · split at h
    · obtain ⟨result, hresult, rfl⟩ := map_eq_ok_iff.1 h
      have happly := unaryConstant_apply? hresult
      exact ⟨by simp [UnaryOp.applyTo?, happly], rfl⟩
    · cases h
      exact ⟨rfl, rfl⟩

theorem ofMember_value? {object resolved : Resolved} {name : String}
    (h : ofMember object name = .ok resolved) :
    resolved.value? env = (object.value? env).bind (·.member? name) ∧
      resolved.items? env = none := by
  unfold ofMember at h
  split at h
  · split at h
    · split at h
      · rename_i component hcomponent
        cases h
        exact ⟨by simp [Constant.member?, hcomponent], rfl⟩
      · cases h
    · cases h
  · cases h
    exact ⟨rfl, rfl⟩

/-- A binary operator is applied to the values of its operands.  A division by zero, which is kept,
    still has no value. -/
theorem ofBinary_value? {op : BinaryOp} {left right resolved : Resolved}
    (h : ofBinary op left right = .ok resolved) :
    resolved.value? env
        = ((left.value? env).bind fun a => (right.value? env).bind fun b => op.apply? a b) ∧
      resolved.items? env = none := by
  unfold ofBinary at h
  split at h
  · split at h
    · rename_i result hresult
      cases h
      exact ⟨by simp [hresult, BinaryOp.apply?], rfl⟩
    · cases h
      exact ⟨rfl, rfl⟩
    · cases h
  · cases h
    exact ⟨rfl, rfl⟩

theorem ofComponents_value? (components : List Resolved) :
    (ofComponents components).value? env
        = (values? env components).bind Constant.ofComponents? ∧
      (ofComponents components).items? env = none := by
  unfold ofComponents
  split
  · rename_i x y z hnumbers
    obtain ⟨values, hvalues, hnumbers⟩ := values?_of_numbers env hnumbers
    exact ⟨by simp [hvalues, Constant.ofComponents?, hnumbers], rfl⟩
  · rename_i x y z s hnumbers
    obtain ⟨values, hvalues, hnumbers⟩ := values?_of_numbers env hnumbers
    exact ⟨by simp [hvalues, Constant.ofComponents?, hnumbers], rfl⟩
  · split
    · exact ⟨rfl, rfl⟩
    · exact ⟨rfl, rfl⟩

end Resolved

/-! ### Whole expressions -/

variable {dialect : Dialect} {env : Environment}

/-- Where no name is a variable, resolution keeps the value of an expression, and the items of a
    list. -/
def Expr.KeepsValue (dialect : Dialect) (env : Environment) (expr : Expr) : Prop :=
  ∀ {resolved : Resolved}, expr.resolve ⟨dialect, fun _ => false⟩ = .ok resolved →
    resolved.value? env = expr.value? dialect env ∧ resolved.items? env = expr.items? dialect env

theorem Expr.resolveAll_values? {exprs : List Expr} {resolved : List Resolved}
    (hkeeps : ∀ expr ∈ exprs, expr.KeepsValue dialect env)
    (h : Expr.resolveAll ⟨dialect, fun _ => false⟩ exprs = .ok resolved) :
    Resolved.values? env resolved = Expr.values? dialect env exprs := by
  induction exprs generalizing resolved with
  | nil =>
      cases h
      rfl
  | cons expr rest ih =>
      simp only [Expr.resolveAll, bind_eq_ok_iff, pure_eq_ok, Except.ok.injEq] at h
      obtain ⟨first, hfirst, others, hothers, rfl⟩ := h
      have hvalue := (hkeeps expr (by simp) hfirst).1
      have hvalues := ih (fun e he => hkeeps e (by simp [he])) hothers
      rw [Resolved.values?_cons, hvalue, hvalues]
      rfl

theorem Expr.keepsValue (expr : Expr) : expr.KeepsValue dialect env := by
  induction expr using Expr.induction with
  | value token =>
      intro resolved h
      rw [Expr.resolve] at h
      exact Resolved.ofToken_value? h
  | binary op left right ihLeft ihRight =>
      intro resolved h
      simp only [Expr.resolve, bind_eq_ok_iff] at h
      obtain ⟨first, hfirst, h⟩ := h
      have hleft := (ihLeft hfirst).1
      by_cases hmember : op = .member
      · rw [if_pos hmember] at h
        cases right with
        | value name =>
            simp only [Expr.value?, if_pos hmember, Expr.items?, ← hleft]
            exact Resolved.ofMember_value? h
        | _ => cases h
      · rw [if_neg hmember] at h
        simp only [Expr.value?, if_neg hmember, Expr.items?, ← hleft]
        split at h
        · split at h
          · cases h
          · simp only [bind_eq_ok_iff, pure_eq_ok, Except.ok.injEq] at h
            obtain ⟨second, hsecond, rfl⟩ := h
            rw [← (ihRight hsecond).1]
            exact ⟨rfl, rfl⟩
        · obtain ⟨second, hsecond, h⟩ := bind_eq_ok_iff.1 h
          rw [← (ihRight hsecond).1]
          exact Resolved.ofBinary_value? h
  | unary op operand ih =>
      intro resolved h
      rw [Expr.resolve] at h
      by_cases hleast : op = .neg ∧ operand.isLeaf leastIntegerDigits
      · rw [if_pos hleast] at h
        cases h
        simp only [Expr.value?, if_pos hleast]
        exact ⟨rfl, rfl⟩
      · rw [if_neg hleast] at h
        obtain ⟨inner, hinner, h⟩ := bind_eq_ok_iff.1 h
        simp only [Expr.value?, if_neg hleast, ← (ih hinner).1, ← (ih hinner).2]
        exact Resolved.ofUnary_value? h
  | suffix op operand ih =>
      intro resolved h
      simp only [Expr.resolve, bind_eq_ok_iff, Resolved.ofSuffix] at h
      obtain ⟨inner, -, h⟩ := h
      split at h
      · cases h
      · cases h
        exact ⟨rfl, rfl⟩
  | group children ih =>
      intro resolved h
      rcases children with _ | ⟨child, _ | ⟨next, rest⟩⟩
      · cases h
      · exact ih child (by simp) h
      · cases h
  | list items ih =>
      intro resolved h
      simp only [Expr.resolve, bind_eq_ok_iff, pure_eq_ok, Except.ok.injEq] at h
      obtain ⟨inner, hinner, rfl⟩ := h
      exact ⟨rfl, Expr.resolveAll_values? ih hinner⟩
  | angle components ih =>
      intro resolved h
      rw [Expr.resolve] at h
      split at h
      · simp only [bind_eq_ok_iff, pure_eq_ok, Except.ok.injEq] at h
        obtain ⟨inner, hinner, rfl⟩ := h
        rw [Expr.value?, Expr.items?, ← Expr.resolveAll_values? ih hinner]
        exact Resolved.ofComponents_value? inner
      · cases h
  | call name args ih =>
      intro resolved h
      simp only [Expr.resolve, bind_eq_ok_iff, pure_eq_ok, Except.ok.injEq] at h
      obtain ⟨inner, -, rfl⟩ := h
      exact ⟨rfl, rfl⟩

/-- Resolution keeps the value of every expression: in every dialect and every environment, the
    resolved form has the value of the expression as it is written, or none if that has none. -/
theorem resolve_preserves_value (dialect : Dialect) (env : Environment) {expr : Expr}
    {resolved : Resolved} (h : expr.resolve ⟨dialect, fun _ => false⟩ = .ok resolved) :
    resolved.value? env = expr.value? dialect env :=
  (Expr.keepsValue expr h).1

/-- `-2147483648 + x * (2 + 3)`: the least integer and a folded operand around a name that the
    environment knows. -/
theorem resolve_preserves_value_sum :
    (Expr.binary .add (.unary .neg (.value "2147483648")) (.binary .mul (.value "x")
        (.group [.binary .add (.value "2") (.value "3")]))).resolve ⟨.standard, fun _ => false⟩
      = .ok (.binary .add (.constant (.integer Int32.minValue))
          (.binary .mul (.variable "x") (.constant (.integer 5)))) ∧
    (Resolved.binary .add (.constant (.integer Int32.minValue))
        (.binary .mul (.variable "x") (.constant (.integer 5)))).value?
        (fun name => if name = "x" then some (.integer 7) else none)
      = (Expr.binary .add (.unary .neg (.value "2147483648")) (.binary .mul (.value "x")
          (.group [.binary .add (.value "2") (.value "3")]))).value? .standard
          (fun name => if name = "x" then some (.integer 7) else none) := by
  have hresolve : (Expr.binary .add (.unary .neg (.value "2147483648"))
      (.binary .mul (.value "x") (.group [.binary .add (.value "2") (.value "3")]))).resolve
        ⟨.standard, fun _ => false⟩
      = .ok (.binary .add (.constant (.integer Int32.minValue))
          (.binary .mul (.variable "x") (.constant (.integer 5)))) := rfl
  exact ⟨hresolve, resolve_preserves_value .standard _ hresolve⟩

end LslFront
