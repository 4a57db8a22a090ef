import LslFront.Proofs.Binary64.Integer
import LslFront.Proofs.Success
import LslFront.Resolved.Resolve

/-!
# The kinds of folded constants

Whether an operator is defined between two constants, and which kind of constant it gives, depends
on their kinds only.  `BinaryOp.resultKind?` is the table.  The values decide one thing: where the
operator divides and the right operand is zero, the operation is left to the running script.

The folding of each pair of kinds is compared with its place in the table, and the comparisons are
put together in `fold_follows`.
-/

namespace LslFront

/-! ### The table -/

namespace BinaryOp

def isArithmetic : BinaryOp → Bool
  | add | sub | mul | div | mod => true
  | _ => false

def isComparison : BinaryOp → Bool
  | lt | gt | le | ge | eq | ne => true
  | _ => false

def divides : BinaryOp → Bool
  | div | mod => true
  | _ => false

/-- The kind of constant that an operator gives between constants of two kinds. -/
def resultKind? (op : BinaryOp) : Ty → Ty → Option Ty
  | .integer, .integer => if op = member ∨ op.isAssignment then none else some .integer
  | .integer, .float | .float, .integer | .float, .float =>
      if op.isArithmetic then some .float
      else if op.isComparison then some .integer
      else none
  | .vector, .vector =>
      match op with
      | add | sub | mod => some .vector
      | mul => some .float
      | eq | ne => some .integer
      | _ => none
  | .vector, .integer | .vector, .float | .vector, .rotation =>
      match op with
      | mul | div => some .vector
      | _ => none
  | .integer, .vector | .float, .vector =>
      match op with
      | mul => some .vector
      | _ => none
  | .rotation, .rotation =>
      match op with
      | add | sub | mul | div => some .rotation
      | eq | ne => some .integer
      | _ => none
  | .string, .string =>
      match op with
      | add => some .string
      | eq | ne => some .integer
      | _ => none
  | _, _ => none

end BinaryOp

/-- A number that is zero; a double can be zero with either sign. -/
def Constant.IsZero : Constant → Prop
  | integer i => i = 0
  | float x => exactValue? x = some 0
  | _ => False

/-! ### One pair of kinds -/

namespace Folded

/-- What folding makes of two constants is what the table says for their kinds, if `zero` says
    whether the right one is zero. -/
def Follows (op : BinaryOp) (kind? : Option Ty) (zero : Prop) : Folded → Prop
  | value result => kind? = some result.kind ∧ ¬ (op.divides ∧ zero)
      ∧ (op.isComparison → ∃ truth, result = .ofBool truth)
  | atRunTime => kind?.isSome ∧ op.divides ∧ zero
  | mismatch => kind? = none

namespace Follows

variable {op : BinaryOp} {kind? : Option Ty} {zero : Prop} {result : Constant} {folded : Folded}

theorem of_value (hkind : kind? = some result.kind) (hzero : op.divides → ¬ zero)
    (hcomparison : op.isComparison = false) : (value result).Follows op kind? zero := by
  simpa [Follows, hkind, hcomparison] using hzero

theorem of_ofBool {truth : Bool} (hkind : kind? = some .integer) (hdivides : op.divides = false) :
    (Folded.ofBool truth).Follows op kind? zero :=
  ⟨hkind, by simp [hdivides], fun _ => ⟨truth, rfl⟩⟩

theorem of_division [Decidable zero] (hkind : kind? = some result.kind)
    (hdivides : op.divides = true) (hcomparison : op.isComparison = false) :
    (if zero then atRunTime else value result).Follows op kind? zero := by
  split
  · next hzero => simp [Follows, hkind, hdivides, hzero]
  · next hzero => simp [Follows, hkind, hdivides, hcomparison, hzero]

theorem congr {zero' : Prop} (h : folded.Follows op kind? zero) (hzero : zero ↔ zero') :
    folded.Follows op kind? zero' :=
  propext hzero ▸ h

end Follows

end Folded

namespace BinaryOp

open Folded

variable (op : BinaryOp)

theorem foldIntegers_follows (x y : Int32) :
    (op.foldIntegers x y).Follows op (op.resultKind? .integer .integer) (y = 0) := by
  cases op with
  | add | sub | mul | bitAnd | bitOr | bitXor | shl | shr => exact .of_value rfl nofun rfl
  | div | mod => exact .of_division rfl rfl rfl
  | and | or | lt | gt | le | ge | eq | ne => exact .of_ofBool rfl rfl
  | _ => rfl

theorem foldFloats_follows (x y : Float) :
    (op.foldFloats x y).Follows op (op.resultKind? .float .float) (y == 0.0) := by
  cases op with
  | add | sub | mul => exact .of_value rfl nofun rfl
  | div | mod => exact .of_division rfl rfl rfl
  | lt | gt | le | ge | eq | ne => exact .of_ofBool rfl rfl
  | _ => rfl

theorem foldVectors_follows (v w : Vector) :
    (op.foldVectors v w).Follows op (op.resultKind? .vector .vector) False := by
  cases op with
  | add | sub | mul => exact .of_value rfl nofun rfl
  | mod => exact .of_value rfl (fun _ => id) rfl
  | eq | ne => exact .of_ofBool rfl rfl
  | _ => rfl

theorem foldScaled_follows (v : Vector) (x : Float) :
    (op.foldScaled v x).Follows op (op.resultKind? .vector .float) (x == 0.0) := by
  cases op with
  | mul => exact .of_value rfl nofun rfl
  | div => exact .of_division rfl rfl rfl
  | _ => rfl

theorem foldScaling_follows (x : Float) (v : Vector) :
    (op.foldScaling x v).Follows op (op.resultKind? .float .vector) False := by
  cases op with
  | mul => exact .of_value rfl nofun rfl
  | _ => rfl

theorem foldTurned_follows (v : Vector) (r : Rotation) :
    (op.foldTurned v r).Follows op (op.resultKind? .vector .rotation) False := by
  cases op with
  | mul => exact .of_value rfl nofun rfl
  | div => exact .of_value rfl (fun _ => id) rfl
  | _ => rfl

theorem foldRotations_follows (r q : Rotation) :
    (op.foldRotations r q).Follows op (op.resultKind? .rotation .rotation) False := by
  cases op with
  | add | sub | mul => exact .of_value rfl nofun rfl
  | div => exact .of_value rfl (fun _ => id) rfl
  | eq | ne => exact .of_ofBool rfl rfl
  | _ => rfl

theorem foldStrings_follows (s t : String) :
    (op.foldStrings s t).Follows op (op.resultKind? .string .string) False := by
  cases op with
  | add => exact .of_value rfl nofun rfl
  | eq | ne => exact .of_ofBool rfl rfl
  | _ => rfl

/-- What an operator makes of two constants is what the table says. -/
theorem fold_follows (a b : Constant) :
    (op.fold a b).Follows op (op.resultKind? a.kind b.kind) b.IsZero := by
  cases a with
  | integer x =>
      cases b with
      | integer y => exact op.foldIntegers_follows x y
      | float y => exact (op.foldFloats_follows _ y).congr (beq_zero_iff y)
      | vector v => exact op.foldScaling_follows _ v
      | string t => rfl
      | rotation q => rfl
  | float x =>
      cases b with
      | integer y => exact (op.foldFloats_follows x _).congr (ofInteger_beq_zero_iff y)
      | float y => exact (op.foldFloats_follows x y).congr (beq_zero_iff y)
      | vector v => exact op.foldScaling_follows x v
      | string t => rfl
      | rotation q => rfl
  | string s =>
      cases b with
      | string t => exact op.foldStrings_follows s t
      | _ => rfl
  | vector v =>
      cases b with
      | integer y => exact (op.foldScaled_follows v _).congr (ofInteger_beq_zero_iff y)
      | float y => exact (op.foldScaled_follows v y).congr (beq_zero_iff y)
      | vector w => exact op.foldVectors_follows v w
      | rotation r => exact op.foldTurned_follows v r
      | string t => rfl
  | rotation r =>
      cases b with
      | rotation q => exact op.foldRotations_follows r q
      | _ => rfl

end BinaryOp

/-! ### Integers -/

/-- The number that an operator stands for between integers, before it is reduced to 32 bits.  Only
    the last five bits of an amount to shift by count. -/
def BinaryOp.exactResult? (op : BinaryOp) (x y : ℤ) : Option ℤ :=
  match op with
  | add => some (x + y)
  | sub => some (x - y)
  | mul => some (x * y)
  | div => if y = 0 then none else some (x.tdiv y)
  | mod => if y = 0 then none else some (x.tmod y)
  | shl => some (x * 2 ^ (y % 32).toNat)
  | shr => some (x / 2 ^ (y % 32).toNat)
  | _ => none

theorem toNat_smod_32 (y : Int32) : (y.toBitVec.smod 32).toNat = (y.toInt % 32).toNat := by
  have hmod : (y.toBitVec.smod 32).toInt = y.toInt % 32 := by
    rw [BitVec.toInt_smod, Int.fmod_eq_emod_of_nonneg _ (by decide)]
    rfl
  have hcases := BitVec.toInt_eq_toNat_cond (y.toBitVec.smod 32)
  have hlt := (y.toBitVec.smod 32).isLt
  split at hcases <;> omega

theorem toInt_shiftLeft_modEq (x y : Int32) :
    (x <<< y).toInt ≡ x.toInt * 2 ^ (y.toInt % 32).toNat [ZMOD 2 ^ 32] := by
  have hshift : (x <<< y).toInt = (x.toBitVec <<< (y.toBitVec.smod 32)).toInt := rfl
  have hunsigned : (x.toBitVec.toNat : ℤ) ≡ x.toInt [ZMOD 2 ^ 32] := by
    have hsigned : x.toInt = (x.toBitVec.toNat : ℤ).bmod (2 ^ 32) := BitVec.toInt_eq_toNat_bmod _
    rw [hsigned]
    exact Int.ModEq.symm Int.bmod_emod
  rw [hshift, BitVec.shiftLeft_eq', toNat_smod_32, BitVec.toInt_shiftLeft, Nat.shiftLeft_eq]
  refine Int.ModEq.trans Int.bmod_emod ?_
  push_cast
  exact hunsigned.mul_right _

theorem toInt_shiftRight (x y : Int32) :
    (x >>> y).toInt = x.toInt / 2 ^ (y.toInt % 32).toNat := by
  have hshift : (x >>> y).toInt = (x.toBitVec.sshiftRight' (y.toBitVec.smod 32)).toInt := rfl
  rw [hshift, BitVec.toInt_sshiftRight', toNat_smod_32, Int.shiftRight_eq_div_pow]
  push_cast
  rfl

/-- Integers are computed with modulo `2 ^ 32`, also where the exact result is too large. -/
theorem BinaryOp.fold_integers_modEq {op : BinaryOp} {x y : Int32} {z : ℤ}
    (h : op.exactResult? x.toInt y.toInt = some z) :
    ∃ i : Int32, op.fold (.integer x) (.integer y) = .value (.integer i)
      ∧ i.toInt ≡ z [ZMOD 2 ^ 32] := by
  have hzero : y = 0 → y.toInt = 0 := fun h => h ▸ rfl
  cases op with
  | add =>
      cases h
      exact ⟨x + y, rfl, by rw [Int32.toInt_add]; exact Int.bmod_emod⟩
  | sub =>
      cases h
      exact ⟨x - y, rfl, by rw [Int32.toInt_sub]; exact Int.bmod_emod⟩
  | mul =>
      cases h
      exact ⟨x * y, rfl, by rw [Int32.toInt_mul]; exact Int.bmod_emod⟩
  | div =>
      simp only [exactResult?] at h
      split at h
      · cases h
      · next hne =>
          cases h
          refine ⟨x / y, if_neg (mt hzero hne), ?_⟩
          rw [Int32.toInt_div]
          exact Int.bmod_emod
  | mod =>
      simp only [exactResult?] at h
      split at h
      · cases h
      · next hne =>
          cases h
          refine ⟨x % y, if_neg (mt hzero hne), ?_⟩
          rw [Int32.toInt_mod]
  | shl =>
      cases h
      exact ⟨x <<< y, rfl, toInt_shiftLeft_modEq x y⟩
  | shr =>
      cases h
      exact ⟨x >>> y, rfl, by rw [toInt_shiftRight]⟩
  | _ => cases h

example : BinaryOp.div.fold (.integer Int32.minValue) (.integer (-1))
    = .value (.integer Int32.minValue) := by decide

example : BinaryOp.shl.fold (.integer 1) (.integer 33) = .value (.integer 2) := by decide

/-! ### Resolution between constants -/

section

variable {op : BinaryOp} {a b : Constant}

theorem ofBinary_of_value {result : Constant} (h : op.fold a b = .value result) :
    Resolved.ofBinary op (.constant a) (.constant b) = .ok (.constant result) := by
  rw [Resolved.ofBinary, h]

/-- The three ways in which an operator between constants can be resolved. -/
theorem ofBinary_outcome (op : BinaryOp) (a b : Constant) :
    (∃ c, Resolved.ofBinary op (.constant a) (.constant b) = .ok (.constant c)
        ∧ op.resultKind? a.kind b.kind = some c.kind ∧ ¬ (op.divides ∧ b.IsZero)
        ∧ (op.isComparison → ∃ truth, c = .ofBool truth))
      ∨ (Resolved.ofBinary op (.constant a) (.constant b)
          = .ok (.binary op (.constant a) (.constant b))
        ∧ (op.resultKind? a.kind b.kind).isSome ∧ op.divides ∧ b.IsZero)
      ∨ (Resolved.ofBinary op (.constant a) (.constant b)
          = .error (.resolution (.binaryKinds op a.kind b.kind))
        ∧ op.resultKind? a.kind b.kind = none) := by
  have hfollows := op.fold_follows a b
  cases hfold : op.fold a b with
  | value result =>
      rw [hfold] at hfollows
      exact .inl ⟨result, ofBinary_of_value hfold, hfollows⟩
  | atRunTime =>
      rw [hfold] at hfollows
      exact .inr (.inl ⟨by rw [Resolved.ofBinary, hfold], hfollows⟩)
  | mismatch =>
      rw [hfold] at hfollows
      exact .inr (.inr ⟨by rw [Resolved.ofBinary, hfold]; rfl, hfollows⟩)

/-- The error when an operator is refused, which names the operator and both kinds. -/
def kindsNotice (op : BinaryOp) (left right : Ty) (line : Nat) : Notice :=
  ⟨.resolution, line, s!"Mismatching type: operator '{op.symbol}' is not supported between "
    ++ s!"{left.word} and {right.word}"⟩

theorem ofBinary_refused_iff {line : Nat} {notice : Notice} :
    (∃ fault, onLine line (Resolved.ofBinary op (.constant a) (.constant b)) = .error fault
        ∧ fault.notice = notice)
      ↔ op.resultKind? a.kind b.kind = none ∧ notice = kindsNotice op a.kind b.kind line := by
  have hok : ∀ resolved, Resolved.ofBinary op (.constant a) (.constant b) = .ok resolved →
      ¬ ∃ fault, onLine line (Resolved.ofBinary op (.constant a) (.constant b)) = .error fault
        ∧ fault.notice = notice := by
    rintro resolved h ⟨fault, hfault, -⟩
    rw [h] at hfault
    cases hfault
  rcases ofBinary_outcome op a b with ⟨c, hvalue, hkind, -⟩ | ⟨hkept, hsome, -⟩ | ⟨herror, hnone⟩
  · refine iff_of_false (hok _ hvalue) ?_
    rw [hkind]
    exact fun h => nomatch h.1
  · refine iff_of_false (hok _ hkept) ?_
    rintro ⟨hnone, -⟩
    rw [hnone] at hsome
    cases hsome
  · rw [herror]
    constructor
    · rintro ⟨_, hfault, rfl⟩
      cases hfault
      exact ⟨hnone, rfl⟩
    · rintro ⟨_, rfl⟩
      exact ⟨_, rfl, rfl⟩

theorem ofBinary_atRunTime_iff : Resolved.ofBinary op (.constant a) (.constant b)
      = .ok (.binary op (.constant a) (.constant b))
    ↔ (op.resultKind? a.kind b.kind).isSome ∧ op.divides ∧ b.IsZero := by
  rcases ofBinary_outcome op a b with ⟨c, hvalue, -, hzero, -⟩ | ⟨hkept, h⟩ | ⟨herror, hnone⟩
  · rw [hvalue]
    exact ⟨nofun, fun h => absurd h.2 hzero⟩
  · exact ⟨fun _ => h, fun _ => hkept⟩
  · rw [herror, hnone]
    exact ⟨nofun, fun h => nomatch h.1⟩

theorem ofBinary_computed {kind : Ty} (hkind : op.resultKind? a.kind b.kind = some kind)
    (hzero : ¬ (op.divides ∧ b.IsZero)) :
    ∃ c, Resolved.ofBinary op (.constant a) (.constant b) = .ok (.constant c) ∧ c.kind = kind
      ∧ (op.isComparison → c = .integer 0 ∨ c = .integer 1) := by
  rcases ofBinary_outcome op a b with ⟨c, hvalue, hresult, -, htruth⟩ | ⟨-, -, h⟩ | ⟨-, hnone⟩
  · refine ⟨c, hvalue, Option.some.inj (hresult.symm.trans hkind), fun hcomparison => ?_⟩
    obtain ⟨truth, rfl⟩ := htruth hcomparison
    cases truth
    · exact .inl rfl
    · exact .inr rfl
  · exact absurd h hzero
  · cases hnone.symm.trans hkind

end

theorem resultKind?_of_undefined {op : BinaryOp} (h : op = .member ∨ op.isAssignment)
    (left right : Ty) : op.resultKind? left right = none := by
  cases op with
  | member | assign | addAssign | subAssign | mulAssign | divAssign | modAssign =>
      cases left <;> cases right <;> rfl
  | _ => rcases h with h | h <;> cases h

theorem resultKind?_of_isComparison {op : BinaryOp} {left right kind : Ty} (h : op.isComparison)
    (hkind : op.resultKind? left right = some kind) : kind = .integer := by
  cases op with
  | lt | gt | le | ge | eq | ne => cases left <;> cases right <;> cases hkind <;> rfl
  | _ => cases h

/-- A table that says which operators are refused and which kind every result has, so that the
    values decide no more than whether a division is by zero. -/
structure TypesFolding (table : BinaryOp → Ty → Ty → Option Ty) : Prop where
  integers : ∀ op, op ≠ .member → op.isAssignment = false →
    table op .integer .integer = some .integer
  promoted : ∀ op, op.isArithmetic → table op .integer .float = some .float
    ∧ table op .float .integer = some .float ∧ table op .float .float = some .float
  compared : ∀ op left right kind, op.isComparison → table op left right = some kind →
    kind = .integer
  undefined : ∀ op left right, op = .member ∨ op.isAssignment → table op left right = none
  refused_iff : ∀ op a b line notice,
    (∃ fault, onLine line (Resolved.ofBinary op (.constant a) (.constant b)) = .error fault
        ∧ fault.notice = notice)
      ↔ table op a.kind b.kind = none ∧ notice = kindsNotice op a.kind b.kind line
  /-- The operator is kept for the running script. -/
  atRunTime_iff : ∀ op a b,
    Resolved.ofBinary op (.constant a) (.constant b) = .ok (.binary op (.constant a) (.constant b))
      ↔ (table op a.kind b.kind).isSome ∧ op.divides ∧ b.IsZero
  computed : ∀ op a b kind, table op a.kind b.kind = some kind → ¬ (op.divides ∧ b.IsZero) →
    ∃ c, Resolved.ofBinary op (.constant a) (.constant b) = .ok (.constant c) ∧ c.kind = kind
      ∧ (op.isComparison → c = .integer 0 ∨ c = .integer 1)
  /-- No integers are too large, and by no amount can they not be shifted. -/
  wraps : ∀ op x y z, op.exactResult? x.toInt y.toInt = some z →
    ∃ i, Resolved.ofBinary op (.constant (.integer x)) (.constant (.integer y))
        = .ok (.constant (.integer i)) ∧ i.toInt ≡ z [ZMOD 2 ^ 32]

/-- Folding is typed by the table. -/
theorem resultKind_typesFolding : TypesFolding BinaryOp.resultKind? where
  integers op hmember hassign := by simp [BinaryOp.resultKind?, hmember, hassign]
  promoted op harith := by simp [BinaryOp.resultKind?, harith]
  compared _ _ _ _ := resultKind?_of_isComparison
  undefined _ left right h := resultKind?_of_undefined h left right
  refused_iff _ _ _ _ _ := ofBinary_refused_iff
  atRunTime_iff _ _ _ := ofBinary_atRunTime_iff
  computed _ _ _ _ := ofBinary_computed
  wraps op x y z h := by
    obtain ⟨i, hfold, hcongruent⟩ := BinaryOp.fold_integers_modEq h
    exact ⟨i, ofBinary_of_value hfold, hcongruent⟩

end LslFront
