import LslFront.Text

/-!
# Dialects

A dialect is the set of features whose built-in names a script can see.  A mode names a whole
dialect, an extension names one feature that is added to it.
-/

namespace LslFront

/-- What a built-in name can belong to. -/
inductive Feature where
  /-- The base language. -/
  | lsl
  | ossl
  | aurora
  /-- Reserved: no built-in name belongs to it. -/
  | assl
  | admin
deriving DecidableEq, Repr

def Feature.all : List Feature :=
  [.lsl, .ossl, .aurora, .assl, .admin]

def Feature.name : Feature → String
  | lsl => "LSL"
  | ossl => "OSSL"
  | aurora => "AURORA"
  | assl => "ASSL"
  | admin => "ADMIN"

/-- The place of the feature's bit in a dialect that is written as a number. -/
def Feature.index : Feature → Nat
  | lsl => 0
  | ossl => 1
  | aurora => 2
  | assl => 3
  | admin => 4

def Feature.bit (feature : Feature) : Nat :=
  Nat.pow 2 feature.index

/-- The features in force, as the bits of a number.  A bit that stands for no feature makes no name
    visible; it is kept as it is, so that a number is what its dialect is written as. -/
structure Dialect where
  bits : Nat
deriving DecidableEq, Repr

namespace Dialect

def has (dialect : Dialect) (feature : Feature) : Bool :=
  dialect.bits.testBit feature.index

/-- Two numbers with the same bits are the same dialect. -/
theorem ext_testBit {a b : Dialect} (h : ∀ i, a.bits.testBit i = b.bits.testBit i) : a = b :=
  congrArg mk (Nat.eq_of_testBit_eq h)

def empty : Dialect :=
  ⟨0⟩

theorem has_empty (feature : Feature) : empty.has feature = false :=
  Nat.zero_testBit _

def ofFeature (feature : Feature) : Dialect :=
  ⟨feature.bit⟩

theorem has_ofFeature (known feature : Feature) :
    (ofFeature known).has feature = (known == feature) := by
  cases known <;> cases feature <;> rfl

def union (a b : Dialect) : Dialect :=
  ⟨a.bits ||| b.bits⟩

theorem has_union (a b : Dialect) (feature : Feature) :
    (a.union b).has feature = (a.has feature || b.has feature) :=
  Nat.testBit_or ..

def unions (dialects : List Dialect) : Dialect :=
  dialects.foldr union empty

theorem has_unions (dialects : List Dialect) (feature : Feature) :
    (unions dialects).has feature = dialects.any (·.has feature) := by
  induction dialects with
  | nil => exact has_empty feature
  | cons dialect rest ih => exact (has_union ..).trans (congrArg _ ih)

def ofList (features : List Feature) : Dialect :=
  unions (features.map ofFeature)

theorem has_ofList (features : List Feature) (feature : Feature) :
    (ofList features).has feature = features.any (· == feature) := by
  simp only [ofList, has_unions, List.any_map, Function.comp_def, has_ofFeature]

/-- The names of the features in force, joined by bars. -/
def listed (dialect : Dialect) : String :=
  String.intercalate " | " ((Feature.all.filter dialect.has).map Feature.name)

/-- What a script sees that names no mode. -/
def standard : Dialect :=
  ofList [.lsl, .ossl, .aurora]

/-- The dialect that a mode names, in any letter case and between blanks. -/
def ofMode? (name : List Char) : Option Dialect :=
  match String.ofList (Text.lower (Text.trim name)) with
  | "lsl" => some (ofFeature .lsl)
  | "aurora" => some standard
  | "whitecore" => some standard
  | "assl" => some (standard.union (ofFeature .assl))
  | _ => none

/-- The feature that an extension names, in any letter case and between blanks. -/
def ofExtension? (name : List Char) : Option Dialect :=
  match String.ofList (Text.lower (Text.trim name)) with
  | "admin" => some (ofFeature .admin)
  | _ => none

end Dialect

end LslFront
