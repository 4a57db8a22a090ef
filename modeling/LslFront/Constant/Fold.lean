import LslFront.Constant
import LslFront.Operator

/-!
# Folding constants

What a binary operator makes of two constants.  Integers wrap around and shift by an amount
modulo 32.  A number beside a vector scales it, and one double among two numbers makes both
doubles.  Division by a numeric zero is left to the running script; a pair of kinds that the
operator is not defined on is a mismatch.
-/

namespace LslFront

/-- What a binary operator makes of two constants. -/
inductive Folded where
  | value (result : Constant)
  | atRunTime
  | mismatch
deriving DecidableEq, Repr

/-- Comparison and logic give the integers one and zero. -/
def Folded.ofBool (b : Bool) : Folded :=
  value (Constant.ofBool b)

namespace BinaryOp

def foldIntegers (op : BinaryOp) (x y : Int32) : Folded :=
  match op with
  | add => .value (.integer (x + y))
  | sub => .value (.integer (x - y))
  | mul => .value (.integer (x * y))
  | div => if y = 0 then .atRunTime else .value (.integer (x / y))
  | mod => if y = 0 then .atRunTime else .value (.integer (x % y))
  | bitAnd => .value (.integer (x &&& y))
  | bitOr => .value (.integer (x ||| y))
  | bitXor => .value (.integer (x ^^^ y))
  | shl => .value (.integer (x <<< y))
  | shr => .value (.integer (x >>> y))
  | and => .ofBool (x != 0 && y != 0)
  | or => .ofBool (x != 0 || y != 0)
  | lt => .ofBool (decide (x < y))
  | gt => .ofBool (decide (y < x))
  | le => .ofBool (decide (x ≤ y))
  | ge => .ofBool (decide (y ≤ x))
  | eq => .ofBool (x == y)
  | ne => .ofBool (x != y)
  | _ => .mismatch

def foldFloats (op : BinaryOp) (x y : Float) : Folded :=
  match op with
  | add => .value (.float (x + y))
  | sub => .value (.float (x - y))
  | mul => .value (.float (x * y))
  | div => if y == 0.0 then .atRunTime else .value (.float (x / y))
  | mod => if y == 0.0 then .atRunTime else .value (.float (floatRemainder x y))
  | lt => .ofBool (decide (x < y))
  | gt => .ofBool (decide (y < x))
  | le => .ofBool (decide (x ≤ y))
  | ge => .ofBool (decide (y ≤ x))
  | eq => .ofBool (x == y)
  | ne => .ofBool (x != y)
  | _ => .mismatch

def foldVectors (op : BinaryOp) (v w : Vector) : Folded :=
  match op with
  | add => .value (.vector (v.add w))
  | sub => .value (.vector (v.sub w))
  | mul => .value (.float (v.dot w))
  | mod => .value (.vector (v.cross w))
  | eq => .ofBool (v.agrees (· == ·) w)
  | ne => .ofBool (!v.agrees (· == ·) w)
  | _ => .mismatch

def foldScaled (op : BinaryOp) (v : Vector) (x : Float) : Folded :=
  match op with
  | mul => .value (.vector (v.scale x))
  | div => if x == 0.0 then .atRunTime else .value (.vector (v.scale (1.0 / x)))
  | _ => .mismatch

def foldScaling (op : BinaryOp) (x : Float) (v : Vector) : Folded :=
  match op with
  | mul => .value (.vector (v.scale x))
  | _ => .mismatch

def foldTurned (op : BinaryOp) (v : Vector) (r : Rotation) : Folded :=
  match op with
  | mul => .value (.vector (v.rotate r))
  | div => .value (.vector (v.unrotate r))
  | _ => .mismatch

def foldRotations (op : BinaryOp) (r q : Rotation) : Folded :=
  match op with
  | add => .value (.rotation (r.add q))
  | sub => .value (.rotation (r.sub q))
  | mul => .value (.rotation (r.compose q))
  | div => .value (.rotation (r.compose q.conjugate))
  | eq => .ofBool (r.agrees (· == ·) q)
  | ne => .ofBool (!r.agrees (· == ·) q)
  | _ => .mismatch

def foldStrings (op : BinaryOp) (s t : String) : Folded :=
  match op with
  | add => .value (.string (s ++ t))
  | eq => .ofBool (s == t)
  | ne => .ofBool (s != t)
  | _ => .mismatch

/-- What the operator makes of two constants, by their kinds. -/
def fold (op : BinaryOp) : Constant → Constant → Folded
  | .integer x, .integer y => foldIntegers op x y
  | .integer x, .float y => foldFloats op (ofInteger x) y
  | .float x, .integer y => foldFloats op x (ofInteger y)
  | .float x, .float y => foldFloats op x y
  | .vector v, .vector w => foldVectors op v w
  | .vector v, .integer x => foldScaled op v (ofInteger x)
  | .vector v, .float x => foldScaled op v x
  | .integer x, .vector v => foldScaling op (ofInteger x) v
  | .float x, .vector v => foldScaling op x v
  | .vector v, .rotation r => foldTurned op v r
  | .rotation r, .rotation q => foldRotations op r q
  | .string s, .string t => foldStrings op s t
  | _, _ => .mismatch

end BinaryOp

end LslFront
