/-!
# Vectors and rotations

The arithmetic of script vectors and rotations, over any components that can be added, subtracted
and multiplied.  A rotation is a quaternion whose real part is `s`.  Each formula fixes the order
in which its terms are combined, which for doubles decides how the result is rounded.
-/

namespace LslFront

structure Vec3 (α : Type) where
  x : α
  y : α
  z : α
deriving DecidableEq, Repr

structure Quat (α : Type) where
  x : α
  y : α
  z : α
  s : α
deriving DecidableEq, Repr

variable {α β : Type}

namespace Vec3

def component? (v : Vec3 α) : String → Option α
  | "x" => some v.x
  | "y" => some v.y
  | "z" => some v.z
  | _ => none

def map (f : α → β) (v : Vec3 α) : Vec3 β :=
  ⟨f v.x, f v.y, f v.z⟩

def toList (v : Vec3 α) : List α :=
  [v.x, v.y, v.z]

def agrees (same : α → α → Bool) (v w : Vec3 α) : Bool :=
  same v.x w.x && same v.y w.y && same v.z w.z

end Vec3

namespace Quat

def component? (r : Quat α) : String → Option α
  | "x" => some r.x
  | "y" => some r.y
  | "z" => some r.z
  | "s" => some r.s
  | _ => none

def map (f : α → β) (r : Quat α) : Quat β :=
  ⟨f r.x, f r.y, f r.z, f r.s⟩

def toList (r : Quat α) : List α :=
  [r.x, r.y, r.z, r.s]

def agrees (same : α → α → Bool) (r q : Quat α) : Bool :=
  same r.x q.x && same r.y q.y && same r.z q.z && same r.s q.s

end Quat

variable [Add α] [Sub α] [Mul α]

namespace Vec3

def add (v w : Vec3 α) : Vec3 α :=
  ⟨v.x + w.x, v.y + w.y, v.z + w.z⟩

def sub (v w : Vec3 α) : Vec3 α :=
  ⟨v.x - w.x, v.y - w.y, v.z - w.z⟩

def scale (v : Vec3 α) (f : α) : Vec3 α :=
  ⟨v.x * f, v.y * f, v.z * f⟩

def dot (v w : Vec3 α) : α :=
  v.x * w.x + v.y * w.y + v.z * w.z

def cross (v w : Vec3 α) : Vec3 α :=
  ⟨v.y * w.z - v.z * w.y, v.z * w.x - v.x * w.z, v.x * w.y - v.y * w.x⟩

end Vec3

namespace Quat

def add (r q : Quat α) : Quat α :=
  ⟨r.x + q.x, r.y + q.y, r.z + q.z, r.s + q.s⟩

def sub (r q : Quat α) : Quat α :=
  ⟨r.x - q.x, r.y - q.y, r.z - q.z, r.s - q.s⟩

def hamilton (r q : Quat α) : Quat α :=
  ⟨r.s * q.x + r.x * q.s + r.y * q.z - r.z * q.y,
   r.s * q.y - r.x * q.z + r.y * q.s + r.z * q.x,
   r.s * q.z + r.x * q.y - r.y * q.x + r.z * q.s,
   r.s * q.s - r.x * q.x - r.y * q.y - r.z * q.z⟩

/-- First `r`, then `q`: Hamilton's product with its factors exchanged. -/
def compose (r q : Quat α) : Quat α :=
  q.hamilton r

variable [Neg α]

def conjugate (r : Quat α) : Quat α :=
  ⟨-r.x, -r.y, -r.z, r.s⟩

end Quat

namespace Vec3

variable [Neg α] [OfNat α 0]

/-- The vector turned by a rotation: `r v r*`, with the vector as a quaternion without real
    part. -/
def rotate (v : Vec3 α) (r : Quat α) : Vec3 α :=
  let turned := (r.hamilton ⟨v.x, v.y, v.z, 0⟩).hamilton r.conjugate
  ⟨turned.x, turned.y, turned.z⟩

def unrotate (v : Vec3 α) (r : Quat α) : Vec3 α :=
  v.rotate r.conjugate

end Vec3

end LslFront
