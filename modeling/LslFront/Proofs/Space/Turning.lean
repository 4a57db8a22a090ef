import LslFront.Constant.Fold
import Mathlib

/-!
# Turning vectors

Over exact numbers the formulas of vectors and rotations are those of the quaternions: a vector is a
quaternion without real part, composing rotations is the product with its factors exchanged, and
turning a vector by `r` is `r v r*`.  The sum of the squares of the components, `normSq`, tells how
much a rotation stretches what it turns, so a rotation for which it is one only turns.

The product of two vectors is their cross product without their dot product, `mul_toQuaternion`, so
one law about products, `mul_turned`, is the law of both.
-/

namespace LslFront

variable {R : Type} [CommRing R]

/-! ### Quaternions -/

namespace Quat

def toQuaternion (r : Quat R) : Quaternion R :=
  ⟨r.s, r.x, r.y, r.z⟩

@[simp] theorem re_toQuaternion (r : Quat R) : r.toQuaternion.re = r.s := rfl

@[simp] theorem imI_toQuaternion (r : Quat R) : r.toQuaternion.imI = r.x := rfl

@[simp] theorem imJ_toQuaternion (r : Quat R) : r.toQuaternion.imJ = r.y := rfl

@[simp] theorem imK_toQuaternion (r : Quat R) : r.toQuaternion.imK = r.z := rfl

theorem toQuaternion_injective : Function.Injective (toQuaternion : Quat R → Quaternion R) := by
  rintro ⟨x, y, z, s⟩ ⟨x', y', z', s'⟩ h
  obtain ⟨rfl, rfl, rfl, rfl⟩ := QuaternionAlgebra.mk.inj h
  rfl

theorem toQuaternion_hamilton (r q : Quat R) :
    (r.hamilton q).toQuaternion = r.toQuaternion * q.toQuaternion := by
  ext <;> simp [hamilton]

@[simp] theorem toQuaternion_compose (r q : Quat R) :
    (r.compose q).toQuaternion = q.toQuaternion * r.toQuaternion :=
  toQuaternion_hamilton q r

@[simp] theorem toQuaternion_conjugate (r : Quat R) :
    r.conjugate.toQuaternion = star r.toQuaternion := by
  ext <;> simp [conjugate]

/-- The sum of the squares of the components. -/
def normSq (r : Quat R) : R :=
  r.x ^ 2 + r.y ^ 2 + r.z ^ 2 + r.s ^ 2

theorem normSq_toQuaternion (r : Quat R) : Quaternion.normSq r.toQuaternion = r.normSq := by
  rw [Quaternion.normSq_def', normSq]
  simp only [re_toQuaternion, imI_toQuaternion, imJ_toQuaternion, imK_toQuaternion]
  ring

theorem toQuaternion_mul_star (r : Quat R) :
    r.toQuaternion * star r.toQuaternion = (r.normSq : Quaternion R) := by
  rw [Quaternion.self_mul_star, normSq_toQuaternion]

theorem star_mul_toQuaternion (r : Quat R) :
    star r.toQuaternion * r.toQuaternion = (r.normSq : Quaternion R) := by
  rw [Quaternion.star_mul_self, normSq_toQuaternion]

/-- Every component is multiplied. -/
def scale (r : Quat R) (f : R) : Quat R :=
  r.map (· * f)

@[simp] theorem toQuaternion_scale (r : Quat R) (f : R) :
    (r.scale f).toQuaternion = r.toQuaternion * f := by
  ext <;> simp [scale, map]

theorem scale_one (r : Quat R) : r.scale 1 = r := by
  simp [scale, map]

end Quat

namespace Vec3

/-- The vector as a quaternion without real part. -/
def toQuaternion (v : Vec3 R) : Quaternion R :=
  ⟨0, v.x, v.y, v.z⟩

@[simp] theorem re_toQuaternion (v : Vec3 R) : v.toQuaternion.re = 0 := rfl

@[simp] theorem imI_toQuaternion (v : Vec3 R) : v.toQuaternion.imI = v.x := rfl

@[simp] theorem imJ_toQuaternion (v : Vec3 R) : v.toQuaternion.imJ = v.y := rfl

@[simp] theorem imK_toQuaternion (v : Vec3 R) : v.toQuaternion.imK = v.z := rfl

theorem toQuaternion_injective : Function.Injective (toQuaternion : Vec3 R → Quaternion R) := by
  rintro ⟨x, y, z⟩ ⟨x', y', z'⟩ h
  obtain ⟨-, rfl, rfl, rfl⟩ := QuaternionAlgebra.mk.inj h
  rfl

@[simp] theorem toQuaternion_scale (v : Vec3 R) (f : R) :
    (v.scale f).toQuaternion = v.toQuaternion * f := by
  ext <;> simp [scale]

theorem scale_one (v : Vec3 R) : v.scale 1 = v := by
  simp [scale]

/-- The product of two vectors is their cross product without their dot product. -/
theorem mul_toQuaternion (v w : Vec3 R) :
    v.toQuaternion * w.toQuaternion = (v.cross w).toQuaternion - (v.dot w : Quaternion R) := by
  ext <;> simp [cross, dot] <;> ring

theorem toQuaternion_rotate (v : Vec3 R) (r : Quat R) : (v.rotate r).toQuaternion
    = r.toQuaternion * v.toQuaternion * star r.toQuaternion := by
  ext <;> simp [rotate, Quat.hamilton, Quat.conjugate]
  ring

/-- A difference of a vector and a number is one of no other vector and no other number. -/
theorem sub_coe_inj {v w : Vec3 R} {a b : R} :
    v.toQuaternion - (a : Quaternion R) = w.toQuaternion - b ↔ v = w ∧ a = b := by
  constructor
  · intro h
    have hre := congrArg QuaternionAlgebra.re h
    have hnumber : a = b := by simpa using hre
    refine ⟨toQuaternion_injective ?_, hnumber⟩
    rwa [hnumber, sub_left_inj] at h
  · rintro ⟨rfl, rfl⟩
    rfl

end Vec3

/-! ### Turning -/

section

variable (v w : Vec3 R) (a b r : Quat R)

theorem Vec3.rotate_compose : v.rotate (a.compose b) = (v.rotate a).rotate b := by
  apply toQuaternion_injective
  simp only [toQuaternion_rotate, Quat.toQuaternion_compose, star_mul, mul_assoc]

theorem Vec3.unrotate_rotate : (v.rotate r).unrotate r = v.scale (r.normSq ^ 2) := by
  apply toQuaternion_injective
  rw [unrotate, toQuaternion_rotate, toQuaternion_rotate, Quat.toQuaternion_conjugate, star_star,
    toQuaternion_scale]
  calc star r.toQuaternion * (r.toQuaternion * v.toQuaternion * star r.toQuaternion) * r.toQuaternion
      = (star r.toQuaternion * r.toQuaternion) * v.toQuaternion
          * (star r.toQuaternion * r.toQuaternion) := by simp only [mul_assoc]
    _ = (r.normSq : Quaternion R) * v.toQuaternion * r.normSq := by rw [r.star_mul_toQuaternion]
    _ = v.toQuaternion * (r.normSq ^ 2 : R) := by
        rw [Quaternion.coe_commutes, mul_assoc, ← Quaternion.coe_mul, sq]

theorem Quat.compose_compose_conjugate :
    (a.compose b).compose b.conjugate = a.scale b.normSq := by
  apply toQuaternion_injective
  rw [toQuaternion_compose, toQuaternion_compose, toQuaternion_conjugate, toQuaternion_scale,
    ← mul_assoc, star_mul_toQuaternion, Quaternion.coe_commutes]

/-- The product of two vectors that are turned is their product, turned and stretched. -/
theorem Vec3.mul_turned : (v.rotate r).toQuaternion * (w.rotate r).toQuaternion
    = r.toQuaternion * (v.toQuaternion * w.toQuaternion) * star r.toQuaternion * r.normSq := by
  rw [toQuaternion_rotate, toQuaternion_rotate]
  calc r.toQuaternion * v.toQuaternion * star r.toQuaternion
        * (r.toQuaternion * w.toQuaternion * star r.toQuaternion)
      = r.toQuaternion * v.toQuaternion * (star r.toQuaternion * r.toQuaternion)
          * w.toQuaternion * star r.toQuaternion := by simp only [mul_assoc]
    _ = r.toQuaternion * v.toQuaternion * r.normSq * w.toQuaternion * star r.toQuaternion := by
        rw [r.star_mul_toQuaternion]
    _ = r.toQuaternion * (v.toQuaternion * w.toQuaternion) * star r.toQuaternion * r.normSq := by
        simp only [mul_assoc, Quaternion.coe_commutes r.normSq]

/-- The dot product is stretched twice, and the cross product is turned and stretched once. -/
theorem Vec3.cross_dot_rotate :
    (v.rotate r).cross (w.rotate r) = ((v.cross w).rotate r).scale r.normSq ∧
      (v.rotate r).dot (w.rotate r) = r.normSq ^ 2 * v.dot w := by
  have hnumber : r.toQuaternion * (v.dot w : Quaternion R) * star r.toQuaternion
      = (r.normSq * v.dot w : R) := by
    rw [← Quaternion.coe_commutes, mul_assoc, r.toQuaternion_mul_star, ← Quaternion.coe_mul,
      mul_comm]
  apply sub_coe_inj.1
  calc ((v.rotate r).cross (w.rotate r)).toQuaternion - ((v.rotate r).dot (w.rotate r) : R)
      = r.toQuaternion * (v.toQuaternion * w.toQuaternion) * star r.toQuaternion * r.normSq := by
        rw [← mul_toQuaternion, mul_turned]
    _ = (r.toQuaternion * (v.cross w).toQuaternion * star r.toQuaternion
          - (r.normSq * v.dot w : R)) * r.normSq := by
        rw [mul_toQuaternion, mul_sub, sub_mul, hnumber]
    _ = (((v.cross w).rotate r).scale r.normSq).toQuaternion - (r.normSq ^ 2 * v.dot w : R) := by
        rw [sub_mul, toQuaternion_scale, toQuaternion_rotate, ← Quaternion.coe_mul]
        ring_nf

end

/-! ### Operators of scripts -/

/-- On vectors and rotations the operators of a script compute by the formulas. -/
theorem BinaryOp.fold_space (v w : Vector) (r q : Rotation) :
    mul.fold (.vector v) (.rotation r) = .value (.vector (v.rotate r)) ∧
      div.fold (.vector v) (.rotation r) = .value (.vector (v.unrotate r)) ∧
      mul.fold (.rotation r) (.rotation q) = .value (.rotation (r.compose q)) ∧
      div.fold (.rotation r) (.rotation q) = .value (.rotation (r.compose q.conjugate)) ∧
      mul.fold (.vector v) (.vector w) = .value (.float (v.dot w)) ∧
      mod.fold (.vector v) (.vector w) = .value (.vector (v.cross w)) :=
  ⟨rfl, rfl, rfl, rfl, rfl, rfl⟩

/-- The formulas by which a script multiplies and divides, read over exact numbers.  Turning by a
    composed rotation is turning by its parts from left to right; turning back gives the vector and
    the rotation that were there, stretched by the squares of the components; and so do the products
    of vectors that are both turned.  So dividing by a rotation of norm one undoes multiplying. -/
theorem rotation_laws (R : Type) [CommRing R] :
    (∀ (v w : Vector) (r q : Rotation),
      BinaryOp.mul.fold (.vector v) (.rotation r) = .value (.vector (v.rotate r)) ∧
      BinaryOp.div.fold (.vector v) (.rotation r) = .value (.vector (v.unrotate r)) ∧
      BinaryOp.mul.fold (.rotation r) (.rotation q) = .value (.rotation (r.compose q)) ∧
      BinaryOp.div.fold (.rotation r) (.rotation q) = .value (.rotation (r.compose q.conjugate)) ∧
      BinaryOp.mul.fold (.vector v) (.vector w) = .value (.float (v.dot w)) ∧
      BinaryOp.mod.fold (.vector v) (.vector w) = .value (.vector (v.cross w))) ∧
    (∀ (v : Vec3 R) (a b : Quat R), v.rotate (a.compose b) = (v.rotate a).rotate b) ∧
    (∀ (v : Vec3 R) (r : Quat R), (v.rotate r).unrotate r = v.scale (r.normSq ^ 2)) ∧
    (∀ a b : Quat R, (a.compose b).compose b.conjugate = a.scale b.normSq) ∧
    (∀ (v w : Vec3 R) (r : Quat R), (v.rotate r).dot (w.rotate r) = r.normSq ^ 2 * v.dot w) ∧
    (∀ (v w : Vec3 R) (r : Quat R),
      (v.rotate r).cross (w.rotate r) = ((v.cross w).rotate r).scale r.normSq) ∧
    ∀ r : Quat R, r.normSq = 1 → (∀ v : Vec3 R, (v.rotate r).unrotate r = v) ∧
      ∀ a : Quat R, (a.compose r).compose r.conjugate = a := by
  refine ⟨BinaryOp.fold_space, Vec3.rotate_compose, Vec3.unrotate_rotate,
    Quat.compose_compose_conjugate, fun v w r => (v.cross_dot_rotate w r).2,
    fun v w r => (v.cross_dot_rotate w r).1, ?_⟩
  intro r hunit
  constructor
  · intro v
    rw [v.unrotate_rotate, hunit, one_pow, Vec3.scale_one]
  · intro a
    rw [a.compose_compose_conjugate, hunit, Quat.scale_one]

/-- A rotation about no axis of coordinates, by rational components. -/
theorem rotation_laws_unit :
    let r : Quat ℚ := ⟨1 / 5, 2 / 5, 4 / 5, 2 / 5⟩
    let v : Vec3 ℚ := ⟨1, 2, 3⟩
    let a : Quat ℚ := ⟨1, -1, 2, 3⟩
    r.normSq = 1 ∧ v.rotate r = ⟨9 / 25, 38 / 25, 17 / 5⟩ ∧ (v.rotate r).unrotate r = v ∧
      (a.compose r).compose r.conjugate = a := by
  intro r v a
  have hunit : r.normSq = 1 := by norm_num [r, Quat.normSq]
  have hturned : v.rotate r = ⟨9 / 25, 38 / 25, 17 / 5⟩ := by
    norm_num [r, v, Vec3.rotate, Quat.hamilton, Quat.conjugate]
  obtain ⟨-, -, -, -, -, -, hundone⟩ := rotation_laws ℚ
  obtain ⟨hvector, hrotation⟩ := hundone r hunit
  exact ⟨hunit, hturned, hvector v, hrotation a⟩

end LslFront
