import Adjudication.Proofs.CurveField
import Mathlib.Tactic.FieldSimp

namespace Adjudication.Ed25519

/-- A point of the curve in affine coordinates. -/
@[ext] structure CurvePoint where
  x : ZMod prime
  y : ZMod prime
  onCurve : y ^ 2 - x ^ 2 = 1 + curveD * x ^ 2 * y ^ 2

theorem two_ne_zero : (2 : ZMod prime) ≠ 0 := by
  have hcast : ((2 : Nat) : ZMod prime) ≠ 0 := by
    rw [Ne, ZMod.natCast_eq_zero_iff]
    decide +kernel
  exact_mod_cast hcast

theorem eq_zero_of_sq_eq_curveD_mul {a b : ZMod prime} (h : a ^ 2 = curveD * b ^ 2) : b = 0 := by
  by_contra hb
  refine not_isSquare_curveD ⟨a / b, ?_⟩
  field_simp
  exact h.symm

namespace CurvePoint

/-- What the denominators of a sum differ from one by. -/
def twist (p q : CurvePoint) : ZMod prime := curveD * p.x * q.x * p.y * q.y

/-- Were it one or minus one, the curve's constant would be a square: it divides two squares, and not both
of their roots are zero. -/
theorem twist_sq_ne_one (p q : CurvePoint) : p.twist q ^ 2 ≠ 1 := by
  intro h
  have hi := sqrtMinusOne_sq
  have hp := p.onCurve
  have hq := q.onCurve
  have hplus : (p.y + p.twist q * sqrtMinusOne * p.x) ^ 2 =
      curveD * (p.x * p.y * (q.y + sqrtMinusOne * q.x)) ^ 2 := by
    simp only [twist] at h ⊢
    linear_combination hp - curveD * p.x ^ 2 * p.y ^ 2 * hq - (1 + p.x ^ 2) * h +
      ((curveD * p.x * q.x * p.y * q.y) ^ 2 * p.x ^ 2 - curveD * p.x ^ 2 * p.y ^ 2 * q.x ^ 2) * hi
  have hminus : (p.y - p.twist q * sqrtMinusOne * p.x) ^ 2 =
      curveD * (p.x * p.y * (q.y - sqrtMinusOne * q.x)) ^ 2 := by
    simp only [twist] at h ⊢
    linear_combination hp - curveD * p.x ^ 2 * p.y ^ 2 * hq - (1 + p.x ^ 2) * h +
      ((curveD * p.x * q.x * p.y * q.y) ^ 2 * p.x ^ 2 - curveD * p.x ^ 2 * p.y ^ 2 * q.x ^ 2) * hi
  have hzero : 2 * (p.x * p.y * q.y) = 0 := by
    linear_combination eq_zero_of_sq_eq_curveD_mul hplus + eq_zero_of_sq_eq_curveD_mul hminus
  have hproduct := (mul_eq_zero.mp hzero).resolve_left two_ne_zero
  have htwist : p.twist q = 0 := by
    simp only [twist]
    linear_combination curveD * q.x * hproduct
  rw [htwist] at h
  simp at h

theorem one_add_twist_ne_zero (p q : CurvePoint) : 1 + p.twist q ≠ 0 := by
  intro h
  exact p.twist_sq_ne_one q (by linear_combination (p.twist q - 1) * h)

theorem one_sub_twist_ne_zero (p q : CurvePoint) : 1 - p.twist q ≠ 0 := by
  intro h
  exact p.twist_sq_ne_one q (by linear_combination -(p.twist q + 1) * h)

instance : Zero CurvePoint := ⟨0, 1, by ring⟩

@[simp] theorem zero_x : (0 : CurvePoint).x = 0 := rfl

@[simp] theorem zero_y : (0 : CurvePoint).y = 1 := rfl

instance : Neg CurvePoint := ⟨fun p => ⟨-p.x, p.y, by linear_combination p.onCurve⟩⟩

theorem sum_onCurve (p q : CurvePoint) :
    ((p.y * q.y + p.x * q.x) / (1 - p.twist q)) ^ 2 -
        ((p.x * q.y + p.y * q.x) / (1 + p.twist q)) ^ 2 =
      1 + curveD * ((p.x * q.y + p.y * q.x) / (1 + p.twist q)) ^ 2 *
        ((p.y * q.y + p.x * q.x) / (1 - p.twist q)) ^ 2 := by
  have hplus := p.one_add_twist_ne_zero q
  have hminus := p.one_sub_twist_ne_zero q
  have hp := p.onCurve
  have hq := q.onCurve
  field_simp
  simp only [twist]
  linear_combination
    ((q.y ^ 2 - q.x ^ 2) * (1 + curveD * p.x ^ 2 * p.y ^ 2 * (curveD * q.x ^ 2 * q.y ^ 2)) -
      curveD * q.x ^ 2 * q.y ^ 2 * (p.y ^ 2 - p.x ^ 2 + 1 + curveD * p.x ^ 2 * p.y ^ 2)) * hp +
    ((1 + curveD * p.x ^ 2 * p.y ^ 2) *
        (1 + curveD * p.x ^ 2 * p.y ^ 2 * (curveD * q.x ^ 2 * q.y ^ 2)) -
      curveD * p.x ^ 2 * p.y ^ 2 * (q.y ^ 2 - q.x ^ 2 + 1 + curveD * q.x ^ 2 * q.y ^ 2)) * hq

instance : Add CurvePoint := ⟨fun p q =>
  ⟨(p.x * q.y + p.y * q.x) / (1 + p.twist q), (p.y * q.y + p.x * q.x) / (1 - p.twist q),
    p.sum_onCurve q⟩⟩

theorem add_x (p q : CurvePoint) : (p + q).x = (p.x * q.y + p.y * q.x) / (1 + p.twist q) := rfl

theorem add_y (p q : CurvePoint) : (p + q).y = (p.y * q.y + p.x * q.x) / (1 - p.twist q) := rfl

@[simp] theorem neg_x (p : CurvePoint) : (-p).x = -p.x := rfl

@[simp] theorem neg_y (p : CurvePoint) : (-p).y = p.y := rfl

theorem neg_zero : -(0 : CurvePoint) = 0 := by
  ext <;> simp

theorem neg_injective {p q : CurvePoint} (h : -p = -q) : p = q := by
  have hx := congrArg CurvePoint.x h
  have hy := congrArg CurvePoint.y h
  exact CurvePoint.ext (neg_inj.mp hx) hy

theorem neg_add_eq (p q : CurvePoint) : -p + -q = -(p + q) := by
  have htwist : (-p).twist (-q) = p.twist q := by simp only [twist, neg_x, neg_y]; ring
  ext
  · rw [neg_x, add_x, add_x, htwist, neg_x, neg_y, neg_x, neg_y]
    ring
  · rw [neg_y, add_y, add_y, htwist, neg_x, neg_y, neg_x, neg_y]
    ring

theorem add_x_mul (p q : CurvePoint) :
    (p + q).x * (1 + p.twist q) = p.x * q.y + p.y * q.x :=
  div_mul_cancel₀ _ (p.one_add_twist_ne_zero q)

theorem add_y_mul (p q : CurvePoint) :
    (p + q).y * (1 - p.twist q) = p.y * q.y + p.x * q.x :=
  div_mul_cancel₀ _ (p.one_sub_twist_ne_zero q)

theorem neg_add_cancel_left (p q : CurvePoint) : -p + (p + q) = q := by
  have hp := p.onCurve
  have hq := q.onCurve
  have hx := p.add_x_mul q
  have hy := p.add_y_mul q
  have hdenominators := mul_ne_zero (p.one_add_twist_ne_zero q) (p.one_sub_twist_ne_zero q)
  ext
  · rw [add_x, div_eq_iff ((-p).one_add_twist_ne_zero (p + q))]
    apply mul_right_cancel₀ hdenominators
    simp only [twist, neg_x, neg_y] at hx hy ⊢
    linear_combination
      (p.y + curveD * p.x * p.y * q.x * (p + q).y) * (1 - curveD * p.x * q.x * p.y * q.y) * hx +
      (curveD * p.x * p.y * q.x * (p.x * q.y + p.y * q.x) -
        p.x * (1 + curveD * p.x * q.x * p.y * q.y)) * hy +
      q.x * (hp - curveD * p.x ^ 2 * p.y ^ 2 * hq)
  · rw [add_y, div_eq_iff ((-p).one_sub_twist_ne_zero (p + q))]
    apply mul_right_cancel₀ hdenominators
    simp only [twist, neg_x, neg_y] at hx hy ⊢
    linear_combination
      (-p.x - curveD * p.x * p.y * q.y * (p + q).y) * (1 - curveD * p.x * q.x * p.y * q.y) * hx +
      (p.y * (1 + curveD * p.x * q.x * p.y * q.y) -
        curveD * p.x * p.y * q.y * (p.x * q.y + p.y * q.x)) * hy +
      q.y * (hp - curveD * p.x ^ 2 * p.y ^ 2 * hq)

theorem add_left_cancel {p q r : CurvePoint} (h : p + q = p + r) : q = r := by
  rw [← neg_add_cancel_left p q, h, neg_add_cancel_left]

theorem one_add_curveD_mul_sq_ne_zero (y : ZMod prime) : 1 + curveD * y ^ 2 ≠ 0 := by
  intro h
  have hroot : (sqrtMinusOne : ZMod prime) ^ 2 = curveD * y ^ 2 := by
    linear_combination sqrtMinusOne_sq - h
  have hy := eq_zero_of_sq_eq_curveD_mul hroot
  rw [hy] at h
  simp at h

theorem x_eq_or_eq_neg {p q : CurvePoint} (h : p.y = q.y) : p.x = q.x ∨ p.x = -q.x := by
  have hp := p.onCurve
  have hq := q.onCurve
  rw [h] at hp
  have hsquares : (p.x ^ 2 - q.x ^ 2) * (1 + curveD * q.y ^ 2) = 0 := by
    linear_combination hq - hp
  have hzero := (mul_eq_zero.mp hsquares).resolve_right (one_add_curveD_mul_sq_ne_zero _)
  exact sq_eq_sq_iff_eq_or_eq_neg.mp (sub_eq_zero.mp hzero)

end CurvePoint

end Adjudication.Ed25519
