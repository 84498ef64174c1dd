import Mathlib.Analysis.SpecialFunctions.Trigonometric.Bounds
import Mathlib.Analysis.SpecialFunctions.Trigonometric.Inverse

/-!
# An arm with two links in the plane

Links of the lengths `a` and `b`; the angles of both are measured from the upward direction. The
angles that put the end of the second link at the distance `r` in the direction `θ` are those of
the triangle with the sides `a`, `b` and `r`.

* `outward`, `upward`: where the end of the arm is.
* `Triangle`: the distances that the arm reaches.
* `Triangle.outward_eq`, `Triangle.upward_eq`: the end for the angles of the triangle.
* `end_dist_le`: what errors of the angles cost.
-/

namespace Robot

namespace TwoLink

open Real

/-- How far out and how far up the end is. -/
noncomputable def outward (a b low high : ℝ) : ℝ := a * sin low + b * sin high
noncomputable def upward (a b low high : ℝ) : ℝ := a * cos low + b * cos high

/-- The angle between the first link and the line to the end, and the one between the links. -/
noncomputable def lift (a b r : ℝ) : ℝ := arccos ((a ^ 2 - b ^ 2 + r ^ 2) / (2 * a * r))
noncomputable def elbow (a b r : ℝ) : ℝ := arccos ((a ^ 2 + b ^ 2 - r ^ 2) / (2 * a * b))

/-- There is a triangle with these sides. -/
structure Triangle (a b r : ℝ) : Prop where
  first : 0 < a
  second : 0 < b
  third : 0 < r
  far : r ≤ a + b
  near : |a - b| ≤ r

namespace Triangle

variable {a b r : ℝ} (h : Triangle a b r)

include h

theorem lift_arg : |(a ^ 2 - b ^ 2 + r ^ 2) / (2 * a * r)| ≤ 1 := by
  have ha := h.first
  have hr := h.third
  have hnear := abs_le.mp h.near
  have hpos : 0 < 2 * a * r := by positivity
  rw [abs_div, abs_of_pos hpos, div_le_one hpos, abs_le]
  constructor
  · -- the side `b` is at most `a + r`
    nlinarith [h.second]
  · -- the difference of `a` and `r` is at most `b`
    nlinarith [h.far]

theorem elbow_arg : |(a ^ 2 + b ^ 2 - r ^ 2) / (2 * a * b)| ≤ 1 := by
  have ha := h.first
  have hb := h.second
  have hnear := abs_le.mp h.near
  have hpos : 0 < 2 * a * b := by positivity
  rw [abs_div, abs_of_pos hpos, div_le_one hpos, abs_le]
  constructor
  · nlinarith [h.far, h.third]
  · nlinarith [h.third]

theorem cos_lift : r * cos (lift a b r) = (a ^ 2 - b ^ 2 + r ^ 2) / (2 * a) := by
  have harg := abs_le.mp h.lift_arg
  have ha := h.first
  have hr := h.third
  rw [lift, cos_arccos harg.1 harg.2]
  field_simp

theorem cos_elbow : b * cos (elbow a b r) = (a ^ 2 + b ^ 2 - r ^ 2) / (2 * a) := by
  have harg := abs_le.mp h.elbow_arg
  have ha := h.first
  have hb := h.second
  rw [elbow, cos_arccos harg.1 harg.2]
  field_simp

/-- The first link is the sum of what the other sides cast on it. -/
theorem cos_sum : a - b * cos (elbow a b r) = r * cos (lift a b r) := by
  have ha := h.first
  rw [h.cos_lift, h.cos_elbow]
  field_simp
  ring

/-- Both angles see the same height of the triangle. -/
theorem sin_eq : b * sin (elbow a b r) = r * sin (lift a b r) := by
  have hnonneg : ∀ {c x : ℝ}, 0 < c → 0 ≤ c * sin (arccos x) := fun hc =>
    mul_nonneg hc.le (sin_nonneg_of_nonneg_of_le_pi (arccos_nonneg _) (arccos_le_pi _))
  have hsquare : (b * sin (elbow a b r)) ^ 2 = (r * sin (lift a b r)) ^ 2 := by
    have ha := h.first
    have h₁ : (b * sin (elbow a b r)) ^ 2 = b ^ 2 - (b * cos (elbow a b r)) ^ 2 := by
      rw [mul_pow, mul_pow, sin_sq]
      ring
    have h₂ : (r * sin (lift a b r)) ^ 2 = r ^ 2 - (r * cos (lift a b r)) ^ 2 := by
      rw [mul_pow, mul_pow, sin_sq]
      ring
    rw [h₁, h₂, h.cos_lift, h.cos_elbow]
    field_simp
    ring
  exact (pow_left_inj₀ (hnonneg h.second) (hnonneg h.third) two_ne_zero).mp hsquare

/-- The end of the arm for the angles of the triangle. -/
theorem outward_eq (θ : ℝ) :
    outward a b (θ - lift a b r) (π - elbow a b r + (θ - lift a b r)) = r * sin θ := by
  have hsum := h.cos_sum
  have hsin := h.sin_eq
  set low := θ - lift a b r with hlow
  have hhigh : sin (π - elbow a b r + low) =
      sin (elbow a b r) * cos low - cos (elbow a b r) * sin low := by
    rw [sin_add, sin_pi_sub, cos_pi_sub]
    ring
  calc outward a b low (π - elbow a b r + low)
      = (a - b * cos (elbow a b r)) * sin low + b * sin (elbow a b r) * cos low := by
        rw [outward, hhigh]
        ring
    _ = r * (sin low * cos (lift a b r) + cos low * sin (lift a b r)) := by
        rw [hsum, hsin]
        ring
    _ = r * sin θ := by
        rw [← sin_add, hlow, sub_add_cancel]

theorem upward_eq (θ : ℝ) :
    upward a b (θ - lift a b r) (π - elbow a b r + (θ - lift a b r)) = r * cos θ := by
  have hsum := h.cos_sum
  have hsin := h.sin_eq
  set low := θ - lift a b r with hlow
  have hhigh : cos (π - elbow a b r + low) =
      -(cos (elbow a b r) * cos low) - sin (elbow a b r) * sin low := by
    rw [cos_add, sin_pi_sub, cos_pi_sub]
    ring
  calc upward a b low (π - elbow a b r + low)
      = (a - b * cos (elbow a b r)) * cos low - b * sin (elbow a b r) * sin low := by
        rw [upward, hhigh]
        ring
    _ = r * (cos low * cos (lift a b r) - sin low * sin (lift a b r)) := by
        rw [hsum, hsin]
        ring
    _ = r * cos θ := by
        rw [← cos_add, hlow, sub_add_cancel]

end Triangle

/-! ## Errors of the angles -/

variable {a b low high low' high' : ℝ}

/-- The chord of an angle is no longer than its arc. -/
theorem chord_sq_le (x y : ℝ) : (sin x - sin y) ^ 2 + (cos x - cos y) ^ 2 ≤ (x - y) ^ 2 := by
  have hcos := one_sub_sq_div_two_le_cos (x := x - y)
  rw [cos_sub] at hcos
  nlinarith [sin_sq_add_cos_sq x, sin_sq_add_cos_sq y]

/-- The triangle inequality, for squares. -/
theorem sum_sq_le {p q u₁ u₂ v₁ v₂ : ℝ} (hp : 0 ≤ p) (hq : 0 ≤ q) (hu : u₁ ^ 2 + u₂ ^ 2 ≤ p ^ 2)
    (hv : v₁ ^ 2 + v₂ ^ 2 ≤ q ^ 2) : (u₁ + v₁) ^ 2 + (u₂ + v₂) ^ 2 ≤ (p + q) ^ 2 := by
  have hsquare : (u₁ * v₁ + u₂ * v₂) ^ 2 ≤ (p * q) ^ 2 := by
    calc (u₁ * v₁ + u₂ * v₂) ^ 2 ≤ (u₁ ^ 2 + u₂ ^ 2) * (v₁ ^ 2 + v₂ ^ 2) := by
          nlinarith [sq_nonneg (u₁ * v₂ - u₂ * v₁)]
      _ ≤ p ^ 2 * q ^ 2 := mul_le_mul hu hv (by positivity) (by positivity)
      _ = (p * q) ^ 2 := (mul_pow p q 2).symm
  have hdot : u₁ * v₁ + u₂ * v₂ ≤ p * q :=
    le_of_abs_le (abs_le_of_sq_le_sq hsquare (mul_nonneg hp hq))
  nlinarith

/-- The way of the end is at most that of both links. -/
theorem end_dist_le (ha : 0 ≤ a) (hb : 0 ≤ b) :
    (outward a b low' high' - outward a b low high) ^ 2 +
      (upward a b low' high' - upward a b low high) ^ 2 ≤
        (a * |low' - low| + b * |high' - high|) ^ 2 := by
  have hlink : ∀ {c x y : ℝ},
      (c * (sin x - sin y)) ^ 2 + (c * (cos x - cos y)) ^ 2 ≤ (c * |x - y|) ^ 2 := by
    intro c x y
    rw [mul_pow, mul_pow, mul_pow, sq_abs, ← mul_add]
    exact mul_le_mul_of_nonneg_left (chord_sq_le x y) (sq_nonneg c)
  have hout : outward a b low' high' - outward a b low high =
      a * (sin low' - sin low) + b * (sin high' - sin high) := by
    unfold outward
    ring
  have hup : upward a b low' high' - upward a b low high =
      a * (cos low' - cos low) + b * (cos high' - cos high) := by
    unfold upward
    ring
  rw [hout, hup]
  exact sum_sq_le (mul_nonneg ha (abs_nonneg _)) (mul_nonneg hb (abs_nonneg _)) hlink hlink

end TwoLink

end Robot
