import ConstructionRobot.Lib.TwoLink
import ConstructionRobot.Robotarm.Interpolation

/-!
# The angles of the arm (`robotarm/robotGeometry.cpp`)

`calculateGrad` turns a position of the tool into the angles of the three axes. The shanks are a
two-link arm in the plane of the arm; the tool is `END_EFFECTOR_OFFSET` in front of their end.

* `RobotGeometry`, `calculateGrad`: the class.
* `isAllowedPosition_iff`: the positions that `Interpolation::isAllowedPosition` accepts.
* `calculateGrad_shanks`, `calculateGrad_rot`: the angles for finite coordinates.
* `inverse_kinematics_iff`: for an allowed position the angles are numbers, and they put the tool
  at the position exactly if that is not behind the base, and not above the ground between base and
  offset.
-/

namespace Robot

namespace Robotarm

open Libm

section Model

variable {F : Type} [Libm F]

/-- `RobotGeometry`. -/
structure RobotGeometry (F : Type) where
  eeOffset : F
  lowShankLength : F
  highShankLength : F
  xmm : F
  ymm : F
  zmm : F
  rot : F
  low : F
  high : F
  rrotEe : F

namespace RobotGeometry

/-- The constructor with the lengths of the configuration. -/
def init : RobotGeometry F where
  eeOffset := endEffectorOffset
  lowShankLength := Robotarm.lowShankLength
  highShankLength := Robotarm.highShankLength
  xmm := lit 0
  ymm := lit 0
  zmm := lit 0
  rot := lit 0
  low := lit 0
  high := lit 0
  rrotEe := lit 0

/-- `calculateGrad`. -/
def calculateGrad (g : RobotGeometry F) : RobotGeometry F :=
  let rrotEe := hypot g.xmm g.ymm
  let rrot := rrotEe - g.eeOffset
  let rside := hypot rrot g.zmm
  let rside2 := sq rside
  let low2 := sq g.lowShankLength
  let high2 := sq g.highShankLength
  let rot := asin (g.xmm / rrotEe)
  let high := pi - acos ((low2 + high2 - rside2) / (lit 2 * g.lowShankLength * g.highShankLength))
  let low :=
    if lt (lit 0) g.zmm then
      acos (g.zmm / rside) - acos ((low2 - high2 + rside2) / (lit 2 * g.lowShankLength * rside))
    else
      pi - asin (rrot / rside) -
        acos ((low2 - high2 + rside2) / (lit 2 * g.lowShankLength * rside))
  { g with rrotEe := rrotEe, rot := rot, low := low, high := high + low }

/-- `set`. -/
def set (g : RobotGeometry F) (axmm aymm azmm : F) : RobotGeometry F :=
  calculateGrad { g with xmm := axmm, ymm := aymm, zmm := azmm }

end RobotGeometry

end Model

/-! ## Allowed positions -/

open XReal

/-- The distance of the tool from the axis, of the end of the shanks from it, and of that end from
the shoulder. -/
noncomputable def radius (x y : ℝ) : ℝ := √(x ^ 2 + y ^ 2)
noncomputable def shankRadius (x y : ℝ) : ℝ := radius x y - 47
noncomputable def shankReach (x y z : ℝ) : ℝ := √(shankRadius x y ^ 2 + z ^ 2)

theorem shankReach_sq (x y z : ℝ) : shankReach x y z ^ 2 = shankRadius x y ^ 2 + z ^ 2 :=
  Real.sq_sqrt (by positivity)

@[simp] theorem fin_sq (x : ℝ) : sq (fin x) = fin (x * x) := rfl

/-- The limits are those of the angle between the shanks. -/
theorem sq_reach {c : ℚ} (h : (c : ℝ) ≤ 1) :
    sq (reach (lit c) : XReal) = fin (28800 * (1 - c)) := by
  have hnonneg : (0 : ℝ) ≤ 28800 * (1 - c) := by linarith
  have harg : (sq lowShankLength + sq highShankLength) -
      (lit 2 * lowShankLength * highShankLength * lit c) = fin (28800 * (1 - c)) := by
    simp only [sq, lowShankLength, highShankLength, fin_lit, fin_mul, fin_add, fin_sub]
    congr 1
    push_cast
    ring
  rw [reach, harg, fin_sqrt hnonneg, sq, fin_mul, Real.mul_self_sqrt hnonneg]

/-- The squares of `R_MIN` and `R_MAX`. -/
theorem sq_rMin : sq (rMin : XReal) = fin 6006.6158976 := by
  rw [rMin, shanksMinAngleCos, sq_reach (by norm_num)]
  congr 1
  norm_num

theorem sq_rMax : sq (rMax : XReal) = fin 51118.4012832 := by
  rw [rMax, shanksMaxAngleCos, sq_reach (by norm_num)]
  congr 1
  norm_num

theorem offset_eq : (endEffectorOffset : XReal) = fin 47 := by
  simp [endEffectorOffset]

theorem zMin_eq : (zMin : XReal) = fin (-140) := by
  simp [zMin]

theorem zMax_eq : (zMax : XReal) = fin 150 := by
  simp only [zMax, lowShankLength, fin_lit, fin_add]
  congr 1
  norm_num

/-- A position that can be accepted, as numbers. -/
structure Allowed (x y z : ℝ) : Prop where
  off : 0 < radius x y
  near : 6006.6158976 ≤ shankReach x y z ^ 2
  far : shankReach x y z ^ 2 ≤ 51118.4012832
  bottom : -140 ≤ z
  top : z ≤ 150

/-- The comparisons of `isAllowedPosition`. -/
theorem isAllowedPosition_fin {x y z : ℝ} (h : 0 < radius x y) (e : XReal) :
    Interpolation.isAllowedPosition ⟨fin x, fin y, fin z, e⟩ = true ↔
      shankReach x y z ^ 2 ≤ 51118.4012832 ∧ 6006.6158976 ≤ shankReach x y z ^ 2 ∧
        -140 ≤ z ∧ z ≤ 150 := by
  have hsquare : radius x y ^ 2 = x ^ 2 + y ^ 2 := Real.sq_sqrt (by positivity)
  have hside : shankRadius x y * (y / radius x y) * (shankRadius x y * (y / radius x y)) +
      shankRadius x y * (x / radius x y) * (shankRadius x y * (x / radius x y)) + z * z =
        shankReach x y z ^ 2 := by
    rw [shankReach_sq]
    field_simp
    rw [hsquare]
    ring
  have hrrot : fin (√(x ^ 2 + y ^ 2)) - fin 47 = fin (shankRadius x y) := rfl
  have hx : fin x / fin (√(x ^ 2 + y ^ 2)) = fin (x / radius x y) := fin_div h.ne'
  have hy : fin y / fin (√(x ^ 2 + y ^ 2)) = fin (y / radius x y) := fin_div h.ne'
  simp only [Interpolation.isAllowedPosition, sq_rMin, sq_rMax, fin_hypot, offset_eq, hrrot, hx,
    hy, zMin_eq, zMax_eq, fin_sq, fin_mul, fin_add, hside, Bool.and_eq_true, fin_le, and_assoc]

/-- The part of the radius along the second axis is NaN unless both coordinates are numbers and the
position is not on the axis. -/
theorem rrot_nan (px py : XReal) :
    (hypot px py - endEffectorOffset) * (py / hypot px py) = nan ∨
      ∃ x y, px = fin x ∧ py = fin y ∧ 0 < radius x y := by
  rw [offset_eq]
  cases px with
  | nan => cases py <;> exact .inl rfl
  | inf s =>
    cases py with
    | fin y => exact .inl (if_pos rfl)
    | _ => exact .inl rfl
  | fin x =>
    cases py with
    | fin y =>
      rcases (Real.sqrt_nonneg (x ^ 2 + y ^ 2)).lt_or_eq with hpos | hzero
      · exact .inr ⟨x, y, rfl, rfl, hpos⟩
      · have hsum : x ^ 2 + y ^ 2 = 0 := (Real.sqrt_eq_zero (by positivity)).mp hzero.symm
        have hy : y = 0 := by nlinarith [sq_nonneg x, sq_nonneg y]
        rw [fin_hypot, ← hzero, hy, zero_div_zero]
        exact .inl (mul_nan _)
    | _ => exact .inl rfl

/-- Positions with NaN or an infinity are not accepted, and neither are those on the axis. -/
theorem isAllowedPosition_iff (p : Point XReal) :
    Interpolation.isAllowedPosition p = true ↔
      ∃ x y z, p.xmm = fin x ∧ p.ymm = fin y ∧ p.zmm = fin z ∧ Allowed x y z := by
  obtain ⟨px, py, pz, e⟩ := p
  constructor
  · intro h
    rcases rrot_nan px py with hnan | ⟨x, y, rfl, rfl, hpos⟩
    · simp only [Interpolation.isAllowedPosition, hnan, sq, nan_mul, nan_add, nan_le,
        Bool.false_and, Bool.false_eq_true] at h
    · have hz : ∃ z, pz = fin z := by
        simp only [Interpolation.isAllowedPosition, Bool.and_eq_true, zMin_eq, zMax_eq] at h
        cases pz with
        | fin z => exact ⟨z, rfl⟩
        | nan => simp at h
        | inf s =>
          cases s with
          | false => exact absurd h.2 Bool.false_ne_true
          | true => exact absurd h.1.2 Bool.false_ne_true
      obtain ⟨z, rfl⟩ := hz
      obtain ⟨hfar, hnear, hbottom, htop⟩ := (isAllowedPosition_fin hpos e).mp h
      exact ⟨x, y, z, rfl, rfl, rfl, hpos, hnear, hfar, hbottom, htop⟩
  · rintro ⟨x, y, z, rfl, rfl, rfl, ha⟩
    exact (isAllowedPosition_fin ha.off e).mpr ⟨ha.far, ha.near, ha.bottom, ha.top⟩

/-! ## The angles -/

open TwoLink

/-- The direction of the end of the shanks that `calculateGrad` works with. -/
noncomputable def direction (x y z : ℝ) : ℝ :=
  if 0 < z then Real.arccos (z / shankReach x y z)
  else Real.pi - Real.arcsin (shankRadius x y / shankReach x y z)

/-- The angles of the two shanks. -/
noncomputable def lowAngle (x y z : ℝ) : ℝ :=
  direction x y z - lift 120 120 (shankReach x y z)
noncomputable def highAngle (x y z : ℝ) : ℝ :=
  Real.pi - elbow 120 120 (shankReach x y z) + lowAngle x y z

section Angles

variable {x y z : ℝ}

/-- A leg of a right-angled triangle is no longer than the other side. -/
theorem leg_div_le (h : 0 < shankReach x y z) :
    |z / shankReach x y z| ≤ 1 ∧ |shankRadius x y / shankReach x y z| ≤ 1 := by
  have hz : |z| ≤ shankReach x y z :=
    Real.abs_le_sqrt (by linarith [sq_nonneg (shankRadius x y)])
  have hr : |shankRadius x y| ≤ shankReach x y z :=
    Real.abs_le_sqrt (by linarith [sq_nonneg z])
  rw [abs_div, abs_div, abs_of_pos h]
  exact ⟨(div_le_one h).mpr hz, (div_le_one h).mpr hr⟩

/-- The lengths are those of the configuration. -/
structure RobotGeometry.Configured (g : RobotGeometry XReal) : Prop where
  offset : g.eeOffset = fin 47
  low : g.lowShankLength = fin 120
  high : g.highShankLength = fin 120

theorem RobotGeometry.init_configured : (RobotGeometry.init : RobotGeometry XReal).Configured :=
  ⟨offset_eq, by simp [init, Robotarm.lowShankLength], by simp [init, Robotarm.highShankLength]⟩

/-- The two angles of the triangle. -/
theorem acos_lift {r : ℝ} (h : Triangle 120 120 r) :
    acos ((sq (fin 120) - sq (fin 120) + sq (fin r)) / (lit 2 * fin 120 * fin r)) =
      fin (lift 120 120 r) := by
  have hr := h.third
  have hden : (2 : ℝ) * 120 * r ≠ 0 := by positivity
  have harg : (120 * 120 - 120 * 120 + r * r) / (2 * 120 * r) =
      (120 ^ 2 - 120 ^ 2 + r ^ 2) / (2 * 120 * r) := by ring
  simp only [fin_sq, fin_lit, fin_mul, fin_sub, fin_add, Rat.cast_ofNat]
  rw [fin_div hden, harg, fin_acos h.lift_arg, lift]

theorem acos_elbow {r : ℝ} (h : Triangle 120 120 r) :
    acos ((sq (fin 120) + sq (fin 120) - sq (fin r)) / (lit 2 * fin 120 * fin 120)) =
      fin (elbow 120 120 r) := by
  have hden : (2 : ℝ) * 120 * 120 ≠ 0 := by norm_num
  have harg : (120 * 120 + 120 * 120 - r * r) / (2 * 120 * 120) =
      (120 ^ 2 + 120 ^ 2 - r ^ 2) / (2 * 120 * 120) := by ring
  simp only [fin_sq, fin_lit, fin_mul, fin_sub, fin_add, Rat.cast_ofNat]
  rw [fin_div hden, harg, fin_acos h.elbow_arg, elbow]

/-- The angles of the shanks, for numbers. -/
theorem calculateGrad_shanks (h : Triangle 120 120 (shankReach x y z)) {g : RobotGeometry XReal}
    (hg : g.Configured) :
    (g.set (fin x) (fin y) (fin z)).low = fin (lowAngle x y z) ∧
      (g.set (fin x) (fin y) (fin z)).high = fin (highAngle x y z) := by
  have hleg := leg_div_le h.third
  have hrrot : hypot (fin x) (fin y) - fin 47 = fin (shankRadius x y) := rfl
  have hside : hypot (fin (shankRadius x y)) (fin z) = fin (shankReach x y z) := rfl
  have hlow : (g.set (fin x) (fin y) (fin z)).low = fin (lowAngle x y z) := by
    simp only [RobotGeometry.set, RobotGeometry.calculateGrad, hg.offset, hg.low, hg.high, hrrot,
      hside, acos_lift h]
    simp only [fin_lit, Rat.cast_zero, fin_div h.third.ne', fin_acos hleg.1, fin_asin hleg.2,
      fin_pi, fin_sub, fin_lt, lowAngle, direction]
    split <;> rfl
  refine ⟨hlow, ?_⟩
  show pi - acos _ + (g.set (fin x) (fin y) (fin z)).low = _
  simp only [hlow, hg.offset, hg.low, hg.high, hrrot, hside, acos_elbow h, fin_pi, fin_sub,
    fin_add, highAngle]

theorem calculateGrad_rot (h : 0 < radius x y) (g : RobotGeometry XReal) :
    (g.set (fin x) (fin y) (fin z)).rot = fin (Real.arcsin (x / radius x y)) := by
  have hle : |x| ≤ radius x y := Real.abs_le_sqrt (by linarith [sq_nonneg y])
  have harg : |x / radius x y| ≤ 1 := by
    rw [abs_div, abs_of_pos h]
    exact (div_le_one h).mpr hle
  show asin (fin x / fin (radius x y)) = _
  rw [fin_div h.ne', fin_asin harg]

/-! ## The tool -/

/-- Where the tool is for angles of the axes. -/
noncomputable def tool (rot low high : ℝ) : ℝ × ℝ × ℝ :=
  let r := outward 120 120 low high + 47
  (r * Real.sin rot, r * Real.cos rot, upward 120 120 low high)

/-- The same in the plane of the arm. -/
noncomputable def toolOutward (low high : ℝ) : ℝ := outward 120 120 low high + 47
noncomputable def toolUpward (low high : ℝ) : ℝ := upward 120 120 low high

/-- In front of the offset, or not above the shoulder. -/
def Clear (y z : ℝ) : Prop := 47 ≤ y ∨ z ≤ 0

/-- The radius of the end of the shanks for the computed angles. Above the shoulder the sign of the
radius is lost. -/
noncomputable def computedRadius (x y z : ℝ) : ℝ :=
  if 0 < z then |shankRadius x y| else shankRadius x y

theorem reach_mul_cos_direction (h : 0 < shankReach x y z) :
    shankReach x y z * Real.cos (direction x y z) = z := by
  have hleg := leg_div_le h
  have hz := abs_le.mp hleg.1
  have hcos : Real.cos (direction x y z) = z / shankReach x y z := by
    unfold direction
    split
    · exact Real.cos_arccos hz.1 hz.2
    · -- the side of the triangle is `-z` there
      have hrest : 1 - (shankRadius x y / shankReach x y z) ^ 2 = (z / shankReach x y z) ^ 2 := by
        have hsq := shankReach_sq x y z
        field_simp
        linarith
      have hneg : z / shankReach x y z ≤ 0 := div_nonpos_of_nonpos_of_nonneg (by linarith) h.le
      rw [Real.cos_pi_sub, Real.cos_arcsin, hrest, Real.sqrt_sq_eq_abs, abs_of_nonpos hneg,
        neg_neg]
  rw [hcos, mul_div_cancel₀ _ h.ne']

theorem reach_mul_sin_direction (h : 0 < shankReach x y z) :
    shankReach x y z * Real.sin (direction x y z) = computedRadius x y z := by
  have hleg := leg_div_le h
  have hr := abs_le.mp hleg.2
  unfold direction computedRadius
  split
  · have hrest : 1 - (z / shankReach x y z) ^ 2 = (shankRadius x y / shankReach x y z) ^ 2 := by
      have hsq := shankReach_sq x y z
      field_simp
      linarith
    rw [Real.sin_arccos, hrest, Real.sqrt_sq_eq_abs, abs_div, abs_of_pos h,
      mul_div_cancel₀ _ h.ne']
  · rw [Real.sin_pi_sub, Real.sin_arcsin hr.1 hr.2, mul_div_cancel₀ _ h.ne']

/-- The end of the shanks for the computed angles. -/
theorem shanks_end (h : Triangle 120 120 (shankReach x y z)) :
    outward 120 120 (lowAngle x y z) (highAngle x y z) = computedRadius x y z ∧
      upward 120 120 (lowAngle x y z) (highAngle x y z) = z :=
  ⟨(h.outward_eq _).trans (reach_mul_sin_direction h.third),
    (h.upward_eq _).trans (reach_mul_cos_direction h.third)⟩

/-- The limits of the angle between the shanks make a triangle. -/
theorem Allowed.triangle (h : Allowed x y z) : Triangle 120 120 (shankReach x y z) := by
  have hnonneg : 0 ≤ shankReach x y z := Real.sqrt_nonneg _
  have hnear := h.near
  have hfar := h.far
  refine ⟨by norm_num, by norm_num, ?_, ?_, ?_⟩
  · by_contra hle
    have hzero : shankReach x y z = 0 := le_antisymm (not_lt.mp hle) hnonneg
    rw [hzero] at hnear
    norm_num at hnear
  · by_contra hgt
    have : (240 : ℝ) ^ 2 < shankReach x y z ^ 2 :=
      pow_lt_pow_left₀ (by linarith) (by norm_num) two_ne_zero
    norm_num at this
    linarith
  · rw [sub_self, abs_zero]
    exact hnonneg

/-- The tool for the computed angles. -/
theorem tool_eq (h : Allowed x y z) :
    tool (Real.arcsin (x / radius x y)) (lowAngle x y z) (highAngle x y z) =
      ((computedRadius x y z + 47) * (x / radius x y),
        (computedRadius x y z + 47) * (|y| / radius x y), z) := by
  have hpos := h.off
  have hle := abs_le.mp (show |x| ≤ radius x y from Real.abs_le_sqrt (by linarith [sq_nonneg y]))
  have hsq : radius x y ^ 2 = x ^ 2 + y ^ 2 := Real.sq_sqrt (by positivity)
  have hrest : 1 - (x / radius x y) ^ 2 = (y / radius x y) ^ 2 := by
    field_simp
    linarith
  have hcos : Real.cos (Real.arcsin (x / radius x y)) = |y| / radius x y := by
    rw [Real.cos_arcsin, hrest, Real.sqrt_sq_eq_abs, abs_div, abs_of_pos hpos]
  have hsin : Real.sin (Real.arcsin (x / radius x y)) = x / radius x y :=
    Real.sin_arcsin (by rw [le_div_iff₀ hpos]; linarith) (by rw [div_le_one hpos]; linarith)
  obtain ⟨hout, hup⟩ := shanks_end h.triangle
  rw [tool, hout, hup, hsin, hcos]

/-- The radius is right in front of the offset, and below the shoulder. -/
theorem computedRadius_eq_iff :
    computedRadius x y z = shankRadius x y ↔ 47 ≤ radius x y ∨ z ≤ 0 := by
  unfold computedRadius
  split
  · rw [abs_eq_self, shankRadius, sub_nonneg]
    exact ⟨.inl, fun h => h.resolve_right (by linarith)⟩
  · exact iff_of_true rfl (.inr (by linarith))

/-- The tool is at the position exactly if the radius is right and the position is not behind the
axis. -/
theorem tool_eq_iff (h : Allowed x y z) :
    tool (Real.arcsin (x / radius x y)) (lowAngle x y z) (highAngle x y z) = (x, y, z) ↔
      0 ≤ y ∧ (47 ≤ radius x y ∨ z ≤ 0) := by
  have hpos := h.off
  have hsq : radius x y ^ 2 = x ^ 2 + y ^ 2 := Real.sq_sqrt (by positivity)
  rw [tool_eq h, ← computedRadius_eq_iff, Prod.mk.injEq, Prod.mk.injEq]
  set q := (computedRadius x y z + 47) / radius x y with hq
  have hx : (computedRadius x y z + 47) * (x / radius x y) = q * x := by rw [hq]; ring
  have hy : (computedRadius x y z + 47) * (|y| / radius x y) = q * |y| := by rw [hq]; ring
  have hone : q = 1 ↔ computedRadius x y z = shankRadius x y := by
    rw [hq, div_eq_one_iff_eq hpos.ne', shankRadius, eq_sub_iff_add_eq]
  rw [hx, hy, ← hone]
  constructor
  · rintro ⟨hqx, hqy, -⟩
    have hnonneg : 0 ≤ q := by
      rw [hq]
      refine div_nonneg ?_ hpos.le
      unfold computedRadius
      split
      · linarith [abs_nonneg (shankRadius x y)]
      · rw [shankRadius]
        linarith
    have hq1 : q ^ 2 = 1 := by
      have : q ^ 2 * radius x y ^ 2 = 1 * radius x y ^ 2 := by
        rw [hsq, one_mul, mul_add, ← sq_abs y, ← mul_pow, ← mul_pow, hqx, hqy, sq_abs]
      exact mul_right_cancel₀ (pow_ne_zero 2 hpos.ne') this
    have hq' : q = 1 := (pow_eq_one_iff_of_nonneg hnonneg two_ne_zero).mp hq1
    refine ⟨?_, hq'⟩
    rw [hq', one_mul] at hqy
    exact abs_eq_self.mp hqy
  · rintro ⟨hy0, hq1⟩
    rw [hq1, one_mul, one_mul, abs_of_nonneg hy0]
    exact ⟨rfl, rfl, rfl⟩

end Angles

/-- For every position that `isAllowedPosition` accepts, `calculateGrad` gives numbers for the three
angles. They put the tool at the position exactly if it is not behind the axis, and not above the
shoulder nearer to the axis than the offset of the tool. -/
theorem inverse_kinematics_iff (p : Point XReal)
    (h : Interpolation.isAllowedPosition p = true) :
    ∃ x y z rot low high : ℝ, p.xmm = fin x ∧ p.ymm = fin y ∧ p.zmm = fin z ∧
      (RobotGeometry.init.set p.xmm p.ymm p.zmm).rot = fin rot ∧
      (RobotGeometry.init.set p.xmm p.ymm p.zmm).low = fin low ∧
      (RobotGeometry.init.set p.xmm p.ymm p.zmm).high = fin high ∧
      (tool rot low high = (x, y, z) ↔ 0 ≤ y ∧ (47 ≤ radius x y ∨ z ≤ 0)) := by
  obtain ⟨x, y, z, hx, hy, hz, ha⟩ := (isAllowedPosition_iff p).mp h
  obtain ⟨hlow, hhigh⟩ := calculateGrad_shanks ha.triangle RobotGeometry.init_configured
  rw [hx, hy, hz]
  exact ⟨x, y, z, _, _, _, rfl, rfl, rfl, calculateGrad_rot ha.off _, hlow, hhigh, tool_eq_iff ha⟩

/-- `INITIAL_X`, `INITIAL_Y` and `INITIAL_Z`: the lower shank upright, the upper one level. -/
theorem initial_allowed : Allowed 0 167 120 := by
  have hradius : radius 0 167 = 167 := by
    rw [radius, show (0 : ℝ) ^ 2 + 167 ^ 2 = 167 ^ 2 by norm_num, Real.sqrt_sq (by norm_num)]
  have hreach : shankReach 0 167 120 ^ 2 = 28800 := by
    rw [shankReach_sq, shankRadius, hradius]
    norm_num
  refine ⟨by rw [hradius]; norm_num, ?_, ?_, by norm_num, by norm_num⟩
  · rw [hreach]
    norm_num
  · rw [hreach]
    norm_num

theorem inverse_kinematics_iff_initial :
    ∃ x y z rot low high : ℝ, (fin 0 : XReal) = fin x ∧ (fin 167 : XReal) = fin y ∧
      (fin 120 : XReal) = fin z ∧
      (RobotGeometry.init.set (fin 0) (fin 167) (fin 120)).rot = fin rot ∧
      (RobotGeometry.init.set (fin 0) (fin 167) (fin 120)).low = fin low ∧
      (RobotGeometry.init.set (fin 0) (fin 167) (fin 120)).high = fin high ∧
      (tool rot low high = (x, y, z) ↔ 0 ≤ y ∧ (47 ≤ radius x y ∨ z ≤ 0)) :=
  inverse_kinematics_iff ⟨fin 0, fin 167, fin 120, fin 0⟩
    ((isAllowedPosition_iff _).mpr ⟨0, 167, 120, rfl, rfl, rfl, initial_allowed⟩)

end Robotarm

end Robot
