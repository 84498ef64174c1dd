import ConstructionRobot.Apid.Ticks
import Mathlib.Algebra.BigOperators.Group.Finset.Basic
import Mathlib.Algebra.BigOperators.Intervals
import Mathlib.Algebra.Order.Archimedean.Basic
import Mathlib.Tactic.Linarith

/-!
# The anti-saturation integral (`i_handle_Position_Saturation`)

The handler looks at the integral that it finds: if `ki` times it is over the limit, the integral
becomes the limit, and else the error is added. So the limit is exceeded by the call that reaches
it, and the value that a later call stores is the limit of the contribution, not of the integral:
for `ki > 1` it is over the limit again, and every call stores it again.

* `saturate`: one call, as a function of the integral.
* `saturate_run_eq`: as long as the limit is not exceeded, the errors are added up.
* `saturate_leaves_iff`: when a constant error of the other sign takes the integral back.
* `integral_limited_iff`, `windup_released_iff`: the controller.
-/

namespace Robot

open Finset

/-! ## The limited sum -/

/-- The integral `x` after a call with `a = bias * cycle`. -/
def saturate (ki limit x a : ℚ) : ℚ :=
  if x * ki > limit then limit else if x * ki < -limit then -limit else x + a

section Sum

variable {ki limit : ℚ}

/-- Within the limit the error is added. -/
theorem saturate_within {x : ℚ} (h : |ki * x| ≤ limit) (a : ℚ) :
    saturate ki limit x a = x + a := by
  rw [abs_le, mul_comm] at h
  rw [saturate, if_neg (not_lt.mpr h.2), if_neg (not_lt.mpr h.1)]

/-- Over the limit the integral becomes the limit. -/
theorem saturate_over (hki : 0 < ki) (hlimit : 0 ≤ limit) {x : ℚ} (h : ¬ |ki * x| ≤ limit)
    (a : ℚ) : saturate ki limit x a = if 0 < x then limit else -limit := by
  rw [abs_le, not_and_or, not_le, not_le, mul_comm] at h
  unfold saturate
  by_cases hx : 0 < x
  · have hpos : 0 < x * ki := mul_pos hx hki
    rw [if_pos hx, if_pos (h.resolve_left fun hlt => by linarith)]
  · have hneg : x * ki ≤ 0 := mul_nonpos_of_nonpos_of_nonneg (not_lt.mp hx) hki.le
    rw [if_neg hx, if_neg (by linarith), if_pos (h.resolve_right fun hlt => by linarith)]

/-- The two directions are alike. -/
theorem saturate_neg (hlimit : 0 ≤ limit) (x a : ℚ) :
    saturate ki limit (-x) (-a) = -saturate ki limit x a := by
  unfold saturate
  by_cases h1 : x * ki > limit
  · rw [if_neg (by linarith), if_pos (by linarith), if_pos h1]
  · rw [if_neg h1]
    by_cases h2 : x * ki < -limit
    · rw [if_pos (by linarith), if_pos h2, neg_neg]
    · rw [if_neg (by linarith), if_neg (by linarith), if_neg h2]
      ring

/-- What `k + 1` calls add up to without the limit: from the integral `x` on, or from the limit, if
`x` is already over it and the first call stores the limit. -/
def plainSum (ki limit x : ℚ) (a : ℕ → ℚ) (k : ℕ) : ℚ :=
  if |ki * x| ≤ limit then x + ∑ i ∈ range (k + 1), a i
  else (if 0 < x then limit else -limit) + ∑ i ∈ range k, a (i + 1)

theorem plainSum_succ (x : ℚ) (a : ℕ → ℚ) (k : ℕ) :
    plainSum ki limit x a (k + 1) = plainSum ki limit x a k + a (k + 1) := by
  unfold plainSum
  split
  · rw [sum_range_succ _ (k + 1), add_assoc]
  · rw [sum_range_succ, add_assoc]

/-- As long as the plain sum is within the limit, it is the integral. -/
theorem saturate_run_eq (hki : 0 < ki) (hlimit : 0 ≤ limit) {x a : ℕ → ℚ}
    (hx : ∀ n, x (n + 1) = saturate ki limit (x n) (a n)) (k : ℕ)
    (h : ∀ j < k, |ki * plainSum ki limit (x 0) a j| ≤ limit) :
    x (k + 1) = plainSum ki limit (x 0) a k := by
  induction k with
  | zero =>
    rw [hx, plainSum]
    by_cases h0 : |ki * x 0| ≤ limit
    · rw [saturate_within h0, if_pos h0, zero_add, sum_range_one]
    · rw [saturate_over hki hlimit h0, if_neg h0, sum_range_zero, add_zero]
  | succ k ih =>
    have hk := ih fun j hj => h j (Nat.lt_succ_of_lt hj)
    have hle := h k (Nat.lt_succ_self k)
    rw [← hk] at hle
    rw [hx, saturate_within hle, hk, plainSum_succ]

/-- The integral stays within the limit exactly if the plain sum does. -/
theorem saturate_run_le_iff (hki : 0 < ki) (hlimit : 0 ≤ limit) {x a : ℕ → ℚ}
    (hx : ∀ n, x (n + 1) = saturate ki limit (x n) (a n)) (n : ℕ) :
    (∀ k < n, |ki * x (k + 1)| ≤ limit) ↔
      ∀ k < n, |ki * plainSum ki limit (x 0) a k| ≤ limit := by
  constructor
  · intro h k
    induction k using Nat.strong_induction_on with
    | _ k ih =>
      intro hk
      rw [← saturate_run_eq hki hlimit hx k fun j hj => ih j hj (hj.trans hk)]
      exact h k hk
  · intro h k hk
    rw [saturate_run_eq hki hlimit hx k fun j hj => h j (hj.trans hk)]
    exact h k hk

/-! ## The way back -/

/-- From within the limit, a constant negative error takes the integral below zero. -/
theorem saturate_leaves {x : ℕ → ℚ} {a : ℚ} (hki : 0 < ki)
    (hx : ∀ n, x (n + 1) = saturate ki limit (x n) a) (ha : a < 0) (h0 : ki * x 0 ≤ limit) :
    ∃ n, x n ≤ 0 := by
  by_contra hnone
  have hpos : ∀ n, 0 < x n := fun n => not_le.mp fun hle => hnone ⟨n, hle⟩
  -- the integral stays positive and within the limit, and falls by `a` in every call
  have hfall : ∀ n, x n = x 0 + n * a ∧ ki * x n ≤ limit := by
    intro n
    induction n with
    | zero => exact ⟨by simp, h0⟩
    | succ n ih =>
      obtain ⟨heq, hle⟩ := ih
      have hge : 0 < ki * x n := mul_pos hki (hpos n)
      have hstep : x (n + 1) = x n + a := by
        rw [hx, saturate_within (abs_le.mpr ⟨by linarith, hle⟩)]
      refine ⟨by rw [hstep, heq]; push_cast; ring, ?_⟩
      have hmul : ki * x (n + 1) ≤ ki * x n :=
        mul_le_mul_of_nonneg_left (by rw [hstep]; linarith) hki.le
      exact hmul.trans hle
  obtain ⟨n, hn⟩ := exists_nat_ge (x 0 / -a)
  have hbelow : x 0 ≤ n * -a := (div_le_iff₀ (by linarith)).mp hn
  have := hpos n
  rw [(hfall n).1] at this
  linarith

/-- A constant negative error takes a positive integral back exactly if it is within the limit, or
the limit itself is. -/
theorem saturate_leaves_iff {x : ℕ → ℚ} {a : ℚ} (hki : 0 < ki) (hlimit : 0 < limit)
    (hx : ∀ n, x (n + 1) = saturate ki limit (x n) a) (ha : a < 0) (h0 : 0 < x 0) :
    (∃ n, x n ≤ 0) ↔ ki ≤ 1 ∨ ki * x 0 ≤ limit := by
  constructor
  · rintro ⟨n, hn⟩
    by_contra hnot
    rw [not_or, not_le, not_le] at hnot
    obtain ⟨hone, hover⟩ := hnot
    have hagain : limit < limit * ki := by nlinarith
    -- every call stores the limit again
    have hstay : ∀ n, 0 < x n ∧ limit < x n * ki := by
      intro n
      induction n with
      | zero => exact ⟨h0, by rwa [mul_comm]⟩
      | succ n ih =>
        have hstep : x (n + 1) = limit := by rw [hx, saturate, if_pos ih.2]
        rw [hstep]
        exact ⟨hlimit, hagain⟩
    exact absurd hn (not_le.mpr (hstay n).1)
  · intro h
    by_cases hle : ki * x 0 ≤ limit
    · exact saturate_leaves hki hx ha hle
    · have hone := h.resolve_right hle
      have hfirst : x 1 = limit := by
        rw [hx, saturate, if_pos (by rw [mul_comm]; exact not_le.mp hle)]
      have hwithin : ki * x 1 ≤ limit := by
        rw [hfirst]
        nlinarith
      obtain ⟨n, hn⟩ :=
        saturate_leaves (x := fun n => x (n + 1)) hki (fun n => hx (n + 1)) ha hwithin
      exact ⟨n + 1, hn⟩

end Sum

/-! ## The controller -/

namespace Apid

variable {pid : Apid}

theorem runTicks_saturation (henabled : pid.flag.runStatus = .pidEnable)
    (hi : pid.iHandle = .positionSaturation) (ins : ℕ → TickIn) (n : ℕ) :
    (pid.runTicks ins (n + 1)).process.integralBias =
      saturate pid.parameter.ki pid.parameter.integralLimit
        (pid.runTicks ins n).process.integralBias (pid.bias (ins n) * (ins n).cycle) := by
  obtain ⟨-, hi', -, -, hki, -, -, -, hlimit, -, hbias⟩ :=
    config_congr (runTicks_config henabled ins n)
  rw [runTicks, tickIn_integralBias (runTicks_enabled henabled ins n), hi', hi]
  simp only [IHandle.run, iHandlePositionSaturation, before, saturate, hki, hlimit, hbias]
  split
  · rfl
  · split <;> rfl

/-- `APID_Set_Integral_Limit` changes the limit, and the way of the integral. -/
theorem apidSetIntegralLimit_frame (limit : ℚ) (pid : Apid) :
    (apidSetIntegralLimit limit pid).flag.runStatus = pid.flag.runStatus ∧
      (apidSetIntegralLimit limit pid).parameter.ki = pid.parameter.ki ∧
      (apidSetIntegralLimit limit pid).parameter.integralLimit = limit ∧
      (apidSetIntegralLimit limit pid).process = pid.process ∧
      (apidSetIntegralLimit limit pid).bias = pid.bias := by
  unfold apidSetIntegralLimit
  split
  · exact ⟨rfl, rfl, rfl, rfl, rfl⟩
  · exact ⟨rfl, rfl, rfl, rfl, rfl⟩

end Apid

open Apid

/-- A `PID_POSITION` controller that `APID_Set_Integral_Limit` has put in the anti-saturation mode
with the limit `limit`, any state of it and any calls: after every call the contribution of the
integral is within the limit exactly if the controller does not run (and has no integral), or the
plain sum of the errors never is over it. -/
theorem integral_limited_iff (pid₀ : Apid) (limit : ℚ) (hlimit : 0 ≤ limit)
    (hki : 0 < pid₀.parameter.ki)
    (hmode : (apidSetIntegralLimit limit pid₀).iHandle = .positionSaturation)
    (ins : ℕ → TickIn) (n : ℕ) :
    (∀ k < n, |pid₀.parameter.ki *
        ((apidSetIntegralLimit limit pid₀).runTicks ins (k + 1)).process.integralBias| ≤ limit) ↔
      pid₀.flag.runStatus ≠ .pidEnable ∨
        ∀ k < n, |pid₀.parameter.ki * plainSum pid₀.parameter.ki limit pid₀.process.integralBias
          (fun j => pid₀.bias (ins j) * (ins j).cycle) k| ≤ limit := by
  obtain ⟨hrun, hki', hlimit', hproc, hbias⟩ := apidSetIntegralLimit_frame limit pid₀
  by_cases henabled : pid₀.flag.runStatus = .pidEnable
  swap
  · refine iff_of_true (fun k _ => ?_) (.inl henabled)
    rw [(runTicks_idle (hrun ▸ henabled) ins k).2, mul_zero, abs_zero]
    exact hlimit
  rw [or_iff_right (not_not.mpr henabled)]
  have hstep := runTicks_saturation (hrun.trans henabled) hmode ins
  rw [hki', hlimit', hbias] at hstep
  have hiff := saturate_run_le_iff
    (x := fun k => ((apidSetIntegralLimit limit pid₀).runTicks ins k).process.integralBias)
    (a := fun j => pid₀.bias (ins j) * (ins j).cycle) hki hlimit hstep n
  rwa [runTicks, hproc] at hiff

/-- A controller from `APID_Init` with the limit 1 on its integral. -/
def limitedPid (ki : ℚ) : Apid := apidSetIntegralLimit 1 (apidInit .zero .position 0 ki 0)

/-- Calls with the error `e` and a cycle of 1. -/
def errorIns (e : ℚ) : ℕ → TickIn := fun _ => ⟨e, 0, 1⟩

/-- Two errors that add up to the limit. -/
theorem integral_limited_iff_half :
    (∀ k < 2, |1 * ((limitedPid 1).runTicks (errorIns (1 / 2)) (k + 1)).process.integralBias| ≤ 1) ↔
      (apidInit .zero .position 0 1 0).flag.runStatus ≠ .pidEnable ∨
        ∀ k < 2, |1 * plainSum 1 1 0 (fun j =>
          (apidInit .zero .position 0 1 0).bias (errorIns (1 / 2) j) * 1) k| ≤ 1 :=
  integral_limited_iff (apidInit .zero .position 0 1 0) 1 (by decide) (by decide) rfl
    (errorIns (1 / 2)) 2

/-- The error 10 with `ki = 1` and the limit 1: the first call leaves the contribution 10. With
`ki = 2` the second call stores the limit, and leaves the contribution 2. -/
theorem integral_over_limit :
    (limitedPid 1).iHandle = .positionSaturation ∧
      ¬ |1 * ((limitedPid 1).runTicks (errorIns 10) 1).process.integralBias| ≤ 1 ∧
      (limitedPid 2).iHandle = .positionSaturation ∧
      ¬ |2 * ((limitedPid 2).runTicks (errorIns 10) 2).process.integralBias| ≤ 1 := by
  have h1 : ((limitedPid 1).runTicks (errorIns 10) 1).process.integralBias = 10 := by
    decide +kernel
  have h2 : ((limitedPid 2).runTicks (errorIns 10) 2).process.integralBias = 1 := by
    decide +kernel
  rw [h1, h2]
  exact ⟨rfl, by norm_num, rfl, by norm_num⟩

/-- A `PID_POSITION` controller in the anti-saturation mode, in any state, when the error is
constant from now on: a positive integral gets down to zero under a negative error exactly if the
controller does not run, or `ki` is at most 1, or the contribution of the integral is within the
limit, and a negative one gets up to zero under a positive error exactly if the same holds. -/
theorem windup_released_iff (pid : Apid) (hmode : pid.iHandle = .positionSaturation)
    (hki : 0 < pid.parameter.ki)
    (hlimit : 0 < pid.parameter.integralLimit) {b cycle : ℚ} (hcycle : 0 < cycle)
    (ins : ℕ → TickIn) (hins : ∀ n, pid.bias (ins n) = b ∧ (ins n).cycle = cycle) :
    (0 < pid.process.integralBias → b < 0 →
      ((∃ n, (pid.runTicks ins n).process.integralBias ≤ 0) ↔
        pid.flag.runStatus ≠ .pidEnable ∨ pid.parameter.ki ≤ 1 ∨
          pid.parameter.ki * pid.process.integralBias ≤ pid.parameter.integralLimit)) ∧
    (pid.process.integralBias < 0 → 0 < b →
      ((∃ n, 0 ≤ (pid.runTicks ins n).process.integralBias) ↔
        pid.flag.runStatus ≠ .pidEnable ∨ pid.parameter.ki ≤ 1 ∨
          -pid.parameter.integralLimit ≤ pid.parameter.ki * pid.process.integralBias)) := by
  by_cases henabled : pid.flag.runStatus = .pidEnable
  swap
  · have hclear := (runTicks_idle henabled ins 0).2
    exact ⟨fun _ _ => iff_of_true ⟨1, hclear.le⟩ (.inl henabled),
      fun _ _ => iff_of_true ⟨1, hclear.ge⟩ (.inl henabled)⟩
  rw [or_iff_right (not_not.mpr henabled), or_iff_right (not_not.mpr henabled)]
  have hstep (n : ℕ) : (pid.runTicks ins (n + 1)).process.integralBias =
      saturate pid.parameter.ki pid.parameter.integralLimit
        (pid.runTicks ins n).process.integralBias (b * cycle) := by
    rw [runTicks_saturation henabled hmode, (hins n).1, (hins n).2]
  constructor
  · intro hpos hb
    exact saturate_leaves_iff hki hlimit hstep (mul_neg_of_neg_of_pos hb hcycle) hpos
  · intro hneg hb
    -- the same for the negated integral
    have hstep' (n : ℕ) : -(pid.runTicks ins (n + 1)).process.integralBias =
        saturate pid.parameter.ki pid.parameter.integralLimit
          (-(pid.runTicks ins n).process.integralBias) (-(b * cycle)) := by
      rw [hstep, saturate_neg hlimit.le]
    have hiff := saturate_leaves_iff (x := fun n => -(pid.runTicks ins n).process.integralBias)
      hki hlimit hstep' (by have := mul_pos hb hcycle; linarith)
      (by simpa [runTicks] using hneg)
    simp only [runTicks, neg_nonpos, mul_neg] at hiff
    rw [hiff, neg_le]

/-- With `ki = 1 / 2` and an integral of 10, the error -1 takes it back. -/
theorem windup_released_iff_half :
    ∃ n, (((limitedPid (1 / 2)).runTicks (errorIns 10) 1).runTicks
      (errorIns (-1)) n).process.integralBias ≤ 0 := by
  have hbias : ((limitedPid (1 / 2)).runTicks (errorIns 10) 1).bias ⟨-1, 0, 1⟩ = -1 := by
    decide +kernel
  have h := windup_released_iff ((limitedPid (1 / 2)).runTicks (errorIns 10) 1)
    (by decide +kernel) (by decide +kernel) (by decide +kernel)
    (show (0 : ℚ) < 1 by decide) (errorIns (-1)) (fun _ => ⟨hbias, rfl⟩)
  exact (h.1 (by decide +kernel) (by decide)).mpr (.inr (.inl (by decide +kernel)))

/-- With `ki = 2` and an integral of 1, the error -1 changes nothing. -/
theorem windup_latched :
    let pid := (limitedPid 2).runTicks (errorIns 1) 1
    0 < pid.process.integralBias ∧
      ∀ n, 0 < (pid.runTicks (errorIns (-1)) n).process.integralBias := by
  intro pid
  have hpos : 0 < pid.process.integralBias := by decide +kernel
  have hstep (n : ℕ) : (pid.runTicks (errorIns (-1)) (n + 1)).process.integralBias =
      saturate 2 1 (pid.runTicks (errorIns (-1)) n).process.integralBias (-1) := by
    have hki : pid.parameter.ki = 2 := by decide +kernel
    have hlimit : pid.parameter.integralLimit = 1 := by decide +kernel
    have hbias : pid.bias ⟨-1, 0, 1⟩ * 1 = -1 := by decide +kernel
    rw [runTicks_saturation (by decide +kernel) (by decide +kernel), hki, hlimit, errorIns, hbias]
  have hiff := saturate_leaves_iff
    (x := fun n => (pid.runTicks (errorIns (-1)) n).process.integralBias)
    (show (0 : ℚ) < 2 by decide) (show (0 : ℚ) < 1 by decide) hstep
    (show (-1 : ℚ) < 0 by decide) hpos
  exact ⟨hpos, fun n => not_le.mp fun hn => absurd (hiff.mp ⟨n, hn⟩) (by decide +kernel)⟩

end Robot
