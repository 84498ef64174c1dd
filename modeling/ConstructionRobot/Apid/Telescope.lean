import ConstructionRobot.Apid.Coherence
import Mathlib.Algebra.BigOperators.Intervals
import Mathlib.Algebra.BigOperators.Ring.Finset
import Mathlib.Algebra.Order.Field.Rat
import Mathlib.Tactic.Ring

/-!
# The incremental and the positional form (`apid.c`, `apid.h`)

`apid.h` documents the two forms of a controller: `incrementForm` and `positionForm`. The outputs of
the first one add up to the second one (`sum_incrementForm`).

The code differs from both. `__PID_Out` weights the error itself with `kp`, also in a `PID_INCREMENT`
controller, where it should be the change of the error. `i_handle_Position_Normal` adds the error
twice.

* `Apid.After`: a controller after `n` ticks from `APID_Init`.
* `increment_sum`, `position_sum`: its output in closed form, as the documented one and what the code
  adds to it.
* `sum_increment_eq_position_iff`: when the outputs of the code add up.
-/

namespace Robot

open Finset

/-- The errors one tick before; no error before the first tick. -/
def past (e : ℕ → ℚ) : ℕ → ℚ
  | 0 => 0
  | n + 1 => e n

/-! ## The documented forms -/

/-- `P: e(k) - e(k-1)`, `I: e(k)`, `D: e(k) - 2 e(k-1) + e(k-2)`. -/
def incrementForm (kp ki kd : ℚ) (e : ℕ → ℚ) (k : ℕ) : ℚ :=
  kp * (e k - past e k) + ki * e k + kd * (e k - 2 * past e k + past (past e) k)

/-- `P: e(k)`, `I: e(0) + .. + e(k)`, `D: e(k) - e(k-1)`. -/
def positionForm (kp ki kd : ℚ) (e : ℕ → ℚ) (k : ℕ) : ℚ :=
  kp * e k + ki * ∑ i ∈ range (k + 1), e i + kd * (e k - past e k)

theorem sum_past (e : ℕ → ℚ) (k : ℕ) : ∑ j ∈ range (k + 1), past e j = ∑ j ∈ range k, e j := by
  rw [sum_range_succ']
  simp [past]

/-- The incremental form adds up to the positional one. -/
theorem sum_incrementForm (kp ki kd : ℚ) (e : ℕ → ℚ) (k : ℕ) :
    ∑ j ∈ range (k + 1), incrementForm kp ki kd e j = positionForm kp ki kd e k := by
  induction k with
  | zero => simp [incrementForm, positionForm, past]
  | succ k ih =>
    rw [sum_range_succ, ih]
    simp only [incrementForm, positionForm, past]
    rw [sum_range_succ e (k + 1)]
    ring

/-! ## Ticks of the code -/

namespace Apid

variable {mode : PidMode} {kp ki kd : ℚ} {e target present : ℕ → ℚ} {n : ℕ}
  {pid₀ pid : Apid}

/-- The controller after `n` ticks with a cycle of 1. -/
def ticks (pid : Apid) (target present : ℕ → ℚ) : ℕ → Apid
  | 0 => pid
  | n + 1 => (pid.ticks target present n).tick (target n) (present n) 1

/-- Neither the target limit nor the output limit cuts anything in the next tick. -/
def Unlimited (pid : Apid) (target present : ℚ) : Prop :=
  (-pid.parameter.targetLimit ≤ target ∧ target ≤ pid.parameter.targetLimit) ∧
    -pid.parameter.outLimit ≤ (pid.terms target present 1).sum ∧
    (pid.terms target present 1).sum ≤ pid.parameter.outLimit

/-- A controller that was initialised and had the errors `e` in `n` ticks. -/
structure After (pid pid₀ : Apid) (mode : PidMode) (kp ki kd : ℚ) (e : ℕ → ℚ) (n : ℕ) : Prop where
  config : pid.config = (apidInit pid₀ mode kp ki kd).config
  lastBias : pid.process.lastBias = past e n
  lastlastBias : pid.process.lastlastBias = past (past e) n
  /-- The handler of the positional form adds every error twice. -/
  integral : mode = .position → pid.process.integralBias = 2 * ∑ j ∈ range n, e j

theorem after_init : (apidInit pid₀ mode kp ki kd).After pid₀ mode kp ki kd e 0 := by
  cases mode <;> exact ⟨rfl, rfl, rfl, by simp [apidInit, apidReset]⟩

namespace After

theorem enabled (h : pid.After pid₀ mode kp ki kd e n) : pid.flag.runStatus = .pidEnable := by
  have hc := congrArg (·.flag.runStatus) h.config
  cases mode <;> exact hc

theorem handles (h : pid.After pid₀ mode kp ki kd e n) :
    pid.iHandle = integralHandler mode .normal ∧ pid.dHandle = differentialHandler mode .complete := by
  have hi := congrArg Apid.iHandle h.config
  have hd := congrArg Apid.dHandle h.config
  cases mode <;> exact ⟨hi, hd⟩

theorem parameter (h : pid.After pid₀ mode kp ki kd e n) :
    pid.parameter.kp = kp ∧ pid.parameter.ki = ki ∧ pid.parameter.kd = kd ∧
      pid.parameter.kf = 0 ∧ pid.parameter.kPre = 0 ∧ pid.parameter.biasDeadZone = -1 ∧
      pid.parameter.biasLimit = -1 := by
  have hp := congrArg Apid.parameter h.config
  rw [show (apidInit pid₀ mode kp ki kd).config.parameter =
    (apidInit pid₀ .position kp ki kd).config.parameter by cases mode <;> rfl] at hp
  simp only [Apid.config, apidInit, apidReset, PidParameter.mk.injEq] at hp
  simp only [hp, and_self]

/-- The error of a tick whose target is not cut. -/
theorem error_eq (h : pid.After pid₀ mode kp ki kd e n) {target present : ℚ}
    (hle : -pid.parameter.targetLimit ≤ target ∧ target ≤ pid.parameter.targetLimit) :
    pid.error target present = target - present := by
  obtain ⟨-, -, -, -, -, hdead, hbias⟩ := h.parameter
  have hcut : pid.cutTarget target = target := by
    rw [cutTarget, if_neg (not_lt.mpr hle.2), if_neg (not_lt.mpr hle.1)]
  have hoff : ¬(-1 : ℚ) > 0 := by decide
  simp only [error, hcut, limitBias, deadZone, hdead, hbias, if_neg hoff]

/-- The terms of a `PID_INCREMENT` controller. -/
theorem increment_terms (h : pid.After pid₀ .increment kp ki kd e n) {target present : ℚ}
    (hle : -pid.parameter.targetLimit ≤ target ∧ target ≤ pid.parameter.targetLimit) :
    pid.terms target present 1 =
      ((pid.prepared target present 1).setIntegral (target - present)).setDifferential
        (target - present - 2 * past e n + past (past e) n) := by
  obtain ⟨-, -, -, hkf, hkPre, -, -⟩ := h.parameter
  obtain ⟨hi, hd⟩ := h.handles
  rw [terms_eq hkf hkPre]
  simp only [prepared, hi, hd, integralHandler, differentialHandler, IHandle.run, DHandle.run,
    iHandleIncrementNormal, dHandleIncrementComplete, setIntegral, setDifferential,
    h.error_eq hle, h.lastBias, h.lastlastBias, mul_one]

/-- The terms of a `PID_POSITION` controller. -/
theorem position_terms (h : pid.After pid₀ .position kp ki kd e n) {target present : ℚ}
    (hle : -pid.parameter.targetLimit ≤ target ∧ target ≤ pid.parameter.targetLimit) :
    pid.terms target present 1 =
      ((pid.prepared target present 1).setIntegral
        (2 * ∑ j ∈ range n, e j + (target - present) + (target - present))).setDifferential
        (target - present - past e n) := by
  obtain ⟨-, -, -, hkf, hkPre, -, -⟩ := h.parameter
  obtain ⟨hi, hd⟩ := h.handles
  rw [terms_eq hkf hkPre]
  simp only [prepared, hi, hd, integralHandler, differentialHandler, IHandle.run, DHandle.run,
    iHandlePositionNormal, dHandlePositionComplete, setIntegral, setDifferential,
    h.error_eq hle, h.lastBias, h.integral, mul_one]

/-- One more tick. -/
theorem succ (h : pid.After pid₀ mode kp ki kd e n) {target present : ℚ}
    (hle : -pid.parameter.targetLimit ≤ target ∧ target ≤ pid.parameter.targetLimit)
    (he : target - present = e n) :
    (pid.tick target present 1).After pid₀ mode kp ki kd e (n + 1) := by
  obtain ⟨-, -, -, hkf, hkPre, -, -⟩ := h.parameter
  have henabled := h.enabled
  refine ⟨(tick_config henabled hkf hkPre target present 1).trans h.config, ?_, ?_, ?_⟩
  · rw [tick_eq_terms henabled, terms_eq hkf hkPre]
    dsimp only
    rw [iHandle_run_eq, dHandle_run_eq]
    simpa [pidOut, setIntegral, setDifferential, prepared, h.error_eq hle, past] using he
  · rw [tick_eq_terms henabled, terms_eq hkf hkPre]
    dsimp only
    rw [iHandle_run_eq, dHandle_run_eq]
    simpa [pidOut, setIntegral, setDifferential, prepared, past] using h.lastBias
  · rintro rfl
    rw [tick_eq_terms henabled, h.position_terms hle, sum_range_succ, he]
    simp only [pidOut, setIntegral, setDifferential]
    ring

/-- The output of a `PID_INCREMENT` controller: the documented form, and `kp` times the last error
too much. -/
theorem increment_sum (h : pid.After pid₀ .increment kp ki kd e n) {target present : ℚ}
    (hle : -pid.parameter.targetLimit ≤ target ∧ target ≤ pid.parameter.targetLimit)
    (he : target - present = e n) :
    (pid.terms target present 1).sum = incrementForm kp ki kd e n + kp * past e n := by
  obtain ⟨hkp, hki, hkd, -⟩ := h.parameter
  rw [h.increment_terms hle, he]
  simp only [sum, setIntegral, setDifferential, prepared, h.error_eq hle, he, hkp, hki, hkd,
    incrementForm]
  ring

/-- The output of a `PID_POSITION` controller: the documented form, and the integral once too
much. -/
theorem position_sum (h : pid.After pid₀ .position kp ki kd e n) {target present : ℚ}
    (hle : -pid.parameter.targetLimit ≤ target ∧ target ≤ pid.parameter.targetLimit)
    (he : target - present = e n) :
    (pid.terms target present 1).sum =
      positionForm kp ki kd e n + ki * ∑ j ∈ range (n + 1), e j := by
  obtain ⟨hkp, hki, hkd, -⟩ := h.parameter
  rw [h.position_terms hle, he]
  simp only [sum, setIntegral, setDifferential, prepared, h.error_eq hle, he, hkp, hki, hkd,
    positionForm, sum_range_succ]
  ring

end After

/-- A tick that no limit cuts gives the sum of the terms. -/
theorem Unlimited.tick_out {target present : ℚ} (h : pid.Unlimited target present)
    (henabled : pid.flag.runStatus = .pidEnable) :
    apidGetOut (pid.tick target present 1) = (pid.terms target present 1).sum := by
  obtain ⟨-, hlow, hhigh⟩ := h
  rw [tick_out_enabled henabled, limitOut, terms_outLimit, if_neg (not_lt.mpr hhigh),
    if_neg (not_lt.mpr hlow), ite_self]

/-- A run of ticks whose targets are not cut. -/
theorem after_ticks (hle : ∀ j < n,
      ((apidInit pid₀ mode kp ki kd).ticks target present j).Unlimited (target j) (present j)) :
    ((apidInit pid₀ mode kp ki kd).ticks target present n).After pid₀ mode kp ki kd
      (fun j => target j - present j) n := by
  induction n with
  | zero => exact after_init
  | succ n ih =>
    have h := ih fun j hj => hle j (Nat.lt_succ_of_lt hj)
    exact h.succ (hle n (Nat.lt_succ_self n)).1 rfl

end Apid

open Apid

/-- For all gains, every run of ticks with cycle 1 of two controllers from `APID_Init`, one of each
mode, with the same targets and feedback and no limit that cuts: the outputs of the `PID_INCREMENT`
controller for the ticks up to `k` add up to the output of the `PID_POSITION` controller at tick `k`
exactly if `kp` times the sum of the errors before `k` is `ki` times the sum of the errors up to
`k`. -/
theorem sum_increment_eq_position_iff (pid₁ pid₂ : Apid) (kp ki kd : ℚ) (target present : ℕ → ℚ)
    (k : ℕ)
    (hinc : ∀ j ≤ k, ((apidInit pid₁ .increment kp ki kd).ticks target present j).Unlimited
      (target j) (present j))
    (hpos : ∀ j ≤ k, ((apidInit pid₂ .position kp ki kd).ticks target present j).Unlimited
      (target j) (present j)) :
    ∑ j ∈ range (k + 1),
        apidGetOut ((apidInit pid₁ .increment kp ki kd).ticks target present (j + 1)) =
      apidGetOut ((apidInit pid₂ .position kp ki kd).ticks target present (k + 1)) ↔
    kp * ∑ j ∈ range k, (target j - present j) =
      ki * ∑ j ∈ range (k + 1), (target j - present j) := by
  have hout : ∀ j ∈ range (k + 1),
      apidGetOut ((apidInit pid₁ .increment kp ki kd).ticks target present (j + 1)) =
        incrementForm kp ki kd (fun j => target j - present j) j +
          kp * past (fun j => target j - present j) j := by
    intro j hj
    have hj := Nat.lt_succ_iff.mp (mem_range.mp hj)
    have hafter := after_ticks fun i hi => hinc i (hi.le.trans hj)
    rw [ticks, (hinc j hj).tick_out hafter.enabled, hafter.increment_sum (hinc j hj).1 rfl]
  have hafter := after_ticks fun i hi => hpos i hi.le
  rw [sum_congr rfl hout, sum_add_distrib, sum_incrementForm, ← mul_sum, sum_past, ticks,
    (hpos k le_rfl).tick_out hafter.enabled, hafter.position_sum (hpos k le_rfl).1 rfl,
    add_right_inj]

/-- With `kp = 2`, `ki = 1` and the error 1 in two ticks, the outputs add up. -/
theorem sum_increment_eq_position_iff_two :
    ∑ j ∈ range 2,
        apidGetOut ((apidInit Apid.zero .increment 2 1 0).ticks (fun _ => 1) (fun _ => 0) (j + 1)) =
      apidGetOut ((apidInit Apid.zero .position 2 1 0).ticks (fun _ => 1) (fun _ => 0) 2) := by
  refine (sum_increment_eq_position_iff Apid.zero Apid.zero 2 1 0 (fun _ => 1) (fun _ => 0) 1
    ?_ ?_).mpr (by decide +kernel)
  · unfold Unlimited
    decide +kernel
  · unfold Unlimited
    decide +kernel

/-- With `kp = 1`, no other gain and the error 1 in two ticks, the `PID_INCREMENT` controller gives
1 twice and the `PID_POSITION` controller gives 1. -/
theorem sum_increment_ne_position :
    ∑ j ∈ range 2,
        apidGetOut ((apidInit Apid.zero .increment 1 0 0).ticks (fun _ => 1) (fun _ => 0) (j + 1)) ≠
      apidGetOut ((apidInit Apid.zero .position 1 0 0).ticks (fun _ => 1) (fun _ => 0) 2) ∧
    (∀ j ≤ 1, ((apidInit Apid.zero .increment 1 0 0).ticks (fun _ => 1) (fun _ => 0) j).Unlimited
      1 0) ∧
    ∀ j ≤ 1, ((apidInit Apid.zero .position 1 0 0).ticks (fun _ => 1) (fun _ => 0) j).Unlimited
      1 0 := by
  refine ⟨by decide +kernel, ?_, ?_⟩
  · unfold Unlimited
    decide +kernel
  · unfold Unlimited
    decide +kernel

end Robot
