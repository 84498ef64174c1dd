import ConstructionRobot.Apid.Telescope
import ConstructionRobot.Apid.Ticks
import Mathlib.Algebra.BigOperators.Field
import Mathlib.Tactic.LinearCombination

/-!
# The documented sum of a positional controller (`apid.c`, `apid.h`)

A `PID_POSITION` controller with the complete derivative, over any number of calls with the cycle
`h`. Three of the ways to integrate have a sum that says what they should give: the errors times
`h`, those of them up to `bias_for_integral`, or the means of neighbouring errors times `h`.

`i_handle_Position_Normal` adds the error twice, and `i_handle_Position_Trapeziod` divides by `h`
where it should multiply.

* `SumWay.documented`, `SumWay.added`: what a call should add to the integral, and what it adds.
* `Apid.SumsUp`: a controller after `n` calls.
* `documented_sum_iff`: when the output is the documented one.
-/

namespace Robot

open Finset

/-- A way to integrate that has a documented sum; `bound` is `bias_for_integral`. -/
inductive SumWay where
  | normal
  | separation (bound : ℚ)
  | trapeziod
  deriving DecidableEq, Repr

namespace SumWay

/-- The call that selects the way. -/
def select : SumWay → Apid → Apid
  | normal, pid => apidSetIFunction pid .normal 0
  | separation bound, pid => apidSetIFunction pid .separation bound
  | trapeziod, pid => apidSetIFunction pid .trapeziod 0

/-- What call `i` should add. -/
def documented (h : ℚ) (e : ℕ → ℚ) (i : ℕ) : SumWay → ℚ
  | normal => e i * h
  | separation bound => if |e i| ≤ bound then e i * h else 0
  | trapeziod => (e i + past e i) * h / 2

/-- What call `i` adds. -/
def added (h : ℚ) (e : ℕ → ℚ) (i : ℕ) : SumWay → ℚ
  | normal => 2 * (e i * h)
  | separation bound => if |e i| ≤ bound then e i * h else 0
  | trapeziod => (e i + past e i) / (2 * h)

/-- When the two agree after call `k`. -/
def Agrees (ki h : ℚ) (e : ℕ → ℚ) (k : ℕ) : SumWay → Prop
  | normal => ki * ∑ i ∈ range (k + 1), e i = 0
  | separation _ => True
  | trapeziod => h = 1 ∨ ki * ∑ i ∈ range (k + 1), (e i + past e i) = 0

theorem sum_added_eq_iff {ki h : ℚ} (hh : 0 < h) (e : ℕ → ℚ) (k : ℕ) (way : SumWay) :
    ki * ∑ i ∈ range (k + 1), way.added h e i =
      ki * ∑ i ∈ range (k + 1), way.documented h e i ↔ way.Agrees ki h e k := by
  cases way with
  | normal =>
    simp only [added, documented, Agrees, ← mul_sum, ← sum_mul]
    constructor
    · intro heq
      have hprod : (ki * ∑ i ∈ range (k + 1), e i) * h = 0 := by linarith
      exact (mul_eq_zero.mp hprod).resolve_right hh.ne'
    · intro hzero
      linear_combination h * hzero
  | separation bound => simp only [added, documented, Agrees]
  | trapeziod =>
    simp only [added, documented, Agrees, ← sum_div, ← sum_mul]
    generalize ∑ i ∈ range (k + 1), (e i + past e i) = s
    rw [mul_div_assoc', mul_div_assoc', div_eq_div_iff (by linarith) (by norm_num)]
    constructor
    · intro heq
      have hprod : (h - 1) * ((h + 1) * (ki * s)) = 0 := by linarith
      rcases mul_eq_zero.mp hprod with hone | hrest
      · exact .inl (by linarith)
      · exact .inr ((mul_eq_zero.mp hrest).resolve_left (by linarith))
    · rintro (rfl | hzero)
      · ring
      · linear_combination (2 - 2 * h ^ 2) * hzero

end SumWay

/-! ## Runs -/

namespace Apid

variable {way : SumWay} {kp ki kd h : ℚ} {e : ℕ → ℚ} {n : ℕ} {pid₀ pid : Apid}

/-- Neither the target limit nor the output limit cuts anything in the next call. -/
def Uncut (pid : Apid) (i : TickIn) : Prop :=
  (-pid.parameter.targetLimit ≤ i.target ∧ i.target ≤ pid.parameter.targetLimit) ∧
    -pid.parameter.outLimit ≤ (pid.terms i.target i.present i.cycle).sum ∧
    (pid.terms i.target i.present i.cycle).sum ≤ pid.parameter.outLimit

/-- A `PID_POSITION` controller from `APID_Init` that integrates in a way. -/
def summing (way : SumWay) (pid₀ : Apid) (kp ki kd : ℚ) : Apid :=
  way.select (apidInit pid₀ .position kp ki kd)

/-- Such a controller after `n` calls with the errors `e`. -/
structure SumsUp (pid pid₀ : Apid) (way : SumWay) (kp ki kd h : ℚ) (e : ℕ → ℚ) (n : ℕ) :
    Prop where
  config : pid.config = (summing way pid₀ kp ki kd).config
  lastBias : pid.process.lastBias = past e n
  integral : pid.process.integralBias = ∑ i ∈ range n, way.added h e i

theorem summing_sumsUp : (summing way pid₀ kp ki kd).SumsUp pid₀ way kp ki kd h e 0 := by
  cases way <;> exact ⟨rfl, rfl, rfl⟩

namespace SumsUp

theorem enabled (hs : pid.SumsUp pid₀ way kp ki kd h e n) : pid.flag.runStatus = .pidEnable := by
  rw [(config_congr hs.config).1]
  cases way <;> rfl

/-- The error of a call whose target is not cut. -/
theorem bias_eq (hs : pid.SumsUp pid₀ way kp ki kd h e n) {i : TickIn} (hi : pid.Uncut i) :
    pid.bias i = i.target - i.present := by
  have hlimit : pid.config.parameter = (summing way pid₀ kp ki kd).config.parameter :=
    congrArg Apid.parameter hs.config
  have hparam : pid.parameter.biasDeadZone = -1 ∧ pid.parameter.biasLimit = -1 ∧
      pid.parameter.kPre = 0 := by
    cases way <;>
      exact ⟨congrArg PidParameter.biasDeadZone hlimit, congrArg PidParameter.biasLimit hlimit,
        congrArg PidParameter.kPre hlimit⟩
  have hcut : pid.cutTarget i.target = i.target := by
    rw [cutTarget, if_neg (not_lt.mpr hi.1.2), if_neg (not_lt.mpr hi.1.1)]
  have hoff : ¬(-1 : ℚ) > 0 := by decide
  simp only [bias, hcut, limitBias, deadZone, hparam, if_neg hoff, zero_mul, sub_zero]

/-- What the handler adds in a call. -/
theorem handler_adds (hs : pid.SumsUp pid₀ way kp ki kd h e n) {i : TickIn}
    (hbias : pid.bias i = e n) (hcycle : i.cycle = h) :
    (pid.iHandle.run (pid.before i)).process.integralBias =
      pid.process.integralBias + way.added h e n := by
  obtain ⟨-, hi, -, -, -, -, -, hbound, -⟩ := config_congr hs.config
  rw [hi]
  cases way with
  | normal =>
    show pid.process.integralBias + pid.bias i * i.cycle + pid.bias i * i.cycle = _
    rw [hbias, hcycle, SumWay.added]
    ring
  | separation bound =>
    have hbound' : pid.parameter.biasForIntegral = bound := hbound
    show (iHandlePositionSeparation (pid.before i)).process.integralBias = _
    simp only [iHandlePositionSeparation, before, hbias, hcycle, hbound', SumWay.added]
    by_cases hle : |e n| ≤ bound
    · have hle' := abs_le.mp hle
      rw [if_neg (not_or.mpr ⟨not_lt.mpr hle'.2, not_lt.mpr hle'.1⟩), if_pos hle]
      rfl
    · rw [if_neg hle, if_pos, add_zero]
      by_contra hnot
      rw [not_or, not_lt, not_lt] at hnot
      exact hle (abs_le.mpr ⟨hnot.2, hnot.1⟩)
  | trapeziod =>
    show pid.process.integralBias + (pid.bias i + pid.process.lastBias) / (2 * i.cycle) = _
    rw [hbias, hcycle, hs.lastBias, SumWay.added]

/-- One more call. -/
theorem succ (hs : pid.SumsUp pid₀ way kp ki kd h e n) {i : TickIn} (hi : pid.Uncut i)
    (he : i.target - i.present = e n) (hcycle : i.cycle = h) :
    (pid.tickIn i).SumsUp pid₀ way kp ki kd h e (n + 1) := by
  have hbias : pid.bias i = e n := (hs.bias_eq hi).trans he
  refine ⟨(tickIn_config hs.enabled i).trans hs.config, ?_, ?_⟩
  · rw [tickIn_lastBias hs.enabled, hbias, past]
  · rw [tickIn_integralBias hs.enabled, hs.handler_adds hbias hcycle, hs.integral, sum_range_succ]

/-- The output of a call. -/
theorem tickIn_out (hs : pid.SumsUp pid₀ way kp ki kd h e n) {i : TickIn} (hi : pid.Uncut i)
    (he : i.target - i.present = e n) (hcycle : i.cycle = h) :
    apidGetOut (pid.tickIn i) =
      kp * e n + ki * ∑ j ∈ range (n + 1), way.added h e j + kd * (e n - past e n) / h := by
  have hbias : pid.bias i = e n := (hs.bias_eq hi).trans he
  obtain ⟨-, -, hd, hkp, hki, hkd, hkf, -⟩ := config_congr hs.config
  have hgains : pid.parameter.kp = kp ∧ pid.parameter.ki = ki ∧ pid.parameter.kd = kd ∧
      pid.parameter.kf = 0 ∧ pid.dHandle = .positionComplete := by
    rw [hkp, hki, hkd, hkf, hd]
    cases way <;> exact ⟨rfl, rfl, rfl, rfl, rfl⟩
  obtain ⟨hkp, hki, hkd, hkf, hd⟩ := hgains
  have hsum : (pid.terms i.target i.present i.cycle).sum =
      kp * e n + ki * ∑ j ∈ range (n + 1), way.added h e j + kd * (e n - past e n) / h := by
    have hint := hs.handler_adds hbias hcycle
    rw [hs.integral, ← sum_range_succ] at hint
    rw [terms_eq_before, hd, iHandle_run_eq, hint]
    simp [DHandle.run, dHandlePositionComplete, sum, setIntegral, setDifferential, before, hkp, hki,
      hkd, hkf, hbias, hcycle, hs.lastBias]
  rw [tickIn, tick_out_enabled hs.enabled, limitOut, terms_outLimit, if_neg (not_lt.mpr hi.2.2),
    if_neg (not_lt.mpr hi.2.1), ite_self, hsum]

end SumsUp

end Apid

open Apid

/-- For all gains, every `h > 0`, every run of calls with the cycle `h` in which no limit cuts, and
each of the three ways: the output of a `PID_POSITION` controller in call `k` is the documented sum
exactly if in the normal way `ki` times the sum of the errors is zero, always if the integral is
separated, and in the trapezoid way if `h = 1` or `ki` times the sum of the means is zero. -/
theorem documented_sum_iff (pid₀ : Apid) (way : SumWay) (kp ki kd : ℚ) {h : ℚ} (hh : 0 < h)
    (target present : ℕ → ℚ) (k : ℕ)
    (hcut : ∀ j ≤ k, ((summing way pid₀ kp ki kd).runTicks (fun j => ⟨target j, present j, h⟩)
      j).Uncut ⟨target j, present j, h⟩) :
    let e := fun j => target j - present j
    apidGetOut ((summing way pid₀ kp ki kd).runTicks (fun j => ⟨target j, present j, h⟩) (k + 1)) =
        kp * e k + ki * ∑ i ∈ range (k + 1), way.documented h e i + kd * (e k - past e k) / h ↔
      way.Agrees ki h e k := by
  intro e
  have hsums (n : ℕ) (hn : n ≤ k) :
      ((summing way pid₀ kp ki kd).runTicks (fun j => ⟨target j, present j, h⟩) n).SumsUp pid₀ way
        kp ki kd h e n := by
    induction n with
    | zero => exact summing_sumsUp
    | succ n ih => exact (ih (Nat.le_of_succ_le hn)).succ (hcut n (Nat.le_of_succ_le hn)) rfl rfl
  rw [runTicks, (hsums k le_rfl).tickIn_out (hcut k le_rfl) rfl rfl, add_left_inj, add_right_inj]
  exact SumWay.sum_added_eq_iff hh e k way

/-- The errors 1 and 1 with a separated integral and the cycle 2. -/
theorem documented_sum_iff_separation :
    apidGetOut ((summing (.separation 1) .zero 1 1 1).runTicks (fun _ => ⟨1, 0, 2⟩) 2) =
      1 * (1 - 0) + 1 * ∑ i ∈ range 2, (SumWay.separation 1).documented 2 (fun _ => 1 - 0) i +
        1 * ((1 - 0) - (1 - 0)) / 2 := by
  refine (documented_sum_iff .zero (.separation 1) 1 1 1 (show (0 : ℚ) < 2 by decide) (fun _ => 1)
    (fun _ => 0) 1 ?_).mpr trivial
  unfold Uncut
  decide +kernel

/-- One error 1 with `ki = 1` alone. In the normal way the output is 2 and not 1; in the trapezoid
way with the cycle 2 it is 1/4 and not 1. -/
theorem documented_sum_missed :
    (summing .normal .zero 0 1 0).Uncut ⟨1, 0, 1⟩ ∧
      apidGetOut ((summing .normal .zero 0 1 0).runTicks (fun _ => ⟨1, 0, 1⟩) 1) ≠
        0 * 1 + 1 * ∑ i ∈ range 1, SumWay.normal.documented 1 (fun _ => 1) i + 0 * (1 - 0) / 1 ∧
      (summing .trapeziod .zero 0 1 0).Uncut ⟨1, 0, 2⟩ ∧
      apidGetOut ((summing .trapeziod .zero 0 1 0).runTicks (fun _ => ⟨1, 0, 2⟩) 1) ≠
        0 * 1 + 1 * ∑ i ∈ range 1, SumWay.trapeziod.documented 2 (fun _ => 1) i +
          0 * (1 - 0) / 2 := by
  unfold Uncut
  decide +kernel

end Robot
