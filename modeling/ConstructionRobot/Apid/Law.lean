import ConstructionRobot.Apid
import Mathlib.Algebra.Order.Field.Rat
import Mathlib.Algebra.Order.Group.Unbundled.Abs
import Mathlib.Tactic.Ring

/-!
# The control law in closed form (`_PID_Hander`)

What a call gives, as a formula of the set-up of the controller, the target, the feedback and what
the controller keeps from the calls before.

* `Apid.bias`: the error of a call, after the limits, the dead zone and the prediction.
  `terms_eq_before`: the controller of a call is that error, put through the two handlers.
* `Apid.integralLaw`, `Apid.differenceLaw`: what each of the sixteen handlers makes of the error.
* `Apid.response`: the output of a call (`tick_out`).
* `Apid.Balanced`: the calls whose output is zero (`response_eq_zero`).
-/

namespace Robot

/-- What a call of `_PID_Hander` is given. -/
structure TickIn where
  target : ℚ
  present : ℚ
  cycle : ℚ
  deriving DecidableEq, Repr

namespace Apid

/-- A handler changes its own term only. -/
theorem iHandle_run_eq (h : IHandle) (pid : Apid) :
    h.run pid = pid.setIntegral (h.run pid).process.integralBias := by
  cases h <;> simp only [IHandle.run, iHandleIncrementNormal, iHandleIncrementSeparation,
    iHandleIncrementSaturation, iHandleIncrementSpeed, iHandleIncrementTrapeziod,
    iHandlePositionNormal, iHandlePositionSeparation, iHandlePositionSaturation,
    iHandlePositionSpeed, iHandlePositionTrapeziod]
  all_goals (try split) <;> (try split) <;> rfl

theorem dHandle_run_eq (h : DHandle) (pid : Apid) :
    h.run pid = pid.setDifferential (h.run pid).process.differentialBias := by
  cases h <;> rfl

/-- The target cut to the target limit. -/
def cutTarget (pid : Apid) (target : ℚ) : ℚ :=
  if target > pid.parameter.targetLimit then pid.parameter.targetLimit
  else if target < -pid.parameter.targetLimit then -pid.parameter.targetLimit
  else target

theorem limitTarget_eq (pid : Apid) :
    pid.limitTarget = { pid with parameter.target := pid.cutTarget pid.parameter.target } := by
  unfold limitTarget cutTarget
  split
  · rfl
  · split <;> rfl

/-- `process.bias` of a call. -/
def bias (pid : Apid) (i : TickIn) : ℚ :=
  pid.limitBias (pid.deadZone (pid.cutTarget i.target - i.present -
    pid.parameter.kPre * pid.parameter.predict * abs pid.parameter.predict))

/-- The controller of a call before its handlers. -/
def before (pid : Apid) (i : TickIn) : Apid :=
  { pid with
    parameter.target := pid.cutTarget i.target
    parameter.present := i.present
    process.feedforward := pid.parameter.kf * pid.cutTarget i.target
    process.predict := pid.parameter.kPre * pid.parameter.predict * abs pid.parameter.predict
    process.bias := pid.bias i
    cycle := i.cycle }

theorem prepare_eq_before (pid : Apid) (i : TickIn) :
    ({ apidSetPresent (apidSetTarget pid i.target) i.present with cycle := i.cycle } :
      Apid).prepare = pid.before i := by
  simp [prepare, limitTarget_eq, apidSetPresent, apidSetTarget, before, bias, cutTarget, deadZone,
    limitBias]

theorem terms_eq_before (pid : Apid) (i : TickIn) :
    pid.terms i.target i.present i.cycle =
      pid.dHandle.run (pid.iHandle.run (pid.before i)) := by
  have hd : (pid.iHandle.run (pid.before i)).dHandle = pid.dHandle := by
    rw [iHandle_run_eq]
    rfl
  simp only [terms, prepare_eq_before]
  show (pid.iHandle.run (pid.before i)).dHandle.run (pid.iHandle.run (pid.before i)) = _
  rw [hd]

theorem tick_eq_terms {pid : Apid} (henabled : pid.flag.runStatus = .pidEnable)
    (target present cycle : ℚ) :
    pid.tick target present cycle = pidOut (pid.terms target present cycle) := by
  simp only [tick, pidHander, terms]
  rw [if_neg (by simp [apidSetPresent, apidSetTarget, henabled])]

/-! ## The law -/

/-- The error of a call: the target within its limit, less the feedback and the prediction; zero in
the dead zone, and cut to the error limit if there is one. -/
def errorLaw (pid : Apid) (target present : ℚ) : ℚ :=
  let p := pid.parameter
  let e := pid.cutTarget target - present - p.kPre * p.predict * |p.predict|
  let e := if |e| < p.biasDeadZone then 0 else e
  if 0 < p.biasLimit then max (-p.biasLimit) (min p.biasLimit e) else e

/-- The integral term after a call with the error `e` and the cycle `h`. -/
def integralLaw (pid : Apid) (e h : ℚ) : ℚ :=
  let i := pid.process.integralBias
  let last := pid.process.lastBias
  let bound := pid.parameter.biasForIntegral
  let limit := pid.parameter.integralLimit
  let ki := pid.parameter.ki
  match pid.iHandle with
  | .incrementNormal => e * h
  | .incrementSeparation => if |e| ≤ bound then e * h else i
  | .incrementSaturation =>
    if i * ki > limit then limit / ki else if i * ki < -limit then -limit / ki else e * h
  | .incrementSpeed => (e + last) / (2 * h) - (e - last) * h
  | .incrementTrapeziod => (e + last) / (2 * h)
  | .positionNormal => i + 2 * (e * h)
  | .positionSeparation => if |e| ≤ bound then i + e * h else i
  | .positionSaturation =>
    if i * ki > limit then limit else if i * ki < -limit then -limit else i + e * h
  | .positionSpeed => i + (e + last) / (2 * h) - (e - last) * h
  | .positionTrapeziod => i + (e + last) / (2 * h)

/-- The derivative term of a call with the error `e` towards `target`. -/
def differenceLaw (pid : Apid) (e target : ℚ) : ℚ :=
  let first := e - pid.process.lastBias
  let second := e - 2 * pid.process.lastBias + pid.process.lastlastBias
  let a := pid.parameter.kdU
  match pid.dHandle with
  | .incrementComplete => second
  | .incrementPart => a * second + (1 - a) * pid.process.lpfDifferentialBias
  | .incrementPrevious => second - a * (pid.cutTarget target - pid.process.lastTarget)
  | .positionComplete => first
  | .positionPart => a * first + (1 - a) * pid.process.lpfDifferentialBias
  | .positionPrevious => first - a * (pid.cutTarget target - pid.process.lastTarget)

/-- The output of an enabled controller before its limit. -/
def weighted (pid : Apid) (target present cycle : ℚ) : ℚ :=
  let e := pid.errorLaw target present
  pid.parameter.kp * e + pid.parameter.ki * pid.integralLaw e cycle +
    pid.parameter.kd * pid.differenceLaw e target / cycle +
    pid.parameter.kf * pid.cutTarget target

/-- The output of a call. -/
def response (pid : Apid) (target present cycle : ℚ) : ℚ :=
  match pid.flag.runStatus with
  | .stop => 0
  | .pause => target
  | .pidEnable =>
    let limit := pid.parameter.outLimit
    let out := pid.weighted target present cycle
    if 0 ≤ limit then max (-limit) (min limit out) else out

/-- The output is zero: the controller is stopped; or it is paused with the target zero; or it is
enabled and may give no output, or its four parts add up to zero. -/
def Balanced (pid : Apid) (target present cycle : ℚ) : Prop :=
  match pid.flag.runStatus with
  | .stop => True
  | .pause => target = 0
  | .pidEnable => pid.parameter.outLimit = 0 ∨ pid.weighted target present cycle = 0

/-! ## The code follows the law -/

/-- Two comparisons one after the other are a cut. -/
theorem cut_eq_max_min {limit : ℚ} (h : 0 ≤ limit) (x : ℚ) :
    (if x > limit then limit else if x < -limit then -limit else x) =
      max (-limit) (min limit x) := by
  by_cases hhigh : limit < x
  · rw [if_pos hhigh, min_eq_left hhigh.le, max_eq_right (by linarith)]
  · rw [if_neg hhigh, min_eq_right (not_lt.mp hhigh)]
    by_cases hlow : x < -limit
    · rw [if_pos hlow, max_eq_left hlow.le]
    · rw [if_neg hlow, max_eq_right (not_lt.mp hlow)]

theorem abs_eq (x : ℚ) : abs x = |x| := by
  unfold abs
  split
  case isTrue h => exact (abs_of_pos h).symm
  case isFalse h => exact (abs_of_nonpos (not_lt.mp h)).symm

variable (pid : Apid)

theorem deadZone_eq (e : ℚ) :
    pid.deadZone e = if |e| < pid.parameter.biasDeadZone then 0 else e := by
  unfold deadZone
  by_cases hon : pid.parameter.biasDeadZone > 0
  · rw [if_pos hon]
    refine if_congr ?_ rfl rfl
    rw [abs_lt, and_comm]
  · rw [if_neg hon, if_neg]
    exact fun h => hon ((abs_nonneg e).trans_lt h)

theorem limitBias_eq (e : ℚ) :
    pid.limitBias e = if 0 < pid.parameter.biasLimit then
      max (-pid.parameter.biasLimit) (min pid.parameter.biasLimit e) else e := by
  unfold limitBias
  by_cases hon : 0 < pid.parameter.biasLimit
  · rw [if_pos hon, if_pos hon, ← cut_eq_max_min hon.le]
    dsimp only
    split
    · exact if_neg (by linarith)
    · rfl
  · rw [if_neg hon, if_neg hon]

theorem bias_eq_law (i : TickIn) : pid.bias i = pid.errorLaw i.target i.present := by
  rw [bias, limitBias_eq, deadZone_eq, abs_eq]
  rfl

/-- The error is out of the range of the integral. -/
theorem separation_iff (e bound : ℚ) : (e > bound ∨ e < -bound) ↔ ¬ |e| ≤ bound := by
  rw [abs_le, not_and_or, not_le, not_le, or_comm]

theorem incrementSeparation_integralBias :
    (iHandleIncrementSeparation pid).process.integralBias =
      if |pid.process.bias| ≤ pid.parameter.biasForIntegral then pid.process.bias * pid.cycle
      else pid.process.integralBias := by
  simp only [iHandleIncrementSeparation, separation_iff, ite_not]
  split <;> rfl

theorem positionSeparation_integralBias :
    (iHandlePositionSeparation pid).process.integralBias =
      if |pid.process.bias| ≤ pid.parameter.biasForIntegral then
        pid.process.integralBias + pid.process.bias * pid.cycle
      else pid.process.integralBias := by
  simp only [iHandlePositionSeparation, separation_iff, ite_not]
  split <;> rfl

theorem incrementSaturation_integralBias :
    (iHandleIncrementSaturation pid).process.integralBias =
      if pid.process.integralBias * pid.parameter.ki > pid.parameter.integralLimit then
        pid.parameter.integralLimit / pid.parameter.ki
      else if pid.process.integralBias * pid.parameter.ki < -pid.parameter.integralLimit then
        -pid.parameter.integralLimit / pid.parameter.ki
      else pid.process.bias * pid.cycle := by
  unfold iHandleIncrementSaturation
  split_ifs <;> rfl

theorem positionSaturation_integralBias :
    (iHandlePositionSaturation pid).process.integralBias =
      if pid.process.integralBias * pid.parameter.ki > pid.parameter.integralLimit then
        pid.parameter.integralLimit
      else if pid.process.integralBias * pid.parameter.ki < -pid.parameter.integralLimit then
        -pid.parameter.integralLimit
      else pid.process.integralBias + pid.process.bias * pid.cycle := by
  unfold iHandlePositionSaturation
  split_ifs <;> rfl

theorem iHandle_run_law (i : TickIn) :
    (pid.iHandle.run (pid.before i)).process.integralBias =
      pid.integralLaw (pid.errorLaw i.target i.present) i.cycle := by
  rw [← bias_eq_law]
  unfold integralLaw
  cases pid.iHandle with
  | incrementNormal | incrementSpeed | incrementTrapeziod | positionSpeed | positionTrapeziod => rfl
  | positionNormal =>
    show pid.process.integralBias + pid.bias i * i.cycle + pid.bias i * i.cycle = _
    ring
  | incrementSeparation => exact incrementSeparation_integralBias (pid.before i)
  | positionSeparation => exact positionSeparation_integralBias (pid.before i)
  | incrementSaturation => exact incrementSaturation_integralBias (pid.before i)
  | positionSaturation => exact positionSaturation_integralBias (pid.before i)

theorem dHandle_run_law (i : TickIn) (x : ℚ) :
    (pid.dHandle.run ((pid.before i).setIntegral x)).process.differentialBias =
      pid.differenceLaw (pid.errorLaw i.target i.present) i.target := by
  rw [← bias_eq_law]
  unfold differenceLaw
  cases pid.dHandle <;> rfl

theorem terms_sum (target present cycle : ℚ) :
    (pid.terms target present cycle).sum = pid.weighted target present cycle := by
  have hi := pid.iHandle_run_law ⟨target, present, cycle⟩
  have hd := pid.dHandle_run_law ⟨target, present, cycle⟩
    (pid.integralLaw (pid.errorLaw target present) cycle)
  rw [terms_eq_before pid ⟨target, present, cycle⟩, iHandle_run_eq, hi, dHandle_run_eq, hd]
  simp only [sum, setDifferential, setIntegral, before, bias_eq_law, weighted]

/-- The output of a call. -/
theorem tick_out (target present cycle : ℚ) :
    apidGetOut (pid.tick target present cycle) = pid.response target present cycle := by
  unfold response
  cases h : pid.flag.runStatus with
  | stop | pause => simp [tick, pidHander, apidSetPresent, apidSetTarget, h, apidGetOut, idle]
  | pidEnable =>
    rw [tick_out_enabled h, terms_sum, limitOut, terms_outLimit]
    refine if_ctx_congr Iff.rfl (fun hlimit => ?_) fun _ => rfl
    exact cut_eq_max_min hlimit _

/-- The output of a call is zero exactly if the controller is balanced. -/
theorem response_eq_zero (target present cycle : ℚ) :
    pid.response target present cycle = 0 ↔ pid.Balanced target present cycle := by
  rw [← tick_out]
  unfold Balanced
  cases h : pid.flag.runStatus with
  | stop | pause => simp [tick, pidHander, apidSetPresent, apidSetTarget, h, apidGetOut, idle]
  | pidEnable => rw [tick_out_enabled h, limitOut_eq_zero, terms_outLimit, terms_sum]

end Apid

end Robot
