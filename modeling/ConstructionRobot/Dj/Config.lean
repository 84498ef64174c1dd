import ConstructionRobot.Motor.Stop

/-!
# The configured motors (`motor_cfg.c`, `apid.c`, `motor_init`, `motor_dj_init`)

`motor_init` resets the controllers of every motor and keeps their gains;
`set_motor_passive_feedback` then sets the limits of each motor by hand. The shipped configuration
has four M2006 motors, with the ids 0 to 3.

Two of the calls name another motor than the ones around them: the target limit of motor 2 is set
on motor 0, and the integral limit of its position controller on motor 3. The error limit is set on
the motors 0 and 1 only.

* `motorDjInit_pidSpeed`, `motorDjInit_pidPos`: the configuration of every motor.
* `Apid.tick_config`: a tick keeps the configuration of a controller.
* `Apid.tick_out`: the output of a controller without derivative, feed-forward and prediction.
-/

namespace Robot

/-- The motors with the ids 0 to 3. -/
instance neZeroMotors : NeZero 4 := ⟨by decide⟩

/-- `FLT_MAX`. -/
def fltMax : ℚ := (2 - 1 / 2 ^ 23) * 2 ^ 127

/-! ## Controllers -/

/-- `APID_Reset`. -/
def apidReset (pid : Apid) : Apid :=
  { pid with
    flag.runStatus := .pidEnable
    parameter :=
      { kp := 0, ki := 0, kd := 0, kf := 0, kdU := 0, kPre := 0
        targetLimit := fltMax, biasLimit := -1, biasDeadZone := -1, biasForIntegral := -1
        integralLimit := -1, outLimit := fltMax
        out := 0, target := 0, present := 0, predict := 0 }
    process :=
      { bias := 0, integralBias := 0, differentialBias := 0, lpfDifferentialBias := 0
        feedforward := 0, predict := pid.process.predict
        lastTarget := 0, lastBias := 0, lastlastBias := 0 } }

/-- `APID_Init`. -/
def apidInit (pid : Apid) (mode : PidMode) (kp ki kd : ℚ) : Apid :=
  let pid := apidReset pid
  let pid := { pid with flag.pidMode := mode }
  let pid := match mode with
    | .increment => { pid with iHandle := .incrementNormal, dHandle := .incrementComplete }
    | .position => { pid with iHandle := .positionNormal, dHandle := .positionComplete }
  { pid with parameter.kp := kp, parameter.ki := ki, parameter.kd := kd }

/-- `APID_SET_I_Function`. The pointer of the way `speed` is read by no function. -/
def apidSetIFunction (pid : Apid) (imode : PidIFunction) (value : ℚ) : Apid :=
  let pid := { pid with flag.integralWay := imode }
  let handle (increment position : IHandle) : IHandle :=
    match pid.flag.pidMode with
    | .increment => increment
    | .position => position
  match imode with
  | .normal => { pid with iHandle := handle .incrementNormal .positionNormal }
  | .separation =>
    { pid with
      iHandle := handle .incrementSeparation .positionSeparation
      parameter.biasForIntegral := value }
  | .saturation =>
    { pid with
      iHandle := handle .incrementSaturation .positionSaturation
      parameter.integralLimit := value }
  | .speed => { pid with iHandle := handle .incrementSpeed .positionSpeed }
  | .trapeziod => { pid with iHandle := handle .incrementTrapeziod .positionTrapeziod }

/-- `APID_Set_Integral_Limit`. -/
def apidSetIntegralLimit (value : ℚ) (pid : Apid) : Apid :=
  if pid.flag.integralWay ≠ .saturation then apidSetIFunction pid .saturation value
  else { pid with parameter.integralLimit := value }

/-- `APID_Set_Target_Limit`, `APID_Set_Bias_Limit`, `APID_Set_Bias_Dead_Zone` and
`APID_Set_Out_Limit`. -/
def apidSetTargetLimit (value : ℚ) (pid : Apid) : Apid := { pid with parameter.targetLimit := value }
def apidSetBiasLimit (value : ℚ) (pid : Apid) : Apid := { pid with parameter.biasLimit := value }
def apidSetBiasDeadZone (value : ℚ) (pid : Apid) : Apid :=
  { pid with parameter.biasDeadZone := value }
def apidSetOutLimit (value : ℚ) (pid : Apid) : Apid := { pid with parameter.outLimit := value }

/-- `APID_CREATE_STATIC_ANONYMOUS_POSITION`. -/
def apidCreateStaticAnonymousPosition (kp ki kd : ℚ) : Apid :=
  { Apid.zero with parameter.kp := kp, parameter.ki := ki, parameter.kd := kd }

/-! ## Motors -/

/-- `APID_Init` with the gains that the controller has. -/
def apidInitGains (pid : Apid) : Apid :=
  apidInit pid .position pid.parameter.kp pid.parameter.ki pid.parameter.kd

/-- `motor_updata_cfg` of a motor. `block` is what the memory from `malloc` holds. -/
def motorUpdataCfg (block : Apid) (m : Motor) (level : Fin 4) : Motor :=
  match level with
  | 0 =>
    { m with
      behaver := .behiver1, flagOutMode := .idel
      pidTorque := apidInitGains block, pidSpeed := apidInitGains block
      pidPos := apidInitGains block }
  | 1 =>
    { m with
      behaver := .behiver2, flagOutMode := .torque
      pidSpeed := apidInitGains m.pidSpeed, pidPos := apidInitGains m.pidPos }
  | 2 => { m with behaver := .behiver3, flagOutMode := .speed, pidPos := apidInitGains block }
  | 3 => { m with behaver := .behiver4, flagOutMode := .pos }

/-- `motor_init`; `level` is `flag_accept_level` of each motor. -/
def motorInit {n : ℕ} (block : Apid) (level : Fin n → Fin 4) (ml : MotorList n) : MotorList n :=
  fun i => motorUpdataCfg block
    { ml i with
      id := i, time := 0, posTick := 10, speedTick := 5, torqueTick := 1
      flagRunMode := .idel, flagOutMode := .idel } (level i)

/-- The entry of an M2006 motor in `motor_list`: all that is not set is zero. -/
def m2006 : Motor :=
  { Motor.zero with
    posTick := 0, speedTick := 0, torqueTick := 0, flagOutMode := .idel
    flagPassiveFeedback := false
    pidSpeed := apidCreateStaticAnonymousPosition 210.69 0.73 0
    pidPos := apidCreateStaticAnonymousPosition 4.983 0 0 }

/-- `motor_set_passive_feedback`. -/
def motorSetPassiveFeedback {n : ℕ} (i : Fin n) (isTrue : Bool) (ml : MotorList n) : MotorList n :=
  ml.modify i fun m => { m with flagPassiveFeedback := isTrue }

/-- A change of `motor_get_pid_speed(i)`, and of `motor_get_pid_pos(i)`. -/
def onPidSpeed {n : ℕ} (i : Fin n) (f : Apid → Apid) (ml : MotorList n) : MotorList n :=
  ml.modify i fun m => { m with pidSpeed := f m.pidSpeed }
def onPidPos {n : ℕ} (i : Fin n) (f : Apid → Apid) (ml : MotorList n) : MotorList n :=
  ml.modify i fun m => { m with pidPos := f m.pidPos }

/-- `MAX_V_POS` and `MAX_V_SPEED`. -/
def maxVPos : ℚ := 65
def maxVSpeed : ℚ := 80

/-- The part of `set_motor_passive_feedback` for a motor with all limits. -/
def setM2006 (i : Fin 4) (ml : MotorList 4) : MotorList 4 :=
  let ml := motorSetPassiveFeedback i true ml
  let ml := onPidSpeed i (apidSetOutLimit 30000) ml
  let ml := onPidSpeed i (apidSetIntegralLimit 200) ml
  let ml := onPidSpeed i (apidSetBiasDeadZone 20) ml
  let ml := onPidSpeed i (apidSetBiasLimit 2000) ml
  let ml := onPidSpeed i (apidSetTargetLimit maxVSpeed) ml
  let ml := onPidPos i (apidSetOutLimit maxVPos) ml
  onPidPos i (apidSetIntegralLimit 200) ml

/-- The parts for `M2006_1_CAN1` and `M2006_2_CAN1`. -/
def setM2006Can1One : MotorList 4 → MotorList 4 := setM2006 0
def setM2006Can1Two : MotorList 4 → MotorList 4 := setM2006 1

/-- The part for `M2006_3_CAN1`. It has no error limit, sets the target limit of `M2006_1_CAN1` and
the integral limit of the position controller of `M2006_4_CAN1`. -/
def setM2006Can1Three (ml : MotorList 4) : MotorList 4 :=
  let ml := motorSetPassiveFeedback 2 true ml
  let ml := onPidSpeed 2 (apidSetOutLimit 30000) ml
  let ml := onPidSpeed 2 (apidSetIntegralLimit 200) ml
  let ml := onPidSpeed 2 (apidSetBiasDeadZone 20) ml
  let ml := onPidSpeed 0 (apidSetTargetLimit maxVSpeed) ml
  let ml := onPidPos 2 (apidSetOutLimit maxVPos) ml
  onPidPos 3 (apidSetIntegralLimit 200) ml

/-- The part for `M2006_4_CAN1`. It has no error limit. -/
def setM2006Can1Four (ml : MotorList 4) : MotorList 4 :=
  let ml := motorSetPassiveFeedback 3 true ml
  let ml := onPidSpeed 3 (apidSetOutLimit 30000) ml
  let ml := onPidSpeed 3 (apidSetIntegralLimit 200) ml
  let ml := onPidSpeed 3 (apidSetBiasDeadZone 20) ml
  let ml := onPidSpeed 3 (apidSetTargetLimit maxVSpeed) ml
  let ml := onPidPos 3 (apidSetOutLimit maxVPos) ml
  onPidPos 3 (apidSetIntegralLimit 200) ml

/-- `set_motor_passive_feedback` of the shipped configuration. -/
def setMotorPassiveFeedback (ml : MotorList 4) : MotorList 4 :=
  setM2006Can1Four (setM2006Can1Three (setM2006Can1Two (setM2006Can1One ml)))

/-- The motors after `motor_dj_init`. All have the level `MOTOR_CONTROL_SUPPORT_TORQUE`. -/
def motorDjInit (block : Apid) : MotorList 4 :=
  setMotorPassiveFeedback (motorInit block (fun _ => 1) fun _ => m2006)

/-! ## The configuration of a controller -/

/-- The controller without what changes in a tick. -/
def Apid.config (pid : Apid) : Apid :=
  { pid with
    parameter.target := 0, parameter.present := 0, parameter.out := 0
    process := ⟨0, 0, 0, 0, 0, 0, 0, 0, 0⟩
    cycle := 0 }

/-- The configuration of a speed controller. -/
def speedConfig (targetLimit biasLimit : ℚ) : Apid where
  flag := ⟨.pidEnable, .saturation, .complete, .position⟩
  parameter :=
    { kp := 210.69, ki := 0.73, kd := 0, kf := 0, kdU := 0, kPre := 0
      targetLimit := targetLimit, biasLimit := biasLimit, biasDeadZone := 20
      biasForIntegral := -1, integralLimit := 200, outLimit := 30000
      out := 0, target := 0, present := 0, predict := 0 }
  process := ⟨0, 0, 0, 0, 0, 0, 0, 0, 0⟩
  cycle := 0
  iHandle := .positionSaturation
  dHandle := .positionComplete

/-- The configuration of a position controller. Its integral gain is zero. -/
def posConfig (way : PidIFunction) (integralLimit : ℚ) (iHandle : IHandle) : Apid where
  flag := ⟨.pidEnable, way, .complete, .position⟩
  parameter :=
    { kp := 4.983, ki := 0, kd := 0, kf := 0, kdU := 0, kPre := 0
      targetLimit := fltMax, biasLimit := -1, biasDeadZone := -1
      biasForIntegral := -1, integralLimit := integralLimit, outLimit := maxVPos
      out := 0, target := 0, present := 0, predict := 0 }
  process := ⟨0, 0, 0, 0, 0, 0, 0, 0, 0⟩
  cycle := 0
  iHandle := iHandle
  dHandle := .positionComplete

/-- The target limit and the error limit of the speed controllers. A negative error limit is
none. -/
def speedTargetLimit (i : Fin 4) : ℚ := if i = 2 then fltMax else maxVSpeed
def speedBiasLimit (i : Fin 4) : ℚ := if i.val < 2 then 2000 else -1

theorem motorDjInit_pidSpeed (block : Apid) (i : Fin 4) :
    (motorDjInit block i).pidSpeed.config =
      speedConfig (speedTargetLimit i) (speedBiasLimit i) := by
  match i with
  | 0 => rfl
  | 1 => rfl
  | 2 => rfl
  | 3 => rfl

theorem motorDjInit_pidPos (block : Apid) (i : Fin 4) :
    (motorDjInit block i).pidPos.config =
      if i = 2 then posConfig .normal (-1) .positionNormal
      else posConfig .saturation 200 .positionSaturation := by
  match i with
  | 0 => rfl
  | 1 => rfl
  | 2 => rfl
  | 3 => rfl

/-- All else is the same for every motor. -/
theorem motorDjInit_rest (block : Apid) (i : Fin 4) :
    { motorDjInit block i with id := 0, pidSpeed := .zero, pidPos := .zero } = Motor.zero := by
  match i with
  | 0 => rfl
  | 1 => rfl
  | 2 => rfl
  | 3 => rfl

namespace Apid

/-- The error of a tick without prediction. -/
def error (pid : Apid) (target present : ℚ) : ℚ :=
  pid.limitBias (pid.deadZone (pid.cutTarget target - present))

/-- A controller that is enabled, with no derivative, feed-forward and prediction. -/
structure IsPi (pid : Apid) : Prop where
  enabled : pid.flag.runStatus = .pidEnable
  kd : pid.parameter.kd = 0
  kf : pid.parameter.kf = 0
  kPre : pid.parameter.kPre = 0

/-- The controller of a tick before its handlers. -/
def prepared (pid : Apid) (target present cycle : ℚ) : Apid :=
  { pid with
    parameter.target := pid.cutTarget target
    parameter.present := present
    process.feedforward := 0
    process.predict := 0
    process.bias := pid.error target present
    cycle := cycle }

section Bare

variable {pid : Apid} (henabled : pid.flag.runStatus = .pidEnable) (hkf : pid.parameter.kf = 0)
  (hkPre : pid.parameter.kPre = 0)

include hkf hkPre in
/-- The terms of a controller without feed-forward and prediction. -/
theorem terms_eq (target present cycle : ℚ) :
    pid.terms target present cycle =
      let q := pid.prepared target present cycle
      q.dHandle.run (q.iHandle.run q) := by
  have hprep : ({ apidSetPresent (apidSetTarget pid target) present with cycle := cycle } :
      Apid).prepare = pid.prepared target present cycle := by
    simp [prepare, limitTarget_eq, apidSetPresent, apidSetTarget, prepared, error, cutTarget,
      deadZone, limitBias, hkf, hkPre]
  simp only [terms, hprep]
  rw [iHandle_run_eq (pid.prepared target present cycle).iHandle]
  rfl

include henabled hkf hkPre in
theorem tick_config (target present cycle : ℚ) :
    (pid.tick target present cycle).config = pid.config := by
  rw [tick_eq_terms henabled, terms_eq hkf hkPre]
  dsimp only
  rw [iHandle_run_eq, dHandle_run_eq]
  rfl

end Bare

theorem IsPi.tick_eq {pid : Apid} (h : pid.IsPi) (target present cycle : ℚ) :
    pid.tick target present cycle =
      let q := pid.prepared target present cycle
      pidOut (q.dHandle.run (q.iHandle.run q)) := by
  rw [tick_eq_terms h.enabled, terms_eq h.kf h.kPre]

theorem IsPi.tick_config {pid : Apid} (h : pid.IsPi) (target present cycle : ℚ) :
    (pid.tick target present cycle).config = pid.config :=
  Apid.tick_config h.enabled h.kf h.kPre target present cycle

/-- The integral term after a tick: the handler of the controller decides. -/
theorem IsPi.tick_integralBias {pid : Apid} (h : pid.IsPi) (target present cycle : ℚ) :
    (pid.tick target present cycle).process.integralBias =
      (pid.iHandle.run (pid.prepared target present cycle)).process.integralBias := by
  rw [h.tick_eq]
  dsimp only
  rw [dHandle_run_eq]
  rfl

/-- The output of a tick: the error and the integral term, weighted and cut to the limit. -/
theorem IsPi.tick_out {pid : Apid} (h : pid.IsPi) (target present cycle : ℚ) :
    apidGetOut (pid.tick target present cycle) =
      pid.limitOut (pid.parameter.kp * pid.error target present +
        pid.parameter.ki * (pid.tick target present cycle).process.integralBias) := by
  rw [h.tick_integralBias, h.tick_eq]
  dsimp only
  rw [dHandle_run_eq, iHandle_run_eq]
  simp [apidGetOut, pidOut, limitOut, sum, setDifferential, setIntegral, prepared, h.kd]

/-- What a controller with a given configuration does depends on the configuration only. -/
theorem config_isPi {pid : Apid} {c : Apid} (h : pid.config = c) (hc : c.IsPi) : pid.IsPi := by
  subst h
  exact ⟨hc.enabled, hc.kd, hc.kf, hc.kPre⟩

end Apid

end Robot
