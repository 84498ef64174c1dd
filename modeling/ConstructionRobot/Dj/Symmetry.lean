import ConstructionRobot.Dj.Range

/-!
# Two wheels with the same calls (`motor.c`, `motor_dj_rm_driver.c`)

A motor of the shipped configuration is, as far as its driver is concerned, a `Wheel`: targets,
feedback and the integral term of the speed controller. The position controller has no integral
gain, so its integral term does not matter.

The speed controllers of the four motors have the same configuration but for two limits: motor 2
has no target limit, and the motors 2 and 3 have no error limit.

* `Wheel.step`: what a call makes of a wheel with given limits.
* `Wheel.Rep.apply`: the motors refine wheels.
* `wheels_agree`: two motors with the same calls pass the same values to their drivers, as long as
  no tick reaches a limit that only one of them has.
-/

namespace Robot

/-! ## Wheels -/

/-- What the output of a motor depends on. -/
structure Wheel where
  mode : RunMode
  tarSpeed : ℚ
  tarPos : ℚ
  tarTorque : ℚ
  curSpeed : ℚ
  curPos : ℚ
  integral : ℚ
  accOut : ℚ

namespace Wheel

/-- A value cut to a limit. -/
def clamp (limit x : ℚ) : ℚ := if x > limit then limit else if x < -limit then -limit else x

/-- The output of the position controller. -/
def posOut (w : Wheel) : ℚ := clamp maxVPos (4.983 * (clamp fltMax w.tarPos - w.curPos))

/-- The wheel after the position controller: its output is the speed target. -/
def aim (w : Wheel) : Wheel := { w with tarSpeed := w.posOut }

/-- The error of the speed controller: a target cut to its limit, a dead zone, and an error limit
if there is one. -/
def speedError (targetLimit biasLimit : ℚ) (w : Wheel) : ℚ :=
  let e := clamp targetLimit w.tarSpeed - w.curSpeed
  let e := if e < 20 ∧ e > -20 then 0 else e
  if biasLimit > 0 then clamp biasLimit e else e

/-- The integral term after a tick with the error `e`. -/
def nextIntegral (w : Wheel) (e cycle : ℚ) : ℚ :=
  if w.integral * 0.73 > 200 then 200
  else if w.integral * 0.73 < -200 then -200
  else w.integral + e * cycle

/-- A tick of the speed controller. -/
def speedTick (targetLimit biasLimit : ℚ) (w : Wheel) (cycle : ℚ) : Wheel :=
  let e := w.speedError targetLimit biasLimit
  let out := clamp 30000 (210.69 * e + 0.73 * w.nextIntegral e cycle)
  { w with integral := w.nextIntegral e cycle, tarTorque := out, accOut := out }

/-- One call. -/
def step (targetLimit biasLimit : ℚ) (w : Wheel) : WheelOp → Wheel
  | .setSpeed value => { w with mode := .speed, tarSpeed := value }
  | .setPos value => { w with mode := .pos, tarPos := value }
  | .setTorque value => { w with mode := .torque, tarTorque := value }
  | .feedbackSpeed value => { w with curSpeed := value }
  | .feedbackPos value => { w with curPos := value }
  | .feedbackTorque _ => w
  | .handle cycle =>
    match w.mode with
    | .idel => w
    | .torque => { w with accOut := w.tarTorque }
    | .speed => w.speedTick targetLimit biasLimit cycle
    | .pos => w.aim.speedTick targetLimit biasLimit cycle

section Step

variable {w : Wheel} (targetLimit biasLimit : ℚ) (cycle : { c : ℚ // 0 < c })

theorem step_idel (h : w.mode = .idel) : w.step targetLimit biasLimit (.handle cycle) = w := by
  simp only [step, h]

theorem step_torque (h : w.mode = .torque) :
    w.step targetLimit biasLimit (.handle cycle) = { w with accOut := w.tarTorque } := by
  simp only [step, h]

theorem step_speed (h : w.mode = .speed) :
    w.step targetLimit biasLimit (.handle cycle) = w.speedTick targetLimit biasLimit cycle := by
  simp only [step, h]

theorem step_pos (h : w.mode = .pos) :
    w.step targetLimit biasLimit (.handle cycle) = w.aim.speedTick targetLimit biasLimit cycle := by
  simp only [step, h]

end Step

theorem clamp_eq_self {limit x : ℚ} (h : |x| ≤ limit) : clamp limit x = x := by
  obtain ⟨h1, h2⟩ := abs_le.mp h
  rw [clamp, if_neg (by linarith), if_neg (by linarith)]

end Wheel

/-! ## Motors as wheels -/

/-- The wheel that a motor is. -/
def Motor.wheel (m : Motor) : Wheel where
  mode := m.flagRunMode
  tarSpeed := m.tarSpeed
  tarPos := m.tarPos
  tarTorque := m.tarTorque
  curSpeed := m.curSpeed
  curPos := m.curPos
  integral := m.pidSpeed.process.integralBias
  accOut := m.accOut

/-- A motor with the configuration of motor `i` that is the wheel `w`. -/
structure Wheel.Rep (i : Fin 4) (m : Motor) (w : Wheel) : Prop where
  passive : m.flagPassiveFeedback = true
  behaver : m.behaver = .behiver2
  speed : m.pidSpeed.config = speedConfig (speedTargetLimit i) (speedBiasLimit i)
  pos : ∃ way limit handle, m.pidPos.config = posConfig way limit handle
  wheel : m.wheel = w

theorem posConfig_isPi (way : PidIFunction) (limit : ℚ) (handle : IHandle) :
    (posConfig way limit handle).IsPi :=
  ⟨rfl, rfl, rfl, rfl⟩

/-- The position controllers of the configuration, whatever their integral handler is. -/
theorem posConfig_out {pid : Apid} {way : PidIFunction} {limit : ℚ} {handle : IHandle}
    (h : pid.config = posConfig way limit handle) (target present cycle : ℚ) :
    apidGetOut (pid.tick target present cycle) =
      Wheel.clamp maxVPos (4.983 * (Wheel.clamp fltMax target - present)) := by
  have hpi : pid.IsPi := Apid.config_isPi h (posConfig_isPi _ _ _)
  have hparam := congrArg (fun c => c.parameter) h
  have hkp : pid.parameter.kp = 4.983 := congrArg PidParameter.kp hparam
  have hki : pid.parameter.ki = 0 := congrArg PidParameter.ki hparam
  have htl : pid.parameter.targetLimit = fltMax := congrArg PidParameter.targetLimit hparam
  have hbl : pid.parameter.biasLimit = -1 := congrArg PidParameter.biasLimit hparam
  have hdz : pid.parameter.biasDeadZone = -1 := congrArg PidParameter.biasDeadZone hparam
  have hol : pid.parameter.outLimit = maxVPos := congrArg PidParameter.outLimit hparam
  have herr : pid.error target present = Wheel.clamp fltMax target - present := by
    rw [Apid.error, Apid.limitBias, Apid.deadZone, hbl, hdz, if_neg (by norm_num),
      if_neg (by norm_num), Apid.cutTarget, htl]
    rfl
  rw [hpi.tick_out, hkp, hki, zero_mul, add_zero, herr, Apid.limitOut, hol,
    if_pos (by norm_num [maxVPos])]
  rfl

section Speed

variable {pid : Apid} {targetLimit biasLimit : ℚ}

theorem speedConfig_error (h : pid.config = speedConfig targetLimit biasLimit) (w : Wheel) :
    pid.error w.tarSpeed w.curSpeed = w.speedError targetLimit biasLimit := by
  have hparam := congrArg (fun c => c.parameter) h
  have htl : pid.parameter.targetLimit = targetLimit := congrArg PidParameter.targetLimit hparam
  have hbl : pid.parameter.biasLimit = biasLimit := congrArg PidParameter.biasLimit hparam
  have hdz : pid.parameter.biasDeadZone = 20 := congrArg PidParameter.biasDeadZone hparam
  have hcut : pid.cutTarget w.tarSpeed = Wheel.clamp targetLimit w.tarSpeed := by
    rw [Apid.cutTarget, htl]
    rfl
  unfold Apid.error Apid.deadZone Wheel.speedError
  rw [hdz, if_pos (by norm_num), hcut]
  generalize Wheel.clamp targetLimit w.tarSpeed - w.curSpeed = e
  dsimp only
  generalize (if e < 20 ∧ e > -20 then 0 else e) = e
  rw [Apid.limitBias, hbl]
  split
  case isTrue hpos =>
    -- the two comparisons one after the other are one cut, since the limit is positive
    unfold Wheel.clamp
    split
    · exact if_neg (by linarith)
    · rfl
  case isFalse => rfl

theorem speedConfig_integralBias (h : pid.config = speedConfig targetLimit biasLimit) {w : Wheel}
    (hw : pid.process.integralBias = w.integral) (cycle : ℚ) :
    (pid.tick w.tarSpeed w.curSpeed cycle).process.integralBias =
      w.nextIntegral (w.speedError targetLimit biasLimit) cycle := by
  have hpi : pid.IsPi := Apid.config_isPi h (speedConfig_isPi _ _)
  have hparam := congrArg (fun c => c.parameter) h
  have hki : pid.parameter.ki = 0.73 := congrArg PidParameter.ki hparam
  have hil : pid.parameter.integralLimit = 200 := congrArg PidParameter.integralLimit hparam
  have hi : pid.iHandle = .positionSaturation := congrArg Apid.iHandle h
  rw [hpi.tick_integralBias, hi]
  simp only [IHandle.run, iHandlePositionSaturation, Apid.prepared, hki, hil, hw,
    speedConfig_error h, Wheel.nextIntegral]
  split
  · rfl
  · split <;> rfl

theorem speedConfig_out (h : pid.config = speedConfig targetLimit biasLimit) {w : Wheel}
    (hw : pid.process.integralBias = w.integral) (cycle : ℚ) :
    apidGetOut (pid.tick w.tarSpeed w.curSpeed cycle) =
      (w.speedTick targetLimit biasLimit cycle).accOut := by
  have hpi : pid.IsPi := Apid.config_isPi h (speedConfig_isPi _ _)
  have hparam := congrArg (fun c => c.parameter) h
  have hkp : pid.parameter.kp = 210.69 := congrArg PidParameter.kp hparam
  have hki : pid.parameter.ki = 0.73 := congrArg PidParameter.ki hparam
  have hol : pid.parameter.outLimit = 30000 := congrArg PidParameter.outLimit hparam
  rw [hpi.tick_out, speedConfig_integralBias h hw, hkp, hki, speedConfig_error h, Apid.limitOut,
    hol, if_pos (by norm_num)]
  rfl

end Speed

/-- The speed loop of a motor, towards the target that it has then. -/
theorem Wheel.Rep.speedLoop {i : Fin 4} {m : Motor} {w : Wheel} (h : w.Rep i m) (cycle : ℚ) :
    (w.speedTick (speedTargetLimit i) (speedBiasLimit i) cycle).Rep i
      { m.speedLoop cycle with accOut := (m.speedLoop cycle).tarTorque } := by
  obtain rfl := h.wheel
  have hpi : m.pidSpeed.IsPi := Apid.config_isPi h.speed (speedConfig_isPi _ _)
  have hint := speedConfig_integralBias h.speed (w := m.wheel) rfl cycle
  have hout := speedConfig_out h.speed (w := m.wheel) rfl cycle
  refine ⟨h.passive, h.behaver, ?_, h.pos, ?_⟩
  · rw [← h.speed]
    exact hpi.tick_config _ _ _
  · unfold Motor.wheel Motor.speedLoop
    rw [Wheel.mk.injEq]
    exact ⟨rfl, rfl, rfl, hout, rfl, rfl, hint, hout⟩

/-- The position loop of a motor sets the speed target. -/
theorem Wheel.Rep.posLoop {i : Fin 4} {m : Motor} {w : Wheel} (h : w.Rep i m) (cycle : ℚ) :
    w.aim.Rep i (m.posLoop cycle) := by
  obtain rfl := h.wheel
  obtain ⟨way, limit, handle, hpos⟩ := h.pos
  have hpi : m.pidPos.IsPi := Apid.config_isPi hpos (posConfig_isPi _ _ _)
  refine ⟨h.passive, h.behaver, h.speed, ⟨way, limit, handle, ?_⟩, ?_⟩
  · rw [← hpos]
    exact hpi.tick_config _ _ _
  · unfold Motor.wheel Motor.posLoop
    rw [Wheel.mk.injEq]
    exact ⟨rfl, posConfig_out hpos _ _ _, rfl, rfl, rfl, rfl, rfl, rfl⟩

/-- The behaviour of a motor is a tick of its wheel. -/
theorem Wheel.Rep.behaver_run {i : Fin 4} {m : Motor} {w : Wheel} (h : w.Rep i m)
    (cycle : { c : ℚ // 0 < c }) :
    (w.step (speedTargetLimit i) (speedBiasLimit i) (.handle cycle)).Rep i
      (m.behaver.run m m.flagRunMode cycle) := by
  have hmode : w.mode = m.flagRunMode := by rw [← h.wheel]; rfl
  rw [h.behaver]
  cases hm : m.flagRunMode with
  | idel =>
    rw [step_idel _ _ _ (hmode.trans hm)]
    exact h
  | torque =>
    rw [step_torque _ _ _ (hmode.trans hm)]
    obtain rfl := h.wheel
    exact ⟨h.passive, h.behaver, h.speed, h.pos, rfl⟩
  | speed =>
    rw [step_speed _ _ _ (hmode.trans hm)]
    exact h.speedLoop cycle
  | pos =>
    rw [step_pos _ _ _ (hmode.trans hm)]
    exact (h.posLoop cycle).speedLoop cycle

/-- A call on a motor is the call on its wheel. -/
theorem Wheel.Rep.apply {i : Fin 4} {m : Motor} {w : Wheel} (h : w.Rep i m) (op : WheelOp) :
    (w.step (speedTargetLimit i) (speedBiasLimit i) op).Rep i (op.apply m) := by
  cases op with
  | handle cycle =>
    -- neither the time nor the stop flag is part of the wheel
    have h' : w.Rep i { m with time := trunc (m.time + cycle), flagIsStop := false } :=
      ⟨h.passive, h.behaver, h.speed, h.pos, h.wheel⟩
    exact h'.behaver_run cycle
  | setSpeed value | setPos value | setTorque value | feedbackSpeed value | feedbackPos value
  | feedbackTorque value =>
    obtain rfl := h.wheel
    exact ⟨h.passive, h.behaver, h.speed, h.pos, rfl⟩

/-! ## Two motors -/

/-- The limits of the motors `i` and `j` do not show in the next tick: a target is in the range of
the target limit if only one of them has it, and so is an error. -/
def Wheel.Within (i j : Fin 4) (w : Wheel) : Prop :=
  (speedTargetLimit i ≠ speedTargetLimit j → |w.tarSpeed| ≤ maxVSpeed) ∧
  (speedBiasLimit i ≠ speedBiasLimit j →
    |clamp (speedTargetLimit i) w.tarSpeed - w.curSpeed| ≤ 2000)

/-- The condition on a tick of the motors `i` and `j`, in the modes with a speed controller. In the
position mode its target is the output of the position controller. -/
def TickWithin (i j : Fin 4) (ml : MotorList 4) : WheelOp → Prop
  | .handle _ =>
    match (ml i).flagRunMode with
    | .speed => (ml i).wheel.Within i j
    | .pos => (ml i).wheel.aim.Within i j
    | _ => True
  | _ => True

/-- The same call for motor `i` and for motor `j`, and the two values that a tick passes to the
drivers. -/
def twinStep (i j : Fin 4) (ml : MotorList 4) (op : WheelOp) :
    Option (MotorList 4 × List (Option (ℚ × ℚ))) := do
  let (ml, c) ← ((op.call i).exec ml).ret?
  let (ml, c') ← ((op.call j).exec ml).ret?
  pure (ml, [do pure ((← c).value, (← c').value)])

theorem maxVSpeed_lt_fltMax : maxVSpeed < fltMax := by norm_num [maxVSpeed, fltMax]

/-- A target in the range is cut by no target limit. -/
theorem clamp_speedTargetLimit {x : ℚ} (h : |x| ≤ maxVSpeed) (i : Fin 4) :
    Wheel.clamp (speedTargetLimit i) x = x := by
  refine Wheel.clamp_eq_self (h.trans ?_)
  unfold speedTargetLimit
  split
  · exact maxVSpeed_lt_fltMax.le
  · exact le_rfl

/-- Within the limits the error does not depend on them. -/
theorem Wheel.Within.speedError {i j : Fin 4} {w : Wheel} (h : w.Within i j) :
    w.speedError (speedTargetLimit i) (speedBiasLimit i) =
      w.speedError (speedTargetLimit j) (speedBiasLimit j) := by
  have htarget : clamp (speedTargetLimit i) w.tarSpeed = clamp (speedTargetLimit j) w.tarSpeed := by
    by_cases heq : speedTargetLimit i = speedTargetLimit j
    · rw [heq]
    · rw [clamp_speedTargetLimit (h.1 heq), clamp_speedTargetLimit (h.1 heq)]
  by_cases hbias : speedBiasLimit i = speedBiasLimit j
  · unfold Wheel.speedError
    rw [htarget, hbias]
  · have hle := h.2 hbias
    unfold Wheel.speedError
    rw [htarget] at hle ⊢
    generalize clamp (speedTargetLimit j) w.tarSpeed - w.curSpeed = e at hle
    -- the dead zone keeps the error in the range, so that no error limit cuts it
    have hdead : |if e < 20 ∧ e > -20 then 0 else e| ≤ 2000 := by
      split
      · norm_num
      · exact hle
    have hcut : ∀ k : Fin 4, ∀ x : ℚ, |x| ≤ 2000 →
        (if speedBiasLimit k > 0 then clamp (speedBiasLimit k) x else x) = x := by
      intro k x hx
      unfold speedBiasLimit
      by_cases hk : k.val < 2
      · rw [if_pos hk, clamp_eq_self hx, ite_self]
      · rw [if_neg hk, if_neg (by norm_num)]
    dsimp only
    rw [hcut i _ hdead, hcut j _ hdead]

theorem Wheel.Within.speedTick {i j : Fin 4} {w : Wheel} (h : w.Within i j) (cycle : ℚ) :
    w.speedTick (speedTargetLimit i) (speedBiasLimit i) cycle =
      w.speedTick (speedTargetLimit j) (speedBiasLimit j) cycle := by
  unfold Wheel.speedTick
  rw [h.speedError]

/-- Within the limits a call makes the same of both wheels. -/
theorem TickWithin.step_eq {i j : Fin 4} {ml : MotorList 4} {op : WheelOp}
    (h : TickWithin i j ml op) :
    (ml i).wheel.step (speedTargetLimit i) (speedBiasLimit i) op =
      (ml i).wheel.step (speedTargetLimit j) (speedBiasLimit j) op := by
  cases op with
  | handle cycle =>
    cases hm : (ml i).flagRunMode with
    | idel => rw [Wheel.step_idel _ _ _ hm, Wheel.step_idel _ _ _ hm]
    | torque => rw [Wheel.step_torque _ _ _ hm, Wheel.step_torque _ _ _ hm]
    | speed =>
      simp only [TickWithin, hm] at h
      rw [Wheel.step_speed _ _ _ hm, Wheel.step_speed _ _ _ hm, h.speedTick]
    | pos =>
      simp only [TickWithin, hm] at h
      rw [Wheel.step_pos _ _ _ hm, Wheel.step_pos _ _ _ hm, h.speedTick]
  | _ => rfl

/-- Two motors that are the same wheel. -/
def Twins (i j : Fin 4) (ml : MotorList 4) (w : Wheel) : Prop := w.Rep i (ml i) ∧ w.Rep j (ml j)

/-- All four motors start as the same wheel. -/
theorem motorDjInit_wheel (block : Apid) (i : Fin 4) :
    (motorDjInit block i).wheel = Motor.zero.wheel := by
  match i with
  | 0 => rfl
  | 1 => rfl
  | 2 => rfl
  | 3 => rfl

theorem motorDjInit_rep (block : Apid) (i : Fin 4) :
    (Motor.zero.wheel).Rep i (motorDjInit block i) := by
  have h := motorDjInit_rest block i
  refine ⟨congrArg Motor.flagPassiveFeedback h, congrArg Motor.behaver h,
    motorDjInit_pidSpeed block i, ?_, motorDjInit_wheel block i⟩
  rw [motorDjInit_pidPos]
  split
  · exact ⟨_, _, _, rfl⟩
  · exact ⟨_, _, _, rfl⟩

/-- The abstract side of `twinStep`: one wheel, and its output twice. -/
def twinSpec (i : Fin 4) (w : Wheel) (op : WheelOp) : Wheel × Option (ℚ × ℚ) :=
  let w := w.step (speedTargetLimit i) (speedBiasLimit i) op
  (w, if op.isTick then some (w.accOut, w.accOut) else none)

/-- One call for both motors, within the limits. -/
theorem twinStep_refines {i j : Fin 4} (hij : i ≠ j) {ml : MotorList 4} {w : Wheel}
    {op : WheelOp} (h : Twins i j ml w) (hwithin : TickWithin i j ml op) :
    ∃ ml', twinStep i j ml op = some (ml', [(twinSpec i w op).2]) ∧
      Twins i j ml' (twinSpec i w op).1 := by
  obtain ⟨hi, hj⟩ := h
  have hi' := hi.apply op
  have hj' := hj.apply op
  have heq := hwithin.step_eq
  rw [hi.wheel] at heq
  rw [← heq] at hj'
  let ml₁ := ml.modify i (WheelOp.apply · op)
  have hml₁ : ml₁ j = ml j := MotorList.modify_ne _ _ hij.symm
  have hml₁' : ml₁ i = op.apply (ml i) := MotorList.modify_same ..
  have hstep₁ := WheelOp.exec_call op hi.passive
  have hstep₂ : (op.call j).exec ml₁ = _ := WheelOp.exec_call op (by rw [hml₁]; exact hj.passive)
  rw [hml₁] at hstep₂
  refine ⟨ml₁.modify j (WheelOp.apply · op), ?_, ?_, ?_⟩
  · have hout₁ : (op.apply (ml i)).accOut = (twinSpec i w op).1.accOut := by
      rw [twinSpec, ← hi'.wheel]; rfl
    have hout₂ : (op.apply (ml j)).accOut = (twinSpec i w op).1.accOut := by
      rw [twinSpec, ← hj'.wheel]; rfl
    unfold twinStep
    rw [hstep₁]
    simp only [Call.ret?_ret, Option.bind_eq_bind, Option.bind_some]
    rw [hstep₂]
    cases htick : op.isTick with
    | false => simp [twinSpec, htick]
    | true => simp [twinSpec, htick, hout₁, hout₂]
  · rw [MotorList.modify_ne _ _ hij, hml₁']
    exact hi'
  · rw [MotorList.modify_same, hml₁]
    exact hj'

/-- All observations of the abstract run are pairs of equal values. -/
theorem specRun_twinSpec (i : Fin 4) (w : Wheel) (ops : List WheelOp) :
    ∀ o ∈ (specRun (twinSpec i) w ops).2, ∀ a b, o = some (a, b) → a = b := by
  induction ops generalizing w with
  | nil => simp [specRun]
  | cons op ops ih =>
    intro o ho a b hab
    rw [specRun, List.mem_cons] at ho
    rcases ho with rfl | ho
    · unfold twinSpec at hab
      cases htick : op.isTick with
      | false => simp [htick] at hab
      | true =>
        simp only [htick, ↓reduceIte, Option.some.injEq, Prod.mk.injEq] at hab
        exact hab.1.symm.trans hab.2
    · exact ih _ o ho a b hab

/-- Two motors of the shipped configuration with the same calls: as long as no tick reaches a limit
that only one of them has, every call returns and every tick passes the same value to both
drivers. -/
theorem wheels_agree (block : Apid) (i j : Fin 4) (hij : i ≠ j) (ops : List WheelOp)
    (h : AllSteps (twinStep i j) (TickWithin i j) (motorDjInit block) ops) :
    ∃ ml' values, runLog (twinStep i j) (motorDjInit block) ops = some (ml', values) ∧
      ∀ o ∈ values, ∀ a b, o = some (a, b) → a = b := by
  have hinit : Twins i j (motorDjInit block) Motor.zero.wheel :=
    ⟨motorDjInit_rep block i, motorDjInit_rep block j⟩
  have hstep : ∀ ml w op, Twins i j ml w → TickWithin i j ml op → TickWithin i j ml op →
      ∃ ml₁, twinStep i j ml op = some (ml₁, [(twinSpec i w op).2]) ∧
        Twins i j ml₁ (twinSpec i w op).1 :=
    fun ml w op ht hw _ => twinStep_refines hij ht hw
  obtain ⟨ml', hrun, -⟩ := runLog_refines hstep hinit h h
  exact ⟨ml', _, hrun, specRun_twinSpec i _ ops⟩

/-- The calls of a wheel that turns at 60, with ticks of 1. -/
def slowOps : List WheelOp := [.setSpeed 60, .handle ⟨1, by norm_num⟩, .feedbackSpeed 50]

theorem wheels_agree_slow :
    ∃ ml' values, runLog (twinStep 0 2) (motorDjInit .zero) slowOps = some (ml', values) ∧
      ∀ o ∈ values, ∀ a b, o = some (a, b) → a = b := by
  refine wheels_agree .zero 0 2 (by decide) slowOps ?_
  refine ⟨trivial, fun ml₁ l₁ h₁ => ?_⟩
  obtain ⟨rfl, -⟩ := Prod.mk.inj (Option.some.inj h₁)
  refine ⟨⟨fun _ => ?_, fun _ => ?_⟩, fun _ _ _ => ⟨trivial, fun _ _ _ => trivial⟩⟩
  · decide +kernel
  · decide +kernel

/-- A speed of 100. -/
def fastOps : List WheelOp := [.setSpeed 100, .handle ⟨1, by norm_num⟩]

/-- A wheel that turns backwards at 3000 and then stands still. -/
def backwardOps : List WheelOp :=
  [.feedbackSpeed (-3000), .setSpeed 0, .handle ⟨1 / 20, by norm_num⟩, .feedbackSpeed 0,
    .handle ⟨1 / 20, by norm_num⟩]

/-- At the speed 100 motor 0 aims at 80 and motor 2 at 100. After the backward turn motor 0 has
integrated an error of 2000 and motor 3 one of 3000. -/
theorem wheels_differ :
    (runLog (twinStep 0 2) (motorDjInit .zero) fastOps).map Prod.snd =
      some [none, some (16913.6, 21142)] ∧
    (runLog (twinStep 0 3) (motorDjInit .zero) backwardOps).map Prod.snd =
      some [none, none, some (30000, 30000), none, some (73, 109.5)] ∧
    ¬∀ i j : Fin 4, i ≠ j → ∀ ops : List WheelOp,
      ∃ ml' values, runLog (twinStep i j) (motorDjInit .zero) ops = some (ml', values) ∧
        ∀ o ∈ values, ∀ a b, o = some (a, b) → a = b := by
  have hfast : (runLog (twinStep 0 2) (motorDjInit .zero) fastOps).map Prod.snd =
      some [none, some (16913.6, 21142)] := by decide +kernel
  refine ⟨hfast, by decide +kernel, fun h => ?_⟩
  obtain ⟨ml', values, hrun, heq⟩ := h 0 2 (by decide) fastOps
  rw [hrun, Option.map_some, Option.some.injEq] at hfast
  change values = _ at hfast
  have := heq (some (16913.6, 21142)) (by rw [hfast]; simp) _ _ rfl
  norm_num at this

end Robot
