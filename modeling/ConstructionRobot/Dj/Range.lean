import ConstructionRobot.Dj.Config
import ConstructionRobot.Dj.Driver
import ConstructionRobot.Lib.Sys

/-!
# The range of the current (`motor.c`, `motor_dj_rm_driver.c`)

The driver converts the float that a tick gives it to an `int16_t`. In the speed and the position
mode that float is the output of the speed controller, cut to 30000. In the torque mode it is the
target of `motor_set_torque`, and nothing cuts that.

* `WheelOp.exec_call`: what a call does to the motor it is for.
* `Apid.IsPi.tick_out_abs_le`: the speed controller keeps its limit.
* `converts_iff`: all values of a run can be converted exactly if every tick in the torque mode
  finds a target in the range.
-/

namespace Robot

/-! ## Calls on one motor -/

/-- The calls on a motor that set a target or a feedback, and ticks. -/
inductive WheelOp where
  | setSpeed (value : ℚ)
  | setPos (value : ℚ)
  | setTorque (value : ℚ)
  | feedbackSpeed (value : ℚ)
  | feedbackPos (value : ℚ)
  | feedbackTorque (value : ℚ)
  | handle (cycle : { c : ℚ // 0 < c })

namespace WheelOp

/-- The call for motor `i`. -/
def call (i : Fin 4) : WheelOp → MotorOp
  | setSpeed value => .setSpeed i value
  | setPos value => .setPos i value
  | setTorque value => .setTorque i value
  | feedbackSpeed value => .feedbackSpeed i value
  | feedbackPos value => .feedbackPos i value
  | feedbackTorque value => .feedbackTorque i value
  | handle cycle => .handle i cycle

/-- What the call makes of the motor. -/
def apply (m : Motor) : WheelOp → Motor
  | setSpeed value => { m with flagRunMode := .speed, tarSpeed := value }
  | setPos value => { m with flagRunMode := .pos, tarPos := value }
  | setTorque value => { m with flagRunMode := .torque, tarTorque := value }
  | feedbackSpeed value => { m with curSpeed := value }
  | feedbackPos value => { m with curPos := value }
  | feedbackTorque value => { m with curTorque := value }
  | handle cycle =>
    let m := { m with time := trunc (m.time + cycle), flagIsStop := false }
    m.behaver.run m m.flagRunMode cycle

/-- The call is a tick. -/
def isTick : WheelOp → Bool
  | handle _ => true
  | _ => false

variable {ml : MotorList 4} {i : Fin 4}

/-- A call for a motor with passive feedback changes that motor; a tick passes its output to the
driver. -/
theorem exec_call (op : WheelOp) (h : (ml i).flagPassiveFeedback = true) :
    (op.call i).exec ml = .ret (ml.modify i (apply · op),
      if op.isTick then some ⟨i, (apply (ml i) op).flagOutMode, (apply (ml i) op).accOut⟩
      else none) := by
  have hassert : motorAssert (n := 4) (i : ℤ) = .ret i := motorAssert_eq_ret.mpr rfl
  have hindex : motorIndex (n := 4) (i : ℤ) = .ret (some i) := by
    unfold motorIndex motorGet
    rw [if_neg (by omega), dif_pos (by omega)]
    rfl
  cases op with
  | handle cycle =>
    simp only [call, MotorOp.exec, motorHandle, hassert, Call.ret_bind, updateFeedback,
      MotorList.modify_same, h, ↓reduceIte, Bool.false_eq_true, Call.pure_eq, isTick, apply]
    congr 2
    funext j
    by_cases hj : j = i
    · subst hj
      simp
    · simp [MotorList.modify_ne _ _ hj]
  | setSpeed value | setPos value | setTorque value =>
    simp [call, MotorOp.exec, motorSetSpeed, motorSetPos, motorSetTorque, hassert, isTick, apply]
  | feedbackSpeed value | feedbackPos value | feedbackTorque value =>
    simp [call, MotorOp.exec, motorFeedbackSpeed, motorFeedbackPos, motorFeedbackTorque,
      motorFeedback, hindex, isTick, apply]

end WheelOp

/-! ## The conversion -/

/-- The value can be converted to an `int16_t`: the conversion cuts it towards zero, and the sign
stays. -/
structure Converts (value : ℚ) : Prop where
  ge : -32768 ≤ value
  le : value ≤ 32767
  exact : int16OfFloat value = trunc value
  nonneg : 0 ≤ value → 0 ≤ int16OfFloat value
  nonpos : value ≤ 0 → int16OfFloat value ≤ 0

theorem trunc_nonneg {q : ℚ} (h : 0 ≤ q) : 0 ≤ trunc q := le_trunc (by exact_mod_cast h)

theorem trunc_nonpos {q : ℚ} (h : q ≤ 0) : trunc q ≤ 0 := trunc_le (by exact_mod_cast h)

/-- A value in the range is converted as it should be. -/
theorem converts_of_range {q : ℚ} (hge : -32768 ≤ q) (hle : q ≤ 32767) : Converts q := by
  have hlow : -32768 ≤ trunc q := le_trunc (by exact_mod_cast hge)
  have hhigh : trunc q ≤ 32767 := trunc_le (by exact_mod_cast hle)
  have hexact : int16OfFloat q = trunc q :=
    sint_eq_self (by decide) (by simpa using hlow) (by simp; omega)
  refine ⟨hge, hle, hexact, fun h => ?_, fun h => ?_⟩
  · rw [hexact]
    exact trunc_nonneg h
  · rw [hexact]
    exact trunc_nonpos h

theorem converts_iff_range {q : ℚ} : Converts q ↔ -32768 ≤ q ∧ q ≤ 32767 :=
  ⟨fun h => ⟨h.ge, h.le⟩, fun h => converts_of_range h.1 h.2⟩

/-! ## The invariant -/

theorem speedConfig_isPi (targetLimit biasLimit : ℚ) : (speedConfig targetLimit biasLimit).IsPi :=
  ⟨rfl, rfl, rfl, rfl⟩

theorem Apid.limitOut_abs_le {pid : Apid} (h : 0 ≤ pid.parameter.outLimit) (x : ℚ) :
    |pid.limitOut x| ≤ pid.parameter.outLimit := by
  unfold limitOut
  rw [abs_le, if_pos h]
  split
  · constructor <;> linarith
  · split
    · constructor <;> linarith
    · constructor <;> linarith

/-- The speed controllers of the configuration keep their limit. -/
theorem speedConfig_out_abs_le {pid : Apid} {targetLimit biasLimit : ℚ}
    (h : pid.config = speedConfig targetLimit biasLimit) (target present cycle : ℚ) :
    |apidGetOut (pid.tick target present cycle)| ≤ 30000 := by
  have hlim : pid.parameter.outLimit = 30000 := congrArg (fun c => c.parameter.outLimit) h
  have hpi : pid.IsPi := Apid.config_isPi h (speedConfig_isPi _ _)
  rw [hpi.tick_out, ← hlim]
  exact Apid.limitOut_abs_le (by rw [hlim]; norm_num) _

/-- What every call keeps: the speed controller is one of the configuration, the hardware takes
torque, and a motor that never got a target has the output zero. -/
structure Motor.Limited (m : Motor) : Prop where
  passive : m.flagPassiveFeedback = true
  behaver : m.behaver = .behiver2
  speed : ∃ targetLimit biasLimit, m.pidSpeed.config = speedConfig targetLimit biasLimit
  idle : m.flagRunMode = .idel → m.accOut = 0

theorem motorDjInit_limited (block : Apid) (i : Fin 4) : (motorDjInit block i).Limited :=
  have h := motorDjInit_rest block i
  ⟨congrArg Motor.flagPassiveFeedback h, congrArg Motor.behaver h,
    ⟨_, _, motorDjInit_pidSpeed block i⟩, fun _ => congrArg Motor.accOut h⟩

variable {m : Motor}

theorem Motor.Limited.tick_config (h : m.Limited) (target present cycle : ℚ) :
    ∃ targetLimit biasLimit,
      (m.pidSpeed.tick target present cycle).config = speedConfig targetLimit biasLimit := by
  obtain ⟨tl, bl, hc⟩ := h.speed
  have hpi : m.pidSpeed.IsPi := Apid.config_isPi hc (speedConfig_isPi _ _)
  exact ⟨tl, bl, by rw [hpi.tick_config, hc]⟩

theorem Motor.Limited.apply (h : m.Limited) (op : WheelOp) : (op.apply m).Limited := by
  cases op with
  | handle cycle =>
    cases hmode : m.flagRunMode with
    | idel =>
      simp only [WheelOp.apply, h.behaver, hmode, Behiver.run, motorBehiver2]
      exact ⟨h.passive, rfl, h.speed, fun _ => h.idle hmode⟩
    | torque =>
      simp only [WheelOp.apply, h.behaver, hmode, Behiver.run, motorBehiver2]
      exact ⟨h.passive, rfl, h.speed, fun hm => by cases hm⟩
    | speed =>
      simp only [WheelOp.apply, h.behaver, hmode, Behiver.run, motorBehiver2, Motor.speedLoop]
      exact ⟨h.passive, rfl, h.tick_config _ _ _, fun hm => by cases hm⟩
    | pos =>
      simp only [WheelOp.apply, h.behaver, hmode, Behiver.run, motorBehiver2, Motor.speedLoop,
        Motor.posLoop]
      exact ⟨h.passive, rfl, h.tick_config _ _ _, fun hm => by cases hm⟩
  | setSpeed value | setPos value | setTorque value =>
    exact ⟨h.passive, h.behaver, h.speed, fun hm => by cases hm⟩
  | feedbackSpeed value | feedbackPos value | feedbackTorque value =>
    exact ⟨h.passive, h.behaver, h.speed, h.idle⟩

/-- The output of a tick can be converted exactly if the motor is not in the torque mode, or its
target is in the range. -/
theorem Motor.Limited.tick_converts_iff (h : m.Limited) (cycle : { c : ℚ // 0 < c }) :
    Converts (WheelOp.apply m (.handle cycle)).accOut ↔
      (m.flagRunMode = .torque → -32768 ≤ m.tarTorque ∧ m.tarTorque ≤ 32767) := by
  obtain ⟨tl, bl, hc⟩ := h.speed
  have hspeed : ∀ target, Converts (apidGetOut (m.pidSpeed.tick target m.curSpeed cycle)) := by
    intro target
    have := abs_le.mp (speedConfig_out_abs_le hc target m.curSpeed cycle)
    exact converts_of_range (by linarith) (by linarith)
  cases hmode : m.flagRunMode with
  | idel =>
    simp only [WheelOp.apply, h.behaver, hmode, Behiver.run, motorBehiver2, h.idle hmode]
    exact iff_of_true (converts_of_range (by norm_num) (by norm_num)) (fun hm => by cases hm)
  | torque =>
    simp only [WheelOp.apply, h.behaver, hmode, Behiver.run, motorBehiver2, true_imp_iff]
    exact converts_iff_range
  | speed =>
    simp only [WheelOp.apply, h.behaver, hmode, Behiver.run, motorBehiver2, Motor.speedLoop]
    exact iff_of_true (hspeed _) (fun hm => by cases hm)
  | pos =>
    simp only [WheelOp.apply, h.behaver, hmode, Behiver.run, motorBehiver2, Motor.speedLoop,
      Motor.posLoop]
    exact iff_of_true (hspeed _) (fun hm => by cases hm)

/-! ## Runs -/

/-- A call for one of the motors, and the value that it passes to the driver. -/
def wheelStep (ml : MotorList 4) (e : Fin 4 × WheelOp) : Option (MotorList 4 × List ℚ) :=
  ((e.2.call e.1).exec ml).ret?.map fun (ml', c) => (ml', (c.map DriverCall.value).toList)

/-- A tick in the torque mode finds a target in the range of `int16_t`. -/
def TorqueFits (ml : MotorList 4) : Fin 4 × WheelOp → Prop
  | (i, .handle _) =>
    (ml i).flagRunMode = .torque → -32768 ≤ (ml i).tarTorque ∧ (ml i).tarTorque ≤ 32767
  | _ => True

theorem wheelStep_eq {ml : MotorList 4} (h : ∀ i, (ml i).Limited) (e : Fin 4 × WheelOp) :
    wheelStep ml e = some (ml.modify e.1 (WheelOp.apply · e.2),
      if e.2.isTick then [(WheelOp.apply (ml e.1) e.2).accOut] else []) := by
  rw [wheelStep, WheelOp.exec_call e.2 (h e.1).passive]
  cases e.2.isTick <;> rfl

theorem modify_limited {ml : MotorList 4} (h : ∀ i, (ml i).Limited) (e : Fin 4 × WheelOp)
    (j : Fin 4) : (ml.modify e.1 (WheelOp.apply · e.2) j).Limited := by
  by_cases hj : j = e.1
  · subst hj
    rw [MotorList.modify_same]
    exact (h _).apply e.2
  · rw [MotorList.modify_ne _ _ hj]
    exact h j

/-- Every run of calls after `motor_dj_init` returns, and all the values that it passes to the
driver can be converted exactly if every tick in the torque mode finds a target in the range. -/
theorem converts_iff (block : Apid) (ops : List (Fin 4 × WheelOp)) :
    ∃ ml' values, runLog wheelStep (motorDjInit block) ops = some (ml', values) ∧
      ((∀ v ∈ values, Converts v) ↔ AllSteps wheelStep TorqueFits (motorDjInit block) ops) := by
  have hinit := motorDjInit_limited block
  have htotal : ∀ (ml : MotorList 4) (e : Fin 4 × WheelOp), (∀ i, (ml i).Limited) →
      ∃ ml₁ l₁, wheelStep ml e = some (ml₁, l₁) ∧ ∀ i, (ml₁ i).Limited :=
    fun ml e h => ⟨_, _, wheelStep_eq h e, modify_limited h e⟩
  have hstep : ∀ ml e ml₁ l₁, (∀ i, (ml i).Limited) → wheelStep ml e = some (ml₁, l₁) →
      (∀ i, (ml₁ i).Limited) ∧
        (((∀ v ∈ l₁, Converts v) ∧ True) ↔ (True ∧ TorqueFits ml e)) := by
    intro ml e ml₁ l₁ h hstep
    rw [wheelStep_eq h e, Option.some.injEq, Prod.mk.injEq] at hstep
    obtain ⟨rfl, rfl⟩ := hstep
    refine ⟨modify_limited h e, ?_⟩
    obtain ⟨i, op⟩ := e
    cases op with
    | handle cycle => simpa [WheelOp.isTick, TorqueFits] using (h i).tick_converts_iff cycle
    | _ => simp [WheelOp.isTick, TorqueFits]
  obtain ⟨ml', values, hrun, -⟩ := runLog_total htotal hinit ops
  refine ⟨ml', values, hrun, ?_⟩
  have hiff := runLog_iff hstep hinit hrun
  rwa [and_true, true_and] at hiff

/-- A torque of 40000 reaches the driver: the current becomes -25536. -/
theorem torque_out_of_range :
    ∃ ml' values,
      runLog wheelStep (motorDjInit .zero) [(0, .setTorque 40000), (0, .handle ⟨1, by decide⟩)] =
        some (ml', values) ∧
      values = [40000] ∧ int16OfFloat 40000 = -25536 ∧ ¬∀ v ∈ values, Converts v := by
  refine ⟨_, [40000], rfl, rfl, by decide +kernel, fun h => ?_⟩
  have := (h 40000 (by simp)).le
  norm_num at this

end Robot
