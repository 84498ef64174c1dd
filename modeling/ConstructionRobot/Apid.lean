import ConstructionRobot.Lib.Call

/-!
# The PID library (`apid.c`, `apid.h`)

One controller (`Apid`) and one tick of it (`pidHander`). `PID_TYPE` is `float`; the model
computes with exact rationals. The handler pointers `i_handle` and `d_handle` are the constructors
of `IHandle` and `DHandle`, and `IHandle.run`, `DHandle.run` call them.

The union `kd_` of `kd_lpf` and `kd_pre` (two floats at one address) is one field. The pointer
`handle` has one value in the sources, `_PID_Hander`, and no function reads `variable` or `k`:
they are left out.

`Apid.tick_out_enabled` is the output of an enabled controller in closed form: the weighted sum of
the error terms (`Apid.sum`), cut to the output limit.
-/

namespace Robot

/-- `run_status`. Every value but `STOP` and `PID_ENABLE` is treated as `PAUSE`. -/
inductive RunStatus where
  | stop
  | pidEnable
  | pause
  deriving DecidableEq, Repr

inductive PidMode where
  | position
  | increment
  deriving DecidableEq, Repr

inductive PidIFunction where
  | normal
  | separation
  | saturation
  | speed
  | trapeziod
  deriving DecidableEq, Repr

inductive PidDFunction where
  | complete
  | part
  | previous
  deriving DecidableEq, Repr

structure PidFlag where
  runStatus : RunStatus
  integralWay : PidIFunction
  differentialWay : PidDFunction
  pidMode : PidMode
  deriving DecidableEq, Repr

structure PidParameter where
  kp : ℚ
  ki : ℚ
  kd : ℚ
  kf : ℚ
  /-- The union of `kd_lpf` and `kd_pre`. -/
  kdU : ℚ
  kPre : ℚ
  targetLimit : ℚ
  biasLimit : ℚ
  biasDeadZone : ℚ
  biasForIntegral : ℚ
  integralLimit : ℚ
  outLimit : ℚ
  out : ℚ
  target : ℚ
  present : ℚ
  predict : ℚ
  deriving DecidableEq, Repr

structure PidProcess where
  bias : ℚ
  integralBias : ℚ
  differentialBias : ℚ
  lpfDifferentialBias : ℚ
  feedforward : ℚ
  predict : ℚ
  lastTarget : ℚ
  lastBias : ℚ
  lastlastBias : ℚ
  deriving DecidableEq, Repr

/-- The functions that `i_handle` can point to. -/
inductive IHandle where
  | incrementNormal
  | incrementSeparation
  | incrementSaturation
  | incrementSpeed
  | incrementTrapeziod
  | positionNormal
  | positionSeparation
  | positionSaturation
  | positionSpeed
  | positionTrapeziod
  deriving DecidableEq, Repr

/-- The functions that `d_handle` can point to. -/
inductive DHandle where
  | incrementComplete
  | incrementPart
  | incrementPrevious
  | positionComplete
  | positionPart
  | positionPrevious
  deriving DecidableEq, Repr

/-- `apid_t`. -/
structure Apid where
  flag : PidFlag
  parameter : PidParameter
  process : PidProcess
  cycle : ℚ
  iHandle : IHandle
  dHandle : DHandle
  deriving DecidableEq, Repr

namespace Apid

/-- The controller with a new integral term. -/
def setIntegral (pid : Apid) (x : ℚ) : Apid :=
  { pid with process.integralBias := x }

/-- The controller with a new derivative term: `lpf_differential_bias = differential_bias = x`. -/
def setDifferential (pid : Apid) (x : ℚ) : Apid :=
  { pid with process.differentialBias := x, process.lpfDifferentialBias := x }

end Apid

/-! ## Integral handlers -/

/-- The handler assigns the same value twice. -/
def iHandleIncrementNormal (pid : Apid) : Apid :=
  let pid := pid.setIntegral (pid.process.bias * pid.cycle)
  pid.setIntegral (pid.process.bias * pid.cycle)

def iHandleIncrementSeparation (pid : Apid) : Apid :=
  if pid.process.bias > pid.parameter.biasForIntegral ∨
      pid.process.bias < -pid.parameter.biasForIntegral then pid
  else pid.setIntegral (pid.process.bias * pid.cycle)

def iHandleIncrementSaturation (pid : Apid) : Apid :=
  if pid.process.integralBias * pid.parameter.ki > pid.parameter.integralLimit then
    pid.setIntegral (pid.parameter.integralLimit / pid.parameter.ki)
  else if pid.process.integralBias * pid.parameter.ki < -pid.parameter.integralLimit then
    pid.setIntegral (-pid.parameter.integralLimit / pid.parameter.ki)
  else pid.setIntegral (pid.process.bias * pid.cycle)

def iHandleIncrementSpeed (pid : Apid) : Apid :=
  let pid := pid.setIntegral ((pid.process.bias + pid.process.lastBias) / (2 * pid.cycle))
  pid.setIntegral
    (pid.process.integralBias - (pid.process.bias - pid.process.lastBias) * pid.cycle)

def iHandleIncrementTrapeziod (pid : Apid) : Apid :=
  pid.setIntegral ((pid.process.bias + pid.process.lastBias) / (2 * pid.cycle))

/-- The handler adds the same term twice. -/
def iHandlePositionNormal (pid : Apid) : Apid :=
  let pid := pid.setIntegral (pid.process.integralBias + pid.process.bias * pid.cycle)
  pid.setIntegral (pid.process.integralBias + pid.process.bias * pid.cycle)

def iHandlePositionSeparation (pid : Apid) : Apid :=
  if pid.process.bias > pid.parameter.biasForIntegral ∨
      pid.process.bias < -pid.parameter.biasForIntegral then pid
  else pid.setIntegral (pid.process.integralBias + pid.process.bias * pid.cycle)

/-- Unlike its incremental sibling, the handler stores the limit undivided by `ki`. -/
def iHandlePositionSaturation (pid : Apid) : Apid :=
  if pid.process.integralBias * pid.parameter.ki > pid.parameter.integralLimit then
    pid.setIntegral pid.parameter.integralLimit
  else if pid.process.integralBias * pid.parameter.ki < -pid.parameter.integralLimit then
    pid.setIntegral (-pid.parameter.integralLimit)
  else pid.setIntegral (pid.process.integralBias + pid.process.bias * pid.cycle)

def iHandlePositionSpeed (pid : Apid) : Apid :=
  let pid := pid.setIntegral
    (pid.process.integralBias + (pid.process.bias + pid.process.lastBias) / (2 * pid.cycle))
  pid.setIntegral
    (pid.process.integralBias - (pid.process.bias - pid.process.lastBias) * pid.cycle)

def iHandlePositionTrapeziod (pid : Apid) : Apid :=
  pid.setIntegral
    (pid.process.integralBias + (pid.process.bias + pid.process.lastBias) / (2 * pid.cycle))

/-- The call `pid->i_handle(pid)`. -/
def IHandle.run : IHandle → Apid → Apid
  | incrementNormal => iHandleIncrementNormal
  | incrementSeparation => iHandleIncrementSeparation
  | incrementSaturation => iHandleIncrementSaturation
  | incrementSpeed => iHandleIncrementSpeed
  | incrementTrapeziod => iHandleIncrementTrapeziod
  | positionNormal => iHandlePositionNormal
  | positionSeparation => iHandlePositionSeparation
  | positionSaturation => iHandlePositionSaturation
  | positionSpeed => iHandlePositionSpeed
  | positionTrapeziod => iHandlePositionTrapeziod

/-! ## Derivative handlers -/

/-- First-order low-pass filter. -/
def foLowPassFilter (input lastOut a : ℚ) : ℚ := a * input + (1 - a) * lastOut

def dHandleIncrementComplete (pid : Apid) : Apid :=
  pid.setDifferential
    (pid.process.bias - 2 * pid.process.lastBias + pid.process.lastlastBias)

def dHandleIncrementPart (pid : Apid) : Apid :=
  pid.setDifferential
    (foLowPassFilter (pid.process.bias - 2 * pid.process.lastBias + pid.process.lastlastBias)
      pid.process.lpfDifferentialBias pid.parameter.kdU)

def dHandleIncrementPrevious (pid : Apid) : Apid :=
  pid.setDifferential
    (pid.process.bias - 2 * pid.process.lastBias + pid.process.lastlastBias -
      pid.parameter.kdU * (pid.parameter.target - pid.process.lastTarget))

def dHandlePositionComplete (pid : Apid) : Apid :=
  pid.setDifferential (pid.process.bias - pid.process.lastBias)

def dHandlePositionPart (pid : Apid) : Apid :=
  pid.setDifferential
    (foLowPassFilter (pid.process.bias - pid.process.lastBias) pid.process.lpfDifferentialBias
      pid.parameter.kdU)

def dHandlePositionPrevious (pid : Apid) : Apid :=
  pid.setDifferential
    (pid.process.bias - pid.process.lastBias -
      pid.parameter.kdU * (pid.parameter.target - pid.process.lastTarget))

/-- The call `pid->d_handle(pid)`. -/
def DHandle.run : DHandle → Apid → Apid
  | incrementComplete => dHandleIncrementComplete
  | incrementPart => dHandleIncrementPart
  | incrementPrevious => dHandleIncrementPrevious
  | positionComplete => dHandlePositionComplete
  | positionPart => dHandlePositionPart
  | positionPrevious => dHandlePositionPrevious

/-! ## One tick -/

namespace Apid

/-- The target cut to `target_limit`. -/
def limitTarget (pid : Apid) : Apid :=
  if pid.parameter.target > pid.parameter.targetLimit then
    { pid with parameter.target := pid.parameter.targetLimit }
  else if pid.parameter.target < -pid.parameter.targetLimit then
    { pid with parameter.target := -pid.parameter.targetLimit }
  else pid

/-- The error after the dead zone (off unless `bias_dead_zone > 0`). -/
def deadZone (pid : Apid) (bias : ℚ) : ℚ :=
  if pid.parameter.biasDeadZone > 0 then
    if bias < pid.parameter.biasDeadZone ∧ bias > -pid.parameter.biasDeadZone then 0 else bias
  else bias

/-- The error after the error limit (off unless `bias_limit > 0`). -/
def limitBias (pid : Apid) (bias : ℚ) : ℚ :=
  if pid.parameter.biasLimit > 0 then
    let bias := if bias > pid.parameter.biasLimit then pid.parameter.biasLimit else bias
    if bias < -pid.parameter.biasLimit then -pid.parameter.biasLimit else bias
  else bias

/-- `ABS`. -/
def abs (x : ℚ) : ℚ := if x > 0 then x else -x

/-- The part of `_PID_Hander` before the handlers: target limit, feed-forward, prediction and
error. -/
def prepare (pid : Apid) : Apid :=
  let pid := pid.limitTarget
  let pid := { pid with process.feedforward := pid.parameter.kf * pid.parameter.target }
  let pid := { pid with
    process.predict := pid.parameter.kPre * pid.parameter.predict * abs pid.parameter.predict }
  let tempBias := pid.parameter.target - pid.parameter.present - pid.process.predict
  { pid with process.bias := pid.limitBias (pid.deadZone tempBias) }

/-- The weighted sum of the error terms that `__PID_Out` starts from. -/
def sum (pid : Apid) : ℚ :=
  pid.parameter.kp * pid.process.bias + pid.parameter.ki * pid.process.integralBias +
    pid.parameter.kd * pid.process.lpfDifferentialBias / pid.cycle + pid.process.feedforward

/-- The output cut to `out_limit` (off if the limit is negative). -/
def limitOut (pid : Apid) (out : ℚ) : ℚ :=
  if pid.parameter.outLimit ≥ 0 then
    if out > pid.parameter.outLimit then pid.parameter.outLimit
    else if out < -pid.parameter.outLimit then -pid.parameter.outLimit
    else out
  else out

/-- The macro `__OPERATE_STATUS` for a controller that is not enabled. -/
def idle (pid : Apid) : Apid :=
  { pid with
    parameter.out := if pid.flag.runStatus = .stop then 0 else pid.parameter.target
    parameter.present := 0
    parameter.predict := 0
    process.bias := 0
    process.differentialBias := 0
    process.lpfDifferentialBias := 0
    process.feedforward := 0
    process.integralBias := 0
    process.lastBias := 0
    process.lastTarget := 0
    process.lastlastBias := 0 }

end Apid

/-- `__PID_Out`. -/
def pidOut (pid : Apid) : Apid :=
  { pid with
    parameter.out := pid.limitOut pid.sum
    process.lastTarget := pid.parameter.target
    process.lastlastBias := pid.process.lastBias
    process.lastBias := pid.process.bias }

/-- `_PID_Hander`. -/
def pidHander (pid : Apid) (cycle : ℚ) : Apid :=
  let pid := { pid with cycle := cycle }
  if pid.flag.runStatus ≠ .pidEnable then pid.idle
  else
    let pid := pid.prepare
    let pid := pid.iHandle.run pid
    let pid := pid.dHandle.run pid
    pidOut pid

/-- `APID_Set_Target`. -/
def apidSetTarget (pid : Apid) (value : ℚ) : Apid := { pid with parameter.target := value }

/-- `APID_Set_Present`. -/
def apidSetPresent (pid : Apid) (value : ℚ) : Apid := { pid with parameter.present := value }

/-- `APID_Get_Out`. -/
def apidGetOut (pid : Apid) : ℚ := pid.parameter.out

/-! ## The output of a tick -/

namespace Apid

/-- The controller right before `__PID_Out`, in a tick of `cycle` towards `target` with the
feedback `present`. -/
def terms (pid : Apid) (target present cycle : ℚ) : Apid :=
  let pid := { apidSetPresent (apidSetTarget pid target) present with cycle := cycle }
  let pid := pid.prepare
  let pid := pid.iHandle.run pid
  pid.dHandle.run pid

/-- One tick towards `target` with the feedback `present`. -/
def tick (pid : Apid) (target present cycle : ℚ) : Apid :=
  pidHander (apidSetPresent (apidSetTarget pid target) present) cycle

@[simp] theorem setIntegral_parameter (pid : Apid) (x : ℚ) :
    (pid.setIntegral x).parameter = pid.parameter := rfl

@[simp] theorem setDifferential_parameter (pid : Apid) (x : ℚ) :
    (pid.setDifferential x).parameter = pid.parameter := rfl

@[simp] theorem iHandle_run_parameter (h : IHandle) (pid : Apid) :
    (h.run pid).parameter = pid.parameter := by
  cases h <;> simp only [IHandle.run, iHandleIncrementNormal, iHandleIncrementSeparation,
    iHandleIncrementSaturation, iHandleIncrementSpeed, iHandleIncrementTrapeziod,
    iHandlePositionNormal, iHandlePositionSeparation, iHandlePositionSaturation,
    iHandlePositionSpeed, iHandlePositionTrapeziod]
  all_goals (try split) <;> (try split) <;> rfl

@[simp] theorem dHandle_run_parameter (h : DHandle) (pid : Apid) :
    (h.run pid).parameter = pid.parameter := by
  cases h <;> rfl

@[simp] theorem limitTarget_outLimit (pid : Apid) :
    pid.limitTarget.parameter.outLimit = pid.parameter.outLimit := by
  unfold limitTarget
  split
  · rfl
  · split <;> rfl

@[simp] theorem prepare_outLimit (pid : Apid) :
    pid.prepare.parameter.outLimit = pid.parameter.outLimit := by
  simp [prepare]

theorem terms_outLimit (pid : Apid) (target present cycle : ℚ) :
    (pid.terms target present cycle).parameter.outLimit = pid.parameter.outLimit := by
  simp [terms, apidSetPresent, apidSetTarget]

/-- A limited output is zero exactly if the sum is, or the limit is. -/
theorem limitOut_eq_zero (pid : Apid) (x : ℚ) :
    pid.limitOut x = 0 ↔ pid.parameter.outLimit = 0 ∨ x = 0 := by
  unfold limitOut
  generalize pid.parameter.outLimit = L
  constructor
  · intro h
    split_ifs at h with h0 h1 h2
    · exact .inl h
    · exact .inl (by linarith)
    · exact .inr h
    · exact .inr h
  · rintro (rfl | rfl)
    · split_ifs with h0 h1 h2
      · rfl
      · simp
      · linarith
      · exact absurd le_rfl h0
    · split_ifs with h0 h1 h2
      · linarith
      · linarith
      · rfl
      · rfl

/-- The output of an enabled controller: its error terms, weighted and cut to the limit. -/
theorem tick_out_enabled {pid : Apid} (h : pid.flag.runStatus = .pidEnable)
    (target present cycle : ℚ) :
    apidGetOut (pid.tick target present cycle) =
      (pid.terms target present cycle).limitOut (pid.terms target present cycle).sum := by
  simp [tick, pidHander, apidSetPresent, apidSetTarget, h, apidGetOut, pidOut, terms]

end Apid

end Robot
