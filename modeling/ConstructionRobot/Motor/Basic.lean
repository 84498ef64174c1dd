import ConstructionRobot.Apid
import Mathlib.Logic.Function.Basic

/-!
# The motor layer (`motor.c`, `motor.h`)

The motor table `motor_list` (`MotorList n`, with `n` for `MOTOR_NUM`), the four behaviours, the
control tick `motor_handle` and the calls that set targets, feedback and the stop flag.

An `id` is a C `int`. `motor_get` checks it only from above: it gives `NULL` for `id >= MOTOR_NUM`
and an address before the table for a negative `id`. Most callers stop on `NULL` in `MOTOR_ASSERT`
(a `while (1)`), so those calls hang.

The controllers `pid_speed`, `pid_pos` and `pid_torque` are pointers to one object each, so they
are part of the motor. Every `ops` of the configuration is `motor_dj_driver` and `motor_dj_ctr`;
a tick gives the call of the driver (`DriverCall`), and the control function is `motorDjCtr`.
-/

namespace Robot

/-- The two-bit fields `flag_run_mode` and `flag_out_mode`: the first four values of
`MOTOR_VALUE_TYPE`. -/
inductive RunMode where
  | idel
  | torque
  | speed
  | pos
  deriving DecidableEq, Repr

/-- `MOTOR_VALUE_TYPE`, as a command of the control function. -/
inductive MotorValueType where
  | idel
  | torque
  | speed
  | pos
  | voltage
  | temp
  | safetyStop
  | safetyStart
  deriving DecidableEq, Repr

/-- The functions that `behaver` can point to. -/
inductive Behiver where
  | behiver1
  | behiver2
  | behiver3
  | behiver4
  deriving DecidableEq, Repr

/-- `motor_t`. -/
structure Motor where
  id : ℤ
  time : ℤ
  posTick : UInt8
  speedTick : UInt8
  torqueTick : UInt8
  pidSpeed : Apid
  pidPos : Apid
  pidTorque : Apid
  tarSpeed : ℚ
  tarPos : ℚ
  tarTorque : ℚ
  curSpeed : ℚ
  curPos : ℚ
  curTorque : ℚ
  flagRunMode : RunMode
  flagOutMode : RunMode
  flagPassiveFeedback : Bool
  flagIsStop : Bool
  behaver : Behiver
  accOut : ℚ
  deriving DecidableEq, Repr

/-- A controller that was never configured. -/
def Apid.zero : Apid where
  flag := ⟨.stop, .normal, .complete, .position⟩
  parameter := ⟨0, 0, 0, 0, 0, 0, 0, 0, 0, 0, 0, 0, 0, 0, 0, 0⟩
  process := ⟨0, 0, 0, 0, 0, 0, 0, 0, 0⟩
  cycle := 0
  iHandle := .positionNormal
  dHandle := .positionComplete

/-- A motor with torque hardware and passive feedback, all values zero. -/
def Motor.zero : Motor where
  id := 0
  time := 0
  posTick := 10
  speedTick := 5
  torqueTick := 1
  pidSpeed := .zero
  pidPos := .zero
  pidTorque := .zero
  tarSpeed := 0
  tarPos := 0
  tarTorque := 0
  curSpeed := 0
  curPos := 0
  curTorque := 0
  flagRunMode := .idel
  flagOutMode := .torque
  flagPassiveFeedback := true
  flagIsStop := false
  behaver := .behiver2
  accOut := 0

/-! ## Behaviours -/

namespace Motor

/-- The case `MOTOR_MODE_POS` with a position controller: its output is the speed target. -/
def posLoop (m : Motor) (cycle : ℚ) : Motor :=
  let pid := m.pidPos.tick m.tarPos m.curPos cycle
  { m with pidPos := pid, tarSpeed := apidGetOut pid }

/-- The case `MOTOR_MODE_SPEED` with a speed controller: its output is the torque target. -/
def speedLoop (m : Motor) (cycle : ℚ) : Motor :=
  let pid := m.pidSpeed.tick m.tarSpeed m.curSpeed cycle
  { m with pidSpeed := pid, tarTorque := apidGetOut pid }

/-- The case `MOTOR_MODE_TORQUE` with a torque controller: its output goes to the driver. -/
def torqueLoop (m : Motor) (cycle : ℚ) : Motor :=
  let pid := m.pidTorque.tick m.tarTorque m.curTorque cycle
  { m with pidTorque := pid, accOut := apidGetOut pid }

end Motor

/-- The hardware supports no mode: all three loops run. The cases fall through. -/
def motorBehiver1 (m : Motor) (mode : RunMode) (cycle : ℚ) : Motor :=
  match mode with
  | .pos => ((m.posLoop cycle).speedLoop cycle).torqueLoop cycle
  | .speed => (m.speedLoop cycle).torqueLoop cycle
  | .torque => m.torqueLoop cycle
  | .idel => m

/-- The hardware supports torque. -/
def motorBehiver2 (m : Motor) (mode : RunMode) (cycle : ℚ) : Motor :=
  let out (m : Motor) : Motor := { m with accOut := m.tarTorque }
  match mode with
  | .pos => out ((m.posLoop cycle).speedLoop cycle)
  | .speed => out (m.speedLoop cycle)
  | .torque => out m
  | .idel => m

/-- The hardware supports torque and speed. -/
def motorBehiver3 (m : Motor) (mode : RunMode) (cycle : ℚ) : Motor :=
  let out (m : Motor) : Motor := { m with accOut := m.tarSpeed }
  match mode with
  | .pos => out (m.posLoop cycle)
  | .speed => out m
  | .torque => { m with accOut := m.tarTorque }
  | .idel => m

/-- The hardware supports torque, speed and position. -/
def motorBehiver4 (m : Motor) (mode : RunMode) (_cycle : ℚ) : Motor :=
  match mode with
  | .pos => { m with accOut := m.tarPos }
  | .speed => { m with accOut := m.tarSpeed }
  | .torque => { m with accOut := m.tarTorque }
  | .idel => m

/-- The call `motor->behaver(id, mode, &cycle, user_data)`. -/
def Behiver.run : Behiver → Motor → RunMode → ℚ → Motor
  | behiver1 => motorBehiver1
  | behiver2 => motorBehiver2
  | behiver3 => motorBehiver3
  | behiver4 => motorBehiver4

/-! ## The table -/

/-- `motor_list`. -/
abbrev MotorList (n : ℕ) := Fin n → Motor

variable {n : ℕ}

/-- `motor_get`: `none` is `NULL`. -/
def motorGet (id : ℤ) : Call (Option (Fin n)) :=
  if id ≥ n then .ret none
  else if h : 0 ≤ id ∧ id < n then .ret (some ⟨id.toNat, by omega⟩)
  else .fault

/-- `MOTOR_ASSERT(motor)` after `motor_get`. -/
def motorAssert (id : ℤ) : Call (Fin n) := do
  match ← motorGet id with
  | some i => pure i
  | none => .hang

/-- The object of `motor_get(id)`, used without a check. -/
def motorDeref (id : ℤ) : Call (Fin n) := do
  match ← motorGet id with
  | some i => pure i
  | none => .fault

/-- `motor_list[id]` after `MOTOR_ASSERT_ID(id)`: `none` for `id >= MOTOR_NUM`. -/
def motorIndex (id : ℤ) : Call (Option (Fin n)) := motorGet id

/-- The table with motor `i` changed by `f`. -/
def MotorList.modify (ml : MotorList n) (i : Fin n) (f : Motor → Motor) : MotorList n :=
  Function.update ml i (f (ml i))

def motorStart (ml : MotorList n) (id : ℤ) : Call (MotorList n) := do
  let i ← motorAssert id
  pure (ml.modify i fun m => { m with flagIsStop := false })

def motorStop (ml : MotorList n) (id : ℤ) : Call (MotorList n) := do
  let i ← motorAssert id
  pure (ml.modify i fun m => { m with flagIsStop := true })

def motorSetSpeed (ml : MotorList n) (id : ℤ) (value : ℚ) : Call (MotorList n) := do
  let i ← motorAssert id
  pure (ml.modify i fun m => { m with flagRunMode := .speed, tarSpeed := value })

def motorSetPos (ml : MotorList n) (id : ℤ) (value : ℚ) : Call (MotorList n) := do
  let i ← motorAssert id
  pure (ml.modify i fun m => { m with flagRunMode := .pos, tarPos := value })

def motorSetTorque (ml : MotorList n) (id : ℤ) (value : ℚ) : Call (MotorList n) := do
  let i ← motorAssert id
  pure (ml.modify i fun m => { m with flagRunMode := .torque, tarTorque := value })

/-- The three feedback calls check the id themselves and return on one that is too large. -/
def motorFeedback (ml : MotorList n) (id : ℤ) (f : Motor → Motor) : Call (MotorList n) := do
  match ← motorIndex id with
  | some i => pure (ml.modify i f)
  | none => pure ml

def motorFeedbackTorque (ml : MotorList n) (id : ℤ) (value : ℚ) : Call (MotorList n) :=
  motorFeedback ml id fun m => { m with curTorque := value }

def motorFeedbackSpeed (ml : MotorList n) (id : ℤ) (value : ℚ) : Call (MotorList n) :=
  motorFeedback ml id fun m => { m with curSpeed := value }

def motorFeedbackPos (ml : MotorList n) (id : ℤ) (value : ℚ) : Call (MotorList n) :=
  motorFeedback ml id fun m => { m with curPos := value }

/-- `motor_dj_ctr` (`motor_dj_rm_driver.c`). The readings of torque, speed and position are
commented out; `MOTOR_MODE_TEMP` writes a constant to the caller's variable. -/
def motorDjCtr (ml : MotorList n) (id : ℤ) (cmd : MotorValueType) : Call (MotorList n) := do
  let _ ← motorDeref (n := n) id
  match cmd with
  | .safetyStop => motorStop ml id
  | .safetyStart => motorStart ml id
  | _ => pure ml

/-! ## The control tick -/

/-- One reading of `__motor_read_feedback`: every `tick` units of `time`. -/
def readFeedback (ml : MotorList n) (m : Motor) (tick : UInt8) (mode : MotorValueType) :
    Call (MotorList n) :=
  if tick = 0 then .fault
  else if m.time.tmod tick.toNat = 0 then motorDjCtr ml m.id mode
  else pure ml

/-- `__motor_read_feedback` of motor `m`. -/
def motorReadFeedback (ml : MotorList n) (m : Motor) : Call (MotorList n) := do
  let ml ← readFeedback ml m m.torqueTick .torque
  let ml ← readFeedback ml m m.speedTick .speed
  readFeedback ml m m.posTick .pos

/-- The feedback part of a tick: a motor with passive feedback is not read. -/
def updateFeedback (ml : MotorList n) (i : Fin n) : Call (MotorList n) :=
  if (ml i).flagPassiveFeedback then .ret ml else motorReadFeedback ml (ml i)

/-- The call `ops->driver(id, mode, value, user_data)` of a tick. -/
structure DriverCall where
  id : ℤ
  mode : RunMode
  value : ℚ
  deriving DecidableEq, Repr

/-- `motor_handle`. The tick clears the stop flag before it reads it. -/
def motorHandle (ml : MotorList n) (id : ℤ) (cycle : ℚ) : Call (MotorList n × DriverCall) := do
  let i ← motorAssert id
  let ml := ml.modify i fun m => { m with time := trunc (m.time + cycle) }
  let ml ← updateFeedback ml i
  let ml := ml.modify i fun m => { m with flagIsStop := false }
  let ml := if (ml i).flagIsStop then ml.modify i fun m => { m with accOut := 0 }
    else ml.modify i fun m => m.behaver.run m m.flagRunMode cycle
  pure (ml, { id, mode := (ml i).flagOutMode, value := (ml i).accOut })

/-! ## Lemmas -/

@[simp] theorem MotorList.modify_same (ml : MotorList n) (i : Fin n) (f : Motor → Motor) :
    ml.modify i f i = f (ml i) := by
  simp [MotorList.modify]

theorem MotorList.modify_ne (ml : MotorList n) {i j : Fin n} (f : Motor → Motor) (h : j ≠ i) :
    ml.modify i f j = ml j := by
  simp [MotorList.modify, h]

/-- `MOTOR_ASSERT` lets through exactly the ids of the table. -/
theorem motorAssert_eq_ret {id : ℤ} {i : Fin n} :
    motorAssert id = .ret i ↔ id = (i : ℤ) := by
  have hi := i.isLt
  unfold motorAssert motorGet
  by_cases h : id ≥ n
  · simp only [h, ↓reduceIte, Call.ret_bind, reduceCtorEq, false_iff]
    omega
  · by_cases h' : 0 ≤ id ∧ id < n
    · simp only [h, h', ↓reduceIte, and_self, ↓reduceDIte, Call.ret_bind, Call.pure_eq,
        Call.ret.injEq, Fin.ext_iff]
      omega
    · simp only [h, h', ↓reduceIte, ↓reduceDIte, Call.fault_bind, reduceCtorEq, false_iff]
      omega

/-- Reading the feedback changes nothing: the control function of the configuration does not
write torque, speed or position. -/
theorem readFeedback_ret {ml ml' : MotorList n} {m : Motor} {tick : UInt8} {mode : MotorValueType}
    (hm : mode = .torque ∨ mode = .speed ∨ mode = .pos)
    (h : readFeedback ml m tick mode = .ret ml') : ml' = ml := by
  unfold readFeedback at h
  split at h
  · cases h
  · split at h
    · obtain ⟨_, -, h⟩ := Call.bind_eq_ret.mp h
      rcases hm with rfl | rfl | rfl <;> simpa using h.symm
    · simpa using h.symm

theorem motorReadFeedback_ret {ml ml' : MotorList n} {m : Motor}
    (h : motorReadFeedback ml m = .ret ml') : ml' = ml := by
  obtain ⟨ml₁, h₁, h⟩ := Call.bind_eq_ret.mp h
  obtain ⟨ml₂, h₂, h₃⟩ := Call.bind_eq_ret.mp h
  rw [readFeedback_ret (by simp) h₃, readFeedback_ret (by simp) h₂, readFeedback_ret (by simp) h₁]

theorem updateFeedback_ret {ml ml' : MotorList n} {i : Fin n}
    (h : updateFeedback ml i = .ret ml') : ml' = ml := by
  unfold updateFeedback at h
  split at h
  · simpa using h.symm
  · exact motorReadFeedback_ret h

/-- What a tick that returns does: it runs the behaviour of the motor, whatever the stop flag
was, and passes the result to the driver. -/
theorem motorHandle_ret {ml ml' : MotorList n} {id : ℤ} {cycle : ℚ} {c : DriverCall}
    (h : motorHandle ml id cycle = .ret (ml', c)) :
    ∃ i : Fin n, id = (i : ℤ) ∧ c.id = id ∧
      ml' = ml.modify i (fun m =>
        let m := { m with time := trunc (m.time + cycle), flagIsStop := false }
        m.behaver.run m m.flagRunMode cycle) ∧
      c.value = (ml' i).accOut := by
  obtain ⟨i, hi, h⟩ := Call.bind_eq_ret.mp h
  obtain ⟨ml₁, h₁, h⟩ := Call.bind_eq_ret.mp h
  obtain rfl := updateFeedback_ret h₁
  simp only [MotorList.modify_same, Bool.false_eq_true, ↓reduceIte, Call.pure_eq, Call.ret.injEq,
    Prod.mk.injEq] at h
  obtain ⟨rfl, rfl⟩ := h
  refine ⟨i, motorAssert_eq_ret.mp hi, rfl, ?_, by simp⟩
  funext j
  by_cases hj : j = i
  · subst hj; simp
  · simp [MotorList.modify_ne _ _ hj]

end Robot
