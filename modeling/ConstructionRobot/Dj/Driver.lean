import ConstructionRobot.Motor.Basic

/-!
# The CAN motor driver (`motor_dj_rm_driver.c`)

The receive callback `ind_dj_can_motor_callback`, the transmit function `motor_dj_driver` and
`dj_motor_BackToZero`, for configurations of M3508 and M2006 motors on CAN1. `DjState m n` has the
`m = DJ_M_NUM` entries of `dj_motors` and the `n = MOTOR_NUM` entries of `motor_list`.

* Angles and can ids are 16-bit, the frame counter `msg_cnt` is 8-bit. `round_cnt` and
  `total_angle` are 32-bit signed: every assignment stores `sint 32` of the value.
* `motor_get_by_canid` searches with 8-bit indices, so `right = mid - 1` wraps at `0`. A search
  step outside the table is a fault.
* `rt_device_write` succeeds or fails as the environment decides (`writeOk`).
-/

namespace Robot

/-- `motor_measure_t`. -/
structure MotorMeasure where
  id : UInt8
  canId : UInt16
  angle : UInt16
  msgCnt : UInt8
  lastAngle : UInt16
  offsetAngle : UInt16
  roundCnt : ℤ
  totalAngle : ℤ
  deriving DecidableEq, Repr

/-- The id and the data of a `struct rt_can_msg`. -/
structure CanMsg where
  id : ℕ
  data : Vector UInt8 8
  deriving DecidableEq, Repr

/-- The variables of the driver. `userData` is the table of `ops->user_data`: the entry of
`dj_motors` that belongs to a motor. -/
structure DjState (m n : ℕ) where
  djMotors : Fin m → MotorMeasure
  motorList : MotorList n
  userData : Fin n → Fin m
  iq1Low : Fin 4 → ℤ
  iq1High : Fin 4 → ℤ
  /-- `dj_m_ringfifo`, of 4096 bytes. -/
  djMRingfifo : List UInt8

/-- `CAN_Motor1_ID`, `CAN_Motor_ALL_ID` and `CAN_Motor_ALL_ID2`. -/
def canMotor1Id : ℕ := 0x201
def canMotorAllId : ℕ := 0x200
def canMotorAllId2 : ℕ := 0x1FF

variable {m n : ℕ}

/-! ## Lookup by can id -/

/-- The loop of `motor_get_by_canid`. Without the wrap of `right` it makes at most 256 rounds; a
search that is not done by then does not end. `ids` are the can ids of the table. -/
def searchCanid (ids : Fin m → UInt16) (canId : UInt16) :
    ℕ → UInt8 → UInt8 → Call (Option (Fin m))
  | 0, _, _ => .hang
  | fuel + 1, left, right =>
    if left ≤ right then
      let mid := UInt8.ofNat ((left.toNat + right.toNat) / 2)
      if h : mid.toNat < m then
        if ids ⟨mid.toNat, h⟩ = canId then .ret (some ⟨mid.toNat, h⟩)
        else if ids ⟨mid.toNat, h⟩ < canId then searchCanid ids canId fuel (mid + 1) right
        else searchCanid ids canId fuel left (mid - 1)
      else .fault
    else .ret none

def motorGetByCanid (dj : Fin m → MotorMeasure) (canId : UInt16) : Call (Option (Fin m)) :=
  searchCanid (fun k => (dj k).canId) canId 256 0 (UInt8.ofNat (m - 1))

/-! ## Feedback frames -/

/-- A 16-bit field of a frame, high byte first. -/
def CanMsg.word (msg : CanMsg) (i : ℕ) (h : i + 1 < 8 := by omega) : UInt16 :=
  UInt16.ofNat (msg.data[i].toNat * 256 + msg.data[i + 1].toNat)

/-- The angle, the speed and the torque current of a feedback frame. -/
abbrev CanMsg.angle (msg : CanMsg) : UInt16 := msg.word 0
abbrev CanMsg.speed (msg : CanMsg) : UInt16 := msg.word 2
abbrev CanMsg.torque (msg : CanMsg) : UInt16 := msg.word 4

/-- The change of `round_cnt`: a step of more than half a turn back is a turn forward. -/
def roundStep (lastAngle angle : UInt16) (roundCnt : ℤ) : ℤ :=
  if (angle.toNat : ℤ) - lastAngle.toNat > 4096 then sint 32 (roundCnt - 1)
  else if (angle.toNat : ℤ) - lastAngle.toNat < -4096 then sint 32 (roundCnt + 1)
  else roundCnt

/-- What the callback does to the entry of the frame's motor: calibration in the first 50
frames, then unwrapping. -/
def MotorMeasure.receive (mm : MotorMeasure) (angle : UInt16) : MotorMeasure :=
  if mm.msgCnt < 50 then
    { mm with msgCnt := mm.msgCnt + 1, offsetAngle := angle, angle := angle }
  else
    let roundCnt := roundStep mm.angle angle mm.roundCnt
    { mm with
      lastAngle := mm.angle
      angle := angle
      roundCnt := roundCnt
      msgCnt := 0xff
      totalAngle := sint 32 (roundCnt * 8191 + angle.toNat - mm.offsetAngle.toNat) }

/-- `rt_ringbuffer_putchar_force`: a full buffer loses its oldest byte. -/
def putcharForce (fifo : List UInt8) (ch : UInt8) : List UInt8 :=
  if fifo.length < 4096 then fifo ++ [ch] else fifo.tail ++ [ch]

/-- The correction factor `KK` of the position. -/
def kk : ℚ := 1.06 * (10 / 8192)

/-- `dj_motor_BackToZero`. -/
def djMotorBackToZero (mm : MotorMeasure) : MotorMeasure :=
  { mm with offsetAngle := mm.angle, roundCnt := 0 }

/-- `ind_dj_can_motor_callback` with the frame that it reads. An unknown id gives `NULL`, which
the callback dereferences. -/
def indDjCanMotorCallback (st : DjState m n) (rxmsg : CanMsg) : Call (DjState m n) := do
  match ← motorGetByCanid st.djMotors (UInt16.ofNat rxmsg.id) with
  | none => .fault
  | some k =>
    let mm := (st.djMotors k).receive (rxmsg.word 0)
    let id : ℤ := mm.id.toNat
    let ml ← motorFeedbackSpeed st.motorList id (sint 16 (rxmsg.word 2).toNat / 36)
    let ml ← motorFeedbackTorque ml id (sint 16 (rxmsg.word 4).toNat)
    let ml ← motorFeedbackPos ml id (mm.totalAngle * kk)
    pure { st with
      djMotors := Function.update st.djMotors k mm
      motorList := ml
      djMRingfifo := putcharForce st.djMRingfifo mm.id }

/-! ## Current frames -/

/-- `int16_t tmpout = *value`. -/
def int16OfFloat (value : ℚ) : ℤ := sint 16 (trunc value)

/-- The slot `tt` of a motor in its frame: `(can_id - CAN_Motor1_ID) % 4` as a `uint16_t`. -/
def canSlot (canId : UInt16) : UInt16 :=
  UInt16.ofNat ((((canId.toNat : ℤ) - canMotor1Id).tmod 4) % 2 ^ 16).toNat

/-- An assignment to one slot of `iq1_low` or `iq1_high`. -/
def setSlot (iq : Fin 4 → ℤ) (tt : UInt16) (x : ℤ) : Call (Fin 4 → ℤ) :=
  if h : tt.toNat < 4 then .ret (Function.update iq ⟨tt.toNat, h⟩ x) else .fault

/-- A number stored in a byte. -/
def byteOf (x : ℤ) : UInt8 := UInt8.ofNat (x % 256).toNat

/-- The data bytes of a frame: four currents, high byte first. -/
def packIq (iq : Fin 4 → ℤ) : Vector UInt8 8 :=
  .ofFn fun k => if k.val % 2 = 0 then byteOf (iq ⟨k / 2, by omega⟩ / 256)
    else byteOf (iq ⟨k / 2, by omega⟩)

/-- The entries with ids from `lo` to `hi` all have a frame count of `0xff`. -/
def groupReady (dj : Fin m → MotorMeasure) (lo hi : UInt16) : Bool :=
  decide (∀ k, lo ≤ (dj k).canId ∧ (dj k).canId ≤ hi → (dj k).msgCnt = 0xff)

/-- The branch for the motors 5 to 8. A failed write is only logged. -/
def driveHigh (st : DjState m n) (tt : UInt16) (tmpout : ℤ) :
    Call (DjState m n × Option CanMsg) := do
  let iq ← setSlot st.iq1High tt tmpout
  let st := { st with iq1High := iq }
  if groupReady st.djMotors 0x205 0x208 then
    pure (st, some { id := canMotorAllId2, data := packIq iq })
  else pure (st, none)

/-- The branch for the motors 1 to 4. A failed write takes every motor back to 50 frames. -/
def driveLow (st : DjState m n) (tt : UInt16) (tmpout : ℤ) (writeOk : Bool) :
    Call (DjState m n × Option CanMsg) := do
  if groupReady st.djMotors 0x201 0x204 then
    let iq ← setSlot st.iq1Low tt tmpout
    let st := { st with iq1Low := iq }
    let msg : CanMsg := { id := canMotorAllId, data := packIq iq }
    if writeOk then pure (st, some msg)
    else pure ({ st with djMotors := fun k => { st.djMotors k with msgCnt := 50 } }, some msg)
  else pure (st, none)

/-- `motor_dj_driver`: the state after the call, and the frame given to `rt_device_write` if there
was one. The group is chosen by `msg.id`, which is still `0` then; the difference of the bit field
and the enumerator is an `int`, so the test is `-513 > 8` and `-513 > 4`. -/
def motorDjDriver (st : DjState m n) (id : ℤ) (mode : RunMode) (value : ℚ) (writeOk : Bool) :
    Call (DjState m n × Option CanMsg) := do
  let i ← motorDeref (n := n) id
  let mm := st.djMotors (st.userData i)
  let tmpout := int16OfFloat value
  match mode with
  | .torque =>
    let msgId : ℤ := 0
    let tt := canSlot mm.canId
    if msgId - canMotor1Id > 8 then pure (st, none)
    else if msgId - canMotor1Id > 4 then driveHigh st tt tmpout
    else driveLow st tt tmpout writeOk
  | _ => pure (st, none)

/-! ## One feedback frame -/

@[simp] theorem MotorMeasure.receive_id (mm : MotorMeasure) (angle : UInt16) :
    (mm.receive angle).id = mm.id := by
  unfold receive; split <;> rfl

@[simp] theorem MotorMeasure.receive_canId (mm : MotorMeasure) (angle : UInt16) :
    (mm.receive angle).canId = mm.canId := by
  unfold receive; split <;> rfl

/-- The id of an entry is an unsigned byte, so its feedback calls return: they store the value,
or leave the table alone if the id is too large. -/
theorem motorFeedback_natCast (ml : MotorList n) (id : ℕ) (f : Motor → Motor) :
    ∃ ml', motorFeedback ml id f = .ret ml' := by
  unfold motorFeedback motorIndex motorGet
  by_cases h : (id : ℤ) ≥ n
  · exact ⟨ml, by simp [h]⟩
  · rw [if_neg h, dif_pos (by omega)]
    exact ⟨_, rfl⟩

/-- The search reads only the can ids. -/
theorem motorGetByCanid_congr {dj dj' : Fin m → MotorMeasure}
    (h : ∀ k, (dj' k).canId = (dj k).canId) (canId : UInt16) :
    motorGetByCanid dj' canId = motorGetByCanid dj canId := by
  unfold motorGetByCanid
  simp only [h]

/-- A change of one entry that keeps its can id changes no can id. -/
theorem update_canId {dj : Fin m → MotorMeasure} {k : Fin m} {mm : MotorMeasure}
    (h : mm.canId = (dj k).canId) (j : Fin m) :
    (Function.update dj k mm j).canId = (dj j).canId := by
  by_cases hj : j = k
  · subst hj; simpa using h
  · simp [hj]

/-- A frame of entry `k`: the callback returns; of the entries only `k` changes, and the currents
stay. -/
theorem indDjCanMotorCallback_found {st : DjState m n} {k : Fin m} (rxmsg : CanMsg)
    (h : motorGetByCanid st.djMotors (UInt16.ofNat rxmsg.id) = .ret (some k)) :
    ∃ ml fifo, indDjCanMotorCallback st rxmsg = .ret { st with
      djMotors := Function.update st.djMotors k ((st.djMotors k).receive (rxmsg.word 0))
      motorList := ml
      djMRingfifo := fifo } := by
  unfold indDjCanMotorCallback motorFeedbackSpeed motorFeedbackTorque motorFeedbackPos
  obtain ⟨ml₁, h₁⟩ := motorFeedback_natCast st.motorList (st.djMotors k).id.toNat
    fun m => { m with curSpeed := sint 16 (rxmsg.word 2).toNat / 36 }
  obtain ⟨ml₂, h₂⟩ := motorFeedback_natCast ml₁ (st.djMotors k).id.toNat
    fun m => { m with curTorque := sint 16 (rxmsg.word 4).toNat }
  obtain ⟨ml₃, h₃⟩ := motorFeedback_natCast ml₂ (st.djMotors k).id.toNat
    fun m => { m with curPos := ((st.djMotors k).receive (rxmsg.word 0)).totalAngle * kk }
  simp only [h, Call.ret_bind, MotorMeasure.receive_id, h₁, h₂, h₃, Call.pure_eq]
  exact ⟨_, _, rfl⟩

/-! ## The shipped configuration -/

/-- The four M2006 motors on CAN1: entry `k` has the can id `0x201 + k` and belongs to motor
`k`. -/
structure DjState.Shipped (st : DjState 4 4) : Prop where
  canId : ∀ k, (st.djMotors k).canId = UInt16.ofNat (canMotor1Id + k)
  userData : ∀ i, st.userData i = i

/-- The search finds each of the four motors. -/
theorem DjState.Shipped.found {st : DjState 4 4} (hs : st.Shipped) (k : Fin 4) :
    motorGetByCanid st.djMotors (UInt16.ofNat (canMotor1Id + k)) = .ret (some k) := by
  unfold motorGetByCanid
  simp only [hs.canId]
  revert k
  decide

/-- The entries of the shipped configuration before the first frame. -/
def shippedMotors (k : Fin 4) : MotorMeasure where
  id := UInt8.ofNat k
  canId := UInt16.ofNat (canMotor1Id + k)
  angle := 0
  msgCnt := 0
  lastAngle := 0
  offsetAngle := 0
  roundCnt := 0
  totalAngle := 0

/-- The driver at the start, with any motors. -/
def DjState.start (ml : MotorList 4) : DjState 4 4 where
  djMotors := shippedMotors
  motorList := ml
  userData := id
  iq1Low _ := 0
  iq1High _ := 0
  djMRingfifo := []

theorem DjState.start_shipped (ml : MotorList 4) : (DjState.start ml).Shipped :=
  ⟨fun _ => rfl, fun _ => rfl⟩

end Robot
