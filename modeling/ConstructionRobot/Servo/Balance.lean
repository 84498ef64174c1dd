import ConstructionRobot.Servo.Accept
import ConstructionRobot.Servo.Session
import Mathlib.Data.Stream.Init

/-!
# The mutex of the servo functions

Every function of `fashion_star_uart_servo.c` that talks to a servo, with the calls of
`rt_mutex_take` and `rt_mutex_release` where the source has them, and how often the calling thread
holds the mutex at the end.

* `ServoIo`: the holds of the calling thread, and what the environment gives to its calls: the
  results of `rt_mutex_take`, the bytes, and what the locals hold before they are set.
* `CFloat`: the operations on `float`. Nothing is assumed of them.
* `lockedExchange`, `lockedSend`: the two ways in which most functions use the mutex.
  `FSUS_QueryServoAngleMTurn` has a way of its own: a package of another servo makes it return with
  the mutex.
* `fsus_balanced_iff`: a function returns with the holds it was called with exactly if no
  multi-turn query that it makes meets such a package.
-/

namespace Robot

/-! ## The functions -/

/-- What the calls of one thread work on. -/
structure ServoIo where
  /-- The holds of the thread on `servo->mutex`. -/
  holds : ℕ
  /-- What the next calls of `rt_mutex_take` give. -/
  takes : Stream' Bool
  /-- The rounds of the receive loop to come. -/
  rx : List RxEvent
  txBuf : List UInt8
  /-- The bytes that were given to `rt_device_write`. -/
  tx : List UInt8
  /-- What the local `checksum` and the local package of the next calls hold. -/
  locals : Stream' (UInt8 × Package)

/-- A call by the thread. It hangs if it needs more rounds than `rx` has. -/
abbrev ServoM := StateT ServoIo Call

/-- The operations on `float` that the functions use. -/
class CFloat (F : Type) where
  /-- The float for a number. -/
  ofRat : ℚ → F
  lt : F → F → Bool
  /-- `fabsf(x - y) <= z`. -/
  distLe : F → F → F → Bool
  /-- `(int16_t)(10 * x)`, `(int32_t)(10 * x)` and `(uint16_t)(10 * x)`. -/
  tenthsI16 : F → UInt16
  tenthsI32 : F → UInt32
  tenthsU16 : F → UInt16

/-- `rt_mutex_take`, with a timeout. -/
def rtMutexTake : ServoM Bool := fun io =>
  .ret (io.takes.head,
    { io with takes := io.takes.tail, holds := io.holds + if io.takes.head then 1 else 0 })

/-- `rt_mutex_release`. -/
def rtMutexRelease : ServoM Unit := fun io => .ret ((), { io with holds := io.holds - 1 })

/-- `FSUS_SendPackage`. -/
def sendPackage (cmdId size : UInt8) (content : List UInt8) : ServoM Unit := fun io => do
  let (txBuf, line) ←
    fsusSendPackage io.locals.head.1 io.txBuf io.locals.head.2 cmdId size content
  pure ((), { io with txBuf := txBuf, tx := io.tx ++ line, locals := io.locals.tail })

/-- `FSUS_RecvPackage`, on the rounds to come; those that it does not need stay. -/
def recvPackage : ServoM (FsusStatus × Package) := fun io =>
  match (fsusRecvPackage io.locals.head.1 io.locals.head.2 io.rx).2 with
  | .done status pkg =>
    .ret ((status, pkg),
      { io with
        rx := io.rx.drop (recvRounds io.locals.head.1 (.start io.locals.head.2) io.rx).length
        locals := io.locals.tail })
  | .more _ => .hang
  | .fault => .fault

/-- A request and its answer. -/
def ask (cmdId size : UInt8) (content : List UInt8) : ServoM (FsusStatus × Package) := do
  sendPackage cmdId size content
  recvPackage

/-- The mutex is taken for a request alone; `false` if it is not taken. -/
def lockedSend (cmdId size : UInt8) (content : List UInt8) : ServoM Bool := do
  if ← rtMutexTake then
    sendPackage cmdId size content
    rtMutexRelease
    pure true
  else pure false

/-- The mutex is taken for a request and its answer; `none` if it is not taken. -/
def lockedExchange (cmdId size : UInt8) (content : List UInt8) :
    ServoM (Option (FsusStatus × Package)) := do
  if ← rtMutexTake then
    let got ← ask cmdId size content
    rtMutexRelease
    pure (some got)
  else pure none

/-- The status of a call, from what it received. -/
def FsusCall.statusOf (c : FsusCall) (got : FsusStatus × Package) : FsusStatus :=
  if got.1 = .success then (c.finish got.2).status else got.1

/-- `FSUS_Ping`. -/
def fsusPing (servoId : UInt8) : ServoM FsusStatus := do
  match ← lockedExchange 1 1 [servoId] with
  | none => pure .timeout
  | some got => pure ((FsusCall.ping servoId).statusOf got)

/-- `FSUS_ResetUserData`. -/
def fsusResetUserData (servoId : UInt8) : ServoM FsusStatus := do
  match ← lockedExchange 2 1 [servoId] with
  | none => pure .timeout
  | some got => pure ((FsusCall.resetUserData servoId).statusOf got)

/-- `FSUS_ReadData`: the status, and the data of an answer. No mutex. -/
def fsusReadData (servoId address : UInt8) : ServoM (FsusStatus × ServoValue) := do
  let got ← ask 3 2 [servoId, address]
  if got.1 = .success then
    pure (.success, ((FsusCall.readData servoId address).finish got.2).value)
  else pure (got.1, .nothing)

/-- `FSUS_WriteData`, with `size` bytes of `value`. No mutex. -/
def fsusWriteData (servoId address : UInt8) (value : List UInt8) (size : UInt8) :
    ServoM FsusStatus := do
  if size.toNat ≤ value.length then
    let got ← ask 4 (size + 2) (servoId :: address :: value.take size.toNat)
    pure ((FsusCall.writeData servoId address value).statusOf got)
  else StateT.lift .fault

/-- The bytes of a number, the low one first. -/
def u16Bytes (x : UInt16) : List UInt8 := [x.toUInt8, (x >>> 8).toUInt8]
def u32Bytes (x : UInt32) : List UInt8 :=
  [x.toUInt8, (x >>> 8).toUInt8, (x >>> 16).toUInt8, (x >>> 24).toUInt8]

/-- A request that has no answer. -/
def lockedRequest (cmdId size : UInt8) (content : List UInt8) : ServoM FsusStatus := do
  if ← lockedSend cmdId size content then pure .success else pure .timeout

/-- `FSUS_WheelMove`. -/
def fsusWheelMove (servoId method : UInt8) (speed value : UInt16) : ServoM FsusStatus :=
  lockedRequest 7 6 ([servoId, method] ++ u16Bytes speed ++ u16Bytes value)

/-- The direction of a wheel is a bit of its method. -/
def wheelMethod (method isCw : UInt8) : UInt8 := if isCw ≠ 0 then method ||| 0x80 else method

/-- `FSUS_WheelStop`, `FSUS_WheelKeepMove`, `FSUS_WheelMoveTime` and `FSUS_WheelMoveNCircle`. -/
def fsusWheelStop (servoId : UInt8) : ServoM FsusStatus := fsusWheelMove servoId 0x00 0 0
def fsusWheelKeepMove (servoId isCw : UInt8) (speed : UInt16) : ServoM FsusStatus :=
  fsusWheelMove servoId (wheelMethod 0x01 isCw) speed 0
def fsusWheelMoveTime (servoId isCw : UInt8) (speed nTime : UInt16) : ServoM FsusStatus :=
  fsusWheelMove servoId (wheelMethod 0x03 isCw) speed nTime
def fsusWheelMoveNCircle (servoId isCw : UInt8) (speed nCircle : UInt16) : ServoM FsusStatus :=
  fsusWheelMove servoId (wheelMethod 0x02 isCw) speed nCircle

/-- `FSUS_DampingMode`. -/
def fsusDampingMode (servoId : UInt8) (power : UInt16) : ServoM FsusStatus :=
  lockedRequest 9 3 ([servoId] ++ u16Bytes power)

section Angles

variable {F : Type} [CFloat F]

/-- What a query with success writes to `*angle`. -/
def angleOf (value : ServoValue) (angle : F) : F :=
  match value with
  | .angle degrees => CFloat.ofRat degrees
  | _ => angle

/-- `FSUS_QueryServoAngle`: the status, and `*angle` after the call. -/
def fsusQueryServoAngle (servoId : UInt8) (angle : F) : ServoM (FsusStatus × F) := do
  match ← lockedExchange 10 1 [servoId] with
  | none => pure (.timeout, angle)
  | some (status, pkg) =>
    if status = .success then
      let reply := (FsusCall.queryServoAngle servoId).finish pkg
      pure (reply.status, angleOf reply.value angle)
    else pure (status, angle)

/-- `FSUS_QueryServoAngleMTurn`. The `return` for a wrong id is in front of `rt_mutex_release`. -/
def fsusQueryServoAngleMTurn (servoId : UInt8) (angle : F) : ServoM (FsusStatus × F) := do
  if ← rtMutexTake then
    let (status, pkg) ← ask 16 1 [servoId]
    if status = .success then
      let reply := (FsusCall.queryServoAngleMTurn servoId).finish pkg
      if pkg.servoId ≠ servoId then pure (.idNotMatch, angle)
      else
        rtMutexRelease
        pure (reply.status, angleOf reply.value angle)
    else
      rtMutexRelease
      pure (status, angle)
  else pure (.timeout, angle)

/-- The query of a round of `FSUS_Wait`. -/
def queryAngle (isMturn servoId : UInt8) (angle : F) : ServoM (FsusStatus × F) :=
  if isMturn ≠ 0 then fsusQueryServoAngleMTurn servoId angle
  else fsusQueryServoAngle servoId angle

/-- The loop of `FSUS_Wait`, with `n` rounds until `count` is at its limit. -/
def waitLoop (servoId : UInt8) (target : F) (isMturn : UInt8) : ℕ → F → ServoM FsusStatus
  | 0, _ => pure .fail
  | n + 1, angle => do
    let (_, angle) ← queryAngle isMturn servoId angle
    if CFloat.distLe target angle (CFloat.ofRat 1) then pure .success
    else waitLoop servoId target isMturn n angle

/-- `FSUS_WAIT_COUNT_MAX`. -/
def waitCountMax : ℕ := 10000

/-- `FSUS_Wait`; `angle₀` is what its local `angle_read` holds. -/
def fsusWait (angle₀ : F) (servoId : UInt8) (target : F) (isMturn : UInt8) : ServoM FsusStatus :=
  waitLoop servoId target isMturn waitCountMax angle₀

/-- A request for an angle: what is sent, and what is waited for. -/
structure Setting (F : Type) where
  cmdId : UInt8
  size : UInt8
  content : List UInt8
  servoId : UInt8
  angle : F
  isMturn : UInt8
  wait : UInt8

/-- The common end of the six `FSUS_SetServoAngle` functions. -/
def Setting.run (angle₀ : F) (r : Setting F) : ServoM FsusStatus := do
  if ← lockedSend r.cmdId r.size r.content then
    if r.wait ≠ 0 then fsusWait angle₀ r.servoId r.angle r.isMturn else pure .success
  else pure .timeout

/-- A float between two bounds; the source asks for the upper bound first for an angle, and for
the lower one first for a velocity. -/
def clampAngle (bound : ℚ) (angle : F) : F :=
  if CFloat.lt (CFloat.ofRat bound) angle then CFloat.ofRat bound
  else if CFloat.lt angle (CFloat.ofRat (-bound)) then CFloat.ofRat (-bound)
  else angle
def clampVelocity (velocity : F) : F :=
  if CFloat.lt velocity (CFloat.ofRat 1) then CFloat.ofRat 1
  else if CFloat.lt (CFloat.ofRat 750) velocity then CFloat.ofRat 750
  else velocity

/-- The shortest time of `t_acc` and `t_dec`. -/
def clampTime (t : UInt16) : UInt16 := if t < 20 then 20 else t

variable (servoId : UInt8) (angle velocity : F) (interval : UInt16) (interval32 : UInt32)
  (tAcc tDec power : UInt16) (wait : UInt8)

/-- `FSUS_SetServoAngle`. -/
def fsusSetServoAngle : Setting F :=
  let angle := clampAngle 180 angle
  ⟨8, 7, [servoId] ++ u16Bytes (CFloat.tenthsI16 angle) ++ u16Bytes interval ++ u16Bytes power,
    servoId, angle, 0, wait⟩

/-- `FSUS_SetServoAngleByInterval`. -/
def fsusSetServoAngleByInterval : Setting F :=
  let angle := clampAngle 180 angle
  ⟨11, 11, [servoId] ++ u16Bytes (CFloat.tenthsI16 angle) ++ u16Bytes interval ++
    u16Bytes (clampTime tAcc) ++ u16Bytes (clampTime tDec) ++ u16Bytes power,
    servoId, angle, 0, wait⟩

/-- `FSUS_SetServoAngleByVelocity`. -/
def fsusSetServoAngleByVelocity : Setting F :=
  let angle := clampAngle 180 angle
  ⟨12, 11, [servoId] ++ u16Bytes (CFloat.tenthsI16 angle) ++
    u16Bytes (CFloat.tenthsU16 (clampVelocity velocity)) ++
    u16Bytes (clampTime tAcc) ++ u16Bytes (clampTime tDec) ++ u16Bytes power,
    servoId, angle, 0, wait⟩

/-- `FSUS_SetServoAngleMTurn`. An interval over its limit changes the angle, not the interval. -/
def fsusSetServoAngleMTurn : Setting F :=
  let angle := clampAngle 368640 angle
  let angle := if interval32 > 4096000 then CFloat.ofRat 4096000 else angle
  ⟨13, 11, [servoId] ++ u32Bytes (CFloat.tenthsI32 angle) ++ u32Bytes interval32 ++
    u16Bytes power, servoId, angle, 1, wait⟩

/-- `FSUS_SetServoAngleMTurnByInterval`. -/
def fsusSetServoAngleMTurnByInterval : Setting F :=
  let angle := clampAngle 368640 angle
  let interval32 := if interval32 > 4096000 then 4096000 else interval32
  ⟨14, 15, [servoId] ++ u32Bytes (CFloat.tenthsI32 angle) ++ u32Bytes interval32 ++
    u16Bytes (clampTime tAcc) ++ u16Bytes (clampTime tDec) ++ u16Bytes power,
    servoId, angle, 1, wait⟩

/-- `FSUS_SetServoAngleMTurnByVelocity`. -/
def fsusSetServoAngleMTurnByVelocity : Setting F :=
  let angle := clampAngle 368640 angle
  ⟨15, 13, [servoId] ++ u32Bytes (CFloat.tenthsI32 angle) ++
    u16Bytes (CFloat.tenthsU16 (clampVelocity velocity)) ++
    u16Bytes (clampTime tAcc) ++ u16Bytes (clampTime tDec) ++ u16Bytes power,
    servoId, angle, 1, wait⟩

end Angles

/-- A call of one of the functions. -/
inductive FsusOp (F : Type) where
  | ping (servoId : UInt8)
  | resetUserData (servoId : UInt8)
  | readData (servoId address : UInt8)
  | writeData (servoId address : UInt8) (value : List UInt8) (size : UInt8)
  | wheelMove (servoId method : UInt8) (speed value : UInt16)
  | wheelStop (servoId : UInt8)
  | wheelKeepMove (servoId isCw : UInt8) (speed : UInt16)
  | wheelMoveTime (servoId isCw : UInt8) (speed nTime : UInt16)
  | wheelMoveNCircle (servoId isCw : UInt8) (speed nCircle : UInt16)
  | setServoAngle (servoId : UInt8) (angle : F) (interval power : UInt16) (wait : UInt8)
  | setServoAngleByInterval (servoId : UInt8) (angle : F) (interval tAcc tDec power : UInt16)
      (wait : UInt8)
  | setServoAngleByVelocity (servoId : UInt8) (angle velocity : F) (tAcc tDec power : UInt16)
      (wait : UInt8)
  | setServoAngleMTurn (servoId : UInt8) (angle : F) (interval : UInt32) (power : UInt16)
      (wait : UInt8)
  | setServoAngleMTurnByInterval (servoId : UInt8) (angle : F) (interval : UInt32)
      (tAcc tDec power : UInt16) (wait : UInt8)
  | setServoAngleMTurnByVelocity (servoId : UInt8) (angle velocity : F)
      (tAcc tDec power : UInt16) (wait : UInt8)
  | queryServoAngle (servoId : UInt8) (angle : F)
  | queryServoAngleMTurn (servoId : UInt8) (angle : F)
  | dampingMode (servoId : UInt8) (power : UInt16)
  | wait (servoId : UInt8) (target : F) (isMturn : UInt8)

section Ops

variable {F : Type} [CFloat F]

/-- The call, up to its status. -/
def FsusOp.run (angle₀ : F) : FsusOp F → ServoM FsusStatus
  | .ping servoId => fsusPing servoId
  | .resetUserData servoId => fsusResetUserData servoId
  | .readData servoId address => Prod.fst <$> fsusReadData servoId address
  | .writeData servoId address value size => fsusWriteData servoId address value size
  | .wheelMove servoId method speed value => fsusWheelMove servoId method speed value
  | .wheelStop servoId => fsusWheelStop servoId
  | .wheelKeepMove servoId isCw speed => fsusWheelKeepMove servoId isCw speed
  | .wheelMoveTime servoId isCw speed nTime => fsusWheelMoveTime servoId isCw speed nTime
  | .wheelMoveNCircle servoId isCw speed nCircle =>
    fsusWheelMoveNCircle servoId isCw speed nCircle
  | .setServoAngle servoId angle interval power w =>
    (fsusSetServoAngle servoId angle interval power w).run angle₀
  | .setServoAngleByInterval servoId angle interval tAcc tDec power w =>
    (fsusSetServoAngleByInterval servoId angle interval tAcc tDec power w).run angle₀
  | .setServoAngleByVelocity servoId angle velocity tAcc tDec power w =>
    (fsusSetServoAngleByVelocity servoId angle velocity tAcc tDec power w).run angle₀
  | .setServoAngleMTurn servoId angle interval power w =>
    (fsusSetServoAngleMTurn servoId angle interval power w).run angle₀
  | .setServoAngleMTurnByInterval servoId angle interval tAcc tDec power w =>
    (fsusSetServoAngleMTurnByInterval servoId angle interval tAcc tDec power w).run angle₀
  | .setServoAngleMTurnByVelocity servoId angle velocity tAcc tDec power w =>
    (fsusSetServoAngleMTurnByVelocity servoId angle velocity tAcc tDec power w).run angle₀
  | .queryServoAngle servoId angle => Prod.fst <$> fsusQueryServoAngle servoId angle
  | .queryServoAngleMTurn servoId angle => Prod.fst <$> fsusQueryServoAngleMTurn servoId angle
  | .dampingMode servoId power => fsusDampingMode servoId power
  | .wait servoId target isMturn => fsusWait angle₀ servoId target isMturn

/-! ## Packages of another servo -/

/-- A multi-turn query that is called now takes the mutex, and the first package in the bytes to
come is valid, but not from `servoId`. -/
def ServoIo.Foreign (io : ServoIo) (servoId : UInt8) : Prop :=
  io.takes.head = true ∧
    ∃ pkg, (fsusRecvPackage io.locals.tail.head.1 io.locals.tail.head.2 io.rx).2 =
      .done .success pkg ∧ pkg.servoId ≠ servoId

/-- What `FSUS_Wait` goes on with after one round: `angle_read`, and the rest. -/
def waitNext (servoId : UInt8) (target : F) (isMturn : UInt8) (s : F × ServoIo) :
    Option (F × ServoIo) :=
  match queryAngle isMturn servoId s.1 s.2 with
  | .ret ((_, angle), io) =>
    if CFloat.distLe target angle (CFloat.ofRat 1) then none else some (angle, io)
  | _ => none

/-- The same at the start of round `k`, if the loop gets there. -/
def waitAt (servoId : UInt8) (target : F) (isMturn : UInt8) : ℕ → F × ServoIo → Option (F × ServoIo)
  | 0, s => some s
  | k + 1, s => (waitNext servoId target isMturn s).bind (waitAt servoId target isMturn k)

/-- In none of the next `n` rounds a multi-turn query meets a package of another servo. -/
def WaitMatched (servoId : UInt8) (target : F) (isMturn : UInt8) (n : ℕ) (s : F × ServoIo) : Prop :=
  ∀ k < n, ∀ s', waitAt servoId target isMturn k s = some s' →
    isMturn ≠ 0 → ¬ s'.2.Foreign servoId

/-- The same for a request that is followed by the wait. -/
def Setting.Matched (angle₀ : F) (r : Setting F) (io : ServoIo) : Prop :=
  ∀ io₁, lockedSend r.cmdId r.size r.content io = .ret (true, io₁) → r.wait ≠ 0 →
    WaitMatched r.servoId r.angle r.isMturn waitCountMax (angle₀, io₁)

/-- No multi-turn query of the call meets a package of another servo. -/
def FsusOp.Matched (angle₀ : F) (io : ServoIo) : FsusOp F → Prop
  | .setServoAngleMTurn servoId angle interval power w =>
    (fsusSetServoAngleMTurn servoId angle interval power w).Matched angle₀ io
  | .setServoAngleMTurnByInterval servoId angle interval tAcc tDec power w =>
    (fsusSetServoAngleMTurnByInterval servoId angle interval tAcc tDec power w).Matched angle₀ io
  | .setServoAngleMTurnByVelocity servoId angle velocity tAcc tDec power w =>
    (fsusSetServoAngleMTurnByVelocity servoId angle velocity tAcc tDec power w).Matched angle₀ io
  | .queryServoAngleMTurn servoId _ => ¬ io.Foreign servoId
  | .wait servoId target isMturn =>
    WaitMatched servoId target isMturn waitCountMax (angle₀, io)
  | _ => True

end Ops

/-! ## Holds -/

/-- A call that returns with the holds it was called with. -/
def ServoM.Balanced {α : Type} (m : ServoM α) : Prop :=
  ∀ io a io', m io = .ret (a, io') → io'.holds = io.holds

namespace ServoM

open Call

variable {α β : Type}

theorem balanced_pure (a : α) : Balanced (pure a : ServoM α) := by
  rintro io _ _ ⟨⟩
  rfl

theorem Balanced.bind {m : ServoM α} {f : α → ServoM β} (hm : Balanced m)
    (hf : ∀ a, Balanced (f a)) : Balanced (m >>= f) := by
  intro io b io' h
  obtain ⟨a, io₁, h₁, h₂⟩ := stateT_bind_eq_ret.mp h
  rw [hf a io₁ b io' h₂, hm io a io₁ h₁]

theorem Balanced.map {m : ServoM α} (hm : Balanced m) (f : α → β) : Balanced (f <$> m) :=
  hm.bind fun a => balanced_pure (f a)

theorem balanced_sendPackage (cmdId size : UInt8) (content : List UInt8) :
    Balanced (sendPackage cmdId size content) := by
  intro io a io' h
  obtain ⟨⟨txBuf, line⟩, -, h₁⟩ := bind_eq_ret.mp h
  cases h₁
  rfl

theorem balanced_recvPackage : Balanced recvPackage := by
  intro io a io' h
  unfold recvPackage at h
  split at h
  · cases h
    rfl
  · cases h
  · cases h

/-- Between `rt_mutex_take` and `rt_mutex_release`. -/
theorem balanced_locked {m : ServoM α} (hm : Balanced m) {f : α → β} {b : β} :
    Balanced (do if ← rtMutexTake then (do let a ← m; rtMutexRelease; pure (f a)) else pure b) := by
  intro io c io' h
  obtain ⟨ok, io₁, h₁, h₂⟩ := stateT_bind_eq_ret.mp h
  cases h₁
  cases hok : io.takes.head with
  | false =>
    rw [hok, if_neg (by decide)] at h₂
    cases h₂
    rfl
  | true =>
    rw [hok, if_pos rfl] at h₂
    obtain ⟨a, io₂, h₃, h₄⟩ := stateT_bind_eq_ret.mp h₂
    cases h₄
    show io₂.holds - 1 = io.holds
    rw [hm _ a io₂ h₃]
    rfl

theorem balanced_ask (cmdId size : UInt8) (content : List UInt8) :
    Balanced (ask cmdId size content) :=
  (balanced_sendPackage cmdId size content).bind fun _ => balanced_recvPackage

theorem balanced_lockedSend (cmdId size : UInt8) (content : List UInt8) :
    Balanced (lockedSend cmdId size content) :=
  balanced_locked (balanced_sendPackage cmdId size content)

theorem balanced_lockedExchange (cmdId size : UInt8) (content : List UInt8) :
    Balanced (lockedExchange cmdId size content) :=
  balanced_locked (balanced_ask cmdId size content)

theorem balanced_lockedRequest (cmdId size : UInt8) (content : List UInt8) :
    Balanced (lockedRequest cmdId size content) := by
  refine (balanced_lockedSend cmdId size content).bind fun ok => ?_
  cases ok <;> exact balanced_pure _

theorem balanced_fsusPing (servoId : UInt8) : Balanced (fsusPing servoId) := by
  refine (balanced_lockedExchange 1 1 [servoId]).bind fun got => ?_
  cases got <;> exact balanced_pure _

theorem balanced_fsusResetUserData (servoId : UInt8) : Balanced (fsusResetUserData servoId) := by
  refine (balanced_lockedExchange 2 1 [servoId]).bind fun got => ?_
  cases got <;> exact balanced_pure _

theorem balanced_fsusReadData (servoId address : UInt8) :
    Balanced (fsusReadData servoId address) := by
  refine (balanced_ask 3 2 [servoId, address]).bind fun got => ?_
  split <;> exact balanced_pure _

theorem balanced_fsusWriteData (servoId address : UInt8) (value : List UInt8) (size : UInt8) :
    Balanced (fsusWriteData servoId address value size) := by
  unfold fsusWriteData
  split
  · exact (balanced_ask _ _ _).bind fun got => balanced_pure _
  · intro io a io' h
    cases h

theorem balanced_fsusQueryServoAngle {F : Type} [CFloat F] (servoId : UInt8) (angle : F) :
    Balanced (fsusQueryServoAngle servoId angle) := by
  refine (balanced_lockedExchange 10 1 [servoId]).bind fun got => ?_
  cases got with
  | none => exact balanced_pure _
  | some got =>
    simp only
    split <;> exact balanced_pure _

end ServoM

open Call ServoM

section Queries

variable {F : Type} [CFloat F]

/-- The answer is the first package in the bytes to come. -/
theorem ask_recv {cmdId size : UInt8} {content : List UInt8} {io io' : ServoIo}
    {got : FsusStatus × Package} (h : ask cmdId size content io = .ret (got, io')) :
    (fsusRecvPackage io.locals.tail.head.1 io.locals.tail.head.2 io.rx).2 =
      .done got.1 got.2 := by
  obtain ⟨u, io₁, h₁, h₂⟩ := stateT_bind_eq_ret.mp h
  obtain ⟨⟨txBuf, line⟩, -, h₃⟩ := bind_eq_ret.mp h₁
  cases h₃
  unfold recvPackage at h₂
  split at h₂
  next status pkg hrecv =>
    cases h₂
    exact hrecv
  next => cases h₂
  next => cases h₂

/-- What a multi-turn query makes of the package it got. -/
def mTurnRest (servoId : UInt8) (got : FsusStatus × Package) (angle : F) (io : ServoIo) :
    (FsusStatus × F) × ServoIo :=
  let reply := (FsusCall.queryServoAngleMTurn servoId).finish got.2
  if got.1 = .success then
    if got.2.servoId ≠ servoId then ((.idNotMatch, angle), io)
    else ((reply.status, angleOf reply.value angle), { io with holds := io.holds - 1 })
  else ((got.1, angle), { io with holds := io.holds - 1 })

/-- A multi-turn query does not take the mutex, or it gets a package. Which of the two, and which
package, does not depend on the angle. -/
theorem fsusQueryServoAngleMTurn_cases {servoId : UInt8} {angle : F} {io io' : ServoIo}
    {r : FsusStatus × F} (h : fsusQueryServoAngleMTurn servoId angle io = .ret (r, io')) :
    (io.takes.head = false ∧ io'.holds = io.holds ∧
      ∀ angle : F, fsusQueryServoAngleMTurn servoId angle io = .ret ((.timeout, angle), io')) ∨
    (io.takes.head = true ∧ ∃ got io₂,
      (fsusRecvPackage io.locals.tail.head.1 io.locals.tail.head.2 io.rx).2 = .done got.1 got.2 ∧
      io₂.holds = io.holds + 1 ∧ io' = (mTurnRest servoId got angle io₂).2 ∧
      ∀ angle : F, fsusQueryServoAngleMTurn servoId angle io =
        .ret (mTurnRest servoId got angle io₂)) := by
  cases hok : io.takes.head with
  | false =>
    have hall (angle : F) : fsusQueryServoAngleMTurn servoId angle io =
        .ret ((.timeout, angle), { io with takes := io.takes.tail }) := by
      refine stateT_bind_eq_ret.mpr ⟨_, _, rfl, ?_⟩
      rw [hok]
      rfl
    rw [hall] at h
    cases h
    exact .inl ⟨rfl, rfl, hall⟩
  | true =>
    obtain ⟨ok, io₁, h₁, h₂⟩ := stateT_bind_eq_ret.mp h
    have htake := h₁
    cases h₁
    rw [hok, if_pos rfl] at h₂
    obtain ⟨got, io₂, h₃, -⟩ := stateT_bind_eq_ret.mp h₂
    have hall (angle : F) : fsusQueryServoAngleMTurn servoId angle io =
        .ret (mTurnRest servoId got angle io₂) := by
      refine stateT_bind_eq_ret.mpr ⟨_, _, htake, ?_⟩
      rw [hok, if_pos rfl]
      refine stateT_bind_eq_ret.mpr ⟨got, io₂, h₃, ?_⟩
      unfold mTurnRest
      by_cases hs : got.1 = .success
      · by_cases hid : got.2.servoId ≠ servoId
        · simp only [if_pos hs, if_pos hid]
          rfl
        · simp only [if_pos hs, if_neg hid]
          rfl
      · simp only [if_neg hs]
        rfl
    have hrecv := ask_recv h₃
    have hholds : io₂.holds = io.holds + 1 := balanced_ask _ _ _ _ _ _ h₃
    rw [hall] at h
    refine .inr ⟨rfl, got, io₂, hrecv, hholds, ?_, hall⟩
    exact (congrArg Prod.snd (Call.ret.inj h)).symm

/-- The multi-turn query: one hold more exactly after a package of another servo. -/
theorem fsusQueryServoAngleMTurn_holds {servoId : UInt8} {angle : F} {io io' : ServoIo}
    {r : FsusStatus × F} (h : fsusQueryServoAngleMTurn servoId angle io = .ret (r, io')) :
    (io.Foreign servoId ∧ io'.holds = io.holds + 1) ∨
      (¬ io.Foreign servoId ∧ io'.holds = io.holds) := by
  rcases fsusQueryServoAngleMTurn_cases h with
    ⟨htake, hholds, -⟩ | ⟨htake, ⟨status, pkg⟩, io₂, hrecv, hholds, rfl, -⟩
  · refine .inr ⟨fun hf => ?_, hholds⟩
    rw [hf.1] at htake
    cases htake
  · -- which package it was decides
    have hforeign : io.Foreign servoId ↔ status = .success ∧ pkg.servoId ≠ servoId := by
      constructor
      · rintro ⟨-, pkg', hpkg, hne⟩
        rw [hrecv] at hpkg
        cases hpkg
        exact ⟨rfl, hne⟩
      · rintro ⟨rfl, hne⟩
        exact ⟨htake, pkg, hrecv, hne⟩
    rw [hforeign, mTurnRest]
    by_cases hs : status = .success
    · by_cases hid : pkg.servoId ≠ servoId
      · simp only [if_pos hs, if_pos hid]
        exact .inl ⟨⟨hs, hid⟩, hholds⟩
      · simp only [if_pos hs, if_neg hid]
        exact .inr ⟨fun h => hid h.2, by omega⟩
    · simp only [if_neg hs]
      exact .inr ⟨fun h => hs h.1, by omega⟩

/-- The query of a round. -/
theorem queryAngle_holds {isMturn servoId : UInt8} {angle : F} {io io' : ServoIo}
    {r : FsusStatus × F} (h : queryAngle isMturn servoId angle io = .ret (r, io')) :
    ((isMturn ≠ 0 ∧ io.Foreign servoId) ∧ io'.holds = io.holds + 1) ∨
      ((isMturn ≠ 0 → ¬ io.Foreign servoId) ∧ io'.holds = io.holds) := by
  unfold queryAngle at h
  by_cases hm : isMturn ≠ 0
  · rw [if_pos hm] at h
    rcases fsusQueryServoAngleMTurn_holds h with ⟨hf, hholds⟩ | ⟨hf, hholds⟩
    · exact .inl ⟨⟨hm, hf⟩, hholds⟩
    · exact .inr ⟨fun _ => hf, hholds⟩
  · rw [if_neg hm] at h
    exact .inr ⟨fun hm' => absurd hm' hm, balanced_fsusQueryServoAngle servoId angle _ _ _ h⟩

/-! ## The wait -/

/-- Round 0 and the rounds behind it. -/
theorem waitMatched_succ {servoId : UInt8} {target : F} {isMturn : UInt8} {n : ℕ}
    {s : F × ServoIo} :
    WaitMatched servoId target isMturn (n + 1) s ↔
      (isMturn ≠ 0 → ¬ s.2.Foreign servoId) ∧
        ∀ s', waitNext servoId target isMturn s = some s' →
          WaitMatched servoId target isMturn n s' := by
  constructor
  · intro h
    refine ⟨h 0 (by omega) s rfl, fun s' hs' k hk s'' hs'' => h (k + 1) (by omega) s'' ?_⟩
    rw [waitAt, hs']
    exact hs''
  · rintro ⟨h0, hsucc⟩ k hk s'' hs''
    cases k with
    | zero =>
      cases hs''
      exact h0
    | succ k =>
      rw [waitAt] at hs''
      obtain ⟨s', hs', hk'⟩ := Option.bind_eq_some_iff.mp hs''
      exact hsucc s' hs' k (by omega) s'' hk'

/-- The loop never gives back more than it takes, and it is balanced exactly if all rounds are. -/
theorem waitLoop_holds {servoId : UInt8} {target : F} {isMturn : UInt8} {n : ℕ} {angle : F}
    {io io' : ServoIo} {status : FsusStatus}
    (h : waitLoop servoId target isMturn n angle io = .ret (status, io')) :
    io.holds ≤ io'.holds ∧
      (io'.holds = io.holds ↔ WaitMatched servoId target isMturn n (angle, io)) := by
  induction n generalizing angle io with
  | zero =>
    cases h
    exact ⟨le_refl _, iff_of_true rfl fun k hk => absurd hk (by omega)⟩
  | succ n ih =>
    obtain ⟨⟨st, angle'⟩, io₁, h₁, h₂⟩ := stateT_bind_eq_ret.mp h
    rw [waitMatched_succ]
    have hnext : waitNext servoId target isMturn (angle, io) =
        if CFloat.distLe target angle' (CFloat.ofRat 1) then none else some (angle', io₁) := by
      rw [waitNext, h₁]
    -- the rest of the loop
    have hrest : io₁.holds ≤ io'.holds ∧ (io'.holds = io₁.holds ↔
        ∀ s', waitNext servoId target isMturn (angle, io) = some s' →
          WaitMatched servoId target isMturn n s') := by
      rw [hnext]
      simp only at h₂
      cases hnear : CFloat.distLe target angle' (CFloat.ofRat 1) with
      | true =>
        rw [hnear, if_pos rfl] at h₂
        cases h₂
        exact ⟨le_refl _, iff_of_true rfl (by simp)⟩
      | false =>
        rw [hnear, if_neg (by decide)] at h₂
        obtain ⟨hle, hiff⟩ := ih h₂
        exact ⟨hle, by simpa using hiff⟩
    obtain ⟨hle, hiff⟩ := hrest
    rcases queryAngle_holds h₁ with ⟨⟨hm, hf⟩, hholds⟩ | ⟨hf, hholds⟩
    · refine ⟨by omega, iff_of_false (by omega) fun hall => hall.1 hm hf⟩
    · rw [← hiff, hholds]
      exact ⟨by omega, ⟨fun h => ⟨hf, h⟩, fun h => h.2⟩⟩

/-- One of the functions that set an angle. -/
theorem setting_holds {angle₀ : F} {r : Setting F} {io io' : ServoIo} {status : FsusStatus}
    (h : r.run angle₀ io = .ret (status, io')) :
    io'.holds = io.holds ↔ r.Matched angle₀ io := by
  obtain ⟨ok, io₁, h₁, h₂⟩ := stateT_bind_eq_ret.mp h
  have hsend := balanced_lockedSend _ _ _ _ _ _ h₁
  unfold Setting.Matched
  rw [h₁, ← hsend]
  cases ok with
  | false =>
    cases h₂
    exact iff_of_true rfl fun io₂ h₃ => by cases h₃
  | true =>
    rw [if_pos rfl] at h₂
    by_cases hw : r.wait ≠ 0
    · rw [if_pos hw] at h₂
      rw [(waitLoop_holds h₂).2]
      constructor
      · rintro hm _ ⟨⟩ -
        exact hm
      · exact fun hm => hm io₁ rfl hw
    · rw [if_neg hw] at h₂
      cases h₂
      exact iff_of_true rfl fun _ _ hw' => absurd hw' hw

/-- The functions that set an angle of one turn wait without multi-turn queries. -/
theorem setting_matched_of_single {angle₀ : F} {r : Setting F} (hr : r.isMturn = 0)
    (io : ServoIo) : r.Matched angle₀ io :=
  fun _ _ _ _ _ _ _ hm => absurd hr hm

end Queries

/-- A function of the servo driver that returns has the holds on the mutex that it was called with
exactly if none of the multi-turn queries that it makes (itself, or in the rounds of the wait behind
a request) meets a valid package of another servo. -/
theorem fsus_balanced_iff {F : Type} [CFloat F] (angle₀ : F) (op : FsusOp F) (io : ServoIo)
    (status : FsusStatus) (io' : ServoIo) (h : op.run angle₀ io = .ret (status, io')) :
    io'.holds = io.holds ↔ op.Matched angle₀ io := by
  have hof {m : ServoM FsusStatus} (hm : m.Balanced) (h : m io = .ret (status, io')) :
      io'.holds = io.holds ↔ True := iff_of_true (hm io status io' h) trivial
  cases op with
  | ping servoId => exact hof (balanced_fsusPing servoId) h
  | resetUserData servoId => exact hof (balanced_fsusResetUserData servoId) h
  | readData servoId address => exact hof ((balanced_fsusReadData servoId address).map _) h
  | writeData servoId address value size =>
    exact hof (balanced_fsusWriteData servoId address value size) h
  | wheelMove | wheelStop | wheelKeepMove | wheelMoveTime | wheelMoveNCircle | dampingMode =>
    exact hof (balanced_lockedRequest _ _ _) h
  | setServoAngle | setServoAngleByInterval | setServoAngleByVelocity =>
    exact (setting_holds h).trans (iff_of_true (setting_matched_of_single rfl io) trivial)
  | setServoAngleMTurn | setServoAngleMTurnByInterval | setServoAngleMTurnByVelocity =>
    exact setting_holds h
  | queryServoAngle servoId angle =>
    exact hof ((balanced_fsusQueryServoAngle servoId angle).map _) h
  | queryServoAngleMTurn servoId angle =>
    have hmap : (fsusQueryServoAngleMTurn servoId angle >>= fun r => pure r.1) io =
        .ret (status, io') := h
    obtain ⟨r, io₁, h₁, h₂⟩ := stateT_bind_eq_ret.mp hmap
    cases h₂
    rcases fsusQueryServoAngleMTurn_holds h₁ with ⟨hf, hholds⟩ | ⟨hf, hholds⟩
    · exact iff_of_false (by omega) (not_not.mpr hf)
    · exact iff_of_true hholds hf
  | wait servoId target isMturn => exact (waitLoop_holds h).2

/-- Numbers without rounding, for values that a `float` has. -/
instance : CFloat ℚ where
  ofRat q := q
  lt x y := x < y
  distLe x y z := x - y ≤ z ∧ y - x ≤ z
  tenthsI16 x := .ofInt (trunc (10 * x))
  tenthsI32 x := .ofInt (trunc (10 * x))
  tenthsU16 x := .ofInt (trunc (10 * x))

/-- A thread that does not hold the mutex, with the bytes `bs` on the line. -/
def servoIdle (bs : List UInt8) : ServoIo where
  holds := 0
  takes := Stream'.const true
  rx := bs.map .byte
  txBuf := List.replicate 55 0
  tx := []
  locals := Stream'.const (0, .zero)

/-- An angle is set and servo 0 answers the query of the wait behind it: balanced. -/
theorem fsus_balanced_iff_answer :
    ∃ status io', (FsusOp.setServoAngleMTurn 0 (0 : ℚ) 0 0 1).run 7
        (servoIdle [0x05, 0x1c, 0x10, 0x05, 0x00, 0x00, 0x00, 0x00, 0x00, 0x36]) =
          .ret (status, io') ∧ status = .success ∧ io'.holds = 0 ∧
      (FsusOp.setServoAngleMTurn 0 (0 : ℚ) 0 0 1).Matched 7
        (servoIdle [0x05, 0x1c, 0x10, 0x05, 0x00, 0x00, 0x00, 0x00, 0x00, 0x36]) := by
  have hrun : ((FsusOp.setServoAngleMTurn 0 (0 : ℚ) 0 0 1).run 7
      (servoIdle [0x05, 0x1c, 0x10, 0x05, 0x00, 0x00, 0x00, 0x00, 0x00, 0x36])).ret?.map
        (fun r => (r.1, r.2.holds)) = some (.success, 0) := by
    decide +kernel
  obtain ⟨⟨status, io'⟩, hret, heq⟩ := Option.map_eq_some_iff.mp hrun
  obtain ⟨hs, hh⟩ := Prod.mk.inj heq
  have h := Call.ret?_eq_some.mp hret
  exact ⟨status, io', h, hs, hh, (fsus_balanced_iff 7 _ _ status io' h).mp hh⟩

/-- Servo 1 answers a multi-turn query of servo 0: the thread keeps the mutex. -/
theorem query_keeps_mutex :
    ∃ status io', (FsusOp.queryServoAngleMTurn 0 (0 : ℚ)).run 0
        (servoIdle [0x05, 0x1c, 0x10, 0x05, 0x01, 0x00, 0x00, 0x00, 0x00, 0x37]) =
          .ret (status, io') ∧ status = .idNotMatch ∧ io'.holds = 1 ∧
      io'.holds ≠
        (servoIdle [0x05, 0x1c, 0x10, 0x05, 0x01, 0x00, 0x00, 0x00, 0x00, 0x37]).holds := by
  have hrun : ((FsusOp.queryServoAngleMTurn 0 (0 : ℚ)).run 0
      (servoIdle [0x05, 0x1c, 0x10, 0x05, 0x01, 0x00, 0x00, 0x00, 0x00, 0x37])).ret?.map
        (fun r => (r.1, r.2.holds)) = some (.idNotMatch, 1) := by
    decide +kernel
  obtain ⟨⟨status, io'⟩, hret, heq⟩ := Option.map_eq_some_iff.mp hrun
  obtain ⟨hs, hh⟩ := Prod.mk.inj heq
  have hh : io'.holds = 1 := hh
  refine ⟨status, io', Call.ret?_eq_some.mp hret, hs, hh, ?_⟩
  rw [hh]
  decide

end Robot
