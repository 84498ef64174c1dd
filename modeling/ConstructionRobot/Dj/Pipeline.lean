import ConstructionRobot.Dj.Feedback
import ConstructionRobot.Dj.Interlock
import ConstructionRobot.Dj.Range
import ConstructionRobot.Dj.Routing
import ConstructionRobot.Ringbuffer.Interrupt

/-!
# From a feedback frame to a current frame (`can_rx_thread`)

The interrupt `ind_dj_can_motor_callback` stores the feedback of a frame and puts the id of its
motor into `dj_m_ringfifo`. The thread `can_rx_thread` takes the ids out, runs a control tick of
the motor and passes the result to `motor_dj_driver`. Frames, and the targets that other threads
set, come between any two of these steps, and frames also between any two accesses of
`rt_ringbuffer_getchar` to the ring.

* `DjLoop`: the driver, the ring with the thread in it (`RingSys`), and the place of the thread in
  its round; `DjLoop.step` is one event.
* `DjLoop.Inv`: what every step keeps; `step_ret` says what a step does, if a frame finds room.
* `Traffic`: the history of a run against the state.
* `can_loop_runs`: a run in which the ring has room never stops; the ticks answer the frames in
  their order, none twice and none left out; each current frame has the last results of the four
  motors.
-/

namespace Robot

/-! ## Events -/

/-- Where `can_rx_thread` is in a round: in `rt_ringbuffer_getchar`, before `motor_handle` of the id
it got, or in there before the call of the driver. -/
inductive RoundPc where
  | poll
  | tick (i : UInt8)
  | drive (c : DriverCall)
  deriving DecidableEq, Repr

/-- The driver, `dj_m_ringfifo` and the thread. The ring has the place of the thread in
`rt_ringbuffer_getchar`. -/
structure DjLoop where
  dj : DjState 4 4
  ring : RingSys
  pc : RoundPc

inductive DjLoopEvent where
  /-- A frame of motor `k` interrupts. -/
  | frame (k : Fin 4) (data : Vector UInt8 8)
  /-- The thread makes a step; `writeOk` is the result of `rt_device_write` if it writes. -/
  | thread (writeOk : Bool)
  /-- Another thread sets a target. -/
  | setSpeed (i : Fin 4) (value : ℚ)
  | setPos (i : Fin 4) (value : ℚ)
  | setTorque (i : Fin 4) (value : ℚ)

/-- What a run shows: an id put into the ring, an id taken out, and a call of the driver with the
frame that it gave to `rt_device_write`. -/
inductive DjLoopObs where
  | put (id : UInt8)
  | took (id : UInt8)
  | drove (id : ℤ) (value : ℚ) (sent : Option CanMsg)
  deriving DecidableEq, Repr

namespace DjLoop

/-- The interrupt: the callback, and the ring that it puts the id into. -/
def interrupt (s : DjLoop) (rxmsg : CanMsg) : Call (DjLoop × List DjLoopObs) := do
  match ← motorGetByCanid s.dj.djMotors (UInt16.ofNat rxmsg.id) with
  | none => .fault
  | some k =>
    let id := (s.dj.djMotors k).id
    let dj ← indDjCanMotorCallback s.dj rxmsg
    match s.ring.step (.interrupt id) with
    | none => .fault
    | some (ring, _) => pure ({ s with dj := dj, ring := ring }, [.put id])

/-- One step of the loop of `can_rx_thread`: an access of `rt_ringbuffer_getchar` to the ring, or
what comes behind it. If the call returns 0, the thread calls it again. -/
def canRxThread (s : DjLoop) (writeOk : Bool) : Call (DjLoop × List DjLoopObs) :=
  match s.pc with
  | .poll =>
    match s.ring.threadStep with
    | none => .fault
    | some (ring, _) =>
      match s.ring.pc.returns with
      | none => pure ({ s with ring := ring }, [])
      | some i =>
        let dj := { s.dj with djMRingfifo := s.dj.djMRingfifo.tail }
        pure ({ dj := dj, ring := ring, pc := .tick i }, [.took i])
  | .tick i => do
    let (ml, c) ← motorHandle s.dj.motorList i.toNat 1
    pure ({ s with dj.motorList := ml, pc := .drive c }, [])
  | .drive c => do
    let (dj, sent) ← motorDjDriver s.dj c.id c.mode c.value writeOk
    pure ({ s with dj := dj, pc := .poll }, [.drove c.id c.value sent])

/-- A call of the motor layer by another thread. -/
def command (s : DjLoop) (f : MotorList 4 → Call (MotorList 4)) :
    Call (DjLoop × List DjLoopObs) := do
  let ml ← f s.dj.motorList
  pure ({ s with dj.motorList := ml }, [])

def step (s : DjLoop) (e : DjLoopEvent) : Option (DjLoop × List DjLoopObs) :=
  Call.ret? <| match e with
    | .frame k data => s.interrupt { id := canMotor1Id + k, data := data }
    | .thread writeOk => s.canRxThread writeOk
    | .setSpeed i value => s.command (motorSetSpeed · i value)
    | .setPos i value => s.command (motorSetPos · i value)
    | .setTorque i value => s.command (motorSetTorque · i value)

/-- After `motor_dj_init`, with a ring of 4096 bytes. -/
def start (malloc : ℕ → List UInt8) (block : Apid) : DjLoop where
  dj := .start (motorDjInit block)
  ring := .start malloc 4096
  pc := .poll

/-- There is room in the ring for the id of a frame. -/
def Room (s : DjLoop) : DjLoopEvent → Prop
  | .frame .. => s.ring.Room (.interrupt 0)
  | _ => True

instance (s : DjLoop) : (e : DjLoopEvent) → Decidable (s.Room e)
  | .frame .. => inferInstanceAs (Decidable (s.ring.Room (.interrupt 0)))
  | .thread _ | .setSpeed .. | .setPos .. | .setTorque .. => isTrue trivial

/-- The ids in the ring. -/
def queue (s : DjLoop) : List UInt8 := s.ring.put.drop s.ring.got.length

end DjLoop

/-- A call of the motor layer by another thread. -/
def DjLoopEvent.IsCommand : DjLoopEvent → Prop
  | .frame .. | .thread _ => False
  | _ => True

/-- A torque that is set is in the range of the speed controller. -/
def DjLoopEvent.Fits : DjLoopEvent → Prop
  | .setTorque _ value => |value| ≤ 30000
  | _ => True

/-- The ids put into the ring, the ids taken out, and the motors of the driver calls. -/
def DjLoopObs.put? : DjLoopObs → Option UInt8
  | .put id => some id
  | _ => none

def DjLoopObs.took? : DjLoopObs → Option UInt8
  | .took id => some id
  | _ => none

def DjLoopObs.drove? : DjLoopObs → Option ℤ
  | .drove id _ _ => some id
  | _ => none

/-- The call wrote a frame with a new current of motor `k`. -/
def DjLoopObs.renews (k : Fin 4) : DjLoopObs → Bool
  | .drove id _ (some _) => id = k
  | _ => false

/-- The value of a driver call. -/
def DjLoopObs.value : DjLoopObs → ℚ
  | .drove _ value _ => value
  | _ => 0

/-- The current of the last call for motor `k` that wrote a frame; 0 before the first. -/
def lastCurrent (log : List DjLoopObs) (k : Fin 4) : ℤ :=
  ((log.findRev? (DjLoopObs.renews k)).map fun o => int16OfFloat o.value).getD 0

/-- The id that the thread has taken out and not driven yet. -/
def RoundPc.pending : RoundPc → List ℤ
  | .poll => []
  | .tick i => [i.toNat]
  | .drive c => [c.id]

/-! ## The driver and the motors in the shipped configuration -/

/-- The slot of a shipped motor is its number. -/
theorem setSlot_shipped (iq : Fin 4 → ℤ) (k : Fin 4) (x : ℤ) :
    setSlot iq (canSlot (UInt16.ofNat (canMotor1Id + k))) x = .ret (Function.update iq k x) := by
  have hk : (canSlot (UInt16.ofNat (canMotor1Id + k))).toNat = k := by
    revert k
    decide
  have hlt := canSlot_shipped k
  rw [setSlot, dif_pos hlt]
  congr 2
  exact Fin.ext hk

/-- A call of the driver in torque mode: it does nothing, or it puts the current into the slot of
the motor and writes the frame. -/
theorem motorDjDriver_shipped {st : DjState 4 4} (hs : st.Shipped) (k : Fin 4) (value : ℚ)
    (writeOk : Bool) :
    motorDjDriver st k .torque value writeOk = .ret (st, none) ∨
      ∃ dj', (∀ j, (dj' j).canId = (st.djMotors j).canId ∧ (dj' j).id = (st.djMotors j).id) ∧
        motorDjDriver st k .torque value writeOk = .ret
          ({ st with
              djMotors := dj', iq1Low := Function.update st.iq1Low k (int16OfFloat value) },
            some { id := canMotorAllId, data :=
              packIq (Function.update st.iq1Low k (int16OfFloat value)) }) := by
  have hi : motorDeref (n := 4) k = .ret k := by
    unfold motorDeref motorGet
    rw [if_neg (by omega), dif_pos (by omega)]
    rfl
  have hlow : motorDjDriver st k .torque value writeOk =
      driveLow st (canSlot (st.djMotors (st.userData k)).canId) (int16OfFloat value) writeOk := by
    unfold motorDjDriver
    rw [hi]
    rfl
  rw [hlow, driveLow, hs.userData, hs.canId, setSlot_shipped]
  by_cases hr : groupReady st.djMotors 0x201 0x204 = true
  · rw [if_pos hr]
    right
    cases writeOk with
    | true => exact ⟨st.djMotors, fun j => ⟨rfl, rfl⟩, rfl⟩
    | false => exact ⟨fun j => { st.djMotors j with msgCnt := 50 }, fun j => ⟨rfl, rfl⟩, rfl⟩
  · rw [if_neg hr]
    exact .inl rfl

/-- No call changes what the motor takes. -/
theorem Motor.Limited.apply_flagOutMode {m : Motor} (h : m.Limited) (op : WheelOp) :
    (op.apply m).flagOutMode = m.flagOutMode := by
  cases op with
  | handle cycle =>
    cases hmode : m.flagRunMode <;>
      simp only [WheelOp.apply, h.behaver, hmode, Behiver.run, motorBehiver2, Motor.speedLoop,
        Motor.posLoop]
  | _ => rfl

/-- A tick gives the driver the target torque in the torque mode, an output of the speed controller
in the speed and the position mode, and the last value if no target was ever set. -/
theorem Motor.Limited.handle_abs_le {m : Motor} (h : m.Limited) (cycle : { c : ℚ // 0 < c })
    (ht : |m.tarTorque| ≤ 30000) :
    |(WheelOp.apply m (.handle cycle)).tarTorque| ≤ 30000 ∧
      |(WheelOp.apply m (.handle cycle)).accOut| ≤ 30000 := by
  obtain ⟨tl, bl, hc⟩ := h.speed
  cases hmode : m.flagRunMode with
  | idel =>
    simp only [WheelOp.apply, h.behaver, hmode, Behiver.run, motorBehiver2, h.idle hmode]
    exact ⟨ht, by norm_num⟩
  | torque =>
    simp only [WheelOp.apply, h.behaver, hmode, Behiver.run, motorBehiver2]
    exact ⟨ht, ht⟩
  | speed =>
    simp only [WheelOp.apply, h.behaver, hmode, Behiver.run, motorBehiver2, Motor.speedLoop]
    have hout := speedConfig_out_abs_le hc m.tarSpeed m.curSpeed cycle
    exact ⟨hout, hout⟩
  | pos =>
    simp only [WheelOp.apply, h.behaver, hmode, Behiver.run, motorBehiver2, Motor.speedLoop,
      Motor.posLoop]
    have hout := speedConfig_out_abs_le hc (apidGetOut (m.pidPos.tick m.tarPos m.curPos cycle))
      m.curSpeed cycle
    exact ⟨hout, hout⟩

/-- The feedback of a frame keeps the motor. -/
theorem Motor.Limited.feedBack {m : Motor} (h : m.Limited) (rxmsg : CanMsg) (mm : MotorMeasure) :
    (m.feedBack rxmsg mm).Limited := by
  unfold Motor.feedBack
  generalize (sint 16 rxmsg.speed.toNat / 36 : ℚ) = speed
  generalize ((sint 16 rxmsg.torque.toNat : ℤ) : ℚ) = torque
  generalize (mm.totalAngle * kk : ℚ) = pos
  exact ⟨h.passive, h.behaver, h.speed, h.idle⟩

/-- A change of one motor that keeps a property of it. -/
theorem MotorList.modify_forall {ml : MotorList 4} {P : Motor → Prop} (h : ∀ i, P (ml i))
    {i : Fin 4} {f : Motor → Motor} (hf : P (f (ml i))) (j : Fin 4) : P (ml.modify i f j) := by
  by_cases hj : j = i
  · subst hj
    rwa [MotorList.modify_same]
  · rw [MotorList.modify_ne _ _ hj]
    exact h j

/-! ## One event -/

namespace DjLoop

/-- The thread has an id of the table, and gives it to the driver with a torque. -/
def Place : RoundPc → Prop
  | .poll => True
  | .tick i => i.toNat < 4
  | .drive c => ∃ k : Fin 4, c.id = k ∧ c.mode = .torque

/-- What every step keeps. -/
structure Inv (s : DjLoop) : Prop where
  shipped : s.dj.Shipped
  ids : ∀ k, (s.dj.djMotors k).id = UInt8.ofNat k
  motors : ∀ i, (s.dj.motorList i).Limited
  torque : ∀ i, (s.dj.motorList i).flagOutMode = .torque
  ring : s.ring.Inv 4096
  queue : s.queue = s.dj.djMRingfifo
  known : ∀ b ∈ s.ring.put, b.toNat < 4
  place : Place s.pc

theorem start_inv {malloc : ℕ → List UInt8} (hm : ∀ n, (malloc n).length = n) (block : Apid) :
    (start malloc block).Inv where
  shipped := DjState.start_shipped _
  ids := fun k => rfl
  motors := motorDjInit_limited block
  torque := fun i => congrArg Motor.flagOutMode (motorDjInit_rest block i)
  ring := RingSys.start_inv hm (show 8 ≤ 4096 by omega)
  queue := rfl
  known := fun b hb => (List.not_mem_nil hb).elim
  place := trivial

/-- What a step can do to the ring, the thread, the currents and the motors. -/
inductive Does (s s' : DjLoop) : DjLoopEvent → List DjLoopObs → Prop where
  | frame (k : Fin 4) (data : Vector UInt8 8)
      (put : s'.ring.put = s.ring.put ++ [UInt8.ofNat k]) (got : s'.ring.got = s.ring.got)
      (pc : s'.pc = s.pc) (iq : s'.dj.iq1Low = s.dj.iq1Low)
      (motors : ∀ i, s'.dj.motorList i = s.dj.motorList i ∨
        ∃ rxmsg mm, s'.dj.motorList i = (s.dj.motorList i).feedBack rxmsg mm) :
      Does s s' (.frame k data) [.put (UInt8.ofNat k)]
  | wait (writeOk : Bool) (put : s'.ring.put = s.ring.put) (got : s'.ring.got = s.ring.got)
      (pc : s'.pc = s.pc) (dj : s'.dj = s.dj) : Does s s' (.thread writeOk) []
  | take (writeOk : Bool) (i : UInt8) (hpc : s.pc = .poll) (put : s'.ring.put = s.ring.put)
      (got : s'.ring.got = s.ring.got ++ [i]) (pc : s'.pc = .tick i)
      (iq : s'.dj.iq1Low = s.dj.iq1Low) (motors : s'.dj.motorList = s.dj.motorList) :
      Does s s' (.thread writeOk) [.took i]
  | tick (writeOk : Bool) (k : Fin 4) (i : UInt8) (hpc : s.pc = .tick i) (hi : i.toNat = k)
      (ring : s'.ring = s.ring) (iq : s'.dj.iq1Low = s.dj.iq1Low)
      (motors : s'.dj.motorList =
        s.dj.motorList.modify k (WheelOp.apply · (.handle ⟨1, by decide⟩)))
      (pc : s'.pc = .drive ⟨k, .torque, (s'.dj.motorList k).accOut⟩) :
      Does s s' (.thread writeOk) []
  | quiet (writeOk : Bool) (c : DriverCall) (hpc : s.pc = .drive c)
      (ring : s'.ring = s.ring) (pc : s'.pc = .poll)
      (dj : s'.dj = s.dj) : Does s s' (.thread writeOk) [.drove c.id c.value none]
  | write (writeOk : Bool) (c : DriverCall) (k : Fin 4) (hpc : s.pc = .drive c) (hc : c.id = k)
      (ring : s'.ring = s.ring) (pc : s'.pc = .poll)
      (iq : s'.dj.iq1Low = Function.update s.dj.iq1Low k (int16OfFloat c.value))
      (motors : s'.dj.motorList = s.dj.motorList) :
      Does s s' (.thread writeOk) [.drove c.id c.value
        (some { id := canMotorAllId, data := packIq s'.dj.iq1Low })]
  | command (e : DjLoopEvent) (i : Fin 4) (f : Motor → Motor) (he : e.IsCommand)
      (ring : s'.ring = s.ring) (pc : s'.pc = s.pc)
      (iq : s'.dj.iq1Low = s.dj.iq1Low) (motors : s'.dj.motorList = s.dj.motorList.modify i f)
      (target : (f (s.dj.motorList i)).tarTorque = (s.dj.motorList i).tarTorque ∨
        e = .setTorque i (f (s.dj.motorList i)).tarTorque) : Does s s' e []

variable {s : DjLoop}

/-- The driver after a frame of motor `k`. -/
def framed (dj : DjState 4 4) (k : Fin 4) (rxmsg : CanMsg) : DjState 4 4 :=
  let mm := (dj.djMotors k).receive rxmsg.angle
  { dj with
    djMotors := Function.update dj.djMotors k mm
    motorList := dj.motorList.modify k fun motor => motor.feedBack rxmsg mm
    djMRingfifo := putcharForce dj.djMRingfifo mm.id }

theorem framed_canId (dj : DjState 4 4) (k : Fin 4) (rxmsg : CanMsg) (j : Fin 4) :
    ((framed dj k rxmsg).djMotors j).canId = (dj.djMotors j).canId :=
  update_canId (MotorMeasure.receive_canId _ _) j

/-- A frame changes feedback values only. -/
theorem framed_motor (dj : DjState 4 4) (k : Fin 4) (rxmsg : CanMsg) (j : Fin 4) :
    (framed dj k rxmsg).motorList j = dj.motorList j ∨
      ∃ mm, (framed dj k rxmsg).motorList j = (dj.motorList j).feedBack rxmsg mm := by
  have heq : (framed dj k rxmsg).motorList = dj.motorList.modify k
      (·.feedBack rxmsg ((dj.djMotors k).receive rxmsg.angle)) := rfl
  rw [heq]
  by_cases hj : j = k
  · subst hj
    exact .inr ⟨_, MotorList.modify_same _ _ _⟩
  · exact .inl (MotorList.modify_ne _ _ hj)

theorem framed_id (dj : DjState 4 4) (k : Fin 4) (rxmsg : CanMsg) (j : Fin 4) :
    ((framed dj k rxmsg).djMotors j).id = (dj.djMotors j).id := by
  unfold framed
  by_cases hj : j = k
  · subst hj
    simp only [Function.update_self, MotorMeasure.receive_id]
  · simp only [Function.update_of_ne hj]

theorem ofNat_lt_four : ∀ k : Fin 4, (UInt8.ofNat k).toNat < 4 := by decide

/-- The interrupt puts the id of a motor behind those in the ring. -/
theorem Inv.enqueue (h : s.Inv) (k : Fin 4) (hroom : s.ring.Room (.interrupt (UInt8.ofNat k))) :
    ∃ ring, s.ring.step (.interrupt (UInt8.ofNat k)) = some (ring, []) ∧ ring.Inv 4096 ∧
      ring.put = s.ring.put ++ [UInt8.ofNat k] ∧ ring.got = s.ring.got ∧
      ring.put.drop ring.got.length = putcharForce s.dj.djMRingfifo (UInt8.ofNat k) ∧
      ∀ b ∈ ring.put, b.toNat < 4 := by
  obtain ⟨ring, hring, hinv⟩ := RingSys.interrupt_inv h.ring (UInt8.ofNat k) hroom
  have hput : ring.put = s.ring.put ++ [UInt8.ofNat k] := RingSys.step_put hring
  have hgot : ring.got = s.ring.got := RingSys.interrupt_got hring
  have hshort : s.queue.length < 4096 := by
    have hlt : s.ring.put.length < s.ring.got.length + s.ring.rb.bufferSize := hroom
    rw [h.ring.bufferSize] at hlt
    rw [DjLoop.queue, List.length_drop]
    omega
  refine ⟨ring, hring, hinv, hput, hgot, ?_, fun b hb => ?_⟩
  · rw [hput, hgot, List.drop_append_of_le_length h.ring.order]
    rw [h.queue] at hshort
    rw [putcharForce, if_pos hshort, ← h.queue, DjLoop.queue]
  · rw [hput] at hb
    rcases List.mem_append.mp hb with hb | hb
    · exact h.known b hb
    · rw [List.mem_singleton.mp hb]
      exact ofNat_lt_four k

/-- A frame: the feedback of the motor, and its id at the end of the ring. -/
theorem Inv.frame (h : s.Inv) (k : Fin 4) (data : Vector UInt8 8) (hroom : s.Room (.frame k data)) :
    ∃ s' l, s.step (.frame k data) = some (s', l) ∧ s'.Inv ∧ Does s s' (.frame k data) l := by
  have hk : (s.dj.djMotors k).id.toNat = k := by
    rw [h.ids]
    clear hroom
    revert k
    decide
  have hcall : indDjCanMotorCallback s.dj ⟨canMotor1Id + k, data⟩ =
      .ret (framed s.dj k ⟨canMotor1Id + k, data⟩) :=
    indDjCanMotorCallback_eq (h.shipped.found k) hk
  obtain ⟨ring, hring, hinv, hput, hgot, hqueue, hknown⟩ := h.enqueue k hroom
  have hstep : s.step (.frame k data) = some
      ({ s with dj := framed s.dj k ⟨canMotor1Id + k, data⟩, ring := ring },
        [.put (UInt8.ofNat k)]) := by
    simp only [step, interrupt, h.shipped.found k, Call.ret_bind, hcall, h.ids, hring,
      Call.pure_eq, Call.ret?_ret]
  refine ⟨_, _, hstep, ?_, .frame k data hput hgot rfl rfl ?_⟩
  · exact {
      shipped := ⟨fun j => (framed_canId _ _ _ j).trans (h.shipped.canId j), h.shipped.userData⟩
      ids := fun j => (framed_id _ _ _ j).trans (h.ids j)
      motors := fun i => by
        rcases framed_motor s.dj k ⟨canMotor1Id + k, data⟩ i with hi | ⟨mm, hi⟩
        · rw [hi]
          exact h.motors i
        · rw [hi]
          exact (h.motors i).feedBack _ mm
      torque := fun i => by
        rcases framed_motor s.dj k ⟨canMotor1Id + k, data⟩ i with hi | ⟨mm, hi⟩
        · rw [hi, h.torque]
        · rw [hi, Motor.feedBack, h.torque]
      ring := hinv
      queue := by rw [DjLoop.queue, hqueue, framed, MotorMeasure.receive_id, h.ids]
      known := hknown
      place := h.place }
  · intro i
    rcases framed_motor s.dj k ⟨canMotor1Id + k, data⟩ i with hi | ⟨mm, hi⟩
    · exact .inl hi
    · exact .inr ⟨_, mm, hi⟩

/-- The thread in `rt_ringbuffer_getchar`. -/
theorem Inv.poll (h : s.Inv) (hpc : s.pc = .poll) (writeOk : Bool) :
    ∃ s' l, s.step (.thread writeOk) = some (s', l) ∧ s'.Inv ∧ Does s s' (.thread writeOk) l := by
  obtain ⟨ring, l, hring, hinv, -⟩ := RingSys.thread_inv h.ring
  have hring' : s.ring.threadStep = some (ring, l) := hring
  obtain ⟨hput, hgot⟩ := RingSys.threadStep_history hring'
  cases hret : s.ring.pc.returns with
  | none =>
    rw [hret, Option.toList_none, List.append_nil] at hgot
    have hstep : s.step (.thread writeOk) = some ({ s with ring := ring }, []) := by
      simp only [step, canRxThread, hpc, hring', hret, Call.pure_eq, Call.ret?_ret]
    refine ⟨_, _, hstep, ?_, .wait writeOk hput hgot rfl rfl⟩
    exact { h with
      ring := hinv
      queue := by rw [DjLoop.queue, hput, hgot]; exact h.queue
      known := by rw [hput]; exact h.known }
  | some i =>
    rw [hret, Option.toList_some] at hgot
    have hstep : s.step (.thread writeOk) = some
        ({ dj := { s.dj with djMRingfifo := s.dj.djMRingfifo.tail }, ring := ring, pc := .tick i },
          [.took i]) := by
      simp only [step, canRxThread, hpc, hring', hret, Call.pure_eq, Call.ret?_ret]
    refine ⟨_, _, hstep, ?_, .take writeOk i hpc hput hgot rfl rfl rfl⟩
    have hmem : i ∈ s.ring.put := by
      have hprefix := hinv.got
      rw [hput] at hprefix
      refine List.mem_of_mem_take (i := ring.got.length) ?_
      rw [← hprefix, hgot]
      exact List.mem_append_right _ (List.mem_singleton_self i)
    exact {
      shipped := ⟨h.shipped.canId, h.shipped.userData⟩
      ids := h.ids, motors := h.motors, torque := h.torque, ring := hinv
      queue := by
        rw [DjLoop.queue, hput, hgot, List.length_append, List.length_singleton, ← List.drop_drop,
          List.drop_one, ← h.queue]
        rfl
      known := by rw [hput]; exact h.known
      place := h.known i hmem }

/-- The thread in `motor_handle`. -/
theorem Inv.tick (h : s.Inv) {i : UInt8} (hpc : s.pc = .tick i) (writeOk : Bool) :
    ∃ s' l, s.step (.thread writeOk) = some (s', l) ∧ s'.Inv ∧ Does s s' (.thread writeOk) l := by
  have hlt : i.toNat < 4 := by
    have := h.place
    rwa [hpc] at this
  let k : Fin 4 := ⟨i.toNat, hlt⟩
  let op : WheelOp := .handle ⟨1, by decide⟩
  let ml := s.dj.motorList.modify k (WheelOp.apply · op)
  have hlim : ∀ j, (ml j).Limited := modify_limited h.motors (k, op)
  have hout : ∀ j, (ml j).flagOutMode = .torque :=
    MotorList.modify_forall (P := fun m => m.flagOutMode = .torque) h.torque
      (by rw [(h.motors k).apply_flagOutMode op, h.torque])
  have hhandle : motorHandle s.dj.motorList i.toNat 1 =
      .ret (ml, ⟨k, .torque, (ml k).accOut⟩) := by
    have hexec := WheelOp.exec_call op (h.motors k).passive
    obtain ⟨⟨ml', c⟩, hr, hret⟩ := Call.bind_eq_ret.mp hexec
    simp only [Call.pure_eq, Call.ret.injEq, Prod.mk.injEq] at hret
    obtain ⟨rfl, hc⟩ := hret
    have hc' : c = ⟨k, (WheelOp.apply (s.dj.motorList k) op).flagOutMode,
        (WheelOp.apply (s.dj.motorList k) op).accOut⟩ := Option.some.inj hc
    rw [hc', (h.motors k).apply_flagOutMode op, h.torque] at hr
    rw [show ml k = WheelOp.apply (s.dj.motorList k) op from MotorList.modify_same _ _ _]
    exact hr
  have hstep : s.step (.thread writeOk) = some
      ({ s with dj.motorList := ml, pc := .drive ⟨k, .torque, (ml k).accOut⟩ }, []) := by
    simp only [step, canRxThread, hpc, hhandle, Call.ret_bind, Call.pure_eq, Call.ret?_ret]
  refine ⟨_, _, hstep, ?_, .tick writeOk k i hpc rfl rfl rfl rfl rfl⟩
  exact { h with
    shipped := ⟨h.shipped.canId, h.shipped.userData⟩
    motors := hlim, torque := hout, place := ⟨k, rfl, rfl⟩ }

/-- The thread in the call of the driver. -/
theorem Inv.drive (h : s.Inv) {c : DriverCall} (hpc : s.pc = .drive c) (writeOk : Bool) :
    ∃ s' l, s.step (.thread writeOk) = some (s', l) ∧ s'.Inv ∧ Does s s' (.thread writeOk) l := by
  have hplace := h.place
  rw [hpc] at hplace
  obtain ⟨k, hid, hmode⟩ := hplace
  rcases motorDjDriver_shipped h.shipped k c.value writeOk with hr | ⟨dj', hdj, hr⟩
  · rw [← hid, ← hmode] at hr
    have hstep : s.step (.thread writeOk) =
        some ({ s with pc := .poll }, [.drove c.id c.value none]) := by
      simp only [step, canRxThread, hpc, hr, Call.ret_bind, Call.pure_eq, Call.ret?_ret]
    exact ⟨_, _, hstep, { h with place := trivial }, .quiet writeOk c hpc rfl rfl rfl⟩
  · rw [← hid, ← hmode] at hr
    let iq := Function.update s.dj.iq1Low k (int16OfFloat c.value)
    have hstep : s.step (.thread writeOk) = some
        ({ s with dj := { s.dj with djMotors := dj', iq1Low := iq }, pc := .poll },
          [.drove c.id c.value (some { id := canMotorAllId, data := packIq iq })]) := by
      simp only [step, canRxThread, hpc, hr, Call.ret_bind, Call.pure_eq, Call.ret?_ret, iq]
    refine ⟨_, _, hstep, ?_, .write writeOk c k hpc hid rfl rfl rfl rfl⟩
    exact { h with
      shipped := ⟨fun j => (hdj j).1.trans (h.shipped.canId j), h.shipped.userData⟩
      ids := fun j => (hdj j).2.trans (h.ids j)
      place := trivial }

/-- A target that another thread sets. -/
theorem Inv.command (h : s.Inv) {e : DjLoopEvent} {f : MotorList 4 → Call (MotorList 4)}
    (he : e.IsCommand) (i : Fin 4) (op : WheelOp) (hcmd : s.step e = (s.command f).ret?)
    (hf : f s.dj.motorList = .ret (s.dj.motorList.modify i (WheelOp.apply · op)))
    (htarget : (op.apply (s.dj.motorList i)).tarTorque = (s.dj.motorList i).tarTorque ∨
      e = .setTorque i (op.apply (s.dj.motorList i)).tarTorque) :
    ∃ s' l, s.step e = some (s', l) ∧ s'.Inv ∧ Does s s' e l := by
  have hstep : s.step e = some
      ({ s with dj.motorList := s.dj.motorList.modify i (WheelOp.apply · op) }, []) := by
    rw [hcmd]
    simp only [DjLoop.command, hf, Call.ret_bind, Call.pure_eq, Call.ret?_ret]
  refine ⟨_, _, hstep, ?_, .command e i (WheelOp.apply · op) he rfl rfl rfl rfl htarget⟩
  exact { h with
    shipped := ⟨h.shipped.canId, h.shipped.userData⟩
    motors := modify_limited h.motors (i, op)
    torque := MotorList.modify_forall (P := fun m => m.flagOutMode = .torque) h.torque
      (by rw [(h.motors i).apply_flagOutMode op, h.torque]) }

/-- What one event can do. -/
theorem step_ret (h : s.Inv) (e : DjLoopEvent) (hroom : s.Room e) :
    ∃ s' l, s.step e = some (s', l) ∧ s'.Inv ∧ Does s s' e l := by
  cases e with
  | frame k data => exact h.frame k data hroom
  | thread writeOk =>
    cases hpc : s.pc with
    | poll => exact h.poll hpc writeOk
    | tick i => exact h.tick hpc writeOk
    | drive c => exact h.drive hpc writeOk
  | setSpeed i value =>
    refine h.command trivial i (.setSpeed value) rfl ?_ (.inl rfl)
    rw [motorSetSpeed, motorAssert_eq_ret.mpr rfl]
    rfl
  | setPos i value =>
    refine h.command trivial i (.setPos value) rfl ?_ (.inl rfl)
    rw [motorSetPos, motorAssert_eq_ret.mpr rfl]
    rfl
  | setTorque i value =>
    refine h.command trivial i (.setTorque value) rfl ?_ (.inr rfl)
    rw [motorSetTorque, motorAssert_eq_ret.mpr rfl]
    rfl

theorem does_of_step {s' : DjLoop} {e : DjLoopEvent} {l : List DjLoopObs} (h : s.Inv)
    (hroom : s.Room e) (hstep : s.step e = some (s', l)) : s'.Inv ∧ Does s s' e l := by
  obtain ⟨s₁, l₁, h₁, hi, hd⟩ := step_ret h e hroom
  rw [h₁] at hstep
  obtain ⟨rfl, rfl⟩ := Prod.mk.inj (Option.some.inj hstep)
  exact ⟨hi, hd⟩

end DjLoop

/-! ## The history -/

/-- A current has 16 bits. -/
theorem lastCurrent_range (log : List DjLoopObs) (k : Fin 4) :
    -2 ^ 15 ≤ lastCurrent log k ∧ lastCurrent log k < 2 ^ 15 := by
  unfold lastCurrent
  cases log.findRev? (DjLoopObs.renews k) with
  | none => simp
  | some o =>
    have hlow := Int.le_bmod (x := trunc o.value) (m := 2 ^ 16) (by decide)
    have hhigh := Int.bmod_lt (x := trunc o.value) (m := 2 ^ 16) (by decide)
    simp only [Option.map_some, Option.getD_some, int16OfFloat, sint]
    omega

theorem lastCurrent_concat (log : List DjLoopObs) (o : DjLoopObs) (k : Fin 4) :
    lastCurrent (log ++ [o]) k =
      if o.renews k then int16OfFloat o.value else lastCurrent log k := by
  rw [lastCurrent, findRev?_concat]
  split <;> rfl

/-- The history of a run against the state that it ends in. -/
structure Traffic (s : DjLoop) (log : List DjLoopObs) : Prop where
  put : log.filterMap DjLoopObs.put? = s.ring.put
  got : log.filterMap DjLoopObs.took? = s.ring.got
  /-- Every id taken out is answered by one call of the driver. -/
  answered : (log.filterMap DjLoopObs.took?).map (fun b => (b.toNat : ℤ)) =
    log.filterMap DjLoopObs.drove? ++ s.pc.pending
  currents : ∀ k, s.dj.iq1Low k = lastCurrent log k
  /-- A frame on the bus has the last currents of all motors. -/
  frames : Guarded (fun l o => ∀ id value msg, o = .drove id value (some msg) →
    msg.id = canMotorAllId ∧ ∀ k, msg.current k = lastCurrent (l ++ [o]) k) log

theorem Traffic.start (malloc : ℕ → List UInt8) (block : Apid) :
    Traffic (.start malloc block) [] := ⟨rfl, rfl, rfl, fun _ => rfl, guarded_nil⟩

/-- An entry that is no written frame says nothing about the currents. -/
theorem Traffic.quietly {s : DjLoop} {log : List DjLoopObs} (h : Traffic s log) {o : DjLoopObs}
    (ho : ∀ k, o.renews k = false) (hsent : ∀ id value msg, o ≠ .drove id value (some msg)) :
    (∀ k, s.dj.iq1Low k = lastCurrent (log ++ [o]) k) ∧
      Guarded (fun l o => ∀ id value msg, o = .drove id value (some msg) →
        msg.id = canMotorAllId ∧ ∀ k, msg.current k = lastCurrent (l ++ [o]) k) (log ++ [o]) := by
  refine ⟨fun k => ?_, guarded_concat.mpr ⟨h.frames, fun id value msg heq => ?_⟩⟩
  · rw [lastCurrent_concat, ho, h.currents]
    rfl
  · exact absurd heq (hsent id value msg)

/-- The slots after the driver put a current of motor `k` into its slot. -/
theorem Traffic.renewed {s s' : DjLoop} {log : List DjLoopObs} (h : Traffic s log) {k : Fin 4}
    {value : ℚ} {msg : CanMsg}
    (iq : s'.dj.iq1Low = Function.update s.dj.iq1Low k (int16OfFloat value)) (j : Fin 4) :
    s'.dj.iq1Low j = lastCurrent (log ++ [.drove k value (some msg)]) j := by
  rw [iq, lastCurrent_concat]
  by_cases hj : j = k
  · subst hj
    rw [Function.update_self, if_pos (by simp [DjLoopObs.renews])]
    rfl
  · have hne : ¬ ((k : ℕ) : ℤ) = (j : ℕ) := fun he => hj (Fin.ext (by omega))
    rw [Function.update_of_ne hj, if_neg (by simp [DjLoopObs.renews, hne]), h.currents]

/-- A call of the driver answers the id that the thread has taken out. -/
theorem Traffic.driven {s s' : DjLoop} {log : List DjLoopObs} (h : Traffic s log) {c : DriverCall}
    (hpc : s.pc = .drive c) (ring : s'.ring = s.ring) (pc : s'.pc = .poll)
    (sent : Option CanMsg) :
    let log' := log ++ [.drove c.id c.value sent]
    log'.filterMap DjLoopObs.put? = s'.ring.put ∧ log'.filterMap DjLoopObs.took? = s'.ring.got ∧
      (log'.filterMap DjLoopObs.took?).map (fun b => (b.toNat : ℤ)) =
        log'.filterMap DjLoopObs.drove? ++ s'.pc.pending := by
  have hput := h.put
  have hgot := h.got
  have hans := h.answered
  rw [hpc, RoundPc.pending] at hans
  refine ⟨?_, ?_, ?_⟩
  · rw [ring]
    simpa [List.filterMap_cons, DjLoopObs.put?] using hput
  · rw [ring]
    simpa [List.filterMap_cons, DjLoopObs.took?] using hgot
  · rw [pc]
    simpa [List.filterMap_cons, DjLoopObs.took?, DjLoopObs.drove?, RoundPc.pending] using hans

/-- A frame packed from the slots has the last currents. -/
theorem packed_currents {iq : Fin 4 → ℤ} {log : List DjLoopObs}
    (hcur : ∀ j, iq j = lastCurrent log j) (j : Fin 4) :
    ({ id := canMotorAllId, data := packIq iq } : CanMsg).current j = lastCurrent log j := by
  have hr := lastCurrent_range log j
  rw [← hcur] at hr ⊢
  exact packIq_current iq j hr.1 hr.2 _

/-- One event keeps the history and the state together. -/
theorem Traffic.step {s s' : DjLoop} {e : DjLoopEvent} {log l : List DjLoopObs}
    (h : Traffic s log) (hd : DjLoop.Does s s' e l) : Traffic s' (log ++ l) := by
  have hput := h.put
  have hgot := h.got
  have hans := h.answered
  cases hd with
  | frame k data put got pc iq motors =>
    obtain ⟨hcur, hframes⟩ := h.quietly (o := .put (UInt8.ofNat k)) (fun _ => rfl) (by simp)
    refine ⟨?_, ?_, ?_, fun j => by rw [iq]; exact hcur j, hframes⟩
    · rw [List.filterMap_append, hput, put]
      rfl
    · rw [List.filterMap_append, hgot, got]
      exact List.append_nil _
    · rw [List.filterMap_append, List.filterMap_append, pc]
      simpa [List.filterMap_cons, DjLoopObs.took?, DjLoopObs.drove?] using hans
  | wait writeOk put got pc dj =>
    rw [List.append_nil]
    exact ⟨by rwa [put], by rwa [got], by rwa [pc], by rw [dj]; exact h.currents, h.frames⟩
  | take writeOk i hpc put got pc iq motors =>
    obtain ⟨hcur, hframes⟩ := h.quietly (o := .took i) (fun _ => rfl) (by simp)
    refine ⟨?_, ?_, ?_, fun j => by rw [iq]; exact hcur j, hframes⟩
    · rw [List.filterMap_append, hput, put]
      exact List.append_nil _
    · rw [List.filterMap_append, hgot, got]
      rfl
    · rw [hpc, RoundPc.pending, List.append_nil] at hans
      rw [pc, List.filterMap_append, List.map_append, hans]
      simp [List.filterMap_cons, DjLoopObs.took?, DjLoopObs.drove?, RoundPc.pending]
  | tick writeOk k i hpc hi ring iq motors pc =>
    rw [List.append_nil]
    refine ⟨by rwa [ring], by rwa [ring], ?_, by rw [iq]; exact h.currents, h.frames⟩
    rw [hpc, RoundPc.pending, hi] at hans
    rwa [pc, RoundPc.pending]
  | quiet writeOk c hpc ring pc dj =>
    obtain ⟨hcur, hframes⟩ := h.quietly (o := .drove c.id c.value none) (fun _ => rfl) (by simp)
    obtain ⟨hput', hgot', hans'⟩ := h.driven hpc ring pc none
    exact ⟨hput', hgot', hans', fun j => by rw [dj]; exact hcur j, hframes⟩
  | write writeOk c k hpc hc ring pc iq motors =>
    have hcur : ∀ j, s'.dj.iq1Low j = lastCurrent (log ++ [.drove c.id c.value
        (some { id := canMotorAllId, data := packIq s'.dj.iq1Low })]) j := by
      intro j
      rw [hc]
      exact h.renewed iq j
    obtain ⟨hput', hgot', hans'⟩ := h.driven hpc ring pc
      (some { id := canMotorAllId, data := packIq s'.dj.iq1Low })
    refine ⟨hput', hgot', hans', hcur, guarded_concat.mpr ⟨h.frames, ?_⟩⟩
    intro id value msg heq
    simp only [DjLoopObs.drove.injEq, Option.some.injEq] at heq
    obtain ⟨-, -, rfl⟩ := heq
    exact ⟨rfl, packed_currents hcur⟩
  | command _ i f _ ring pc iq motors target =>
    rw [List.append_nil]
    exact ⟨by rwa [ring], by rwa [ring], by rwa [pc], by rw [iq]; exact h.currents, h.frames⟩

/-- What was put in has been taken out, or it is still in the ring. -/
theorem Traffic.complete {s : DjLoop} {log : List DjLoopObs} (h : Traffic s log) (hs : s.Inv) :
    log.filterMap DjLoopObs.took? ++ s.queue = log.filterMap DjLoopObs.put? := by
  have htake := List.take_append_drop s.ring.got.length s.ring.put
  rw [← hs.ring.got] at htake
  rw [h.got, h.put]
  exact htake

/-- The values are in the range of the speed controller. -/
structure Bounded (s : DjLoop) (log : List DjLoopObs) : Prop where
  targets : ∀ i, |(s.dj.motorList i).tarTorque| ≤ 30000
  pending : ∀ c, s.pc = .drive c → |c.value| ≤ 30000
  values : ∀ id value sent, .drove id value sent ∈ log → |value| ≤ 30000

theorem Bounded.start (malloc : ℕ → List UInt8) (block : Apid) :
    Bounded (.start malloc block) [] := by
  refine ⟨fun i => ?_, fun c hc => (by cases hc), fun id value sent hmem => (by simp at hmem)⟩
  have hzero : (motorDjInit block i).tarTorque = 0 :=
    congrArg Motor.tarTorque (motorDjInit_rest block i)
  show |(motorDjInit block i).tarTorque| ≤ 30000
  rw [hzero]
  norm_num

/-- A driver call passes on the value that the thread has. -/
theorem Bounded.drove {s : DjLoop} {log : List DjLoopObs} (h : Bounded s log) {c : DriverCall}
    (hpc : s.pc = .drive c) (sent : Option CanMsg) (id : ℤ) (value : ℚ) (sent' : Option CanMsg)
    (hmem : .drove id value sent' ∈ log ++ [DjLoopObs.drove c.id c.value sent]) :
    |value| ≤ 30000 := by
  rcases List.mem_append.mp hmem with hmem | hmem
  · exact h.values id value sent' hmem
  · simp only [List.mem_singleton, DjLoopObs.drove.injEq] at hmem
    rw [hmem.2.1]
    exact h.pending c hpc

theorem Bounded.step {s s' : DjLoop} {e : DjLoopEvent} {log l : List DjLoopObs}
    (h : Bounded s log) (hs : s.Inv) (hfits : e.Fits) (hd : DjLoop.Does s s' e l) :
    Bounded s' (log ++ l) := by
  cases hd with
  | frame k data put got pc iq motors =>
    refine ⟨fun i => ?_, by rw [pc]; exact h.pending,
      fun id value sent hmem => h.values id value sent (by simpa using hmem)⟩
    rcases motors i with hi | ⟨rxmsg, mm, hi⟩
    · rw [hi]
      exact h.targets i
    · rw [hi, Motor.feedBack]
      exact h.targets i
  | wait writeOk put got pc dj =>
    rw [List.append_nil]
    exact ⟨by rw [dj]; exact h.targets, by rw [pc]; exact h.pending, h.values⟩
  | take writeOk i hpc put got pc iq motors =>
    exact ⟨by rw [motors]; exact h.targets, fun c hc => (by simp [pc] at hc),
      fun id value sent hmem => h.values id value sent (by simpa using hmem)⟩
  | tick writeOk k i hpc hi ring iq motors pc =>
    rw [List.append_nil]
    have htick := (hs.motors k).handle_abs_le ⟨1, by decide⟩ (h.targets k)
    refine ⟨?_, fun c hc => ?_, h.values⟩
    · rw [motors]
      exact MotorList.modify_forall (P := fun m => |m.tarTorque| ≤ 30000) h.targets htick.1
    · rw [pc, motors, MotorList.modify_same, RoundPc.drive.injEq] at hc
      rw [← hc]
      exact htick.2
  | quiet writeOk c hpc ring pc dj =>
    exact ⟨by rw [dj]; exact h.targets, fun c hc => (by simp [pc] at hc), h.drove hpc none⟩
  | write writeOk c k hpc hc ring pc iq motors =>
    exact ⟨by rw [motors]; exact h.targets, fun c hc => (by simp [pc] at hc),
      h.drove hpc _⟩
  | command _ i f _ ring pc iq motors target =>
    rw [List.append_nil]
    refine ⟨?_, by rw [pc]; exact h.pending, h.values⟩
    rw [motors]
    refine MotorList.modify_forall (P := fun m => |m.tarTorque| ≤ 30000) h.targets ?_
    rcases target with htar | rfl
    · rw [htar]
      exact h.targets i
    · exact hfits

/-! ## Runs -/

theorem DjLoop.run_ret {s : DjLoop} (h : s.Inv) {es : List DjLoopEvent}
    (hroom : AllSteps DjLoop.step DjLoop.Room s es) :
    ∃ s' log, runLog DjLoop.step s es = some (s', log) ∧ s'.Inv := by
  refine runLog_ret (fun s e hs hroom => ?_) h hroom
  obtain ⟨s₁, l₁, h₁, hi, -⟩ := DjLoop.step_ret hs e hroom
  exact ⟨s₁, l₁, h₁, hi⟩

/-- What the steps that meet `C` keep of the state and the history. -/
theorem DjLoop.history {s s' : DjLoop} {es : List DjLoopEvent} {log : List DjLoopObs}
    {C : DjLoop → DjLoopEvent → Prop} {P : DjLoop → List DjLoopObs → Prop} (h : s.Inv)
    (hstart : P s []) (hstep : ∀ {s s' e l log}, P s log → s.Inv → C s e → Does s s' e l →
      P s' (log ++ l))
    (hall : AllSteps DjLoop.step (fun s e => s.Room e ∧ C s e) s es)
    (hrun : runLog DjLoop.step s es = some (s', log)) : P s' log := by
  have hkeep : ∀ s l e s₁ l₁, s.Inv ∧ P s l → s.Room e ∧ C s e → s.step e = some (s₁, l₁) →
      s₁.Inv ∧ P s₁ (l ++ l₁) := by
    intro s l e s₁ l₁ hs hC h₁
    obtain ⟨hi, hd⟩ := does_of_step hs.1 hC.1 h₁
    exact ⟨hi, hstep hs.2 hs.1 hC.2 hd⟩
  exact (runLog_history hkeep ⟨h, hstart⟩ hall hrun).2

/-- Every run of the interrupt, the thread and the threads that set targets, from `motor_dj_init`
on, in which no frame finds the ring full: no call faults or hangs. The calls of the driver answer
the frames in their order, each once, up to those whose ids are still in the ring. Every current
frame has in the slot of each motor the result of the last tick of that motor that wrote a frame.
With torque targets in the range, all results can be converted. -/
theorem can_loop_runs (malloc : ℕ → List UInt8) (hm : ∀ n, (malloc n).length = n) (block : Apid)
    (es : List DjLoopEvent) (hroom : AllSteps DjLoop.step DjLoop.Room (.start malloc block) es) :
    ∃ s log, runLog DjLoop.step (.start malloc block) es = some (s, log) ∧
      s.queue = s.dj.djMRingfifo ∧
      log.filterMap DjLoopObs.took? ++ s.queue = log.filterMap DjLoopObs.put? ∧
      (log.filterMap DjLoopObs.took?).map (fun b => (b.toNat : ℤ)) =
        log.filterMap DjLoopObs.drove? ++ s.pc.pending ∧
      (∀ l₁ id value msg l₂, log = l₁ ++ .drove id value (some msg) :: l₂ →
        msg.id = 0x200 ∧
          ∀ k, msg.current k = lastCurrent (l₁ ++ [.drove id value (some msg)]) k) ∧
      ((∀ e ∈ es, e.Fits) → ∀ id value sent, .drove id value sent ∈ log →
        |value| ≤ 30000 ∧ Converts value) := by
  have hstart := DjLoop.start_inv hm block
  obtain ⟨s, log, hrun, hs⟩ := DjLoop.run_ret hstart hroom
  have htraffic : Traffic s log :=
    DjLoop.history hstart (Traffic.start malloc block) (fun h _ _ hd => h.step hd)
      (hroom.and (allSteps_of_forall (C := fun _ => True) fun _ _ => trivial)) hrun
  refine ⟨s, log, hrun, hs.queue, htraffic.complete hs, htraffic.answered,
    fun l₁ id value msg l₂ hl => htraffic.frames l₁ _ l₂ hl id value msg rfl, fun hfits => ?_⟩
  have hbound : Bounded s log :=
    DjLoop.history hstart (Bounded.start malloc block) (fun h hi hC hd => h.step hi hC hd)
      (hroom.and (allSteps_of_forall hfits)) hrun
  intro id value sent hmem
  have habs := abs_le.mp (hbound.values id value sent hmem)
  exact ⟨abs_le.mpr habs, converts_of_range (by linarith) (by linarith)⟩

/-- Two frames, the second one while the thread looks for the first, and two rounds. -/
def pipelineRun : List DjLoopEvent :=
  [.frame 2 (.replicate 8 0)] ++ List.replicate 3 (.thread true) ++ [.frame 0 (.replicate 8 1)] ++
    List.replicate 15 (.thread true)

theorem can_loop_runs_two :
    ∃ s log, runLog DjLoop.step (.start (List.replicate · 0) .zero) pipelineRun = some (s, log) ∧
      log.filterMap DjLoopObs.took? ++ s.queue = log.filterMap DjLoopObs.put? := by
  obtain ⟨s, log, hrun, -, hcomplete, -⟩ := can_loop_runs (List.replicate · 0) (by simp) .zero
    pipelineRun (by decide +kernel)
  exact ⟨s, log, hrun, hcomplete⟩

end Robot
