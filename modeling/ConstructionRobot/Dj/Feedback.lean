import ConstructionRobot.Dj.Lookup

/-!
# What a feedback frame touches (`ind_dj_can_motor_callback`)

A configuration is the table of can ids and motor ids that `dj_motors` is initialised with. No
function of the driver changes them, so they are the same in every state that is reached.

* `DjConfig`, `DjConfig.Reach`: configurations, and the states of the driver.
* `Reach.configured`: what a configuration says holds in every state.
* `indDjCanMotorCallback_eq`: the callback for a frame of a configured motor.
* `feedback_touches_iff`: a frame touches what belongs to its motor, exactly if there is such a
  motor; else the callback follows the pointer of a failed search.
-/

namespace Robot

variable {m n : ℕ}

/-- What `dj_motors` and the `user_data` of the motors are initialised with. -/
structure DjConfig (m n : ℕ) where
  canId : Fin m → UInt16
  motor : Fin m → Fin n
  userData : Fin n → Fin m
  increasing : ∀ i j, i < j → canId i < canId j
  nonempty : 1 ≤ m
  entries : m ≤ 255
  motors : n ≤ 256

namespace DjConfig

/-- The driver before the first event. -/
def start (cfg : DjConfig m n) (ml : MotorList n) : DjState m n where
  djMotors k := ⟨UInt8.ofNat (cfg.motor k), cfg.canId k, 0, 0, 0, 0, 0, 0⟩
  motorList := ml
  userData := cfg.userData
  iq1Low _ := 0
  iq1High _ := 0
  djMRingfifo := []

/-- The states of the driver. The motor layer changes `motor_list` in its own ways, and the thread
takes bytes out of `dj_m_ringfifo`. -/
inductive Reach (cfg : DjConfig m n) : DjState m n → Prop where
  | start (ml : MotorList n) : Reach cfg (cfg.start ml)
  | frame {st st' : DjState m n} (h : Reach cfg st) (rxmsg : CanMsg)
      (hr : indDjCanMotorCallback st rxmsg = .ret st') : Reach cfg st'
  | driver {st st' : DjState m n} (h : Reach cfg st) (id : ℤ) (mode : RunMode) (value : ℚ)
      (writeOk : Bool) {msg : Option CanMsg}
      (hr : motorDjDriver st id mode value writeOk = .ret (st', msg)) : Reach cfg st'
  | backToZero {st : DjState m n} (h : Reach cfg st) (k : Fin m) : Reach cfg { st with
      djMotors := Function.update st.djMotors k (djMotorBackToZero (st.djMotors k)) }
  | motorLayer {st : DjState m n} (h : Reach cfg st) (ml : MotorList n) :
      Reach cfg { st with motorList := ml }
  | getchar {st : DjState m n} (h : Reach cfg st) :
      Reach cfg { st with djMRingfifo := st.djMRingfifo.tail }

/-- The entries have the ids of the configuration. -/
structure Configured (cfg : DjConfig m n) (dj : Fin m → MotorMeasure) : Prop where
  canId : ∀ k, (dj k).canId = cfg.canId k
  motor : ∀ k, (dj k).id.toNat = (cfg.motor k).val

end DjConfig

/-! ## The ids stay -/

/-- What a call of `motor_dj_driver` can do to the entries. -/
theorem motorDjDriver_entries {st st' : DjState m n} {id : ℤ} {mode : RunMode} {value : ℚ}
    {writeOk : Bool} {msg : Option CanMsg}
    (h : motorDjDriver st id mode value writeOk = .ret (st', msg)) :
    st'.djMotors = st.djMotors ∨
      st'.djMotors = fun k => { st.djMotors k with msgCnt := 50 } := by
  unfold motorDjDriver at h
  obtain ⟨i, -, h⟩ := Call.bind_eq_ret.mp h
  cases mode with
  | torque =>
    have hhigh : ¬ (0 : ℤ) - canMotor1Id > 8 := by decide
    have hlow : ¬ (0 : ℤ) - canMotor1Id > 4 := by decide
    simp only [if_neg hhigh, if_neg hlow, driveLow] at h
    split at h
    · obtain ⟨iq, -, h⟩ := Call.bind_eq_ret.mp h
      split at h
      · exact .inl (by rw [← (Prod.mk.inj (Call.ret.inj h)).1])
      · exact .inr (by rw [← (Prod.mk.inj (Call.ret.inj h)).1])
    · exact .inl (by rw [← (Prod.mk.inj (Call.ret.inj h)).1])
  | idel => exact .inl (by rw [← (Prod.mk.inj (Call.ret.inj h)).1])
  | speed => exact .inl (by rw [← (Prod.mk.inj (Call.ret.inj h)).1])
  | pos => exact .inl (by rw [← (Prod.mk.inj (Call.ret.inj h)).1])

/-- The callback returns only for a frame of an entry of the table. -/
theorem indDjCanMotorCallback_ret {st st' : DjState m n} {rxmsg : CanMsg}
    (h : indDjCanMotorCallback st rxmsg = .ret st') :
    ∃ k, motorGetByCanid st.djMotors (UInt16.ofNat rxmsg.id) = .ret (some k) ∧
      st'.djMotors =
        Function.update st.djMotors k ((st.djMotors k).receive rxmsg.angle) := by
  have hrun := h
  unfold indDjCanMotorCallback at h
  obtain ⟨found, hfound, h⟩ := Call.bind_eq_ret.mp h
  cases found with
  | none => simp at h
  | some k =>
    obtain ⟨ml, fifo, hr⟩ := indDjCanMotorCallback_found rxmsg hfound
    rw [hr] at hrun
    exact ⟨k, hfound, by rw [← Call.ret.inj hrun]⟩

namespace DjConfig

variable {cfg : DjConfig m n}

/-- A change of one entry that keeps its ids. -/
theorem Configured.update {dj : Fin m → MotorMeasure} (h : cfg.Configured dj) {k : Fin m}
    {mm : MotorMeasure} (hc : mm.canId = (dj k).canId) (hid : mm.id = (dj k).id) :
    cfg.Configured (Function.update dj k mm) := by
  refine ⟨fun j => ?_, fun j => ?_⟩
  · rw [update_canId hc, h.canId]
  · by_cases hj : j = k
    · subst hj
      rw [Function.update_self, hid, h.motor]
    · rw [Function.update_of_ne hj, h.motor]

theorem Reach.configured {st : DjState m n} (h : cfg.Reach st) : cfg.Configured st.djMotors := by
  induction h with
  | start ml =>
    refine ⟨fun k => rfl, fun k => ?_⟩
    have hk := (cfg.motor k).isLt
    have hn := cfg.motors
    show (UInt8.ofNat (cfg.motor k).val).toNat = _
    rw [UInt8.toNat_ofNat']
    omega
  | frame h rxmsg hr ih =>
    obtain ⟨k, -, hd⟩ := indDjCanMotorCallback_ret hr
    rw [hd]
    exact ih.update (MotorMeasure.receive_canId _ _) (MotorMeasure.receive_id _ _)
  | driver h id mode value writeOk hr ih =>
    rcases motorDjDriver_entries hr with hd | hd
    · rwa [hd]
    · rw [hd]
      exact ⟨ih.canId, ih.motor⟩
  | backToZero h k ih => exact ih.update rfl rfl
  | motorLayer h ml ih => exact ih
  | getchar h ih => exact ih

/-- The lookup of a can id in a configured table. -/
theorem Configured.lookup {dj : Fin m → MotorMeasure} (h : cfg.Configured dj) (k : Fin m) :
    motorGetByCanid dj (cfg.canId k) = .ret (some k) := by
  have hinc : ∀ i j, i < j → (dj i).canId < (dj j).canId := by
    intro i j hij
    rw [h.canId, h.canId]
    exact cfg.increasing i j hij
  have hle : (dj ⟨0, cfg.nonempty⟩).canId ≤ cfg.canId k := by
    rw [← h.canId k]
    exact ids_le hinc (Fin.mk_le_mk.mpr (Nat.zero_le k.val))
  obtain ⟨r, hr, hfound⟩ := motorGetByCanid_ret cfg.nonempty cfg.entries hinc hle
  rw [hr, (hfound k).mpr (h.canId k)]

end DjConfig

/-! ## One frame -/

/-- A feedback call for a motor of the table. -/
theorem motorFeedback_val (ml : MotorList n) (i : Fin n) (f : Motor → Motor) :
    motorFeedback ml i.val f = .ret (ml.modify i f) := by
  have hi : motorIndex (n := n) i.val = .ret (some i) := by
    unfold motorIndex motorGet
    rw [if_neg (by omega), dif_pos (by omega)]
    rfl
  rw [motorFeedback, hi]
  rfl

/-- The feedback values of a frame; `mm` is the entry of the motor after the frame. -/
def Motor.feedBack (motor : Motor) (rxmsg : CanMsg) (mm : MotorMeasure) : Motor :=
  { motor with
    curSpeed := sint 16 rxmsg.speed.toNat / 36
    curTorque := sint 16 rxmsg.torque.toNat
    curPos := mm.totalAngle * kk }

/-- The callback for a frame of the entry `k`, which belongs to motor `i`. -/
theorem indDjCanMotorCallback_eq {st : DjState m n} {rxmsg : CanMsg} {k : Fin m} {i : Fin n}
    (hk : motorGetByCanid st.djMotors (UInt16.ofNat rxmsg.id) = .ret (some k))
    (hi : (st.djMotors k).id.toNat = i.val) :
    indDjCanMotorCallback st rxmsg =
      let mm := (st.djMotors k).receive rxmsg.angle
      .ret { st with
        djMotors := Function.update st.djMotors k mm
        motorList := st.motorList.modify i fun motor => motor.feedBack rxmsg mm
        djMRingfifo := putcharForce st.djMRingfifo mm.id } := by
  unfold indDjCanMotorCallback motorFeedbackSpeed motorFeedbackTorque motorFeedbackPos
  simp only [hk, Call.ret_bind, MotorMeasure.receive_id, hi, motorFeedback_val, Call.pure_eq]
  simp only [MotorList.modify, Function.update_self, Function.update_idem]
  rfl

/-- What a frame may change: of `dj_motors` the entry with its id, of `motor_list` the feedback
values of the motor of that entry. Else it puts a byte into `dj_m_ringfifo`. -/
def DjState.TouchesOwn (st : DjState m n) (rxmsg : CanMsg) : Prop :=
  ∃ st', indDjCanMotorCallback st rxmsg = .ret st' ∧
    (∀ k, (st.djMotors k).canId.toNat ≠ rxmsg.id → st'.djMotors k = st.djMotors k) ∧
    (∀ i : Fin n, (∀ k, (st.djMotors k).canId.toNat = rxmsg.id →
      (st.djMotors k).id.toNat ≠ i.val) → st'.motorList i = st.motorList i) ∧
    (∀ k, ∀ i : Fin n, (st.djMotors k).canId.toNat = rxmsg.id →
      (st.djMotors k).id.toNat = i.val → st'.motorList i =
        { st.motorList i with
          curSpeed := sint 16 rxmsg.speed.toNat / 36
          curTorque := sint 16 rxmsg.torque.toNat
          curPos := (st'.djMotors k).totalAngle * kk }) ∧
    st'.userData = st.userData ∧ st'.iq1Low = st.iq1Low ∧ st'.iq1High = st.iq1High

/-- In every state of the driver, for every configuration and every frame that the filter lets
through: `ind_dj_can_motor_callback` touches only what belongs to the motor of the frame, and
nothing if there is no such motor, exactly if there is such a motor. -/
theorem feedback_touches_iff (cfg : DjConfig m n) {st : DjState m n} (h : cfg.Reach st)
    (rxmsg : CanMsg) (hid : 0x200 ≤ rxmsg.id ∧ rxmsg.id ≤ 0x20F) :
    st.TouchesOwn rxmsg ↔ ∃ k, (cfg.canId k).toNat = rxmsg.id := by
  have hconf := h.configured
  have hword : (UInt16.ofNat rxmsg.id).toNat = rxmsg.id := by
    rw [UInt16.toNat_ofNat']
    omega
  constructor
  · rintro ⟨st', hr, -⟩
    obtain ⟨k, hk, -⟩ := indDjCanMotorCallback_ret hr
    refine ⟨k, ?_⟩
    rw [← hconf.canId, searchCanid_some hk, hword]
  · rintro ⟨k, hk⟩
    have hcan : UInt16.ofNat rxmsg.id = cfg.canId k := UInt16.toNat_inj.mp (hword.trans hk.symm)
    have hfound := hconf.lookup k
    rw [← hcan] at hfound
    have hown (j : Fin m) : (st.djMotors j).canId.toNat = rxmsg.id ↔ j = k := by
      rw [hconf.canId, ← hk, UInt16.toNat_inj]
      exact ⟨fun hj => ids_inj cfg.increasing hj, fun hj => by rw [hj]⟩
    refine ⟨_, indDjCanMotorCallback_eq hfound (hconf.motor k), fun j hj => ?_, fun i hi => ?_,
      fun j i hj hi => ?_, rfl, rfl, rfl⟩
    · exact Function.update_of_ne (fun hjk => hj ((hown j).mpr hjk)) _ _
    · have hne : i ≠ cfg.motor k := by
        rintro rfl
        exact hi k ((hown k).mpr rfl) (hconf.motor k)
      simp only [MotorList.modify_ne st.motorList _ hne]
    · obtain rfl := (hown j).mp hj
      obtain rfl : cfg.motor j = i := Fin.ext ((hconf.motor j).symm.trans hi)
      simp only [MotorList.modify_same, Function.update_self, Motor.feedBack]

/-- The shipped configuration: four motors, with the ids `0x201` to `0x204`. -/
def shippedConfig : DjConfig 4 4 where
  canId k := (shippedMotors k).canId
  motor k := k
  userData i := i
  increasing := by decide
  nonempty := by decide
  entries := by decide
  motors := by decide

/-- A frame of the motor with the id `0x203`, at the start. -/
theorem feedback_touches_iff_start :
    ((shippedConfig.start fun _ => Motor.zero).TouchesOwn ⟨0x203, .replicate 8 7⟩ ↔
      ∃ k, (shippedConfig.canId k).toNat = 0x203) :=
  feedback_touches_iff shippedConfig (.start _) _ (by decide)

/-- A frame of another device, with the id `0x205`: the search returns `NULL`, and the callback
reads `msg_cnt` of it. -/
theorem feedback_unconfigured :
    shippedConfig.Reach (shippedConfig.start fun _ => Motor.zero) ∧
      indDjCanMotorCallback (shippedConfig.start fun _ => Motor.zero) ⟨0x205, .replicate 8 7⟩ =
        .fault ∧
      ¬ (shippedConfig.start fun _ => Motor.zero).TouchesOwn ⟨0x205, .replicate 8 7⟩ := by
  have hfault : indDjCanMotorCallback (shippedConfig.start fun _ => Motor.zero)
      ⟨0x205, .replicate 8 7⟩ = .fault := by
    have hnull : motorGetByCanid (shippedConfig.start fun _ => Motor.zero).djMotors
        (UInt16.ofNat 0x205) = .ret none := by
      decide
    rw [indDjCanMotorCallback, hnull, Call.ret_bind]
  refine ⟨.start _, hfault, ?_⟩
  rintro ⟨st', hr, -⟩
  rw [hfault] at hr
  simp at hr

end Robot
