import ConstructionRobot.Dj.Driver
import ConstructionRobot.Lib.Trace

/-!
# Which motor gets which current (`motor_dj_rm_driver.c`)

A frame carries the currents of four motors: frame `0x200` those of the can ids `0x201` to
`0x204`, frame `0x1FF` those of `0x205` to `0x208`. `motor_dj_driver` takes the slot from the can
id of the motor, but the frame from `msg.id`, which is still `0`. So a call for a motor of the
second group writes the slot of a motor of the first.

* `DjState.drive_low`: a call sends frame `0x200` with the value in the slot of the motor.
* `routed_iff`: every frame of a run is as it should be exactly if the run is only about motors of
  the first group.
-/

namespace Robot

variable {m n : ℕ}

/-! ## What a frame should carry -/

/-- A call of `motor_dj_driver` for a torque. -/
structure TorqueCall (n : ℕ) where
  motor : Fin n
  value : Int16

/-- The can id of a motor. -/
def DjState.idOf (st : DjState m n) (i : Fin n) : ℕ := (st.djMotors (st.userData i)).canId.toNat

/-- The id of the frame with the current of can id `id`. -/
def frameId (id : ℕ) : ℕ := if id ≤ 0x204 then 0x200 else 0x1FF

/-- The slot of can id `id` in its frame. -/
def slotOf (id : ℕ) : Fin 4 := ⟨(id - 0x201) % 4, by omega⟩

/-- The can id whose current is in slot `s` of the frame of can id `id`. -/
def slotOwner (id : ℕ) (s : Fin 4) : ℕ := (if id ≤ 0x204 then 0x201 else 0x205) + s

/-- The current in a slot: 16 bits, high byte first. -/
def CanMsg.current (f : CanMsg) (s : Fin 4) : ℤ := sint 16 (f.word (2 * s)).toNat

/-- The last value commanded for can id `id`; 0 if there was none. -/
def DjState.commanded (st : DjState m n) (calls : List (TorqueCall n)) (id : ℕ) : ℤ :=
  ((calls.findRev? fun c => st.idOf c.motor = id).map fun c => c.value.toInt).getD 0

/-- The last current that the motor with can id `id` got from the bus; 0 before the first. -/
def received (bus : List CanMsg) (id : ℕ) : ℤ :=
  ((bus.findRev? fun f => f.id = frameId id).map fun f => f.current (slotOf id)).getD 0

/-- The frame `f` of the call `c` after the calls `calls`. -/
structure DjState.Routed (st : DjState m n) (calls : List (TorqueCall n)) (c : TorqueCall n)
    (f : CanMsg) : Prop where
  id : f.id = frameId (st.idOf c.motor)
  own : f.current (slotOf (st.idOf c.motor)) = c.value.toInt
  others : ∀ s, s ≠ slotOf (st.idOf c.motor) →
    f.current s = st.commanded calls (slotOwner (st.idOf c.motor) s)

/-! ## Runs -/

/-- One call, with a write that succeeds. -/
def DjState.drive (st : DjState m n) (c : TorqueCall n) : Call (DjState m n × Option CanMsg) :=
  motorDjDriver st c.motor .torque c.value.toInt true

/-- Calls one after the other, with the frames on the bus. -/
def DjState.driveRun (st : DjState m n) (bus : List CanMsg) :
    List (TorqueCall n) → Call (DjState m n × List CanMsg)
  | [] => pure (st, bus)
  | c :: calls => do
    let (st', msg) ← st.drive c
    st'.driveRun (bus ++ msg.toList) calls

/-- The call `c` after the calls `calls` sends the frame that it should, and no other motor gets
another current than before. -/
def DjState.RoutedAt (st : DjState m n) (calls : List (TorqueCall n)) (c : TorqueCall n) : Prop :=
  ∃ st₁ bus st₂ f, st.driveRun [] calls = .ret (st₁, bus) ∧ st₁.drive c = .ret (st₂, some f) ∧
    st.Routed calls c f ∧
    ∀ i, i ≠ c.motor → received (bus ++ [f]) (st.idOf i) = received bus (st.idOf i)

/-- Motors with different can ids on CAN1, all calibrated; no current was sent. -/
structure DjState.Calibrated (st : DjState m n) : Prop where
  range : ∀ k, 0x201 ≤ (st.djMotors k).canId.toNat ∧ (st.djMotors k).canId.toNat ≤ 0x208
  distinct : Function.Injective fun k => (st.djMotors k).canId
  owner : Function.Injective st.userData
  ready : ∀ k, (st.djMotors k).msgCnt = 0xff
  low : ∀ s, st.iq1Low s = 0
  high : ∀ s, st.iq1High s = 0

section Lemmas

variable {st : DjState m n} {calls : List (TorqueCall n)} {c : TorqueCall n}

theorem commanded_concat (id : ℕ) : st.commanded (calls ++ [c]) id =
    if st.idOf c.motor = id then c.value.toInt else st.commanded calls id := by
  rw [DjState.commanded, findRev?_concat]
  by_cases h : st.idOf c.motor = id
  · rw [if_pos (decide_eq_true h), if_pos h, Option.map_some, Option.getD_some]
  · rw [if_neg (by simpa using h), if_neg h]
    rfl

theorem commanded_own :
    st.commanded (calls ++ [c]) (st.idOf c.motor) = c.value.toInt := by
  rw [commanded_concat, if_pos rfl]

theorem commanded_other {id : ℕ} (h : id ≠ st.idOf c.motor) :
    st.commanded (calls ++ [c]) id = st.commanded calls id := by
  rw [commanded_concat, if_neg h.symm]

theorem received_concat (bus : List CanMsg) (f : CanMsg) (id : ℕ) : received (bus ++ [f]) id =
    if f.id = frameId id then f.current (slotOf id) else received bus id := by
  rw [received, findRev?_concat]
  by_cases h : f.id = frameId id
  · rw [if_pos (decide_eq_true h), if_pos h, Option.map_some, Option.getD_some]
  · rw [if_neg (by simpa using h), if_neg h]
    rfl

/-- A commanded value has 16 bits. -/
theorem commanded_range (st : DjState m n) (calls : List (TorqueCall n)) (id : ℕ) :
    -2 ^ 15 ≤ st.commanded calls id ∧ st.commanded calls id < 2 ^ 15 := by
  unfold DjState.commanded
  cases calls.findRev? _ with
  | none => simp
  | some c => exact ⟨c.value.le_toInt, c.value.toInt_lt⟩

/-- What is packed can be read. -/
theorem packIq_current (iq : Fin 4 → ℤ) (s : Fin 4) (h1 : -2 ^ 15 ≤ iq s) (h2 : iq s < 2 ^ 15)
    (id : ℕ) : CanMsg.current { id := id, data := packIq iq } s = iq s := by
  have hs : (⟨2 * s.val / 2, by omega⟩ : Fin 4) = s := by ext; simp
  have hs' : (⟨(2 * s.val + 1) / 2, by omega⟩ : Fin 4) = s := by ext; simp; omega
  have hw : ((CanMsg.word { id := id, data := packIq iq } (2 * s)).toNat : ℤ) =
      iq s % 65536 := by
    simp only [CanMsg.word, packIq, Vector.getElem_ofFn, byteOf]
    rw [if_pos (by omega), if_neg (by omega), hs, hs', UInt8.toNat_ofNat', UInt8.toNat_ofNat',
      UInt16.toNat_ofNat']
    omega
  unfold CanMsg.current
  rw [hw, sint, show (65536 : ℤ) = ((2 ^ 16 : ℕ) : ℤ) by rfl, Int.emod_bmod]
  exact sint_eq_self (by decide) h1 h2

/-- The slot that the driver computes is that of the can id. -/
theorem canSlot_toNat {canId : UInt16} (h : 0x201 ≤ canId.toNat) :
    (canSlot canId).toNat = (slotOf canId.toNat).val := by
  have h4 : ((canId.toNat : ℤ) - canMotor1Id).tmod 4 = ((canId.toNat - 0x201) % 4 : ℕ) := by
    rw [Int.tmod_eq_emod_of_nonneg (by unfold canMotor1Id; omega)]
    unfold canMotor1Id
    omega
  simp only [canSlot, slotOf, h4, UInt16.toNat_ofNat']
  omega

/-- A call sends frame `0x200`, with the value in the slot of the motor. -/
theorem DjState.drive_low (st : DjState m n) (c : TorqueCall n)
    (hready : ∀ k, (st.djMotors k).msgCnt = 0xff) (hid : 0x201 ≤ st.idOf c.motor) :
    st.drive c = .ret
      ({ st with iq1Low := Function.update st.iq1Low (slotOf (st.idOf c.motor)) c.value.toInt },
        some { id := 0x200, data :=
          packIq (Function.update st.iq1Low (slotOf (st.idOf c.motor)) c.value.toInt) }) := by
  have hi : motorDeref (n := n) c.motor = .ret c.motor := by
    unfold motorDeref motorGet
    rw [if_neg (by omega), dif_pos (by omega)]
    rfl
  have hvalue : int16OfFloat (c.value.toInt : ℚ) = c.value.toInt := by
    unfold int16OfFloat trunc
    rw [Rat.num_intCast, Rat.den_intCast, Nat.cast_one, Int.tdiv_one]
    exact sint_eq_self (by decide) c.value.le_toInt c.value.toInt_lt
  have hgroup : groupReady st.djMotors 0x201 0x204 = true :=
    decide_eq_true fun k _ => hready k
  have hslot := canSlot_toNat hid
  have hset : setSlot st.iq1Low (canSlot (st.djMotors (st.userData c.motor)).canId)
      c.value.toInt = .ret (Function.update st.iq1Low (slotOf (st.idOf c.motor)) c.value.toInt) := by
    have hlt : (canSlot (st.djMotors (st.userData c.motor)).canId).toNat < 4 := by
      rw [hslot]
      exact (slotOf _).isLt
    rw [setSlot, dif_pos hlt, show (⟨_, hlt⟩ : Fin 4) = slotOf (st.idOf c.motor) from Fin.ext hslot]
  unfold DjState.drive motorDjDriver
  rw [hi]
  simp only [Call.ret_bind, hvalue, driveLow, hgroup, hset]
  rfl

end Lemmas

/-! ## The run -/

/-- The tables of the motors are those of `st₀`. -/
structure DjState.SameMotors (st₀ st : DjState m n) : Prop where
  motors : st.djMotors = st₀.djMotors
  userData : st.userData = st₀.userData

/-- What holds after the calls, if they were for motors of the first group: the slots and the
motors have the values commanded last. -/
structure DjState.Driven (st₀ : DjState m n) (calls : List (TorqueCall n)) (st : DjState m n)
    (bus : List CanMsg) : Prop extends st₀.SameMotors st where
  low : ∀ s : Fin 4, st.iq1Low s = st₀.commanded calls (0x201 + s)
  seen : ∀ i, st₀.idOf i ≤ 0x204 → received bus (st₀.idOf i) = st₀.commanded calls (st₀.idOf i)

section Run

variable {st₀ st : DjState m n} {calls : List (TorqueCall n)} {c : TorqueCall n}
  {bus : List CanMsg}

theorem DjState.SameMotors.idOf (h : st₀.SameMotors st) (i : Fin n) : st.idOf i = st₀.idOf i := by
  rw [DjState.idOf, DjState.idOf, h.motors, h.userData]

/-- Different motors have different can ids. -/
theorem DjState.Calibrated.idOf_ne (hc : st₀.Calibrated) {i j : Fin n} (h : i ≠ j) :
    st₀.idOf i ≠ st₀.idOf j :=
  fun hid => h (hc.owner (hc.distinct (UInt16.toNat_inj.mp hid)))

/-- Any call sends a frame `0x200` and changes one slot of it. -/
theorem DjState.Calibrated.drive (hc : st₀.Calibrated) (h : st₀.SameMotors st)
    (c : TorqueCall n) :
    st.drive c = .ret
      ({ st with iq1Low := Function.update st.iq1Low (slotOf (st₀.idOf c.motor)) c.value.toInt },
        some { id := 0x200, data :=
          packIq (Function.update st.iq1Low (slotOf (st₀.idOf c.motor)) c.value.toInt) }) := by
  rw [← h.idOf]
  refine st.drive_low c (fun k => ?_) ?_
  · rw [h.motors]
    exact hc.ready k
  · rw [h.idOf]
    exact (hc.range _).1

theorem DjState.Calibrated.driveRun_sameMotors (hc : st₀.Calibrated) (h : st₀.SameMotors st)
    {st' : DjState m n} {bus' : List CanMsg} (hrun : st.driveRun bus calls = .ret (st', bus')) :
    st₀.SameMotors st' := by
  induction calls generalizing st bus with
  | nil =>
    obtain ⟨rfl, -⟩ := Prod.mk.inj (Call.ret.inj hrun)
    exact h
  | cons c calls ih =>
    rw [DjState.driveRun, hc.drive h c, Call.ret_bind] at hrun
    refine ih ?_ hrun
    exact ⟨h.motors, h.userData⟩

/-- The first group has the frame `0x200`. -/
theorem frameId_eq_low {id : ℕ} : frameId id = 0x200 ↔ id ≤ 0x204 := by
  simp [frameId]

/-- In the first group the slot is the distance to the first id. -/
theorem DjState.Calibrated.slotOf_idOf (hc : st₀.Calibrated) {i : Fin n}
    (hlow : st₀.idOf i ≤ 0x204) : 0x201 + (slotOf (st₀.idOf i)).val = st₀.idOf i := by
  have hge : 0x201 ≤ st₀.idOf i := (hc.range _).1
  simp only [slotOf]
  omega

/-- The other slots belong to other ids. -/
theorem DjState.Calibrated.slot_ne (hc : st₀.Calibrated) {i : Fin n}
    (hlow : st₀.idOf i ≤ 0x204) {s : Fin 4} (hs : s ≠ slotOf (st₀.idOf i)) :
    0x201 + s.val ≠ st₀.idOf i := by
  intro hid
  rw [← hc.slotOf_idOf hlow] at hid
  exact hs (Fin.ext (by omega))

/-- The slots after a call for a motor of the first group are the values commanded after it. -/
theorem DjState.Driven.low_concat (h : st₀.Driven calls st bus) (hc : st₀.Calibrated)
    (hlow : st₀.idOf c.motor ≤ 0x204) (s : Fin 4) :
    Function.update st.iq1Low (slotOf (st₀.idOf c.motor)) c.value.toInt s =
      st₀.commanded (calls ++ [c]) (0x201 + s) := by
  by_cases hs : s = slotOf (st₀.idOf c.motor)
  · rw [hs, Function.update_self, hc.slotOf_idOf hlow, commanded_own]
  · rw [Function.update_of_ne hs, h.low s, commanded_other (hc.slot_ne hlow hs)]

/-- One call for a motor of the first group. -/
theorem DjState.Driven.drive (h : st₀.Driven calls st bus) (hc : st₀.Calibrated)
    (hlow : st₀.idOf c.motor ≤ 0x204) :
    ∃ st₂ f, st.drive c = .ret (st₂, some f) ∧ st₀.Routed calls c f ∧
      (∀ i, i ≠ c.motor → received (bus ++ [f]) (st₀.idOf i) = received bus (st₀.idOf i)) ∧
      st₀.Driven (calls ++ [c]) st₂ (bus ++ [f]) := by
  let iq := Function.update st.iq1Low (slotOf (st₀.idOf c.motor)) c.value.toInt
  have hiq : ∀ s : Fin 4, iq s = st₀.commanded (calls ++ [c]) (0x201 + s) :=
    h.low_concat hc hlow
  -- the frame has the commanded values in all its slots
  have hcur : ∀ s, CanMsg.current { id := 0x200, data := packIq iq } s =
      st₀.commanded (calls ++ [c]) (0x201 + s) := by
    intro s
    have hr := commanded_range st₀ (calls ++ [c]) (0x201 + s)
    rw [← hiq] at hr ⊢
    exact packIq_current iq s hr.1 hr.2 _
  have hseen : ∀ {i}, st₀.idOf i ≤ 0x204 →
      received (bus ++ [{ id := 0x200, data := packIq iq }]) (st₀.idOf i) =
        st₀.commanded (calls ++ [c]) (st₀.idOf i) := by
    intro i hi
    rw [received_concat, if_pos (frameId_eq_low.mpr hi).symm, hcur, hc.slotOf_idOf hi]
  refine ⟨_, _, hc.drive h.toSameMotors c, ⟨(frameId_eq_low.mpr hlow).symm, ?_, ?_⟩, ?_, ?_⟩
  · rw [hcur, hc.slotOf_idOf hlow, commanded_own]
  · intro s hs
    rw [hcur, commanded_other (hc.slot_ne hlow hs), slotOwner, if_pos hlow]
  · intro i hi
    by_cases hi' : st₀.idOf i ≤ 0x204
    · rw [hseen hi', commanded_other (hc.idOf_ne hi), h.seen i hi']
    · rw [received_concat, if_neg fun hid => hi' (frameId_eq_low.mp hid.symm)]
  · exact ⟨⟨h.motors, h.userData⟩, hiq, fun i hi => hseen hi⟩

theorem DjState.Driven.driveRun {done : List (TorqueCall n)} (h : st₀.Driven done st bus)
    (hc : st₀.Calibrated) (hlow : ∀ c ∈ calls, st₀.idOf c.motor ≤ 0x204) :
    ∃ st' bus', st.driveRun bus calls = .ret (st', bus') ∧
      st₀.Driven (done ++ calls) st' bus' := by
  induction calls generalizing st bus done with
  | nil => exact ⟨st, bus, rfl, by rwa [List.append_nil]⟩
  | cons c calls ih =>
    obtain ⟨st₂, f, hdrive, -, -, h₂⟩ := h.drive hc (hlow c List.mem_cons_self)
    obtain ⟨st', bus', hrun, h'⟩ := ih h₂ fun c hc => hlow c (List.mem_cons_of_mem _ hc)
    refine ⟨st', bus', ?_, by rwa [List.append_assoc] at h'⟩
    rw [DjState.driveRun, hdrive]
    exact hrun

theorem DjState.Calibrated.driven (hc : st₀.Calibrated) : st₀.Driven [] st₀ [] :=
  ⟨⟨rfl, rfl⟩, fun s => hc.low s, fun _ _ => rfl⟩

end Run

/-- For every configuration and every sequence of calls: each call sends its value in the slot of
its motor in the frame of its motor, next to the values commanded last for the others, exactly if
every call is for a motor of the first group. -/
theorem routed_iff (st : DjState m n) (hc : st.Calibrated) (calls : List (TorqueCall n)) :
    Guarded st.RoutedAt calls ↔ ∀ c ∈ calls, st.idOf c.motor ≤ 0x204 := by
  constructor
  · intro h c hmem
    obtain ⟨pre, post, hsplit⟩ := List.append_of_mem hmem
    obtain ⟨st₁, bus, st₂, f, hrun, hdrive, hrouted, -⟩ := h pre c post hsplit
    -- whatever the state, the frame of the call is `0x200`
    rw [hc.drive (hc.driveRun_sameMotors ⟨rfl, rfl⟩ hrun) c] at hdrive
    obtain ⟨-, hf⟩ := Prod.mk.inj (Call.ret.inj hdrive)
    have hid := hrouted.id
    rw [← Option.some.inj hf] at hid
    by_contra hgt
    rw [frameId, if_neg hgt] at hid
    exact absurd hid (show ¬(0x200 = 0x1FF) by decide)
  · intro h pre c post hsplit
    subst hsplit
    have hpre : ∀ c ∈ pre, st.idOf c.motor ≤ 0x204 := fun c hc => h c (List.mem_append_left _ hc)
    obtain ⟨st₁, bus, hrun, hdriven⟩ := hc.driven.driveRun hc hpre
    obtain ⟨st₂, f, hdrive, hrouted, hiso, -⟩ := hdriven.drive (c := c) hc
      (h c (by simp))
    exact ⟨st₁, bus, st₂, f, hrun, hdrive, hrouted, hiso⟩

/-- Two motors, with the can ids `0x201` and `0x205`. -/
def twoMotors : DjState 2 2 where
  djMotors k :=
    { id := UInt8.ofNat k, canId := if k = 0 then 0x201 else 0x205, angle := 0, msgCnt := 0xff
      lastAngle := 0, offsetAngle := 0, roundCnt := 0, totalAngle := 0 }
  motorList := fun _ => .zero
  userData := id
  iq1Low _ := 0
  iq1High _ := 0
  djMRingfifo := []

theorem twoMotors_calibrated : twoMotors.Calibrated := by
  refine ⟨by decide, ?_, fun _ _ h => h, fun _ => rfl, fun _ => rfl, fun _ => rfl⟩
  intro k j
  revert k j
  decide

theorem routed_iff_twoMotors :
    Guarded twoMotors.RoutedAt [⟨0, 100⟩, ⟨0, -5⟩] ∧ ¬Guarded twoMotors.RoutedAt [⟨0, 100⟩, ⟨1, 7⟩] :=
  ⟨(routed_iff twoMotors twoMotors_calibrated _).mpr (by decide),
    fun h => absurd ((routed_iff twoMotors twoMotors_calibrated _).mp h) (by decide)⟩

/-- The first motor is told 100, the second 7: the frame of the second call has the id `0x200` and
tells the first motor 7. -/
theorem second_group_collides :
    twoMotors.Calibrated ∧ ¬Guarded twoMotors.RoutedAt [⟨0, 100⟩, ⟨1, 7⟩] ∧
    ∃ st₁ bus st₂ f, twoMotors.driveRun [] [⟨0, 100⟩] = .ret (st₁, bus) ∧
      st₁.drive ⟨1, 7⟩ = .ret (st₂, some f) ∧ f.id = 0x200 ∧
      received bus 0x201 = 100 ∧ received (bus ++ [f]) 0x201 = 7 := by
  refine ⟨twoMotors_calibrated, ?_, _, _, _, _, rfl, rfl, rfl, by decide, by decide⟩
  intro h
  obtain ⟨st₁, bus, st₂, f, hrun, hdrive, hrouted, -⟩ := h [⟨0, 100⟩] ⟨1, 7⟩ [] rfl
  obtain ⟨rfl, rfl⟩ := Prod.mk.inj (Call.ret.inj hrun)
  obtain ⟨rfl, hf⟩ := Prod.mk.inj (Call.ret.inj hdrive)
  obtain rfl := Option.some.inj hf
  exact absurd hrouted.id (by decide)

end Robot
