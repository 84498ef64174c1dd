import ConstructionRobot.Dj.Driver
import ConstructionRobot.Lib.Trace

/-!
# The current interlock

Runs of the shipped configuration: feedback frames of the four motors and calls of
`motor_dj_driver` in torque mode, in any order and with any results of `rt_device_write`. The
history of a run has an entry for each frame received and for each current frame written.

* `djStep_ret`: one event returns; what it does to `dj_motors`, and what is observed.
* `Counted`: the one counter `msg_cnt` of a motor says how many frames there were, and if one came
  after the last failed write. `djStep_counted` and `djRun_counted` keep it.
* `interlock_holds`: no current frame without 51 feedback frames of each motor, and one of each
  motor after every failed write.
-/

namespace Robot

/-- An event of the shipped configuration. -/
inductive DjEvent where
  /-- `ind_dj_can_motor_callback` with a frame of motor `k`. -/
  | feedback (k : Fin 4) (data : Vector UInt8 8)
  /-- `motor_dj_driver` for motor `i`, with the result of `rt_device_write` if it writes. -/
  | driver (i : Fin 4) (value : ℚ) (writeOk : Bool)

/-- What an event shows on the bus. -/
inductive DjObs where
  | feedback (k : Fin 4)
  | wrote (ok : Bool)
  | quiet
  deriving DecidableEq, Repr

def DjState.djStep (st : DjState 4 4) : DjEvent → Call (DjState 4 4 × DjObs)
  | .feedback k data => do
    let st ← indDjCanMotorCallback st { id := canMotor1Id + k, data := data }
    pure (st, .feedback k)
  | .driver i value writeOk => do
    let (st, msg) ← motorDjDriver st i .torque value writeOk
    pure (st, if msg.isSome then .wrote writeOk else .quiet)

/-- The events one after the other, and the history. -/
def DjState.djRun (st : DjState 4 4) : List DjEvent → Call (DjState 4 4 × List DjObs)
  | [] => .ret (st, [])
  | e :: es => do
    let (st, o) ← st.djStep e
    let (st, log) ← st.djRun es
    pure (st, o :: log)

/-- A current frame may be written: 51 feedback frames of every motor, one of them after each
failed write. -/
def MayWrite (log : List DjObs) (k : Fin 4) : Prop :=
  51 ≤ log.count (.feedback k) ∧
    ∀ a b, log = a ++ .wrote false :: b → 1 ≤ b.count (.feedback k)

/-- Every current frame of the history was allowed. -/
def Interlocked : List DjObs → Prop :=
  Guarded fun log o => ∀ ok, o = .wrote ok → ∀ k, MayWrite log k

/-! ## One event -/

/-- In torque mode the slot of a shipped motor is its number. -/
theorem canSlot_shipped (k : Fin 4) : (canSlot (UInt16.ofNat (canMotor1Id + k))).toNat < 4 := by
  revert k
  decide

/-- The four motors are all in the group of the ids `0x201` to `0x204`. -/
theorem DjState.Shipped.groupReady_iff {st : DjState 4 4} (hs : st.Shipped) :
    groupReady st.djMotors 0x201 0x204 = true ↔ ∀ k, (st.djMotors k).msgCnt = 0xff := by
  have hg (k : Fin 4) : (0x201 : UInt16) ≤ (st.djMotors k).canId ∧
      (st.djMotors k).canId ≤ 0x204 := by
    rw [hs.canId]
    revert k
    decide
  unfold groupReady
  rw [decide_eq_true_iff]
  exact ⟨fun h k => h k (hg k), fun h k _ => h k⟩

/-- A call of `motor_dj_driver` in torque mode: no frame before every motor is ready; a written
frame leaves the entries alone, a failed one takes every counter back to 50. -/
theorem motorDjDriver_torque {st : DjState 4 4} (hs : st.Shipped) (i : Fin 4) (value : ℚ)
    (writeOk : Bool) :
    ∃ st' msg, motorDjDriver st i .torque value writeOk = .ret (st', msg) ∧
      st'.userData = st.userData ∧
      ((msg = none ∧ st'.djMotors = st.djMotors) ∨
        (msg.isSome ∧ (∀ k, (st.djMotors k).msgCnt = 0xff) ∧
          st'.djMotors = if writeOk then st.djMotors
            else fun k => { st.djMotors k with msgCnt := 50 })) := by
  have hi : motorDeref (n := 4) i = .ret i := by
    unfold motorDeref motorGet
    rw [if_neg (by omega), dif_pos (by omega)]
    rfl
  have hslot := canSlot_shipped (st.userData i)
  rw [← hs.canId] at hslot
  have hlow : motorDjDriver st i .torque value writeOk =
      driveLow st (canSlot (st.djMotors (st.userData i)).canId) (int16OfFloat value) writeOk := by
    unfold motorDjDriver
    rw [hi]
    rfl
  rw [hlow, driveLow, setSlot, dif_pos hslot]
  by_cases hr : groupReady st.djMotors 0x201 0x204 = true
  · rw [if_pos hr]
    have hall := hs.groupReady_iff.mp hr
    cases writeOk with
    | true => exact ⟨_, _, rfl, rfl, .inr ⟨rfl, hall, rfl⟩⟩
    | false => exact ⟨_, _, rfl, rfl, .inr ⟨rfl, hall, rfl⟩⟩
  · rw [if_neg hr]
    exact ⟨_, _, rfl, rfl, .inl ⟨rfl, rfl⟩⟩

/-- The angle in the data of a feedback frame. -/
def frameAngle (data : Vector UInt8 8) : UInt16 := CanMsg.angle ⟨0, data⟩

/-- The angle that an event reports for motor `k`. -/
def DjEvent.angle? (k : Fin 4) : DjEvent → Option UInt16
  | .feedback j data => if j = k then some (frameAngle data) else none
  | .driver .. => none

/-- What one event can do. -/
theorem djStep_ret {st : DjState 4 4} (hs : st.Shipped) (e : DjEvent) :
    ∃ st' o, st.djStep e = .ret (st', o) ∧ st'.Shipped ∧
      ((∃ k angle, o = .feedback k ∧ (∀ j, e.angle? j = if k = j then some angle else none) ∧
          st'.djMotors = Function.update st.djMotors k ((st.djMotors k).receive angle)) ∨
        (o = .quiet ∧ (∀ j, e.angle? j = none) ∧ st'.djMotors = st.djMotors) ∨
        ((∀ j, e.angle? j = none) ∧ (∀ k, (st.djMotors k).msgCnt = 0xff) ∧
          ((o = .wrote true ∧ st'.djMotors = st.djMotors) ∨
            (o = .wrote false ∧
              st'.djMotors = fun k => { st.djMotors k with msgCnt := 50 })))) := by
  cases e with
  | feedback k data =>
    let rxmsg : CanMsg := { id := canMotor1Id + k, data := data }
    obtain ⟨ml, fifo, hr⟩ := indDjCanMotorCallback_found rxmsg (hs.found k)
    have hstep := congrArg (· >>= fun st => pure (st, DjObs.feedback k)) hr
    refine ⟨_, .feedback k, hstep, ⟨fun j => ?_, hs.userData⟩,
      .inl ⟨k, rxmsg.word 0, rfl, fun j => rfl, rfl⟩⟩
    rw [← hs.canId j]
    exact update_canId (MotorMeasure.receive_canId _ _) j
  | driver i value writeOk =>
    obtain ⟨st', msg, hr, hu, hcase⟩ := motorDjDriver_torque hs i value writeOk
    refine ⟨st', if msg.isSome then .wrote writeOk else .quiet,
      by rw [DjState.djStep, hr]; rfl, ?_, ?_⟩
    · refine ⟨fun j => ?_, fun j => by rw [hu]; exact hs.userData j⟩
      rw [← hs.canId j]
      rcases hcase with ⟨-, hd⟩ | ⟨-, -, hd⟩
      · rw [hd]
      · rw [hd]
        cases writeOk <;> rfl
    · right
      rcases hcase with ⟨rfl, hd⟩ | ⟨hm, hall, hd⟩
      · exact .inl ⟨rfl, fun j => rfl, hd⟩
      · rw [if_pos hm]
        cases writeOk with
        | true => exact .inr ⟨fun j => rfl, hall, .inl ⟨rfl, hd⟩⟩
        | false => exact .inr ⟨fun j => rfl, hall, .inr ⟨rfl, hd⟩⟩

/-! ## The counter -/

/-- What the counter `c` of motor `k` says about the history: up to 50 a number of frames, at 255
that the motor is ready. -/
structure Counted (c : UInt8) (k : Fin 4) (log : List DjObs) : Prop where
  range : c ≤ 50 ∨ c = 255
  frames : c ≤ 50 → c.toNat ≤ log.count (.feedback k)
  ready : c = 255 → MayWrite log k

theorem counted_zero (k : Fin 4) : Counted 0 k [] :=
  ⟨.inl (by decide), fun _ => Nat.le_refl 0, fun h => absurd h (by decide)⟩

/-- One more entry that is no failed write. -/
theorem MayWrite.concat {log : List DjObs} {k : Fin 4} (h : MayWrite log k) {o : DjObs}
    (ho : o ≠ .wrote false) : MayWrite (log ++ [o]) k := by
  refine ⟨?_, fun a b hl => ?_⟩
  · rw [List.count_append]
    exact Nat.le_add_right_of_le h.1
  · rcases concat_eq_append_cons.mp hl with ⟨-, -, rfl⟩ | ⟨l, rfl, hl'⟩
    · exact absurd rfl ho
    · rw [List.count_append]
      exact Nat.le_add_right_of_le (h.2 a l hl')

theorem Counted.concat {c : UInt8} {k : Fin 4} {log : List DjObs} (h : Counted c k log)
    {o : DjObs} (ho : o ≠ .wrote false) : Counted c k (log ++ [o]) := by
  refine ⟨h.range, fun hc => ?_, fun hc => (h.ready hc).concat ho⟩
  rw [List.count_append]
  exact Nat.le_add_right_of_le (h.frames hc)

/-- A frame of the motor: the counter goes up to 50, then to 255. -/
theorem Counted.feedback {mm : MotorMeasure} {k : Fin 4} {log : List DjObs}
    (h : Counted mm.msgCnt k log) (angle : UInt16) :
    Counted (mm.receive angle).msgCnt k (log ++ [.feedback k]) := by
  have hcount : (log ++ [DjObs.feedback k]).count (.feedback k) =
      log.count (.feedback k) + 1 := by
    rw [List.count_append, List.count_singleton_self]
  unfold MotorMeasure.receive
  by_cases hc : mm.msgCnt < 50
  · rw [if_pos hc]
    have hlt : mm.msgCnt.toNat < 50 := UInt8.lt_iff_toNat_lt.mp hc
    have hadd : (mm.msgCnt + 1).toNat = mm.msgCnt.toNat + 1 := by
      rw [UInt8.toNat_add, UInt8.toNat_one]
      omega
    refine ⟨.inl ?_, fun _ => ?_, fun heq => ?_⟩
    · rw [UInt8.le_iff_toNat_le, hadd]
      exact hlt
    · have hf := h.frames (UInt8.le_iff_toNat_le.mpr (Nat.le_of_lt hlt))
      rw [hadd, hcount]
      omega
    · have h255 := congrArg UInt8.toNat heq
      rw [hadd] at h255
      simp only [UInt8.reduceToNat] at h255
      omega
  · rw [if_neg hc]
    refine ⟨.inr rfl, fun h50 => absurd h50 (show ¬ (255 : UInt8) ≤ 50 by decide),
      fun _ => ⟨?_, fun a b hl => ?_⟩⟩
    · rcases h.range with hle | heq
      · -- `c` is 50: this is at least the 51st frame
        have hge : 50 ≤ mm.msgCnt.toNat := by
          rw [UInt8.lt_iff_toNat_lt] at hc
          exact Nat.le_of_not_lt hc
        have hf := h.frames hle
        omega
      · have hr := (h.ready heq).1
        omega
    · rcases concat_eq_append_cons.mp hl with ⟨-, -, hbad⟩ | ⟨l, rfl, -⟩
      · exact absurd hbad (by simp)
      · rw [List.count_append, List.count_singleton_self]
        omega

/-- A failed write: the counter goes from 255 back to 50. -/
theorem Counted.failed {k : Fin 4} {log : List DjObs} (h : Counted 255 k log) :
    Counted 50 k (log ++ [.wrote false]) := by
  refine ⟨.inl (by decide), fun _ => ?_, fun heq => absurd heq (by decide)⟩
  have h51 := (h.ready rfl).1
  rw [List.count_append]
  simp only [UInt8.reduceToNat]
  omega

/-! ## Runs -/

/-- The counters agree with the history, and the interlock held so far. -/
structure DjState.Inv (st : DjState 4 4) (log : List DjObs) : Prop where
  shipped : st.Shipped
  counted : ∀ k, Counted (st.djMotors k).msgCnt k log
  interlocked : Interlocked log

theorem djStep_counted {st : DjState 4 4} {log : List DjObs} (h : st.Inv log) (e : DjEvent) :
    ∃ st' o, st.djStep e = .ret (st', o) ∧ st'.Inv (log ++ [o]) := by
  obtain ⟨st', o, hr, hs', hcase⟩ := djStep_ret h.shipped e
  refine ⟨st', o, hr, hs', fun j => ?_, ?_⟩
  · rcases hcase with ⟨k, angle, rfl, -, hd⟩ | ⟨rfl, -, hd⟩ | ⟨-, hall, ⟨rfl, hd⟩ | ⟨rfl, hd⟩⟩
    · rw [hd]
      by_cases hj : j = k
      · subst hj
        rw [Function.update_self]
        exact (h.counted j).feedback angle
      · rw [Function.update_of_ne hj]
        exact (h.counted j).concat (by simp)
    · rw [hd]
      exact (h.counted j).concat (by simp)
    · rw [hd]
      exact (h.counted j).concat (by simp)
    · have hj := h.counted j
      rw [hall j] at hj
      rw [hd]
      exact hj.failed
  · refine guarded_concat.mpr ⟨h.interlocked, fun ok ho k => ?_⟩
    rcases hcase with ⟨_, _, rfl, _⟩ | ⟨rfl, _⟩ | ⟨-, hall, -⟩
    · simp at ho
    · simp at ho
    · exact (h.counted k).ready (hall k)

theorem djRun_counted {st : DjState 4 4} {log : List DjObs} (h : st.Inv log)
    (es : List DjEvent) :
    ∃ st' l, st.djRun es = .ret (st', l) ∧ st'.Inv (log ++ l) := by
  induction es generalizing st log with
  | nil => exact ⟨st, [], rfl, by rwa [List.append_nil]⟩
  | cons e es ih =>
    obtain ⟨st₁, o, h₁, hi₁⟩ := djStep_counted h e
    obtain ⟨st', l, h₂, hi₂⟩ := ih hi₁
    refine ⟨st', o :: l, by simp only [DjState.djRun, h₁, h₂, Call.ret_bind]; rfl, ?_⟩
    rwa [List.append_assoc] at hi₂

/-- Every run of the shipped driver from zeroed entries: all calls return, each counter stays in
`{0..50, 255}`, and each current frame was allowed. -/
theorem interlock_holds (ml : MotorList 4) (es : List DjEvent) :
    ∃ st log, (DjState.start ml).djRun es = .ret (st, log) ∧
      (∀ k, (st.djMotors k).msgCnt ≤ 50 ∨ (st.djMotors k).msgCnt = 255) ∧
      ∀ l₁ ok l₂, log = l₁ ++ .wrote ok :: l₂ → ∀ k,
        51 ≤ l₁.count (.feedback k) ∧
          ∀ a b, l₁ = a ++ .wrote false :: b → 1 ≤ b.count (.feedback k) := by
  have h₀ : (DjState.start ml).Inv [] :=
    ⟨DjState.start_shipped ml, fun k => counted_zero k, guarded_nil⟩
  obtain ⟨st, log, hr, hi⟩ := djRun_counted h₀ es
  refine ⟨st, log, hr, fun k => (hi.counted k).range, fun l₁ ok l₂ hl k => ?_⟩
  exact hi.interlocked l₁ (.wrote ok) l₂ hl ok rfl k

end Robot
