import ConstructionRobot.Dj.Interlock
import ConstructionRobot.Dj.Position

/-!
# Turn counting over failed writes

Runs of the shipped configuration, as in `Interlock`: frames of all motors and calls of
`motor_dj_driver` in any order, with any results of `rt_device_write`. A failed write takes every
`msg_cnt` back to 50. It is made only when every motor is ready, so no motor is in its first 50
frames then, and none calibrates again.

* `Counts p n`: the entry of a motor after `n` frames with the rotor at `p 0`, `p 1`, ...
* `Counts.receive`, `Counts.rearm`: one frame, and a failed write.
* `turns_counted`: the entry after every run.
-/

namespace Robot

/-- The angles that a run reports for motor `k`. -/
def anglesOf (k : Fin 4) (es : List DjEvent) : List UInt16 := es.filterMap (DjEvent.angle? k)

/-- Positions less than half a turn apart, whose turns from position 49 fit in 32 bits. -/
structure Moves (p : ℕ → ℤ) (n : ℕ) : Prop where
  near : ∀ j, j + 1 < n → |p (j + 1) - p j| ≤ 4095
  fits : ∀ j, 50 ≤ j → j < n →
    -2 ^ 31 ≤ p j / 8192 - p 49 / 8192 ∧ p j / 8192 - p 49 / 8192 < 2 ^ 31

/-- The entry of a motor after `n` frames. -/
structure MotorMeasure.Counts (mm : MotorMeasure) (p : ℕ → ℤ) (n : ℕ) : Prop where
  calibrating : n < 50 → mm.msgCnt.toNat = n
  calibrated : 50 ≤ n → 50 ≤ mm.msgCnt.toNat
  ready : mm.msgCnt = 0xff → 50 < n
  angle : 0 < n → (mm.angle.toNat : ℤ) = p (n - 1) % 8192
  offset : 0 < n → (mm.offsetAngle.toNat : ℤ) = p (min (n - 1) 49) % 8192
  round : mm.roundCnt = p (n - 1) / 8192 - p (min (n - 1) 49) / 8192
  last : 50 < n → (mm.lastAngle.toNat : ℤ) = p (n - 2) % 8192

namespace MotorMeasure

variable {mm : MotorMeasure} {p : ℕ → ℤ} {n : ℕ}

theorem Fresh.counts (h : mm.Fresh) (p : ℕ → ℤ) : mm.Counts p 0 := by
  obtain ⟨-, hc, -, -, hr, -⟩ := h
  refine ⟨fun _ => by rw [hc]; rfl, by simp, fun hf => ?_, by simp, by simp, by simp [hr], by simp⟩
  rw [hc] at hf
  exact absurd hf (by decide)

/-- A failed write: the motor was ready, and so its first 50 frames are over. -/
theorem Counts.rearm (h : mm.Counts p n) (hready : mm.msgCnt = 0xff) :
    ({ mm with msgCnt := 50 } : MotorMeasure).Counts p n := by
  have hn := h.ready hready
  exact ⟨fun hlt => by omega, fun _ => Nat.le_refl 50, fun _ => hn, h.angle, h.offset, h.round,
    h.last⟩

/-- One of the first 50 frames. -/
theorem Counts.receive_calibrating (h : mm.Counts p n) (hn : n < 50) {angle : UInt16}
    (ha : (angle.toNat : ℤ) = p n % 8192) : (mm.receive angle).Counts p (n + 1) := by
  have hc := h.calibrating hn
  have hmin : min (n - 1) 49 = n - 1 := by omega
  have hadd : (mm.msgCnt + 1).toNat = n + 1 := by
    rw [UInt8.toNat_add, hc, UInt8.toNat_one]
    omega
  have hzero : mm.roundCnt = 0 := by
    rw [h.round, hmin]
    exact Int.sub_self _
  rw [MotorMeasure.receive, if_pos (UInt8.lt_iff_toNat_lt.mpr (by rw [hc]; exact hn))]
  have hmin' : min (n + 1 - 1) 49 = n := by omega
  refine ⟨fun _ => hadd, fun _ => ?_, fun hff => ?_, fun _ => ha, fun _ => ?_, ?_, fun hlt => ?_⟩
  · show 50 ≤ (mm.msgCnt + 1).toNat
    omega
  · have hff' : (mm.msgCnt + 1).toNat = 255 := congrArg UInt8.toNat hff
    omega
  · rw [hmin']
    exact ha
  · rw [hmin']
    show mm.roundCnt = p n / 8192 - p n / 8192
    rw [hzero, Int.sub_self]
  · omega

/-- A frame after them. -/
theorem Counts.receive_calibrated (h : mm.Counts p n) (hn : 50 ≤ n) {angle : UInt16}
    (ha : (angle.toNat : ℤ) = p n % 8192) (hmove : Moves p (n + 1)) :
    (mm.receive angle).Counts p (n + 1) := by
  have hc := h.calibrated hn
  obtain ⟨h1, h2⟩ := hmove.fits n hn (by omega)
  have hnear : |p n - p (n - 1)| ≤ 4095 := by
    have hj := hmove.near (n - 1) (by omega)
    rwa [show n - 1 + 1 = n by omega] at hj
  have hmin : min (n - 1) 49 = 49 := by omega
  have hmin' : min (n + 1 - 1) 49 = 49 := by omega
  have hround : roundStep mm.angle angle mm.roundCnt = p n / 8192 - p 49 / 8192 := by
    rw [h.round, hmin]
    exact roundStep_eq (h.angle (by omega)) ha hnear h1 h2
  rw [MotorMeasure.receive, if_neg fun hlt => absurd (UInt8.lt_iff_toNat_lt.mp hlt) (by
    show ¬ _ < 50
    omega), hround]
  refine ⟨fun hlt => by omega, fun _ => ?_, fun _ => by omega, fun _ => ha, fun _ => ?_, ?_,
    fun _ => h.angle (by omega)⟩
  · show 50 ≤ (0xff : UInt8).toNat
    decide
  · rw [hmin', ← hmin]
    exact h.offset (by omega)
  · rw [hmin']
    rfl

/-- One frame. -/
theorem Counts.receive (h : mm.Counts p n) {angle : UInt16}
    (ha : (angle.toNat : ℤ) = p n % 8192) (hmove : Moves p (n + 1)) :
    (mm.receive angle).Counts p (n + 1) := by
  rcases Nat.lt_or_ge n 50 with hn | hn
  · exact h.receive_calibrating hn ha
  · exact h.receive_calibrated hn ha hmove

end MotorMeasure

/-! ## Runs -/

/-- One event, for motor `k`: a frame of the motor is the next one, all else leaves its count. -/
theorem djStep_counts {st : DjState 4 4} (hs : st.Shipped) {k : Fin 4} {p : ℕ → ℤ} {n : ℕ}
    (h : (st.djMotors k).Counts p n) (e : DjEvent)
    (hangle : ∀ angle, e.angle? k = some angle →
      (angle.toNat : ℤ) = p n % 8192 ∧ Moves p (n + 1)) :
    ∃ st' o, st.djStep e = .ret (st', o) ∧ st'.Shipped ∧
      (st'.djMotors k).Counts p (n + (e.angle? k).toList.length) := by
  obtain ⟨st', o, hr, hs', hcase⟩ := djStep_ret hs e
  refine ⟨st', o, hr, hs', ?_⟩
  rcases hcase with ⟨j, angle, -, he, hd⟩ | ⟨-, he, hd⟩ | ⟨he, hall, ⟨-, hd⟩ | ⟨-, hd⟩⟩
  · have hek := he k
    by_cases hj : j = k
    · subst hj
      rw [if_pos rfl] at hek
      obtain ⟨ha, hmove⟩ := hangle angle hek
      rw [hd, Function.update_self, hek]
      exact h.receive ha hmove
    · rw [if_neg hj] at hek
      rw [hd, Function.update_of_ne (Ne.symm hj), hek]
      exact h
  · rw [hd, he k]
    exact h
  · rw [hd, he k]
    exact h
  · rw [hd, he k]
    exact h.rearm (hall k)

theorem djRun_counts {st : DjState 4 4} (hs : st.Shipped) {k : Fin 4} {p : ℕ → ℤ} {n c : ℕ}
    (h : (st.djMotors k).Counts p n) (hmove : Moves p (n + c)) {es : List DjEvent}
    (hangles : (anglesOf k es).map (fun a => (a.toNat : ℤ)) =
      (List.range' n c).map fun j => p j % 8192) :
    ∃ st' log, st.djRun es = .ret (st', log) ∧ (st'.djMotors k).Counts p (n + c) := by
  induction es generalizing st n c with
  | nil =>
    obtain rfl : 0 = c := by simpa [anglesOf] using congrArg List.length hangles
    exact ⟨st, [], rfl, h⟩
  | cons e es ih =>
    cases hk : e.angle? k with
    | none =>
      obtain ⟨st₁, o, h₁, hs₁, hc₁⟩ := djStep_counts hs h e (by simp [hk])
      rw [hk] at hc₁
      obtain ⟨st', log, h₂, hc₂⟩ := ih hs₁ hc₁ hmove (by
        rwa [anglesOf, List.filterMap_cons_none hk] at hangles)
      exact ⟨st', o :: log, by simp only [DjState.djRun, h₁, h₂, Call.ret_bind]; rfl, hc₂⟩
    | some angle =>
      rw [anglesOf, List.filterMap_cons_some hk, List.map_cons] at hangles
      cases c with
      | zero => simp at hangles
      | succ c =>
        rw [List.range'_succ, List.map_cons] at hangles
        obtain ⟨ha, hrest⟩ := List.cons.inj hangles
        have hmove₁ : Moves p (n + 1) :=
          ⟨fun j hj => hmove.near j (by omega), fun j h50 hj => hmove.fits j h50 (by omega)⟩
        obtain ⟨st₁, o, h₁, hs₁, hc₁⟩ := djStep_counts hs h e (fun a he => by
          rw [hk] at he
          rw [← Option.some.inj he]
          exact ⟨ha, hmove₁⟩)
        rw [hk] at hc₁
        have hsum : n + (c + 1) = n + 1 + c := by omega
        rw [hsum] at hmove ⊢
        obtain ⟨st', log, h₂, hc₂⟩ := ih hs₁ hc₁ hmove hrest
        exact ⟨st', o :: log, by simp only [DjState.djRun, h₁, h₂, Call.ret_bind]; rfl, hc₂⟩

/-- Every run of the shipped driver from zeroed entries, with any failed writes, in which the
frames of motor `k` report the positions `p 0` to `p (n - 1)` of its rotor, each less than half a
turn from the one before: past the first 50 frames, `round_cnt` is the number of turns since the
50th frame, and the angles are those of the last two frames and of the 50th. -/
theorem turns_counted (ml : MotorList 4) (k : Fin 4) (p : ℕ → ℤ) (n : ℕ) (es : List DjEvent)
    (hreported : (anglesOf k es).map (fun a => (a.toNat : ℤ)) =
      (List.range n).map fun j => p j % 8192)
    (hnear : ∀ j, j + 1 < n → |p (j + 1) - p j| ≤ 4095)
    (hfits : ∀ j, 50 ≤ j → j < n →
      -2 ^ 31 ≤ p j / 8192 - p 49 / 8192 ∧ p j / 8192 - p 49 / 8192 < 2 ^ 31) :
    ∃ st log, (DjState.start ml).djRun es = .ret (st, log) ∧ (50 < n →
      (st.djMotors k).roundCnt = p (n - 1) / 8192 - p 49 / 8192 ∧
      ((st.djMotors k).angle.toNat : ℤ) = p (n - 1) % 8192 ∧
      ((st.djMotors k).lastAngle.toNat : ℤ) = p (n - 2) % 8192 ∧
      ((st.djMotors k).offsetAngle.toNat : ℤ) = p 49 % 8192) := by
  have hfresh : ((DjState.start ml).djMotors k).Fresh := ⟨rfl, rfl, rfl, rfl, rfl, rfl⟩
  have hmove : Moves p (0 + n) := by
    rw [Nat.zero_add]
    exact ⟨hnear, hfits⟩
  rw [List.range_eq_range'] at hreported
  obtain ⟨st, log, hr, hc⟩ :=
    djRun_counts (DjState.start_shipped ml) (hfresh.counts p) hmove hreported
  rw [Nat.zero_add] at hc
  refine ⟨st, log, hr, fun hn => ?_⟩
  have hmin : min (n - 1) 49 = 49 := by omega
  have hround := hc.round
  have hoffset := hc.offset (by omega)
  rw [hmin] at hround hoffset
  exact ⟨hround, hc.angle (by omega), hc.last hn, hoffset⟩

/-- Motor `k` reports position `q`. -/
def report (q : ℤ) (k : Fin 4) : DjEvent := .feedback k (posFrame 0 q (.replicate 6 0)).data

/-- All motors report 51 times that they are at the end of a turn, a write fails, and motor `k`
moves into the next turn. -/
def failedWriteRun (k : Fin 4) : List DjEvent :=
  (List.replicate 51 ((List.finRange 4).map (report 8191))).flatten ++
    [.driver k 100 false, report 8192 k]

/-- The turn is counted. -/
theorem turns_counted_failedWriteRun :
    ∃ st log, (DjState.start fun _ => Motor.zero).djRun (failedWriteRun 0) = .ret (st, log) ∧
      (st.djMotors 0).roundCnt = 1 ∧ ((st.djMotors 0).angle.toNat : ℤ) = 0 ∧
      ((st.djMotors 0).lastAngle.toNat : ℤ) = 8191 ∧
      ((st.djMotors 0).offsetAngle.toNat : ℤ) = 8191 := by
  let p : ℕ → ℤ := fun j => if j < 51 then 8191 else 8192
  have hp (j : ℕ) : p j = 8191 ∨ p j = 8192 := by
    by_cases hj : j < 51
    · exact .inl (if_pos hj)
    · exact .inr (if_neg hj)
  obtain ⟨st, log, hr, hc⟩ := turns_counted (fun _ => Motor.zero) 0 p 52 (failedWriteRun 0)
    (by decide +kernel)
    (fun j _ => by
      rcases hp j with h | h <;> rcases hp (j + 1) with h' | h' <;> rw [h, h'] <;> decide)
    (fun j _ _ => by rcases hp j with h | h <;> rw [h] <;> decide)
  exact ⟨st, log, hr, hc (by decide)⟩

end Robot
