import ConstructionRobot.Dj.Driver

/-!
# Multi-turn position of a motor

A rotor at the integer position `p` (8192 counts a turn) reports the angle `p mod 8192`. The
callback counts the turns from the jumps of the angle, and computes

    total_angle = round_cnt * 8191 + angle - offset_angle

with 8191 counts a turn. `Track` is what the true positions say: the number of frames, the last
position, and the position that counts as zero (of the last calibration frame, or of the last
frame before `dj_motor_BackToZero`).

* `receive_tracks`: one frame keeps `Tracks`, which ties the entry of the motor to the true
  position: `round_cnt` is the difference of the turns, `angle` and `offset_angle` the positions
  in their turn.
* `totalAngle_eq_iff`: `total_angle` is the true distance exactly if the rotor is in the turn of
  its zero; each turn away costs one count.
-/

namespace Robot

variable {m n : ℕ}

/-- What happens to one motor: a frame with the rotor at position `p` (`rest` are the data bytes
after the angle), or a call of `dj_motor_BackToZero`. -/
inductive PosEvent where
  | frame (p : ℤ) (rest : Vector UInt8 6)
  | backToZero
  deriving DecidableEq, Repr

/-- The frames received, the position in the last one and the zero position. -/
structure Track where
  frames : ℕ
  pos : ℤ
  ref : ℤ
  deriving DecidableEq, Repr

namespace Track

/-- No frame yet. -/
def init : Track := ⟨0, 0, 0⟩

/-- The first 50 frames are calibration frames: each moves the zero. -/
def next (t : Track) : PosEvent → Track
  | .frame p _ => ⟨t.frames + 1, p, if t.frames < 50 then p else t.ref⟩
  | .backToZero => { t with ref := t.pos }

/-- The turns from the zero to position `p`. -/
def turns (t : Track) (p : ℤ) : ℤ := p / 8192 - t.ref / 8192

/-- A frame that can come next: less than half a turn from the last one, and with a number of
turns that fits in 32 bits. -/
def Allows (t : Track) : PosEvent → Prop
  | .frame p _ => (t.frames = 0 ∨ |p - t.pos| ≤ 4095) ∧
      -2 ^ 31 ≤ t.turns p ∧ t.turns p < 2 ^ 31
  | .backToZero => True

/-- All events of the list can come, one after the other. -/
def AllowsAll (t : Track) : List PosEvent → Prop
  | [] => True
  | e :: es => t.Allows e ∧ (t.next e).AllowsAll es

instance (t : Track) (e : PosEvent) : Decidable (t.Allows e) :=
  match e with
  | .frame p _ => inferInstanceAs (Decidable ((t.frames = 0 ∨ |p - t.pos| ≤ 4095) ∧
      -2 ^ 31 ≤ t.turns p ∧ t.turns p < 2 ^ 31))
  | .backToZero => isTrue trivial

instance decAllowsAll (t : Track) : (es : List PosEvent) → Decidable (t.AllowsAll es)
  | [] => isTrue trivial
  | e :: es =>
    have := decAllowsAll (t.next e) es
    inferInstanceAs (Decidable (t.Allows e ∧ (t.next e).AllowsAll es))

def run (t : Track) (es : List PosEvent) : Track := es.foldl next t

theorem next_frames (t : Track) (p : ℤ) (rest : Vector UInt8 6) :
    (t.next (.frame p rest)).frames = t.frames + 1 := rfl

end Track

/-- The frame with can id `canId` and the rotor at position `p`. -/
def posFrame (canId : ℕ) (p : ℤ) (rest : Vector UInt8 6) : CanMsg where
  id := canId
  data := .ofFn fun i =>
    if i.val = 0 then UInt8.ofNat ((p % 8192).toNat / 256)
    else if i.val = 1 then UInt8.ofNat ((p % 8192).toNat % 256)
    else rest[i.val - 2]

/-- One event of the motor with can id `canId`, entry `k` of `dj_motors`. -/
def DjState.posStep (canId : ℕ) (k : Fin m) (st : DjState m n) : PosEvent → Call (DjState m n)
  | .frame p rest => indDjCanMotorCallback st (posFrame canId p rest)
  | .backToZero => .ret { st with
      djMotors := Function.update st.djMotors k (djMotorBackToZero (st.djMotors k)) }

def DjState.posRun (canId : ℕ) (k : Fin m) (st : DjState m n) :
    List PosEvent → Call (DjState m n)
  | [] => .ret st
  | e :: es => do (← st.posStep canId k e).posRun canId k es

/-- The entry of a motor that has received no frame. -/
def MotorMeasure.Fresh (mm : MotorMeasure) : Prop :=
  mm.angle = 0 ∧ mm.msgCnt = 0 ∧ mm.lastAngle = 0 ∧ mm.offsetAngle = 0 ∧ mm.roundCnt = 0 ∧
    mm.totalAngle = 0

instance (mm : MotorMeasure) : Decidable mm.Fresh := by
  unfold MotorMeasure.Fresh; infer_instance

/-! ## The invariant -/

/-- The entry of the motor agrees with the true position. -/
structure MotorMeasure.Tracks (mm : MotorMeasure) (t : Track) : Prop where
  angle : (mm.angle.toNat : ℤ) = t.pos % 8192
  offset : (mm.offsetAngle.toNat : ℤ) = t.ref % 8192
  round : mm.roundCnt = t.turns t.pos
  cnt : mm.msgCnt.toNat = if t.frames ≤ 50 then t.frames else 255
  calib : t.frames ≤ 50 → t.ref = t.pos

theorem MotorMeasure.Fresh.tracks {mm : MotorMeasure} (h : mm.Fresh) : mm.Tracks .init := by
  obtain ⟨ha, hc, -, ho, hr, -⟩ := h
  exact ⟨by simp [ha, Track.init], by simp [ho, Track.init], by simp [hr, Track.init, Track.turns],
    by simp [hc, Track.init], fun _ => rfl⟩

/-- The angle field of the frame. -/
theorem posFrame_word (canId : ℕ) (p : ℤ) (rest : Vector UInt8 6) :
    (((posFrame canId p rest).word 0 (by decide)).toNat : ℤ) = p % 8192 := by
  have h1 := Int.emod_nonneg p (show (8192 : ℤ) ≠ 0 by decide)
  have h2 := Int.emod_lt_of_pos p (show (0 : ℤ) < 8192 by decide)
  have hw : (posFrame canId p rest).word 0 = UInt16.ofNat ((p % 8192).toNat) := by
    have d0 : (posFrame canId p rest).data[0] = UInt8.ofNat ((p % 8192).toNat / 256) := by
      simp [posFrame]
    have d1 : (posFrame canId p rest).data[1] = UInt8.ofNat ((p % 8192).toNat % 256) := by
      simp [posFrame]
    unfold CanMsg.word
    rw [d0, d1, UInt8.toNat_ofNat', UInt8.toNat_ofNat']
    congr 1
    omega
  rw [hw, UInt16.toNat_ofNat']
  omega

/-- The number of turns after a step of less than half a turn, from the jump of the angle. -/
theorem roundStep_eq {last angle : UInt16} {p q z : ℤ} (hl : (last.toNat : ℤ) = p % 8192)
    (ha : (angle.toNat : ℤ) = q % 8192) (hd : |q - p| ≤ 4095)
    (h1 : -2 ^ 31 ≤ q / 8192 - z) (h2 : q / 8192 - z < 2 ^ 31) :
    roundStep last angle (p / 8192 - z) = q / 8192 - z := by
  rw [abs_le] at hd
  unfold roundStep
  rw [hl, ha]
  split
  · rw [show p / 8192 - z - 1 = q / 8192 - z by omega]
    exact sint_eq_self (by decide) h1 h2
  · split
    · rw [show p / 8192 - z + 1 = q / 8192 - z by omega]
      exact sint_eq_self (by decide) h1 h2
    · omega

/-- A calibration frame. -/
theorem receive_calibrating {mm : MotorMeasure} {t : Track} (h : mm.Tracks t) (hf : t.frames < 50)
    (angle : UInt16) :
    mm.receive angle =
      { mm with msgCnt := mm.msgCnt + 1, offsetAngle := angle, angle := angle } := by
  have hc := h.cnt
  rw [if_pos (by omega)] at hc
  unfold MotorMeasure.receive
  rw [if_pos]
  rw [UInt8.lt_iff_toNat_lt, hc]
  exact hf

/-- A frame after calibration. -/
theorem receive_calibrated {mm : MotorMeasure} {t : Track} (h : mm.Tracks t) (hf : 50 ≤ t.frames)
    {angle : UInt16} {p : ℤ} {rest : Vector UInt8 6} (hal : t.Allows (.frame p rest))
    (ha : (angle.toNat : ℤ) = p % 8192) :
    mm.receive angle = { mm with
      lastAngle := mm.angle
      angle := angle
      roundCnt := t.turns p
      msgCnt := 0xff
      totalAngle := sint 32 (t.turns p * 8191 + angle.toNat - mm.offsetAngle.toNat) } := by
  have hn : ¬ mm.msgCnt < 50 := by
    have hc := h.cnt
    rw [UInt8.lt_iff_toNat_lt, hc]
    split
    · exact fun hlt => absurd hlt (by simpa using hf)
    · decide
  obtain ⟨hd, h1, h2⟩ := hal
  have hr : roundStep mm.angle angle mm.roundCnt = t.turns p := by
    rw [h.round]
    exact roundStep_eq h.angle ha (hd.resolve_left (by omega)) h1 h2
  unfold MotorMeasure.receive
  rw [if_neg hn, hr]

/-- One frame keeps the entry in step with the true position. -/
theorem receive_tracks {mm : MotorMeasure} {t : Track} (h : mm.Tracks t) {p : ℤ}
    {rest : Vector UInt8 6} (hal : t.Allows (.frame p rest)) {angle : UInt16}
    (ha : (angle.toNat : ℤ) = p % 8192) :
    (mm.receive angle).Tracks (t.next (.frame p rest)) := by
  by_cases hf : t.frames < 50
  · have hc := h.cnt
    rw [if_pos (by omega)] at hc
    have hz := h.calib (by omega)
    rw [receive_calibrating h hf]
    refine ⟨ha, by simpa [Track.next, hf] using ha, ?_, ?_, fun _ => by simp [Track.next, hf]⟩
    · have hr := h.round
      simp only [Track.turns, hz, Track.next, hf, ↓reduceIte, sub_self] at hr ⊢
      exact hr
    · have : (mm.msgCnt + 1).toNat = t.frames + 1 := by
        rw [UInt8.toNat_add, hc]
        simp only [UInt8.toNat_one]
        omega
      rw [Track.next_frames, if_pos (by omega)]
      exact this
  · rw [receive_calibrated h (by omega) hal ha]
    refine ⟨ha, by simpa [Track.next, hf] using h.offset, by simp [Track.next, hf, Track.turns],
      ?_, fun hle => absurd hle (by simp only [Track.next]; omega)⟩
    rw [Track.next_frames, if_neg (by omega)]
    rfl

/-- So does `dj_motor_BackToZero`. -/
theorem djMotorBackToZero_tracks {mm : MotorMeasure} {t : Track} (h : mm.Tracks t) :
    (djMotorBackToZero mm).Tracks (t.next .backToZero) :=
  ⟨h.angle, h.angle, by simp [djMotorBackToZero, Track.next, Track.turns], h.cnt, fun _ => rfl⟩

/-! ## Runs -/

/-- The frames with can id `canId` belong to entry `k`. -/
def DjState.Owns (st : DjState m n) (canId : ℕ) (k : Fin m) : Prop :=
  motorGetByCanid st.djMotors (UInt16.ofNat canId) = .ret (some k)

instance (st : DjState m n) (canId : ℕ) (k : Fin m) : Decidable (st.Owns canId k) := by
  unfold DjState.Owns; infer_instance

theorem DjState.Owns.update {st st' : DjState m n} {canId : ℕ} {k : Fin m} {mm : MotorMeasure}
    (ho : st.Owns canId k) (hd : st'.djMotors = Function.update st.djMotors k mm)
    (hc : mm.canId = (st.djMotors k).canId) : st'.Owns canId k := by
  have hids (j : Fin m) : (st'.djMotors j).canId = (st.djMotors j).canId := by
    rw [hd]
    exact update_canId hc j
  exact (motorGetByCanid_congr hids _).trans ho

/-- One event: the driver goes on, and the entry of the motor stays in step. -/
theorem posStep_tracks {canId : ℕ} {k : Fin m} {st : DjState m n} {t : Track}
    (ho : st.Owns canId k) (h : (st.djMotors k).Tracks t) {e : PosEvent} (hal : t.Allows e) :
    ∃ st', st.posStep canId k e = .ret st' ∧ st'.Owns canId k ∧
      (st'.djMotors k).Tracks (t.next e) := by
  cases e with
  | frame p rest =>
    obtain ⟨ml, fifo, hr⟩ := indDjCanMotorCallback_found (posFrame canId p rest) ho
    refine ⟨_, hr, ho.update rfl (MotorMeasure.receive_canId _ _), ?_⟩
    simp only [Function.update_self]
    exact receive_tracks h hal (posFrame_word canId p rest)
  | backToZero =>
    refine ⟨_, rfl, ho.update rfl (by simp [djMotorBackToZero]), ?_⟩
    simp only [Function.update_self]
    exact djMotorBackToZero_tracks h

theorem posRun_tracks {canId : ℕ} {k : Fin m} {st : DjState m n} {t : Track}
    (ho : st.Owns canId k) (h : (st.djMotors k).Tracks t) {es : List PosEvent}
    (hal : t.AllowsAll es) :
    ∃ st', st.posRun canId k es = .ret st' ∧ st'.Owns canId k ∧
      (st'.djMotors k).Tracks (t.run es) := by
  induction es generalizing st t with
  | nil => exact ⟨st, rfl, ho, h⟩
  | cons e es ih =>
    obtain ⟨st₁, h₁, ho₁, ht₁⟩ := posStep_tracks ho h hal.1
    obtain ⟨st', hr, ho', ht'⟩ := ih ho₁ ht₁ hal.2
    exact ⟨st', by rw [DjState.posRun, h₁]; exact hr, ho', ht'⟩

theorem posRun_append {canId : ℕ} {k : Fin m} {st : DjState m n} (es fs : List PosEvent) :
    st.posRun canId k (es ++ fs) =
      (st.posRun canId k es >>= fun st => st.posRun canId k fs) := by
  induction es generalizing st with
  | nil => rfl
  | cons e es ih =>
    rw [List.cons_append, DjState.posRun, DjState.posRun]
    cases st.posStep canId k e with
    | ret st₁ => exact ih
    | hang => rfl
    | fault => rfl

theorem Track.allowsAll_append {t : Track} {es fs : List PosEvent} :
    t.AllowsAll (es ++ fs) ↔ t.AllowsAll es ∧ (t.run es).AllowsAll fs := by
  induction es generalizing t with
  | nil => simp [AllowsAll, run]
  | cons e es ih =>
    simp only [List.cons_append, AllowsAll, ih, and_assoc]
    rfl

/-- 8191 counts a turn, in 32 bits: the result is the distance exactly if no turn was made. -/
theorem total_eq_iff {p z : ℤ} (h1 : -2 ^ 31 ≤ p / 8192 - z / 8192)
    (h2 : p / 8192 - z / 8192 < 2 ^ 31) :
    sint 32 ((p / 8192 - z / 8192) * 8191 + p % 8192 - z % 8192) = p - z ↔
      p / 8192 = z / 8192 := by
  constructor
  · intro h
    rw [sint, Int.bmod_eq_self_sub_mul_bdiv] at h
    generalize ((p / 8192 - z / 8192) * 8191 + p % 8192 - z % 8192).bdiv (2 ^ 32) = b at h
    omega
  · intro h
    rw [sint_eq_self (by decide) (by omega) (by omega)]
    omega

/-- After every frame past calibration, `total_angle` is the distance from the zero position
exactly if the rotor is in the turn of the zero position. -/
theorem totalAngle_eq_iff {canId : ℕ} {k : Fin m} {st : DjState m n} (ho : st.Owns canId k)
    (hz : (st.djMotors k).Fresh) {es : List PosEvent} {p : ℤ} {rest : Vector UInt8 6}
    (hal : Track.init.AllowsAll (es ++ [.frame p rest])) (hc : 50 ≤ (Track.init.run es).frames) :
    ∃ st', st.posRun canId k (es ++ [.frame p rest]) = .ret st' ∧
      ((st'.djMotors k).totalAngle = p - (Track.init.run es).ref ↔
        p / 8192 = (Track.init.run es).ref / 8192) := by
  obtain ⟨hal₁, hal₂, -⟩ := Track.allowsAll_append.mp hal
  obtain ⟨st₁, h₁, ho₁, ht₁⟩ := posRun_tracks ho hz.tracks hal₁
  obtain ⟨ml, fifo, hr⟩ := indDjCanMotorCallback_found (posFrame canId p rest) ho₁
  refine ⟨_, by rw [posRun_append, h₁]; simp [DjState.posRun, DjState.posStep, hr]; rfl, ?_⟩
  have hw := posFrame_word canId p rest
  simp only [Function.update_self, receive_calibrated ht₁ hc hal₂ hw, hw, ht₁.offset]
  exact total_eq_iff hal₂.2.1 hal₂.2.2

/-- Fifty calibration frames at position `p`. -/
def calibration (p : ℤ) : List PosEvent := List.replicate 50 (.frame p (Vector.replicate 6 0))

/-- A frame in the turn of the zero position. -/
theorem totalAngle_eq_iff_first_turn :
    50 ≤ (Track.init.run (calibration 0)).frames ∧
      ∃ st', (DjState.start fun _ => Motor.zero).posRun 0x201 0
          (calibration 0 ++ [.frame 100 (Vector.replicate 6 0)]) = .ret st' ∧
        ((st'.djMotors 0).totalAngle = 100 - (Track.init.run (calibration 0)).ref ↔
          100 / 8192 = (Track.init.run (calibration 0)).ref / 8192) :=
  ⟨by decide, totalAngle_eq_iff (by decide) (by decide) (by decide +kernel) (by decide)⟩

/-- Calibrated at 8191 and moved on by one count, into the next turn: `total_angle` is 0. -/
theorem totalAngle_next_turn :
    Track.init.AllowsAll (calibration 8191 ++ [.frame 8192 (Vector.replicate 6 0)]) ∧
      (Track.init.run (calibration 8191)).ref = 8191 ∧
      ((DjState.start fun _ => Motor.zero).posRun 0x201 0
          (calibration 8191 ++ [.frame 8192 (Vector.replicate 6 0)])).ret?.map
        (fun st' => (st'.djMotors 0).totalAngle) = some 0 ∧
      (0 : ℤ) ≠ 8192 - 8191 := by
  refine ⟨by decide +kernel, by decide, ?_, by decide⟩
  decide +kernel

end Robot
