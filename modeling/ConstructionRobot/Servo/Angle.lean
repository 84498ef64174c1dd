import ConstructionRobot.Lib.Fields
import ConstructionRobot.Servo.Balance
import Mathlib.Tactic.Linarith

/-!
# What the angle commands send

The six functions that set the angle of a servo clamp their arguments and write them into the
content of a package, the low byte first. Here a servo reads the content back. Angles and velocities
are rationals.

* `AngleCmd.fields`: the fields of each command, with the values they should have.
* `AngleCmd.Encodes`: the content is decoded to them, none overflows, and the angle that is waited
  for is the clamped one.
* `angleCmd_encodes_iff`: the only exception is `FSUS_SetServoAngleMTurn` with an interval over its
  limit: there the limit of the interval is assigned to the angle.
-/

namespace Robot

/-- A call of one of the six functions. -/
inductive AngleCmd where
  | single (servoId : UInt8) (angle : ℚ) (interval power : UInt16) (wait : UInt8)
  | byInterval (servoId : UInt8) (angle : ℚ) (interval tAcc tDec power : UInt16) (wait : UInt8)
  | byVelocity (servoId : UInt8) (angle velocity : ℚ) (tAcc tDec power : UInt16) (wait : UInt8)
  | mTurn (servoId : UInt8) (angle : ℚ) (interval : UInt32) (power : UInt16) (wait : UInt8)
  | mTurnByInterval (servoId : UInt8) (angle : ℚ) (interval : UInt32) (tAcc tDec power : UInt16)
      (wait : UInt8)
  | mTurnByVelocity (servoId : UInt8) (angle velocity : ℚ) (tAcc tDec power : UInt16) (wait : UInt8)
  deriving DecidableEq, Repr

namespace AngleCmd

/-- What the function sends, and what it waits for. -/
def setting : AngleCmd → Setting ℚ
  | single servoId angle interval power wait => fsusSetServoAngle servoId angle interval power wait
  | byInterval servoId angle interval tAcc tDec power wait =>
    fsusSetServoAngleByInterval servoId angle interval tAcc tDec power wait
  | byVelocity servoId angle velocity tAcc tDec power wait =>
    fsusSetServoAngleByVelocity servoId angle velocity tAcc tDec power wait
  | mTurn servoId angle interval power wait =>
    fsusSetServoAngleMTurn servoId angle interval power wait
  | mTurnByInterval servoId angle interval tAcc tDec power wait =>
    fsusSetServoAngleMTurnByInterval servoId angle interval tAcc tDec power wait
  | mTurnByVelocity servoId angle velocity tAcc tDec power wait =>
    fsusSetServoAngleMTurnByVelocity servoId angle velocity tAcc tDec power wait

/-- The angle, cut to the range of the mode. -/
def target : AngleCmd → ℚ
  | single _ angle _ _ _ | byInterval _ angle _ _ _ _ _ | byVelocity _ angle _ _ _ _ _ =>
    max (-180) (min 180 angle)
  | mTurn _ angle _ _ _ | mTurnByInterval _ angle _ _ _ _ _ | mTurnByVelocity _ angle _ _ _ _ _ =>
    max (-368640) (min 368640 angle)

end AngleCmd

/-- The fields of the commands: an id, an angle in tenths of a degree, a velocity in tenths, a
number of 16 bits, a time of at least 20 and an interval of at most 4096000. -/
def idField (servoId : UInt8) : Field := ⟨1, false, servoId.toNat⟩
def angleField (width : ℕ) (angle : ℚ) : Field := ⟨width, true, trunc (10 * angle)⟩
def velocityField (velocity : ℚ) : Field := ⟨2, false, trunc (10 * max 1 (min 750 velocity))⟩
def wordField (x : UInt16) : Field := ⟨2, false, x.toNat⟩
def timeField (t : UInt16) : Field := ⟨2, false, (max 20 t.toNat : ℕ)⟩
def intervalField (interval : UInt32) : Field := ⟨4, false, (min 4096000 interval.toNat : ℕ)⟩

namespace AngleCmd

/-- What a servo should find in the content. -/
def fields (c : AngleCmd) : List Field :=
  match c with
  | single servoId _ interval power _ =>
    [idField servoId, angleField 2 c.target, wordField interval, wordField power]
  | byInterval servoId _ interval tAcc tDec power _ =>
    [idField servoId, angleField 2 c.target, wordField interval, timeField tAcc, timeField tDec,
      wordField power]
  | byVelocity servoId _ velocity tAcc tDec power _ =>
    [idField servoId, angleField 2 c.target, velocityField velocity, timeField tAcc,
      timeField tDec, wordField power]
  | mTurn servoId _ interval power _ =>
    [idField servoId, angleField 4 c.target, intervalField interval, wordField power]
  | mTurnByInterval servoId _ interval tAcc tDec power _ =>
    [idField servoId, angleField 4 c.target, intervalField interval, timeField tAcc,
      timeField tDec, wordField power]
  | mTurnByVelocity servoId _ velocity tAcc tDec power _ =>
    [idField servoId, angleField 4 c.target, velocityField velocity, timeField tAcc,
      timeField tDec, wordField power]

/-- The command says what it should. -/
structure Encodes (c : AngleCmd) : Prop where
  /-- The size given to `FSUS_SendPackage` is that of the content. -/
  size : c.setting.size.toNat = c.setting.content.length
  decodes : Decodes c.fields c.setting.content
  fits : ∀ f ∈ c.fields, f.Fits
  waits : c.setting.angle = c.target

/-- `FSUS_SetServoAngleMTurn` with an interval over its limit. -/
def LongMTurn : AngleCmd → Prop
  | mTurn _ _ interval _ _ => interval > 4096000
  | _ => False

end AngleCmd

/-! ## Bytes -/

theorem u16Bytes_value (x : UInt16) :
    Nat.ofDigits 256 ((u16Bytes x).map UInt8.toNat) = x.toNat := by
  have hlt := x.toNat_lt
  have h8 : (x >>> 8).toNat = x.toNat / 2 ^ 8 := by
    rw [UInt16.toNat_shiftRight, Nat.shiftRight_eq_div_pow]
    rfl
  simp only [u16Bytes, List.map_cons, List.map_nil, Nat.ofDigits_cons, Nat.ofDigits_nil,
    UInt16.toNat_toUInt8, h8]
  omega

theorem u32Bytes_value (x : UInt32) :
    Nat.ofDigits 256 ((u32Bytes x).map UInt8.toNat) = x.toNat := by
  have hlt := x.toNat_lt
  have h8 : (x >>> 8).toNat = x.toNat / 2 ^ 8 := by
    rw [UInt32.toNat_shiftRight, Nat.shiftRight_eq_div_pow]
    rfl
  have h16 : (x >>> 16).toNat = x.toNat / 2 ^ 16 := by
    rw [UInt32.toNat_shiftRight, Nat.shiftRight_eq_div_pow]
    rfl
  have h24 : (x >>> 24).toNat = x.toNat / 2 ^ 24 := by
    rw [UInt32.toNat_shiftRight, Nat.shiftRight_eq_div_pow]
    rfl
  simp only [u32Bytes, List.map_cons, List.map_nil, Nat.ofDigits_cons, Nat.ofDigits_nil,
    UInt32.toNat_toUInt8, h8, h16, h24]
  omega

theorem toNat_ofInt16 (z : ℤ) : ((UInt16.ofInt z).toNat : ℤ) = z % 2 ^ 16 := by
  rw [UInt16.ofInt, UInt16.toNat_ofNat']
  omega

theorem toNat_ofInt32 (z : ℤ) : ((UInt32.ofInt z).toNat : ℤ) = z % 2 ^ 32 := by
  rw [UInt32.ofInt, UInt32.toNat_ofNat']
  omega

/-! ## One field -/

section Fields

variable {fields : List Field} {rest : List UInt8}

theorem decodes_id (servoId : UInt8) :
    Decodes (idField servoId :: fields) ([servoId] ++ rest) ↔ Decodes fields rest := by
  rw [decodes_append rfl]
  exact and_iff_right (by simp [Field.decode, idField])

/-- Unsigned fields. -/
theorem decodes_u16 (x : UInt16) {v : ℤ} :
    Decodes (⟨2, false, v⟩ :: fields) (u16Bytes x ++ rest) ↔ x.toNat = v ∧ Decodes fields rest := by
  rw [decodes_append rfl, Field.decode, u16Bytes_value]
  rfl

theorem decodes_u32 (x : UInt32) {v : ℤ} :
    Decodes (⟨4, false, v⟩ :: fields) (u32Bytes x ++ rest) ↔ x.toNat = v ∧ Decodes fields rest := by
  rw [decodes_append rfl, Field.decode, u32Bytes_value]
  rfl

/-- Signed fields. -/
theorem decodes_i16 (x : UInt16) {v : ℤ} :
    Decodes (⟨2, true, v⟩ :: fields) (u16Bytes x ++ rest) ↔
      sint 16 x.toNat = v ∧ Decodes fields rest := by
  have hdec : Field.decode ⟨2, true, v⟩ (u16Bytes x) = sint 16 x.toNat := by
    simp only [Field.decode, u16Bytes_value, ↓reduceIte, Nat.reduceMul]
  rw [decodes_append rfl, hdec]

theorem decodes_i32 (x : UInt32) {v : ℤ} :
    Decodes (⟨4, true, v⟩ :: fields) (u32Bytes x ++ rest) ↔
      sint 32 x.toNat = v ∧ Decodes fields rest := by
  have hdec : Field.decode ⟨4, true, v⟩ (u32Bytes x) = sint 32 x.toNat := by
    simp only [Field.decode, u32Bytes_value, ↓reduceIte, Nat.reduceMul]
  rw [decodes_append rfl, hdec]

theorem decodes_word (x : UInt16) :
    Decodes (wordField x :: fields) (u16Bytes x ++ rest) ↔ Decodes fields rest :=
  (decodes_u16 x).trans (and_iff_right rfl)

theorem decodes_power (x : UInt16) : Decodes [wordField x] (u16Bytes x) := by
  rw [decodes_last rfl, Field.decode, u16Bytes_value]
  rfl

theorem clampTime_toNat (t : UInt16) : (clampTime t).toNat = max 20 t.toNat := by
  unfold clampTime
  split
  case isTrue h =>
    have : t.toNat < 20 := UInt16.lt_iff_toNat_lt.mp h
    show 20 = max 20 t.toNat
    omega
  case isFalse h =>
    have : ¬t.toNat < 20 := fun hlt => h (UInt16.lt_iff_toNat_lt.mpr hlt)
    omega

theorem decodes_time (t : UInt16) :
    Decodes (timeField t :: fields) (u16Bytes (clampTime t) ++ rest) ↔ Decodes fields rest :=
  (decodes_u16 _).trans (and_iff_right (by rw [clampTime_toNat]))

/-- Clamping is `max` and `min`. -/
theorem clampAngle_eq {bound : ℚ} (hb : 0 ≤ bound) (angle : ℚ) :
    clampAngle bound angle = max (-bound) (min bound angle) := by
  simp only [clampAngle, CFloat.lt, CFloat.ofRat, decide_eq_true_eq]
  split
  case isTrue h => rw [min_eq_left h.le, max_eq_right (by linarith)]
  case isFalse h =>
    rw [min_eq_right (not_lt.mp h)]
    split
    case isTrue h' => rw [max_eq_left h'.le]
    case isFalse h' => rw [max_eq_right (not_lt.mp h')]

theorem clampVelocity_eq (velocity : ℚ) :
    clampVelocity velocity = max 1 (min 750 velocity) := by
  simp only [clampVelocity, CFloat.lt, CFloat.ofRat, decide_eq_true_eq]
  split
  case isTrue h => rw [min_eq_right (by linarith), max_eq_left h.le]
  case isFalse h =>
    split
    case isTrue h' => rw [min_eq_left h'.le, max_eq_right (by norm_num)]
    case isFalse h' => rw [min_eq_right (not_lt.mp h'), max_eq_right (not_lt.mp h)]

/-- Ten times a clamped angle is at most ten times the bound. -/
theorem tenths_mem {b : ℤ} (hb : 0 ≤ b) (angle : ℚ) :
    -(10 * b) ≤ trunc (10 * max (-b : ℚ) (min b angle)) ∧
      trunc (10 * max (-b : ℚ) (min b angle)) ≤ 10 * b := by
  have hb' : (0 : ℚ) ≤ b := by exact_mod_cast hb
  have hlow : (-b : ℚ) ≤ max (-b : ℚ) (min b angle) := le_max_left _ _
  have hhigh : max (-b : ℚ) (min b angle) ≤ b :=
    max_le (by linarith) (min_le_left _ _)
  exact ⟨le_trunc (by push_cast; linarith), trunc_le (by push_cast; linarith)⟩

/-- Ten times a clamped velocity is between 10 and 7500. -/
theorem velocity_mem (velocity : ℚ) :
    10 ≤ trunc (10 * max 1 (min 750 velocity)) ∧
      trunc (10 * max 1 (min 750 velocity)) ≤ 7500 := by
  have hlow : (1 : ℚ) ≤ max 1 (min 750 velocity) := le_max_left _ _
  have hhigh : max 1 (min 750 velocity) ≤ 750 := max_le (by norm_num) (min_le_left _ _)
  exact ⟨le_trunc (by push_cast; linarith), trunc_le (by push_cast; linarith)⟩

/-- Ten times the angle, as an integer of 16 or 32 bits. -/
theorem tenthsI16_toNat (x : ℚ) : ((CFloat.tenthsI16 x).toNat : ℤ) = trunc (10 * x) % 2 ^ 16 :=
  toNat_ofInt16 _

theorem tenthsI32_toNat (x : ℚ) : ((CFloat.tenthsI32 x).toNat : ℤ) = trunc (10 * x) % 2 ^ 32 :=
  toNat_ofInt32 _

theorem decodes_angle16 (angle : ℚ) :
    Decodes (angleField 2 (max (-180) (min 180 angle)) :: fields)
      (u16Bytes (CFloat.tenthsI16 (clampAngle 180 angle)) ++ rest) ↔ Decodes fields rest := by
  obtain ⟨h1, h2⟩ := tenths_mem (b := 180) (by norm_num) angle
  norm_num at h1 h2
  refine (decodes_i16 _).trans (and_iff_right ?_)
  rw [clampAngle_eq (by norm_num), tenthsI16_toNat, sint_emod]
  exact sint_eq_self (by decide) (by norm_num; omega) (by norm_num; omega)

theorem decodes_angle32 (angle : ℚ) :
    Decodes (angleField 4 (max (-368640) (min 368640 angle)) :: fields)
      (u32Bytes (CFloat.tenthsI32 (clampAngle 368640 angle)) ++ rest) ↔ Decodes fields rest := by
  obtain ⟨h1, h2⟩ := tenths_mem (b := 368640) (by norm_num) angle
  norm_num at h1 h2
  refine (decodes_i32 _).trans (and_iff_right ?_)
  rw [clampAngle_eq (by norm_num), tenthsI32_toNat, sint_emod]
  exact sint_eq_self (by decide) (by norm_num; omega) (by norm_num; omega)

theorem decodes_velocity (velocity : ℚ) :
    Decodes (velocityField velocity :: fields)
      (u16Bytes (CFloat.tenthsU16 (clampVelocity velocity)) ++ rest) ↔ Decodes fields rest := by
  obtain ⟨h1, h2⟩ := velocity_mem velocity
  refine (decodes_u16 _).trans (and_iff_right ?_)
  rw [clampVelocity_eq]
  show ((UInt16.ofInt _).toNat : ℤ) = _
  rw [toNat_ofInt16]
  exact Int.emod_eq_of_lt (by omega) (by norm_num; omega)

/-- The clamped interval. -/
theorem clampInterval_toNat (interval : UInt32) :
    (if interval > 4096000 then (4096000 : UInt32) else interval).toNat =
      min 4096000 interval.toNat := by
  split
  case isTrue h =>
    have : 4096000 < interval.toNat := UInt32.lt_iff_toNat_lt.mp h
    show 4096000 = _
    omega
  case isFalse h =>
    have : ¬4096000 < interval.toNat := fun hlt => h (UInt32.lt_iff_toNat_lt.mpr hlt)
    omega

end Fields

/-! ## The commands -/

theorem idField_fits (servoId : UInt8) : (idField servoId).Fits := by
  have := servoId.toNat_lt
  simp only [Field.Fits, idField, Bool.false_eq_true, ↓reduceIte]
  omega

theorem wordField_fits (x : UInt16) : (wordField x).Fits := by
  have := x.toNat_lt
  simp only [Field.Fits, wordField, Bool.false_eq_true, ↓reduceIte]
  omega

theorem timeField_fits (t : UInt16) : (timeField t).Fits := by
  have := t.toNat_lt
  simp only [Field.Fits, timeField, Bool.false_eq_true, ↓reduceIte]
  omega

theorem intervalField_fits (interval : UInt32) : (intervalField interval).Fits := by
  have := interval.toNat_lt
  simp only [Field.Fits, intervalField, Bool.false_eq_true, ↓reduceIte]
  omega

theorem velocityField_fits (velocity : ℚ) : (velocityField velocity).Fits := by
  obtain ⟨h1, h2⟩ := velocity_mem velocity
  simp only [Field.Fits, velocityField, Bool.false_eq_true, ↓reduceIte]
  omega

theorem angleField16_fits (angle : ℚ) : (angleField 2 (max (-180) (min 180 angle))).Fits := by
  obtain ⟨h1, h2⟩ := tenths_mem (b := 180) (by norm_num) angle
  norm_num at h1 h2
  simp only [Field.Fits, angleField, ↓reduceIte]
  norm_num
  omega

theorem angleField32_fits (angle : ℚ) :
    (angleField 4 (max (-368640) (min 368640 angle))).Fits := by
  obtain ⟨h1, h2⟩ := tenths_mem (b := 368640) (by norm_num) angle
  norm_num at h1 h2
  simp only [Field.Fits, angleField, ↓reduceIte]
  norm_num
  omega

theorem AngleCmd.fits (c : AngleCmd) : ∀ f ∈ c.fields, f.Fits := by
  cases c with
  | single servoId angle interval power wait =>
    simp only [fields, List.forall_mem_cons, target]
    exact ⟨idField_fits _, angleField16_fits _, wordField_fits _, wordField_fits _, by simp⟩
  | byInterval servoId angle interval tAcc tDec power wait =>
    simp only [fields, List.forall_mem_cons, target]
    exact ⟨idField_fits _, angleField16_fits _, wordField_fits _, timeField_fits _,
      timeField_fits _, wordField_fits _, by simp⟩
  | byVelocity servoId angle velocity tAcc tDec power wait =>
    simp only [fields, List.forall_mem_cons, target]
    exact ⟨idField_fits _, angleField16_fits _, velocityField_fits _, timeField_fits _,
      timeField_fits _, wordField_fits _, by simp⟩
  | mTurn servoId angle interval power wait =>
    simp only [fields, List.forall_mem_cons, target]
    exact ⟨idField_fits _, angleField32_fits _, intervalField_fits _, wordField_fits _, by simp⟩
  | mTurnByInterval servoId angle interval tAcc tDec power wait =>
    simp only [fields, List.forall_mem_cons, target]
    exact ⟨idField_fits _, angleField32_fits _, intervalField_fits _, timeField_fits _,
      timeField_fits _, wordField_fits _, by simp⟩
  | mTurnByVelocity servoId angle velocity tAcc tDec power wait =>
    simp only [fields, List.forall_mem_cons, target]
    exact ⟨idField_fits _, angleField32_fits _, velocityField_fits _, timeField_fits _,
      timeField_fits _, wordField_fits _, by simp⟩

/-- `FSUS_SetServoAngleMTurn` compares the interval and then sets the angle. -/
theorem mTurn_encodes_iff (servoId : UInt8) (angle : ℚ) (interval : UInt32) (power : UInt16)
    (wait : UInt8) :
    (AngleCmd.mTurn servoId angle interval power wait).Encodes ↔ ¬interval > 4096000 := by
  by_cases h : interval > 4096000
  · -- the interval field has the interval as it was given
    refine iff_of_false (fun he => ?_) (not_not.mpr h)
    have hdec := he.decodes
    simp only [AngleCmd.setting, fsusSetServoAngleMTurn, AngleCmd.fields, List.append_assoc,
      decodes_id] at hdec
    have hint := ((decodes_u32 interval).mp ((decodes_i32 _).mp hdec).2).1
    have : 4096000 < interval.toNat := UInt32.lt_iff_toNat_lt.mp h
    omega
  · refine iff_of_true ⟨rfl, ?_, AngleCmd.fits _, ?_⟩ h
    · have hint : Decodes [intervalField interval, wordField power]
          (u32Bytes interval ++ u16Bytes power) := by
        refine (decodes_u32 interval).mpr ⟨?_, decodes_power power⟩
        rw [← clampInterval_toNat, if_neg h]
      simp only [AngleCmd.setting, fsusSetServoAngleMTurn, AngleCmd.fields, AngleCmd.target,
        if_neg h, List.append_assoc, decodes_id, decodes_angle32, hint]
    · simp only [AngleCmd.setting, fsusSetServoAngleMTurn, if_neg h]
      exact clampAngle_eq (by norm_num) angle

/-- A command says what it should exactly if it is not `FSUS_SetServoAngleMTurn` with an interval
over 4096000. -/
theorem angleCmd_encodes_iff (c : AngleCmd) : c.Encodes ↔ ¬c.LongMTurn := by
  cases c with
  | single servoId angle interval power wait =>
    refine iff_of_true ⟨rfl, ?_, AngleCmd.fits _, clampAngle_eq (by norm_num) angle⟩ not_false
    simp only [AngleCmd.setting, fsusSetServoAngle, AngleCmd.fields, AngleCmd.target,
      List.append_assoc, decodes_id, decodes_angle16, decodes_word, decodes_power]
  | byInterval servoId angle interval tAcc tDec power wait =>
    refine iff_of_true ⟨rfl, ?_, AngleCmd.fits _, clampAngle_eq (by norm_num) angle⟩ not_false
    simp only [AngleCmd.setting, fsusSetServoAngleByInterval, AngleCmd.fields, AngleCmd.target,
      List.append_assoc, decodes_id, decodes_angle16, decodes_word, decodes_time, decodes_power]
  | byVelocity servoId angle velocity tAcc tDec power wait =>
    refine iff_of_true ⟨rfl, ?_, AngleCmd.fits _, clampAngle_eq (by norm_num) angle⟩ not_false
    simp only [AngleCmd.setting, fsusSetServoAngleByVelocity, AngleCmd.fields, AngleCmd.target,
      List.append_assoc, decodes_id, decodes_angle16, decodes_velocity, decodes_time, decodes_power]
  | mTurn servoId angle interval power wait =>
    exact mTurn_encodes_iff servoId angle interval power wait
  | mTurnByInterval servoId angle interval tAcc tDec power wait =>
    refine iff_of_true ⟨rfl, ?_, AngleCmd.fits _, clampAngle_eq (by norm_num) angle⟩ not_false
    simp only [AngleCmd.setting, fsusSetServoAngleMTurnByInterval, AngleCmd.fields,
      AngleCmd.target, List.append_assoc, decodes_id, decodes_angle32]
    refine (decodes_u32 _).mpr ⟨congrArg Nat.cast (clampInterval_toNat interval), ?_⟩
    simp only [decodes_time, decodes_power]
  | mTurnByVelocity servoId angle velocity tAcc tDec power wait =>
    refine iff_of_true ⟨rfl, ?_, AngleCmd.fits _, clampAngle_eq (by norm_num) angle⟩ not_false
    simp only [AngleCmd.setting, fsusSetServoAngleMTurnByVelocity, AngleCmd.fields,
      AngleCmd.target, List.append_assoc, decodes_id, decodes_angle32, decodes_velocity,
      decodes_time, decodes_power]

/-- Ninety degrees in 5000000 ms: the interval is sent as it is, and the angle is 4096000 degrees,
in the content and in the wait. -/
theorem mTurn_limit_is_angle :
    (AngleCmd.mTurn 1 90 5000000 0 1).target = 90 ∧
      (AngleCmd.mTurn 1 90 5000000 0 1).setting.angle = 4096000 ∧
      (AngleCmd.mTurn 1 90 5000000 0 1).setting.content =
        [1] ++ u32Bytes 40960000 ++ u32Bytes 5000000 ++ u16Bytes 0 ∧
      ¬(AngleCmd.mTurn 1 90 5000000 0 1).Encodes := by
  have hangle : (AngleCmd.mTurn 1 90 5000000 0 1).setting.angle = 4096000 := by decide +kernel
  have htarget : (AngleCmd.mTurn 1 90 5000000 0 1).target = 90 := by decide +kernel
  refine ⟨htarget, hangle, by decide +kernel, fun h => ?_⟩
  have := h.waits
  rw [hangle, htarget] at this
  exact absurd this (by decide)

end Robot
