import ConstructionRobot.Chassis.Module
import Mathlib.Tactic.LinearCombination

/-!
# Kinematics there and back (`chassis_module_mai.c`)

A target goes through `module_mai` to the wheels, and from the wheels back to the chassis.

For positions the two maps fit together. Four wheels have one value more than a position, so only
the wheel vectors with `motor1 + motor3 = motor2 + motor4` belong to a position; from any other one
`module_mai` gives the nearest of these.

For speeds they do not. The formulas for the wheels depend on `y` and on `x - z * (a + b) / 2` only,
and the way back multiplies by the conversion to rpm a second time.

* `IdealChassis`: the chassis with motors that are where they were told to be.
* `posKinematics_roundTrip`: positions.
* `speedKinematics_roundTrip_iff`: speeds.
-/

namespace Robot

/-- `chassis_get_pos` and `chassis_get_speed`. -/
def chassisGetPos (chassis : Chassis) : ChassisPos ℚ := chassis.present.pos
def chassisGetSpeed (chassis : Chassis) : ChassisPos ℚ := chassis.present.speed

/-- No offset. -/
def Chassis.Centered (chassis : Chassis) : Prop := chassis.offset = ⟨.zero, .zero⟩

/-- A chassis that stands still. -/
def Chassis.zero : Chassis := ⟨⟨.zero, .zero⟩, ⟨.zero, .zero⟩, .idle, ⟨.zero, .zero⟩, ⟨0, 0, 0, 0⟩⟩

/-! ## Positions -/

/-- The chassis and its motors: `motor_get_pos` returns the value last given to
`motor_set_pos`. -/
structure IdealChassis where
  chassis : Chassis
  motors : Wheels
  deriving DecidableEq, Repr

/-- `chassis_handle` with the motors; `speed` is what they report as their speeds. -/
def IdealChassis.handle (s : IdealChassis) (speed : Wheels) : IdealChassis :=
  let (chassis, sets) := chassisHandle s.chassis speed s.motors
  { chassis := chassis
    motors := sets.foldl (fun w set => if set.1 = .pos then set.2 else w) s.motors }

/-- A tick with a position to go to: the position is read, and the motors are set. -/
theorem IdealChassis.handle_pos {s : IdealChassis} (hoff : s.chassis.offset.pos = .zero)
    (hrun : s.chassis.runStatus = .pos) (speed : Wheels) :
    (s.handle speed).chassis.present.pos = posOf s.motors ∧
      (s.handle speed).motors = wheelsAt s.chassis.target.pos ∧
      (s.handle speed).chassis.target.pos = s.chassis.target.pos ∧
      (s.handle speed).chassis.offset.pos = .zero ∧
      (s.handle speed).chassis.runStatus = .pos := by
  obtain ⟨hpos, htar, hoff'⟩ := chassisHandle_frame hoff speed s.motors
  have hstatus : (chassisHandle s.chassis speed s.motors).1.runStatus = .pos ∧
      (chassisHandle s.chassis speed s.motors).2 = [(.pos, wheelsAt s.chassis.target.pos)] := by
    simp [chassisHandle, chassisUpdata, chassisUpdataOffset, moduleMaiInput, hrun, chassisDrvSet,
      moduleMaiOutput, ChassisPos.zero, wheelsAt]
  refine ⟨hpos, ?_, congrArg ChassisData.pos htar, hoff', hstatus.1⟩
  simp only [handle, hstatus.2]
  rfl

/-- From the first tick on the motors are at the target, and from the second on the position is. -/
theorem IdealChassis.handles_pos {s : IdealChassis} (hoff : s.chassis.offset.pos = .zero)
    (hrun : s.chassis.runStatus = .pos) (hmot : s.motors = wheelsAt s.chassis.target.pos)
    {speeds : List Wheels} (hne : speeds ≠ []) :
    chassisGetPos (speeds.foldl handle s).chassis = s.chassis.target.pos := by
  induction speeds generalizing s with
  | nil => exact absurd rfl hne
  | cons speed speeds ih =>
    obtain ⟨hpos, hmot', htar, hoff', hrun'⟩ := handle_pos hoff hrun speed
    rw [List.foldl_cons]
    by_cases hlast : speeds = []
    · subst hlast
      rw [List.foldl_nil, chassisGetPos, hpos, hmot, posOf_wheelsAt]
    · rw [ih hoff' hrun' (hmot'.trans (congrArg wheelsAt htar).symm) hlast, htar]

/-- The wheel vector `v` is the orthogonal projection of `w` to those that belong to a position. -/
structure Wheels.Projects (w v : Wheels) : Prop where
  mem : v.motor1 + v.motor3 = v.motor2 + v.motor4
  orthogonal : ∀ u : Wheels, u.motor1 + u.motor3 = u.motor2 + u.motor4 →
    (w.motor1 - v.motor1) * u.motor1 + (w.motor2 - v.motor2) * u.motor2 +
      (w.motor3 - v.motor3) * u.motor3 + (w.motor4 - v.motor4) * u.motor4 = 0

/-- A projection is the vector itself, if that belongs to a position. -/
theorem Wheels.Projects.eq_self {w v : Wheels} (h : w.Projects v)
    (hw : w.motor1 + w.motor3 = w.motor2 + w.motor4) : v = w := by
  have hmem := h.mem
  -- the difference is orthogonal to itself
  have hself := h.orthogonal ⟨w.motor1 - v.motor1, w.motor2 - v.motor2, w.motor3 - v.motor3,
    w.motor4 - v.motor4⟩ (by dsimp only; linarith)
  dsimp only at hself
  have h1 := mul_self_nonneg (w.motor1 - v.motor1)
  have h2 := mul_self_nonneg (w.motor2 - v.motor2)
  have h3 := mul_self_nonneg (w.motor3 - v.motor3)
  have h4 := mul_self_nonneg (w.motor4 - v.motor4)
  have e1 : w.motor1 - v.motor1 = 0 := mul_self_eq_zero.mp (by linarith)
  have e2 : w.motor2 - v.motor2 = 0 := mul_self_eq_zero.mp (by linarith)
  have e3 : w.motor3 - v.motor3 = 0 := mul_self_eq_zero.mp (by linarith)
  have e4 : w.motor4 - v.motor4 = 0 := mul_self_eq_zero.mp (by linarith)
  obtain ⟨w1, w2, w3, w4⟩ := w
  obtain ⟨v1, v2, v3, v4⟩ := v
  simp only [Wheels.mk.injEq]
  exact ⟨by linarith, by linarith, by linarith, by linarith⟩

/-- The wheels of the position that wheels stand for: each differs by a quarter of the excess. -/
theorem wheelsAt_posOf (w : Wheels) :
    wheelsAt (posOf w) =
      let e := (w.motor1 + w.motor3 - w.motor2 - w.motor4) / 4
      ⟨w.motor1 - e, w.motor2 + e, w.motor3 - e, w.motor4 + e⟩ := by
  have hc := conversion_pos.ne'
  have hh := chassisHalfAB_pos.ne'
  simp only [wheelsAt, posOf, Wheels.mk.injEq]
  refine ⟨?_, ?_, ?_, ?_⟩ <;> field_simp <;> ring

theorem projects_wheelsAt_posOf (w : Wheels) : w.Projects (wheelsAt (posOf w)) := by
  rw [wheelsAt_posOf]
  refine ⟨by dsimp only; ring, fun u hu => ?_⟩
  dsimp only
  linear_combination ((w.motor1 + w.motor3 - w.motor2 - w.motor4) / 4) * hu

/-- The `input` part of `module_mai` for the position, with the result as the target of the
`output` part. -/
def moduleMaiThroughPos (chassis : Chassis) (w : Wheels) : Wheels :=
  let chassis := moduleMaiInput { chassis with date := w } .pos
  (moduleMaiOutput (chassisSetPos chassis chassis.present.pos) .pos).date

theorem moduleMaiThroughPos_eq {chassis : Chassis} (h : chassis.Centered) (w : Wheels) :
    moduleMaiThroughPos chassis w = wheelsAt (posOf w) := by
  have hoff : chassis.offset.pos = .zero := congrArg ChassisData.pos h
  simp [moduleMaiThroughPos, moduleMaiInput, moduleMaiOutput, chassisSetPos, hoff,
    ChassisPos.zero, wheelsAt, posOf]

/-- Positions over exact rationals, without an offset. With motors that are where they were told to
be, `chassis_set_pos` and at least two ticks bring the position to the target, from any state of
the chassis and of the motors. And `module_mai` takes wheels through the position back to the same
wheels, if they belong to a position, and else to their projection. -/
theorem posKinematics_roundTrip :
    (∀ (s : IdealChassis) (target : ChassisPos ℚ) (speeds : List Wheels),
      s.chassis.Centered → 2 ≤ speeds.length →
      chassisGetPos (speeds.foldl IdealChassis.handle
        { s with chassis := chassisSetPos s.chassis target }).chassis = target) ∧
    (∀ (chassis : Chassis) (w : Wheels), chassis.Centered →
      w.motor1 + w.motor3 = w.motor2 + w.motor4 → moduleMaiThroughPos chassis w = w) ∧
    (∀ (chassis : Chassis) (w : Wheels), chassis.Centered →
      w.Projects (moduleMaiThroughPos chassis w)) := by
  refine ⟨fun s target speeds hoff hlen => ?_, fun chassis w hoff hw => ?_,
    fun chassis w hoff => ?_⟩
  · cases speeds with
    | nil => simp at hlen
    | cons speed speeds =>
      have hoff₀ : (chassisSetPos s.chassis target).offset.pos = .zero :=
        congrArg ChassisData.pos hoff
      obtain ⟨-, hmot, htar, hoff₁, hrun⟩ := IdealChassis.handle_pos
        (s := { s with chassis := chassisSetPos s.chassis target }) hoff₀ rfl speed
      rw [List.foldl_cons, IdealChassis.handles_pos hoff₁ hrun
        (hmot.trans (congrArg wheelsAt htar).symm) (by rintro rfl; simp at hlen), htar]
      rfl
  · rw [moduleMaiThroughPos_eq hoff]
    exact (projects_wheelsAt_posOf w).eq_self hw
  · rw [moduleMaiThroughPos_eq hoff]
    exact projects_wheelsAt_posOf w

/-- From rest to the position one metre ahead, in two ticks. -/
theorem posKinematics_roundTrip_ahead :
    chassisGetPos ([⟨0, 0, 0, 0⟩, ⟨0, 0, 0, 0⟩].foldl IdealChassis.handle
      ⟨chassisSetPos .zero ⟨0, 1, 0⟩, ⟨0, 0, 0, 0⟩⟩).chassis = ⟨0, 1, 0⟩ :=
  posKinematics_roundTrip.1 ⟨.zero, ⟨0, 0, 0, 0⟩⟩ ⟨0, 1, 0⟩ _ rfl (by decide)

/-! ## Speeds -/

/-- The wheel speeds that `module_mai` gives for the speed `v`. -/
def moduleMaiSpeeds (chassis : Chassis) (v : ChassisPos ℚ) : Wheels :=
  (moduleMaiOutput (chassisSetSpeed chassis v) .speed).date

/-- They go through its `input` part for the speed. -/
def moduleMaiThroughSpeed (chassis : Chassis) (v : ChassisPos ℚ) : ChassisPos ℚ :=
  chassisGetSpeed (moduleMaiInput (moduleMaiOutput (chassisSetSpeed chassis v) .speed) .speed)

theorem chassis2PiR_pos : 0 < chassis2PiR := by
  norm_num [chassis2PiR, chassisMaiWhellRM]

/-- The conversion to rpm, applied twice. -/
def rpmTwice : ℚ := 60 / chassis2PiR * (60 / chassis2PiR)

theorem one_lt_rpmTwice : 1 < rpmTwice := by
  norm_num [rpmTwice, chassis2PiR, chassisMaiWhellRM]

theorem moduleMaiSpeeds_eq {chassis : Chassis} (h : chassis.Centered) (v : ChassisPos ℚ) :
    moduleMaiSpeeds chassis v =
      let a := -((v.x - v.y) - v.z * chassisHalfAB) / chassis2PiR * 60
      let b := -((v.x + v.y) - v.z * chassisHalfAB) / chassis2PiR * 60
      ⟨a, b, b, a⟩ := by
  have hoff : chassis.offset.speed = .zero := congrArg ChassisData.speed h
  simp [moduleMaiSpeeds, moduleMaiOutput, chassisSetSpeed, hoff, ChassisPos.zero]

theorem moduleMaiThroughSpeed_eq {chassis : Chassis} (h : chassis.Centered) (v : ChassisPos ℚ) :
    moduleMaiThroughSpeed chassis v =
      ⟨v.y * rpmTwice, v.y * rpmTwice,
        (v.x + v.y - v.z * chassisHalfAB) * rpmTwice / chassisHalfAB⟩ := by
  have hr := chassis2PiR_pos.ne'
  have hh := chassisHalfAB_pos.ne'
  have hoff : chassis.offset.speed = .zero := congrArg ChassisData.speed h
  simp only [moduleMaiThroughSpeed, moduleMaiOutput, moduleMaiInput, chassisSetSpeed,
    chassisGetSpeed, hoff, ChassisPos.zero, ChassisPos.mk.injEq, add_zero, zero_add, rpmTwice]
  refine ⟨?_, ?_, ?_⟩ <;> field_simp <;> ring

/-- Only the zero command comes back. -/
theorem moduleMaiThroughSpeed_eq_self {chassis : Chassis} (h : chassis.Centered)
    (v : ChassisPos ℚ) : moduleMaiThroughSpeed chassis v = v ↔ v = .zero := by
  have hh := chassisHalfAB_pos
  have hk := one_lt_rpmTwice
  rw [moduleMaiThroughSpeed_eq h]
  constructor
  · intro heq
    obtain ⟨x, y, z⟩ := v
    simp only [ChassisPos.mk.injEq] at heq
    obtain ⟨hx, hy, hz⟩ := heq
    have hy0 : y = 0 := by
      have : y * (rpmTwice - 1) = 0 := by linarith
      exact (mul_eq_zero.mp this).resolve_right (by linarith)
    have hx0 : x = 0 := by
      rw [hy0] at hx
      linarith
    have hz0 : z = 0 := by
      rw [hx0, hy0, div_eq_iff hh.ne'] at hz
      have : z * (chassisHalfAB * (rpmTwice + 1)) = 0 := by linarith
      exact (mul_eq_zero.mp this).resolve_right (mul_pos hh (by linarith)).ne'
    rw [hx0, hy0, hz0]
    rfl
  · rintro rfl
    simp [ChassisPos.zero]

/-- What the wheel speeds know of a command. -/
theorem moduleMaiSpeeds_inj {chassis : Chassis} (h : chassis.Centered) (v v' : ChassisPos ℚ) :
    moduleMaiSpeeds chassis v = moduleMaiSpeeds chassis v' ↔
      v.y = v'.y ∧ v.x - v.z * chassisHalfAB = v'.x - v'.z * chassisHalfAB := by
  have hr := chassis2PiR_pos
  rw [moduleMaiSpeeds_eq h, moduleMaiSpeeds_eq h]
  simp only [Wheels.mk.injEq]
  constructor
  · rintro ⟨ha, hb, -⟩
    have ha' := (div_left_inj' hr.ne').mp (mul_right_cancel₀ (by norm_num) ha)
    have hb' := (div_left_inj' hr.ne').mp (mul_right_cancel₀ (by norm_num) hb)
    exact ⟨by linarith, by linarith⟩
  · rintro ⟨hy, hxz⟩
    have ha : v.x - v.y - v.z * chassisHalfAB = v'.x - v'.y - v'.z * chassisHalfAB := by linarith
    have hb : v.x + v.y - v.z * chassisHalfAB = v'.x + v'.y - v'.z * chassisHalfAB := by linarith
    rw [ha, hb]
    exact ⟨rfl, rfl, rfl, rfl⟩

/-- Speeds over exact rationals, without an offset: the wheel speeds for a command give the command
back exactly if it is zero, and two commands give the same wheel speeds exactly if they agree in
`y` and in `x - z * (a + b) / 2`. -/
theorem speedKinematics_roundTrip_iff (chassis : Chassis) (h : chassis.Centered) :
    (∀ v, moduleMaiThroughSpeed chassis v = v ↔ v = .zero) ∧
    (∀ v v', moduleMaiSpeeds chassis v = moduleMaiSpeeds chassis v' ↔
      v.y = v'.y ∧ v.x - v.z * chassisHalfAB = v'.x - v'.z * chassisHalfAB) :=
  ⟨moduleMaiThroughSpeed_eq_self h, moduleMaiSpeeds_inj h⟩

/-- The chassis at rest. -/
theorem speedKinematics_roundTrip_iff_zero :
    (∀ v, moduleMaiThroughSpeed .zero v = v ↔ v = .zero) ∧
    (∀ v v', moduleMaiSpeeds .zero v = moduleMaiSpeeds .zero v' ↔
      v.y = v'.y ∧ v.x - v.z * chassisHalfAB = v'.x - v'.z * chassisHalfAB) :=
  speedKinematics_roundTrip_iff .zero rfl

/-- One metre a second in `x`: it comes back as a rotation, and a rotation alone gives the same
wheel speeds. -/
theorem speedKinematics_lost :
    moduleMaiThroughSpeed .zero ⟨1, 0, 0⟩ ≠ ⟨1, 0, 0⟩ ∧
      moduleMaiSpeeds .zero ⟨1, 0, 0⟩ = moduleMaiSpeeds .zero ⟨0, 0, -1 / chassisHalfAB⟩ := by
  decide +kernel

end Robot
