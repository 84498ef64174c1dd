import ConstructionRobot.Manager.Basic
import Mathlib.Algebra.Order.Field.Rat
import Mathlib.Tactic.FieldSimp
import Mathlib.Tactic.Linarith
import Mathlib.Tactic.NormNum
import Mathlib.Tactic.Ring

/-!
# The chassis (`chassis.c`, `chassis_module_mai.c`)

Four wheels move the chassis in three directions. `module_mai` computes the values of the wheels
from the target, and the position and the speed of the chassis from the values of the wheels.
`float` is modelled by exact rationals; `PI` is `6.28318530718 / 2`, as it is written.

The eight formulas for the wheels do not agree. A wheel turns by `6 * n` degrees in a second at `n`
rpm, but for a movement to the side the wheels 1 and 2 turn the other way in the speed formulas,
and for a rotation all four do.

* `moduleMai_speed_eq_pos_iff`: when a speed and the displacement in a second turn every wheel the
  same way.
* `chassisHandle_frame`: what a tick of the chassis does to the position.
* `posOf_wheelsAt`: the wheels can report any position.
-/

namespace Robot

/-- `chassis_status`. -/
inductive ChassisStatus where
  | idle
  | speed
  | pos
  deriving DecidableEq, Repr

/-- `chassis_data_t`. -/
structure ChassisData where
  speed : ChassisPos ℚ
  pos : ChassisPos ℚ
  deriving DecidableEq, Repr

/-- The values of the four wheels. -/
structure Wheels where
  motor1 : ℚ
  motor2 : ℚ
  motor3 : ℚ
  motor4 : ℚ
  deriving DecidableEq, Repr

/-- `chassis_t`, with the object that `ops->date` points to. No function reads its `type`. -/
structure Chassis where
  target : ChassisData
  present : ChassisData
  runStatus : ChassisStatus
  offset : ChassisData
  date : Wheels
  deriving DecidableEq, Repr

/-- Three zeros. -/
def ChassisPos.zero : ChassisPos ℚ := ⟨0, 0, 0⟩

/-- `chassis_set_pos`. -/
def chassisSetPos (chassis : Chassis) (data : ChassisPos ℚ) : Chassis :=
  { chassis with target.pos := data, runStatus := .pos }

/-- `chassis_set_speed`. -/
def chassisSetSpeed (chassis : Chassis) (data : ChassisPos ℚ) : Chassis :=
  { chassis with target.speed := data, runStatus := .speed }

/-- `chassis_pos_clean`. -/
def chassisPosClean (chassis : Chassis) : Chassis :=
  { chassis with present.pos := chassis.target.pos }

/-- `chassis_sub_callback`, with the message from the topic. -/
def chassisSubCallback (chassis : Chassis) (ctrl : ChassisCtrl ℚ) : Chassis :=
  if ctrl.type = 0 then chassisSetSpeed chassis ctrl.pos else chassisSetPos chassis ctrl.pos

/-! ## `module_mai` -/

/-- `CHASSIS_MAI_WHELL_R_M`. -/
def chassisMaiWhellRM : ℚ := 0.07 / 2

/-- `CHASSIS_HALF_A_B`. -/
def chassisHalfAB : ℚ := 0.5 * (0.1235 + 0.1775)

/-- `PI`. -/
def chassisPi : ℚ := 3.14159265359

/-- `CHASSIS_2PIR`. -/
def chassis2PiR : ℚ := 6.28318530718 * chassisMaiWhellRM

/-- `conversion`. -/
def conversion : ℚ := 180 / chassisMaiWhellRM / chassisPi

/-- The `output` part of `module_mai`: the wheels for the target. -/
def moduleMaiOutput (chassis : Chassis) : ChassisStatus → Chassis
  | .speed =>
    let x := chassis.target.speed.x + chassis.offset.speed.x
    let y := chassis.target.speed.y + chassis.offset.speed.y
    let z := chassis.target.speed.z + chassis.offset.speed.z
    { chassis with
      date.motor1 := -((x - y) - z * chassisHalfAB) / chassis2PiR * 60
      date.motor2 := -((x + y) - z * chassisHalfAB) / chassis2PiR * 60
      date.motor3 := -((x + y) - z * chassisHalfAB) / chassis2PiR * 60
      date.motor4 := -((x - y) - z * chassisHalfAB) / chassis2PiR * 60 }
  | .pos =>
    let x := chassis.target.pos.x + chassis.offset.pos.x
    let y := chassis.target.pos.y + chassis.offset.pos.y
    let z := chassis.target.pos.z + chassis.offset.pos.z
    { chassis with
      date.motor1 := ((x + y) - z * chassisHalfAB) * conversion
      date.motor2 := ((x - y) - z * chassisHalfAB) * conversion
      date.motor3 := ((-x - y) - z * chassisHalfAB) * conversion
      date.motor4 := ((-x + y) - z * chassisHalfAB) * conversion }
  | .idle => chassis

/-- The `input` part of `module_mai`: what the wheels say about the chassis. -/
def moduleMaiInput (chassis : Chassis) : ChassisStatus → Chassis
  | .speed =>
    let w := chassis.date
    { chassis with
      present.speed.x :=
        chassis.offset.speed.x + ((w.motor1 - w.motor2) / chassis2PiR * 60) / 2
      present.speed.y :=
        chassis.offset.speed.y + ((-w.motor2 + w.motor4) / chassis2PiR * 60) / 2
      present.speed.z :=
        chassis.offset.speed.z +
          (-(w.motor3 + w.motor2) / chassis2PiR * 60) / (2 * chassisHalfAB) }
  | .pos =>
    let w := chassis.date
    { chassis with
      present.pos.x :=
        chassis.offset.pos.x + (w.motor1 + w.motor2 - w.motor3 - w.motor4) / 4 / conversion
      present.pos.y :=
        chassis.offset.pos.y + (w.motor1 - w.motor2 - w.motor3 + w.motor4) / 4 / conversion
      present.pos.z :=
        chassis.offset.pos.z -
          (w.motor1 + w.motor2 + w.motor3 + w.motor4) / chassisHalfAB / 4 / conversion }
  | .idle => chassis

/-! ## `chassis_handle` -/

/-- `chassis_updata_speed` and `chassis_updata_pos`: `driver_mai` reads the wheels. -/
def chassisUpdata (chassis : Chassis) (wheels : Wheels) (cmd : ChassisStatus) : Chassis :=
  moduleMaiInput { chassis with date := wheels } cmd

/-- `chassis_updata_offset`. -/
def chassisUpdataOffset (chassis : Chassis) : Chassis :=
  { chassis with offset.pos := .zero }

/-- `chassis_drv_set_speed` and `chassis_drv_set_pos`: the values that `driver_mai` gives to the
motors. -/
def chassisDrvSet (chassis : Chassis) (cmd : ChassisStatus) : Chassis × List (ChassisStatus × Wheels) :=
  let chassis := moduleMaiOutput chassis cmd
  (chassis, [(cmd, chassis.date)])

/-- `chassis_handle`. `speed` and `pos` are what the motors report, and the result has what they
are set to. -/
def chassisHandle (chassis : Chassis) (speed pos : Wheels) :
    Chassis × List (ChassisStatus × Wheels) :=
  let chassis := chassisUpdata chassis speed .speed
  let chassis := chassisUpdata chassis pos .pos
  let chassis := chassisUpdataOffset chassis
  match chassis.runStatus with
  | .idle => (chassis, [])
  | .speed => chassisDrvSet chassis .speed
  | .pos => chassisDrvSet chassis .pos

/-! ## Speeds and displacements -/

theorem conversion_pos : 0 < conversion := by
  norm_num [conversion, chassisMaiWhellRM, chassisPi]

theorem chassisHalfAB_pos : 0 < chassisHalfAB := by norm_num [chassisHalfAB]

/-- Six degrees in a second per rpm, in the units of the two formulas. -/
theorem rpm_to_degree (q : ℚ) : 6 * (q / chassis2PiR * 60) = q * conversion := by
  rw [chassis2PiR, conversion, chassisMaiWhellRM, chassisPi]
  ring

/-- A chassis without an offset, with the target `v` as a speed and as a position. -/
def Chassis.towards (chassis : Chassis) (v : ChassisPos ℚ) : Chassis :=
  { chassis with target := ⟨v, v⟩, offset := ⟨.zero, .zero⟩ }

/-- For every target: the wheel speeds in rpm, times 6, are the wheel angles of the displacement
exactly if the chassis neither moves to the side nor turns. -/
theorem moduleMai_speed_eq_pos_iff (chassis : Chassis) (v : ChassisPos ℚ) :
    (let speed := (moduleMaiOutput (chassis.towards v) .speed).date
     let angle := (moduleMaiOutput (chassis.towards v) .pos).date
     6 * speed.motor1 = angle.motor1 ∧ 6 * speed.motor2 = angle.motor2 ∧
       6 * speed.motor3 = angle.motor3 ∧ 6 * speed.motor4 = angle.motor4) ↔
      v.x = 0 ∧ v.z = 0 := by
  have hc := conversion_pos.ne'
  have hh := chassisHalfAB_pos
  simp only [moduleMaiOutput, Chassis.towards, ChassisPos.zero, add_zero, rpm_to_degree,
    mul_left_inj' hc]
  constructor
  · rintro ⟨h1, -, h3, -⟩
    have hz : v.z * chassisHalfAB = 0 := by linarith
    have hz : v.z = 0 := (mul_eq_zero.mp hz).resolve_right hh.ne'
    rw [hz] at h1
    exact ⟨by linarith, hz⟩
  · rintro ⟨hx, hz⟩
    rw [hx, hz]
    refine ⟨?_, ?_, ?_, ?_⟩ <;> ring

/-- A rotation of one radian in a second turns wheel 3 one way, and a rotation of one radian turns
it the other way. -/
theorem moduleMai_speed_ne_pos : ¬∀ (chassis : Chassis) (v : ChassisPos ℚ),
    let speed := (moduleMaiOutput (chassis.towards v) .speed).date
    let angle := (moduleMaiOutput (chassis.towards v) .pos).date
    6 * speed.motor1 = angle.motor1 ∧ 6 * speed.motor2 = angle.motor2 ∧
      6 * speed.motor3 = angle.motor3 ∧ 6 * speed.motor4 = angle.motor4 := by
  intro h
  have h3 := (h ⟨⟨.zero, .zero⟩, ⟨.zero, .zero⟩, .idle, ⟨.zero, .zero⟩, ⟨0, 0, 0, 0⟩⟩
    ⟨0, 0, 1⟩).2.2.1
  exact absurd h3 (by decide +kernel)

/-! ## Positions -/

/-- The wheel angles of a position. -/
def wheelsAt (p : ChassisPos ℚ) : Wheels where
  motor1 := ((p.x + p.y) - p.z * chassisHalfAB) * conversion
  motor2 := ((p.x - p.y) - p.z * chassisHalfAB) * conversion
  motor3 := ((-p.x - p.y) - p.z * chassisHalfAB) * conversion
  motor4 := ((-p.x + p.y) - p.z * chassisHalfAB) * conversion

/-- The position that wheel angles stand for. -/
def posOf (w : Wheels) : ChassisPos ℚ where
  x := (w.motor1 + w.motor2 - w.motor3 - w.motor4) / 4 / conversion
  y := (w.motor1 - w.motor2 - w.motor3 + w.motor4) / 4 / conversion
  z := -((w.motor1 + w.motor2 + w.motor3 + w.motor4) / chassisHalfAB / 4 / conversion)

theorem posOf_wheelsAt (p : ChassisPos ℚ) : posOf (wheelsAt p) = p := by
  have hc := conversion_pos.ne'
  have hh := chassisHalfAB_pos.ne'
  obtain ⟨x, y, z⟩ := p
  simp only [posOf, wheelsAt, ChassisPos.mk.injEq]
  refine ⟨?_, ?_, ?_⟩ <;> field_simp <;> ring

/-- A tick refreshes the position from the wheels. It leaves the target and the offset. -/
theorem chassisHandle_frame {chassis : Chassis} (hoff : chassis.offset.pos = .zero)
    (speed pos : Wheels) :
    (chassisHandle chassis speed pos).1.present.pos = posOf pos ∧
      (chassisHandle chassis speed pos).1.target = chassis.target ∧
      (chassisHandle chassis speed pos).1.offset.pos = .zero := by
  have hpos : (chassisUpdata (chassisUpdata chassis speed .speed) pos .pos).present.pos =
      posOf pos := by
    simp [chassisUpdata, moduleMaiInput, hoff, ChassisPos.zero, posOf]
  unfold chassisHandle
  simp only
  split
  · exact ⟨hpos, rfl, rfl⟩
  · exact ⟨hpos, rfl, rfl⟩
  · exact ⟨hpos, rfl, rfl⟩

end Robot
