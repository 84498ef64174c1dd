import ConstructionRobot.Robotarm.Geometry

/-!
# The loop of the arm (`arduino_main.cpp`, shell commands of `drv_stepper_motor.c`)

Every 500 ms `loop` starts a move to the target (`ymm`, `zmm`) from the end of the last move,
updates the position once, and turns it into the pulses of the two shanks. The target is set by
shell commands.

* `ArmState`, `setup`, `loop`, `ArmState.step`: the program.
* `reports_allowed`: with floats of any kind, what is reported was accepted.
* `arm_runs`: with exact floats no loop faults, and the pulses are those of the position up to what
  the conversion to integers cuts off.
-/

namespace Robot

namespace Robotarm

open Libm

section Model

variable {F : Type} [Libm F]

/-- The variables of the sketch. `radToStepFactor` has its value from `setup` on. -/
structure ArmState (F : Type) where
  interpolator : Interpolation F
  geometry : RobotGeometry F
  ymm : F
  zmm : F
  abigArmPulse : ℤ
  asmallArmPulse : ℤ

def radToStepFactor : F := (lit 90 / lit 20) * lit (16 * 200) / lit 2 / pi

/-- `INITIAL_X`, `INITIAL_Y`, `INITIAL_Z` and `INITIAL_E0`. -/
def initialPoint : Point F :=
  ⟨lit 0, highShankLength + endEffectorOffset, lowShankLength, lit 0⟩

/-- `setup`, at the time `micros`. -/
def setup (micros : ℤ) : ArmState F where
  interpolator :=
    { Interpolation.setInterpolation .init initialPoint initialPoint (lit 0) micros with
      speedProfile := 0 }
  geometry := .init
  ymm := initialPoint.ymm
  zmm := initialPoint.zmm
  abigArmPulse := 0
  asmallArmPulse := 0

/-- The interpolator at the start of a loop, and after the update: `micros₁` is the time of the
start, `micros₂` that of the update. -/
def ArmState.began (s : ArmState F) (micros₁ : ℤ) : Interpolation F :=
  s.interpolator.setInterpolationTo ⟨lit 0, s.ymm, s.zmm, lit 0⟩ (lit 5) micros₁
def ArmState.move (s : ArmState F) (micros₁ micros₂ : ℤ) : Call (Interpolation F) :=
  (s.began micros₁).updateActualPosition micros₂

/-- `loop`. -/
def ArmState.loop (s : ArmState F) (micros₁ micros₂ : ℤ) : Call (ArmState F) := do
  let interpolator ← s.move micros₁ micros₂
  let geometry :=
    s.geometry.set interpolator.pos.xmm interpolator.pos.ymm interpolator.pos.zmm
  let bigArmTargetPosition ← toInt32 (geometry.low * radToStepFactor)
  let smallArmTargetPosition ← toInt32 (geometry.high * radToStepFactor)
  pure { s with
    interpolator := interpolator
    geometry := geometry
    abigArmPulse := bigArmTargetPosition
    asmallArmPulse := sint 32 (smallArmTargetPosition - 3600) }

/-- What happens to the sketch: a loop, or a command of the shell. -/
inductive ArmEvent (F : Type) where
  | loop (micros₁ micros₂ : ℤ)
  | armYAdd20
  | armYReduce20
  | armZAdd20
  | armZReduce20
  | armCtrl (ymm zmm : F)

/-- What a loop gives to the motors, and the position that it is for. -/
structure ArmReport (F : Type) where
  pos : Point F
  big : ℤ
  small : ℤ

def ArmState.report (s : ArmState F) : ArmReport F :=
  ⟨s.interpolator.pos, s.abigArmPulse, s.asmallArmPulse⟩

def ArmState.step (s : ArmState F) :
    ArmEvent F → Option (ArmState F × List (ArmReport F))
  | .loop micros₁ micros₂ => (s.loop micros₁ micros₂).ret?.map fun s => (s, [s.report])
  | .armYAdd20 => some ({ s with ymm := s.ymm + lit 20 }, [])
  | .armYReduce20 => some ({ s with ymm := s.ymm - lit 20 }, [])
  | .armZAdd20 => some ({ s with zmm := s.zmm + lit 20 }, [])
  | .armZReduce20 => some ({ s with zmm := s.zmm - lit 20 }, [])
  | .armCtrl ymm zmm => some ({ s with ymm := ymm, zmm := zmm }, [])

/-! ## Any floats -/

namespace Interpolation

/-- The part of the way in the flat speed profile. -/
def flatProgress (it : Interpolation F) (micros : ℤ) : F :=
  let progress := it.elapsed micros * it.tmul
  if le (lit 1) progress then lit 1 else progress

/-- What an update can do in the flat profile: it takes the point of the line, or ends the move. -/
theorem updateActualPosition_flat (it : Interpolation F) (hstate : it.state = 0)
    (hprofile : it.speedProfile = 0) (micros : ℤ) :
    ∃ state, it.updateActualPosition micros = .ret
      (if isAllowedPosition (it.pointAt (it.flatProgress micros)) then
        { it with pos := it.pointAt (it.flatProgress micros), state := state }
      else { it with state := 1, start := it.pos, delta := zeroPoint }) := by
  have hprogress : progress it.speedProfile (it.elapsed micros) it.tmul =
      .ret (it.flatProgress micros, le (lit 1) (it.elapsed micros * it.tmul)) := by
    rw [hprofile]
    simp only [progress, flatProgress]
    split
    · rename_i hle
      rw [hle]
    · rename_i hle
      rw [Bool.not_eq_true] at hle
      rw [hle]
  refine ⟨if le (lit 1) (it.elapsed micros * it.tmul) then 1 else it.state, ?_⟩
  rw [updateActualPosition, if_neg (by simp [hstate]), hprogress, Call.ret_bind]
  dsimp only
  split <;> rfl

end Interpolation

namespace ArmState

variable {s s' : ArmState F}

/-- The point of the line that a loop tries. -/
def wayPoint (s : ArmState F) (micros₁ micros₂ : ℤ) : Point F :=
  (s.began micros₁).pointAt ((s.began micros₁).flatProgress micros₂)

/-- The interpolator after a loop that takes its point. -/
structure Accepts (s : ArmState F) (micros₁ micros₂ : ℤ) (it : Interpolation F) : Prop where
  allowed : Interpolation.isAllowedPosition (s.wayPoint micros₁ micros₂) = true
  pos : it.pos = s.wayPoint micros₁ micros₂
  start : it.start = (s.began micros₁).start
  delta : it.delta = (s.began micros₁).delta

/-- The interpolator after a loop that does not: the next move starts where the arm is. -/
structure Rejects (s : ArmState F) (micros₁ micros₂ : ℤ) (it : Interpolation F) : Prop where
  refused : Interpolation.isAllowedPosition (s.wayPoint micros₁ micros₂) = false
  pos : it.pos = s.interpolator.pos
  start : it.start = s.interpolator.pos
  delta : it.delta = zeroPoint

theorem move_cases (h : s.interpolator.speedProfile = 0) (micros₁ micros₂ : ℤ) :
    ∃ it, s.move micros₁ micros₂ = .ret it ∧ it.speedProfile = 0 ∧
      (s.Accepts micros₁ micros₂ it ∨ s.Rejects micros₁ micros₂ it) := by
  have hprofile : (s.began micros₁).speedProfile = 0 := h
  obtain ⟨state, hupdate⟩ :=
    Interpolation.updateActualPosition_flat (s.began micros₁) rfl hprofile micros₂
  rw [← wayPoint] at hupdate
  cases hallowed : Interpolation.isAllowedPosition (s.wayPoint micros₁ micros₂) with
  | true =>
    rw [if_pos hallowed] at hupdate
    exact ⟨_, hupdate, hprofile, .inl ⟨hallowed, rfl, rfl, rfl⟩⟩
  | false =>
    rw [if_neg (by rw [hallowed]; decide)] at hupdate
    exact ⟨_, hupdate, hprofile, .inr ⟨hallowed, rfl, rfl, rfl⟩⟩

/-- A loop that returns moves the interpolator and reports its position. -/
theorem loop_ret {micros₁ micros₂ : ℤ} (h : s.loop micros₁ micros₂ = .ret s') :
    ∃ it, s.move micros₁ micros₂ = .ret it ∧ s'.interpolator = it ∧ s'.ymm = s.ymm ∧
      s'.zmm = s.zmm := by
  obtain ⟨it, hmove, h⟩ := Call.bind_eq_ret.mp h
  obtain ⟨big, -, h⟩ := Call.bind_eq_ret.mp h
  obtain ⟨small, -, h⟩ := Call.bind_eq_ret.mp h
  rw [Call.pure_eq, Call.ret.injEq] at h
  exact ⟨it, hmove, by rw [← h], by rw [← h], by rw [← h]⟩

/-- The flat profile, and a position that was accepted or is the first. -/
structure Safe (s : ArmState F) : Prop where
  profile : s.interpolator.speedProfile = 0
  pos : s.interpolator.pos = zeroPoint ∨
    Interpolation.isAllowedPosition s.interpolator.pos = true

theorem setup_safe (micros : ℤ) : (setup micros : ArmState F).Safe := ⟨rfl, .inl rfl⟩

theorem Safe.move (h : s.Safe) {micros₁ micros₂ : ℤ} {it : Interpolation F}
    (hmove : s.move micros₁ micros₂ = .ret it) :
    it.speedProfile = 0 ∧ (it.pos = zeroPoint ∨ Interpolation.isAllowedPosition it.pos = true) := by
  obtain ⟨it', hmove', hprofile, hcase⟩ := move_cases h.profile micros₁ micros₂
  obtain rfl := Call.ret.inj (hmove.symm.trans hmove')
  refine ⟨hprofile, ?_⟩
  rcases hcase with hacc | hrej
  · rw [hacc.pos]
    exact .inr hacc.allowed
  · rw [hrej.pos]
    exact h.pos

/-- One event keeps the state safe, and reports such positions. -/
theorem Safe.step (h : s.Safe) {e : ArmEvent F} {l : List (ArmReport F)}
    (hstep : s.step e = some (s', l)) :
    s'.Safe ∧ ∀ r ∈ l, r.pos = zeroPoint ∨ Interpolation.isAllowedPosition r.pos = true := by
  cases e with
  | loop micros₁ micros₂ =>
    simp only [ArmState.step, Option.map_eq_some_iff, Call.ret?_eq_some, Prod.mk.injEq] at hstep
    obtain ⟨s₁, hloop, rfl, rfl⟩ := hstep
    obtain ⟨it, hmove, hit, -, -⟩ := loop_ret hloop
    obtain ⟨hprofile, hpos⟩ := h.move hmove
    rw [← hit] at hprofile hpos
    exact ⟨⟨hprofile, hpos⟩, by simpa [report] using hpos⟩
  | armYAdd20 | armYReduce20 | armZAdd20 | armZReduce20 | armCtrl ymm zmm =>
    simp only [ArmState.step, Option.some.injEq, Prod.mk.injEq] at hstep
    obtain ⟨rfl, rfl⟩ := hstep
    exact ⟨⟨h.profile, h.pos⟩, by simp⟩

end ArmState

/-- Floats of any kind: in every run of loops, at any times, and of shell commands, with any
targets, each position that is turned into pulses is one that `isAllowedPosition` accepts, or the
origin where the object starts. -/
theorem reports_allowed (micros : ℤ) (es : List (ArmEvent F)) (s : ArmState F)
    (log : List (ArmReport F)) (hrun : runLog ArmState.step (setup micros) es = some (s, log)) :
    ∀ r ∈ log, r.pos = zeroPoint ∨ Interpolation.isAllowedPosition r.pos = true := by
  have hstep : ∀ (s : ArmState F) e s₁ l₁, s.Safe → True → s.step e = some (s₁, l₁) →
      s₁.Safe ∧ ∀ r ∈ l₁, r.pos = zeroPoint ∨ Interpolation.isAllowedPosition r.pos = true :=
    fun s e s₁ l₁ h _ h₁ => h.step h₁
  exact (runLog_guarantee hstep (ArmState.setup_safe micros)
    (allSteps_of_forall (C := fun _ => True) fun _ _ => trivial) hrun).2

end Model

/-! ## Pulses -/

open XReal TwoLink

/-- The angles of the shanks for pulses: 7200 are half a turn, and the upper shank starts level. -/
noncomputable def bigAngle (pulse : ℤ) : ℝ := pulse * (Real.pi / 7200)
noncomputable def smallAngle (pulse : ℤ) : ℝ := (pulse + 3600) * (Real.pi / 7200)

theorem radToStepFactor_eq : (radToStepFactor : XReal) = fin (7200 / Real.pi) := by
  simp only [radToStepFactor, fin_lit, fin_pi]
  rw [fin_div (by norm_num), fin_mul, fin_div (by norm_num), fin_div Real.pi_ne_zero]
  congr 1
  norm_num

/-- What the conversion cuts off is less than a pulse. -/
theorem pulse_error (a : ℝ) : |bigAngle (cut (a * (7200 / Real.pi))) - a| ≤ Real.pi / 7200 := by
  have hpi := Real.pi_pos
  have hcut := cut_error (a * (7200 / Real.pi))
  have hscale : bigAngle (cut (a * (7200 / Real.pi))) - a =
      (cut (a * (7200 / Real.pi)) - a * (7200 / Real.pi)) * (Real.pi / 7200) := by
    unfold bigAngle
    field_simp
  rw [hscale, abs_mul, abs_of_pos (by positivity : 0 < Real.pi / 7200)]
  exact mul_le_of_le_one_left (by positivity) hcut

theorem smallAngle_eq (n : ℤ) : smallAngle (n - 3600) = bigAngle n := by
  unfold smallAngle bigAngle
  push_cast
  ring

section Angles

variable {x y z : ℝ}

theorem lowAngle_abs_le : |lowAngle x y z| ≤ 2 * Real.pi := by
  have hpi := Real.pi_pos
  have hlift : 0 ≤ lift 120 120 (shankReach x y z) ∧ lift 120 120 (shankReach x y z) ≤ Real.pi :=
    ⟨Real.arccos_nonneg _, Real.arccos_le_pi _⟩
  have hdir : 0 ≤ direction x y z ∧ direction x y z ≤ Real.pi + Real.pi / 2 := by
    unfold direction
    split
    · exact ⟨Real.arccos_nonneg _, (Real.arccos_le_pi _).trans (by linarith)⟩
    · have hlow := Real.neg_pi_div_two_le_arcsin (shankRadius x y / shankReach x y z)
      have hhigh := Real.arcsin_le_pi_div_two (shankRadius x y / shankReach x y z)
      constructor <;> linarith
  unfold lowAngle
  rw [abs_le]
  constructor <;> linarith

theorem highAngle_abs_le : |highAngle x y z| ≤ 3 * Real.pi := by
  have hpi := Real.pi_pos
  have helbow : 0 ≤ elbow 120 120 (shankReach x y z) ∧
      elbow 120 120 (shankReach x y z) ≤ Real.pi :=
    ⟨Real.arccos_nonneg _, Real.arccos_le_pi _⟩
  have hlow := abs_le.mp (lowAngle_abs_le (x := x) (y := y) (z := z))
  unfold highAngle
  rw [abs_le]
  constructor <;> linarith

/-- Pulses of an angle of at most one and a half turns. -/
theorem pulses_abs_le {a : ℝ} (h : |a| ≤ 3 * Real.pi) : |a * (7200 / Real.pi)| ≤ 21600 := by
  have hpi := Real.pi_pos
  rw [abs_mul, abs_of_pos (by positivity : 0 < 7200 / Real.pi)]
  calc |a| * (7200 / Real.pi) ≤ 3 * Real.pi * (7200 / Real.pi) :=
        mul_le_mul_of_nonneg_right h (by positivity)
    _ = 21600 := by
        field_simp
        norm_num

/-- The pulses of the two angles. -/
theorem pulses_bounded : |cut (lowAngle x y z * (7200 / Real.pi))| ≤ 28800 ∧
    |cut (highAngle x y z * (7200 / Real.pi)) - 3600| ≤ 28800 := by
  have hpi := Real.pi_pos
  have hlow : |cut (lowAngle x y z * (7200 / Real.pi))| ≤ 21600 :=
    cut_abs_le (by exact_mod_cast pulses_abs_le (lowAngle_abs_le.trans (by linarith)))
  have hhigh : |cut (highAngle x y z * (7200 / Real.pi))| ≤ 21600 :=
    cut_abs_le (by exact_mod_cast pulses_abs_le highAngle_abs_le)
  have hrange := abs_le.mp hhigh
  exact ⟨hlow.trans (by norm_num), abs_le.mpr ⟨by linarith, by linarith⟩⟩

end Angles

/-- The pulses of a loop, for a position with a triangle. -/
theorem ArmState.loop_pulses {s : ArmState XReal} (hg : s.geometry.Configured)
    {micros₁ micros₂ : ℤ} {it : Interpolation XReal} (hmove : s.move micros₁ micros₂ = .ret it)
    {x y z : ℝ} (hx : it.pos.xmm = fin x) (hy : it.pos.ymm = fin y) (hz : it.pos.zmm = fin z)
    (ht : Triangle 120 120 (shankReach x y z)) :
    s.loop micros₁ micros₂ = .ret { s with
      interpolator := it
      geometry := s.geometry.set (fin x) (fin y) (fin z)
      abigArmPulse := cut (lowAngle x y z * (7200 / Real.pi))
      asmallArmPulse := cut (highAngle x y z * (7200 / Real.pi)) - 3600 } := by
  obtain ⟨hlow, hhigh⟩ := calculateGrad_shanks ht hg
  have hpi := Real.pi_pos
  have hbig := pulses_abs_le (lowAngle_abs_le.trans (by linarith) : |lowAngle x y z| ≤ 3 * Real.pi)
  have hsmall := pulses_abs_le (highAngle_abs_le (x := x) (y := y) (z := z))
  have hcut : |cut (highAngle x y z * (7200 / Real.pi))| ≤ 21600 :=
    cut_abs_le (hsmall.trans (by norm_num))
  have hrange := abs_le.mp hcut
  have hsint : sint 32 (cut (highAngle x y z * (7200 / Real.pi)) - 3600) =
      cut (highAngle x y z * (7200 / Real.pi)) - 3600 :=
    sint_eq_self (by decide) (by norm_num; linarith) (by norm_num; linarith)
  rw [ArmState.loop, hmove, Call.ret_bind]
  simp only [hx, hy, hz, hlow, hhigh, radToStepFactor_eq, fin_mul,
    fin_toInt32 (hbig.trans (by norm_num)), fin_toInt32 (hsmall.trans (by norm_num)),
    Call.ret_bind, Call.pure_eq, hsint]

/-! ## Runs with exact floats -/

theorem zeroPoint_eq : (zeroPoint : Point XReal) = ⟨fin 0, fin 0, fin 0, fin 0⟩ := by
  simp [zeroPoint]

/-- The origin is out of the limits, but the shanks reach it. -/
theorem origin_triangle : Triangle 120 120 (shankReach 0 0 0) := by
  have hreach : shankReach 0 0 0 = 47 := by
    have hradius : shankRadius 0 0 = -47 := by
      rw [shankRadius, radius, zero_pow two_ne_zero, add_zero, Real.sqrt_zero, zero_sub]
    rw [shankReach, hradius, zero_pow two_ne_zero, add_zero, neg_sq, Real.sqrt_sq (by norm_num)]
  rw [hreach]
  constructor <;> norm_num

/-- A coordinate that neither end of the move has. -/
theorem flat_coordinate {p : XReal} {x : ℝ} (h : fin 0 + p * fin 0 = fin x) :
    (∃ q, p = fin q) ∧ x = 0 := by
  cases p with
  | nan => cases h
  | inf s =>
    have hnan : inf s * fin 0 = nan := if_pos rfl
    rw [hnan, add_nan] at h
    cases h
  | fin q =>
    rw [fin_mul, fin_add, fin.injEq, mul_zero, add_zero] at h
    exact ⟨⟨q, rfl⟩, h.symm⟩

namespace ArmState

/-- What holds of the sketch with exact floats: the arm stays in its plane. -/
structure Sound (s : ArmState XReal) : Prop where
  safe : s.Safe
  configured : s.geometry.Configured
  posX : s.interpolator.pos.xmm = fin 0
  posE : s.interpolator.pos.emm = fin 0
  targetX : s.interpolator.target.xmm = fin 0
  targetE : s.interpolator.target.emm = fin 0

theorem setup_sound (micros : ℤ) : (setup micros : ArmState XReal).Sound := by
  refine ⟨setup_safe micros, RobotGeometry.init_configured, ?_, ?_, ?_, ?_⟩ <;>
    simp [setup, Interpolation.init, Interpolation.setInterpolation, Interpolation.target,
      zeroPoint, initialPoint]

variable {s : ArmState XReal}

/-- The position as numbers: the origin or an allowed one. -/
theorem Sound.pos (h : s.Sound) : ∃ y z, s.interpolator.pos = ⟨fin 0, fin y, fin z, fin 0⟩ ∧
    (y = 0 ∧ z = 0 ∨ Allowed 0 y z) := by
  have hx := h.posX
  have he := h.posE
  rcases h.safe.pos with hzero | hallowed
  · exact ⟨0, 0, by rw [hzero, zeroPoint_eq], .inl ⟨rfl, rfl⟩⟩
  · obtain ⟨x, y, z, hx', hy, hz, ha⟩ := (isAllowedPosition_iff _).mp hallowed
    obtain rfl : (0 : ℝ) = x := by
      rw [hx, fin.injEq] at hx'
      exact hx'
    refine ⟨y, z, ?_, .inr ha⟩
    calc s.interpolator.pos
        = ⟨s.interpolator.pos.xmm, s.interpolator.pos.ymm, s.interpolator.pos.zmm,
            s.interpolator.pos.emm⟩ := rfl
      _ = ⟨fin 0, fin y, fin z, fin 0⟩ := by rw [hx, hy, hz, he]

/-- The interpolator of a loop stays in the plane. -/
theorem Sound.move (h : s.Sound) {micros₁ micros₂ : ℤ} {it : Interpolation XReal}
    (hmove : s.move micros₁ micros₂ = .ret it) :
    it.pos.xmm = fin 0 ∧ it.pos.emm = fin 0 ∧ it.target.xmm = fin 0 ∧ it.target.emm = fin 0 := by
  obtain ⟨it', hmove', -, hcase⟩ := move_cases h.safe.profile micros₁ micros₂
  obtain rfl := Call.ret.inj (hmove.symm.trans hmove')
  have hx : (s.began micros₁).start.xmm = fin 0 := h.targetX
  have he : (s.began micros₁).start.emm = fin 0 := h.targetE
  have hdx : (s.began micros₁).delta.xmm = fin 0 := by
    show lit 0 - s.interpolator.target.xmm = fin 0
    simp [h.targetX]
  have hde : (s.began micros₁).delta.emm = fin 0 := by
    show lit 0 - s.interpolator.target.emm = fin 0
    simp [h.targetE]
  rcases hcase with hacc | hrej
  · have hpx : it.pos.xmm = fin 0 + (s.began micros₁).flatProgress micros₂ * fin 0 := by
      rw [hacc.pos]
      show (s.began micros₁).start.xmm + _ * (s.began micros₁).delta.xmm = _
      rw [hx, hdx]
    have hpe : it.pos.emm = fin 0 + (s.began micros₁).flatProgress micros₂ * fin 0 := by
      rw [hacc.pos]
      show (s.began micros₁).start.emm + _ * (s.began micros₁).delta.emm = _
      rw [he, hde]
    obtain ⟨x, -, -, hfin, -⟩ := (isAllowedPosition_iff _).mp hacc.allowed
    rw [← hacc.pos, hpx] at hfin
    obtain ⟨⟨q, hq⟩, -⟩ := flat_coordinate hfin
    rw [hpx, hpe, hq]
    simp only [Interpolation.target, hacc.start, hacc.delta, hx, he, hdx, hde, fin_mul, fin_add,
      mul_zero, add_zero, and_self]
  · simp only [Interpolation.target, hrej.pos, hrej.start, hrej.delta, zeroPoint_eq, h.posX, h.posE,
      fin_add, add_zero, and_self]

/-- The shanks at the angles of the pulses: the end is where the computed angles put it, up to the
way of one pulse of both. -/
theorem pulses_near {x y z : ℝ} (ht : Triangle 120 120 (shankReach x y z)) :
    (outward 120 120 (bigAngle (cut (lowAngle x y z * (7200 / Real.pi))))
        (smallAngle (cut (highAngle x y z * (7200 / Real.pi)) - 3600)) -
          computedRadius x y z) ^ 2 +
      (upward 120 120 (bigAngle (cut (lowAngle x y z * (7200 / Real.pi))))
        (smallAngle (cut (highAngle x y z * (7200 / Real.pi)) - 3600)) - z) ^ 2 ≤
          (Real.pi / 30) ^ 2 := by
  obtain ⟨hout, hup⟩ := shanks_end ht
  have hlow := pulse_error (lowAngle x y z)
  have hhigh := pulse_error (highAngle x y z)
  have h120 : (0 : ℝ) ≤ 120 := by norm_num
  rw [smallAngle_eq]
  set low := bigAngle (cut (lowAngle x y z * (7200 / Real.pi)))
  set high := bigAngle (cut (highAngle x y z * (7200 / Real.pi)))
  have hsum : 120 * |low - lowAngle x y z| + 120 * |high - highAngle x y z| ≤ Real.pi / 30 := by
    linarith
  have hend : (outward 120 120 low high - outward 120 120 (lowAngle x y z) (highAngle x y z)) ^ 2 +
      (upward 120 120 low high - upward 120 120 (lowAngle x y z) (highAngle x y z)) ^ 2 ≤
        (120 * |low - lowAngle x y z| + 120 * |high - highAngle x y z|) ^ 2 :=
    end_dist_le h120 h120
  rw [hout, hup] at hend
  exact hend.trans (pow_le_pow_left₀ (by positivity) hsum 2)

end ArmState

/-- A report that is right: its position is the origin or an allowed one, and its pulses put the
tool within π/30 mm of it. Behind the axis, and above the shoulder near to it, that is said of the
height only. -/
def ArmReport.Faithful (r : ArmReport XReal) : Prop :=
  ∃ y z : ℝ, r.pos = ⟨fin 0, fin y, fin z, fin 0⟩ ∧ (y = 0 ∧ z = 0 ∨ Allowed 0 y z) ∧
    |toolUpward (bigAngle r.big) (smallAngle r.small) - z| ≤ Real.pi / 30 ∧
    (0 ≤ y → Clear y z →
      (toolOutward (bigAngle r.big) (smallAngle r.small) - y) ^ 2 +
        (toolUpward (bigAngle r.big) (smallAngle r.small) - z) ^ 2 ≤ (Real.pi / 30) ^ 2)

/-- Pulses of at most two turns. -/
def ArmReport.Bounded {F : Type} (r : ArmReport F) : Prop := |r.big| ≤ 28800 ∧ |r.small| ≤ 28800

namespace ArmState

variable {s : ArmState XReal}

/-- Every loop returns, and reports rightly. -/
theorem Sound.loop (h : s.Sound) (micros₁ micros₂ : ℤ) :
    ∃ s', s.loop micros₁ micros₂ = .ret s' ∧ s'.Sound ∧ s'.report.Faithful ∧
      s'.report.Bounded := by
  obtain ⟨it, hmove, -, -⟩ := move_cases h.safe.profile micros₁ micros₂
  obtain ⟨hprofile, hallowed⟩ := h.safe.move hmove
  obtain ⟨hpx, hpe, htx, hte⟩ := h.move hmove
  have hit : Sound { s with interpolator := it } :=
    ⟨⟨hprofile, hallowed⟩, h.configured, hpx, hpe, htx, hte⟩
  obtain ⟨y, z, hpos, hcase⟩ := hit.pos
  have ht : Triangle 120 120 (shankReach 0 y z) := by
    rcases hcase with ⟨rfl, rfl⟩ | ha
    · exact origin_triangle
    · exact ha.triangle
  have hloop := loop_pulses h.configured hmove (x := 0) (y := y) (z := z)
    (congrArg Point.xmm hpos) (congrArg Point.ymm hpos) (congrArg Point.zmm hpos) ht
  have hnear := pulses_near ht
  obtain ⟨hbig, hsmall⟩ := pulses_bounded (x := 0) (y := y) (z := z)
  refine ⟨_, hloop, ⟨⟨hprofile, hallowed⟩, ?_, hpx, hpe, htx, hte⟩,
    ⟨y, z, hpos, hcase, ?_, ?_⟩, hbig, hsmall⟩
  · exact ⟨h.configured.offset, h.configured.low, h.configured.high⟩
  · have hpi := Real.pi_pos
    exact abs_le_of_sq_le_sq ((le_add_of_nonneg_left (sq_nonneg _)).trans hnear) (by positivity)
  · intro hy hz
    have hradius : radius 0 y = y := by
      rw [radius, zero_pow two_ne_zero, zero_add, Real.sqrt_sq hy]
    have hcomputed : computedRadius 0 y z = y - 47 := by
      rw [computedRadius_eq_iff.mpr (by rwa [hradius]), shankRadius, hradius]
    rw [hcomputed] at hnear
    rw [toolOutward, add_sub_assoc, ← neg_sub y 47, ← sub_eq_add_neg]
    exact hnear

theorem Sound.step (h : s.Sound) (e : ArmEvent XReal) :
    ∃ s' l, s.step e = some (s', l) ∧ s'.Sound ∧ ∀ r ∈ l, r.Faithful ∧ r.Bounded := by
  cases e with
  | loop micros₁ micros₂ =>
    obtain ⟨s', hloop, hs', hr⟩ := h.loop micros₁ micros₂
    refine ⟨s', [s'.report], ?_, hs', by simpa using hr⟩
    rw [ArmState.step, hloop]
    rfl
  | armYAdd20 | armYReduce20 | armZAdd20 | armZReduce20 | armCtrl ymm zmm =>
    exact ⟨_, [], rfl,
      ⟨⟨h.safe.profile, h.safe.pos⟩, h.configured, h.posX, h.posE, h.targetX, h.targetE⟩, by simp⟩

end ArmState

/-- Every run of loops, at any times, and of shell commands, with any targets, also those that are
no numbers: no loop faults, and the pulses of each put the tool within π/30 mm of the position that
it reports, behind the axis and above the shoulder near to it in height only. -/
theorem arm_runs (micros : ℤ) (es : List (ArmEvent XReal)) :
    ∃ s log, runLog ArmState.step (setup micros) es = some (s, log) ∧
      ∀ r ∈ log, ∃ y z : ℝ, r.pos = ⟨fin 0, fin y, fin z, fin 0⟩ ∧
        (y = 0 ∧ z = 0 ∨ Allowed 0 y z) ∧
        |upward 120 120 (bigAngle r.big) (smallAngle r.small) - z| ≤ Real.pi / 30 ∧
        (0 ≤ y → 47 ≤ y ∨ z ≤ 0 →
          (outward 120 120 (bigAngle r.big) (smallAngle r.small) + 47 - y) ^ 2 +
            (upward 120 120 (bigAngle r.big) (smallAngle r.small) - z) ^ 2 ≤
              (Real.pi / 30) ^ 2) := by
  have hall : AllSteps ArmState.step (fun _ _ => True) (setup micros) es :=
    allSteps_of_forall (C := fun _ => True) fun _ _ => trivial
  obtain ⟨s, log, hrun, -, hlog⟩ := runLog_safe (fun s e h _ => ArmState.Sound.step h e)
    (ArmState.setup_sound micros) hall
  exact ⟨s, log, hrun, fun r hr => (hlog r hr).1⟩

/-- A loop, a new target and another loop. -/
theorem reports_allowed_target :
    ∃ s log, runLog ArmState.step (setup 0 : ArmState XReal)
        [.loop 10 12, .armCtrl (fin 150) (fin 80), .loop 500 501] = some (s, log) ∧
      ∀ r ∈ log, r.pos = zeroPoint ∨ Interpolation.isAllowedPosition r.pos = true := by
  have hall : AllSteps ArmState.step (fun _ _ => True) (setup 0)
      [.loop 10 12, .armCtrl (fin 150) (fin 80), .loop 500 501] :=
    allSteps_of_forall (C := fun _ => True) fun _ _ => trivial
  obtain ⟨s, log, hrun, -, -⟩ := runLog_safe (fun s e h _ => ArmState.Sound.step h e)
    (ArmState.setup_sound 0) hall
  exact ⟨s, log, hrun, reports_allowed 0 _ s log hrun⟩

end Robotarm

end Robot
