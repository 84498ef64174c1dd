import ConstructionRobot.Robotarm.Loop

/-!
# What a loop of the arm makes of its target

The update of a loop comes right after the start of its move, so it sees the few microseconds
between two calls of `micros()`. The next loop starts where this move was to end, whether the arm
has got there or not.

* `ArmState.Way`: a move between two points of the plane; `wayPoint_moving`, `wayPoint_arrived`: the
  point that the loop tries.
* `arm_arrives_iff`: a target that stands for two loops is reported by the second, however far it
  is, exactly if the first could take its step or the target is near.
* `arm_stuck`: an update in the same microsecond as the start of the first move leaves the arm at
  the origin, for all targets and times.
-/

namespace Robot

namespace Robotarm

open Libm XReal

namespace ArmState

variable {s : ArmState XReal}

/-- The next loop starts at (`y₀`, `z₀`) and has the target (`y`, `z`). -/
structure Way (s : ArmState XReal) (y₀ z₀ y z : ℝ) : Prop where
  start : s.interpolator.target = ⟨fin 0, fin y₀, fin z₀, fin 0⟩
  ymm : s.ymm = fin y
  zmm : s.zmm = fin z

/-- The length of the move. -/
noncomputable def dist (y₀ z₀ y z : ℝ) : ℝ := √((y - y₀) ^ 2 + (z - z₀) ^ 2)

/-- The velocity of a move, in mm/s. -/
noncomputable def velocity : ℝ := (5 : ℚ)

theorem velocity_pos : 0 < velocity := by
  norm_num [velocity]

/-- The seconds between start and update. -/
noncomputable def seconds (micros₁ micros₂ : ℤ) : ℝ := (sint 32 (micros₂ - micros₁) : ℤ) / 1000000

theorem elapsed_eq (s : ArmState XReal) (micros₁ micros₂ : ℤ) :
    (s.began micros₁).elapsed micros₂ = fin (seconds micros₁ micros₂) := by
  show lit _ / lit 1000000 = _
  rw [fin_lit, fin_lit, fin_div (by norm_num), seconds]
  norm_num
  rfl

namespace Way

variable {y₀ z₀ y z : ℝ} (h : s.Way y₀ z₀ y z) (micros₁ micros₂ : ℤ)

include h

theorem began_start : (s.began micros₁).start = ⟨fin 0, fin y₀, fin z₀, fin 0⟩ := h.start

theorem began_delta :
    (s.began micros₁).delta = ⟨fin 0, fin (y - y₀), fin (z - z₀), fin 0⟩ := by
  simp only [began, Interpolation.setInterpolationTo, Interpolation.setInterpolation, h.start,
    h.ymm, h.zmm, fin_lit, fin_sub, Rat.cast_zero, sub_self]

theorem began_tmul : (s.began micros₁).tmul = fin velocity / fin (dist y₀ z₀ y z) := by
  have hdist : sqrt (fin 0 * fin 0 + fin (y - y₀) * fin (y - y₀) + fin (z - z₀) * fin (z - z₀)) =
      fin (dist y₀ z₀ y z) := by
    rw [fin_mul, fin_mul, fin_mul, fin_add, fin_add, fin_sqrt (add_nonneg (add_nonneg
      (mul_self_nonneg _) (mul_self_nonneg _)) (mul_self_nonneg _)), dist]
    congr 2
    ring
  have hshort : ¬ lt (fin (dist y₀ z₀ y z)) (fin 0) = true := by
    rw [fin_lt, not_lt]
    exact Real.sqrt_nonneg _
  have hspeed : ¬ lt (fin 5) (fin 5) = true := by
    rw [fin_lt]
    exact lt_irrefl _
  have hvelocity : velocity = 5 := by norm_num [velocity]
  rw [hvelocity]
  simp only [began, Interpolation.setInterpolationTo, Interpolation.setInterpolation, h.start,
    h.ymm, h.zmm, fin_lit, fin_sub, Rat.cast_zero, sub_self, fin_fabs, abs_zero, hdist,
    Rat.cast_ofNat, if_neg hshort, if_neg hspeed]

/-- The part of the way after the time between start and update. -/
theorem flatProgress_moving (hdist : 0 < dist y₀ z₀ y z) :
    (s.began micros₁).flatProgress micros₂ =
      fin (min 1 (seconds micros₁ micros₂ * (velocity / dist y₀ z₀ y z))) := by
  simp only [Interpolation.flatProgress, elapsed_eq, h.began_tmul, fin_div hdist.ne', fin_mul,
    fin_lit, Rat.cast_one, fin_le]
  split
  · rename_i hle
    rw [min_eq_left hle]
  · rename_i hle
    rw [min_eq_right (not_le.mp hle).le]

/-- A move of no length is done as soon as time has passed. -/
theorem flatProgress_arrived (hdist : dist y₀ z₀ y z = 0) (ht : 0 < seconds micros₁ micros₂) :
    (s.began micros₁).flatProgress micros₂ = fin 1 := by
  have hinf : (s.began micros₁).elapsed micros₂ * (s.began micros₁).tmul = inf false := by
    rw [elapsed_eq, h.began_tmul, hdist, fin_div_zero velocity_pos, mul_inf_pos ht]
  simp only [Interpolation.flatProgress, hinf, fin_lit, Rat.cast_one, XReal.le_inf, ↓reduceIte]

/-- In the same microsecond it is NaN. -/
theorem flatProgress_nan (hdist : dist y₀ z₀ y z = 0) (ht : seconds micros₁ micros₂ = 0) :
    (s.began micros₁).flatProgress micros₂ = nan := by
  have hnan : (s.began micros₁).elapsed micros₂ * (s.began micros₁).tmul = nan := by
    rw [elapsed_eq, h.began_tmul, hdist, fin_div_zero velocity_pos, ht, zero_mul_inf]
  simp only [Interpolation.flatProgress, hnan, le_nan, Bool.false_eq_true, ↓reduceIte]

/-- The point that the loop tries, for a part of the way. -/
theorem wayPoint_eq {q : ℝ} (hq : (s.began micros₁).flatProgress micros₂ = fin q) :
    s.wayPoint micros₁ micros₂ =
      ⟨fin 0, fin (y₀ + q * (y - y₀)), fin (z₀ + q * (z - z₀)), fin 0⟩ := by
  simp only [wayPoint, hq, Interpolation.pointAt, h.began_start, h.began_delta, fin_mul, fin_add,
    mul_zero, add_zero]

end Way

theorem dist_eq_zero {y₀ z₀ y z : ℝ} : dist y₀ z₀ y z = 0 ↔ y = y₀ ∧ z = z₀ := by
  rw [dist, Real.sqrt_eq_zero (by positivity)]
  constructor
  · intro h
    have hy : (y - y₀) ^ 2 = 0 := by nlinarith [sq_nonneg (y - y₀), sq_nonneg (z - z₀)]
    have hz : (z - z₀) ^ 2 = 0 := by nlinarith [sq_nonneg (y - y₀), sq_nonneg (z - z₀)]
    exact ⟨sub_eq_zero.mp (pow_eq_zero_iff two_ne_zero |>.mp hy),
      sub_eq_zero.mp (pow_eq_zero_iff two_ne_zero |>.mp hz)⟩
  · rintro ⟨rfl, rfl⟩
    simp

/-- The loop tries the target exactly if it is near enough, in the time there is. -/
theorem Way.wayPoint_eq_target_iff {y₀ z₀ y z : ℝ} (h : s.Way y₀ z₀ y z) {micros₁ micros₂ : ℤ}
    (ht : 0 < seconds micros₁ micros₂) :
    s.wayPoint micros₁ micros₂ = ⟨fin 0, fin y, fin z, fin 0⟩ ↔
      dist y₀ z₀ y z ≤ velocity * seconds micros₁ micros₂ := by
  have hnonneg : 0 ≤ dist y₀ z₀ y z := Real.sqrt_nonneg _
  rcases hnonneg.lt_or_eq with hpos | hzero
  · rw [h.wayPoint_eq _ _ (h.flatProgress_moving _ _ hpos)]
    set q := min 1 (seconds micros₁ micros₂ * (velocity / dist y₀ z₀ y z)) with hq
    have hone : q = 1 ↔ dist y₀ z₀ y z ≤ velocity * seconds micros₁ micros₂ := by
      rw [hq, min_eq_left_iff, mul_div_assoc', le_div_iff₀ hpos, one_mul, mul_comm]
    rw [← hone]
    simp only [Point.mk.injEq, fin.injEq, true_and, and_true]
    constructor
    · rintro ⟨hy, hz⟩
      by_contra hne
      have hy' : y = y₀ := by
        have : (q - 1) * (y - y₀) = 0 := by linarith
        exact sub_eq_zero.mp ((mul_eq_zero.mp this).resolve_left (sub_ne_zero.mpr hne))
      have hz' : z = z₀ := by
        have : (q - 1) * (z - z₀) = 0 := by linarith
        exact sub_eq_zero.mp ((mul_eq_zero.mp this).resolve_left (sub_ne_zero.mpr hne))
      exact hpos.ne' (dist_eq_zero.mpr ⟨hy', hz'⟩)
    · rintro h1
      rw [h1]
      constructor <;> ring
  · rw [h.wayPoint_eq _ _ (h.flatProgress_arrived _ _ hzero.symm ht)]
    obtain ⟨rfl, rfl⟩ := dist_eq_zero.mp hzero.symm
    have hfar : 0 ≤ velocity * seconds micros₁ micros₂ := (mul_pos velocity_pos ht).le
    refine iff_of_true ?_ (by rwa [← hzero])
    simp

/-- A loop that returns, in both cases. -/
theorem Sound.loop_cases (h : s.Sound) (micros₁ micros₂ : ℤ) :
    ∃ s', s.loop micros₁ micros₂ = .ret s' ∧ s'.Sound ∧ s'.ymm = s.ymm ∧ s'.zmm = s.zmm ∧
      (s.Accepts micros₁ micros₂ s'.interpolator ∨ s.Rejects micros₁ micros₂ s'.interpolator) := by
  obtain ⟨s', hloop, hs', -⟩ := h.loop micros₁ micros₂
  obtain ⟨it, hmove, hit, hy, hz⟩ := loop_ret hloop
  obtain ⟨it', hmove', -, hcase⟩ := move_cases h.safe.profile micros₁ micros₂
  obtain rfl := Call.ret.inj (hmove.symm.trans hmove')
  rw [← hit] at hcase
  exact ⟨s', hloop, hs', hy, hz, hcase⟩

/-- After a loop that took its point the next one starts at the target. -/
theorem Accepts.way {s' : ArmState XReal} {micros₁ micros₂ : ℤ} {y z : ℝ}
    (hacc : s.Accepts micros₁ micros₂ s'.interpolator) (hs' : s'.Sound) (hy : s.ymm = fin y)
    (hz : s.zmm = fin z) (hy' : s'.ymm = s.ymm) (hz' : s'.zmm = s.zmm) : s'.Way y z y z := by
  obtain ⟨x₁, y₁, z₁, -, hfy, hfz, -⟩ := (isAllowedPosition_iff _).mp hacc.allowed
  obtain ⟨u, v, hu, -⟩ := add_eq_fin hfy
  obtain ⟨u', v', hu', -⟩ := add_eq_fin hfz
  have hdy : (s.began micros₁).delta.ymm = fin (y - u) := by
    show s.ymm - (s.began micros₁).start.ymm = _
    rw [hy, hu, fin_sub]
  have hdz : (s.began micros₁).delta.zmm = fin (z - u') := by
    show s.zmm - (s.began micros₁).start.zmm = _
    rw [hz, hu', fin_sub]
  have hty : s'.interpolator.target.ymm = fin y := by
    simp only [Interpolation.target, hacc.start, hacc.delta, hu, hdy, fin_add, add_sub_cancel]
  have htz : s'.interpolator.target.zmm = fin z := by
    simp only [Interpolation.target, hacc.start, hacc.delta, hu', hdz, fin_add, add_sub_cancel]
  refine ⟨?_, hy'.trans hy, hz'.trans hz⟩
  calc s'.interpolator.target
      = ⟨s'.interpolator.target.xmm, s'.interpolator.target.ymm, s'.interpolator.target.zmm,
          s'.interpolator.target.emm⟩ := rfl
    _ = ⟨fin 0, fin y, fin z, fin 0⟩ := by rw [hs'.targetX, hty, htz, hs'.targetE]

/-- After one that did not, it starts where the arm is. -/
theorem Rejects.way {s' : ArmState XReal} {micros₁ micros₂ : ℤ} {y₀ z₀ y z : ℝ}
    (hrej : s.Rejects micros₁ micros₂ s'.interpolator)
    (hpos : s.interpolator.pos = ⟨fin 0, fin y₀, fin z₀, fin 0⟩) (hy : s.ymm = fin y)
    (hz : s.zmm = fin z) (hy' : s'.ymm = s.ymm) (hz' : s'.zmm = s.zmm) : s'.Way y₀ z₀ y z := by
  refine ⟨?_, hy'.trans hy, hz'.trans hz⟩
  simp only [Interpolation.target, hrej.start, hrej.delta, zeroPoint_eq, hpos, fin_add, add_zero]

/-- A loop on a way with an allowed end reports the end exactly if that is near enough. -/
theorem Way.reports_iff {y₀ z₀ y z : ℝ} (hway : s.Way y₀ z₀ y z) (ha : Allowed 0 y z)
    {micros₁ micros₂ : ℤ} (ht : 0 < seconds micros₁ micros₂) {it : Interpolation XReal}
    (hcase : s.Accepts micros₁ micros₂ it ∨ s.Rejects micros₁ micros₂ it)
    (hpos : s.interpolator.pos = ⟨fin 0, fin y, fin z, fin 0⟩ → y = y₀ ∧ z = z₀) :
    it.pos = ⟨fin 0, fin y, fin z, fin 0⟩ ↔ dist y₀ z₀ y z ≤ velocity * seconds micros₁ micros₂ := by
  rw [← hway.wayPoint_eq_target_iff ht]
  rcases hcase with hacc | hrej
  · rw [hacc.pos]
  · rw [hrej.pos]
    have hne : s.wayPoint micros₁ micros₂ ≠ ⟨fin 0, fin y, fin z, fin 0⟩ := by
      intro heq
      have hallowed := (isAllowedPosition_iff ⟨fin 0, fin y, fin z, fin 0⟩).mpr
        ⟨0, y, z, rfl, rfl, rfl, ha⟩
      rw [← heq, hrej.refused] at hallowed
      exact Bool.false_ne_true hallowed
    refine iff_of_false (fun heq => hne ?_) hne
    rw [hway.wayPoint_eq_target_iff ht, dist_eq_zero.mpr (hpos heq)]
    exact (mul_pos velocity_pos ht).le

end ArmState

/-- In every run: a target that is allowed and stands for two loops is reported by the second
exactly if the first took its step, or if the target is as near as 5 mm/s cover between start and
update. In the first case it is reported however far it is. -/
theorem arm_arrives_iff (micros : ℤ) (es : List (ArmEvent XReal)) (s : ArmState XReal)
    (log : List (ArmReport XReal))
    (hrun : runLog ArmState.step (setup micros) es = some (s, log)) (y z : ℝ) (hy : s.ymm = fin y)
    (hz : s.zmm = fin z) (ha : Allowed 0 y z) (micros₁ micros₂ micros₃ micros₄ : ℤ)
    (ht : 0 < sint 32 (micros₄ - micros₃)) :
    ∃ y₀ z₀ s₁ s₂, s.interpolator.pos = ⟨fin 0, fin y₀, fin z₀, fin 0⟩ ∧
      s.loop micros₁ micros₂ = .ret s₁ ∧ s₁.loop micros₃ micros₄ = .ret s₂ ∧
      (s₂.interpolator.pos = ⟨fin 0, fin y, fin z, fin 0⟩ ↔
        Interpolation.isAllowedPosition (s.wayPoint micros₁ micros₂) = true ∨
          ArmState.dist y₀ z₀ y z ≤ ArmState.velocity * ArmState.seconds micros₃ micros₄) := by
  have hsound : s.Sound := by
    have hkeep : ∀ (s : ArmState XReal) e s₁ l₁, s.Sound → True → s.step e = some (s₁, l₁) →
        s₁.Sound ∧ ∀ r ∈ l₁, True := by
      intro s e s₁ l₁ h _ h₁
      obtain ⟨s₂, l₂, h₂, hs₂, -⟩ := h.step e
      obtain ⟨rfl, -⟩ := Prod.mk.inj (Option.some.inj (h₁.symm.trans h₂))
      exact ⟨hs₂, fun _ _ => trivial⟩
    exact (runLog_guarantee hkeep (ArmState.setup_sound micros)
      (allSteps_of_forall (C := fun _ => True) fun _ _ => trivial) hrun).1
  have hseconds : 0 < ArmState.seconds micros₃ micros₄ :=
    div_pos (by exact_mod_cast ht) (by norm_num)
  obtain ⟨y₀, z₀, hpos, -⟩ := hsound.pos
  obtain ⟨s₁, hloop₁, hs₁, hy₁, hz₁, hcase₁⟩ := hsound.loop_cases micros₁ micros₂
  obtain ⟨s₂, hloop₂, -, -, -, hcase₂⟩ := hs₁.loop_cases micros₃ micros₄
  refine ⟨y₀, z₀, s₁, s₂, hpos, hloop₁, hloop₂, ?_⟩
  rcases hcase₁ with hacc | hrej
  · have hway := hacc.way hs₁ hy hz hy₁ hz₁
    rw [hway.reports_iff ha hseconds hcase₂ fun _ => ⟨rfl, rfl⟩,
      ArmState.dist_eq_zero.mpr ⟨rfl, rfl⟩]
    exact iff_of_true (mul_pos ArmState.velocity_pos hseconds).le (.inl hacc.allowed)
  · have hway := hrej.way hpos hy hz hy₁ hz₁
    rw [hway.reports_iff ha hseconds hcase₂ fun heq => ?_, hrej.refused]
    · simp
    · rw [hrej.pos, hpos] at heq
      simp only [Point.mk.injEq, fin.injEq, true_and, and_true] at heq
      exact ⟨heq.1.symm, heq.2.symm⟩

/-- A new target, and two loops with it. -/
theorem arm_arrives_iff_target :
    let s : ArmState XReal := { setup 0 with ymm := fin 150, zmm := fin 80 }
    ∃ y₀ z₀ s₁ s₂, s.interpolator.pos = ⟨fin 0, fin y₀, fin z₀, fin 0⟩ ∧
      s.loop 10 12 = .ret s₁ ∧ s₁.loop 500 501 = .ret s₂ ∧
      (s₂.interpolator.pos = ⟨fin 0, fin 150, fin 80, fin 0⟩ ↔
        Interpolation.isAllowedPosition (s.wayPoint 10 12) = true ∨
          ArmState.dist y₀ z₀ 150 80 ≤ ArmState.velocity * ArmState.seconds 500 501) := by
  have hradius : radius 0 150 = 150 := by
    rw [radius, show (0 : ℝ) ^ 2 + 150 ^ 2 = 150 ^ 2 by norm_num, Real.sqrt_sq (by norm_num)]
  have hreach : shankReach 0 150 80 ^ 2 = 17009 := by
    rw [shankReach_sq, shankRadius, hradius]
    norm_num
  have ha : Allowed 0 150 80 := by
    refine ⟨by rw [hradius]; norm_num, ?_, ?_, by norm_num, by norm_num⟩ <;>
      · rw [hreach]
        norm_num
  exact arm_arrives_iff 0 [.armCtrl (fin 150) (fin 80)] _ [] rfl 150 80 rfl rfl ha 10 12 500 501
    (by decide)

/-! ## The origin -/

namespace ArmState

/-- The sketch rests at the origin, without a move. -/
structure Parked (s : ArmState XReal) : Prop where
  sound : s.Sound
  pos : s.interpolator.pos = zeroPoint
  start : s.interpolator.start = zeroPoint
  delta : s.interpolator.delta = zeroPoint

/-- Near the origin no position is allowed: the shanks would have to bend too far. -/
theorem not_allowed_near {y z : ℝ} (h : y ^ 2 + z ^ 2 ≤ 3600) : ¬ Allowed 0 y z := by
  intro ha
  have hnear := ha.near
  have hradius : radius 0 y ^ 2 = y ^ 2 := by
    rw [radius, zero_pow two_ne_zero, zero_add, Real.sq_sqrt (sq_nonneg y)]
  rw [shankReach_sq, shankRadius] at hnear
  nlinarith [ha.off]

variable {s : ArmState XReal}

/-- A target that is no number is not tried. -/
theorem Parked.way (h : s.Parked) {micros₁ micros₂ : ℤ}
    (hallowed : Interpolation.isAllowedPosition (s.wayPoint micros₁ micros₂) = true) :
    ∃ y z, s.Way 0 0 y z := by
  have htarget : s.interpolator.target = ⟨fin 0, fin 0, fin 0, fin 0⟩ := by
    simp only [Interpolation.target, h.start, h.delta, zeroPoint_eq, fin_add, add_zero]
  obtain ⟨-, y₁, z₁, -, hfy, hfz, -⟩ := (isAllowedPosition_iff _).mp hallowed
  obtain ⟨-, v, -, hv⟩ := add_eq_fin hfy
  obtain ⟨-, v', -, hv'⟩ := add_eq_fin hfz
  obtain ⟨-, d, -, hd⟩ := mul_eq_fin hv
  obtain ⟨-, d', -, hd'⟩ := mul_eq_fin hv'
  obtain ⟨y, hy⟩ := sub_eq_fin (show s.ymm - s.interpolator.target.ymm = fin d from hd)
  obtain ⟨z, hz⟩ := sub_eq_fin (show s.zmm - s.interpolator.target.zmm = fin d' from hd')
  exact ⟨y, z, htarget, hy, hz⟩

/-- Whatever the target is, the point that a loop tries is not allowed, if the update comes in
time. -/
theorem Parked.refused (h : s.Parked) {micros₁ micros₂ : ℤ}
    (h0 : 0 ≤ seconds micros₁ micros₂) (h12 : seconds micros₁ micros₂ ≤ 12) :
    Interpolation.isAllowedPosition (s.wayPoint micros₁ micros₂) = false := by
  rw [← Bool.not_eq_true]
  intro hallowed
  obtain ⟨y, z, hway⟩ := h.way hallowed
  obtain ⟨x₁, y₁, z₁, hx, hy, hz, ha⟩ := (isAllowedPosition_iff _).mp hallowed
  have hnear : ∀ {q : ℝ}, (s.began micros₁).flatProgress micros₂ = fin q →
      ¬ (q * y) ^ 2 + (q * z) ^ 2 ≤ 3600 := by
    intro q hq hle
    rw [hway.wayPoint_eq _ _ hq] at hx hy hz
    simp only [sub_zero, zero_add, fin.injEq] at hx hy hz
    rw [← hx, ← hy, ← hz] at ha
    exact not_allowed_near hle ha
  have hnonneg : 0 ≤ dist 0 0 y z := Real.sqrt_nonneg _
  have hsquare : dist 0 0 y z ^ 2 = y ^ 2 + z ^ 2 := by
    rw [dist, Real.sq_sqrt (by positivity), sub_zero, sub_zero]
  rcases hnonneg.lt_or_eq with hpos | hzero
  · refine hnear (hway.flatProgress_moving _ _ hpos) ?_
    set q := min 1 (seconds micros₁ micros₂ * (velocity / dist 0 0 y z)) with hq
    have hq0 : 0 ≤ q := le_min zero_le_one
      (mul_nonneg h0 (div_nonneg velocity_pos.le hnonneg))
    have hle : q * dist 0 0 y z ≤ 60 := by
      calc q * dist 0 0 y z ≤ seconds micros₁ micros₂ * (velocity / dist 0 0 y z) * dist 0 0 y z :=
            mul_le_mul_of_nonneg_right (min_le_right _ _) hnonneg
        _ = velocity * seconds micros₁ micros₂ := by
            field_simp
        _ ≤ 60 := by
            have hvelocity : velocity = 5 := by norm_num [velocity]
            rw [hvelocity]
            linarith
    calc (q * y) ^ 2 + (q * z) ^ 2 = (q * dist 0 0 y z) ^ 2 := by
          rw [mul_pow, mul_pow, mul_pow, hsquare]
          ring
      _ ≤ 60 ^ 2 := pow_le_pow_left₀ (by positivity) hle 2
      _ = 3600 := by norm_num
  · obtain ⟨rfl, rfl⟩ := dist_eq_zero.mp hzero.symm
    rcases h0.lt_or_eq with ht | ht
    · exact hnear (hway.flatProgress_arrived _ _ hzero.symm ht) (by norm_num)
    · have hnan : (s.wayPoint micros₁ micros₂).xmm = nan := by
        simp only [wayPoint, Interpolation.pointAt, hway.flatProgress_nan _ _ hzero.symm ht.symm,
          nan_mul, add_nan]
      rw [hnan] at hx
      cases hx

/-- A loop that takes no point leaves the arm at the origin, without a move. -/
theorem Rejects.parked {s' : ArmState XReal} {micros₁ micros₂ : ℤ}
    (hrej : s.Rejects micros₁ micros₂ s'.interpolator) (hs' : s'.Sound)
    (hpos : s.interpolator.pos = zeroPoint) : s'.Parked :=
  ⟨hs', hrej.pos.trans hpos, hrej.start.trans hpos, hrej.delta⟩

/-- A loop whose point is not allowed, at the origin. -/
theorem Sound.loop_parked (h : s.Sound) (hpos : s.interpolator.pos = zeroPoint)
    {micros₁ micros₂ : ℤ}
    (hrefused : Interpolation.isAllowedPosition (s.wayPoint micros₁ micros₂) = false) :
    ∃ s', s.step (.loop micros₁ micros₂) = some (s', [s'.report]) ∧ s'.Parked := by
  obtain ⟨s', hloop, hs', -, -, hcase⟩ := h.loop_cases micros₁ micros₂
  refine ⟨s', by rw [ArmState.step, hloop]; rfl, ?_⟩
  rcases hcase with hacc | hrej
  · rw [hacc.allowed] at hrefused
    cases hrefused
  · exact hrej.parked hs' hpos

end ArmState

/-- An update at most twelve seconds after the start of its move. -/
def ArmEvent.Prompt {F : Type} : ArmEvent F → Prop
  | .loop micros₁ micros₂ =>
    0 ≤ sint 32 (micros₂ - micros₁) ∧ sint 32 (micros₂ - micros₁) ≤ 12000000
  | _ => True

namespace ArmState

variable {s : ArmState XReal}

theorem Parked.step (h : s.Parked) {e : ArmEvent XReal} (he : e.Prompt) :
    ∃ s' l, s.step e = some (s', l) ∧ s'.Parked ∧
      ∀ r ∈ l, r.pos = ⟨fin 0, fin 0, fin 0, fin 0⟩ := by
  cases e with
  | loop micros₁ micros₂ =>
    obtain ⟨h0, h12⟩ := he
    have hsec0 : 0 ≤ seconds micros₁ micros₂ := div_nonneg (by exact_mod_cast h0) (by norm_num)
    have hsec12 : seconds micros₁ micros₂ ≤ 12 := by
      rw [seconds, div_le_iff₀ (by norm_num)]
      have hcast : ((sint 32 (micros₂ - micros₁) : ℤ) : ℝ) ≤ (12000000 : ℤ) := by
        exact_mod_cast h12
      exact hcast.trans (by norm_num)
    obtain ⟨s', hstep, hparked⟩ := h.sound.loop_parked h.pos (h.refused hsec0 hsec12)
    refine ⟨s', _, hstep, hparked, ?_⟩
    simp only [List.mem_singleton, forall_eq, report, hparked.pos, zeroPoint_eq]
  | armYAdd20 | armYReduce20 | armZAdd20 | armZReduce20 | armCtrl ymm zmm =>
    have hs := h.sound
    exact ⟨_, [], rfl,
      ⟨⟨⟨hs.safe.profile, hs.safe.pos⟩, hs.configured, hs.posX, hs.posE, hs.targetX, hs.targetE⟩,
        h.pos, h.start, h.delta⟩, by simp⟩

/-- After `setup` the move starts and ends at the initial position. -/
theorem setup_way (micros : ℤ) : (setup micros : ArmState XReal).Way 167 120 167 120 := by
  have hinit : (initialPoint : Point XReal) = ⟨fin 0, fin 167, fin 120, fin 0⟩ := by
    simp only [initialPoint, highShankLength, lowShankLength, offset_eq, fin_lit, fin_add,
      Rat.cast_zero, Rat.cast_ofNat]
    norm_num
  refine ⟨?_, congrArg Point.ymm hinit, congrArg Point.zmm hinit⟩
  simp only [setup, Interpolation.target, Interpolation.setInterpolation, hinit, fin_sub, sub_self,
    fin_add, add_zero]

end ArmState

/-- If the update of the first loop comes in the microsecond in which its move starts, the arm is
reported at the origin for good: with every target, and as long as no update comes more than twelve
seconds after the start of its move. -/
theorem arm_stuck (micros micros₁ micros₂ : ℤ) (h : sint 32 (micros₂ - micros₁) = 0)
    (es : List (ArmEvent XReal)) (hes : ∀ e ∈ es, e.Prompt) :
    ∃ s log, runLog ArmState.step (setup micros) (.loop micros₁ micros₂ :: es) = some (s, log) ∧
      ∀ r ∈ log, r.pos = ⟨fin 0, fin 0, fin 0, fin 0⟩ := by
  have hway := ArmState.setup_way micros
  have hsec : ArmState.seconds micros₁ micros₂ = 0 := by
    rw [ArmState.seconds, h, Int.cast_zero, zero_div]
  have hrefused : Interpolation.isAllowedPosition
      ((setup micros : ArmState XReal).wayPoint micros₁ micros₂) = false := by
    rw [← Bool.not_eq_true, isAllowedPosition_iff]
    rintro ⟨x, -, -, hx, -⟩
    have hnan := hway.flatProgress_nan micros₁ micros₂ (ArmState.dist_eq_zero.mpr ⟨rfl, rfl⟩) hsec
    simp only [ArmState.wayPoint, Interpolation.pointAt, hnan, nan_mul, add_nan] at hx
    cases hx
  obtain ⟨s₁, h₁, hparked⟩ := (ArmState.setup_sound micros).loop_parked rfl hrefused
  have hall : AllSteps ArmState.step (fun _ e => e.Prompt) s₁ es := allSteps_of_forall hes
  obtain ⟨s, log, hrun, -, hlog⟩ := runLog_safe
    (fun s e hs he => ArmState.Parked.step hs he) hparked hall
  refine ⟨s, _, runLog_cons.mpr ⟨s₁, _, log, h₁, hrun, rfl⟩, ?_⟩
  rw [List.forall_mem_append]
  refine ⟨?_, hlog⟩
  simp only [List.mem_singleton, forall_eq, ArmState.report, hparked.pos, zeroPoint_eq]

/-- A first loop without time, a new target, and a loop with it. -/
theorem arm_stuck_target :
    ∃ s log, runLog ArmState.step (setup 0)
        [.loop 10 10, .armCtrl (fin 150) (fin 80), .loop 500 501] = some (s, log) ∧
      ∀ r ∈ log, r.pos = ⟨fin 0, fin 0, fin 0, fin 0⟩ := by
  refine arm_stuck 0 10 10 (by decide) [.armCtrl (fin 150) (fin 80), .loop 500 501] ?_
  intro e he
  rcases List.mem_pair.mp he with rfl | rfl
  · trivial
  · exact ⟨by decide, by decide⟩

end Robotarm

end Robot
