import Mathlib.Analysis.SpecialFunctions.Trigonometric.Arctan
import Mathlib.Analysis.SpecialFunctions.Trigonometric.Inverse
import Mathlib.Analysis.SpecialFunctions.Pow.Real
import ConstructionRobot.Lib.Call

/-!
# Floats with the functions of `math.h`

* `Libm F`: the operations on a type of floats.
* `XReal`: real numbers with the two infinities and NaN. Arithmetic is exact on finite values; what
  a division by zero and an argument outside a function's domain give is as in IEEE 754. There is
  one zero, with the sign plus.
* The `fin_` lemmas compute with finite values; `mul_inf_pos`, `le_inf` and the `nan_` lemmas with
  the others.
-/

namespace Robot

/-- The operations on a type of floats. A conversion to `int32_t` of a value outside its range has
no meaning in C. -/
class Libm (F : Type) extends Add F, Sub F, Mul F, Div F, Neg F where
  /-- A literal. -/
  lit : ℚ → F
  pi : F
  fabs : F → F
  sqrt : F → F
  hypot : F → F → F
  asin : F → F
  acos : F → F
  atan : F → F
  cos : F → F
  lt : F → F → Bool
  le : F → F → Bool
  toInt32 : F → Call ℤ

/-- Real numbers, infinities and NaN. -/
inductive XReal where
  | nan
  | inf (neg : Bool)
  | fin (x : ℝ)

namespace XReal

noncomputable section

open Classical in
/-- The sign of a number. -/
def isNeg (x : ℝ) : Bool := decide (x < 0)

protected def neg : XReal → XReal
  | nan => nan
  | inf s => inf (!s)
  | fin x => fin (-x)

protected def add : XReal → XReal → XReal
  | fin x, fin y => fin (x + y)
  | fin _, inf t => inf t
  | inf s, fin _ => inf s
  | inf s, inf t => if s = t then inf s else nan
  | _, _ => nan

open Classical in
protected def mul : XReal → XReal → XReal
  | fin x, fin y => fin (x * y)
  | fin x, inf t => if x = 0 then nan else inf (isNeg x != t)
  | inf s, fin y => if y = 0 then nan else inf (s != isNeg y)
  | inf s, inf t => inf (s != t)
  | _, _ => nan

open Classical in
protected def div : XReal → XReal → XReal
  | fin x, fin y =>
    if y = 0 then (if x = 0 then nan else inf (isNeg x)) else fin (x / y)
  | fin _, inf _ => fin 0
  | inf s, fin y => inf (s != isNeg y)
  | _, _ => nan

protected def abs : XReal → XReal
  | nan => nan
  | inf _ => inf false
  | fin x => fin |x|

open Classical in
protected def sqrt : XReal → XReal
  | fin x => if x < 0 then nan else fin (√x)
  | inf false => inf false
  | _ => nan

protected def hypot : XReal → XReal → XReal
  | fin x, fin y => fin (√(x ^ 2 + y ^ 2))
  | inf _, _ => inf false
  | _, inf _ => inf false
  | _, _ => nan

open Classical in
/-- A function with the domain from -1 to 1. -/
protected def onUnit (f : ℝ → ℝ) : XReal → XReal
  | fin x => if |x| ≤ 1 then fin (f x) else nan
  | _ => nan

protected def atan : XReal → XReal
  | nan => nan
  | inf s => fin (if s then -Real.arcsin 1 else Real.arcsin 1)
  | fin x => fin (Real.arctan x)

protected def cos : XReal → XReal
  | fin x => fin (Real.cos x)
  | _ => nan

open Classical in
/-- Comparisons with NaN are false. -/
protected def lt : XReal → XReal → Bool
  | fin x, fin y => decide (x < y)
  | fin _, inf t => !t
  | inf s, fin _ => s
  | inf s, inf t => s && !t
  | _, _ => false

open Classical in
protected def le : XReal → XReal → Bool
  | fin x, fin y => decide (x ≤ y)
  | fin _, inf t => !t
  | inf s, fin _ => s
  | inf s, inf t => s || !t
  | _, _ => false

/-- A real number cut towards zero. -/
def cut (x : ℝ) : ℤ := if 0 ≤ x then ⌊x⌋ else ⌈x⌉

protected def toInt32 : XReal → Call ℤ
  | fin x => if -2 ^ 31 ≤ cut x ∧ cut x < 2 ^ 31 then .ret (cut x) else .fault
  | _ => .fault

instance : Libm XReal where
  add := XReal.add
  sub x y := XReal.add x (XReal.neg y)
  mul := XReal.mul
  div := XReal.div
  neg := XReal.neg
  lit q := fin q
  pi := fin Real.pi
  fabs := XReal.abs
  sqrt := XReal.sqrt
  hypot := XReal.hypot
  asin := XReal.onUnit Real.arcsin
  acos := XReal.onUnit Real.arccos
  atan := XReal.atan
  cos := XReal.cos
  lt := XReal.lt
  le := XReal.le
  toInt32 := XReal.toInt32

end

/-! ## Finite values -/

open Libm

@[simp] theorem fin_lit (q : ℚ) : (lit q : XReal) = fin q := rfl
@[simp] theorem fin_pi : (pi : XReal) = fin Real.pi := rfl
@[simp] theorem fin_add (x y : ℝ) : fin x + fin y = fin (x + y) := rfl
@[simp] theorem fin_neg (x : ℝ) : -fin x = fin (-x) := rfl
@[simp] theorem fin_mul (x y : ℝ) : fin x * fin y = fin (x * y) := rfl
@[simp] theorem fin_fabs (x : ℝ) : fabs (fin x) = fin |x| := rfl
@[simp] theorem fin_hypot (x y : ℝ) : hypot (fin x) (fin y) = fin (√(x ^ 2 + y ^ 2)) := rfl
@[simp] theorem fin_atan (x : ℝ) : atan (fin x) = fin (Real.arctan x) := rfl
@[simp] theorem fin_cos (x : ℝ) : cos (fin x) = fin (Real.cos x) := rfl

@[simp] theorem fin_sub (x y : ℝ) : fin x - fin y = fin (x - y) := by
  rw [sub_eq_add_neg]
  rfl

theorem fin_div {x y : ℝ} (h : y ≠ 0) : fin x / fin y = fin (x / y) := if_neg h

theorem fin_sqrt {x : ℝ} (h : 0 ≤ x) : sqrt (fin x) = fin (√x) := if_neg (not_lt.mpr h)

theorem fin_asin {x : ℝ} (h : |x| ≤ 1) : asin (fin x) = fin (Real.arcsin x) := if_pos h

theorem fin_acos {x : ℝ} (h : |x| ≤ 1) : acos (fin x) = fin (Real.arccos x) := if_pos h

@[simp] theorem fin_lt (x y : ℝ) : lt (fin x) (fin y) = true ↔ x < y := decide_eq_true_iff

@[simp] theorem fin_le (x y : ℝ) : le (fin x) (fin y) = true ↔ x ≤ y := decide_eq_true_iff

/-! ## The other values -/

/-- A positive number divided by zero. -/
theorem fin_div_zero {x : ℝ} (h : 0 < x) : fin x / fin 0 = inf false := by
  have hneg : isNeg x = false := decide_eq_false (not_lt.mpr h.le)
  show (if (0 : ℝ) = 0 then (if x = 0 then nan else inf (isNeg x)) else fin (x / 0)) = inf false
  rw [if_pos rfl, if_neg h.ne', hneg]

theorem mul_inf_pos {x : ℝ} (h : 0 < x) : fin x * inf false = inf false := by
  have hneg : isNeg x = false := decide_eq_false (not_lt.mpr h.le)
  show (if x = 0 then nan else inf (isNeg x != false)) = inf false
  rw [if_neg h.ne', hneg]
  rfl

theorem zero_mul_inf (s : Bool) : fin 0 * inf s = nan := if_pos rfl

theorem zero_div_zero : fin 0 / fin 0 = nan := by
  show (if (0 : ℝ) = 0 then (if (0 : ℝ) = 0 then nan else inf (isNeg 0)) else fin (0 / 0)) = nan
  rw [if_pos rfl, if_pos rfl]

@[simp] theorem le_inf (x : ℝ) : le (fin x) (inf false) = true := rfl
@[simp] theorem nan_mul (x : XReal) : nan * x = nan := by cases x <;> rfl
@[simp] theorem mul_nan (x : XReal) : x * nan = nan := by cases x <;> rfl
@[simp] theorem nan_add (x : XReal) : nan + x = nan := by cases x <;> rfl
@[simp] theorem add_nan (x : XReal) : x + nan = nan := by cases x <;> rfl
@[simp] theorem nan_le (x : XReal) : le nan x = false := by cases x <;> rfl
@[simp] theorem le_nan (x : XReal) : le x nan = false := by cases x <;> rfl

/-- A finite sum has finite terms. -/
theorem add_eq_fin {a b : XReal} {x : ℝ} (h : a + b = fin x) :
    ∃ u v, a = fin u ∧ b = fin v := by
  cases a with
  | fin u =>
    cases b with
    | fin v => exact ⟨u, v, rfl, rfl⟩
    | nan => cases h
    | inf t => cases h
  | nan => cases b <;> cases h
  | inf s =>
    cases b with
    | fin v => cases h
    | nan => cases h
    | inf t => cases s <;> cases t <;> cases h

theorem sub_eq_fin {a b : XReal} {x : ℝ} (h : a - b = fin x) : ∃ u, a = fin u := by
  obtain ⟨u, -, hu, -⟩ := add_eq_fin (show a + -b = fin x from h)
  exact ⟨u, hu⟩

/-- A finite product has finite factors. -/
theorem mul_eq_fin {a b : XReal} {x : ℝ} (h : a * b = fin x) :
    ∃ u v, a = fin u ∧ b = fin v := by
  cases a with
  | nan => cases b <;> cases h
  | fin u =>
    cases b with
    | fin v => exact ⟨u, v, rfl, rfl⟩
    | nan => cases h
    | inf t =>
      have hinf : fin u * inf t = if u = 0 then nan else inf (isNeg u != t) := rfl
      rw [hinf] at h
      split at h <;> cases h
  | inf s =>
    cases b with
    | fin v =>
      have hinf : inf s * fin v = if v = 0 then nan else inf (s != isNeg v) := rfl
      rw [hinf] at h
      split at h <;> cases h
    | nan => cases h
    | inf t => cases h

/-! ## Conversion to integers -/

theorem cut_error (x : ℝ) : |(cut x : ℝ) - x| ≤ 1 := by
  unfold cut
  rw [abs_le]
  split
  · constructor
    · linarith [Int.lt_floor_add_one x]
    · linarith [Int.floor_le x]
  · constructor
    · linarith [Int.le_ceil x]
    · linarith [Int.ceil_lt_add_one x]

theorem cut_abs_le {x : ℝ} {n : ℤ} (h : |x| ≤ n) : |cut x| ≤ n := by
  have hx := abs_le.mp h
  unfold cut
  rw [abs_le]
  split
  · exact ⟨Int.le_floor.mpr (by push_cast; exact hx.1),
      by exact_mod_cast (Int.floor_le x).trans hx.2⟩
  · constructor
    · have hceil : ((-n : ℤ) : ℝ) ≤ ⌈x⌉ := by
        push_cast
        exact hx.1.trans (Int.le_ceil x)
      exact_mod_cast hceil
    · exact Int.ceil_le.mpr hx.2

theorem fin_toInt32 {x : ℝ} (h : |x| ≤ 2 ^ 31 - 1) : toInt32 (fin x) = .ret (cut x) := by
  have hcut : |cut x| ≤ 2 ^ 31 - 1 := cut_abs_le (h.trans (by norm_num))
  have hrange := abs_le.mp hcut
  exact if_pos ⟨by linarith, by linarith⟩

end XReal

end Robot
