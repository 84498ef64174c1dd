import Mathlib.Data.Rat.Floor

/-!
# Calls of C functions

How a call of a C function ends (`Call`), and the two conversions between numbers that the
sources use everywhere: a float cut towards zero (`trunc`) and an integer stored in a signed type
of `w` bits (`sint`).

* `Call.ret a`: the call returns `a`.
* `Call.hang`: the call spins in a `while (1)` and does not return.
* `Call.fault`: the call reads or writes outside an object, or follows a null pointer. The
  standard gives such a run no meaning, so nothing is said about what comes after.
-/

namespace Robot

/-- How a call of a C function ends. -/
inductive Call (α : Type) where
  | ret (a : α)
  | hang
  | fault
  deriving DecidableEq, Repr

namespace Call

variable {α β : Type}

/-- The rest of the program runs only if the call returned. -/
protected def bind (c : Call α) (f : α → Call β) : Call β :=
  match c with
  | ret a => f a
  | hang => hang
  | fault => fault

instance : Monad Call where
  pure := ret
  bind := Call.bind

@[simp] theorem pure_eq (a : α) : (pure a : Call α) = ret a := rfl

@[simp] theorem ret_bind (a : α) (f : α → Call β) : (ret a >>= f) = f a := rfl

@[simp] theorem hang_bind (f : α → Call β) : (hang >>= f) = hang := rfl

@[simp] theorem fault_bind (f : α → Call β) : (fault >>= f) = fault := rfl

/-- A sequence of two calls returns exactly if both do. -/
theorem bind_eq_ret {c : Call α} {f : α → Call β} {b : β} :
    (c >>= f) = ret b ↔ ∃ a, c = ret a ∧ f a = ret b := by
  cases c <;> simp

/-- What the call returns, if it does. -/
def ret? : Call α → Option α
  | ret a => some a
  | _ => none

@[simp] theorem ret?_ret (a : α) : (ret a).ret? = some a := rfl
@[simp] theorem ret?_hang : (hang : Call α).ret? = none := rfl
@[simp] theorem ret?_fault : (fault : Call α).ret? = none := rfl

theorem ret?_eq_some {c : Call α} {a : α} : c.ret? = some a ↔ c = ret a := by
  cases c <;> simp [ret?]

/-- The same for calls that work on a state. -/
theorem stateT_bind_eq_ret {σ : Type} {m : StateT σ Call α} {f : α → StateT σ Call β} {s : σ}
    {r : β × σ} : (m >>= f) s = ret r ↔ ∃ a s₁, m s = ret (a, s₁) ∧ f a s₁ = ret r := by
  show (m s >>= fun p => f p.1 p.2) = ret r ↔ _
  rw [bind_eq_ret, Prod.exists]

end Call

/-- A number cut towards zero, as C converts a float to an integer. -/
def trunc (q : ℚ) : ℤ := q.num.tdiv q.den

section Trunc

variable {a : ℤ} {q : ℚ}

/-- The part that is cut off does not take the number past an integer. -/
theorem le_trunc (h : a ≤ q) : a ≤ trunc q := by
  have hd : (0 : ℤ) < q.den := by exact_mod_cast q.den_pos
  have hnum : a * (q.den : ℤ) ≤ q.num := by
    have : (a : ℚ) * q.den ≤ q.num := by
      rw [← Rat.mul_den_eq_num q]
      exact mul_le_mul_of_nonneg_right h (Nat.cast_nonneg _)
    exact_mod_cast this
  have := Int.tdiv_le_tdiv hd hnum
  rwa [Int.mul_tdiv_cancel _ hd.ne'] at this

/-- A cut towards zero is symmetric. -/
theorem trunc_neg (q : ℚ) : trunc (-q) = -trunc q := by
  rw [trunc, trunc, Rat.num_neg_eq_neg_num, Rat.den_neg_eq_den, Int.neg_tdiv]

theorem trunc_le (h : q ≤ a) : trunc q ≤ a := by
  have hneg : ((-a : ℤ) : ℚ) ≤ -q := by
    rw [Int.cast_neg]
    exact neg_le_neg h
  have := le_trunc hneg
  rw [trunc_neg] at this
  omega

end Trunc

/-- The integer `x` stored in a signed type of `w` bits. -/
def sint (w : ℕ) (x : ℤ) : ℤ := x.bmod (2 ^ w)

/-- A value in the range of the type is stored as itself. -/
theorem sint_eq_self {w : ℕ} (hw : 0 < w) {x : ℤ} (h1 : -2 ^ (w - 1) ≤ x) (h2 : x < 2 ^ (w - 1)) :
    sint w x = x := by
  have hp : ((2 ^ w : ℕ) : ℤ) = 2 * 2 ^ (w - 1) := by
    rw [Nat.cast_pow, Nat.cast_ofNat, ← pow_succ']
    congr 1
    omega
  unfold sint
  exact Int.bmod_eq_of_le (by omega) (by omega)

end Robot
