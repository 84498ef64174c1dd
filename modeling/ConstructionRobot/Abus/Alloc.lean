import ConstructionRobot.Abus.Afifo
import Mathlib.Data.Nat.Size
import Mathlib.Order.Bounds.Basic

/-!
# Making a ring buffer (`afifo_alloc`)

`afifo_alloc` rounds the size up to a power of two, takes that many bytes from the heap and calls
`afifo_init`. `is_power_of_2` has an `int` as its argument and the sizes are unsigned: `2 ^ 31` is
a power of two that the test rejects.

* `fls_toNat`: the loop of `fls` finds the number of bits.
* `roundupPowOfTwo_eq`: so `roundup_pow_of_two` gives the least power of two that is large enough.
* `afifoAlloc_small`, `afifoAlloc_large`: the call returns for sizes up to `2 ^ 30`; above, the
  rounded size fails the test in `afifo_init` and `BUG_ON` spins.
* `afifoAlloc_ret`: whatever the call returns is a buffer in order, with nothing in it.
-/

namespace Robot

/-- The loop of `fls`: shift until nothing is left, and count. -/
def flsLoop (i position : UInt32) : UInt32 :=
  if i = 0 then position else flsLoop (i >>> 1) (position + 1)
termination_by i.toNat
decreasing_by
  rename_i h
  have hpos : i.toNat ≠ 0 := fun h0 => h (UInt32.toNat_inj.mp h0)
  rw [UInt32.toNat_shiftRight, Nat.shiftRight_eq_div_pow]
  exact Nat.div_lt_self (Nat.pos_of_ne_zero hpos) (by decide)

/-- `fls`; for `x = 0` the position is `-1`, and the sum wraps to zero. -/
def fls (x : UInt32) : UInt32 :=
  let position := if x ≠ 0 then flsLoop (x >>> 1) 0 else -1
  position + 1

/-- `roundup_pow_of_two`. A shift of a 32-bit number by 32 has no meaning in C. -/
def roundupPowOfTwo (size : UInt32) : Call UInt32 :=
  if fls (size - 1) < 32 then .ret (1 <<< fls (size - 1)) else .fault

/-- The size with which `afifo_alloc` goes on. -/
def afifoAllocSize (size : UInt32) : Call UInt32 :=
  if !isPowerOf2 (sint 32 size.toNat) then do
    bugOn (0x80000000 < size)
    roundupPowOfTwo size
  else pure size

/-- `afifo_alloc`: `kmalloc` gives the bytes of the buffer, `mallocOk` is the result of the
`kmalloc` in `afifo_init`. What is freed when that one fails is not followed. -/
def afifoAlloc (kmalloc : UInt32 → Option (List UInt8)) (mallocOk : Bool) (size : UInt32) :
    Call (Option Afifo) := do
  let size ← afifoAllocSize size
  match kmalloc size with
  | none => pure none
  | some buffer => afifoInit buffer size mallocOk

/-- `n` is the least power of two that is not below `size`. -/
def LeastPow2 (size n : ℕ) : Prop := IsLeast {m | size ≤ m ∧ ∃ k, m = 2 ^ k} n

/-! ## Rounding up -/

theorem natSize_half {n : ℕ} (h : n ≠ 0) : n.size = (n / 2).size + 1 := by
  have hbit : Nat.bit (n.testBit 0) (n / 2) = n := by
    rw [← Nat.shiftRight_one]
    exact Nat.bit_testBit_zero_shiftRight_one n
  have hs : (Nat.bit (n.testBit 0) (n / 2)).size = (n / 2).size + 1 := by
    apply Nat.size_bit
    rw [hbit]
    exact h
  rwa [hbit] at hs

theorem natSize_le_32 (x : UInt32) : x.toNat.size ≤ 32 := Nat.size_le.mpr x.toNat_lt

theorem shiftRight_one_toNat (x : UInt32) : (x >>> 1).toNat = x.toNat / 2 := by
  rw [UInt32.toNat_shiftRight, Nat.shiftRight_eq_div_pow]
  rfl

/-- The loop counts the bits that are left; `position` does not wrap on the way. -/
theorem flsLoop_toNat (i position : UInt32) (h : position.toNat + i.toNat.size < 2 ^ 32) :
    (flsLoop i position).toNat = position.toNat + i.toNat.size := by
  fun_induction flsLoop i position with
  | case1 position => simp
  | case2 i position hi ih =>
    have hpos : i.toNat ≠ 0 := fun h0 => hi (UInt32.toNat_inj.mp h0)
    have hsize := natSize_half hpos
    have hadd : (position + 1).toNat = position.toNat + 1 := by
      rw [UInt32.toNat_add]
      exact Nat.mod_eq_of_lt (by simp; omega)
    rw [shiftRight_one_toNat, hadd] at ih
    rw [ih (by omega)]
    omega

/-- `fls` is the number of bits of `x`. -/
theorem fls_toNat (x : UInt32) : (fls x).toNat = x.toNat.size := by
  by_cases hx : x = 0
  · subst hx
    simp [fls]
  · have hpos : x.toNat ≠ 0 := fun h0 => hx (UInt32.toNat_inj.mp h0)
    have hsize := natSize_half hpos
    have hle := natSize_le_32 x
    have hloop := flsLoop_toNat (x >>> 1) 0
    rw [shiftRight_one_toNat, UInt32.toNat_zero, Nat.zero_add] at hloop
    have hpos' : (fls x).toNat = ((flsLoop (x >>> 1) 0).toNat + 1) % 2 ^ 32 := by
      simp [fls, hx]
    rw [hpos', hloop (by omega), Nat.mod_eq_of_lt (by omega), hsize]

/-- The powers of two that are not below `size` start at the number of bits of `size - 1`. -/
theorem leastPow2_size {size : ℕ} (h : 1 ≤ size) : LeastPow2 size (2 ^ (size - 1).size) := by
  refine ⟨⟨?_, _, rfl⟩, ?_⟩
  · have := Nat.lt_size_self (size - 1)
    omega
  · rintro m ⟨hle, k, rfl⟩
    apply Nat.pow_le_pow_right (by decide)
    exact Nat.size_le.mpr (by omega)

theorem leastPow2_pow (k : ℕ) : LeastPow2 (2 ^ k) (2 ^ k) :=
  ⟨⟨le_rfl, k, rfl⟩, fun _ hm => hm.1⟩

theorem roundupPowOfTwo_eq {size : UInt32} (h1 : 1 ≤ size.toNat)
    (h2 : size.toNat ≤ 0x80000000) :
    ∃ n, roundupPowOfTwo size = .ret n ∧ LeastPow2 size.toNat n.toNat := by
  have hsub : (size - 1).toNat = size.toNat - 1 :=
    UInt32.toNat_sub_of_le _ _ (UInt32.le_iff_toNat_le.mpr h1)
  have hfls : (fls (size - 1)).toNat = (size.toNat - 1).size := by rw [fls_toNat, hsub]
  have hbits : (size.toNat - 1).size ≤ 31 := Nat.size_le.mpr (by omega)
  have hlt : fls (size - 1) < 32 := UInt32.lt_iff_toNat_lt.mpr (by rw [hfls]; simp; omega)
  refine ⟨_, if_pos hlt, ?_⟩
  have hpow : 2 ^ (size.toNat - 1).size < 2 ^ 32 := Nat.pow_lt_pow_right (by decide) (by omega)
  have hval : (1 <<< fls (size - 1) : UInt32).toNat = 2 ^ (size.toNat - 1).size := by
    rw [UInt32.toNat_shiftLeft, hfls, Nat.mod_eq_of_lt (show _ < 32 by omega), Nat.shiftLeft_eq,
      UInt32.toNat_one, Nat.one_mul, Nat.mod_eq_of_lt hpow]
  rw [hval]
  exact leastPow2_size h1

/-- A size from 1 to `2 ^ 31` is rounded up, and the first `BUG_ON` is passed. -/
theorem afifoAllocSize_eq {size : UInt32} (h1 : 1 ≤ size.toNat) (h2 : size.toNat ≤ 0x80000000) :
    ∃ n, afifoAllocSize size = .ret n ∧ LeastPow2 size.toNat n.toNat := by
  by_cases hp : isPowerOf2 (sint 32 size.toNat) = true
  · refine ⟨size, ?_, ?_⟩
    · rw [afifoAllocSize, hp]
      rfl
    · obtain ⟨k, -, hpow⟩ := isPowerOf2_size.mp hp
      rw [hpow]
      exact leastPow2_pow k
  · rw [Bool.not_eq_true] at hp
    have hbug : ¬ 0x80000000 < size := by
      have hlit : (0x80000000 : UInt32).toNat = 0x80000000 := by decide
      rw [UInt32.lt_iff_toNat_lt, hlit]
      omega
    have hround : afifoAllocSize size = roundupPowOfTwo size := by
      simp [afifoAllocSize, hp, bugOn, hbug]
    rw [hround]
    exact roundupPowOfTwo_eq h1 h2

/-! ## The call -/

section Call

variable (kmalloc : UInt32 → Option (List UInt8)) (mallocOk : Bool) {size : UInt32}

/-- For a size that the call admits, what is left is `afifo_init` with the rounded size. -/
theorem afifoAlloc_eq (hk : ∀ n, ∃ buffer, kmalloc n = some buffer) (h1 : 1 ≤ size.toNat)
    (h2 : size.toNat ≤ 0x80000000) :
    ∃ n buffer, LeastPow2 size.toNat n.toNat ∧
      afifoAlloc kmalloc mallocOk size = afifoInit buffer n mallocOk := by
  obtain ⟨n, hret, hleast⟩ := afifoAllocSize_eq h1 h2
  obtain ⟨buffer, hb⟩ := hk n
  refine ⟨n, buffer, hleast, ?_⟩
  rw [afifoAlloc, hret, Call.ret_bind, hb]

/-- Up to `2 ^ 30` the rounded size passes the test again. -/
theorem LeastPow2.small {n : ℕ} (h : LeastPow2 size.toNat n) (hs : size.toNat ≤ 0x40000000) :
    ∃ k, k ≤ 30 ∧ n = 2 ^ k := by
  obtain ⟨⟨-, k, rfl⟩, hleast⟩ := h
  have hle : 2 ^ k ≤ 2 ^ 30 := hleast ⟨hs, 30, rfl⟩
  exact ⟨k, (Nat.pow_le_pow_iff_right (by decide)).mp hle, rfl⟩

/-- Above `2 ^ 30` it is `2 ^ 31` at least, which is negative as an `int`. -/
theorem LeastPow2.large {n : ℕ} (h : LeastPow2 size.toNat n) (hs : 0x40000000 < size.toNat) :
    ¬ ∃ k, k ≤ 30 ∧ n = 2 ^ k := by
  rintro ⟨k, hk, rfl⟩
  have hle := h.1.1
  have := Nat.pow_le_pow_right (show 0 < 2 by decide) hk
  omega

theorem afifoAlloc_small (hk : ∀ n, ∃ buffer, kmalloc n = some buffer) (h1 : 1 ≤ size.toNat)
    (hs : size.toNat ≤ 0x40000000) :
    ∃ fifo, afifoAlloc kmalloc true size = .ret (some fifo) ∧
      LeastPow2 size.toNat fifo.size.toNat ∧ fifo.inIdx = 0 ∧ fifo.outIdx = 0 := by
  obtain ⟨n, buffer, hleast, heq⟩ := afifoAlloc_eq kmalloc true hk h1 (by omega)
  have hp : isPowerOf2 (sint 32 n.toNat) = true := isPowerOf2_size.mpr (hleast.small hs)
  rw [afifoInit_eq hp] at heq
  exact ⟨_, heq, hleast, rfl, rfl⟩

theorem afifoAlloc_large (hk : ∀ n, ∃ buffer, kmalloc n = some buffer)
    (hs : 0x40000000 < size.toNat) (h2 : size.toNat ≤ 0x80000000) :
    afifoAlloc kmalloc mallocOk size = .hang := by
  obtain ⟨n, buffer, hleast, heq⟩ := afifoAlloc_eq kmalloc mallocOk hk (by omega) h2
  have hp : isPowerOf2 (sint 32 n.toNat) = false := by
    rw [← Bool.not_eq_true]
    exact fun h => hleast.large hs (isPowerOf2_size.mp h)
  rw [heq, afifoInit, hp]
  rfl

/-- A buffer that the call returns is in order and empty, whatever the size was. -/
theorem afifoAlloc_ret {fifo : Afifo}
    (hk : ∀ n buffer, kmalloc n = some buffer → buffer.length = n.toNat)
    (h : afifoAlloc kmalloc mallocOk size = .ret (some fifo)) : fifo.WF ∧ fifo.queue = [] := by
  unfold afifoAlloc at h
  obtain ⟨n, -, h⟩ := Call.bind_eq_ret.mp h
  cases hb : kmalloc n with
  | none =>
    rw [hb] at h
    cases h
  | some buffer =>
    rw [hb] at h
    obtain ⟨hwf, hqueue, -⟩ := afifoInit_ret (hk n buffer hb) h
    exact ⟨hwf, hqueue⟩

end Call

/-- With memory to be had, and a size from 1 to `2 ^ 31`, `afifo_alloc` returns an empty buffer of
the rounded size exactly if the size is at most `2 ^ 30`. -/
theorem afifoAlloc_rounds_up_iff (kmalloc : UInt32 → Option (List UInt8))
    (hk : ∀ n, ∃ buffer, kmalloc n = some buffer) (size : UInt32) (h1 : 1 ≤ size.toNat)
    (h2 : size.toNat ≤ 0x80000000) :
    (∃ fifo, afifoAlloc kmalloc true size = .ret (some fifo) ∧
      LeastPow2 size.toNat fifo.size.toNat ∧ fifo.inIdx = 0 ∧ fifo.outIdx = 0) ↔
      size.toNat ≤ 0x40000000 := by
  constructor
  · rintro ⟨fifo, hret, -⟩
    by_contra hs
    rw [afifoAlloc_large kmalloc true hk (by omega) h2] at hret
    cases hret
  · exact afifoAlloc_small kmalloc hk h1

/-- A heap that gives every size. -/
def zeroHeap (n : UInt32) : Option (List UInt8) := some (List.replicate n.toNat 0)

theorem afifoAlloc_rounds_up_five :
    (∃ fifo, afifoAlloc zeroHeap true 5 = .ret (some fifo) ∧
      LeastPow2 5 fifo.size.toNat ∧ fifo.inIdx = 0 ∧ fifo.outIdx = 0) ↔ 5 ≤ 0x40000000 :=
  afifoAlloc_rounds_up_iff zeroHeap (fun _ => ⟨_, rfl⟩) 5 (by decide) (by decide)

/-- The first size that is rounded to `2 ^ 31` is admitted, and the call does not return. -/
theorem afifoAlloc_hangs :
    ¬ ∀ size : UInt32, 1 ≤ size.toNat → size.toNat ≤ 0x80000000 →
      ∃ fifo, afifoAlloc zeroHeap true size = .ret (some fifo) ∧
        LeastPow2 size.toNat fifo.size.toNat ∧ fifo.inIdx = 0 ∧ fifo.outIdx = 0 := by
  intro h
  obtain ⟨fifo, hret, -⟩ := h 0x40000001 (by decide) (by decide)
  rw [afifoAlloc_large zeroHeap true (fun _ => ⟨_, rfl⟩) (by decide) (by decide)] at hret
  cases hret

end Robot
