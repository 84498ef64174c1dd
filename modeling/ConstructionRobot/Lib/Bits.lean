import Mathlib.Data.Nat.Bitwise

/-!
# Numbers gathered from the bits of a buffer

A buffer of bytes is a stream of bits: bit `m` of the stream is bit `m % 8` of byte `m / 8`. A
number is gathered from pieces: of one byte each, the bits of a mask, shifted right and then left.

* `Gathers ps start width`: the pieces `ps` are the bits from `start` on, `width` of them. For a
  concrete list of pieces this can be decided, and it says nothing about a buffer.
* `gather_testBit`: if so, then the number has exactly these bits, in every buffer.
* `Gathers.value_lt`, `Gathers.gather_lt`: no piece and no part of the sum is longer.
-/

namespace Robot

variable {n : ℕ}

/-- Bit `m` of a buffer. -/
def streamBit (buff : Fin n → UInt8) (m : ℕ) : Bool :=
  if h : m / 8 < n then (buff ⟨m / 8, h⟩).toNat.testBit (m % 8) else false

/-- A piece of a number: `((buff[byte] & mask) >> right) << left`. -/
structure Piece (n : ℕ) where
  byte : Fin n
  mask : ℕ
  right : ℕ
  left : ℕ
  deriving DecidableEq, Repr

namespace Piece

def masked (buff : Fin n → UInt8) (p : Piece n) : ℕ := (buff p.byte).toNat &&& p.mask
def lowered (buff : Fin n → UInt8) (p : Piece n) : ℕ := p.masked buff >>> p.right
def value (buff : Fin n → UInt8) (p : Piece n) : ℕ := p.lowered buff <<< p.left

/-- The bits of the number that the piece can set. -/
def reach (p : Piece n) : ℕ := (p.mask >>> p.right) <<< p.left

end Piece

/-- The pieces together. -/
def gather (buff : Fin n → UInt8) (ps : List (Piece n)) : ℕ :=
  ps.foldl (fun v p => v ||| p.value buff) 0

/-- The pieces are the bits of the stream from `start` on, `width` of them. -/
structure Gathers (ps : List (Piece n)) (start width : ℕ) : Prop where
  place : ∀ p ∈ ps, p.mask < 2 ^ 8 ∧ 8 * p.byte.val + p.right = start + p.left
  bound : ∀ p ∈ ps, p.reach < 2 ^ width
  cover : ∀ k < width, ∃ p ∈ ps, p.reach.testBit k

/-- A number of `width` bits has no bit behind them. -/
theorem lt_of_testBit {v width k : ℕ} (hv : v < 2 ^ width) (hset : v.testBit k = true) :
    k < width :=
  (Nat.pow_lt_pow_iff_right (by decide)).1 (lt_of_le_of_lt (Nat.ge_two_pow_of_testBit hset) hv)

/-! ## One piece -/

theorem streamBit_add (buff : Fin n → UInt8) (b : Fin n) {k : ℕ} (hk : k < 8) :
    streamBit buff (8 * b.val + k) = (buff b).toNat.testBit k := by
  have hdiv : (8 * b.val + k) / 8 = b := by omega
  have hmod : (8 * b.val + k) % 8 = k := by omega
  simp only [streamBit, hdiv, hmod, b.isLt, dif_pos]

/-- Where a piece that is in its place can set a bit, it sets the bit of the stream. -/
theorem Piece.value_testBit (buff : Fin n → UInt8) {p : Piece n} {start : ℕ}
    (hmask : p.mask < 2 ^ 8) (hplace : 8 * p.byte.val + p.right = start + p.left) (k : ℕ) :
    (p.value buff).testBit k = (p.reach.testBit k && streamBit buff (start + k)) := by
  simp only [value, lowered, masked, reach, Nat.testBit_shiftLeft, Nat.testBit_shiftRight,
    Nat.testBit_and]
  by_cases hk : p.left ≤ k
  · cases hset : p.mask.testBit (p.right + (k - p.left)) with
    | false => simp
    | true =>
      -- a bit of the mask is a bit of a byte, so `start + k` is in the byte of the piece
      have hlt : p.right + (k - p.left) < 8 := lt_of_testBit hmask hset
      have hat : start + k = 8 * p.byte.val + (p.right + (k - p.left)) := by omega
      rw [hat, streamBit_add buff p.byte hlt]
      simp [hk]
  · simp [hk]

/-- A piece has no bits but those it can set. -/
theorem Piece.value_le_reach (buff : Fin n → UInt8) (p : Piece n) : p.value buff ≤ p.reach := by
  simp only [value, lowered, masked, reach, Nat.shiftLeft_eq, Nat.shiftRight_eq_div_pow]
  exact Nat.mul_le_mul_right _ (Nat.div_le_div_right Nat.and_le_right)

/-! ## All pieces -/

theorem foldl_or_testBit (buff : Fin n → UInt8) (ps : List (Piece n)) (v k : ℕ) :
    (ps.foldl (fun v p => v ||| p.value buff) v).testBit k =
      (v.testBit k || ps.any fun p => (p.value buff).testBit k) := by
  induction ps generalizing v with
  | nil => simp
  | cons p ps ih => rw [List.foldl_cons, ih, Nat.testBit_or, List.any_cons, Bool.or_assoc]

/-- The number has the bits of the stream from `start` on, and no others. -/
theorem gather_testBit (buff : Fin n → UInt8) {ps : List (Piece n)} {start width : ℕ}
    (h : Gathers ps start width) (k : ℕ) :
    (gather buff ps).testBit k = (decide (k < width) && streamBit buff (start + k)) := by
  have hone : ∀ p ∈ ps,
      (p.value buff).testBit k = (p.reach.testBit k && streamBit buff (start + k)) :=
    fun p hp => Piece.value_testBit buff (h.place p hp).1 (h.place p hp).2 k
  rw [gather, foldl_or_testBit, Nat.zero_testBit, Bool.false_or, Bool.eq_iff_iff]
  simp only [List.any_eq_true, Bool.and_eq_true, decide_eq_true_eq]
  constructor
  · rintro ⟨p, hp, hset⟩
    rw [hone p hp, Bool.and_eq_true] at hset
    exact ⟨lt_of_testBit (h.bound p hp) hset.1, hset.2⟩
  · rintro ⟨hk, hbit⟩
    obtain ⟨p, hp, hset⟩ := h.cover k hk
    exact ⟨p, hp, by rw [hone p hp, hset, hbit, Bool.true_and]⟩

/-- The number is known from its bits. -/
theorem gather_eq (buff : Fin n → UInt8) {ps : List (Piece n)} {start width v : ℕ}
    (h : Gathers ps start width) (hv : v < 2 ^ width)
    (hbits : ∀ k < width, streamBit buff (start + k) = v.testBit k) : gather buff ps = v := by
  refine Nat.eq_of_testBit_eq fun k => ?_
  rw [gather_testBit buff h]
  by_cases hk : k < width
  · simp [hk, hbits k hk]
  · have hclear : v.testBit k = false := Bool.eq_false_iff.2 fun hset => hk (lt_of_testBit hv hset)
    simp [hk, hclear]

namespace Gathers

variable {ps : List (Piece n)} {start width : ℕ}

theorem value_lt (h : Gathers ps start width) (buff : Fin n → UInt8) {p : Piece n} (hp : p ∈ ps) :
    p.value buff < 2 ^ width :=
  lt_of_le_of_lt (p.value_le_reach buff) (h.bound p hp)

theorem gather_lt (h : Gathers ps start width) (buff : Fin n → UInt8) {qs : List (Piece n)}
    (hqs : qs ⊆ ps) : gather buff qs < 2 ^ width := by
  suffices hfold : ∀ v < 2 ^ width, qs.foldl (fun v p => v ||| p.value buff) v < 2 ^ width from
    hfold 0 (Nat.two_pow_pos width)
  induction qs with
  | nil => exact fun v hv => hv
  | cons q qs ih =>
    intro v hv
    obtain ⟨hq, hqs⟩ := List.cons_subset.1 hqs
    exact ih hqs _ (Nat.or_lt_two_pow hv (h.value_lt buff hq))

end Gathers

end Robot
