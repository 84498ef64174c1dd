import ConstructionRobot.Lib.Ring
import Mathlib.Data.Nat.Bitwise

/-!
# The ring buffer (`afifo.c`, `afifo.h`)

The buffer has `size` bytes, a power of two. `in` and `out` count the bytes put in and taken out;
they are 32-bit and wrap, and a byte stands at its number masked with `size - 1`. The spin lock
functions do nothing and are left out.

* `Afifo.queue`: the bytes between `out` and `in`, as a list.
* `Afifo.WF`: the invariant of a buffer made by `afifo_init`.
* `afifoIn_spec`, `afifoOutData_spec`, `afifoAddOut_spec`, `afifoReset_spec`: one operation, on the
  queue. All copies stay in their objects: the calls return.
* `afifoOut_eq`: `afifo_out` is `afifo_out_data` followed by `afifo_add_out`.
-/

namespace Robot

/-- `afifo_t`; `inIdx` and `outIdx` are its fields `in` and `out`. -/
structure Afifo where
  buffer : List UInt8
  size : UInt32
  inIdx : UInt32
  outIdx : UInt32
  deriving DecidableEq, Repr

/-- The macro `min`. -/
def cmin (a b : UInt32) : UInt32 := if a < b then a else b

/-- `BUG_ON`. -/
def bugOn (b : Bool) : Call Unit := if b then .hang else .ret ()

/-- The loop of `is_power_of_2`, from a positive number. -/
def halveLoop (n : ℕ) (h : 0 < n) : Bool :=
  if _ : n = 1 then true
  else if n % 2 = 0 then halveLoop (n / 2) (by omega)
  else false
termination_by n

/-- `is_power_of_2`. -/
def isPowerOf2 (n : ℤ) : Bool :=
  if h : n ≤ 0 then false else halveLoop n.toNat (by omega)

/-- `afifo_init`: the size is passed on as an `int`; `mallocOk` is the result of `kmalloc`. -/
def afifoInit (buffer : List UInt8) (size : UInt32) (mallocOk : Bool) : Call (Option Afifo) := do
  bugOn (!isPowerOf2 (sint 32 size.toNat))
  if mallocOk then pure (some { buffer := buffer, size := size, inIdx := 0, outIdx := 0 })
  else pure none

namespace Afifo

/-- `afifo_get_used`. -/
def getUsed (fifo : Afifo) : UInt32 := fifo.inIdx - fifo.outIdx

/-- `afifo_get_free`. -/
def getFree (fifo : Afifo) : UInt32 := fifo.size - fifo.getUsed

/-- The place of byte number `i`. -/
def place (fifo : Afifo) (i : UInt32) : UInt32 := i &&& (fifo.size - 1)

end Afifo

/-- `__afifo_in`: the buffer after the call, and the number of bytes put in. -/
def afifoIn (fifo : Afifo) (buffer : List UInt8) (len : UInt32) : Call (Afifo × UInt32) := do
  let len := cmin len (fifo.size - fifo.inIdx + fifo.outIdx)
  let l := cmin len (fifo.size - fifo.place fifo.inIdx)
  let buf ← memcpy fifo.buffer (fifo.place fifo.inIdx).toNat buffer 0 l.toNat
  let buf ← memcpy buf 0 buffer l.toNat (len - l).toNat
  pure ({ fifo with buffer := buf, inIdx := fifo.inIdx + len }, len)

/-- `__afifo_in_data` has the body of `__afifo_in`. -/
def afifoInData (fifo : Afifo) (buffer : List UInt8) (len : UInt32) : Call (Afifo × UInt32) :=
  afifoIn fifo buffer len

/-- `__afifo_out_data`: the buffer of the caller after the call, and the number of bytes. -/
def afifoOutData (fifo : Afifo) (buffer : List UInt8) (len : UInt32) :
    Call (List UInt8 × UInt32) := do
  let len := cmin len (fifo.inIdx - fifo.outIdx)
  let l := cmin len (fifo.size - fifo.place fifo.outIdx)
  let buffer ← memcpy buffer 0 fifo.buffer (fifo.place fifo.outIdx).toNat l.toNat
  let buffer ← memcpy buffer l.toNat fifo.buffer 0 (len - l).toNat
  pure (buffer, len)

/-- `__afifo_out`. -/
def afifoOut (fifo : Afifo) (buffer : List UInt8) (len : UInt32) :
    Call (Afifo × List UInt8 × UInt32) := do
  let len := cmin len (fifo.inIdx - fifo.outIdx)
  let l := cmin len (fifo.size - fifo.place fifo.outIdx)
  let buffer ← memcpy buffer 0 fifo.buffer (fifo.place fifo.outIdx).toNat l.toNat
  let buffer ← memcpy buffer l.toNat fifo.buffer 0 (len - l).toNat
  pure ({ fifo with outIdx := fifo.outIdx + len }, buffer, len)

/-- `afifo_add_out`. -/
def afifoAddOut (fifo : Afifo) (len : UInt32) : Afifo × UInt32 :=
  let len := cmin len (fifo.inIdx - fifo.outIdx)
  ({ fifo with outIdx := fifo.outIdx + len }, len)

/-- `afifo_reset`. -/
def afifoReset (fifo : Afifo) : Afifo := { fifo with inIdx := 0, outIdx := 0 }

/-- The bytes in the buffer, the oldest first. -/
def Afifo.queue (fifo : Afifo) : List UInt8 :=
  (List.range fifo.getUsed.toNat).map fun i =>
    fifo.buffer[(fifo.place (fifo.outIdx + UInt32.ofNat i)).toNat]!

/-! ## Sizes -/

theorem halveLoop_eq_true {n : ℕ} (h : 0 < n) : halveLoop n h = true ↔ ∃ k, n = 2 ^ k := by
  fun_induction halveLoop n h with
  | case1 h => exact ⟨fun _ => ⟨0, rfl⟩, fun _ => rfl⟩
  | case2 n h h1 h2 ih =>
    rw [ih]
    constructor
    · rintro ⟨k, hk⟩
      refine ⟨k + 1, ?_⟩
      rw [Nat.pow_succ, ← hk]
      omega
    · rintro ⟨k, hk⟩
      cases k with
      | zero => exact absurd hk h1
      | succ k =>
        refine ⟨k, ?_⟩
        rw [hk, Nat.pow_succ]
        omega
  | case3 n h h1 h2 =>
    refine ⟨fun hf => absurd hf Bool.false_ne_true, ?_⟩
    rintro ⟨k, hk⟩
    cases k with
    | zero => exact absurd hk h1
    | succ k =>
      rw [hk, Nat.pow_succ] at h2
      omega

/-- The sizes that `afifo_init` accepts are the powers of two up to `2 ^ 30`. -/
theorem isPowerOf2_size {size : UInt32} :
    isPowerOf2 (sint 32 size.toNat) = true ↔ ∃ k, k ≤ 30 ∧ size.toNat = 2 ^ k := by
  have hlt := size.toNat_lt
  unfold isPowerOf2
  by_cases h : size.toNat < 2 ^ 31
  · have hs : sint 32 size.toNat = size.toNat := sint_eq_self (by decide) (by omega) (by omega)
    rw [hs]
    by_cases h0 : size.toNat = 0
    · rw [dif_pos (by omega)]
      refine ⟨fun hf => absurd hf Bool.false_ne_true, ?_⟩
      rintro ⟨k, -, hk⟩
      have := Nat.two_pow_pos k
      omega
    · rw [dif_neg (by omega), halveLoop_eq_true, Int.toNat_natCast]
      constructor
      · rintro ⟨k, hk⟩
        refine ⟨k, ?_, hk⟩
        have : k < 31 := (Nat.pow_lt_pow_iff_right (by decide)).mp (hk ▸ h)
        omega
      · rintro ⟨k, -, hk⟩
        exact ⟨k, hk⟩
  · -- the conversion to `int` makes it negative
    have hs : sint 32 size.toNat < 0 := by
      rw [sint, Int.bmod_def]
      split
      · omega
      · omega
    rw [dif_pos (by omega)]
    refine ⟨fun hf => absurd hf Bool.false_ne_true, ?_⟩
    rintro ⟨k, hk30, hk⟩
    have := Nat.pow_le_pow_right (show 0 < 2 by decide) hk30
    omega

/-- The invariant of a ring buffer. -/
structure Afifo.WF (fifo : Afifo) : Prop where
  pow2 : ∃ k, k ≤ 30 ∧ fifo.size.toNat = 2 ^ k
  buffer : fifo.buffer.length = fifo.size.toNat
  used : fifo.getUsed.toNat ≤ fifo.size.toNat

theorem afifoInit_eq {buffer : List UInt8} {size : UInt32}
    (hp : isPowerOf2 (sint 32 size.toNat) = true) :
    afifoInit buffer size true =
      .ret (some { buffer := buffer, size := size, inIdx := 0, outIdx := 0 }) := by
  rw [afifoInit, hp]
  rfl

theorem afifoInit_ret {buffer : List UInt8} {size : UInt32} {fifo : Afifo} {mallocOk : Bool}
    (hb : buffer.length = size.toNat) (h : afifoInit buffer size mallocOk = .ret (some fifo)) :
    fifo.WF ∧ fifo.queue = [] ∧ fifo.size = size := by
  unfold afifoInit at h
  obtain ⟨u, hbug, h⟩ := Call.bind_eq_ret.mp h
  have hp : isPowerOf2 (sint 32 size.toNat) = true := by
    unfold bugOn at hbug
    split at hbug
    · exact absurd hbug (by simp)
    · simp_all
  cases mallocOk with
  | false => simp at h
  | true =>
    simp only [↓reduceIte, Call.pure_eq, Call.ret.injEq, Option.some.injEq] at h
    subst h
    exact ⟨⟨isPowerOf2_size.mp hp, hb, by simp [Afifo.getUsed]⟩, by simp [Afifo.queue, Afifo.getUsed],
      rfl⟩

/-! ## Counters and places -/

theorem cmin_toNat (a b : UInt32) : (cmin a b).toNat = min a.toNat b.toNat := by
  unfold cmin
  by_cases h : a < b
  · rw [if_pos h]
    exact (Nat.min_eq_left (Nat.le_of_lt (UInt32.lt_iff_toNat_lt.mp h))).symm
  · rw [if_neg h]
    rw [UInt32.lt_iff_toNat_lt] at h
    exact (Nat.min_eq_right (Nat.le_of_not_lt h)).symm

namespace Afifo.WF

variable {fifo : Afifo}

theorem size_pos (h : fifo.WF) : 0 < fifo.size.toNat := by
  obtain ⟨k, -, hk⟩ := h.pow2
  rw [hk]
  exact Nat.two_pow_pos k

/-- The size divides the period of the counters. -/
theorem size_dvd (h : fifo.WF) : fifo.size.toNat ∣ 2 ^ 32 := by
  obtain ⟨k, hk30, hk⟩ := h.pow2
  rw [hk]
  exact Nat.pow_dvd_pow 2 (by omega)

/-- Masking is the remainder. -/
theorem place_toNat (h : fifo.WF) (i : UInt32) :
    (fifo.place i).toNat = i.toNat % fifo.size.toNat := by
  obtain ⟨k, hk30, hk⟩ := h.pow2
  have hle : (1 : UInt32) ≤ fifo.size := UInt32.le_iff_toNat_le.mpr h.size_pos
  have hone : (fifo.size - 1).toNat = 2 ^ k - 1 := by
    rw [UInt32.toNat_sub_of_le _ _ hle, hk]
    rfl
  unfold Afifo.place
  rw [UInt32.toNat_and, hone, Nat.and_two_pow_sub_one_eq_mod, hk]

theorem place_lt (h : fifo.WF) (i : UInt32) : (fifo.place i).toNat < fifo.buffer.length := by
  rw [h.place_toNat, h.buffer]
  exact Nat.mod_lt _ h.size_pos

/-- Counters that agree modulo `2 ^ 32` have the same place. -/
theorem place_add (h : fifo.WF) (i : UInt32) (n : ℕ) :
    (i.toNat + n) % 2 ^ 32 % fifo.size.toNat = (i.toNat + n) % fifo.size.toNat :=
  Nat.mod_mod_of_dvd _ h.size_dvd

/-- `in` is `used` bytes after `out`. -/
theorem place_in (h : fifo.WF) :
    (fifo.place fifo.inIdx).toNat =
      (fifo.outIdx.toNat + fifo.getUsed.toNat) % fifo.buffer.length := by
  have hin : fifo.inIdx.toNat = (fifo.outIdx.toNat + fifo.getUsed.toNat) % 2 ^ 32 := by
    have h1 := fifo.inIdx.toNat_lt
    have h2 := fifo.outIdx.toNat_lt
    unfold Afifo.getUsed
    rw [UInt32.toNat_sub]
    omega
  rw [h.place_toNat, hin, h.place_add, h.buffer]

/-- The free space, as `__afifo_in` computes it. -/
theorem free_toNat (h : fifo.WF) :
    (fifo.size - fifo.inIdx + fifo.outIdx).toNat = fifo.size.toNat - fifo.getUsed.toNat := by
  have hu := h.used
  have h0 := fifo.size.toNat_lt
  have h1 := fifo.inIdx.toNat_lt
  have h2 := fifo.outIdx.toNat_lt
  unfold Afifo.getUsed at hu ⊢
  rw [UInt32.toNat_sub] at hu ⊢
  rw [UInt32.toNat_add, UInt32.toNat_sub]
  omega

/-- The queue is the window of the used bytes. -/
theorem queue_eq (h : fifo.WF) :
    fifo.queue = window fifo.buffer fifo.outIdx.toNat fifo.getUsed.toNat := by
  refine List.map_congr_left fun i hi => ?_
  have hlt : i < 2 ^ 32 := Nat.lt_trans (List.mem_range.mp hi) fifo.getUsed.toNat_lt
  rw [h.place_toNat, UInt32.toNat_add, UInt32.toNat_ofNat', Nat.mod_eq_of_lt hlt, h.place_add,
    h.buffer]

theorem queue_length (h : fifo.WF) : fifo.queue.length = fifo.getUsed.toNat := by
  rw [h.queue_eq, window_length]

/-- The first part of a copy of `n` bytes from place `i` on. -/
theorem split_toNat (h : fifo.WF) (i n : UInt32) :
    (cmin n (fifo.size - fifo.place i)).toNat =
      min n.toNat (fifo.buffer.length - (fifo.place i).toNat) := by
  have hp := h.place_lt i
  rw [h.buffer] at hp
  have hle : fifo.place i ≤ fifo.size := UInt32.le_iff_toNat_le.mpr (Nat.le_of_lt hp)
  rw [cmin_toNat, UInt32.toNat_sub_of_le _ _ hle, h.buffer]

/-- The second part. -/
theorem rest_toNat (h : fifo.WF) (i n : UInt32) :
    (n - cmin n (fifo.size - fifo.place i)).toNat =
      n.toNat - min n.toNat (fifo.buffer.length - (fifo.place i).toNat) := by
  have hle : cmin n (fifo.size - fifo.place i) ≤ n := by
    rw [UInt32.le_iff_toNat_le, h.split_toNat]
    exact Nat.min_le_left _ _
  rw [UInt32.toNat_sub_of_le _ _ hle, h.split_toNat]

end Afifo.WF

/-! ## One operation -/

/-- The two copies of `__afifo_in` are one write to the ring. -/
theorem afifoIn_eq {fifo : Afifo} (h : fifo.WF) (buffer : List UInt8) (len : UInt32) :
    afifoIn fifo buffer len =
      (ringWrite fifo.buffer (fifo.place fifo.inIdx).toNat buffer
          (cmin len (fifo.size - fifo.inIdx + fifo.outIdx)).toNat >>= fun buf =>
        pure ({ fifo with
          buffer := buf
          inIdx := fifo.inIdx + cmin len (fifo.size - fifo.inIdx + fifo.outIdx) },
          cmin len (fifo.size - fifo.inIdx + fifo.outIdx))) := by
  simp only [afifoIn, ringWrite, h.split_toNat, h.rest_toNat]
  cases memcpy fifo.buffer (fifo.place fifo.inIdx).toNat buffer 0 _ <;> rfl

/-- The two copies of `__afifo_out_data` are one read of the ring. -/
theorem afifoOutData_eq {fifo : Afifo} (h : fifo.WF) (buffer : List UInt8) (len : UInt32) :
    afifoOutData fifo buffer len =
      (ringRead buffer fifo.buffer (fifo.place fifo.outIdx).toNat
          (cmin len (fifo.inIdx - fifo.outIdx)).toNat >>= fun buf =>
        pure (buf, cmin len (fifo.inIdx - fifo.outIdx))) := by
  simp only [afifoOutData, ringRead, h.split_toNat, h.rest_toNat]
  cases memcpy buffer 0 fifo.buffer (fifo.place fifo.outIdx).toNat _ <;> rfl

/-- `__afifo_in` appends the first `min len free` bytes. -/
theorem afifoIn_spec {fifo : Afifo} (h : fifo.WF) {buffer : List UInt8} {len : UInt32}
    (hlen : len.toNat ≤ buffer.length) :
    ∃ fifo' n, afifoIn fifo buffer len = .ret (fifo', n) ∧ fifo'.WF ∧ fifo'.size = fifo.size ∧
      n.toNat = min len.toNat (fifo.size.toNat - fifo.queue.length) ∧
      fifo'.queue = fifo.queue ++ buffer.take n.toNat := by
  rw [afifoIn_eq h]
  have hu := h.used
  have hq := h.queue_length
  have hn : (cmin len (fifo.size - fifo.inIdx + fifo.outIdx)).toNat =
      min len.toNat (fifo.size.toNat - fifo.queue.length) := by
    rw [cmin_toNat, h.free_toNat, hq]
  generalize cmin len (fifo.size - fifo.inIdx + fifo.outIdx) = n at *
  obtain ⟨b, hb, hblen, hwin⟩ := window_write fifo.buffer buffer fifo.outIdx.toNat
    fifo.getUsed.toNat n.toNat (by rw [h.buffer]; exact h.size_pos) (by rw [h.buffer]; omega)
    (by omega)
  rw [h.place_in, hb]
  let fifo' : Afifo := { fifo with buffer := b, inIdx := fifo.inIdx + n }
  have hused : fifo'.getUsed.toNat = fifo.getUsed.toNat + n.toNat := by
    have hsz : fifo.size.toNat ≤ 2 ^ 30 := by
      obtain ⟨k, hk30, hk⟩ := h.pow2
      rw [hk]
      exact Nat.pow_le_pow_right (by decide) hk30
    have hadd : fifo'.getUsed = fifo.getUsed + n := by
      show fifo.inIdx + n - fifo.outIdx = fifo.inIdx - fifo.outIdx + n
      grind
    rw [hadd, UInt32.toNat_add]
    omega
  have hwf : fifo'.WF := ⟨h.pow2, hblen.trans h.buffer, by rw [hused]; show _ ≤ fifo.size.toNat; omega⟩
  refine ⟨fifo', n, rfl, hwf, rfl, hn, ?_⟩
  rw [hwf.queue_eq, h.queue_eq, hused]
  exact hwin

/-- The number of bytes that leave a buffer. -/
theorem Afifo.WF.cmin_used {fifo : Afifo} (h : fifo.WF) (len : UInt32) :
    (cmin len (fifo.inIdx - fifo.outIdx)).toNat = min len.toNat fifo.queue.length := by
  rw [cmin_toNat, h.queue_length]
  rfl

/-- `__afifo_out_data` gives the first `min len used` bytes. -/
theorem afifoOutData_spec {fifo : Afifo} (h : fifo.WF) {buffer : List UInt8} {len : UInt32}
    (hlen : len.toNat ≤ buffer.length) :
    ∃ n, afifoOutData fifo buffer len =
        .ret (fifo.queue.take n.toNat ++ buffer.drop n.toNat, n) ∧
      n.toNat = min len.toNat fifo.queue.length := by
  have hu := h.used
  have hn := h.cmin_used len
  have hq := h.queue_length
  refine ⟨cmin len (fifo.inIdx - fifo.outIdx), ?_, hn⟩
  rw [afifoOutData_eq h]
  generalize cmin len (fifo.inIdx - fifo.outIdx) = n at *
  have hplace : (fifo.place fifo.outIdx).toNat % fifo.buffer.length =
      fifo.outIdx.toNat % fifo.buffer.length := by
    rw [h.place_toNat, h.buffer, Nat.mod_mod]
  rw [ringRead_ret (h.place_lt _) (by rw [h.buffer]; omega) (by omega), window_congr hplace,
    h.queue_eq, window_take, Nat.min_eq_left (by omega)]
  rfl

/-- `afifo_add_out` drops the first `min len used` bytes. -/
theorem afifoAddOut_spec {fifo : Afifo} (h : fifo.WF) (len : UInt32) :
    (afifoAddOut fifo len).1.WF ∧ (afifoAddOut fifo len).1.size = fifo.size ∧
      (afifoAddOut fifo len).2.toNat = min len.toNat fifo.queue.length ∧
      (afifoAddOut fifo len).1.queue = fifo.queue.drop (afifoAddOut fifo len).2.toNat := by
  have hu := h.used
  have hn := h.cmin_used len
  have hq := h.queue_length
  simp only [afifoAddOut]
  generalize cmin len (fifo.inIdx - fifo.outIdx) = n at *
  let fifo' : Afifo := { fifo with outIdx := fifo.outIdx + n }
  have hused : fifo'.getUsed.toNat = fifo.getUsed.toNat - n.toNat := by
    have hsub : fifo'.getUsed = fifo.getUsed - n := by
      show fifo.inIdx - (fifo.outIdx + n) = fifo.inIdx - fifo.outIdx - n
      grind
    rw [hsub, UInt32.toNat_sub_of_le _ _ (UInt32.le_iff_toNat_le.mpr (by omega))]
  have hwf : fifo'.WF := ⟨h.pow2, h.buffer, by rw [hused]; show _ ≤ fifo.size.toNat; omega⟩
  refine ⟨hwf, trivial, hn, ?_⟩
  show fifo'.queue = _
  rw [hwf.queue_eq, h.queue_eq, window_drop, hused]
  refine window_congr ?_ _
  show (fifo.outIdx + n).toNat % fifo.buffer.length = _
  rw [UInt32.toNat_add, h.buffer, h.place_add]

/-- `afifo_out_data` and `afifo_add_out` of the same length are `afifo_out`. -/
theorem afifoOut_eq (fifo : Afifo) (buffer : List UInt8) (len : UInt32) :
    afifoOut fifo buffer len = (afifoOutData fifo buffer len >>= fun r =>
      pure ((afifoAddOut fifo len).1, r.1, (afifoAddOut fifo len).2)) := by
  simp only [afifoOut, afifoOutData, afifoAddOut]
  cases memcpy buffer 0 fifo.buffer (fifo.place fifo.outIdx).toNat _ with
  | ret d =>
    simp only [Call.ret_bind]
    cases memcpy d _ fifo.buffer 0 _ <;> rfl
  | hang => rfl
  | fault => rfl

/-- `afifo_reset` empties the buffer. -/
theorem afifoReset_spec {fifo : Afifo} (h : fifo.WF) :
    (afifoReset fifo).WF ∧ (afifoReset fifo).size = fifo.size ∧ (afifoReset fifo).queue = [] :=
  ⟨⟨h.pow2, h.buffer, by simp [afifoReset, Afifo.getUsed]⟩, rfl,
    by simp [Afifo.queue, afifoReset, Afifo.getUsed]⟩

end Robot
