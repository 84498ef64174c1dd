import ConstructionRobot.Abus.Queue

/-!
# Writes through the pointer (`afifo.h`)

A producer may fill the ring buffer without a copy: `afifo_get_in_pointer` is the place of the next
byte, `afifo_get_free_block` is meant to be the number of bytes in a row from there on, and
`afifo_add_in` then counts the bytes that were written.

`afifo_get_free_block` measures from `out`, not from `in`, so it is right only when both stand at
the same place or the end of the buffer is not in between.

* `Afifo.Reach`: the buffers that the interface can make.
* `Afifo.ZeroCopy`: a write through the pointer is a call of `afifo_in`.
* `zeroCopy_iff_flat`: it is one exactly if the write does not reach the end of the buffer.
* `zeroCopy_free_block`: the buffers on which `afifo_get_free_block` can be trusted.
-/

namespace Robot

/-- `afifo_get_in_pointer`, counted from the start of the buffer. -/
def Afifo.getInPointer (fifo : Afifo) : ℕ := (fifo.place fifo.inIdx).toNat

/-- `afifo_get_free_block`. -/
def Afifo.getFreeBlock (fifo : Afifo) : UInt32 := fifo.size - fifo.place fifo.outIdx

/-- `afifo_add_in`. -/
def afifoAddIn (fifo : Afifo) (len : UInt32) : Afifo × UInt32 :=
  let len := cmin len (fifo.size - fifo.inIdx + fifo.outIdx)
  ({ fifo with inIdx := fifo.inIdx + len }, len)

/-- The producer writes the first `n` bytes of `src` from the pointer on. -/
def Afifo.writeIn (fifo : Afifo) (src : List UInt8) (n : ℕ) : Call Afifo := do
  let buf ← memcpy fifo.buffer fifo.getInPointer src 0 n
  pure { fifo with buffer := buf }

/-- The ring buffers that the interface can make, writes through the pointer among its calls. -/
inductive Afifo.Reach : Afifo → Prop
  | init {buffer : List UInt8} {size : UInt32} {mallocOk : Bool} {fifo : Afifo}
      (hb : buffer.length = size.toNat) (h : afifoInit buffer size mallocOk = .ret (some fifo)) :
      Reach fifo
  | exec {fifo fifo' : Afifo} {r : FifoRet} (op : FifoOp) (hf : Reach fifo)
      (h : op.exec fifo = .ret (fifo', r)) : Reach fifo'
  | writeIn {fifo fifo' : Afifo} (src : List UInt8) (n : ℕ) (hf : Reach fifo)
      (h : fifo.writeIn src n = .ret fifo') : Reach fifo'
  | addIn {fifo : Afifo} (len : UInt32) (hf : Reach fifo) : Reach (afifoAddIn fifo len).1

/-- Writing `n` bytes of `src` through the pointer and counting them stands for `afifo_in`. -/
structure Afifo.ZeroCopy (fifo : Afifo) (src : List UInt8) (n : UInt32) : Prop where
  /-- The write stays inside the buffer. -/
  inside : fifo.getInPointer + n.toNat ≤ fifo.buffer.length
  /-- No place that it writes holds an unread byte. -/
  unread : ∀ i < fifo.getUsed.toNat,
    ¬(fifo.getInPointer ≤ (fifo.place (fifo.outIdx + UInt32.ofNat i)).toNat ∧
      (fifo.place (fifo.outIdx + UInt32.ofNat i)).toNat < fifo.getInPointer + n.toNat)
  /-- With `afifo_add_in` it leaves the queue that `afifo_in` leaves. -/
  same : ∃ written fifo' k, fifo.writeIn src n.toNat = .ret written ∧
    afifoIn fifo src n = .ret (fifo', k) ∧ (afifoAddIn written n).1.queue = fifo'.queue

/-! ## Reachable buffers -/

theorem afifoAddIn_wf {fifo : Afifo} (h : fifo.WF) (len : UInt32) : (afifoAddIn fifo len).1.WF := by
  have hu := h.used
  have hn : (cmin len (fifo.size - fifo.inIdx + fifo.outIdx)).toNat ≤
      fifo.size.toNat - fifo.getUsed.toNat := by
    rw [cmin_toNat, h.free_toNat]
    exact Nat.min_le_right _ _
  refine ⟨h.pow2, h.buffer, ?_⟩
  simp only [afifoAddIn]
  generalize cmin len (fifo.size - fifo.inIdx + fifo.outIdx) = n at *
  have hadd : fifo.inIdx + n - fifo.outIdx = fifo.getUsed + n := by
    unfold Afifo.getUsed
    grind
  show (fifo.inIdx + n - fifo.outIdx).toNat ≤ _
  rw [hadd, UInt32.toNat_add]
  have := Nat.mod_le (fifo.getUsed.toNat + n.toNat) (2 ^ 32)
  omega

theorem writeIn_wf {fifo fifo' : Afifo} {src : List UInt8} {n : ℕ} (h : fifo.WF)
    (hw : fifo.writeIn src n = .ret fifo') : fifo'.WF := by
  obtain ⟨buf, hbuf, hret⟩ := Call.bind_eq_ret.mp hw
  cases hret
  exact ⟨h.pow2, (memcpy_inv hbuf).2.2.trans h.buffer, h.used⟩

theorem Afifo.Reach.wf {fifo : Afifo} (h : fifo.Reach) : fifo.WF := by
  induction h with
  | init hb h => exact (afifoInit_ret hb h).1
  | @exec fifo fifo' r op _ h ih =>
    have hlen : fifo.queue.length ≤ fifo.size.toNat := by
      rw [ih.queue_length]
      exact ih.used
    have hh : fifo.Holds (⟨fifo.queue, hlen⟩ : BQueue fifo.size.toNat) := ⟨ih, rfl, rfl⟩
    obtain ⟨fifo'', hr, hh'⟩ := op.exec_refines hh
    rw [h, Call.ret.injEq, Prod.mk.injEq] at hr
    rw [hr.1]
    exact hh'.wf
  | writeIn src n _ h ih => exact writeIn_wf ih h
  | addIn len _ ih => exact afifoAddIn_wf ih len

/-! ## One write -/

section Write

variable {fifo : Afifo} {src : List UInt8} {n : UInt32}

theorem Afifo.WF.getFree_toNat (h : fifo.WF) :
    fifo.getFree.toNat = fifo.size.toNat - fifo.getUsed.toNat :=
  UInt32.toNat_sub_of_le _ _ (UInt32.le_iff_toNat_le.mpr h.used)

theorem Afifo.WF.getFreeBlock_toNat (h : fifo.WF) :
    fifo.getFreeBlock.toNat = fifo.size.toNat - (fifo.place fifo.outIdx).toNat := by
  have hp := h.place_lt fifo.outIdx
  rw [h.buffer] at hp
  exact UInt32.toNat_sub_of_le _ _ (UInt32.le_iff_toNat_le.mpr (Nat.le_of_lt hp))

/-- The pointer stands `used` bytes behind `out`, around the end. -/
theorem Afifo.WF.getInPointer_eq (h : fifo.WF) :
    fifo.getInPointer =
      ((fifo.place fifo.outIdx).toNat + fifo.getUsed.toNat) % fifo.size.toNat := by
  unfold Afifo.getInPointer
  rw [h.place_in, h.place_toNat, h.buffer, Nat.mod_add_mod]

/-- A write that fits into the free space and does not reach the end is `afifo_in`, state and
all. -/
theorem writeIn_addIn (h : fifo.WF) (hsrc : n.toNat ≤ src.length) (hn : n ≤ fifo.getFree)
    (hin : fifo.getInPointer + n.toNat ≤ fifo.buffer.length) :
    ∃ written, fifo.writeIn src n.toNat = .ret written ∧
      afifoIn fifo src n = .ret (afifoAddIn written n) := by
  have hfree : cmin n (fifo.size - fifo.inIdx + fifo.outIdx) = n := by
    rw [UInt32.le_iff_toNat_le, h.getFree_toNat] at hn
    refine UInt32.toNat_inj.mp ?_
    rw [cmin_toNat, h.free_toNat]
    exact Nat.min_eq_left hn
  obtain ⟨b, hb, -, -⟩ := memcpy_ret fifo.buffer fifo.getInPointer src 0 n.toNat hin (by omega)
  refine ⟨{ fifo with buffer := b }, ?_, ?_⟩
  · rw [Afifo.writeIn, hb]
    rfl
  · have hflat : ringWrite fifo.buffer (fifo.place fifo.inIdx).toNat src n.toNat = .ret b :=
      (ringWrite_flat hin hsrc).trans hb
    rw [afifoIn_eq h, hfree, hflat]
    simp only [afifoAddIn, hfree]
    rfl

/-- A write of at most the free space stands for `afifo_in` exactly if it does not reach the end of
the buffer. -/
theorem zeroCopy_iff_flat (h : fifo.WF) (hsrc : n.toNat ≤ src.length) (hn : n ≤ fifo.getFree) :
    fifo.ZeroCopy src n ↔ fifo.getInPointer + n.toNat ≤ fifo.buffer.length := by
  refine ⟨fun hz => hz.inside, fun hin => ⟨hin, fun i hi => ?_, ?_⟩⟩
  · have hplace : (fifo.place (fifo.outIdx + UInt32.ofNat i)).toNat =
        (fifo.outIdx.toNat + i) % fifo.buffer.length := by
      have hlt : i < 2 ^ 32 := Nat.lt_trans hi fifo.getUsed.toNat_lt
      rw [h.place_toNat, UInt32.toNat_add, UInt32.toNat_ofNat', Nat.mod_eq_of_lt hlt,
        h.place_add, h.buffer]
    have hroom : fifo.getUsed.toNat + n.toNat ≤ fifo.buffer.length := by
      have hu := h.used
      rw [UInt32.le_iff_toNat_le, h.getFree_toNat] at hn
      rw [h.buffer]
      omega
    unfold Afifo.getInPointer at hin ⊢
    rw [h.place_in] at hin ⊢
    rw [hplace]
    exact place_not_behind hroom hin hi
  · obtain ⟨written, hw, ha⟩ := writeIn_addIn h hsrc hn hin
    exact ⟨written, _, _, hw, ha, rfl⟩

/-- Where the pointer stands: behind the queue, or in front of it when the queue goes around the
end. -/
theorem Afifo.WF.getInPointer_cases (h : fifo.WF) :
    ((fifo.place fifo.outIdx).toNat + fifo.getUsed.toNat < fifo.size.toNat ∧
      fifo.getInPointer = (fifo.place fifo.outIdx).toNat + fifo.getUsed.toNat) ∨
    (fifo.size.toNat ≤ (fifo.place fifo.outIdx).toNat + fifo.getUsed.toNat ∧
      fifo.getInPointer =
        (fifo.place fifo.outIdx).toNat + fifo.getUsed.toNat - fifo.size.toNat) := by
  have hp := h.place_lt fifo.outIdx
  rw [h.buffer] at hp
  have hu := h.used
  rw [h.getInPointer_eq]
  by_cases hlt : (fifo.place fifo.outIdx).toNat + fifo.getUsed.toNat < fifo.size.toNat
  · exact .inl ⟨hlt, Nat.mod_eq_of_lt hlt⟩
  · refine .inr ⟨by omega, ?_⟩
    rw [Nat.mod_eq_sub_mod (by omega), Nat.mod_eq_of_lt (by omega)]

end Write

/-! ## The free block -/

/-- On a reachable ring buffer, a write of `n` bytes that `afifo_get_free` and
`afifo_get_free_block` allow stands for `afifo_in` exactly if the queue is empty, or goes around the
end of the buffer, or is followed by `n` places. All writes they allow do exactly if the queue is
empty, or starts at the start of the buffer, or goes around the end. -/
theorem zeroCopy_free_block {fifo : Afifo} (h : fifo.Reach) :
    (∀ src n, n.toNat ≤ src.length → n ≤ cmin fifo.getFree fifo.getFreeBlock →
      (fifo.ZeroCopy src n ↔ fifo.getUsed = 0 ∨
        fifo.size.toNat ≤ (fifo.place fifo.outIdx).toNat + fifo.getUsed.toNat ∨
        (fifo.place fifo.outIdx).toNat + fifo.getUsed.toNat + n.toNat ≤ fifo.size.toNat)) ∧
    ((∀ src n, n.toNat ≤ src.length → n ≤ cmin fifo.getFree fifo.getFreeBlock →
        fifo.ZeroCopy src n) ↔
      fifo.getUsed = 0 ∨ fifo.place fifo.outIdx = 0 ∨
        fifo.size.toNat ≤ (fifo.place fifo.outIdx).toNat + fifo.getUsed.toNat) := by
  have hwf := h.wf
  have hfree := hwf.getFree_toNat
  have hblock := hwf.getFreeBlock_toNat
  have hu := hwf.used
  have hp := hwf.place_lt fifo.outIdx
  rw [hwf.buffer] at hp
  have hone (src : List UInt8) (n : UInt32) (hsrc : n.toNat ≤ src.length)
      (hn : n ≤ cmin fifo.getFree fifo.getFreeBlock) :
      fifo.ZeroCopy src n ↔ fifo.getUsed = 0 ∨
        fifo.size.toNat ≤ (fifo.place fifo.outIdx).toNat + fifo.getUsed.toNat ∨
        (fifo.place fifo.outIdx).toNat + fifo.getUsed.toNat + n.toNat ≤ fifo.size.toNat := by
    rw [UInt32.le_iff_toNat_le, cmin_toNat] at hn
    rw [zeroCopy_iff_flat hwf hsrc (UInt32.le_iff_toNat_le.mpr (by omega)), hwf.buffer,
      ← UInt32.toNat_inj, UInt32.toNat_zero]
    obtain ⟨hlt, hin⟩ | ⟨hge, hin⟩ := hwf.getInPointer_cases <;> omega
  refine ⟨hone, fun hall => ?_, fun hcond src n hsrc hn => (hone src n hsrc hn).mpr ?_⟩
  · -- the longest write that is allowed
    have hmax := (hone (List.replicate (cmin fifo.getFree fifo.getFreeBlock).toNat 0) _
      (by simp) (UInt32.le_refl _)).mp (hall _ _ (by simp) (UInt32.le_refl _))
    rw [cmin_toNat] at hmax
    rw [← UInt32.toNat_inj, UInt32.toNat_zero] at hmax ⊢
    rw [← UInt32.toNat_inj, UInt32.toNat_zero]
    omega
  · rw [UInt32.le_iff_toNat_le, cmin_toNat] at hn
    rw [← UInt32.toNat_inj, UInt32.toNat_zero] at hcond ⊢
    rw [← UInt32.toNat_inj, UInt32.toNat_zero] at hcond
    omega

/-- The buffer of 4 bytes after `afifo_in` of two bytes, and after `afifo_out` of one of them. -/
def inTwo : Afifo := { buffer := [1, 2, 0, 0], size := 4, inIdx := 2, outIdx := 0 }
def inTwoOutOne : Afifo := { buffer := [1, 2, 0, 0], size := 4, inIdx := 2, outIdx := 1 }

theorem inTwo_reach : inTwo.Reach := by
  have hp : isPowerOf2 (sint 32 (4 : UInt32).toNat) = true :=
    isPowerOf2_size.mpr ⟨2, by decide, by decide⟩
  have h₀ : Afifo.Reach { buffer := [0, 0, 0, 0], size := 4, inIdx := 0, outIdx := 0 } :=
    .init rfl (afifoInit_eq hp)
  exact .exec (.inn [1, 2] 2 (by decide)) h₀ rfl

theorem inTwoOutOne_reach : inTwoOutOne.Reach := .exec (.out [0] 1 (by decide)) inTwo_reach rfl

/-- With two bytes from the start of the buffer on, every write that is allowed is right; when the
first of them is out, a write of two more still is. -/
theorem zeroCopy_free_block_used :
    (inTwo.Reach ∧ ∀ src n, n.toNat ≤ src.length → n ≤ cmin inTwo.getFree inTwo.getFreeBlock →
      inTwo.ZeroCopy src n) ∧
    inTwoOutOne.Reach ∧ (2 : UInt32) ≤ cmin inTwoOutOne.getFree inTwoOutOne.getFreeBlock ∧
      inTwoOutOne.ZeroCopy [7, 8] 2 :=
  ⟨⟨inTwo_reach, (zeroCopy_free_block inTwo_reach).2.mpr (.inr (.inl (by decide)))⟩,
    inTwoOutOne_reach, by decide,
    ((zeroCopy_free_block inTwoOutOne_reach).1 [7, 8] 2 (by decide) (by decide)).mpr
      (.inr (.inr (by decide)))⟩

/-- After two bytes in and one out, `in` stands at place 2 and `out` at place 1. Three bytes are
allowed, and the third leaves the buffer. -/
theorem free_block_from_out :
    inTwoOutOne.Reach ∧ (3 : UInt32) ≤ cmin inTwoOutOne.getFree inTwoOutOne.getFreeBlock ∧
      inTwoOutOne.writeIn [7, 8, 9] 3 = .fault ∧ ¬inTwoOutOne.ZeroCopy [7, 8, 9] 3 :=
  ⟨inTwoOutOne_reach, by decide, by decide, fun h => absurd h.inside (by decide)⟩

end Robot
