import ConstructionRobot.Abus.Queue
import ConstructionRobot.Ringbuffer.Basic

/-!
# The ring buffer of the kernel is a bounded queue

What the comments of `ringbuffer.c` say: `put` discards what does not fit, the `force` functions
discard the oldest bytes, the rest is a queue.

* `rtRingbufferPut_spec` and so on: what each function does to the bytes in the buffer.
* `RingOp.Does`: a call on a bounded queue.
* `ringbuffer_refines`: every run from `rt_ringbuffer_create`.
-/

namespace Robot

/-! ## The functions -/

section Specs

variable {rb : RtRingbuffer}

/-- What `rt_ringbuffer_put` does: the bytes that fit go in. -/
theorem rtRingbufferPut_spec (h : rb.WF) (ptr : List UInt8) :
    ∃ rb', rtRingbufferPut rb ptr ptr.length =
        .ret (rb', min ptr.length (rb.bufferSize - rb.queue.length)) ∧
      rb'.WF ∧ rb'.bufferSize = rb.bufferSize ∧
      rb'.queue = rb.queue ++ ptr.take (rb.bufferSize - rb.queue.length) := by
  rw [RtRingbuffer.queue_length]
  have hle := h.dataLen_le
  unfold rtRingbufferPut
  by_cases h0 : rb.spaceLen = 0
  · refine ⟨rb, ?_, h, rfl, ?_⟩
    · rw [RtRingbuffer.spaceLen] at h0
      simp [RtRingbuffer.spaceLen, h0]
    · rw [RtRingbuffer.spaceLen] at h0
      simp [h0]
  · have hn : (if rb.spaceLen < ptr.length then rb.spaceLen else ptr.length) =
        min ptr.length rb.spaceLen := by
      split <;> omega
    obtain ⟨b, hb, hlen, hcopy⟩ := h.copyIn_ret ptr (n := min ptr.length rb.spaceLen)
      (by unfold RtRingbuffer.spaceLen; omega) (by omega)
    have hmoved := h.moved_wrote hlen (Nat.min_le_right ptr.length rb.spaceLen)
    refine ⟨_, ?_, hmoved.wf, hmoved.size, ?_⟩
    · simp only [if_neg h0, hn, hcopy, Call.ret_bind, Call.pure_eq]
      rfl
    · rw [hmoved.queue_eq h ptr (Nat.zero_le _) (by unfold RtRingbuffer.spaceLen; omega)
        (by omega) (by rw [RtRingbuffer.wrote_buffer]; exact hb), List.drop_zero, Nat.min_comm,
        ← List.take_eq_take_min, RtRingbuffer.spaceLen]

/-- Bytes that are put in by force: the newest bytes stay. -/
theorem RtRingbuffer.WF.forced (h : rb.WF) (ptr : List UInt8) {b : List UInt8} {n : ℕ}
    (hn : n ≤ rb.bufferSize) (hs : n = ptr.length) (hb : b.length = rb.bufferSize)
    (hw : ringWrite rb.buffer rb.writeIndex ptr n = .ret b) (rb' : RtRingbuffer)
    (hrb : rb' = if n > rb.spaceLen then rb.overrun (rb.wrote b n) n else rb.wrote b n) :
    rb'.WF ∧ rb'.bufferSize = rb.bufferSize ∧
      rb'.queue = (rb.queue ++ ptr).drop (rb.queue.length + n - rb.bufferSize) := by
  have hle := h.dataLen_le
  rw [RtRingbuffer.queue_length]
  subst hrb
  by_cases hfit : n > rb.spaceLen
  · have hmoved := h.moved_overrun hb hn hfit
    rw [if_pos hfit]
    refine ⟨hmoved.wf, hmoved.size, ?_⟩
    rw [RtRingbuffer.spaceLen] at hfit
    rw [hmoved.queue_eq h ptr (by omega) (by omega) (by omega) ?_, hs, List.take_length,
      List.drop_append_of_le_length (by rw [RtRingbuffer.queue_length]; omega)]
    rw [hw]
    unfold RtRingbuffer.overrun
    split <;> simp
  · have hmoved := h.moved_wrote hb (Nat.le_of_not_lt hfit)
    rw [if_neg hfit]
    refine ⟨hmoved.wf, hmoved.size, ?_⟩
    rw [RtRingbuffer.spaceLen] at hfit
    rw [hmoved.queue_eq h ptr (Nat.zero_le _) (by omega) (by omega)
      (by rw [RtRingbuffer.wrote_buffer]; exact hw), hs, List.take_length,
      show rb.dataLen + ptr.length - rb.bufferSize = 0 by omega, List.drop_zero, List.drop_zero]

/-- What `rt_ringbuffer_put_force` does: all bytes go in, and the newest ones stay. -/
theorem rtRingbufferPutForce_spec (h : rb.WF) (ptr : List UInt8) :
    ∃ rb', rtRingbufferPutForce rb ptr ptr.length = .ret (rb', min ptr.length rb.bufferSize) ∧
      rb'.WF ∧ rb'.bufferSize = rb.bufferSize ∧
      rb'.queue = (rb.queue ++ ptr).drop (rb.queue.length + ptr.length - rb.bufferSize) := by
  have hle := h.dataLen_le
  let skip := ptr.length - rb.bufferSize
  have hn : (if ptr.length > rb.bufferSize then rb.bufferSize else ptr.length) =
      min ptr.length rb.bufferSize := by
    split <;> omega
  have hlen : (ptr.drop skip).length = min ptr.length rb.bufferSize := by
    rw [List.length_drop]
    omega
  obtain ⟨b, hb, hblen, hcopy⟩ := h.copyIn_ret (ptr.drop skip)
    (n := min ptr.length rb.bufferSize) (Nat.min_le_right _ _) (by omega)
  obtain ⟨hwf, hsize, hq⟩ :=
    h.forced (ptr.drop skip) (Nat.min_le_right _ _) hlen.symm hblen hb _ rfl
  refine ⟨_, ?_, hwf, hsize, ?_⟩
  · simp only [rtRingbufferPutForce, hn]
    rw [hcopy, Call.ret_bind]
    unfold RtRingbuffer.overrun
    by_cases hfit : min ptr.length rb.bufferSize > rb.spaceLen
    · simp only [if_pos hfit, Call.pure_eq]
      split <;> rfl
    · simp only [if_neg hfit, Call.pure_eq]
  · rw [hq, RtRingbuffer.queue_length]
    by_cases hfit : ptr.length ≤ rb.bufferSize
    · rw [show skip = 0 by omega, List.drop_zero, Nat.min_eq_left hfit]
    · -- the bytes in the buffer and the first of the new ones are gone
      have hall : rb.dataLen + ptr.length - rb.bufferSize = rb.dataLen + skip := by omega
      rw [Nat.min_eq_right (by omega), Nat.add_sub_cancel, hall, ← List.drop_drop,
        List.drop_left' (RtRingbuffer.queue_length rb),
        List.drop_left' (RtRingbuffer.queue_length rb)]

/-- What `rt_ringbuffer_putchar_force` does: a full buffer loses its oldest byte. -/
theorem rtRingbufferPutcharForce_spec (h : rb.WF) (ch : UInt8) :
    ∃ rb', rtRingbufferPutcharForce rb ch = .ret (rb', 1) ∧
      rb'.WF ∧ rb'.bufferSize = rb.bufferSize ∧
      rb'.queue = (rb.queue ++ [ch]).drop (rb.queue.length + 1 - rb.bufferSize) := by
  have hle := h.dataLen_le
  have hr := h.read
  obtain ⟨b, hb, hblen, hstore⟩ := h.store_ret ch
  obtain ⟨hwf, hsize, hq⟩ := h.forced [ch] (n := 1) (by omega) rfl hblen hb _ rfl
  refine ⟨_, ?_, hwf, hsize, hq⟩
  rw [rtRingbufferPutcharForce, hstore, Call.ret_bind]
  by_cases hfull : rb.status = .full
  · have hdata := h.full_iff.mp hfull
    have hw : rb.writeIndex = rb.readIndex := by
      rw [h.writeIndex_eq, hdata, Nat.add_mod_right, Nat.mod_eq_of_lt hr]
    have hspace : 1 > rb.spaceLen := by
      rw [RtRingbuffer.spaceLen, hdata]
      omega
    rw [if_pos hfull, if_pos hspace, RtRingbuffer.overrun]
    by_cases hl : rb.writeIndex = rb.bufferSize - 1
    · rw [if_pos hl, if_neg (by omega), if_pos]
      · rfl
      · rw [RtRingbuffer.wrote_writeIndex h.write (by omega), hl, Nat.sub_add_cancel (by omega),
          Nat.mod_self]
        exact Nat.zero_le _
    · rw [if_neg hl, if_pos (by omega)]
      rfl
  · have hdata : rb.dataLen ≠ rb.bufferSize := fun he => hfull (h.full_iff.mpr he)
    have hspace : ¬ 1 > rb.spaceLen := by
      rw [RtRingbuffer.spaceLen]
      omega
    rw [if_neg hfull, if_neg hspace]
    rfl

/-- What `rt_ringbuffer_putchar` does: a full buffer takes no byte. -/
theorem rtRingbufferPutchar_spec (h : rb.WF) (ch : UInt8) :
    ∃ rb', rtRingbufferPutchar rb ch =
        .ret (rb', min 1 (rb.bufferSize - rb.queue.length)) ∧
      rb'.WF ∧ rb'.bufferSize = rb.bufferSize ∧
      rb'.queue = rb.queue ++ [ch].take (rb.bufferSize - rb.queue.length) := by
  have hle := h.dataLen_le
  rw [RtRingbuffer.queue_length]
  unfold rtRingbufferPutchar
  by_cases h0 : rb.spaceLen = 0
  · rw [if_pos h0]
    rw [RtRingbuffer.spaceLen] at h0
    exact ⟨rb, by simp [h0], h, rfl, by simp [h0]⟩
  · obtain ⟨b, hb, hblen, hstore⟩ := h.store_ret ch
    have hmoved := h.moved_wrote hblen (n := 1) (by omega)
    refine ⟨_, ?_, hmoved.wf, hmoved.size, ?_⟩
    · rw [if_neg h0, hstore]
      rw [RtRingbuffer.spaceLen] at h0
      rw [Nat.min_eq_left (by omega)]
      rfl
    · rw [RtRingbuffer.spaceLen] at h0
      rw [hmoved.queue_eq h [ch] (Nat.zero_le _) (by omega) (by simp)
        (by rw [RtRingbuffer.wrote_buffer]; exact hb), List.drop_zero,
        List.take_of_length_le (by simp), List.take_of_length_le (by simp; omega)]

/-- What `rt_ringbuffer_get` does: the oldest bytes come out. -/
theorem rtRingbufferGet_spec (h : rb.WF) (ptr : List UInt8) :
    ∃ rb', rtRingbufferGet rb ptr ptr.length = .ret (rb',
        rb.queue.take ptr.length ++ ptr.drop (min ptr.length rb.queue.length),
        min ptr.length rb.queue.length) ∧
      rb'.WF ∧ rb'.bufferSize = rb.bufferSize ∧ rb'.queue = rb.queue.drop ptr.length := by
  have hle := h.dataLen_le
  have hr := h.read
  rw [RtRingbuffer.queue_length]
  unfold rtRingbufferGet
  by_cases h0 : rb.dataLen = 0
  · have hq : rb.queue = [] := List.length_eq_zero_iff.mp (by rw [RtRingbuffer.queue_length, h0])
    exact ⟨rb, by simp [h0, hq], h, rfl, by simp [hq]⟩
  · have hn : (if rb.dataLen < ptr.length then rb.dataLen else ptr.length) =
        min ptr.length rb.dataLen := by
      split <;> omega
    have hp : rb.readIndex < rb.buffer.length := by rwa [h.length]
    have hn' : min ptr.length rb.dataLen ≤ rb.buffer.length := by
      rw [h.length]
      omega
    have hread := ringRead_ret hp hn' (Nat.min_le_left ptr.length rb.dataLen)
    have hqueue : window rb.buffer rb.readIndex (min ptr.length rb.dataLen) =
        rb.queue.take ptr.length := (window_take _ _ _ _).symm
    obtain ⟨hwf, hsize, hq⟩ := h.dropped_spec (Nat.min_le_right ptr.length rb.dataLen)
    refine ⟨rb.dropped (min ptr.length rb.dataLen), ?_, hwf, hsize, ?_⟩
    · rw [hqueue] at hread
      simp only [if_neg h0, hn, RtRingbuffer.dropped]
      by_cases hl : rb.bufferSize - rb.readIndex > min ptr.length rb.dataLen
      · -- one copy is enough
        rw [ringRead, h.length, Nat.min_eq_left (Nat.le_of_lt hl), Nat.sub_self] at hread
        obtain ⟨d, hd, hd₂⟩ := Call.bind_eq_ret.mp hread
        have hsame : d = rb.queue.take ptr.length ++ ptr.drop (min ptr.length rb.dataLen) := by
          have hin : min ptr.length rb.dataLen + 0 ≤ d.length ∧ 0 + 0 ≤ rb.buffer.length := by
            rw [(memcpy_inv hd).2.2]
            omega
          rw [memcpy, if_pos hin, Call.ret.injEq] at hd₂
          simpa using hd₂
        simp only [if_pos hl, hd, Call.ret_bind, Call.pure_eq, hsame]
      · rw [ringRead, h.length, Nat.min_eq_right (Nat.le_of_not_lt hl)] at hread
        obtain ⟨d, hd, hd₂⟩ := Call.bind_eq_ret.mp hread
        simp only [if_neg hl, hd, hd₂, Call.ret_bind, Call.pure_eq]
    · rw [hq]
      by_cases hlen : ptr.length ≤ rb.dataLen
      · rw [Nat.min_eq_left hlen]
      · rw [Nat.min_eq_right (by omega), List.drop_of_length_le (by simp),
          List.drop_of_length_le (by simp; omega)]

/-- What `rt_ringbuffer_getchar` does: the oldest byte comes out. -/
theorem rtRingbufferGetchar_spec (h : rb.WF) :
    ∃ rb', rtRingbufferGetchar rb = .ret (rb', rb.queue.head?) ∧
      rb'.WF ∧ rb'.bufferSize = rb.bufferSize ∧ rb'.queue = rb.queue.tail := by
  have hr := h.read
  have hb : rb.readIndex < rb.buffer.length := by
    rw [h.length]
    exact hr
  unfold rtRingbufferGetchar
  by_cases h0 : rb.dataLen = 0
  · have hq : rb.queue = [] := List.length_eq_zero_iff.mp (by rw [RtRingbuffer.queue_length, h0])
    exact ⟨rb, by simp [h0, hq], h, rfl, by simp [hq]⟩
  · obtain ⟨hwf, hsize, hq⟩ := h.dropped_spec (n := 1) (by omega)
    have hhead : rb.queue.head? = some rb.buffer[rb.readIndex] := by
      rw [List.head?_eq_getElem?, RtRingbuffer.queue, window, List.getElem?_map,
        List.getElem?_range (by omega), Option.map_some, Nat.add_zero, Nat.mod_eq_of_lt hb,
        getElem!_pos rb.buffer _ hb]
    refine ⟨rb.dropped 1, ?_, hwf, hsize, by rw [hq, List.drop_one]⟩
    rw [if_neg h0, dif_pos hb, hhead, RtRingbuffer.dropped]
    by_cases hl : rb.readIndex = rb.bufferSize - 1
    · rw [if_pos hl, if_neg (by omega)]
      congr 3
      omega
    · rw [if_neg hl, if_pos (by omega)]

/-- What `rt_ringbuffer_peek` does: it gives a part of the oldest bytes, as far as they stand
together in the buffer, and drops it. -/
theorem rtRingbufferPeek_spec (h : rb.WF) :
    ∃ rb' ptr n, rtRingbufferPeek rb = (rb', ptr, n) ∧
      rb'.WF ∧ rb'.bufferSize = rb.bufferSize ∧ (n = 0 ↔ rb.queue = []) ∧
      rb'.queue = rb.queue.drop n ∧ rb.pointed ptr n = rb.queue.take n := by
  have hle := h.dataLen_le
  have hr := h.read
  have hlen := h.length
  unfold rtRingbufferPeek
  by_cases h0 : rb.dataLen = 0
  · have hq : rb.queue = [] := List.length_eq_zero_iff.mp (by rw [RtRingbuffer.queue_length, h0])
    exact ⟨rb, none, 0, by simp [h0], h, rfl, by simp [hq], by simp [hq], rfl⟩
  · have hne : rb.queue ≠ [] := by
      intro hq
      rw [← RtRingbuffer.queue_length, hq] at h0
      exact h0 rfl
    let n := min rb.dataLen (rb.bufferSize - rb.readIndex)
    obtain ⟨hwf, hsize, hq⟩ := h.dropped_spec (n := n) (Nat.min_le_left _ _)
    refine ⟨rb.dropped n, some rb.readIndex, n, ?_, hwf, hsize,
      iff_of_false (by omega) hne, hq, ?_⟩
    · by_cases hl : rb.bufferSize - rb.readIndex > rb.dataLen
      · have hn : n = rb.dataLen := Nat.min_eq_left (Nat.le_of_lt hl)
        rw [if_neg h0, if_pos hl, hn, RtRingbuffer.dropped, if_pos hl]
      · have hn : n = rb.bufferSize - rb.readIndex := Nat.min_eq_right (Nat.le_of_not_lt hl)
        rw [if_neg h0, if_neg hl, hn, RtRingbuffer.dropped, if_neg (by omega), Nat.sub_self]
    · -- the part does not reach the end of the buffer
      rw [RtRingbuffer.queue, window_take, Nat.min_eq_left (Nat.min_le_left _ _)]
      apply List.ext_getElem
      · simp only [RtRingbuffer.pointed, List.length_take, List.length_drop, window_length]
        omega
      · intro i h1 h2
        rw [window_length] at h2
        have hlt : rb.readIndex + i < rb.buffer.length := by omega
        simp only [RtRingbuffer.pointed, window, List.getElem_take, List.getElem_drop,
          List.getElem_map, List.getElem_range, Nat.mod_eq_of_lt hlt]
        rw [getElem!_pos rb.buffer _ hlt]

theorem rtRingbufferReset_spec (h : rb.WF) :
    (rtRingbufferReset rb).WF ∧ (rtRingbufferReset rb).queue = [] := by
  have hr := h.read
  have hwf : (rtRingbufferReset rb).WF :=
    ⟨h.length, Nat.zero_lt_of_lt hr, Nat.zero_lt_of_lt hr, fun _ => Nat.le_refl 0,
      fun hne => absurd rfl hne⟩
  exact ⟨hwf, rfl⟩

end Specs

/-! ## The bounded queue -/

/-- A call, with the buffer of the caller for the bytes that come out. -/
inductive RingOp where
  | put (ptr : List UInt8)
  | putForce (ptr : List UInt8)
  | putchar (ch : UInt8)
  | putcharForce (ch : UInt8)
  | get (ptr : List UInt8)
  | getchar
  | peek
  | dataLen
  | reset

namespace RingOp

/-- The call on the ring buffer: the number it returns, and the bytes it gives. -/
def exec (rb : RtRingbuffer) : RingOp → Call (RtRingbuffer × FifoRet)
  | put ptr => do
    let (rb, n) ← rtRingbufferPut rb ptr ptr.length
    pure (rb, ⟨n, []⟩)
  | putForce ptr => do
    let (rb, n) ← rtRingbufferPutForce rb ptr ptr.length
    pure (rb, ⟨n, []⟩)
  | putchar ch => do
    let (rb, n) ← rtRingbufferPutchar rb ch
    pure (rb, ⟨n, []⟩)
  | putcharForce ch => do
    let (rb, n) ← rtRingbufferPutcharForce rb ch
    pure (rb, ⟨n, []⟩)
  | get ptr => do
    let (rb, ptr, n) ← rtRingbufferGet rb ptr ptr.length
    pure (rb, ⟨n, ptr⟩)
  | getchar => do
    let (rb, ch) ← rtRingbufferGetchar rb
    pure (rb, ⟨ch.toList.length, ch.toList⟩)
  | peek =>
    let (rb', ptr, n) := rtRingbufferPeek rb
    pure (rb', ⟨n, rb.pointed ptr n⟩)
  | dataLen => pure (rb, ⟨rb.dataLen, []⟩)
  | reset => pure (rtRingbufferReset rb, ⟨0, []⟩)

/-- What the call may do on a queue of at most `cap` bytes: `q` before, `q'` after. Only `peek`
has a choice: it gives some of the oldest bytes, and at least one if there is one. -/
def Does {cap : ℕ} (q : BQueue cap) (r : FifoRet) (q' : BQueue cap) : RingOp → Prop
  | put ptr => q' = (q.push ptr).1 ∧ r = ⟨(q.push ptr).2, []⟩
  | putForce ptr =>
    q'.bytes = (q.bytes ++ ptr).drop (q.bytes.length + ptr.length - cap) ∧
      r = ⟨min ptr.length cap, []⟩
  | putchar ch => q' = (q.push [ch]).1 ∧ r = ⟨(q.push [ch]).2, []⟩
  | putcharForce ch =>
    q'.bytes = (q.bytes ++ [ch]).drop (q.bytes.length + 1 - cap) ∧ r = ⟨1, []⟩
  | get ptr => q' = q.drop ptr.length ∧ r = q.peek ptr ptr.length
  | getchar => q' = q.drop 1 ∧ r = ⟨q.bytes.head?.toList.length, q.bytes.head?.toList⟩
  | peek => ∃ n, (n = 0 ↔ q.bytes = []) ∧ q' = q.drop n ∧ r = ⟨n, q.bytes.take n⟩
  | dataLen => q' = q ∧ r = ⟨q.bytes.length, []⟩
  | reset => q' = BQueue.empty ∧ r = ⟨0, []⟩

/-- The calls one after the other, with all they give back. -/
def run (rb : RtRingbuffer) : List RingOp → Call (RtRingbuffer × List FifoRet)
  | [] => .ret (rb, [])
  | op :: ops => do
    let (rb, r) ← op.exec rb
    let (rb, rs) ← run rb ops
    pure (rb, r :: rs)

/-- A run on the queue: the calls, what they give back, and the queue at the end. -/
inductive Runs {cap : ℕ} : BQueue cap → List RingOp → List FifoRet → BQueue cap → Prop where
  | nil (q : BQueue cap) : Runs q [] [] q
  | cons {q q₁ q' : BQueue cap} {op : RingOp} {ops : List RingOp} {r : FifoRet}
      {rs : List FifoRet} (h : op.Does q r q₁) (hs : Runs q₁ ops rs q') :
      Runs q (op :: ops) (r :: rs) q'

end RingOp

/-- The ring buffer holds the queue `q`. -/
structure RtRingbuffer.Holds {cap : ℕ} (rb : RtRingbuffer) (q : BQueue cap) : Prop where
  wf : rb.WF
  size : rb.bufferSize = cap
  queue : rb.queue = q.bytes

/-- A ring buffer holds the queue of its bytes. -/
theorem RtRingbuffer.WF.holds {cap : ℕ} {rb : RtRingbuffer} (h : rb.WF) (hs : rb.bufferSize = cap)
    {bytes : List UInt8} (hq : rb.queue = bytes) :
    ∃ q : BQueue cap, q.bytes = bytes ∧ rb.Holds q := by
  refine ⟨⟨bytes, ?_⟩, rfl, h, hs, hq⟩
  rw [← hq, queue_length, ← hs]
  exact h.dataLen_le

theorem BQueue.ext_bytes {cap : ℕ} {q q' : BQueue cap} (h : q.bytes = q'.bytes) : q = q' := by
  cases q
  cases q'
  cases h
  rfl

/-- One call does what it may do on the queue. -/
theorem RingOp.exec_refines {cap : ℕ} {rb : RtRingbuffer} {q : BQueue cap} (h : rb.Holds q)
    (op : RingOp) : ∃ rb' r q', op.exec rb = .ret (rb', r) ∧ rb'.Holds q' ∧ op.Does q r q' := by
  obtain ⟨hwf, rfl, hq⟩ := h
  cases op with
  | put ptr =>
    obtain ⟨rb', hr, hwf', hs, hq'⟩ := rtRingbufferPut_spec hwf ptr
    obtain ⟨q', hb, hh⟩ := hwf'.holds hs hq'
    refine ⟨rb', _, q', by rw [exec, hr]; rfl, hh, BQueue.ext_bytes ?_, ?_⟩
    · rw [hb, BQueue.push_bytes, hq]
    · rw [hq]
      rfl
  | putForce ptr =>
    obtain ⟨rb', hr, hwf', hs, hq'⟩ := rtRingbufferPutForce_spec hwf ptr
    obtain ⟨q', hb, hh⟩ := hwf'.holds hs hq'
    exact ⟨rb', _, q', by rw [exec, hr]; rfl, hh, by rw [hb, hq], rfl⟩
  | putchar ch =>
    obtain ⟨rb', hr, hwf', hs, hq'⟩ := rtRingbufferPutchar_spec hwf ch
    obtain ⟨q', hb, hh⟩ := hwf'.holds hs hq'
    refine ⟨rb', _, q', by rw [exec, hr]; rfl, hh, BQueue.ext_bytes ?_, ?_⟩
    · rw [hb, BQueue.push_bytes, hq]
    · rw [hq]
      rfl
  | putcharForce ch =>
    obtain ⟨rb', hr, hwf', hs, hq'⟩ := rtRingbufferPutcharForce_spec hwf ch
    obtain ⟨q', hb, hh⟩ := hwf'.holds hs hq'
    exact ⟨rb', _, q', by rw [exec, hr]; rfl, hh, by rw [hb, hq], rfl⟩
  | get ptr =>
    obtain ⟨rb', hr, hwf', hs, hq'⟩ := rtRingbufferGet_spec hwf ptr
    obtain ⟨q', hb, hh⟩ := hwf'.holds hs hq'
    refine ⟨rb', _, q', by rw [exec, hr]; rfl, hh, BQueue.ext_bytes ?_, ?_⟩
    · rw [hb, BQueue.drop_bytes, hq]
    · rw [hq]
      rfl
  | getchar =>
    obtain ⟨rb', hr, hwf', hs, hq'⟩ := rtRingbufferGetchar_spec hwf
    obtain ⟨q', hb, hh⟩ := hwf'.holds hs hq'
    refine ⟨rb', _, q', by rw [exec, hr]; rfl, hh, BQueue.ext_bytes ?_, by rw [hq]⟩
    rw [hb, BQueue.drop_bytes, hq, List.drop_one]
  | peek =>
    obtain ⟨rb', ptr, n, hr, hwf', hs, h0, hq', hp⟩ := rtRingbufferPeek_spec hwf
    obtain ⟨q', hb, hh⟩ := hwf'.holds hs hq'
    refine ⟨rb', _, q', by rw [exec, hr]; rfl, hh, n, by rw [h0, hq], BQueue.ext_bytes ?_, ?_⟩
    · rw [hb, BQueue.drop_bytes, hq]
    · rw [hp, hq]
  | dataLen =>
    refine ⟨rb, _, q, rfl, ⟨hwf, rfl, hq⟩, rfl, ?_⟩
    rw [← hq, RtRingbuffer.queue_length]
  | reset =>
    obtain ⟨hwf', hq'⟩ := rtRingbufferReset_spec hwf
    exact ⟨_, _, BQueue.empty, rfl, ⟨hwf', rfl, hq'⟩, rfl, rfl⟩

/-- A run does what it may do on the queue. -/
theorem RingOp.run_refines {cap : ℕ} {rb : RtRingbuffer} {q : BQueue cap} (h : rb.Holds q)
    (ops : List RingOp) :
    ∃ rb' rs q', run rb ops = .ret (rb', rs) ∧ rb'.Holds q' ∧ Runs q ops rs q' := by
  induction ops generalizing rb q with
  | nil => exact ⟨rb, [], q, rfl, h, .nil q⟩
  | cons op ops ih =>
    obtain ⟨rb₁, r, q₁, h₁, hh₁, hd⟩ := op.exec_refines h
    obtain ⟨rb', rs, q', h₂, hh', hr⟩ := ih hh₁
    refine ⟨rb', r :: rs, q', ?_, hh', .cons hd hr⟩
    simp only [run, h₁, h₂, Call.ret_bind, Call.pure_eq]

theorem rtRingbufferCreate_holds {malloc : ℕ → List UInt8} (hm : ∀ n, (malloc n).length = n)
    {size : ℕ} (hs : 8 ≤ size) :
    (rtRingbufferCreate malloc size).Holds (BQueue.empty : BQueue (rtAlignDown size)) := by
  have halign : rtAlignDown (rtAlignDown size) = rtAlignDown size := by
    unfold rtAlignDown
    omega
  have hpos : 0 < rtAlignDown size := by
    unfold rtAlignDown
    omega
  refine ⟨⟨?_, ?_, ?_, fun _ => Nat.le_refl 0, fun hne => absurd rfl hne⟩, halign, rfl⟩
  · show (malloc (rtAlignDown size)).length = rtAlignDown (rtAlignDown size)
    rw [hm, halign]
  · show 0 < rtAlignDown (rtAlignDown size)
    rwa [halign]
  · show 0 < rtAlignDown (rtAlignDown size)
    rwa [halign]

/-- For every size from 8 on that `buffer_size` can hold, every run of the interface from
`rt_ringbuffer_create` returns, stays inside its buffers, leaves two indices that fit their 31 bits,
and does what it may do on a queue of as many bytes as the size has, rounded down to a multiple
of 8. -/
theorem ringbuffer_refines (malloc : ℕ → List UInt8) (hm : ∀ n, (malloc n).length = n) (size : ℕ)
    (hs : 8 ≤ size) (hmax : size < 2 ^ 31) (ops : List RingOp) :
    ∃ rb rs, RingOp.run (rtRingbufferCreate malloc size) ops = .ret (rb, rs) ∧
      rb.readIndex < 2 ^ 31 ∧ rb.writeIndex < 2 ^ 31 ∧
      ∃ q : BQueue (rtAlignDown size), RingOp.Runs BQueue.empty ops rs q ∧ rb.queue = q.bytes := by
  obtain ⟨rb, rs, q, hr, hh, hruns⟩ :=
    RingOp.run_refines (rtRingbufferCreate_holds hm hs) ops
  have hsize : rb.bufferSize < 2 ^ 31 := by
    rw [hh.size]
    exact (Nat.div_mul_le_self size 8).trans_lt hmax
  exact ⟨rb, rs, hr, hh.wf.read.trans hsize, hh.wf.write.trans hsize, q, hruns, hh.queue⟩

/-- Eight bytes: ten are put in by force, and the newest eight come out, in two parts. -/
theorem ringbuffer_refines_overrun :
    ∃ rb, RingOp.run (rtRingbufferCreate (List.replicate · 0) 9)
        [.putForce [1, 2, 3], .putForce [4, 5, 6, 7, 8, 9, 10], .peek, .get [0, 0, 0]] =
      .ret (rb, [⟨3, []⟩, ⟨7, []⟩, ⟨6, [3, 4, 5, 6, 7, 8]⟩, ⟨2, [9, 10, 0]⟩]) := by
  obtain ⟨rb, rs, hr, -⟩ := ringbuffer_refines (List.replicate · 0) (by simp) 9 (by decide)
    (by decide) [.putForce [1, 2, 3], .putForce [4, 5, 6, 7, 8, 9, 10], .peek, .get [0, 0, 0]]
  refine ⟨rb, ?_⟩
  have hrun : (RingOp.run (rtRingbufferCreate (List.replicate · 0) 9)
      [.putForce [1, 2, 3], .putForce [4, 5, 6, 7, 8, 9, 10], .peek, .get [0, 0, 0]]).ret?.map
        Prod.snd = some [⟨3, []⟩, ⟨7, []⟩, ⟨6, [3, 4, 5, 6, 7, 8]⟩, ⟨2, [9, 10, 0]⟩] := by
    decide
  rw [hr] at hrun ⊢
  simpa using hrun

end Robot
