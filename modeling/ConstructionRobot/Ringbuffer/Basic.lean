import ConstructionRobot.Lib.Ring

/-!
# The ring buffer of the kernel (`ringbuffer.c`)

The bytes between the interrupts of the drivers and the threads that read them. The buffer is used
to its last byte: an index counts from 0 to `buffer_size - 1`, and its mirror bit changes at every
turn, so that equal indices are either an empty buffer or a full one.

* `RtRingbuffer.WF`: what holds between the calls. `RtRingbuffer.queue`: the bytes in the buffer.
* `RtRingbuffer.Moved`: a write that pushes the oldest bytes out. `WF.moved_wrote`: one that fits.
  `WF.moved_overrun`: one that does not.
* `WF.dropped_spec`: bytes that are read.
-/

namespace Robot

/-- `struct rt_ringbuffer`. -/
structure RtRingbuffer where
  /-- The bytes at `buffer_ptr`. -/
  buffer : List UInt8
  readMirror : Bool
  readIndex : ℕ
  writeMirror : Bool
  writeIndex : ℕ
  bufferSize : ℕ
  deriving DecidableEq, Repr

/-- `enum rt_ringbuffer_state`. -/
inductive RingbufferState where
  | empty
  | full
  | halffull
  deriving DecidableEq, Repr

namespace RtRingbuffer

/-- `rt_ringbuffer_status`. -/
def status (rb : RtRingbuffer) : RingbufferState :=
  if rb.readIndex = rb.writeIndex then
    if rb.readMirror = rb.writeMirror then .empty else .full
  else .halffull

/-- `rt_ringbuffer_data_len`. -/
def dataLen (rb : RtRingbuffer) : ℕ :=
  match rb.status with
  | .empty => 0
  | .full => rb.bufferSize
  | .halffull =>
    if rb.writeIndex > rb.readIndex then rb.writeIndex - rb.readIndex
    else rb.bufferSize - (rb.readIndex - rb.writeIndex)

/-- `rt_ringbuffer_space_len`. -/
def spaceLen (rb : RtRingbuffer) : ℕ := rb.bufferSize - rb.dataLen

/-- The copy that `put` and `put_force` have in common: the bytes, and the write position behind
them. -/
def copyIn (rb : RtRingbuffer) (ptr : List UInt8) (length : ℕ) : Call RtRingbuffer :=
  let l := rb.bufferSize - rb.writeIndex
  if l > length then do
    let buffer ← memcpy rb.buffer rb.writeIndex ptr 0 length
    pure { rb with buffer := buffer, writeIndex := rb.writeIndex + length }
  else do
    let buffer ← memcpy rb.buffer rb.writeIndex ptr 0 l
    let buffer ← memcpy buffer 0 ptr l (length - l)
    -- we are going into the other side of the mirror
    pure { rb with
      buffer := buffer, writeMirror := !rb.writeMirror, writeIndex := length - l }

end RtRingbuffer

/-- `RT_ALIGN_DOWN (size, RT_ALIGN_SIZE)`. -/
def rtAlignDown (size : ℕ) : ℕ := size / 8 * 8

/-- `rt_ringbuffer_init`. -/
def rtRingbufferInit (pool : List UInt8) (size : ℕ) : RtRingbuffer :=
  ⟨pool, false, 0, false, 0, rtAlignDown size⟩

/-- `rt_ringbuffer_create`, with the block that `rt_malloc` gives for a number of bytes. -/
def rtRingbufferCreate (malloc : ℕ → List UInt8) (size : ℕ) : RtRingbuffer :=
  rtRingbufferInit (malloc (rtAlignDown size)) (rtAlignDown size)

/-- `rt_ringbuffer_put`. -/
def rtRingbufferPut (rb : RtRingbuffer) (ptr : List UInt8) (length : ℕ) :
    Call (RtRingbuffer × ℕ) :=
  let size := rb.spaceLen
  if size = 0 then pure (rb, 0)
  else do
    -- drop some data
    let length := if size < length then size else length
    let rb ← rb.copyIn ptr length
    pure (rb, length)

/-- `rt_ringbuffer_put_force`. -/
def rtRingbufferPutForce (rb : RtRingbuffer) (ptr : List UInt8) (length : ℕ) :
    Call (RtRingbuffer × ℕ) := do
  let spaceLength := rb.spaceLen
  let skip := length - rb.bufferSize
  let length := if length > rb.bufferSize then rb.bufferSize else length
  let rb' ← rb.copyIn (ptr.drop skip) length
  if length > spaceLength then
    if rb.bufferSize - rb.writeIndex > length then
      pure ({ rb' with readIndex := rb'.writeIndex }, length)
    else
      pure ({ rb' with
        readMirror := if rb'.writeIndex ≤ rb.readIndex then !rb.readMirror else rb.readMirror
        readIndex := rb'.writeIndex }, length)
  else pure (rb', length)

/-- `rt_ringbuffer_get`, into `ptr`. -/
def rtRingbufferGet (rb : RtRingbuffer) (ptr : List UInt8) (length : ℕ) :
    Call (RtRingbuffer × List UInt8 × ℕ) :=
  let size := rb.dataLen
  if size = 0 then pure (rb, ptr, 0)
  else
    let length := if size < length then size else length
    let l := rb.bufferSize - rb.readIndex
    if l > length then do
      let ptr ← memcpy ptr 0 rb.buffer rb.readIndex length
      pure ({ rb with readIndex := rb.readIndex + length }, ptr, length)
    else do
      let ptr ← memcpy ptr 0 rb.buffer rb.readIndex l
      let ptr ← memcpy ptr l rb.buffer 0 (length - l)
      pure ({ rb with readMirror := !rb.readMirror, readIndex := length - l }, ptr, length)

/-- `rt_ringbuffer_peek`: where `*ptr` points to, and the bytes from there on that may be read. -/
def rtRingbufferPeek (rb : RtRingbuffer) : RtRingbuffer × Option ℕ × ℕ :=
  let size := rb.dataLen
  if size = 0 then (rb, none, 0)
  else if rb.bufferSize - rb.readIndex > size then
    ({ rb with readIndex := rb.readIndex + size }, some rb.readIndex, size)
  else
    ({ rb with readMirror := !rb.readMirror, readIndex := 0 }, some rb.readIndex,
      rb.bufferSize - rb.readIndex)

/-- The `n` bytes that a pointer into the buffer points to. -/
def RtRingbuffer.pointed (rb : RtRingbuffer) (ptr : Option ℕ) (n : ℕ) : List UInt8 :=
  match ptr with
  | none => []
  | some i => (rb.buffer.drop i).take n

/-- `rb->buffer_ptr[rb->write_index] = ch`, and the next write position. -/
def RtRingbuffer.store (rb : RtRingbuffer) (ch : UInt8) : Call RtRingbuffer :=
  if rb.writeIndex < rb.buffer.length then
    let buffer := rb.buffer.set rb.writeIndex ch
    if rb.writeIndex = rb.bufferSize - 1 then
      .ret { rb with buffer := buffer, writeMirror := !rb.writeMirror, writeIndex := 0 }
    else .ret { rb with buffer := buffer, writeIndex := rb.writeIndex + 1 }
  else .fault

/-- `rt_ringbuffer_putchar`. -/
def rtRingbufferPutchar (rb : RtRingbuffer) (ch : UInt8) : Call (RtRingbuffer × ℕ) :=
  if rb.spaceLen = 0 then pure (rb, 0)
  else do
    let rb ← rb.store ch
    pure (rb, 1)

/-- `rt_ringbuffer_putchar_force`. -/
def rtRingbufferPutcharForce (rb : RtRingbuffer) (ch : UInt8) : Call (RtRingbuffer × ℕ) := do
  let oldState := rb.status
  let rb' ← rb.store ch
  if oldState = .full then
    if rb.writeIndex = rb.bufferSize - 1 then
      pure ({ rb' with readMirror := !rb.readMirror, readIndex := rb'.writeIndex }, 1)
    else pure ({ rb' with readIndex := rb'.writeIndex }, 1)
  else pure (rb', 1)

/-- `rt_ringbuffer_getchar`. -/
def rtRingbufferGetchar (rb : RtRingbuffer) : Call (RtRingbuffer × Option UInt8) :=
  if rb.dataLen = 0 then pure (rb, none)
  else if h : rb.readIndex < rb.buffer.length then
    if rb.readIndex = rb.bufferSize - 1 then
      .ret ({ rb with readMirror := !rb.readMirror, readIndex := 0 }, some rb.buffer[rb.readIndex])
    else .ret ({ rb with readIndex := rb.readIndex + 1 }, some rb.buffer[rb.readIndex])
  else .fault

/-- `rt_ringbuffer_reset`. -/
def rtRingbufferReset (rb : RtRingbuffer) : RtRingbuffer :=
  { rb with readMirror := false, readIndex := 0, writeMirror := false, writeIndex := 0 }

/-! ## The bytes in the buffer -/

namespace RtRingbuffer

/-- What holds between the calls: the writer is ahead of the reader, by at most one turn. -/
structure WF (rb : RtRingbuffer) : Prop where
  length : rb.buffer.length = rb.bufferSize
  read : rb.readIndex < rb.bufferSize
  write : rb.writeIndex < rb.bufferSize
  same : rb.readMirror = rb.writeMirror → rb.readIndex ≤ rb.writeIndex
  other : rb.readMirror ≠ rb.writeMirror → rb.writeIndex ≤ rb.readIndex

/-- The bytes in the buffer, the oldest first. -/
def queue (rb : RtRingbuffer) : List UInt8 := window rb.buffer rb.readIndex rb.dataLen

variable {rb : RtRingbuffer}

/-- The distance of the two positions, around the mirror. -/
theorem WF.dataLen_eq (h : rb.WF) : rb.dataLen =
    if rb.readMirror = rb.writeMirror then rb.writeIndex - rb.readIndex
    else rb.bufferSize - (rb.readIndex - rb.writeIndex) := by
  obtain ⟨-, hr, hw, hs, ho⟩ := h
  unfold dataLen status
  by_cases hi : rb.readIndex = rb.writeIndex
  · by_cases hm : rb.readMirror = rb.writeMirror
    · simp [hi, hm]
    · simp [hi, hm]
  · by_cases hm : rb.readMirror = rb.writeMirror
    · have := hs hm
      simp only [if_neg hi, if_pos hm, if_pos (show rb.writeIndex > rb.readIndex by omega)]
    · have := ho hm
      simp only [if_neg hi, if_neg hm, if_neg (show ¬ rb.writeIndex > rb.readIndex by omega)]

theorem WF.dataLen_le (h : rb.WF) : rb.dataLen ≤ rb.bufferSize := by
  have := h.write
  rw [h.dataLen_eq]
  split <;> omega

/-- The write position is behind the bytes in the buffer. -/
theorem WF.writeIndex_eq (h : rb.WF) :
    rb.writeIndex = (rb.readIndex + rb.dataLen) % rb.bufferSize := by
  have hr := h.read
  have hw := h.write
  rw [h.dataLen_eq]
  split
  case isTrue hm =>
    have := h.same hm
    rw [Nat.mod_eq_of_lt (by omega)]
    omega
  case isFalse hm =>
    have := h.other hm
    rw [show rb.readIndex + (rb.bufferSize - (rb.readIndex - rb.writeIndex)) =
      rb.writeIndex + rb.bufferSize by omega, Nat.add_mod_right, Nat.mod_eq_of_lt hw]

theorem WF.full_iff (h : rb.WF) : rb.status = .full ↔ rb.dataLen = rb.bufferSize := by
  have hr := h.read
  have hw := h.write
  rw [h.dataLen_eq]
  unfold status
  by_cases hm : rb.readMirror = rb.writeMirror
  · have := h.same hm
    by_cases hi : rb.readIndex = rb.writeIndex
    · simp only [if_pos hi, if_pos hm, reduceCtorEq, false_iff]
      omega
    · simp only [if_neg hi, if_pos hm, reduceCtorEq, false_iff]
      omega
  · have := h.other hm
    by_cases hi : rb.readIndex = rb.writeIndex
    · simp only [if_pos hi, if_neg hm, true_iff]
      omega
    · simp only [if_neg hi, if_neg hm, reduceCtorEq, false_iff]
      omega

@[simp] theorem queue_length (rb : RtRingbuffer) : rb.queue.length = rb.dataLen :=
  window_length _ _ _

/-- The positions after a write of `n` bytes at the write position that pushes the oldest `d` bytes
out. -/
structure Moved (rb rb' : RtRingbuffer) (d n : ℕ) : Prop where
  wf : rb'.WF
  size : rb'.bufferSize = rb.bufferSize
  read : rb'.readIndex = (rb.readIndex + d) % rb.bufferSize
  len : rb'.dataLen = rb.dataLen - d + n

/-- The bytes in the buffer after such a write. -/
theorem Moved.queue_eq {rb' : RtRingbuffer} {d n : ℕ} (hm : Moved rb rb' d n) (h : rb.WF)
    (ptr : List UInt8) (hd : d ≤ rb.dataLen) (hn : rb.dataLen - d + n ≤ rb.bufferSize)
    (hs : n ≤ ptr.length)
    (hb : ringWrite rb.buffer rb.writeIndex ptr n = .ret rb'.buffer) :
    rb'.queue = rb.queue.drop d ++ ptr.take n := by
  have hpos : 0 < rb.buffer.length := by
    have := h.length
    have := h.read
    omega
  obtain ⟨b, hb', hlen, hwin⟩ := window_write rb.buffer ptr (rb.readIndex + d) (rb.dataLen - d) n
    hpos (by rw [h.length]; exact hn) hs
  rw [show rb.readIndex + d + (rb.dataLen - d) = rb.readIndex + rb.dataLen by omega, h.length,
    ← h.writeIndex_eq, hb, Call.ret.injEq] at hb'
  rw [queue, hm.len, hm.read, hb', queue, window_drop, ← hwin]
  apply window_congr
  rw [hlen, h.length, Nat.mod_mod]

/-! ## Writes -/

/-- The buffer is `b`, and the write position is `n` bytes further. -/
def wrote (rb : RtRingbuffer) (b : List UInt8) (n : ℕ) : RtRingbuffer :=
  if rb.bufferSize - rb.writeIndex > n then
    { rb with buffer := b, writeIndex := rb.writeIndex + n }
  else
    { rb with
      buffer := b, writeMirror := !rb.writeMirror
      writeIndex := n - (rb.bufferSize - rb.writeIndex) }

@[simp] theorem wrote_buffer (rb : RtRingbuffer) (b : List UInt8) (n : ℕ) :
    (rb.wrote b n).buffer = b := by
  unfold wrote
  split <;> rfl

@[simp] theorem wrote_bufferSize (rb : RtRingbuffer) (b : List UInt8) (n : ℕ) :
    (rb.wrote b n).bufferSize = rb.bufferSize := by
  unfold wrote
  split <;> rfl

@[simp] theorem wrote_readIndex (rb : RtRingbuffer) (b : List UInt8) (n : ℕ) :
    (rb.wrote b n).readIndex = rb.readIndex := by
  unfold wrote
  split <;> rfl

theorem wrote_writeIndex {b : List UInt8} {n : ℕ} (hw : rb.writeIndex < rb.bufferSize)
    (hn : n ≤ rb.bufferSize) :
    (rb.wrote b n).writeIndex = (rb.writeIndex + n) % rb.bufferSize := by
  unfold wrote
  split
  case isTrue hl => rw [Nat.mod_eq_of_lt (show rb.writeIndex + n < rb.bufferSize by omega)]
  case isFalse hl =>
    rw [Nat.mod_eq_sub_mod (by omega), Nat.mod_eq_of_lt (by omega)]
    show n - (rb.bufferSize - rb.writeIndex) = rb.writeIndex + n - rb.bufferSize
    omega

theorem WF.copyIn_ret (h : rb.WF) (ptr : List UInt8) {n : ℕ} (hn : n ≤ rb.bufferSize)
    (hs : n ≤ ptr.length) :
    ∃ b, ringWrite rb.buffer rb.writeIndex ptr n = .ret b ∧ b.length = rb.bufferSize ∧
      rb.copyIn ptr n = .ret (rb.wrote b n) := by
  have hw := h.write
  have hp : rb.writeIndex < rb.buffer.length := by rwa [h.length]
  have hn' : n ≤ rb.buffer.length := by rwa [h.length]
  obtain ⟨b, hb, hlen, -⟩ := ringWrite_ret hp hn' hs
  refine ⟨b, hb, by rw [hlen, h.length], ?_⟩
  unfold copyIn wrote
  by_cases hl : rb.bufferSize - rb.writeIndex > n
  · -- the first copy is the whole write
    rw [ringWrite_flat (by rw [h.length]; omega) hs] at hb
    simp only [if_pos hl, hb, Call.ret_bind, Call.pure_eq]
  · simp only [ringWrite, h.length] at hb
    rw [Nat.min_eq_right (by omega)] at hb
    obtain ⟨b₁, hb₁, hb₂⟩ := Call.bind_eq_ret.mp hb
    simp only [if_neg hl, hb₁, hb₂, Call.ret_bind, Call.pure_eq]

theorem WF.store_ret (h : rb.WF) (ch : UInt8) :
    ∃ b, ringWrite rb.buffer rb.writeIndex [ch] 1 = .ret b ∧ b.length = rb.bufferSize ∧
      rb.store ch = .ret (rb.wrote b 1) := by
  have hw : rb.writeIndex < rb.buffer.length := by
    rw [h.length]
    exact h.write
  refine ⟨rb.buffer.set rb.writeIndex ch, ?_, by rw [List.length_set, h.length], ?_⟩
  · rw [ringWrite_flat (by omega) (by simp), memcpy, if_pos ⟨by omega, by simp⟩,
      List.set_eq_take_append_cons_drop, if_pos hw]
    rfl
  · have hs := h.length
    unfold store wrote
    by_cases hl : rb.writeIndex = rb.bufferSize - 1
    · rw [if_pos hw, if_pos hl, if_neg (by omega)]
      congr 2
      omega
    · rw [if_pos hw, if_neg hl, if_pos (by omega)]

/-- A write that fits. -/
theorem WF.moved_wrote (h : rb.WF) {b : List UInt8} {n : ℕ} (hb : b.length = rb.bufferSize)
    (hn : n ≤ rb.spaceLen) : Moved rb (rb.wrote b n) 0 n := by
  have hr := h.read
  have hw := h.write
  have hs := h.same
  have ho := h.other
  rw [spaceLen, h.dataLen_eq] at hn
  have hwf : (rb.wrote b n).WF := by
    unfold wrote
    by_cases hm : rb.readMirror = rb.writeMirror
    · rw [if_pos hm] at hn
      split
      case isTrue hl =>
        have hle := hs hm
        exact ⟨hb, hr, by simp; omega, fun _ => by simp; omega, by simp [hm]⟩
      case isFalse hl => exact ⟨hb, hr, by simp; omega, by simp [hm], fun _ => by simp; omega⟩
    · rw [if_neg hm] at hn
      have hle := ho hm
      split
      case isTrue hl => exact ⟨hb, hr, by simp; omega, by simp [hm], fun _ => by simp; omega⟩
      -- there is no room for a turn
      case isFalse hl => omega
  refine ⟨hwf, wrote_bufferSize rb b n, ?_, ?_⟩
  · rw [wrote_readIndex, Nat.add_zero, Nat.mod_eq_of_lt hr]
  · rw [hwf.dataLen_eq, h.dataLen_eq]
    unfold wrote
    by_cases hm : rb.readMirror = rb.writeMirror
    · have hle := hs hm
      rw [if_pos hm] at hn ⊢
      split <;> simp [hm]
      · omega
      · omega
    · have hle := ho hm
      rw [if_neg hm] at hn
      rw [if_pos (show rb.bufferSize - rb.writeIndex > n by omega)]
      simp [hm]
      omega

/-- What `put_force` does to the read position if the bytes do not fit. -/
def overrun (rb rb' : RtRingbuffer) (n : ℕ) : RtRingbuffer :=
  if rb.bufferSize - rb.writeIndex > n then { rb' with readIndex := rb'.writeIndex }
  else { rb' with
    readMirror := if rb'.writeIndex ≤ rb.readIndex then !rb.readMirror else rb.readMirror
    readIndex := rb'.writeIndex }

/-- A write that does not fit: the buffer is full with the newest bytes. -/
theorem WF.moved_overrun (h : rb.WF) {b : List UInt8} {n : ℕ} (hb : b.length = rb.bufferSize)
    (hn : n ≤ rb.bufferSize) (hs : rb.spaceLen < n) :
    Moved rb (rb.overrun (rb.wrote b n) n) (rb.dataLen + n - rb.bufferSize) n := by
  have hr := h.read
  have hw := h.write
  have hle := h.dataLen_le
  rw [spaceLen] at hs
  have hpos : (rb.wrote b n).writeIndex =
      (rb.readIndex + (rb.dataLen + n - rb.bufferSize)) % rb.bufferSize := by
    rw [wrote_writeIndex hw hn, h.writeIndex_eq, Nat.mod_add_mod,
      show rb.readIndex + rb.dataLen + n =
        rb.readIndex + (rb.dataLen + n - rb.bufferSize) + rb.bufferSize by omega,
      Nat.add_mod_right]
  have hlt : (rb.wrote b n).writeIndex < rb.bufferSize := by
    rw [hpos]
    exact Nat.mod_lt _ (by omega)
  -- the write ends in the mirror that the reader is not in
  have hmirror : (rb.overrun (rb.wrote b n) n).readMirror ≠
      (rb.overrun (rb.wrote b n) n).writeMirror := by
    rw [h.dataLen_eq] at hs
    by_cases hm : rb.readMirror = rb.writeMirror
    · have := h.same hm
      rw [if_pos hm] at hs
      rw [overrun, wrote, if_neg (by omega), if_neg (by omega)]
      simp [hm, show ¬ n - (rb.bufferSize - rb.writeIndex) ≤ rb.readIndex by omega]
    · have := h.other hm
      rw [if_neg hm] at hs
      unfold overrun wrote
      split
      case isTrue hl => simpa using hm
      case isFalse hl =>
        simp [hm, show n - (rb.bufferSize - rb.writeIndex) ≤ rb.readIndex by omega]
  have hsame : (rb.overrun (rb.wrote b n) n).readIndex = (rb.wrote b n).writeIndex ∧
      (rb.overrun (rb.wrote b n) n).writeIndex = (rb.wrote b n).writeIndex ∧
      (rb.overrun (rb.wrote b n) n).bufferSize = rb.bufferSize ∧
      (rb.overrun (rb.wrote b n) n).buffer = b := by
    unfold overrun
    split <;> simp
  obtain ⟨hri, hwi, hsize, hbuf⟩ := hsame
  have hwf : (rb.overrun (rb.wrote b n) n).WF := by
    refine ⟨by rw [hbuf, hsize, hb], by rw [hri, hsize]; exact hlt, by rw [hwi, hsize]; exact hlt,
      fun hm => absurd hm hmirror, fun _ => ?_⟩
    rw [hri, hwi]
  refine ⟨hwf, hsize, by rw [hri, hpos], ?_⟩
  rw [hwf.dataLen_eq, if_neg hmirror, hri, hwi, hsize]
  omega

/-! ## Reads -/

/-- The read position `n` bytes further. -/
def dropped (rb : RtRingbuffer) (n : ℕ) : RtRingbuffer :=
  if rb.bufferSize - rb.readIndex > n then { rb with readIndex := rb.readIndex + n }
  else { rb with
    readMirror := !rb.readMirror, readIndex := n - (rb.bufferSize - rb.readIndex) }

theorem WF.dropped_spec (h : rb.WF) {n : ℕ} (hn : n ≤ rb.dataLen) :
    (rb.dropped n).WF ∧ (rb.dropped n).bufferSize = rb.bufferSize ∧
      (rb.dropped n).queue = rb.queue.drop n := by
  have hr := h.read
  have hw := h.write
  have hle := h.dataLen_le
  have hsize : (rb.dropped n).bufferSize = rb.bufferSize := by
    unfold dropped
    split <;> rfl
  have hindex : (rb.dropped n).readIndex = (rb.readIndex + n) % rb.bufferSize := by
    unfold dropped
    split
    case isTrue hl => rw [Nat.mod_eq_of_lt (show rb.readIndex + n < rb.bufferSize by omega)]
    case isFalse hl =>
      rw [Nat.mod_eq_sub_mod (by omega), Nat.mod_eq_of_lt (by omega)]
      show n - (rb.bufferSize - rb.readIndex) = rb.readIndex + n - rb.bufferSize
      omega
  have hwf : (rb.dropped n).WF ∧ (rb.dropped n).dataLen = rb.dataLen - n := by
    rw [h.dataLen_eq] at hn ⊢
    by_cases hm : rb.readMirror = rb.writeMirror
    · have hs := h.same hm
      rw [if_pos hm] at hn ⊢
      have hd : rb.dropped n = { rb with readIndex := rb.readIndex + n } := by
        rw [dropped, if_pos (by omega)]
      have hwf : (rb.dropped n).WF := by
        rw [hd]
        exact ⟨h.length, by simp; omega, hw, fun _ => by simp; omega, fun hne => absurd hm hne⟩
      refine ⟨hwf, ?_⟩
      rw [hwf.dataLen_eq, hd, if_pos hm]
      simp
      omega
    · have ho := h.other hm
      rw [if_neg hm] at hn ⊢
      by_cases hl : rb.bufferSize - rb.readIndex > n
      · have hd : rb.dropped n = { rb with readIndex := rb.readIndex + n } := by
          rw [dropped, if_pos hl]
        have hwf : (rb.dropped n).WF := by
          rw [hd]
          exact ⟨h.length, by simp; omega, hw, fun he => absurd he hm, fun _ => by simp; omega⟩
        refine ⟨hwf, ?_⟩
        rw [hwf.dataLen_eq, hd, if_neg hm]
        simp
        omega
      · -- the reader follows the writer into the other mirror
        have hd : rb.dropped n = { rb with
            readMirror := !rb.readMirror
            readIndex := n - (rb.bufferSize - rb.readIndex) } := by
          rw [dropped, if_neg hl]
        have hnot : (!rb.readMirror) = rb.writeMirror := by
          revert hm
          cases rb.readMirror <;> cases rb.writeMirror <;> simp
        have hwf : (rb.dropped n).WF := by
          rw [hd]
          exact ⟨h.length, by simp; omega, hw, fun _ => by simp; omega, fun hne => absurd hnot hne⟩
        refine ⟨hwf, ?_⟩
        rw [hwf.dataLen_eq, hd, if_pos hnot]
        simp
        omega
  refine ⟨hwf.1, hsize, ?_⟩
  have hbuf : (rb.dropped n).buffer = rb.buffer := by
    unfold dropped
    split <;> rfl
  rw [queue, hwf.2, hindex, hbuf, queue, window_drop]
  apply window_congr
  rw [h.length, Nat.mod_mod]

end RtRingbuffer

end Robot
