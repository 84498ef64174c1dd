import ConstructionRobot.Abus.Afifo

/-!
# The ring buffer is a bounded queue

What the ring buffer is for: a queue of at most `cap` bytes (`BQueue cap`) that takes what fits and
gives what it has. The operations of `afifo.h` are compared with those of the queue over whole
runs.

* `BQueue.exec`: one operation on the queue; a queue that is too long cannot be built.
* `FifoOp.exec_refines` and `Afifo.run_refines`: the operation, and a run, return the same values
  on the ring buffer and on the queue, and keep the queue of the ring buffer equal to it.
* `afifo_refines`: every run from `afifo_init`.
-/

namespace Robot

/-- A call of the interface, with the buffer of the caller: it has room for `len` bytes. -/
inductive FifoOp where
  | inn (buffer : List UInt8) (len : UInt32) (h : len.toNat ≤ buffer.length)
  | inData (buffer : List UInt8) (len : UInt32) (h : len.toNat ≤ buffer.length)
  | out (buffer : List UInt8) (len : UInt32) (h : len.toNat ≤ buffer.length)
  | outData (buffer : List UInt8) (len : UInt32) (h : len.toNat ≤ buffer.length)
  | addOut (len : UInt32)
  | reset

/-- What a call gives back: the number of bytes, and the bytes in the buffer of the caller. -/
structure FifoRet where
  count : ℕ
  bytes : List UInt8
  deriving DecidableEq, Repr

/-- The call on the ring buffer. -/
def FifoOp.exec (fifo : Afifo) : FifoOp → Call (Afifo × FifoRet)
  | .inn buffer len _ => do
    let (fifo, n) ← afifoIn fifo buffer len
    pure (fifo, ⟨n.toNat, buffer⟩)
  | .inData buffer len _ => do
    let (fifo, n) ← afifoInData fifo buffer len
    pure (fifo, ⟨n.toNat, buffer⟩)
  | .out buffer len _ => do
    let (fifo, buffer, n) ← afifoOut fifo buffer len
    pure (fifo, ⟨n.toNat, buffer⟩)
  | .outData buffer len _ => do
    let (buffer, n) ← afifoOutData fifo buffer len
    pure (fifo, ⟨n.toNat, buffer⟩)
  | .addOut len =>
    let (fifo, n) := afifoAddOut fifo len
    pure (fifo, ⟨n.toNat, []⟩)
  | .reset => pure (afifoReset fifo, ⟨0, []⟩)

/-- The calls one after the other, with all they give back. -/
def Afifo.run (fifo : Afifo) : List FifoOp → Call (Afifo × List FifoRet)
  | [] => .ret (fifo, [])
  | op :: ops => do
    let (fifo, r) ← op.exec fifo
    let (fifo, rs) ← fifo.run ops
    pure (fifo, r :: rs)

/-! ## The abstract queue -/

/-- A queue of at most `cap` bytes, the oldest first. -/
structure BQueue (cap : ℕ) where
  bytes : List UInt8
  bound : bytes.length ≤ cap

namespace BQueue

variable {cap : ℕ}

def empty : BQueue cap := ⟨[], Nat.zero_le _⟩

/-- The bytes that fit go in, the number of them comes back. -/
def push (q : BQueue cap) (xs : List UInt8) : BQueue cap × ℕ :=
  (⟨q.bytes ++ xs.take (cap - q.bytes.length), by
    have := q.bound
    simp only [List.length_append, List.length_take]
    omega⟩, min xs.length (cap - q.bytes.length))

/-- The first `n` bytes are dropped. -/
def drop (q : BQueue cap) (n : ℕ) : BQueue cap :=
  ⟨q.bytes.drop n, by
    have := q.bound
    rw [List.length_drop]
    omega⟩

/-- The first bytes of the queue, at most `n`, over the first bytes of `buffer`. -/
def peek (q : BQueue cap) (buffer : List UInt8) (n : ℕ) : FifoRet where
  count := min n q.bytes.length
  bytes := q.bytes.take n ++ buffer.drop (min n q.bytes.length)

def exec (q : BQueue cap) : FifoOp → BQueue cap × FifoRet
  | .inn buffer len _ | .inData buffer len _ =>
    ((q.push (buffer.take len.toNat)).1, ⟨(q.push (buffer.take len.toNat)).2, buffer⟩)
  | .out buffer len _ => (q.drop len.toNat, q.peek buffer len.toNat)
  | .outData buffer len _ => (q, q.peek buffer len.toNat)
  | .addOut len => (q.drop len.toNat, ⟨min len.toNat q.bytes.length, []⟩)
  | .reset => (empty, ⟨0, []⟩)

def run (q : BQueue cap) : List FifoOp → BQueue cap × List FifoRet
  | [] => (q, [])
  | op :: ops => (((q.exec op).1.run ops).1, (q.exec op).2 :: ((q.exec op).1.run ops).2)

theorem push_bytes (q : BQueue cap) (xs : List UInt8) :
    (q.push xs).1.bytes = q.bytes ++ xs.take (cap - q.bytes.length) := rfl

theorem drop_bytes (q : BQueue cap) (n : ℕ) : (q.drop n).bytes = q.bytes.drop n := rfl

end BQueue

/-! ## Refinement -/

/-- The ring buffer holds the queue `q`. -/
structure Afifo.Holds {cap : ℕ} (fifo : Afifo) (q : BQueue cap) : Prop where
  wf : fifo.WF
  size : fifo.size.toNat = cap
  queue : fifo.queue = q.bytes

section Refine

variable {cap : ℕ} {fifo : Afifo} {q : BQueue cap}

theorem Afifo.Holds.afifoIn (h : fifo.Holds q) {buffer : List UInt8} {len : UInt32}
    (hlen : len.toNat ≤ buffer.length) :
    ∃ fifo' n, Robot.afifoIn fifo buffer len = .ret (fifo', n) ∧
      fifo'.Holds (q.push (buffer.take len.toNat)).1 ∧
      n.toNat = (q.push (buffer.take len.toNat)).2 := by
  obtain ⟨fifo', n, hr, hwf, hsize, hn, hq⟩ := afifoIn_spec h.wf hlen
  rw [h.size, h.queue] at hn
  have htake : (buffer.take len.toNat).length = len.toNat := by
    rw [List.length_take]
    omega
  refine ⟨fifo', n, hr, ⟨hwf, by rw [hsize, h.size], ?_⟩, ?_⟩
  · rw [hq, h.queue, hn, BQueue.push_bytes, List.take_take, Nat.min_comm]
  · rw [hn, BQueue.push, htake]

theorem Afifo.Holds.afifoAddOut (h : fifo.Holds q) (len : UInt32) :
    (Robot.afifoAddOut fifo len).1.Holds (q.drop len.toNat) ∧
      (Robot.afifoAddOut fifo len).2.toNat = min len.toNat q.bytes.length := by
  obtain ⟨hwf, hsize, hn, hq⟩ := afifoAddOut_spec h.wf len
  rw [h.queue] at hn hq
  refine ⟨⟨hwf, by rw [hsize, h.size], ?_⟩, hn⟩
  rw [hq, hn, BQueue.drop_bytes]
  by_cases hle : len.toNat ≤ q.bytes.length
  · rw [Nat.min_eq_left hle]
  · rw [Nat.min_eq_right (by omega), List.drop_of_length_le (by omega),
      List.drop_of_length_le (by omega)]

theorem Afifo.Holds.afifoOutData (h : fifo.Holds q) {buffer : List UInt8} {len : UInt32}
    (hlen : len.toNat ≤ buffer.length) :
    ∃ n, Robot.afifoOutData fifo buffer len = .ret ((q.peek buffer len.toNat).bytes, n) ∧
      n.toNat = (q.peek buffer len.toNat).count := by
  obtain ⟨n, hr, hn⟩ := afifoOutData_spec h.wf hlen
  rw [h.queue] at hr hn
  refine ⟨n, ?_, hn⟩
  rw [hr, hn, BQueue.peek]
  by_cases hle : len.toNat ≤ q.bytes.length
  · rw [Nat.min_eq_left hle]
  · rw [Nat.min_eq_right (by omega), List.take_of_length_le (show q.bytes.length ≤ len.toNat by omega),
      List.take_length]

/-- One call returns the same on both levels. -/
theorem FifoOp.exec_refines (h : fifo.Holds q) (op : FifoOp) :
    ∃ fifo', op.exec fifo = .ret (fifo', (q.exec op).2) ∧ fifo'.Holds (q.exec op).1 := by
  cases op with
  | inn buffer len hlen =>
    obtain ⟨fifo', n, hr, hh, hn⟩ := h.afifoIn hlen
    exact ⟨fifo', by simp only [exec, hr, BQueue.exec, ← hn]; rfl, hh⟩
  | inData buffer len hlen =>
    obtain ⟨fifo', n, hr, hh, hn⟩ := h.afifoIn hlen
    exact ⟨fifo', by simp only [exec, afifoInData, hr, BQueue.exec, ← hn]; rfl, hh⟩
  | out buffer len hlen =>
    obtain ⟨n, hr, hn⟩ := h.afifoOutData hlen
    obtain ⟨hh, hn'⟩ := h.afifoAddOut len
    refine ⟨_, ?_, hh⟩
    simp only [exec, afifoOut_eq, hr, Call.ret_bind, Call.pure_eq, hn', BQueue.exec]
    rfl
  | outData buffer len hlen =>
    obtain ⟨n, hr, hn⟩ := h.afifoOutData hlen
    refine ⟨fifo, ?_, h⟩
    simp only [exec, hr, Call.ret_bind, Call.pure_eq, hn, BQueue.exec]
  | addOut len =>
    obtain ⟨hh, hn⟩ := h.afifoAddOut len
    exact ⟨_, by simp only [exec, hn, BQueue.exec, Call.pure_eq], hh⟩
  | reset =>
    obtain ⟨hwf, hsize, hq⟩ := afifoReset_spec h.wf
    exact ⟨_, rfl, ⟨hwf, by rw [hsize, h.size], hq⟩⟩

theorem Afifo.run_refines (h : fifo.Holds q) (ops : List FifoOp) :
    ∃ fifo', fifo.run ops = .ret (fifo', (q.run ops).2) ∧ fifo'.Holds (q.run ops).1 := by
  induction ops generalizing fifo q with
  | nil => exact ⟨fifo, rfl, h⟩
  | cons op ops ih =>
    obtain ⟨fifo₁, h₁, hh₁⟩ := op.exec_refines h
    obtain ⟨fifo', h₂, hh'⟩ := ih hh₁
    refine ⟨fifo', ?_, hh'⟩
    simp only [Afifo.run, h₁, h₂, Call.ret_bind, Call.pure_eq, BQueue.run]

end Refine

/-- For every size that `is_power_of_2` accepts, every run of the interface from `afifo_init`
returns, gives back what the bounded queue gives back, and holds its bytes, of which there are at
most `size`. Reading and dropping is `afifo_out`. -/
theorem afifo_refines (buffer : List UInt8) (size : UInt32) (hb : buffer.length = size.toNat)
    (hp : isPowerOf2 (sint 32 size.toNat) = true) :
    ∃ fifo, afifoInit buffer size true = .ret (some fifo) ∧
      ∀ ops : List FifoOp, ∃ fifo' rets, fifo.run ops = .ret (fifo', rets) ∧
        rets = ((BQueue.empty : BQueue size.toNat).run ops).2 ∧
        fifo'.queue = ((BQueue.empty : BQueue size.toNat).run ops).1.bytes ∧
        fifo'.queue.length ≤ size.toNat ∧
        ∀ buffer' len, afifoOut fifo' buffer' len =
          (afifoOutData fifo' buffer' len >>= fun (bytes, _) =>
            pure ((afifoAddOut fifo' len).1, bytes, (afifoAddOut fifo' len).2)) := by
  have hinit : afifoInit buffer size true = _ := afifoInit_eq hp
  obtain ⟨hwf, hq, hsize⟩ := afifoInit_ret hb hinit
  refine ⟨_, hinit, fun ops => ?_⟩
  obtain ⟨fifo', hr, hh⟩ := Afifo.run_refines
    (q := (BQueue.empty : BQueue size.toNat)) ⟨hwf, by rw [hsize], hq⟩ ops
  refine ⟨fifo', _, hr, rfl, hh.queue, ?_, fun buffer' len => afifoOut_eq fifo' buffer' len⟩
  rw [hh.queue]
  exact BQueue.bound _

/-- A buffer of 4 bytes: three bytes in, two out, three in around the end, and all out. -/
theorem afifo_refines_around_end :
    isPowerOf2 (sint 32 (4 : UInt32).toNat) = true ∧
      ∃ fifo, afifoInit [0, 0, 0, 0] 4 true = .ret (some fifo) ∧
        ∃ fifo', fifo.run [.inn [1, 2, 3] 3 (by decide), .out [0, 0] 2 (by decide),
            .inn [4, 5, 6] 3 (by decide), .out [0, 0, 0, 0] 4 (by decide)] =
          .ret (fifo', [⟨3, [1, 2, 3]⟩, ⟨2, [1, 2]⟩, ⟨3, [4, 5, 6]⟩, ⟨4, [3, 4, 5, 6]⟩]) := by
  have hp : isPowerOf2 (sint 32 (4 : UInt32).toNat) = true :=
    isPowerOf2_size.mpr ⟨2, by decide, by decide⟩
  refine ⟨hp, ?_⟩
  obtain ⟨fifo, hi, h⟩ := afifo_refines [0, 0, 0, 0] 4 rfl hp
  refine ⟨fifo, hi, ?_⟩
  obtain ⟨fifo', rets, hr, rfl, -⟩ := h [.inn [1, 2, 3] 3 (by decide), .out [0, 0] 2 (by decide),
    .inn [4, 5, 6] 3 (by decide), .out [0, 0, 0, 0] 4 (by decide)]
  exact ⟨fifo', hr⟩

end Robot
