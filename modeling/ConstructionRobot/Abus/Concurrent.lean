import ConstructionRobot.Abus.Queue
import ConstructionRobot.Lib.Sys
import ConstructionRobot.Lib.Trace
import Mathlib.Data.List.Induction

/-!
# Publishers that run at the same time (`abus_topic.c`)

Several calls of `abus_public` on one topic, in any order of their steps: the message goes into the
ring buffer, the sync subscribers are called one after the other and read the oldest message, and
the oldest message is dropped. The functions `spin_lock_irqrestore` and `spin_unlock_irqrestore`
that the buffer calls are empty, so nothing orders the steps of two calls. A message that does not
fit leaves its call in a `while (1)`.

`P` are the calls. A step of call `p` is its next one; a call that is done or hangs does nothing
more.

* `PubState.step`: the steps on the ring buffer. `Order.step`: the same steps, with the calls whose
  messages are in the buffer in place of the buffer.
* `delivered_iff`: for all messages every subscriber reads every message exactly once, in the steps
  of its own call, exactly if the schedule lets each call have the buffer for itself.
-/

namespace Robot

/-- How far a call of `abus_public` is: the message is not yet in the buffer, the number of
subscribers called, the call has returned, or it hangs. -/
inductive PubPc where
  | ready
  | calling (done : ℕ)
  | returned
  | hung
  deriving DecidableEq, Repr

/-- What a step shows: subscriber `k` reads in a callback of call `p`, or call `p` hangs. -/
inductive PubObs (P : Type) where
  | quiet
  | read (p : P) (k : ℕ) (bytes : List UInt8)
  | hangs (p : P)
  deriving DecidableEq, Repr

/-- The buffer of the topic and the calls. -/
structure PubState (P : Type) where
  fifo : Afifo
  pc : P → PubPc

variable {P : Type} [DecidableEq P]

/-- The next step of call `p`, on a topic with `subs` subscribers. -/
def PubState.step (msgSize : UInt32) (subs : ℕ) (msg : P → List UInt8) (st : PubState P) (p : P) :
    Option (PubState P × List (PubObs P)) :=
  match st.pc p with
  | .ready => do
    let (fifo, accIn) ← (afifoIn st.fifo (msg p) msgSize).ret?
    if accIn != msgSize then
      pure ({ fifo := fifo, pc := Function.update st.pc p .hung }, [.hangs p])
    else pure ({ fifo := fifo, pc := Function.update st.pc p (.calling 0) }, [.quiet])
  | .calling k =>
    if k < subs then do
      let (bytes, n) ← (afifoOutData st.fifo (List.replicate msgSize.toNat 0) msgSize).ret?
      pure ({ st with pc := Function.update st.pc p (.calling (k + 1)) },
        [.read p k (bytes.take n.toNat)])
    else
      pure ({ fifo := (afifoAddOut st.fifo msgSize).1, pc := Function.update st.pc p .returned },
        [.quiet])
  | _ => pure (st, [.quiet])

/-- The calls, and those whose messages are in the buffer, the oldest first. -/
structure Order (P : Type) where
  pc : P → PubPc
  queue : List P

/-- There is room for one more message of `msgSize` bytes in a buffer of `cap`. -/
def Order.Room (cap msgSize : ℕ) (o : Order P) : Prop := (o.queue.length + 1) * msgSize ≤ cap

instance decidableOrderRoom (cap msgSize : ℕ) (o : Order P) : Decidable (o.Room cap msgSize) :=
  inferInstanceAs (Decidable (_ ≤ _))

/-- The next step of call `p`. -/
def Order.step (cap msgSize subs : ℕ) (o : Order P) (p : P) : Order P :=
  match o.pc p with
  | .ready =>
    if o.Room cap msgSize then
      { pc := Function.update o.pc p (.calling 0), queue := o.queue ++ [p] }
    else { o with pc := Function.update o.pc p .hung }
  | .calling k =>
    if k < subs then { o with pc := Function.update o.pc p (.calling (k + 1)) }
    else { pc := Function.update o.pc p .returned, queue := o.queue.tail }
  | _ => o

/-- The condition on a step of call `p`: a message finds room, and a callback runs while the message
of its own call is the oldest one. -/
def Order.Fits (cap msgSize subs : ℕ) (o : Order P) (p : P) : Prop :=
  match o.pc p with
  | .ready => o.Room cap msgSize
  | .calling k => k < subs → msgSize ≠ 0 → o.queue.head? = some p
  | _ => True

/-- No call has begun. -/
def Order.start : Order P := { pc := fun _ => .ready, queue := [] }

/-- Every step of the schedule meets the condition. -/
def InOrder (cap msgSize subs : ℕ) (sched : List P) : Prop :=
  Guarded (fun before p => (before.foldl (Order.step cap msgSize subs) .start).Fits cap msgSize subs p)
    sched

/-- Subscriber `k` reads in a callback of call `p`. -/
def PubObs.isRead (p : P) (k : ℕ) : PubObs P → Bool
  | .read p' k' _ => p' = p ∧ k' = k
  | _ => false

/-- Every read in a callback gives the message of its own call; no call hangs; each subscriber has
read exactly once in each call that has returned; and if no call is under way, the buffer is
empty. -/
structure DeliveredOnce (subs : ℕ) (msg : P → List UInt8) (st : PubState P)
    (log : List (PubObs P)) : Prop where
  own : ∀ p k bytes, .read p k bytes ∈ log → bytes = msg p
  returns : ∀ p, .hangs p ∉ log
  once : ∀ p, st.pc p = .returned → ∀ k < subs, log.countP (PubObs.isRead p k) = 1
  empty : (∀ p, st.pc p = .ready ∨ st.pc p = .returned) → st.fifo.queue = []

/-! ## The invariant -/

/-- The messages in the buffer are as many as the calls under way. -/
def Order.Balanced (o : Order P) : Prop :=
  ∃ active : List P, active.Nodup ∧ active.length = o.queue.length ∧
    ∀ p, p ∈ active ↔ ∃ k, o.pc p = .calling k

/-- The buffer holds the messages of the calls in the queue. -/
structure Order.Rep (cap : ℕ) (msg : P → List UInt8) (o : Order P) (st : PubState P) : Prop where
  pc : st.pc = o.pc
  holds : ∃ q : BQueue cap, st.fifo.Holds q ∧ q.bytes = o.queue.flatMap msg

/-- What the next step of call `p` should show. -/
def Order.shows (subs : ℕ) (msg : P → List UInt8) (o : Order P) (p : P) : PubObs P :=
  match o.pc p with
  | .calling k => if k < subs then .read p k (msg p) else .quiet
  | _ => .quiet

section Step

variable {cap subs : ℕ} {msgSize : UInt32} {msg : P → List UInt8} {o : Order P} {st : PubState P}
  {p : P}

omit [DecidableEq P] in
theorem length_flatMap_msg (hlen : ∀ p, (msg p).length = msgSize.toNat) (l : List P) :
    (l.flatMap msg).length = l.length * msgSize.toNat := by
  rw [List.length_flatMap]
  simp [hlen]

/-- A subscriber reads the oldest bytes. -/
theorem Afifo.Holds.read {fifo : Afifo} {q : BQueue cap} (h : fifo.Holds q) (len : UInt32) :
    ∃ bytes n, Robot.afifoOutData fifo (List.replicate len.toNat 0) len = .ret (bytes, n) ∧
      bytes.take n.toNat = q.bytes.take len.toNat := by
  have hbuf : len.toNat ≤ (List.replicate len.toNat (0 : UInt8)).length := by simp
  obtain ⟨n, hout, hn⟩ := h.afifoOutData hbuf
  refine ⟨_, n, hout, ?_⟩
  rw [hn, BQueue.peek]
  exact List.take_left' (List.length_take ..)

theorem Order.Balanced.step (h : o.Balanced) (hfits : o.Fits cap msgSize.toNat subs p) :
    (o.step cap msgSize.toNat subs p).Balanced := by
  obtain ⟨active, hnodup, hlength, hmem⟩ := h
  unfold Order.step
  cases hpc : o.pc p with
  | ready =>
    have hroom : o.Room cap msgSize.toNat := by simpa only [Order.Fits, hpc] using hfits
    have hnot : p ∉ active := fun hp => by simpa [hpc] using (hmem p).mp hp
    simp only [hroom, ↓reduceIte]
    refine ⟨p :: active, List.nodup_cons.mpr ⟨hnot, hnodup⟩, by simp [hlength], fun q => ?_⟩
    by_cases hq : q = p
    · simp [hq]
    · simp [hq, hmem]
  | calling k =>
    by_cases hk : k < subs
    · simp only [hk, ↓reduceIte]
      refine ⟨active, hnodup, hlength, fun q => ?_⟩
      by_cases hq : q = p
      · simp [hq, hmem, hpc]
      · simp [hq, hmem]
    · simp only [hk, ↓reduceIte]
      have hp : p ∈ active := (hmem p).mpr ⟨k, hpc⟩
      refine ⟨active.erase p, hnodup.erase p, ?_, fun q => ?_⟩
      · rw [List.length_erase_of_mem hp, List.length_tail, hlength]
      · rw [hnodup.mem_erase_iff]
        by_cases hq : q = p
        · simp [hq]
        · simp [hq, hmem]
  | returned => exact ⟨active, hnodup, hlength, hmem⟩
  | hung => exact ⟨active, hnodup, hlength, hmem⟩

/-- A step that meets the condition. -/
theorem Order.Rep.step (h : o.Rep cap msg st) (hb : o.Balanced)
    (hlen : ∀ p, (msg p).length = msgSize.toNat) (hfits : o.Fits cap msgSize.toNat subs p) :
    ∃ st', st.step msgSize subs msg p = some (st', [o.shows subs msg p]) ∧
      (o.step cap msgSize.toNat subs p).Rep cap msg st' := by
  obtain ⟨q, hq, hbytes⟩ := h.holds
  have hqlen : q.bytes.length = o.queue.length * msgSize.toNat := by
    rw [hbytes, length_flatMap_msg hlen]
  unfold PubState.step Order.step Order.shows
  rw [h.pc]
  cases hpc : o.pc p with
  | ready =>
    have hroom : o.Room cap msgSize.toNat := by simpa only [Order.Fits, hpc] using hfits
    have hfree : msgSize.toNat ≤ cap - q.bytes.length := by
      have := hroom
      rw [Order.Room, Nat.add_mul, Nat.one_mul] at this
      omega
    obtain ⟨fifo', n, hin, hholds, hn⟩ := hq.afifoIn (hlen p).ge
    have hn' : n = msgSize := by
      apply UInt32.toNat_inj.mp
      rw [hn, BQueue.push, List.length_take, hlen, Nat.min_self, Nat.min_eq_left hfree]
    simp only [hin, Call.ret?_ret, hn', hroom, ↓reduceIte]
    refine ⟨_, by simp; rfl, rfl, _, hholds, ?_⟩
    rw [BQueue.push_bytes, hbytes, List.flatMap_append, List.flatMap_singleton,
      List.take_of_length_le (hlen p).le, List.take_of_length_le]
    rw [hlen, ← hbytes]
    exact hfree
  | calling k =>
    by_cases hk : k < subs
    · simp only [hk, ↓reduceIte]
      have hread : q.bytes.take msgSize.toNat = msg p := by
        by_cases hz : msgSize.toNat = 0
        · rw [hz, List.take_zero, eq_comm, ← List.length_eq_zero_iff, hlen, hz]
        · have hhead : o.queue.head? = some p := by
            simp only [Order.Fits, hpc] at hfits
            exact hfits hk hz
          obtain ⟨rest, hrest⟩ := List.head?_eq_some_iff.mp hhead
          rw [hbytes, hrest, List.flatMap_cons, ← hlen p, List.take_left]
      obtain ⟨bytes, n, hout, htake⟩ := hq.read msgSize
      simp only [hout, Call.ret?_ret]
      exact ⟨{ st with pc := Function.update o.pc p (.calling (k + 1)) }, by simp [htake, hread],
        rfl, q, hq, hbytes⟩
    · simp only [hk, ↓reduceIte]
      refine ⟨_, rfl, rfl, _, (hq.afifoAddOut msgSize).1, ?_⟩
      obtain ⟨active, -, hlength, hmem⟩ := hb
      have hpos : 0 < o.queue.length :=
        hlength ▸ List.length_pos_of_mem ((hmem p).mpr ⟨k, hpc⟩)
      obtain ⟨r, rest, hrest⟩ := List.exists_cons_of_length_pos hpos
      rw [BQueue.drop_bytes, hbytes, hrest, List.flatMap_cons, List.tail_cons, ← hlen r,
        List.drop_left]
  | returned => exact ⟨st, rfl, h⟩
  | hung => exact ⟨st, rfl, h⟩

/-- A step that does not meet the condition shows it, if the message of `p` differs from the
others. -/
theorem Order.Rep.step_bad (h : o.Rep cap msg st) (hlen : ∀ p, (msg p).length = msgSize.toNat)
    (hmsg : msgSize.toNat ≠ 0 → ∀ r, r ≠ p → msg r ≠ msg p)
    (hfits : ¬o.Fits cap msgSize.toNat subs p) :
    ∃ st' obs, st.step msgSize subs msg p = some (st', [obs]) ∧
      (obs = .hangs p ∨ ∃ k bytes, obs = .read p k bytes ∧ bytes ≠ msg p) := by
  obtain ⟨q, hq, hbytes⟩ := h.holds
  have hqlen : q.bytes.length = o.queue.length * msgSize.toNat := by
    rw [hbytes, length_flatMap_msg hlen]
  unfold PubState.step
  rw [h.pc]
  cases hpc : o.pc p with
  | ready =>
    have hroom : ¬o.Room cap msgSize.toNat := by simpa only [Order.Fits, hpc] using hfits
    have hfree : cap - q.bytes.length < msgSize.toNat := by
      have hbound := q.bound
      rw [Order.Room, Nat.add_mul, Nat.one_mul] at hroom
      omega
    obtain ⟨fifo', n, hin, -, hn⟩ := hq.afifoIn (hlen p).ge
    have hn' : n ≠ msgSize := by
      intro heq
      rw [heq, BQueue.push, List.length_take, hlen, Nat.min_self] at hn
      omega
    simp only [hin, Call.ret?_ret]
    exact ⟨_, .hangs p, by simp [hn']; rfl, .inl rfl⟩
  | calling k =>
    simp only [Order.Fits, hpc, not_forall] at hfits
    obtain ⟨hk, hz, hhead⟩ := hfits
    obtain ⟨bytes, n, hout, htake⟩ := hq.read msgSize
    simp only [hk, ↓reduceIte, hout, Call.ret?_ret]
    refine ⟨_, _, by simp; exact ⟨rfl, rfl⟩, .inr ⟨k, _, rfl, ?_⟩⟩
    rw [htake, hbytes]
    cases hqueue : o.queue with
    | nil =>
      intro heq
      rw [List.flatMap_nil, List.take_nil] at heq
      exact hz (by rw [← hlen p, ← heq, List.length_nil])
    | cons r rest =>
      rw [List.flatMap_cons, ← hlen r, List.take_left]
      refine hmsg hz r fun hr => hhead ?_
      rw [hqueue, hr, List.head?_cons]
  | returned => simp [Order.Fits, hpc] at hfits
  | hung => simp [Order.Fits, hpc] at hfits

/-- Every step can happen, whatever the buffer holds. -/
theorem PubState.step_total (subs : ℕ) (hlen : ∀ p, (msg p).length = msgSize.toNat)
    (st : PubState P) (p : P) (h : st.fifo.WF) :
    ∃ st' l, st.step msgSize subs msg p = some (st', l) ∧ st'.fifo.WF := by
  unfold PubState.step
  cases st.pc p with
  | ready =>
    obtain ⟨fifo', n, hin, hwf, -⟩ := afifoIn_spec h (hlen p).ge
    simp only [hin, Call.ret?_ret, Option.bind_eq_bind, Option.bind_some]
    split
    · exact ⟨_, _, rfl, hwf⟩
    · exact ⟨_, _, rfl, hwf⟩
  | calling k =>
    by_cases hk : k < subs
    · have hbuf : msgSize.toNat ≤ (List.replicate msgSize.toNat (0 : UInt8)).length := by simp
      obtain ⟨n, hout, -⟩ := afifoOutData_spec h hbuf
      simp only [hk, ↓reduceIte, hout, Call.ret?_ret, Option.bind_eq_bind, Option.bind_some]
      exact ⟨_, _, rfl, h⟩
    · simp only [hk, ↓reduceIte]
      exact ⟨_, _, rfl, (afifoAddOut_spec h msgSize).1⟩
  | returned => exact ⟨st, _, rfl, h⟩
  | hung => exact ⟨st, _, rfl, h⟩

end Step

/-! ## Schedules -/

/-- The subscribers that a call has called. -/
def PubPc.done (subs : ℕ) : PubPc → ℕ
  | .ready => 0
  | .calling k => k
  | .returned => subs
  | .hung => 0

/-- A topic with an empty buffer; no call has begun. -/
def PubState.start (fifo : Afifo) : PubState P := { fifo := fifo, pc := fun _ => .ready }

section Run

variable {cap subs : ℕ} {msgSize : UInt32} {msg : P → List UInt8} {fifo : Afifo} {sched : List P}

/-- A step of call `r` changes no other call. -/
theorem Order.step_pc_ne (o : Order P) {r p : P} (hp : p ≠ r) :
    (o.step cap msgSize.toNat subs r).pc p = o.pc p := by
  unfold Order.step
  cases o.pc r with
  | ready => by_cases hroom : o.Room cap msgSize.toNat <;> simp [hroom, hp]
  | calling j => by_cases hj : j < subs <;> simp [hj, hp]
  | returned => rfl
  | hung => rfl

theorem Order.isRead_shows_ne (o : Order P) {r p : P} (hp : p ≠ r) (k : ℕ) :
    (o.shows subs msg r).isRead p k = false := by
  unfold Order.shows
  cases o.pc r with
  | calling j => by_cases hj : j < subs <;> simp [hj, PubObs.isRead, hp.symm]
  | _ => rfl

omit [DecidableEq P] in
/-- A read in call `p` shows the message of `p`. -/
theorem Order.shows_eq_read {o : Order P} {r p : P} {k : ℕ} {bytes : List UInt8}
    (h : o.shows subs msg r = .read p k bytes) : bytes = msg p := by
  unfold Order.shows at h
  cases hpc : o.pc r with
  | calling j =>
    by_cases hj : j < subs
    · simp only [hpc, hj, ↓reduceIte, PubObs.read.injEq] at h
      rw [← h.1, h.2.2]
    · simp [hpc, hj] at h
  | _ => simp [hpc] at h

omit [DecidableEq P] in
theorem Order.shows_ne_hangs (o : Order P) (r p : P) : o.shows subs msg r ≠ .hangs p := by
  unfold Order.shows
  cases o.pc r with
  | calling j => by_cases hj : j < subs <;> simp [hj]
  | _ => simp

/-- What a step shows counts as a read of subscriber `k` in call `p` exactly if the call gets past
that subscriber. -/
theorem Order.step_done (o : Order P) (r p : P) {k : ℕ} (hk : k < subs) :
    [o.shows subs msg r].countP (PubObs.isRead p k) + (if k < (o.pc p).done subs then 1 else 0) =
      if k < ((o.step cap msgSize.toNat subs r).pc p).done subs then 1 else 0 := by
  by_cases hp : p = r
  · subst hp
    unfold Order.step Order.shows
    cases hpc : o.pc p with
    | ready =>
      by_cases hroom : o.Room cap msgSize.toNat
      · simp [hroom, PubPc.done, PubObs.isRead]
      · simp [hroom, PubPc.done, PubObs.isRead]
    | calling j =>
      by_cases hj : j < subs
      · rcases Nat.lt_trichotomy k j with h | rfl | h
        · simp [hj, PubPc.done, PubObs.isRead, h, h.ne', Nat.lt_succ_of_lt h]
        · simp [hj, PubPc.done, PubObs.isRead]
        · simp [hj, PubPc.done, PubObs.isRead, h.ne, Nat.not_lt.mpr h.le,
            Nat.not_lt.mpr (Nat.succ_le_of_lt h)]
      · simp [hj, PubPc.done, PubObs.isRead, hk, hk.trans_le (Nat.not_lt.mp hj)]
    | returned => simp [PubObs.isRead, hpc]
    | hung => simp [PubObs.isRead, hpc]
  · rw [o.step_pc_ne hp, List.countP_singleton, o.isRead_shows_ne hp]
    simp

/-- A schedule that meets the condition. -/
theorem InOrder.run (hlen : ∀ p, (msg p).length = msgSize.toNat)
    (hfifo : fifo.Holds (BQueue.empty : BQueue cap)) (h : InOrder cap msgSize.toNat subs sched) :
    ∃ st log, runLog (PubState.step msgSize subs msg) (.start fifo) sched = some (st, log) ∧
      (sched.foldl (Order.step cap msgSize.toNat subs) .start).Balanced ∧
      (sched.foldl (Order.step cap msgSize.toNat subs) .start).Rep cap msg st ∧
      (∀ p k bytes, .read p k bytes ∈ log → bytes = msg p) ∧ (∀ p, .hangs p ∉ log) ∧
      ∀ p, ∀ k < subs, log.countP (PubObs.isRead p k) =
        if k < ((sched.foldl (Order.step cap msgSize.toNat subs) .start).pc p).done subs
        then 1 else 0 := by
  induction sched using List.reverseRecOn with
  | nil =>
    refine ⟨.start fifo, [], rfl, ⟨[], by simp [Order.start]⟩, ⟨rfl, _, hfifo, rfl⟩, by simp,
      by simp, fun p k hk => ?_⟩
    simp [Order.start, PubPc.done]
  | append_singleton sched r ih =>
    obtain ⟨hsched, hfits⟩ := guarded_concat.mp h
    obtain ⟨st, log, hrun, hb, hrep, hown, hhang, hcount⟩ := ih hsched
    obtain ⟨st', hstep, hrep'⟩ := hrep.step hb hlen hfits
    rw [List.foldl_append, List.foldl_cons, List.foldl_nil]
    generalize List.foldl _ _ sched = o at *
    refine ⟨st', log ++ [o.shows subs msg r],
      (runLog_concat sched).mpr ⟨st, log, _, hrun, hstep, rfl⟩, hb.step hfits, hrep', ?_, ?_, ?_⟩
    · intro p k bytes hmem
      rcases List.mem_append.mp hmem with hmem | hmem
      · exact hown p k bytes hmem
      · exact Order.shows_eq_read (List.mem_singleton.mp hmem).symm
    · intro p hmem
      rcases List.mem_append.mp hmem with hmem | hmem
      · exact hhang p hmem
      · exact o.shows_ne_hangs r p (List.mem_singleton.mp hmem).symm
    · intro p k hk
      rw [List.countP_append, hcount p k hk, Nat.add_comm]
      exact o.step_done r p hk

/-- A schedule that does not meet the condition: for some messages a read gives another message, or
a call hangs. -/
theorem exists_bad_of_not_inOrder (hfifo : fifo.Holds (BQueue.empty : BQueue cap))
    (h : ¬InOrder cap msgSize.toNat subs sched) :
    ∃ msg : P → List UInt8, (∀ p, (msg p).length = msgSize.toNat) ∧
      ∃ st log, runLog (PubState.step msgSize subs msg) (.start fifo) sched = some (st, log) ∧
        st.fifo.WF ∧
        ∃ obs ∈ log, (∃ p, obs = .hangs p) ∨ ∃ p k bytes, obs = .read p k bytes ∧ bytes ≠ msg p := by
  induction sched using List.reverseRecOn with
  | nil => exact absurd guarded_nil h
  | append_singleton sched r ih =>
    by_cases hsched : InOrder cap msgSize.toNat subs sched
    · -- the last step is the first one that does not meet the condition
      have hfits := fun hf => h (guarded_concat.mpr ⟨hsched, hf⟩)
      let msg : P → List UInt8 := fun p => List.replicate msgSize.toNat (if p = r then 1 else 0)
      have hlen : ∀ p, (msg p).length = msgSize.toNat := fun p => List.length_replicate
      have hmsg : msgSize.toNat ≠ 0 → ∀ p, p ≠ r → msg p ≠ msg r := by
        intro hz p hp heq
        simp only [msg, hp, ↓reduceIte, List.replicate_right_inj hz] at heq
        exact absurd heq (by decide)
      obtain ⟨st, log, hrun, -, hrep, -⟩ := hsched.run hlen hfifo
      obtain ⟨st', obs, hstep, hbad⟩ := hrep.step_bad hlen hmsg hfits
      obtain ⟨q, hq, -⟩ := hrep.holds
      obtain ⟨st₂, l₂, hstep₂, hwf⟩ := PubState.step_total subs hlen st r hq.wf
      obtain ⟨rfl, -⟩ := Prod.mk.inj (Option.some.inj (hstep.symm.trans hstep₂))
      refine ⟨msg, hlen, st', log ++ [obs],
        (runLog_concat sched).mpr ⟨st, log, _, hrun, hstep, rfl⟩, hwf, obs, by simp, ?_⟩
      rcases hbad with rfl | ⟨k, bytes, rfl, hne⟩
      · exact .inl ⟨r, rfl⟩
      · exact .inr ⟨r, k, bytes, rfl, hne⟩
    · obtain ⟨msg, hlen, st, log, hrun, hwf, obs, hobs, hbad⟩ := ih hsched
      obtain ⟨st', l, hstep, hwf'⟩ := PubState.step_total subs hlen st r hwf
      exact ⟨msg, hlen, st', log ++ l, (runLog_concat sched).mpr ⟨st, log, l, hrun, hstep, rfl⟩,
        hwf', obs, List.mem_append_left _ hobs, hbad⟩

end Run

/-- For every buffer that starts empty, every number of subscribers and every schedule of any
number of calls: whatever the messages are, all subscribers get all messages exactly once and in
their own calls, no call hangs and the buffer is empty at the end, exactly if each message finds
room and each callback runs while the message of its call is the oldest in the buffer. -/
theorem delivered_iff (msgSize : UInt32) (subs : ℕ) (fifo : Afifo) (hwf : fifo.WF)
    (hempty : fifo.queue = []) (sched : List P) :
    (∀ msg : P → List UInt8, (∀ p, (msg p).length = msgSize.toNat) →
      ∃ st log, runLog (PubState.step msgSize subs msg) (.start fifo) sched = some (st, log) ∧
        DeliveredOnce subs msg st log) ↔
      InOrder fifo.size.toNat msgSize.toNat subs sched := by
  have hfifo : fifo.Holds (BQueue.empty : BQueue fifo.size.toNat) := ⟨hwf, rfl, hempty⟩
  constructor
  · intro h
    by_contra hnot
    obtain ⟨msg, hlen, st, log, hrun, -, obs, hobs, hbad⟩ := exists_bad_of_not_inOrder hfifo hnot
    obtain ⟨st', log', hrun', hdel⟩ := h msg hlen
    obtain ⟨rfl, rfl⟩ := Prod.mk.inj (Option.some.inj (hrun.symm.trans hrun'))
    rcases hbad with ⟨p, rfl⟩ | ⟨p, k, bytes, rfl, hne⟩
    · exact hdel.returns p hobs
    · exact hne (hdel.own p k bytes hobs)
  · intro h msg hlen
    obtain ⟨st, log, hrun, hb, hrep, hown, hhang, hcount⟩ := h.run hlen hfifo
    refine ⟨st, log, hrun, hown, hhang, fun p hp k hk => ?_, fun hall => ?_⟩
    · rw [hcount p k hk, ← hrep.pc, hp, PubPc.done, if_pos hk]
    · obtain ⟨q, hq, hbytes⟩ := hrep.holds
      obtain ⟨active, -, hlength, hmem⟩ := hb
      -- no call is under way, so there is no message in the buffer
      have hnil : active = [] := by
        refine List.eq_nil_iff_forall_not_mem.mpr fun p hp => ?_
        obtain ⟨k, hk⟩ := (hmem p).mp hp
        rw [← hrep.pc] at hk
        rcases hall p with h' | h'
        · rw [hk] at h'; cases h'
        · rw [hk] at h'; cases h'
      rw [hnil, List.length_nil, eq_comm, List.length_eq_zero_iff] at hlength
      rw [hq.queue, hbytes, hlength, List.flatMap_nil]

/-- An empty buffer of 2 bytes. -/
def twoByteFifo : Afifo := { buffer := [0, 0], size := 2, inIdx := 0, outIdx := 0 }

theorem twoByteFifo_wf : twoByteFifo.WF := ⟨⟨1, by decide, by decide⟩, by decide, by decide⟩

/-- One call after the other, and two calls that both begin before one of them calls its
subscriber. -/
theorem delivered_iff_two :
    (∀ msg : Bool → List UInt8, (∀ p, (msg p).length = 1) →
      ∃ st log, runLog (PubState.step 1 1 msg) (.start twoByteFifo) [false, false, false, true] =
          some (st, log) ∧ DeliveredOnce 1 msg st log) ∧
    ¬∀ msg : Bool → List UInt8, (∀ p, (msg p).length = 1) →
      ∃ st log, runLog (PubState.step 1 1 msg) (.start twoByteFifo) [false, true, true] =
          some (st, log) ∧ DeliveredOnce 1 msg st log := by
  constructor
  · refine (delivered_iff 1 1 twoByteFifo twoByteFifo_wf (by decide) _).mpr ?_
    change Guarded _ ([] ++ [false] ++ [false] ++ [false] ++ [true])
    refine guarded_concat.mpr ⟨guarded_concat.mpr ⟨guarded_concat.mpr ⟨guarded_concat.mpr
      ⟨guarded_nil, ?_⟩, ?_⟩, ?_⟩, ?_⟩
    · exact show (0 + 1) * 1 ≤ 2 by decide
    · exact fun _ _ => rfl
    · exact fun h => absurd h (by decide)
    · exact show (0 + 1) * 1 ≤ 2 by decide
  · intro h
    have hin := (delivered_iff 1 1 twoByteFifo twoByteFifo_wf (by decide) _).mp h
    exact absurd (hin [false, true] true [] rfl (by decide) (by decide)) (by decide)

/-- Two calls with the messages 0 and 1: both messages are in the buffer when the second call runs
its callback, and the subscriber reads 0. -/
theorem second_call_reads_first :
    (runLog (PubState.step 1 1 fun p : Bool => [if p then 1 else 0]) (.start twoByteFifo)
        [false, true, true]).map Prod.snd = some [.quiet, .quiet, .read true 0 [0]] ∧
    ¬∀ msg : Bool → List UInt8, (∀ p, (msg p).length = 1) → ∀ sched : List Bool,
      ∃ st log, runLog (PubState.step 1 1 msg) (.start twoByteFifo) sched = some (st, log) ∧
        DeliveredOnce 1 msg st log := by
  have hrun : (runLog (PubState.step 1 1 fun p : Bool => [if p then 1 else 0]) (.start twoByteFifo)
      [false, true, true]).map Prod.snd = some [.quiet, .quiet, .read true 0 [0]] := by decide
  refine ⟨hrun, fun h => ?_⟩
  obtain ⟨st, log, hlog, hdel⟩ := h (fun p => [if p then 1 else 0]) (fun _ => rfl) [false, true, true]
  rw [hlog, Option.map_some, Option.some.injEq] at hrun
  change log = _ at hrun
  have := hdel.own true 0 [0] (by rw [hrun]; simp)
  exact absurd this (by decide)

end Robot
