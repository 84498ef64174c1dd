import ConstructionRobot.Lib.Sys
import ConstructionRobot.Ringbuffer.Basic

/-!
# The ring buffer between an interrupt and a thread

An interrupt puts bytes into the ring buffer (`rt_ringbuffer_putchar_force`) while a thread takes
them out (`rt_ringbuffer_getchar`), without a lock. The interrupt runs to its end; the thread may
be interrupted between any two of its accesses. `read_mirror` and `read_index` are bits of one
word: an assignment to one of them loads the word and stores it back (`Rmw`).

At the end of a turn the thread flips the mirror before it sets the index: in between the two
positions say nothing about the bytes in the buffer. The state has two history variables, the bytes
that were put in and the bytes that came out.

* `RingSys.Inv`: the positions, at every place of the thread.
* `interrupt_inv`, `thread_inv`: one step, if no byte is put into a full buffer.
* `ring_interrupt_fifo`: in every such run the thread gets the bytes in their order, all of them,
  each once, and it gets nothing only if there was nothing.
-/

namespace Robot

/-- The assignments to the word of `read_mirror` and `read_index`: the mirror is turned, the index
is set to 0, or counted up. -/
inductive Rmw where
  | flip
  | zero
  | incr
  deriving DecidableEq, Repr

def Rmw.apply : Rmw → Bool × ℕ → Bool × ℕ
  | flip, (mirror, index) => (!mirror, index)
  | zero, (mirror, _) => (mirror, 0)
  | incr, (mirror, index) => (mirror, index + 1)

/-- Where the thread is in `rt_ringbuffer_getchar`: at the comparison of the indices in
`rt_ringbuffer_status`, of the mirrors, and so on. `ch` is the byte that was loaded. -/
inductive GetPc where
  | idle
  | indices
  /-- There were `seen` bytes put in at the comparison of the indices. -/
  | mirrors (seen : ℕ)
  | difference
  | load
  | last (ch : UInt8)
  /-- At the load of the word, and at its store. -/
  | modify (k : Rmw) (ch : UInt8)
  | commit (k : Rmw) (ch : UInt8) (word : Bool × ℕ)
  deriving DecidableEq, Repr

/-- The byte that the call returns with the next step. -/
def GetPc.returns : GetPc → Option UInt8
  | .commit .zero ch _ | .commit .incr ch _ => some ch
  | _ => none

/-- The buffer, the thread, and the bytes that were put in and came out so far. -/
structure RingSys where
  rb : RtRingbuffer
  pc : GetPc
  put : List UInt8
  got : List UInt8
  deriving DecidableEq, Repr

inductive RingEvent where
  | interrupt (ch : UInt8)
  | thread
  deriving DecidableEq, Repr

/-- A call of `rt_ringbuffer_getchar` has returned 0: there were `seen` bytes put in when it
looked, and `got` of them had come out. -/
structure RingNothing where
  seen : ℕ
  got : ℕ
  deriving DecidableEq, Repr

namespace RingSys

def nothing (s : RingSys) (seen : ℕ) : RingSys × List RingNothing :=
  ({ s with pc := .idle }, [⟨seen, s.got.length⟩])

/-- What the thread does behind a store to the word. -/
def next (s : RingSys) (ch : UInt8) : Rmw → RingSys
  | .flip => { s with pc := .modify .zero ch }
  | .zero | .incr => { s with pc := .idle, got := s.got ++ [ch] }

def threadStep (s : RingSys) : Option (RingSys × List RingNothing) :=
  match s.pc with
  | .idle => some ({ s with pc := .indices }, [])
  | .indices =>
    if s.rb.readIndex = s.rb.writeIndex then
      some ({ s with pc := .mirrors s.put.length }, [])
    else some ({ s with pc := .difference }, [])
  | .mirrors seen =>
    if s.rb.readMirror = s.rb.writeMirror then some (s.nothing seen)
    else some ({ s with pc := .load }, [])
  | .difference =>
    let len := if s.rb.writeIndex > s.rb.readIndex then s.rb.writeIndex - s.rb.readIndex
      else s.rb.bufferSize - (s.rb.readIndex - s.rb.writeIndex)
    if len = 0 then some (s.nothing s.put.length) else some ({ s with pc := .load }, [])
  | .load =>
    if h : s.rb.readIndex < s.rb.buffer.length then
      some ({ s with pc := .last s.rb.buffer[s.rb.readIndex] }, [])
    else none
  | .last ch =>
    if s.rb.readIndex = s.rb.bufferSize - 1 then some ({ s with pc := .modify .flip ch }, [])
    else some ({ s with pc := .modify .incr ch }, [])
  | .modify k ch => some ({ s with pc := .commit k ch (s.rb.readMirror, s.rb.readIndex) }, [])
  | .commit k ch word =>
    some (({ s with
      rb := { s.rb with
        readMirror := (k.apply word).1, readIndex := (k.apply word).2 } } : RingSys).next ch k, [])

/-- One step of the system; `none` is an access outside the buffer. -/
def step (s : RingSys) : RingEvent → Option (RingSys × List RingNothing)
  | .interrupt ch =>
    match rtRingbufferPutcharForce s.rb ch with
    | .ret (rb, _) => some ({ s with rb := rb, put := s.put ++ [ch] }, [])
    | _ => none
  | .thread => s.threadStep

/-- An interrupt finds room: fewer bytes are in the buffer than it has places. -/
def Room (s : RingSys) : RingEvent → Prop
  | .interrupt _ => s.put.length < s.got.length + s.rb.bufferSize
  | .thread => True

instance (s : RingSys) : (e : RingEvent) → Decidable (s.Room e)
  | .interrupt _ => inferInstanceAs (Decidable (_ < _))
  | .thread => isTrue trivial

end RingSys

/-! ## Positions -/

/-- The position of byte number `n`: its mirror and its index. -/
def ringPos (size n : ℕ) : Bool × ℕ := (decide (n / size % 2 = 1), n % size)

theorem ringPos_succ_last {size n : ℕ} (h : n % size = size - 1) (hs : 0 < size) :
    ringPos size (n + 1) = (!(ringPos size n).1, 0) := by
  have hn : n + 1 = size * (n / size + 1) := by
    have := Nat.div_add_mod n size
    rw [Nat.mul_add, Nat.mul_one]
    omega
  unfold ringPos
  rw [hn, Nat.mul_div_cancel_left _ hs, Nat.mul_mod_right]
  rcases Nat.mod_two_eq_zero_or_one (n / size) with hp | hp
  · simp [hp, Nat.add_mod]
  · simp [hp, Nat.add_mod]

theorem ringPos_succ {size n : ℕ} (h : n % size ≠ size - 1) (hs : 0 < size) :
    ringPos size (n + 1) = ((ringPos size n).1, (ringPos size n).2 + 1) := by
  have hlt := Nat.mod_lt n hs
  have hn : n + 1 = n % size + 1 + size * (n / size) := by
    have := Nat.div_add_mod n size
    omega
  unfold ringPos
  have hdiv : (n + 1) / size = n / size := by
    rw [hn, Nat.add_mul_div_left _ _ hs, Nat.div_eq_of_lt (by omega), Nat.zero_add]
  have hmod : (n + 1) % size = n % size + 1 := by
    rw [hn, Nat.add_mul_mod_self_left, Nat.mod_eq_of_lt (by omega)]
  rw [hdiv, hmod]

/-- Positions less than a turn apart have different indices. -/
theorem ringPos_index_inj {size m n : ℕ} (h : m ≤ n) (hlt : n < m + size)
    (he : n % size = m % size) : n = m := by
  have := Nat.ModEq.eq_of_lt_of_lt (a := n - m) (b := 0) (m := size)
    ((Nat.modEq_zero_iff_dvd).mpr ((Nat.modEq_iff_dvd' h).mp he.symm)) (by omega) (by omega)
  omega

/-- A turn further is the same index in the other mirror. -/
theorem ringPos_turn (size n : ℕ) (hs : 0 < size) :
    ringPos size (n + size) = (!(ringPos size n).1, (ringPos size n).2) := by
  unfold ringPos
  rw [Nat.add_div_right _ hs, Nat.add_mod_right]
  rcases Nat.mod_two_eq_zero_or_one (n / size) with hp | hp
  · simp [hp, Nat.add_mod]
  · simp [hp, Nat.add_mod]

/-! ## The invariant -/

namespace RingSys

/-- The word of `read_mirror` and `read_index`. -/
def word (s : RingSys) : Bool × ℕ := (s.rb.readMirror, s.rb.readIndex)

/-- Before the assignment `k`, with the byte number `got` loaded. Behind a flip the index is
still at the end of the buffer. -/
def Ready (size : ℕ) (word : Bool × ℕ) (got : ℕ) (put : List UInt8) (ch : UInt8) : Rmw → Prop
  | .flip => word = ringPos size got ∧ put[got]? = some ch ∧ got % size = size - 1
  | .zero => word = (!(ringPos size got).1, (ringPos size got).2) ∧ put[got]? = some ch ∧
      got % size = size - 1
  | .incr => word = ringPos size got ∧ put[got]? = some ch ∧ got % size ≠ size - 1

/-- What holds at the places of the thread. -/
def Place (size : ℕ) (word : Bool × ℕ) (got : ℕ) (put : List UInt8) : GetPc → Prop
  | .idle | .indices => word = ringPos size got
  | .mirrors seen => word = ringPos size got ∧
      (seen = got ∨ (seen = got + size ∧ put.length = got + size))
  | .difference | .load => word = ringPos size got ∧ got < put.length
  | .last ch => word = ringPos size got ∧ put[got]? = some ch
  | .modify k ch => Ready size word got put ch k
  | .commit k ch w => Ready size word got put ch k ∧ w = word

structure Inv (size : ℕ) (s : RingSys) : Prop where
  pos : 0 < size
  bufferSize : s.rb.bufferSize = size
  length : s.rb.buffer.length = size
  order : s.got.length ≤ s.put.length
  room : s.put.length ≤ s.got.length + size
  write : (s.rb.writeMirror, s.rb.writeIndex) = ringPos size s.put.length
  bytes : ∀ i, s.got.length ≤ i → i < s.put.length → s.rb.buffer[i % size]? = s.put[i]?
  got : s.got = s.put.take s.got.length
  place : Place size s.word s.got.length s.put s.pc

variable {size : ℕ} {s : RingSys}

/-- A byte that is there is still there behind another one. -/
theorem Ready.put {word : Bool × ℕ} {got : ℕ} {put : List UInt8} {ch ch' : UInt8} {k : Rmw}
    (h : Ready size word got put ch k) : Ready size word got (put ++ [ch']) ch k := by
  have hget (hch : put[got]? = some ch) : (put ++ [ch'])[got]? = some ch := by
    rw [List.getElem?_append_left (List.getElem?_eq_some_iff.mp hch).1, hch]
  cases k with
  | flip => exact ⟨h.1, hget h.2.1, h.2.2⟩
  | zero => exact ⟨h.1, hget h.2.1, h.2.2⟩
  | incr => exact ⟨h.1, hget h.2.1, h.2.2⟩

theorem Place.put {word : Bool × ℕ} {got : ℕ} {put : List UInt8} {ch' : UInt8} {pc : GetPc}
    (h : Place size word got put pc) (hroom : put.length < got + size) :
    Place size word got (put ++ [ch']) pc := by
  cases pc with
  | idle => exact h
  | indices => exact h
  | mirrors seen =>
    rcases h.2 with hseen | ⟨-, hfull⟩
    · exact ⟨h.1, .inl hseen⟩
    · omega
  | difference | load =>
    refine ⟨h.1, ?_⟩
    rw [List.length_append]
    exact Nat.lt_add_right _ h.2
  | last ch =>
    refine ⟨h.1, ?_⟩
    rw [List.getElem?_append_left (List.getElem?_eq_some_iff.mp h.2).1, h.2]
  | modify k ch => exact Ready.put h
  | commit k ch w => exact ⟨h.1.put, h.2⟩

/-- The word is the position of the next byte; or it is behind a flip, and then there is a next
byte. -/
theorem Ready.word_cases {word : Bool × ℕ} {got : ℕ} {put : List UInt8} {ch : UInt8} {k : Rmw}
    (h : Ready size word got put ch k) : word = ringPos size got ∨
      (word = (!(ringPos size got).1, (ringPos size got).2) ∧ got < put.length) := by
  cases k with
  | flip | incr => exact .inl h.1
  | zero => exact .inr ⟨h.1, (List.getElem?_eq_some_iff.mp h.2.1).1⟩

theorem Place.word_cases {word : Bool × ℕ} {got : ℕ} {put : List UInt8} {pc : GetPc}
    (h : Place size word got put pc) : word = ringPos size got ∨
      (word = (!(ringPos size got).1, (ringPos size got).2) ∧ got < put.length) := by
  cases pc with
  | idle | indices => exact .inl h
  | mirrors | difference | load | last => exact .inl h.1
  | modify k ch => exact Ready.word_cases h
  | commit k ch w => exact h.1.word_cases

/-- The read position has the index of the next byte at every place. -/
theorem Inv.readIndex (h : s.Inv size) : s.rb.readIndex = s.got.length % size := by
  rcases h.place.word_cases with hw | ⟨hw, -⟩
  · exact congrArg Prod.snd hw
  · exact congrArg Prod.snd hw

theorem Inv.writeIndex (h : s.Inv size) : s.rb.writeIndex = s.put.length % size :=
  congrArg Prod.snd h.write

/-- If there is room, the interrupt does not take the buffer for full: not even behind a flip. -/
theorem Inv.not_full (h : s.Inv size) (hroom : s.put.length < s.got.length + size) :
    s.rb.status ≠ .full := by
  intro hfull
  unfold RtRingbuffer.status at hfull
  split at hfull
  case isFalse => cases hfull
  case isTrue hi =>
    rw [h.readIndex, h.writeIndex] at hi
    have hsame := ringPos_index_inj h.order hroom hi.symm
    -- the buffer is empty, so the word is the position of the writer
    rcases h.place.word_cases with hw | ⟨-, hlt⟩
    · have hm : s.rb.readMirror = s.rb.writeMirror := by
        rw [← hsame, ← h.write] at hw
        exact congrArg Prod.fst hw
      rw [if_pos hm] at hfull
      cases hfull
    · omega

/-! ## One step -/

/-- The interrupt writes one byte at the position of the writer, and nothing else. -/
theorem Inv.putcharForce (h : s.Inv size) (hroom : s.put.length < s.got.length + size)
    (ch : UInt8) :
    ∃ rb, rtRingbufferPutcharForce s.rb ch = .ret (rb, 1) ∧
      rb.buffer = s.rb.buffer.set (s.put.length % size) ch ∧ rb.bufferSize = size ∧
      (rb.writeMirror, rb.writeIndex) = ringPos size (s.put.length + 1) ∧
      (rb.readMirror, rb.readIndex) = s.word := by
  have hlt := Nat.mod_lt s.put.length h.pos
  have hwrite := h.write
  have hw := h.writeIndex
  have hin : s.rb.writeIndex < s.rb.buffer.length := by
    rw [h.length, hw]
    exact hlt
  unfold rtRingbufferPutcharForce RtRingbuffer.store
  rw [if_pos hin]
  by_cases hl : s.rb.writeIndex = s.rb.bufferSize - 1
  · refine ⟨{ s.rb with
      buffer := s.rb.buffer.set s.rb.writeIndex ch
      writeMirror := !s.rb.writeMirror
      writeIndex := 0 }, ?_, by rw [hw], h.bufferSize, ?_, rfl⟩
    · simp only [if_pos hl, Call.ret_bind, if_neg (h.not_full hroom), Call.pure_eq]
    · rw [ringPos_succ_last (by rw [← hw, hl, h.bufferSize]) h.pos, ← hwrite]
  · refine ⟨{ s.rb with
      buffer := s.rb.buffer.set s.rb.writeIndex ch
      writeIndex := s.rb.writeIndex + 1 }, ?_, by rw [hw], h.bufferSize, ?_, rfl⟩
    · simp only [if_neg hl, Call.ret_bind, if_neg (h.not_full hroom), Call.pure_eq]
    · rw [ringPos_succ (by rw [← hw, ← h.bufferSize]; exact hl) h.pos, ← hwrite]

/-- The interrupt keeps the invariant. -/
theorem interrupt_inv (h : s.Inv size) (ch : UInt8) (hroom : s.Room (.interrupt ch)) :
    ∃ s', s.step (.interrupt ch) = some (s', []) ∧ s'.Inv size := by
  have hroom' : s.put.length < s.got.length + size := by
    have : s.put.length < s.got.length + s.rb.bufferSize := hroom
    rwa [h.bufferSize] at this
  obtain ⟨rb, hr, hbuf, hsize, hwrite, hread⟩ := h.putcharForce hroom' ch
  refine ⟨{ s with rb := rb, put := s.put ++ [ch] }, by rw [step, hr], ?_⟩
  have hlen : (s.put ++ [ch]).length = s.put.length + 1 := by simp
  refine ⟨h.pos, hsize, ?_, ?_, ?_, ?_, ?_, ?_, ?_⟩
  · show rb.buffer.length = size
    rw [hbuf, List.length_set, h.length]
  · show s.got.length ≤ (s.put ++ [ch]).length
    have := h.order
    omega
  · show (s.put ++ [ch]).length ≤ s.got.length + size
    omega
  · show (rb.writeMirror, rb.writeIndex) = ringPos size (s.put ++ [ch]).length
    rw [hwrite, hlen]
  · intro i hi hi'
    show rb.buffer[i % size]? = (s.put ++ [ch])[i]?
    have hi'' : i < s.put.length + 1 := by
      rw [← hlen]
      exact hi'
    by_cases hlast : i = s.put.length
    · subst hlast
      rw [hbuf, List.getElem?_set_self (by rw [h.length]; exact Nat.mod_lt _ h.pos)]
      simp
    · -- the new byte does not stand on one that is still to be read
      have hne : s.put.length % size ≠ i % size := fun he => hlast
        (ringPos_index_inj (show i ≤ s.put.length by omega) (by
          have : s.got.length ≤ i := hi
          omega) he).symm
      rw [hbuf, List.getElem?_set_ne hne, h.bytes i hi (by omega),
        List.getElem?_append_left (by omega)]
  · show s.got = (s.put ++ [ch]).take s.got.length
    rw [List.take_append_of_le_length h.order]
    exact h.got
  · show Place size (rb.readMirror, rb.readIndex) s.got.length (s.put ++ [ch]) s.pc
    rw [hread]
    exact h.place.put hroom'

/-- A step of the thread that changes only its place. -/
theorem Inv.goto (h : s.Inv size) {pc : GetPc}
    (hp : Place size s.word s.got.length s.put pc) : ({ s with pc := pc } : RingSys).Inv size :=
  ⟨h.pos, h.bufferSize, h.length, h.order, h.room, h.write, h.bytes, h.got, hp⟩

/-- The byte at the read position. -/
theorem Inv.loaded (h : s.Inv size) (hlt : s.got.length < s.put.length)
    (hin : s.rb.readIndex < s.rb.buffer.length) :
    s.put[s.got.length]? = some s.rb.buffer[s.rb.readIndex] := by
  rw [← h.bytes s.got.length (Nat.le_refl _) hlt, ← h.readIndex, List.getElem?_eq_getElem hin]

/-- The last step of a call: the byte has come out. -/
theorem Inv.returned (h : s.Inv size) {ch : UInt8} (hch : s.put[s.got.length]? = some ch)
    {mirror : Bool} {index : ℕ} (hw : (mirror, index) = ringPos size (s.got.length + 1)) :
    ({ s with
      rb := { s.rb with readMirror := mirror, readIndex := index }
      pc := .idle
      got := s.got ++ [ch] } : RingSys).Inv size := by
  obtain ⟨hlt, hget⟩ := List.getElem?_eq_some_iff.mp hch
  have hlen : (s.got ++ [ch]).length = s.got.length + 1 := by simp
  have hroom := h.room
  refine ⟨h.pos, h.bufferSize, h.length, ?_, ?_, h.write, ?_, ?_, ?_⟩
  · show (s.got ++ [ch]).length ≤ s.put.length
    omega
  · show s.put.length ≤ (s.got ++ [ch]).length + size
    omega
  · intro i hi hi'
    have : (s.got ++ [ch]).length ≤ i := hi
    exact h.bytes i (by omega) hi'
  · show s.got ++ [ch] = s.put.take (s.got ++ [ch]).length
    rw [hlen, List.take_add_one, hch, ← h.got]
    rfl
  · show (mirror, index) = ringPos size (s.got ++ [ch]).length
    rw [hlen, hw]

/-- The next step of the thread can happen and keeps the invariant; a call that returns nothing with
it has seen an empty buffer. -/
def Goes (size : ℕ) (s : RingSys) : Prop :=
  ∃ s' l, s.threadStep = some (s', l) ∧ s'.Inv size ∧ ∀ o ∈ l, o.seen = o.got

theorem Inv.goes_indices (h : s.Inv size) (hpc : s.pc = .indices) : s.Goes size := by
  have hp := h.place
  simp only [hpc, Place] at hp
  unfold Goes threadStep
  simp only [hpc]
  by_cases hi : s.rb.readIndex = s.rb.writeIndex
  · refine ⟨_, _, if_pos hi, h.goto ⟨hp, ?_⟩, by simp⟩
    rw [h.readIndex, h.writeIndex] at hi
    by_cases hroom : s.put.length < s.got.length + size
    · exact .inl (ringPos_index_inj h.order hroom hi.symm)
    · have := h.room
      exact .inr ⟨by omega, by omega⟩
  · refine ⟨_, _, if_neg hi, h.goto ⟨hp, ?_⟩, by simp⟩
    refine Nat.lt_of_le_of_ne h.order fun he => hi ?_
    rw [h.readIndex, h.writeIndex, he]

theorem Inv.goes_mirrors (h : s.Inv size) {seen : ℕ} (hpc : s.pc = .mirrors seen) :
    s.Goes size := by
  have hp := h.place
  simp only [hpc, Place] at hp
  obtain ⟨hw, hseen⟩ := hp
  have hwrite := h.write
  unfold Goes threadStep
  simp only [hpc]
  by_cases hm : s.rb.readMirror = s.rb.writeMirror
  · refine ⟨_, _, if_pos hm, h.goto hw, ?_⟩
    rcases hseen with hseen | ⟨-, hfull⟩
    · simpa using hseen
    · -- a full buffer has different mirrors
      rw [hfull, ringPos_turn _ _ h.pos, ← hw] at hwrite
      have := congrArg Prod.fst hwrite
      simp [word, hm] at this
  · refine ⟨_, _, if_neg hm, h.goto ⟨hw, ?_⟩, by simp⟩
    refine Nat.lt_of_le_of_ne h.order fun he => hm ?_
    rw [← he, ← hw] at hwrite
    exact (congrArg Prod.fst hwrite).symm

/-- Behind the comparisons there is a byte. -/
theorem Inv.goes_difference (h : s.Inv size) (hpc : s.pc = .difference) : s.Goes size := by
  have hp := h.place
  simp only [hpc, Place] at hp
  have hlen : (if s.rb.writeIndex > s.rb.readIndex then s.rb.writeIndex - s.rb.readIndex
      else s.rb.bufferSize - (s.rb.readIndex - s.rb.writeIndex)) ≠ 0 := by
    have hlt := Nat.mod_lt s.got.length h.pos
    have hri := h.readIndex
    have hsize := h.bufferSize
    split <;> omega
  unfold Goes threadStep
  simp only [hpc]
  exact ⟨_, _, if_neg hlen, h.goto hp, by simp⟩

theorem Inv.goes_load (h : s.Inv size) (hpc : s.pc = .load) : s.Goes size := by
  have hp := h.place
  simp only [hpc, Place] at hp
  have hin : s.rb.readIndex < s.rb.buffer.length := by
    rw [h.length, h.readIndex]
    exact Nat.mod_lt _ h.pos
  unfold Goes threadStep
  simp only [hpc]
  exact ⟨_, _, dif_pos hin, h.goto ⟨hp.1, h.loaded hp.2 hin⟩, by simp⟩

theorem Inv.goes_last (h : s.Inv size) {ch : UInt8} (hpc : s.pc = .last ch) : s.Goes size := by
  have hp := h.place
  simp only [hpc, Place] at hp
  unfold Goes threadStep
  simp only [hpc]
  by_cases hl : s.rb.readIndex = s.rb.bufferSize - 1
  · refine ⟨_, _, if_pos hl, h.goto ⟨hp.1, hp.2, ?_⟩, by simp⟩
    rw [← h.readIndex, hl, h.bufferSize]
  · refine ⟨_, _, if_neg hl, h.goto ⟨hp.1, hp.2, ?_⟩, by simp⟩
    rwa [← h.readIndex, ← h.bufferSize]

/-- The store: no interrupt has changed the word since the load. -/
theorem Inv.goes_commit (h : s.Inv size) {k : Rmw} {ch : UInt8} {w : Bool × ℕ}
    (hpc : s.pc = .commit k ch w) : s.Goes size := by
  have hp := h.place
  simp only [hpc, Place] at hp
  obtain ⟨hready, rfl⟩ := hp
  unfold Goes threadStep
  simp only [hpc]
  refine ⟨_, _, rfl, ?_, by simp⟩
  cases k with
  | flip =>
    obtain ⟨hw, hch, hend⟩ := hready
    refine ⟨h.pos, h.bufferSize, h.length, h.order, h.room, h.write, h.bytes, h.got, ?_⟩
    show Ready size (!s.word.1, s.word.2) s.got.length s.put ch .zero
    exact ⟨by rw [hw], hch, hend⟩
  | zero =>
    obtain ⟨hw, hch, hend⟩ := hready
    exact h.returned hch (by rw [ringPos_succ_last hend h.pos, hw]; rfl)
  | incr =>
    obtain ⟨hw, hch, hend⟩ := hready
    exact h.returned hch (by rw [ringPos_succ hend h.pos, hw]; rfl)

/-- A step of the thread can always happen and keeps the invariant; a call that returns nothing has
seen an empty buffer. -/
theorem thread_inv (h : s.Inv size) :
    ∃ s' l, s.step .thread = some (s', l) ∧ s'.Inv size ∧ ∀ o ∈ l, o.seen = o.got := by
  have hp := h.place
  show s.Goes size
  cases hpc : s.pc with
  | idle =>
    simp only [hpc, Place] at hp
    unfold Goes threadStep
    simp only [hpc]
    exact ⟨_, _, rfl, h.goto hp, by simp⟩
  | indices => exact h.goes_indices hpc
  | mirrors seen => exact h.goes_mirrors hpc
  | difference => exact h.goes_difference hpc
  | load => exact h.goes_load hpc
  | last ch => exact h.goes_last hpc
  | modify k ch =>
    simp only [hpc, Place] at hp
    unfold Goes threadStep
    simp only [hpc]
    exact ⟨_, _, rfl, h.goto ⟨hp, rfl⟩, by simp⟩
  | commit k ch w => exact h.goes_commit hpc

/-! ## Runs -/

/-- The ring buffer from `rt_ringbuffer_create`, and a thread that is not in a call. -/
def start (malloc : ℕ → List UInt8) (size : ℕ) : RingSys :=
  ⟨rtRingbufferCreate malloc size, .idle, [], []⟩

theorem start_inv {malloc : ℕ → List UInt8} (hm : ∀ n, (malloc n).length = n) {size : ℕ}
    (hs : 8 ≤ size) : (start malloc size).Inv (rtAlignDown size) := by
  have halign : rtAlignDown (rtAlignDown size) = rtAlignDown size := by
    unfold rtAlignDown
    omega
  refine ⟨?_, halign, hm _, Nat.le_refl 0, Nat.zero_le _, ?_, fun i _ hi => ?_, rfl, ?_⟩
  · unfold rtAlignDown
    omega
  · simp [start, rtRingbufferCreate, rtRingbufferInit, ringPos]
  · exact absurd hi (Nat.not_lt_zero i)
  · simp [start, Place, word, rtRingbufferCreate, rtRingbufferInit, ringPos]

end RingSys

/-- The byte that an event puts in. -/
def RingEvent.byte? : RingEvent → Option UInt8
  | .interrupt ch => some ch
  | .thread => none

namespace RingSys

/-- The thread puts nothing in, and a byte comes out when a call returns it. -/
theorem threadStep_history {s s' : RingSys} {l : List RingNothing}
    (h : s.threadStep = some (s', l)) :
    s'.put = s.put ∧ s'.got = s.got ++ s.pc.returns.toList := by
  have hif {c : Prop} [Decidable c] {a b : RingSys × List RingNothing}
      (ha : a.1.put = s.put ∧ a.1.got = s.got) (hb : b.1.put = s.put ∧ b.1.got = s.got)
      (hab : (if c then some a else some b) = some (s', l)) : s'.put = s.put ∧ s'.got = s.got := by
    split at hab
    · rwa [Option.some.inj hab] at ha
    · rwa [Option.some.inj hab] at hb
  unfold threadStep at h
  cases hpc : s.pc with
  | idle | modify =>
    simp only [hpc] at h
    cases h
    exact ⟨rfl, (List.append_nil _).symm⟩
  | indices | mirrors | difference | last =>
    simp only [hpc] at h
    simpa only [GetPc.returns, Option.toList_none, List.append_nil]
      using hif ⟨rfl, rfl⟩ ⟨rfl, rfl⟩ h
  | load =>
    simp only [hpc] at h
    split at h
    · cases h
      exact ⟨rfl, (List.append_nil _).symm⟩
    · cases h
  | commit k ch w =>
    simp only [hpc] at h
    cases h
    cases k with
    | flip => exact ⟨rfl, (List.append_nil _).symm⟩
    | zero | incr => exact ⟨rfl, rfl⟩

/-- An interrupt takes nothing out. -/
theorem interrupt_got {s s' : RingSys} {ch : UInt8} {l : List RingNothing}
    (h : s.step (.interrupt ch) = some (s', l)) : s'.got = s.got := by
  simp only [step] at h
  split at h
  · cases h
    rfl
  · cases h

/-- The history variable has the bytes of the interrupts. -/
theorem step_put {s s' : RingSys} {e : RingEvent} {l : List RingNothing}
    (h : s.step e = some (s', l)) : s'.put = s.put ++ e.byte?.toList := by
  cases e with
  | interrupt ch =>
    simp only [step] at h
    split at h
    · cases h
      rfl
    · cases h
  | thread =>
    rw [RingEvent.byte?, Option.toList_none, List.append_nil]
    exact (threadStep_history h).1

theorem run_put {s s' : RingSys} {es : List RingEvent} {l : List RingNothing}
    (h : runLog step s es = some (s', l)) : s'.put = s.put ++ es.filterMap RingEvent.byte? := by
  induction es generalizing s l with
  | nil =>
    obtain ⟨rfl, rfl⟩ := runLog_nil.mp h
    simp
  | cons e es ih =>
    obtain ⟨s₁, l₁, l₂, h₁, h₂, rfl⟩ := runLog_cons.mp h
    rw [ih h₂, step_put h₁, List.append_assoc, List.filterMap_cons]
    cases e.byte? <;> simp

end RingSys

/-- One step, if an interrupt finds room. -/
theorem RingSys.step_inv {size : ℕ} (s : RingSys) (e : RingEvent) (h : s.Inv size)
    (hroom : s.Room e) :
    ∃ s' l, s.step e = some (s', l) ∧ s'.Inv size ∧ ∀ o ∈ l, RingNothing.seen o = o.got := by
  cases e with
  | interrupt ch =>
    obtain ⟨s', hstep, h'⟩ := interrupt_inv h ch hroom
    exact ⟨s', [], hstep, h', by simp⟩
  | thread => exact thread_inv h

/-- An interrupt and a thread on a ring buffer from `rt_ringbuffer_create`, in any order of their
steps in which no interrupt finds the buffer full. No access is outside the buffer. The bytes that
came out are the first of the bytes of the interrupts, in their order. A call that returned nothing
has looked at a time when all bytes had come out. -/
theorem ring_interrupt_fifo (malloc : ℕ → List UInt8) (hm : ∀ n, (malloc n).length = n) (size : ℕ)
    (hs : 8 ≤ size) (es : List RingEvent)
    (hroom : AllSteps RingSys.step RingSys.Room (RingSys.start malloc size) es) :
    ∃ s l, runLog RingSys.step (RingSys.start malloc size) es = some (s, l) ∧
      s.got <+: es.filterMap RingEvent.byte? ∧ ∀ o ∈ l, o.seen = o.got := by
  obtain ⟨s, l, hrun, hinv, hl⟩ :=
    runLog_safe RingSys.step_inv (RingSys.start_inv hm hs) hroom
  refine ⟨s, l, hrun, ?_, hl⟩
  have hput := RingSys.run_put hrun
  rw [RingSys.start, List.nil_append] at hput
  rw [hinv.got, ← hput]
  exact List.take_prefix _ _

/-- A full buffer of eight bytes; seven come out and six more go in. Then an interrupt hits the
thread between the flip of the mirror and the store of the index. -/
def flipRun : List RingEvent :=
  [1, 2, 3, 4, 5, 6, 7, 8].map .interrupt ++ List.replicate 49 .thread ++
    [9, 10, 11, 12, 13, 14].map .interrupt ++ List.replicate 7 .thread ++ [.interrupt 15] ++
    List.replicate 2 .thread

theorem ring_interrupt_fifo_flip :
    ∃ s l, runLog RingSys.step (RingSys.start (List.replicate · 0) 8) flipRun = some (s, l) ∧
      s.got = [1, 2, 3, 4, 5, 6, 7, 8] ∧ s.got <+: flipRun.filterMap RingEvent.byte? := by
  obtain ⟨s, l, hrun, hpre, -⟩ := ring_interrupt_fifo (List.replicate · 0) (by simp) 8 (by decide)
    flipRun (by decide +kernel)
  refine ⟨s, l, hrun, ?_, hpre⟩
  have hgot : (runLog RingSys.step (RingSys.start (List.replicate · 0) 8) flipRun).map
      (fun r => r.1.got) = some [1, 2, 3, 4, 5, 6, 7, 8] := by
    decide +kernel
  rw [hrun] at hgot
  exact Option.some.inj hgot

end Robot
