import ConstructionRobot.Lib.Feed
import ConstructionRobot.Sbus.Decode
import Mathlib.Data.List.OfFn

/-!
# Reception of frames (`bsp_sbus.c`)

`dbus_uart_rx_ind` is called by the serial driver for each chunk of received bytes, with the number
of bytes in the buffer of the driver. It looks for the start byte `0x0f` in one call and for the
other 24 bytes in a later one, so it passes on at most one frame in two calls, however many bytes
there are.

* `InSync`: the handler stands at a frame boundary, or behind the start byte of a frame.
* `receive_passed`: it stays in step with the stream; the frames that it passes on are the first
  ones, each with its own bytes. How many there are depends on the lengths of the chunks only
  (`passedCount`).
* `passedCount_eq_iff`: it has passed on all complete frames exactly if they came slowly enough.
* `receive_all_iff`: the same for the handler.
-/

namespace Robot

open Traced

/-- The static data of `bsp_sbus.c`, and the bytes in the buffer of the UART. -/
structure DbusState where
  state : UInt8
  dbusBuf : SbusFrame
  rc : RcInfo
  uart : List UInt8

/-- `rt_device_read (uart, 0, dbus_buf + i, n)`: the bytes there are, at most `n`. -/
def DbusState.deviceRead (s : DbusState) (i n : ℕ) : DbusState where
  state := s.state
  dbusBuf := fun k =>
    if i ≤ k.val ∧ k.val < i + n then (s.uart[k.val - i]?).getD (s.dbusBuf k) else s.dbusBuf k
  rc := s.rc
  uart := s.uart.drop n

theorem start_lt : 0 < 25 := by decide

/-- `dbus_uart_rx_ind`; the events are the frames that it passes to `rc_callback_handler`. -/
def DbusState.rxInd (s : DbusState) (size : ℕ) : Traced SbusFrame DbusState :=
  if s.state = 0 then
    let s := s.deviceRead 0 1
    if s.dbusBuf ⟨0, start_lt⟩ = 0x0f then pure { s with state := 1 } else pure s
  else if s.state = 1 then
    if size ≥ 24 then do
      let s := { s.deviceRead 1 24 with state := 0 }
      emit s.dbusBuf
      pure { s with rc := rcCallbackHandler s.rc s.dbusBuf }
    else pure s
  else pure s

/-- A chunk arrives, and the handler is called with the number of bytes in the buffer. -/
def DbusState.deliver (s : DbusState) (chunk : List UInt8) : Traced SbusFrame DbusState :=
  let s := { s with uart := s.uart ++ chunk }
  s.rxInd s.uart.length

/-- The bytes of the frames. -/
def sbusStream (frames : List SbusFrame) : List UInt8 := frames.flatMap List.ofFn

/-- The handler is at a frame boundary, or has taken the start byte of a frame: the bytes of the
stream that it still has to pass on are `pending`. -/
inductive InSync : DbusState → Bool → List UInt8 → Prop
  | search {s : DbusState} (h : s.state = 0) : InSync s false s.uart
  | header {s : DbusState} (h : s.state = 1) (hb : s.dbusBuf ⟨0, start_lt⟩ = 0x0f) :
      InSync s true (0x0f :: s.uart)

/-- The number of frames that are passed on: `header` says that the start byte has been taken, and
`pending` counts the bytes still to be passed on. Only the lengths of the chunks matter. -/
def passedCount : Bool → ℕ → List (List UInt8) → ℕ
  | _, _, [] => 0
  | false, pending, chunk :: chunks => passedCount true (pending + chunk.length) chunks
  | true, pending, chunk :: chunks =>
    if 25 ≤ pending + chunk.length then
      passedCount false (pending + chunk.length - 25) chunks + 1
    else passedCount true (pending + chunk.length) chunks

/-- The chunks come slowly enough: with `N` complete frames and `n` chunks, there are two calls for
each frame, one less if the first start byte is already taken, and frame `j` is complete `2 (N - j)`
calls before the last one. -/
def KeepsUp (header : Bool) (pending : ℕ) (chunks : List (List UInt8)) : Prop :=
  let N := (pending + chunks.flatten.length) / 25
  2 * N ≤ chunks.length + header.toNat ∧
    ∀ j, 1 ≤ j → j ≤ N →
      25 * j ≤ pending + (chunks.take (chunks.length - 2 * (N - j))).flatten.length

/-! ## The stream -/

theorem sbusStream_cons (f : SbusFrame) (frames : List SbusFrame) :
    sbusStream (f :: frames) = List.ofFn f ++ sbusStream frames := rfl

theorem sbusStream_length (frames : List SbusFrame) :
    (sbusStream frames).length = 25 * frames.length := by
  induction frames with
  | nil => rfl
  | cons f frames ih =>
    rw [sbusStream_cons, List.length_append, List.length_ofFn, ih, List.length_cons]
    omega

/-- A stream with bytes in it starts with the start byte of its first frame. -/
theorem head_of_pending {frames : List SbusFrame} {b : UInt8} {bytes : List UInt8}
    (hf : ∀ f ∈ frames, f 0 = 0x0f) (hp : b :: bytes <+: sbusStream frames) : b = 0x0f := by
  cases frames with
  | nil => exact absurd (List.prefix_nil.mp hp) (by simp)
  | cons f frames =>
    rw [sbusStream_cons, List.ofFn_succ, List.cons_append] at hp
    rw [(List.cons_prefix_cons.mp hp).1]
    exact hf f List.mem_cons_self

/-- 25 pending bytes are the first frame, and the others go on with the next one. -/
theorem frame_of_pending {frames : List SbusFrame} {pending rest : List UInt8}
    (hlen : 25 ≤ pending.length) (hp : pending ++ rest <+: sbusStream frames) :
    ∃ f frames', frames = f :: frames' ∧ (∀ k : Fin 25, pending[k.val]? = some (f k)) ∧
      pending.drop 25 ++ rest <+: sbusStream frames' := by
  cases frames with
  | nil =>
    have := congrArg List.length (List.prefix_nil.mp hp)
    rw [List.length_append, List.length_nil] at this
    omega
  | cons f frames =>
    have hsplit : pending.take 25 ++ (pending.drop 25 ++ rest) <+:
        List.ofFn f ++ sbusStream frames := by
      rw [← List.append_assoc, List.take_append_drop]
      exact hp
    have hframe : pending.take 25 = List.ofFn f := by
      refine List.IsPrefix.eq_of_length ?_ (by simp [hlen])
      exact List.prefix_of_prefix_length_le ((List.prefix_append _ _).trans hsplit)
        (List.prefix_append _ _) (by simp)
    rw [hframe] at hsplit
    refine ⟨f, frames, rfl, fun k => ?_, (List.prefix_append_right_inj _).mp hsplit⟩
    rw [← List.getElem?_take_of_lt k.isLt, hframe, List.getElem?_ofFn, dif_pos k.isLt]

/-! ## One call -/

section Step

variable {s : DbusState} {pending rest chunk : List UInt8} {frames : List SbusFrame}

/-- At a frame boundary the call takes the start byte. -/
theorem deliver_search (hs : InSync s false pending) (hf : ∀ f ∈ frames, f 0 = 0x0f)
    (hc : chunk ≠ []) (hp : pending ++ chunk ++ rest <+: sbusStream frames) :
    ∃ s', s.deliver chunk = ⟨[], .ret s'⟩ ∧ InSync s' true (pending ++ chunk) ∧ s'.rc = s.rc := by
  obtain ⟨h⟩ := hs
  obtain ⟨b, bytes, hb⟩ := List.exists_cons_of_ne_nil
    (List.append_ne_nil_of_right_ne_nil s.uart hc)
  rw [hb] at hp ⊢
  obtain rfl := head_of_pending hf hp
  let taken : DbusState := ({ s with uart := 0x0f :: bytes } : DbusState).deviceRead 0 1
  have hread : taken.dbusBuf ⟨0, start_lt⟩ = 0x0f := rfl
  refine ⟨{ taken with state := 1 }, ?_, .header (s := { taken with state := 1 }) rfl hread, rfl⟩
  unfold DbusState.deliver DbusState.rxInd
  rw [hb, if_pos h, if_pos hread]
  rfl

/-- Behind the start byte the call waits for 24 bytes. -/
theorem deliver_wait (hs : InSync s true pending) (hlen : (pending ++ chunk).length < 25) :
    ∃ s', s.deliver chunk = ⟨[], .ret s'⟩ ∧ InSync s' true (pending ++ chunk) ∧ s'.rc = s.rc := by
  obtain - | ⟨h, hb⟩ := hs
  have hsize : ¬(s.uart ++ chunk).length ≥ 24 := by
    rw [List.cons_append, List.length_cons] at hlen
    omega
  refine ⟨{ s with uart := s.uart ++ chunk }, ?_, .header h hb, rfl⟩
  unfold DbusState.deliver DbusState.rxInd
  rw [if_neg (by simp [h]), if_pos h, if_neg hsize]
  rfl

/-- With 24 bytes behind the start byte, the call passes the first frame on. -/
theorem deliver_pass (hs : InSync s true pending) (hlen : 25 ≤ (pending ++ chunk).length)
    (hp : pending ++ chunk ++ rest <+: sbusStream frames) :
    ∃ f frames' s', frames = f :: frames' ∧ s.deliver chunk = ⟨[f], .ret s'⟩ ∧
      InSync s' false ((pending ++ chunk).drop 25) ∧ s'.rc = rcCallbackHandler s.rc f ∧
      (pending ++ chunk).drop 25 ++ rest <+: sbusStream frames' := by
  obtain ⟨f, frames', rfl, hf, hrest⟩ := frame_of_pending hlen hp
  obtain - | ⟨h, hb⟩ := hs
  have hsize : (s.uart ++ chunk).length ≥ 24 := by
    rw [List.cons_append, List.length_cons] at hlen
    omega
  let taken : DbusState := ({ s with uart := s.uart ++ chunk } : DbusState).deviceRead 1 24
  have hread : taken.dbusBuf = f := by
    funext k
    have hk := hf k
    rw [List.cons_append] at hk
    simp only [taken, DbusState.deviceRead]
    cases hv : k.val with
    | zero =>
      rw [if_neg (by omega)]
      rw [hv, List.getElem?_cons_zero, Option.some.injEq] at hk
      rw [← hk, show k = ⟨0, start_lt⟩ from Fin.ext hv, hb]
    | succ i =>
      rw [hv, List.getElem?_cons_succ] at hk
      rw [if_pos (by omega), Nat.add_sub_cancel, hk, Option.getD_some]
  let s' : DbusState := ⟨0, f, rcCallbackHandler s.rc f, taken.uart⟩
  refine ⟨f, frames', s', rfl, ?_, .search (s := s') rfl, rfl, hrest⟩
  unfold DbusState.deliver DbusState.rxInd
  rw [if_neg (by simp [h]), if_pos h, if_pos hsize]
  show (⟨[taken.dbusBuf], .ret ⟨0, taken.dbusBuf, rcCallbackHandler s.rc taken.dbusBuf,
    taken.uart⟩⟩ : Traced SbusFrame DbusState) = _
  rw [hread]

end Step

/-! ## The stream in chunks -/

/-- The handler stays in step with the stream, and passes on its first frames. -/
theorem receive_passed {s : DbusState} {header : Bool} {pending : List UInt8}
    {frames : List SbusFrame} {chunks : List (List UInt8)} (hs : InSync s header pending)
    (hf : ∀ f ∈ frames, f 0 = 0x0f) (hc : ∀ c ∈ chunks, c ≠ [])
    (hp : pending ++ chunks.flatten <+: sbusStream frames) :
    ∃ s', feed DbusState.deliver s chunks =
        ⟨frames.take (passedCount header pending.length chunks), .ret s'⟩ ∧
      s'.rc = (frames.take (passedCount header pending.length chunks)).foldl
        rcCallbackHandler s.rc := by
  induction chunks generalizing s header pending frames with
  | nil => exact ⟨s, by simp [feed_nil, passedCount], by simp [passedCount]⟩
  | cons chunk chunks ih =>
    have hc' : ∀ c ∈ chunks, c ≠ [] := fun c hm => hc c (List.mem_cons_of_mem _ hm)
    rw [List.flatten_cons, ← List.append_assoc] at hp
    cases header with
    | false =>
      obtain ⟨s₁, hstep, hs₁, hrc⟩ := deliver_search hs hf (hc _ List.mem_cons_self) hp
      obtain ⟨s', hrun, hrc'⟩ := ih hs₁ hf hc' hp
      rw [List.length_append] at hrun hrc'
      refine ⟨s', ?_, by rw [hrc', hrc]; rfl⟩
      rw [feed_cons hstep, hrun]
      rfl
    | true =>
      by_cases h25 : 25 ≤ (pending ++ chunk).length
      · obtain ⟨f, frames', s₁, rfl, hstep, hs₁, hrc, hp'⟩ := deliver_pass hs h25 hp
        obtain ⟨s', hrun, hrc'⟩ := ih hs₁ (fun g hg => hf g (List.mem_cons_of_mem _ hg)) hc' hp'
        rw [List.length_append] at h25
        rw [List.length_drop, List.length_append] at hrun hrc'
        refine ⟨s', ?_, ?_⟩
        · rw [feed_cons hstep, hrun, passedCount, if_pos h25, List.take_succ_cons]
          rfl
        · rw [hrc', hrc, passedCount, if_pos h25, List.take_succ_cons, List.foldl_cons]
      · obtain ⟨s₁, hstep, hs₁, hrc⟩ := deliver_wait hs (Nat.lt_of_not_le h25)
        obtain ⟨s', hrun, hrc'⟩ := ih hs₁ hf hc' hp
        rw [List.length_append] at h25 hrun hrc'
        refine ⟨s', ?_, by rw [hrc', hrc, passedCount, if_neg h25]⟩
        rw [feed_cons hstep, hrun, passedCount, if_neg h25]
        rfl

/-! ## How many frames are passed on -/

section Count

variable {chunk : List UInt8} {chunks : List (List UInt8)} {pending : ℕ}

theorem add_flatten_length :
    pending + (chunk :: chunks).flatten.length =
      pending + chunk.length + chunks.flatten.length := by
  rw [List.flatten_cons, List.length_append, Nat.add_assoc]

/-- The first chunk and some of the others. -/
theorem take_flatten_length {k : ℕ} (hk : 0 < k) :
    ((chunk :: chunks).take k).flatten.length =
      chunk.length + (chunks.take (k - 1)).flatten.length := by
  obtain ⟨k, rfl⟩ := Nat.exists_eq_succ_of_ne_zero (Nat.ne_of_gt hk)
  rw [List.take_succ_cons, List.flatten_cons, List.length_append, Nat.succ_sub_one]

theorem keepsUp_nil {header : Bool} : KeepsUp header pending [] ↔ pending / 25 = 0 := by
  have hb : header.toNat ≤ 1 := Bool.toNat_le header
  simp only [KeepsUp, List.flatten_nil, List.length_nil, Nat.add_zero, List.take_nil]
  constructor
  · rintro ⟨h, -⟩
    omega
  · intro h
    exact ⟨by omega, fun j h1 hj => by omega⟩

theorem keepsUp_search :
    KeepsUp false pending (chunk :: chunks) ↔ KeepsUp true (pending + chunk.length) chunks := by
  simp only [KeepsUp, add_flatten_length, List.length_cons, Bool.toNat_false, Bool.toNat_true,
    Nat.add_zero]
  generalize (pending + chunk.length + chunks.flatten.length) / 25 = N
  refine and_congr_right fun hN => forall_congr' fun j => forall_congr' fun h1 =>
    forall_congr' fun hj => ?_
  rw [take_flatten_length (by omega), Nat.add_assoc,
    show chunks.length + 1 - 2 * (N - j) - 1 = chunks.length - 2 * (N - j) by omega]

theorem keepsUp_wait (h : pending + chunk.length < 25) :
    KeepsUp true pending (chunk :: chunks) ↔ KeepsUp true (pending + chunk.length) chunks := by
  simp only [KeepsUp, add_flatten_length, List.length_cons, Bool.toNat_true]
  generalize (pending + chunk.length + chunks.flatten.length) / 25 = N
  constructor
  · rintro ⟨hN, hall⟩
    by_cases h0 : N = 0
    · exact ⟨by omega, fun j h1 hj => by omega⟩
    have hfirst := hall 1 (Nat.le_refl 1) (by omega)
    rw [take_flatten_length (by omega)] at hfirst
    -- the first frame is not complete yet, so a second call is needed for it
    have hpos : 2 * N ≤ chunks.length + 1 := by
      by_contra hcon
      rw [show chunks.length + 1 - 2 * (N - 1) - 1 = 0 by omega, List.take_zero] at hfirst
      simp only [List.flatten_nil, List.length_nil] at hfirst
      omega
    refine ⟨hpos, fun j h1 hj => ?_⟩
    have hj' := hall j h1 hj
    rw [take_flatten_length (by omega),
      show chunks.length + 1 - 2 * (N - j) - 1 = chunks.length - 2 * (N - j) by omega] at hj'
    omega
  · rintro ⟨hN, hall⟩
    refine ⟨by omega, fun j h1 hj => ?_⟩
    have hj' := hall j h1 hj
    rw [take_flatten_length (by omega),
      show chunks.length + 1 - 2 * (N - j) - 1 = chunks.length - 2 * (N - j) by omega]
    omega

theorem keepsUp_pass (h : 25 ≤ pending + chunk.length) :
    KeepsUp true pending (chunk :: chunks) ↔
      KeepsUp false (pending + chunk.length - 25) chunks := by
  have hsum : (pending + (chunk :: chunks).flatten.length) / 25 =
      (pending + chunk.length - 25 + chunks.flatten.length) / 25 + 1 := by
    rw [add_flatten_length]
    omega
  simp only [KeepsUp, hsum, List.length_cons, Bool.toNat_true, Bool.toNat_false, Nat.add_zero]
  generalize (pending + chunk.length - 25 + chunks.flatten.length) / 25 = N
  constructor
  · rintro ⟨hN, hall⟩
    refine ⟨by omega, fun j h1 hj => ?_⟩
    have hj' := hall (j + 1) (by omega) (by omega)
    rw [take_flatten_length (by omega), show chunks.length + 1 - 2 * (N + 1 - (j + 1)) - 1 =
      chunks.length - 2 * (N - j) by omega] at hj'
    omega
  · rintro ⟨hN, hall⟩
    refine ⟨by omega, fun j h1 hj => ?_⟩
    rw [take_flatten_length (by omega)]
    by_cases hj1 : j = 1
    · omega
    have hj' := hall (j - 1) (by omega) (by omega)
    rw [show chunks.length - 2 * (N - (j - 1)) = chunks.length + 1 - 2 * (N + 1 - j) - 1 by
      omega] at hj'
    omega

end Count

/-- A frame that is passed on is complete. -/
theorem passedCount_le {chunks : List (List UInt8)} {header : Bool} {pending : ℕ} :
    25 * passedCount header pending chunks ≤ pending + chunks.flatten.length := by
  induction chunks generalizing header pending with
  | nil => simp [passedCount]
  | cons chunk chunks ih =>
    rw [add_flatten_length]
    cases header with
    | false => exact ih
    | true =>
      rw [passedCount]
      split
      case isTrue h =>
        have := @ih false (pending + chunk.length - 25)
        omega
      case isFalse h => exact ih

/-- All complete frames have been passed on exactly if they came slowly enough. -/
theorem passedCount_eq_iff {chunks : List (List UInt8)} {header : Bool} {pending : ℕ} :
    passedCount header pending chunks = (pending + chunks.flatten.length) / 25 ↔
      KeepsUp header pending chunks := by
  induction chunks generalizing header pending with
  | nil =>
    rw [keepsUp_nil, passedCount]
    exact eq_comm
  | cons chunk chunks ih =>
    rw [add_flatten_length]
    cases header with
    | false => rw [keepsUp_search, passedCount, ih]
    | true =>
      rw [passedCount]
      split
      case isTrue h =>
        rw [keepsUp_pass h, ← ih]
        omega
      case isFalse h => rw [keepsUp_wait (by omega), ih]

/-- A stream of frames, delivered from a frame boundary on in any chunks: every frame that is
complete after the last call has been passed on, once, in order and with its own bytes, exactly if
there are two calls for each of these `N` frames and frame `j` is complete `2 (N - j)` calls before
the last one. -/
theorem receive_all_iff {s : DbusState} {frames : List SbusFrame} {chunks : List (List UInt8)}
    (hs : s.state = 0) (hu : s.uart = []) (hf : ∀ f ∈ frames, f 0 = 0x0f)
    (hc : ∀ c ∈ chunks, c ≠ []) (hp : chunks.flatten <+: sbusStream frames) :
    (∃ s', feed DbusState.deliver s chunks =
        ⟨frames.take (chunks.flatten.length / 25), .ret s'⟩) ↔
      2 * (chunks.flatten.length / 25) ≤ chunks.length ∧
        ∀ j, 1 ≤ j → j ≤ chunks.flatten.length / 25 →
          25 * j ≤ (chunks.take
            (chunks.length - 2 * (chunks.flatten.length / 25 - j))).flatten.length := by
  have hsync : InSync s false [] := hu ▸ .search hs
  obtain ⟨s', hrun, -⟩ := receive_passed hsync hf hc hp
  have hcount : passedCount false 0 chunks = chunks.flatten.length / 25 ↔ _ :=
    Nat.zero_add chunks.flatten.length ▸ passedCount_eq_iff
  have hle : passedCount false 0 chunks ≤ chunks.flatten.length / 25 := by
    have := @passedCount_le chunks false 0
    omega
  have hN : chunks.flatten.length / 25 ≤ frames.length := by
    have := hp.length_le
    rw [sbusStream_length] at this
    omega
  have hkeeps : KeepsUp false 0 chunks ↔ 2 * (chunks.flatten.length / 25) ≤ chunks.length ∧
      ∀ j, 1 ≤ j → j ≤ chunks.flatten.length / 25 →
        25 * j ≤ (chunks.take
          (chunks.length - 2 * (chunks.flatten.length / 25 - j))).flatten.length := by
    simp only [KeepsUp, Nat.zero_add, Bool.toNat_false, Nat.add_zero]
  rw [← hkeeps, ← hcount, hrun, List.length_nil]
  constructor
  · rintro ⟨s'', heq⟩
    have hlen := congrArg (fun t => t.log.length) heq
    simp only [List.length_take] at hlen
    omega
  · intro heq
    exact ⟨s', by rw [heq]⟩

/-- The frame with all channels at zero. -/
def zeroFrame : SbusFrame := fun k => if k.val = 0 then 0x0f else 0

/-- The static data at the start of the program. -/
def DbusState.start : DbusState := ⟨0, fun _ => 0, ⟨fun _ => 0, 0, 0⟩, []⟩

/-- A frame with other bytes. -/
def countFrame : SbusFrame := fun k => if k.val = 0 then 0x0f else UInt8.ofNat k.val

/-- Two frames and the beginning of a third, in four chunks that do not end with a frame: both are
passed on. -/
theorem receive_all_two :
    let stream := sbusStream [zeroFrame, countFrame, zeroFrame]
    let chunks := [stream.take 10, (stream.drop 10).take 17, (stream.drop 27).take 13,
      (stream.drop 40).take 12]
    ∃ s', feed DbusState.deliver .start chunks = ⟨[zeroFrame, countFrame], .ret s'⟩ := by
  intro stream chunks
  have hf : ∀ f ∈ [zeroFrame, countFrame, zeroFrame], f 0 = 0x0f := by
    intro f hf
    simp only [List.mem_cons, List.not_mem_nil, or_false] at hf
    rcases hf with rfl | rfl | rfl <;> rfl
  have hc : ∀ c ∈ chunks, c ≠ [] := by decide
  have hp : chunks.flatten <+: stream := ⟨stream.drop 52, by decide⟩
  have hlen : chunks.flatten.length = 52 := by decide
  have h := receive_all_iff (s := .start) rfl rfl hf hc hp
  rw [hlen] at h
  refine h.mpr ⟨by decide, fun j h1 hj => ?_⟩
  have hj' : j ≤ 2 := hj
  obtain rfl | rfl : j = 1 ∨ j = 2 := by omega
  · decide
  · decide

/-- A frame that comes in one chunk is not: the only call takes its start byte. -/
theorem frame_in_one_chunk :
    zeroFrame 0 = 0x0f ∧ [List.ofFn zeroFrame].flatten = sbusStream [zeroFrame] ∧
      (feed DbusState.deliver .start [List.ofFn zeroFrame]).log = [] ∧
      ¬∃ s', feed DbusState.deliver .start [List.ofFn zeroFrame] =
        ⟨[zeroFrame].take ([List.ofFn zeroFrame].flatten.length / 25), .ret s'⟩ := by
  have hlog : (feed DbusState.deliver .start [List.ofFn zeroFrame]).log = [] := rfl
  refine ⟨rfl, rfl, hlog, ?_⟩
  rintro ⟨s', hs'⟩
  rw [hs'] at hlog
  exact absurd hlog (List.cons_ne_nil _ _)

end Robot
