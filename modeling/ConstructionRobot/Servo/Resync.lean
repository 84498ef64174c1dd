import ConstructionRobot.Servo.RoundTrip
import Mathlib.Algebra.Group.Nat.Even
import Mathlib.Data.List.DropRight

/-!
# Finding a frame behind other bytes

The loop of `FSUS_RecvPackage` on a stream that does not start with a frame. A byte that does not
complete a header is given up together with the `05` before it, even if it is a `05` itself; so the
search takes the last bytes `05` before a frame in pairs.

* `lastFives`: how many bytes `05` stand at the end.
* `afterHeader_first`: where the search is after the first header of a stream.
* `recvBytes_needs`: a success needs all bytes of a frame behind the header that was found.
* `resync_iff`: the frame is received exactly if it is behind an even number of `05`.
-/

namespace Robot

/-! ## Bytes at the end -/

/-- How many bytes `05` the list ends with. -/
def lastFives (g : List UInt8) : ℕ := (g.rtakeWhile (· == 0x05)).length

theorem lastFives_cons_of_ne {a : UInt8} (h : a ≠ 0x05) (g : List UInt8) :
    lastFives (a :: g) = lastFives g := by
  have ha : (a == 0x05) = false := beq_false_of_ne h
  simp only [lastFives, List.rtakeWhile, List.reverse_cons, List.takeWhile_append,
    List.takeWhile_cons, ha]
  split <;> simp_all

/-- A byte `05` in front counts only if there is nothing else. -/
theorem lastFives_five_cons (g : List UInt8) :
    lastFives (0x05 :: g) = if lastFives g = g.length then g.length + 1 else lastFives g := by
  simp only [lastFives, List.rtakeWhile, List.length_reverse, List.reverse_cons,
    List.takeWhile_append, List.takeWhile_cons]
  split <;> simp

theorem lastFives_le (g : List UInt8) : lastFives g ≤ g.length :=
  (List.rtakeWhile_suffix _ g).length_le

/-- A `05` and the byte behind it leave the parity as it is. -/
theorem even_lastFives_pair (b : UInt8) (g : List UInt8) :
    Even (lastFives (0x05 :: b :: g)) ↔ Even (lastFives g) := by
  have hle := lastFives_le g
  rw [lastFives_five_cons, List.length_cons]
  by_cases hb : b = 0x05
  · subst hb
    rw [lastFives_five_cons]
    by_cases hall : lastFives g = g.length
    · rw [if_pos hall, if_pos rfl, hall, Nat.even_add_one, Nat.even_add_one, not_not]
    · rw [if_neg hall, if_neg (by omega)]
  · rw [lastFives_cons_of_ne hb, if_neg (by omega)]

/-! ## The first header -/

/-- The pair `05 1c` does not start in `g`. -/
def HeaderFree (g tail : List UInt8) : Prop :=
  ∀ xs ys, g ++ tail = xs ++ 0x05 :: 0x1c :: ys → g.length ≤ xs.length

theorem HeaderFree.tail {a : UInt8} {g tail : List UInt8} (h : HeaderFree (a :: g) tail) :
    HeaderFree g tail := by
  intro xs ys heq
  have hle := h (a :: xs) ys (congrArg (a :: ·) heq)
  exact Nat.le_of_succ_le_succ hle

theorem HeaderFree.second_ne {b : UInt8} {g tail : List UInt8}
    (h : HeaderFree (0x05 :: b :: g) tail) : b ≠ 0x1c := by
  rintro rfl
  exact absurd (h [] (g ++ tail) rfl) (by simp)

/-- The search at the first header of a stream: it takes the header, or it gives up its `05` and
goes on behind it. -/
theorem afterHeader_first {g rest : List UInt8} (h : HeaderFree g (0x05 :: 0x1c :: rest)) :
    afterHeader (g ++ 0x05 :: 0x1c :: rest) =
      if Even (lastFives g) then some rest else afterHeader (0x1c :: rest) := by
  induction g using afterHeader.induct with
  | case1 => rw [List.nil_append, afterHeader_header, if_pos (by decide)]
  | case2 a =>
    rw [List.cons_append, List.nil_append, afterHeader]
    by_cases ha : a = 0x05
    · subst ha
      rw [if_neg (by decide), if_neg (by decide), if_neg (by decide)]
    · rw [if_pos ha, afterHeader_header, lastFives_cons_of_ne ha, if_pos (by decide)]
  | case3 a b bs ha ih =>
    rw [lastFives_cons_of_ne ha, ← ih h.tail, List.cons_append, List.cons_append, afterHeader,
      if_pos ha]
  | case4 a bs ha =>
    rw [not_not.mp ha] at h
    exact absurd rfl h.second_ne
  | case5 a b bs ha hb ih =>
    rw [List.cons_append, List.cons_append, afterHeader, if_neg ha, if_neg hb, ih h.tail.tail,
      not_not.mp ha]
    simp only [even_lastFives_pair]

/-- What is behind a header is shorter by at least two bytes. -/
theorem afterHeader_length {bs rest : List UInt8} (h : afterHeader bs = some rest) :
    rest.length + 2 ≤ bs.length := by
  fun_induction afterHeader bs with
  | case1 => simp at h
  | case2 => simp at h
  | case3 a b bs ha ih =>
    have := ih h
    rw [List.length_cons]
    omega
  | case4 a bs ha =>
    rw [Option.some.inj h]
    simp
  | case5 a b bs ha hb ih =>
    have := ih h
    rw [List.length_cons, List.length_cons]
    omega

/-! ## Too few bytes -/

/-- The content and the checksum need their bytes. -/
theorem recvBytes_content_needs {c0 : UInt8} {pkg got : Package} {bIdx : UInt8} {header : UInt16}
    {status : FsusStatus} (hs : pkg.status = 7) (hle : pkg.size.toNat ≤ 45) {bs : List UInt8}
    (h : (recvBytes c0 ⟨pkg, bIdx, header⟩ bs).2 = .done status got) :
    got.size = pkg.size ∧ pkg.size.toNat + 1 ≤ bIdx.toNat + bs.length := by
  induction bs generalizing pkg bIdx with
  | nil => simp [recvBytes] at h
  | cons b bs ih =>
    by_cases hi : bIdx.toNat < 50
    · have hnext : (bIdx + 1).toNat = bIdx.toNat + 1 := by
        rw [UInt8.toNat_add, UInt8.toNat_one]
        omega
      rw [recvBytes_more (recvByte_content c0 pkg bIdx b header hs hi)] at h
      by_cases hlast : bIdx + 1 = pkg.size
      · rw [if_pos hlast] at h
        have hsize : pkg.size.toNat = bIdx.toNat + 1 := by rw [← hlast, hnext]
        cases bs with
        | nil => simp [recvBytes] at h
        | cons b' bs =>
          obtain ⟨sum, -, hsum⟩ := recvByte_checksum c0
            { pkg with content := pkg.content.set bIdx.toNat b, status := 15 } (bIdx + 1) b'
            header rfl (show pkg.size.toNat ≤ 50 by omega)
          rw [recvBytes_done hsum] at h
          have hgot := (RecvOut.done.inj h).2
          refine ⟨by rw [← hgot], ?_⟩
          rw [List.length_cons, List.length_cons]
          omega
      · rw [if_neg hlast] at h
        have hrest := @ih { pkg with content := pkg.content.set bIdx.toNat b, status := 7 }
          (bIdx + 1) rfl hle h
        refine ⟨hrest.1, ?_⟩
        have hlen' : pkg.size.toNat + 1 ≤ (bIdx + 1).toNat + bs.length := hrest.2
        rw [List.length_cons]
        omega
    · -- behind the content the loop has left the package
      rw [List.length_cons]
      exact absurd h (by
        rw [recvBytes, recvByte, hs, if_neg (by decide), if_pos (by decide), recvContent,
          dif_neg hi]
        simp)

/-- Behind the header, a success needs a command, a size, the content and the checksum. -/
theorem recvBytes_needs {c0 : UInt8} {pkg got : Package} {header : UInt16}
    (hs : pkg.status = flagHeader) {bs : List UInt8}
    (h : (recvBytes c0 ⟨pkg, 0, header⟩ bs).2 = .done .success got) :
    got.size.toNat + 3 ≤ bs.length := by
  cases bs with
  | nil => simp [recvBytes] at h
  | cons cmd bs =>
    have hcmd := recvByte_cmdId c0 pkg 0 cmd header hs
    by_cases hbad : cmd > fsusCmdNum
    · rw [if_pos hbad] at hcmd
      rw [recvBytes_done hcmd] at h
      simp at h
    rw [if_neg hbad] at hcmd
    rw [recvBytes_more hcmd] at h
    cases bs with
    | nil => simp [recvBytes] at h
    | cons size bs =>
      have hsize := recvByte_size c0 { pkg with cmdId := cmd, status := 3 } 0 size header rfl
      by_cases hbig : size > maxSize
      · rw [if_pos hbig] at hsize
        dsimp only at h
        rw [recvBytes_done hsize] at h
        simp at h
      rw [if_neg hbig] at hsize
      dsimp only at h
      rw [recvBytes_more hsize] at h
      have hle : size.toNat ≤ 45 := UInt8.le_iff_toNat_le.mp (UInt8.not_lt.mp hbig)
      obtain ⟨hgot, hlen⟩ := recvBytes_content_needs rfl hle h
      have hlen' : size.toNat + 1 ≤ (0 : UInt8).toNat + bs.length := hlen
      rw [UInt8.toNat_zero] at hlen'
      rw [hgot, List.length_cons, List.length_cons]
      show size.toNat + 3 ≤ _
      omega

/-! ## A frame behind other bytes -/

/-- `FSUS_RecvPackage` on any bytes `g` and then the frame of a package `f` that can be received,
with its right checksum, where the pair `05 1c` is there for the first time at the start of the
frame: the function returns success with the fields of `f` exactly if `g` ends with an even number
of bytes `05`. -/
theorem resync_iff (c0 : UInt8) (pkg₀ : Package) (g : List UInt8) {f : Package} (hf : f.Valid)
    (hsum : fsusCalcChecksum c0 f = .ret f.checksum)
    (hfirst : ∀ xs ys, g ++ f.frame = xs ++ 0x05 :: 0x1c :: ys → g.length ≤ xs.length)
    (evs : List RxEvent) (hevs : rxBytes evs = g ++ f.frame) :
    (∃ got, (fsusRecvPackage c0 pkg₀ evs).2 = .done .success got ∧ got.header = f.header ∧
      got.cmdId = f.cmdId ∧ got.size = f.size ∧ got.bytes = f.bytes ∧
      got.checksum = f.checksum) ↔ Even (lastFives g) := by
  have hbytes := Package.bytes_length (show f.size.toNat ≤ 50 by have := hf.size_toNat; omega)
  have hframe := hf.frame_eq
  generalize htail : f.cmdId :: f.size :: (f.bytes ++ [f.checksum]) = tail at hframe
  have hlen : tail.length = f.size.toNat + 3 := by simp [← htail, hbytes]
  rw [hframe] at hevs hfirst
  have hafter := afterHeader_first hfirst
  constructor
  · rintro ⟨got, hdone, -, -, hsize, -⟩
    by_contra hodd
    rw [if_neg hodd] at hafter
    have hrun := recvRun_success hdone
    rw [hevs] at hrun
    obtain ⟨rest, hrest, -⟩ | ⟨-, st, hmore⟩ :=
      recvBytes_search c0 { pkg₀ with status := 0 } 0 rfl (g ++ 0x05 :: 0x1c :: tail)
    · -- the search has found another header, and behind it there is no room for the frame
      have hshort := afterHeader_length (hafter.symm.trans hrest)
      rw [recvBytes_found c0 pkg₀ hrest] at hrun
      have hneed := recvBytes_needs rfl hrun
      rw [List.length_cons] at hshort
      rw [hsize] at hneed
      omega
    · rw [RecvState.start, hmore] at hrun
      simp at hrun
  · intro heven
    rw [if_pos heven] at hafter
    -- from here on the run is that on the frame alone
    have hsame : recvBytes c0 (.start pkg₀) (g ++ 0x05 :: 0x1c :: tail) =
        recvBytes c0 (.start pkg₀) (f.frame ++ []) := by
      rw [List.append_nil, hframe, recvBytes_found c0 pkg₀ hafter,
        recvBytes_found c0 pkg₀ (afterHeader_header tail)]
    obtain ⟨got, sum, hgot, hcheck, hsum', hrun⟩ := recvBytes_frame c0 pkg₀ hf []
    have heq : sum = f.checksum := (fsusCalcChecksum_inj hgot hsum' hsum).mpr rfl
    rw [← hsame, if_neg (not_not.mpr heq), ← hevs] at hrun
    exact ⟨got, recvRun_done hrun, hgot.header, hgot.cmdId, hgot.size, hgot.bytes, hcheck⟩

/-- The answer of servo 0 to a ping, with its checksum. -/
def pong : Package := { pingAnswer with checksum := 0x23 }

/-- Two bytes `05` before the answer: it is received. -/
theorem resync_iff_pong :
    (∃ got, (fsusRecvPackage 0 .zero (([0x05, 0x05] ++ pong.frame).map .byte)).2 =
        .done .success got ∧ got.header = pong.header ∧ got.cmdId = pong.cmdId ∧
      got.size = pong.size ∧ got.bytes = pong.bytes ∧ got.checksum = pong.checksum) ↔
      Even (lastFives [0x05, 0x05]) := by
  refine resync_iff 0 .zero [0x05, 0x05] ⟨rfl, by decide, by decide, by decide⟩ (by decide)
    (fun xs ys h => ?_) _ (by decide)
  match xs with
  | [] => exact absurd (List.cons.inj (List.cons.inj h).2).1 (by decide)
  | [_] => exact absurd (List.cons.inj (List.cons.inj (List.cons.inj h).2).2).1 (by decide)
  | _ :: _ :: _ => simp

/-- One byte `05` before the answer: both bytes are given up, the `1c` is no start of a header,
and the loop waits for more. -/
theorem pong_lost :
    pong.Valid ∧ fsusCalcChecksum 0 pong = .ret pong.checksum ∧
      (∀ xs ys, [0x05] ++ pong.frame = xs ++ 0x05 :: 0x1c :: ys → 1 ≤ xs.length) ∧
      ∀ got, (fsusRecvPackage 0 .zero (([0x05] ++ pong.frame).map .byte)).2 ≠
        .done .success got := by
  refine ⟨⟨rfl, by decide, by decide, by decide⟩, by decide, fun xs ys h => ?_, fun got h => ?_⟩
  · cases xs with
    | nil => exact absurd (List.cons.inj (List.cons.inj h).2).1 (by decide)
    | cons x xs => simp
  · have hout : ∃ st, (fsusRecvPackage 0 .zero (([0x05] ++ pong.frame).map .byte)).2 = .more st :=
      ⟨⟨{ Package.zero with status := 0 }, 0, 0⟩, by decide +kernel⟩
    obtain ⟨st, hst⟩ := hout
    rw [hst] at h
    simp at h

end Robot
