import ConstructionRobot.Servo.Package

/-!
# What the servo receiver writes

The stages of `FSUS_RecvPackage`, and the bounds of its writes to `content`.

* `recvBytes_search`: the search for the header `05 1c`, from the first byte on.
* `recvByte_cmdId`, `recvByte_size`, `recvByte_content`, `recvByte_checksum`: one byte of each
  later stage. The content ends when `bIdx` is equal to the size, which never happens in time if
  the size is 0.
* `recv_writes_inBounds_iff`: all writes are in bounds exactly if the bytes have no size 0 with a
  byte behind it.
-/

namespace Robot

/-! ## The header -/

/-- The bytes after the header, as the loop looks for it: a byte `05` without `1c` is given up
together with the byte behind it. -/
def afterHeader : List UInt8 → Option (List UInt8)
  | [] => none
  | [_] => none
  | a :: b :: bs =>
    if a ≠ 0x05 then afterHeader (b :: bs)
    else if b = 0x1c then some bs
    else afterHeader bs

/-- A package of which the header has been received. -/
def Package.withHeader (pkg : Package) : Package :=
  { pkg with header := responseHeader, status := flagHeader }

theorem toUInt16_eq_five (b : UInt8) : b.toUInt16 = responseHeader &&& 0x0F ↔ b = 0x05 := by
  have hall : ∀ n : Fin 256, (UInt8.ofNat n).toUInt16 = responseHeader &&& 0x0F ↔
      UInt8.ofNat n = 0x05 := by decide +kernel
  have h := hall ⟨b.toNat, b.toNat_lt⟩
  rwa [UInt8.ofNat_toNat] at h

theorem shift_eq_header (b : UInt8) :
    (responseHeader &&& (0x0F : UInt16)) ||| (b.toUInt16 <<< 8) = responseHeader ↔ b = 0x1c := by
  have hall : ∀ n : Fin 256, (responseHeader &&& (0x0F : UInt16)) ||| ((UInt8.ofNat n).toUInt16 <<< 8) =
      responseHeader ↔ UInt8.ofNat n = 0x1c := by decide +kernel
  have h := hall ⟨b.toNat, b.toNat_lt⟩
  rwa [UInt8.ofNat_toNat] at h

section Stages

variable (c0 : UInt8) (pkg : Package) (bIdx b : UInt8)

/-- The first byte of the header. -/
theorem recvByte_first (hs : pkg.status = 0) :
    recvByte c0 ⟨pkg, bIdx, 0⟩ b =
      ([], .more ⟨pkg, bIdx, if b = 0x05 then 0x05 else 0⟩) := by
  simp only [recvByte, hs]
  by_cases hb : b = 0x05
  · subst hb
    rfl
  · have h5 : b.toUInt16 ≠ responseHeader &&& 0x0F := fun h => hb ((toUInt16_eq_five b).mp h)
    rw [if_neg hb]
    simp [recvHeader, h5, flagContent, flagSize, flagCmdId, flagHeader]

/-- The second byte. -/
theorem recvByte_second (hs : pkg.status = 0) :
    recvByte c0 ⟨pkg, bIdx, 0x05⟩ b =
      ([], .more (if b = 0x1c then ⟨pkg.withHeader, bIdx, responseHeader⟩ else ⟨pkg, bIdx, 0⟩)) := by
  have hc (flag : UInt8) : ¬ (0 : UInt8) &&& flag ≠ 0 := by simp
  have h5 : (0x05 : UInt16) = responseHeader &&& 0x0F := by decide
  simp only [recvByte, hs]
  rw [if_neg (hc _), if_neg (hc _), if_neg (hc _), if_neg (hc _)]
  simp only [recvHeader]
  rw [if_neg (by decide), if_pos h5, h5]
  by_cases hb : b = 0x1c
  · rw [if_pos hb, if_neg (not_not.mpr ((shift_eq_header b).mpr hb)), (shift_eq_header b).mpr hb,
      hs]
    rfl
  · rw [if_neg hb, if_pos fun h => hb ((shift_eq_header b).mp h)]

/-- The search for the header makes no write; the loop goes on behind the header, if there is
one. -/
theorem recvBytes_search (hs : pkg.status = 0) (bs : List UInt8) :
    (∃ rest, afterHeader bs = some rest ∧
      recvBytes c0 ⟨pkg, bIdx, 0⟩ bs = recvBytes c0 ⟨pkg.withHeader, bIdx, responseHeader⟩ rest) ∨
    (afterHeader bs = none ∧ ∃ st, recvBytes c0 ⟨pkg, bIdx, 0⟩ bs = ([], .more st)) := by
  have hfirst (b : UInt8) (bs : List UInt8) : recvBytes c0 ⟨pkg, bIdx, 0⟩ (b :: bs) =
      recvBytes c0 ⟨pkg, bIdx, if b = 0x05 then 0x05 else 0⟩ bs := by
    rw [recvBytes_more (recvByte_first c0 pkg bIdx b hs)]
    rfl
  have hsecond (b : UInt8) (bs : List UInt8) : recvBytes c0 ⟨pkg, bIdx, 0x05⟩ (b :: bs) =
      recvBytes c0 (if b = 0x1c then ⟨pkg.withHeader, bIdx, responseHeader⟩ else ⟨pkg, bIdx, 0⟩)
        bs := by
    rw [recvBytes_more (recvByte_second c0 pkg bIdx b hs)]
    rfl
  fun_induction afterHeader bs with
  | case1 => exact .inr ⟨rfl, _, rfl⟩
  | case2 b => exact .inr ⟨rfl, _, hfirst b []⟩
  | case3 a b bs ha ih =>
    rw [hfirst, if_neg ha]
    exact ih
  | case4 a bs ha =>
    rw [hfirst, if_pos (not_not.mp ha), hsecond, if_pos rfl]
    exact .inl ⟨bs, rfl, rfl⟩
  | case5 a b bs ha hb ih =>
    rw [hfirst, if_pos (not_not.mp ha), hsecond, if_neg hb]
    exact ih

/-- The search for the header, with success. -/
theorem recvBytes_found {bs rest : List UInt8} (h : afterHeader bs = some rest) :
    recvBytes c0 (.start pkg) bs =
      recvBytes c0 ⟨{ pkg with status := 0 }.withHeader, 0, responseHeader⟩ rest := by
  obtain ⟨rest', hafter, hrun⟩ | ⟨hafter, -⟩ :=
    recvBytes_search c0 { pkg with status := 0 } 0 rfl bs
  · rw [RecvState.start, hrun, Option.some.inj (h.symm.trans hafter)]
  · rw [h] at hafter
    cases hafter

theorem afterHeader_header (rest : List UInt8) : afterHeader (0x05 :: 0x1c :: rest) = some rest := by
  rw [afterHeader, if_neg (by decide), if_pos rfl]

/-! ## The later stages -/

/-- The command. -/
theorem recvByte_cmdId (header : UInt16) (hs : pkg.status = flagHeader) :
    recvByte c0 ⟨pkg, bIdx, header⟩ b =
      ([], if b > fsusCmdNum then .done .unkownCmdId { pkg with cmdId := b }
        else .more ⟨{ pkg with cmdId := b, status := 3 }, bIdx, header⟩) := by
  simp only [recvByte, hs]
  rw [if_neg (by decide), if_neg (by decide), if_neg (by decide), if_pos (by decide)]
  split <;> rfl

/-- The size. -/
theorem recvByte_size (header : UInt16) (hs : pkg.status = 3) :
    recvByte c0 ⟨pkg, bIdx, header⟩ b =
      ([], if b > maxSize then .done .sizeTooBig { pkg with size := b }
        else .more ⟨{ pkg with size := b, status := 7 }, bIdx, header⟩) := by
  simp only [recvByte, hs]
  rw [if_neg (by decide), if_neg (by decide), if_pos (by decide)]
  split <;> rfl

/-- A byte of the content. -/
theorem recvByte_content (header : UInt16) (hs : pkg.status = 7) (hi : bIdx.toNat < 50) :
    recvByte c0 ⟨pkg, bIdx, header⟩ b =
      ([⟨bIdx.toNat, pkg.size.toNat⟩], .more ⟨{ pkg with
          content := pkg.content.set bIdx.toNat b
          status := if bIdx + 1 = pkg.size then 15 else 7 }, bIdx + 1, header⟩) := by
  simp only [recvByte, hs]
  rw [if_neg (by decide), if_pos (by decide)]
  simp only [recvContent]
  rw [dif_pos hi]
  by_cases h : bIdx + 1 = pkg.size
  · simp only [h, ↓reduceIte, hs]
    rfl
  · simp only [h, ↓reduceIte, hs]

/-- The checksum. -/
theorem recvByte_checksum (header : UInt16) (hs : pkg.status = 15) (hn : pkg.size.toNat ≤ 50) :
    ∃ sum, fsusCalcChecksum c0 { pkg with checksum := b, status := 31 } = .ret sum ∧
      recvByte c0 ⟨pkg, bIdx, header⟩ b =
        ([], .done (if sum ≠ b then .checksumError else .success)
          { pkg with checksum := b, status := 31 }) := by
  refine ⟨_, by rw [fsusCalcChecksum, if_pos hn], ?_⟩
  simp only [recvByte, hs]
  rw [if_pos (by decide), show (15 : UInt8) ||| flagChecksum = 31 by decide, fsusCalcChecksum,
    if_pos hn]

end Stages

/-! ## Bounds of the writes -/

/-- A write inside the content that was announced, and inside the package. -/
def ContentWrite.InBounds (w : ContentWrite) : Prop := w.index < w.size ∧ w.index < 50

instance (w : ContentWrite) : Decidable w.InBounds :=
  inferInstanceAs (Decidable (w.index < w.size ∧ w.index < 50))

/-- Content of a size from 1 to 45: the index stays below the size. -/
theorem recvBytes_content_inBounds {c0 : UInt8} {pkg : Package} {bIdx : UInt8} {header : UInt16}
    (hs : pkg.status = 7) (hlt : bIdx.toNat < pkg.size.toNat) (hle : pkg.size.toNat ≤ 45)
    (bs : List UInt8) :
    ∀ w ∈ (recvBytes c0 ⟨pkg, bIdx, header⟩ bs).1, w.InBounds := by
  induction bs generalizing pkg bIdx with
  | nil => simp [recvBytes]
  | cons b bs ih =>
    have hnext : (bIdx + 1).toNat = bIdx.toNat + 1 := by
      rw [UInt8.toNat_add, UInt8.toNat_one]
      omega
    rw [recvBytes_more (recvByte_content c0 pkg bIdx b header hs (by omega))]
    intro w hw
    rcases List.mem_append.mp hw with hw | hw
    · rw [List.mem_singleton] at hw
      subst hw
      exact ⟨hlt, by show bIdx.toNat < 50; omega⟩
    · by_cases hlast : bIdx + 1 = pkg.size
      · -- the content is complete: the next byte is the checksum, and the function returns
        rw [if_pos hlast] at hw
        cases bs with
        | nil => simp [recvBytes] at hw
        | cons b' bs =>
          obtain ⟨sum, -, hsum⟩ := recvByte_checksum c0
            { pkg with content := pkg.content.set bIdx.toNat b, status := 15 } (bIdx + 1) b'
            header rfl (show pkg.size.toNat ≤ 50 by omega)
          rw [recvBytes_done hsum] at hw
          simp at hw
      · rw [if_neg hlast] at hw
        have hne : (bIdx + 1).toNat ≠ pkg.size.toNat := fun h => hlast (UInt8.toNat_inj.mp h)
        refine ih ?_ ?_ ?_ w hw
        · rfl
        · show _ < pkg.size.toNat
          omega
        · exact hle

/-- A frame with the size 0, and a byte behind the size. -/
def ZeroSize (bs : List UInt8) : Prop :=
  ∃ cmd b rest, afterHeader bs = some (cmd :: 0 :: b :: rest) ∧ cmd ≤ fsusCmdNum

/-- From the size on. -/
theorem recvBytes_size_inBounds_iff {c0 : UInt8} {pkg : Package} {header : UInt16}
    (hs : pkg.status = 3) (bs : List UInt8) :
    (∀ w ∈ (recvBytes c0 ⟨pkg, 0, header⟩ bs).1, w.InBounds) ↔
      ¬ ∃ b rest, bs = 0 :: b :: rest := by
  cases bs with
  | nil => simp [recvBytes]
  | cons size bs =>
    have hsize := recvByte_size c0 pkg 0 size header hs
    by_cases hbig : size > maxSize
    · rw [if_pos hbig] at hsize
      rw [recvBytes_done hsize]
      refine iff_of_true (by simp) ?_
      rintro ⟨b, rest, h⟩
      rw [(List.cons.inj h).1] at hbig
      exact absurd hbig (by decide)
    · rw [if_neg hbig] at hsize
      rw [recvBytes_more hsize, List.nil_append]
      by_cases hzero : size = 0
      · subst hzero
        cases bs with
        | nil => simp [recvBytes]
        | cons b rest =>
          -- the first byte of the content of size 0 goes to index 0
          have hb := recvByte_content c0 { pkg with size := 0, status := 7 } 0 b header rfl
            (by decide)
          rw [recvBytes_more hb]
          refine iff_of_false (fun h => ?_) (not_not.mpr ⟨b, rest, rfl⟩)
          exact absurd (h ⟨0, 0⟩ (by simp)) (by decide)
      · have hpos : (0 : UInt8).toNat < size.toNat := by
          have : size.toNat ≠ 0 := fun h => hzero (UInt8.toNat_inj.mp h)
          simp only [UInt8.reduceToNat]
          omega
        have hle : size.toNat ≤ 45 := UInt8.le_iff_toNat_le.mp (UInt8.not_lt.mp hbig)
        refine iff_of_true ?_ ?_
        · exact recvBytes_content_inBounds rfl hpos hle bs
        · rintro ⟨b, rest, h⟩
          exact hzero (List.cons.inj h).1

/-- Every write of `FSUS_RecvPackage` is below the size of the package (and so below 50) exactly
if the bytes it reads do not hold the size 0 and a byte behind it. -/
theorem recv_writes_inBounds_iff (c0 : UInt8) (pkg : Package) (evs : List RxEvent) :
    (∀ w ∈ (fsusRecvPackage c0 pkg evs).1, w.index < w.size ∧ w.index < 50) ↔
      ¬ ZeroSize (rxBytes evs) := by
  show (∀ w ∈ (recvRun c0 (.start pkg) evs).1, w.InBounds) ↔ _
  rw [recvRun_writes]
  generalize rxBytes evs = bs
  obtain ⟨rest, hafter, hrun⟩ | ⟨hafter, st, hrun⟩ :=
    recvBytes_search c0 { pkg with status := 0 } 0 rfl bs
  · rw [RecvState.start, hrun]
    unfold ZeroSize
    rw [hafter]
    cases rest with
    | nil => simp [recvBytes]
    | cons cmd rest =>
      have hcmd := recvByte_cmdId c0 { pkg with status := 0 }.withHeader 0 cmd responseHeader rfl
      by_cases hbad : cmd > fsusCmdNum
      · rw [if_pos hbad] at hcmd
        rw [recvBytes_done hcmd]
        refine iff_of_true (by simp) ?_
        rintro ⟨cmd', b, rest', h, hle⟩
        rw [← (List.cons.inj (Option.some.inj h)).1] at hle
        exact absurd hle (UInt8.not_le.mpr hbad)
      · rw [if_neg hbad] at hcmd
        rw [recvBytes_more hcmd, List.nil_append, recvBytes_size_inBounds_iff rfl]
        refine not_congr ⟨?_, ?_⟩
        · rintro ⟨b, rest', rfl⟩
          exact ⟨cmd, b, rest', rfl, UInt8.not_lt.mp hbad⟩
        · rintro ⟨cmd', b, rest', h, -⟩
          exact ⟨b, rest', (List.cons.inj (Option.some.inj h)).2⟩
  · rw [RecvState.start, hrun]
    refine iff_of_true (by simp) ?_
    rintro ⟨cmd, b, rest, h, -⟩
    rw [hafter] at h
    exact absurd h (by simp)

/-- A package of zeros. -/
def Package.zero : Package := ⟨0, 0, 0, .replicate 50 0, 0, 0⟩

/-- The answer `05 1c 01 00`: the next byte is written to index 0 of a content of size 0, and
after 50 bytes the receiver leaves the content. -/
theorem recv_zero_size_overrun :
    (∃ w ∈ (fsusRecvPackage 0 .zero ([0x05, 0x1c, 0x01, 0x00, 0x07].map .byte)).1,
        ¬ w.index < w.size) ∧
      (fsusRecvPackage 0 .zero ([0x05, 0x1c, 0x01, 0x00].map .byte ++
        List.replicate 51 (.byte 0x07))).2 = .fault := by
  constructor
  · exact ⟨⟨0, 0⟩, by decide, by decide⟩
  · decide +kernel

end Robot
