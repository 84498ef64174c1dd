import ConstructionRobot.Servo.RoundTrip
import ConstructionRobot.Lib.Feed
import Mathlib.Data.UInt

/-!
# What the servo receiver accepts

The loop of `FSUS_RecvPackage` keeps what it has read in the flags of `status`, in `header` and in
`bIdx`. `Stage bs st` says which bytes at the end of `bs` lead to the state `st`; one byte takes it
from stage to stage, or to a return that says what was read last.

* `fsusIsValidResponsePackage`: the second copy of the rules for a package.
* `recvRounds`: the rounds that the loop makes, up to its return.
* `recvByte_says`, `recvRun_says`: one byte, and all rounds.
* `recv_accepts_frames`: what each return value says about the bytes that were consumed.
-/

namespace Robot

/-- `FSUS_IsValidResponsePackage`. -/
def fsusIsValidResponsePackage (c0 : UInt8) (pkg : Package) : Call FsusStatus :=
  if pkg.header ≠ responseHeader then .ret .wrongResponseHeader
  else if pkg.cmdId > fsusCmdNum then .ret .unkownCmdId
  else if pkg.size > maxSize then .ret .sizeTooBig
  else do
    let sum ← fsusCalcChecksum c0 pkg
    if sum ≠ pkg.checksum then pure .checksumError else pure .success

/-- The rounds that the loop makes on `evs`: those up to its return, or all. -/
def recvRounds (c0 : UInt8) (st : RecvState) : List RxEvent → List RxEvent
  | [] => []
  | .byte b :: evs =>
    .byte b :: match (recvByte c0 st b).2 with
      | .more st => recvRounds c0 st evs
      | _ => []
  | .wake :: evs => .wake :: recvRounds c0 st evs
  | .timeout :: _ => [.timeout]

/-! ## Checksums -/

/-- The bytes of a frame that its checksum is made of. -/
def Package.summed (pkg : Package) : List UInt8 :=
  [0x05, 0x1c, pkg.cmdId, pkg.size] ++ pkg.bytes

theorem foldl_add_eq_sum (a : UInt8) (xs : List UInt8) :
    xs.foldl (· + ·) a = a + xs.sum := by
  induction xs generalizing a with
  | nil => exact (UInt8.add_zero a).symm
  | cons x xs ih => rw [List.foldl_cons, ih, List.sum_cons, UInt8.add_assoc]

/-- The checksum of a package with the response header. -/
theorem fsusCalcChecksum_eq (c0 : UInt8) {pkg : Package} (hh : pkg.header = responseHeader)
    (hn : pkg.size.toNat ≤ 50) : fsusCalcChecksum c0 pkg = .ret (c0 + pkg.summed.sum) := by
  rw [fsusCalcChecksum, if_pos hn, foldl_add_eq_sum, hh, responseHeader_low, responseHeader_high]
  simp only [Package.summed, List.cons_append, List.nil_append, List.sum_cons, UInt8.add_assoc]

/-- A package that was received with the right checksum passes the second check, too. -/
theorem fsusIsValidResponsePackage_success {c0 : UInt8} {pkg : Package} (h : pkg.Valid)
    (hsum : pkg.checksum = c0 + pkg.summed.sum) :
    fsusIsValidResponsePackage c0 pkg = .ret .success := by
  have hle := h.size_toNat.2
  rw [fsusIsValidResponsePackage, if_neg (not_not.mpr h.header), if_neg (UInt8.not_lt.mpr h.cmdId),
    if_neg (UInt8.not_lt.mpr h.size_le), fsusCalcChecksum_eq c0 h.header (by omega),
    Call.ret_bind, hsum, if_neg (not_not.mpr rfl), Call.pure_eq]

/-! ## Stages -/

/-- The state of the loop after the bytes `bs`. -/
inductive Stage (bs : List UInt8) : RecvState → Prop where
  | first {pkg : Package} (status : pkg.status = 0) : Stage bs ⟨pkg, 0, 0⟩
  | second {pkg : Package} (status : pkg.status = 0) (read : [0x05] <:+ bs) :
      Stage bs ⟨pkg, 0, 0x05⟩
  | cmdId {pkg : Package} (status : pkg.status = flagHeader) (header : pkg.header = responseHeader)
      (read : [0x05, 0x1c] <:+ bs) : Stage bs ⟨pkg, 0, responseHeader⟩
  | size {pkg : Package} (status : pkg.status = 3) (header : pkg.header = responseHeader)
      (cmdId : pkg.cmdId ≤ fsusCmdNum) (read : [0x05, 0x1c, pkg.cmdId] <:+ bs) :
      Stage bs ⟨pkg, 0, responseHeader⟩
  | content {pkg : Package} {bIdx : UInt8} (status : pkg.status = 7) (valid : pkg.Valid)
      (lt : bIdx.toNat < pkg.size.toNat)
      (read : [0x05, 0x1c, pkg.cmdId, pkg.size] ++ pkg.content.toList.take bIdx.toNat <:+ bs) :
      Stage bs ⟨pkg, bIdx, responseHeader⟩
  | checksum {pkg : Package} {bIdx : UInt8} (status : pkg.status = 15) (valid : pkg.Valid)
      (read : pkg.summed <:+ bs) : Stage bs ⟨pkg, bIdx, responseHeader⟩

/-- What a return says: `bs` are all bytes that were consumed, and `rounds` ends with the last
round. -/
def FsusStatus.Says (c0 : UInt8) (bs : List UInt8) (rounds : List RxEvent) (pkg : Package) :
    FsusStatus → Prop
  | .success => pkg.Valid ∧ pkg.summed ++ [pkg.checksum] <:+ bs ∧
      pkg.checksum = c0 + pkg.summed.sum
  | .checksumError => pkg.Valid ∧ pkg.summed ++ [pkg.checksum] <:+ bs ∧
      pkg.checksum ≠ c0 + pkg.summed.sum
  | .unkownCmdId => [0x05, 0x1c, pkg.cmdId] <:+ bs ∧ pkg.cmdId > fsusCmdNum
  | .sizeTooBig => [0x05, 0x1c, pkg.cmdId, pkg.size] <:+ bs ∧ pkg.size > maxSize
  | .timeout => [.timeout] <:+ rounds
  | _ => False

/-- The same for any end of a list of rounds. -/
def RecvOut.Says (c0 : UInt8) (bs : List UInt8) (rounds : List RxEvent) : RecvOut → Prop
  | .more st => Stage bs st
  | .done status pkg => status.Says c0 bs rounds pkg
  | .fault => False

/-- A size that has been received is not 0. -/
def RecvOut.SizePos : RecvOut → Prop
  | .more st => st.pkg.status &&& flagSize ≠ 0 → st.pkg.size ≠ 0
  | _ => True

instance : DecidablePred RecvOut.SizePos
  | .more st => inferInstanceAs (Decidable (st.pkg.status &&& flagSize ≠ 0 → st.pkg.size ≠ 0))
  | .done .. => .isTrue trivial
  | .fault => .isTrue trivial

/-- A round in front of the others changes nothing. -/
theorem RecvOut.Says.cons {c0 : UInt8} {bs : List UInt8} {rounds : List RxEvent} {out : RecvOut}
    (h : out.Says c0 bs rounds) (e : RxEvent) : out.Says c0 bs (e :: rounds) := by
  cases out with
  | more st => exact h
  | fault => exact h
  | done status pkg =>
    cases status with
    | timeout => exact List.IsSuffix.trans h (List.suffix_cons e rounds)
    | _ => exact h

/-! ## One byte -/

/-- A byte of the content. -/
theorem recvByte_content_says {c0 : UInt8} {bs : List UInt8} {pkg : Package} {bIdx : UInt8}
    (status : pkg.status = 7) (valid : pkg.Valid) (lt : bIdx.toNat < pkg.size.toNat)
    (read : [0x05, 0x1c, pkg.cmdId, pkg.size] ++ pkg.content.toList.take bIdx.toNat <:+ bs)
    (b : UInt8) (rounds : List RxEvent) :
    (recvByte c0 ⟨pkg, bIdx, responseHeader⟩ b).2.Says c0 (bs ++ [b]) rounds := by
  have hle := valid.size_toNat.2
  have hi : bIdx.toNat < 50 := by omega
  have hnext : (bIdx + 1).toNat = bIdx.toNat + 1 := by
    rw [UInt8.toNat_add, UInt8.toNat_one]
    omega
  have hread : [0x05, 0x1c, pkg.cmdId, pkg.size] ++
      (pkg.content.set bIdx.toNat b).toList.take (bIdx + 1).toNat <:+ bs ++ [b] := by
    rw [hnext, take_set pkg.content hi, ← List.append_assoc]
    exact suffix_concat read b
  rw [recvByte_content c0 pkg bIdx b responseHeader status hi]
  by_cases hlast : bIdx + 1 = pkg.size
  · rw [if_pos hlast]
    rw [hlast] at hread
    exact .checksum rfl ⟨valid.header, valid.cmdId, valid.size_pos, valid.size_le⟩ hread
  · have hne : (bIdx + 1).toNat ≠ pkg.size.toNat := fun h => hlast (UInt8.toNat_inj.mp h)
    rw [if_neg hlast]
    refine .content rfl ⟨valid.header, valid.cmdId, valid.size_pos, valid.size_le⟩ ?_ hread
    show (bIdx + 1).toNat < pkg.size.toNat
    omega

/-- One byte, in every stage. -/
theorem recvByte_says {c0 : UInt8} {bs : List UInt8} {st : RecvState} (h : Stage bs st) (b : UInt8)
    (hpos : (recvByte c0 st b).2.SizePos) (rounds : List RxEvent) :
    (recvByte c0 st b).2.Says c0 (bs ++ [b]) rounds := by
  cases h with
  | @first pkg status =>
    rw [recvByte_first c0 pkg 0 b status]
    by_cases hb : b = 0x05
    · rw [if_pos hb]
      refine .second status ?_
      rw [hb]
      exact List.suffix_append bs [0x05]
    · rw [if_neg hb]
      exact .first status
  | @second pkg status read =>
    rw [recvByte_second c0 pkg 0 b status]
    by_cases hb : b = 0x1c
    · rw [if_pos hb, hb]
      exact .cmdId rfl rfl (suffix_concat read 0x1c)
    · rw [if_neg hb]
      exact .first status
  | @cmdId pkg status header read =>
    rw [recvByte_cmdId c0 pkg 0 b responseHeader status]
    have hread := suffix_concat read b
    by_cases hbad : b > fsusCmdNum
    · rw [if_pos hbad]
      exact ⟨hread, hbad⟩
    · rw [if_neg hbad]
      exact .size rfl header (UInt8.not_lt.mp hbad) hread
  | @size pkg status header cmdId read =>
    rw [recvByte_size c0 pkg 0 b responseHeader status] at hpos ⊢
    have hread := suffix_concat read b
    by_cases hbig : b > maxSize
    · rw [if_pos hbig]
      exact ⟨hread, hbig⟩
    · rw [if_neg hbig] at hpos ⊢
      -- the size is in the state now, and so it is not 0
      have hb : b ≠ 0 := hpos (show (7 : UInt8) &&& flagSize ≠ 0 by decide)
      have hne : b.toNat ≠ 0 := fun h => hb (UInt8.toNat_inj.mp h)
      have hone : (1 : UInt8) ≤ b := UInt8.le_iff_toNat_le.mpr (by rw [UInt8.toNat_one]; omega)
      refine .content rfl ⟨header, cmdId, hone, UInt8.not_lt.mp hbig⟩ ?_ hread
      show (0 : UInt8).toNat < b.toNat
      rw [UInt8.toNat_zero]
      omega
  | @content pkg bIdx status valid lt read =>
    exact recvByte_content_says status valid lt read b rounds
  | @checksum pkg bIdx status valid read =>
    have hle := valid.size_toNat.2
    have hvalid : ({ pkg with checksum := b, status := 31 } : Package).Valid :=
      ⟨valid.header, valid.cmdId, valid.size_pos, valid.size_le⟩
    have hread := suffix_concat read b
    obtain ⟨sum, hsum, hbyte⟩ :=
      recvByte_checksum c0 pkg bIdx b responseHeader status (by omega)
    rw [fsusCalcChecksum_eq c0 hvalid.header (show pkg.size.toNat ≤ 50 by omega)] at hsum
    rw [hbyte, ← Call.ret.inj hsum]
    by_cases heq : c0 + ({ pkg with checksum := b, status := 31 } : Package).summed.sum = b
    · rw [if_neg (not_not.mpr heq)]
      exact ⟨hvalid, hread, heq.symm⟩
    · rw [if_pos heq]
      exact ⟨hvalid, hread, fun h => heq h.symm⟩

/-! ## All rounds -/

/-- From any stage on: what a return says about the bytes that were read before and those of the
rounds. -/
theorem recvRun_says {c0 : UInt8} {bs : List UInt8} {st : RecvState} (h : Stage bs st)
    {evs : List RxEvent} (hpos : ∀ pre, pre <+: evs → (recvRun c0 st pre).2.SizePos) :
    (recvRun c0 st evs).2.Says c0 (bs ++ rxBytes (recvRounds c0 st evs))
      (recvRounds c0 st evs) := by
  induction evs generalizing bs st with
  | nil =>
    rw [recvRounds, rxBytes, List.append_nil]
    exact h
  | cons e evs ih =>
    cases e with
    | byte b =>
      have hfirst : (recvByte c0 st b).2.SizePos := by
        have hone := hpos [.byte b] (List.prefix_cons_inj _ |>.mpr List.nil_prefix)
        rw [recvRun] at hone
        rcases hb : recvByte c0 st b with ⟨ws, st' | ⟨s, p⟩ | _⟩
        · rw [hb] at hone
          exact hone
        · trivial
        · trivial
      have hkeep := recvByte_says h b hfirst [.byte b]
      rw [recvRun, recvRounds]
      rcases hb : recvByte c0 st b with ⟨ws, st' | ⟨s, p⟩ | _⟩
      · rw [hb] at hkeep
        simp only [rxBytes]
        rw [List.append_cons]
        refine (ih hkeep fun pre hpre => ?_).cons (.byte b)
        have hlong := hpos (.byte b :: pre) ((List.prefix_cons_inj _).mpr hpre)
        rw [recvRun, hb] at hlong
        exact hlong
      · rw [hb] at hkeep
        exact hkeep
      · rw [hb] at hkeep
        exact hkeep
    | wake =>
      refine (ih h fun pre hpre => ?_).cons .wake
      exact hpos (.wake :: pre) ((List.prefix_cons_inj _).mpr hpre)
    | timeout => exact List.suffix_refl [RxEvent.timeout]

/-- `FSUS_RecvPackage` on any rounds in which the byte that it reads as the size is never 0. With
success, the bytes that it consumed end with a frame of the response header, a command up to 17, a
size from 1 to 45, as much content and the checksum of all that, the package holds the frame, and
`FSUS_IsValidResponsePackage` agrees. The errors are returned only for a command over 17, a size
over 45 or a checksum that is wrong, and the timeout only from a round without a byte in which the
semaphore was not taken. -/
theorem recv_accepts_frames (c0 : UInt8) (pkg₀ : Package) (evs : List RxEvent)
    (hpos : ∀ pre, pre <+: evs → (fsusRecvPackage c0 pkg₀ pre).2.SizePos) :
    let rounds := recvRounds c0 (.start pkg₀) evs
    let consumed := rxBytes rounds
    (fsusRecvPackage c0 pkg₀ evs).2 ≠ .fault ∧
    (∀ pkg, (fsusRecvPackage c0 pkg₀ evs).2 = .done .success pkg →
      [0x05, 0x1c, pkg.cmdId, pkg.size] ++ pkg.bytes ++ [pkg.checksum] <:+ consumed ∧
      pkg.cmdId ≤ 17 ∧ 1 ≤ pkg.size ∧ pkg.size ≤ 45 ∧ pkg.bytes.length = pkg.size.toNat ∧
      pkg.checksum = c0 + ([0x05, 0x1c, pkg.cmdId, pkg.size] ++ pkg.bytes).sum ∧
      pkg.header = 0x1c05 ∧ fsusIsValidResponsePackage c0 pkg = .ret .success) ∧
    (∀ pkg, (fsusRecvPackage c0 pkg₀ evs).2 = .done .unkownCmdId pkg →
      ∃ cmdId, [0x05, 0x1c, cmdId] <:+ consumed ∧ cmdId > 17) ∧
    (∀ pkg, (fsusRecvPackage c0 pkg₀ evs).2 = .done .sizeTooBig pkg →
      ∃ cmdId size, [0x05, 0x1c, cmdId, size] <:+ consumed ∧ size > 45) ∧
    (∀ pkg, (fsusRecvPackage c0 pkg₀ evs).2 = .done .checksumError pkg →
      [0x05, 0x1c, pkg.cmdId, pkg.size] ++ pkg.bytes ++ [pkg.checksum] <:+ consumed ∧
      pkg.bytes.length = pkg.size.toNat ∧
      pkg.checksum ≠ c0 + ([0x05, 0x1c, pkg.cmdId, pkg.size] ++ pkg.bytes).sum) ∧
    (∀ pkg, (fsusRecvPackage c0 pkg₀ evs).2 = .done .timeout pkg → [.timeout] <:+ rounds) := by
  intro rounds consumed
  have hstart : Stage [] (.start pkg₀) := .first rfl
  have hkeep : (fsusRecvPackage c0 pkg₀ evs).2.Says c0 consumed rounds := recvRun_says hstart hpos
  have hlen {pkg : Package} (h : pkg.Valid) : pkg.bytes.length = pkg.size.toNat :=
    Package.bytes_length (by have := h.size_toNat; omega)
  refine ⟨fun hf => ?_, fun pkg h => ?_, fun pkg h => ?_, fun pkg h => ?_, fun pkg h => ?_,
    fun pkg h => ?_⟩
  · rw [hf] at hkeep
    exact hkeep
  · rw [h] at hkeep
    obtain ⟨valid, hread, hsum⟩ := hkeep
    exact ⟨hread, valid.cmdId, valid.size_pos, valid.size_le, hlen valid, hsum, valid.header,
      fsusIsValidResponsePackage_success valid hsum⟩
  · rw [h] at hkeep
    exact ⟨pkg.cmdId, hkeep⟩
  · rw [h] at hkeep
    exact ⟨pkg.cmdId, pkg.size, hkeep⟩
  · rw [h] at hkeep
    exact ⟨hkeep.2.1, hlen hkeep.1, hkeep.2.2⟩
  · rw [h] at hkeep
    exact hkeep

/-- The rounds of a ping that is answered by servo 0, with a stray byte and a wait before the
frame. -/
def pongRounds : List RxEvent :=
  [.byte 0x07, .wake, .byte 0x05, .byte 0x1c, .byte 0x01, .byte 0x01, .byte 0x00, .byte 0x23]

/-- The answer is accepted, and all bytes are consumed. -/
theorem recv_accepts_frames_pong :
    (∃ pkg, (fsusRecvPackage 0 .zero pongRounds).2 = .done .success pkg ∧
      [0x05, 0x1c, pkg.cmdId, pkg.size] ++ pkg.bytes ++ [pkg.checksum] <:+
        [0x07, 0x05, 0x1c, 0x01, 0x01, 0x00, 0x23] ∧
      fsusIsValidResponsePackage 0 pkg = .ret .success) := by
  have hpos : ∀ pre ∈ pongRounds.inits, (fsusRecvPackage 0 .zero pre).2.SizePos := by
    decide +kernel
  have hrun : (fsusRecvPackage 0 .zero pongRounds).2 =
      .done .success { pingAnswer with checksum := 0x23, status := 31 } := by
    decide +kernel
  have hbytes : rxBytes (recvRounds 0 (.start .zero) pongRounds) =
      [0x07, 0x05, 0x1c, 0x01, 0x01, 0x00, 0x23] := by
    decide +kernel
  obtain ⟨-, hsuccess, -⟩ := recv_accepts_frames 0 .zero pongRounds
    fun pre hpre => hpos pre (List.mem_inits _ _ |>.mpr hpre)
  obtain ⟨hread, -, -, -, -, -, -, hvalid⟩ := hsuccess _ hrun
  rw [hbytes] at hread
  exact ⟨_, hrun, hread, hvalid⟩

end Robot
