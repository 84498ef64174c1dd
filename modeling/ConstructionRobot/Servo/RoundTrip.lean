import ConstructionRobot.Servo.Receive

/-!
# Servo frames there and back

A package laid out by `FSUS_UART_Send` and given to `FSUS_RecvPackage`. Both ends compute the
checksum with `FSUS_CalcChecksum`, each from what its own local happened to hold.

* `fsusUartSend_ret`: the bytes on the line.
* `recvBytes_frame`: the receiver takes a whole frame and leaves what is behind it; only the
  checksum decides between success and error.
* `roundTrip_iff`: the frame arrives exactly if both locals held the same value.
-/

namespace Robot

/-! ## Sending -/

/-- The frame of a package, byte by byte. -/
def Package.frame (pkg : Package) : List UInt8 :=
  pkg.header.toUInt8 :: (pkg.header >>> 8).toUInt8 :: pkg.cmdId :: pkg.size ::
    (pkg.bytes ++ [pkg.checksum])

theorem Package.bytes_length {pkg : Package} (h : pkg.size.toNat ≤ 50) :
    pkg.bytes.length = pkg.size.toNat := by
  rw [Package.bytes, List.length_take, Vector.length_toList]
  omega

/-- A package that fits is written to the start of `tx_buf`, and sent. -/
theorem fsusUartSend_ret {txBuf : List UInt8} (htx : txBuf.length = 55) {pkg : Package}
    (h : pkg.size.toNat ≤ 50) :
    fsusUartSend txBuf pkg =
      .ret (pkg.frame ++ txBuf.drop (pkg.size.toNat + 5), pkg.frame) := by
  have hlen := Package.bytes_length h
  have hdrop (k : ℕ) : (txBuf.drop k).length = 55 - k := by rw [List.length_drop, htx]
  generalize hlo : pkg.header.toUInt8 = lo
  generalize hhi : (pkg.header >>> 8).toUInt8 = hi
  have h1 : memcpy txBuf 0 [lo, hi] 0 2 = .ret ([lo, hi] ++ txBuf.drop 2) :=
    memcpy_behind [] txBuf [lo, hi] 0 2 rfl (by omega) (by simp)
  have h2 : memcpy ([lo, hi] ++ txBuf.drop 2) 2 [pkg.cmdId] 0 1 =
      .ret ([lo, hi, pkg.cmdId] ++ txBuf.drop 3) := by
    rw [memcpy_behind [lo, hi] _ _ 2 1 rfl (by rw [hdrop]; omega) (by simp), List.drop_drop]
    rfl
  have h3 : memcpy ([lo, hi, pkg.cmdId] ++ txBuf.drop 3) 3 [pkg.size] 0 1 =
      .ret ([lo, hi, pkg.cmdId, pkg.size] ++ txBuf.drop 4) := by
    rw [memcpy_behind [lo, hi, pkg.cmdId] _ _ 3 1 rfl (by rw [hdrop]; omega) (by simp),
      List.drop_drop]
    rfl
  have h4 : memcpy ([lo, hi, pkg.cmdId, pkg.size] ++ txBuf.drop 4) 4 pkg.content.toList 0
      pkg.size.toNat =
        .ret ([lo, hi, pkg.cmdId, pkg.size] ++ pkg.bytes ++ txBuf.drop (4 + pkg.size.toNat)) := by
    rw [memcpy_behind [lo, hi, pkg.cmdId, pkg.size] _ _ 4 _ rfl (by rw [hdrop]; omega)
      (by rw [Vector.length_toList]; exact h), List.drop_drop]
    rfl
  have h5 : memcpy ([lo, hi, pkg.cmdId, pkg.size] ++ pkg.bytes ++ txBuf.drop (4 + pkg.size.toNat))
      (4 + pkg.size.toNat) [pkg.checksum] 0 1 =
        .ret (pkg.frame ++ txBuf.drop (pkg.size.toNat + 5)) := by
    have hfront : ([lo, hi, pkg.cmdId, pkg.size] ++ pkg.bytes).length = 4 + pkg.size.toNat := by
      rw [List.length_append, hlen]
      rfl
    rw [memcpy_behind _ _ _ _ _ hfront (by rw [hdrop]; omega) (by simp),
      List.drop_drop, Package.frame, hlo, hhi,
      show 4 + pkg.size.toNat + 1 = pkg.size.toNat + 5 by omega]
    simp
  have hframe : pkg.frame.length = pkg.size.toNat + 5 := by
    simp only [Package.frame, List.length_cons, List.length_append, hlen, List.length_nil]
  unfold fsusUartSend
  rw [hlo, hhi, h1, Call.ret_bind, h2, Call.ret_bind, h3, Call.ret_bind, h4, Call.ret_bind, h5,
    Call.ret_bind, if_pos (by rw [List.length_append, hframe]; omega), ← hframe, List.take_left,
    hframe]
  rfl

/-- A request with at most 50 bytes goes out with the header `12 4c` and the bytes it was given. -/
theorem fsusSendPackage_ret (c0 : UInt8) {txBuf : List UInt8} (htx : txBuf.length = 55)
    (pkg₀ : Package) (cmdId : UInt8) {size : UInt8} {content : List UInt8}
    (h50 : size.toNat ≤ 50) (hlen : size.toNat ≤ content.length) :
    ∃ tx sum, fsusSendPackage c0 txBuf pkg₀ cmdId size content =
      .ret (tx, 0x12 :: 0x4c :: cmdId :: size :: (content.take size.toNat ++ [sum])) := by
  let pkg : Package := { pkg₀ with
    header := requestHeader
    cmdId := cmdId
    size := size
    content := .ofFn fun i => if hi : i.val < size.toNat then content[i.val] else pkg₀.content[i] }
  have hbytes : pkg.bytes = content.take size.toNat := by
    refine List.ext_getElem? fun i => ?_
    by_cases hi : i < size.toNat
    · rw [Package.bytes, List.getElem?_take_of_lt hi, List.getElem?_take_of_lt hi]
      simp [pkg, hi, show i < 50 by omega, List.getElem?_eq_getElem (show i < content.length by omega)]
    · have hnone (l : List UInt8) : (l.take size.toNat)[i]? = none :=
        List.getElem?_eq_none (by rw [List.length_take]; omega)
      rw [Package.bytes, hnone, hnone]
  obtain ⟨sum, hsum⟩ : ∃ sum, fsusCalcChecksum c0 pkg = .ret sum :=
    ⟨_, by rw [fsusCalcChecksum, if_pos h50]⟩
  have hframe : ({ pkg with checksum := sum } : Package).frame =
      0x12 :: 0x4c :: cmdId :: size :: (content.take size.toNat ++ [sum]) := by
    have hlo : requestHeader.toUInt8 = 0x12 := by decide
    have hhi : (requestHeader >>> 8).toUInt8 = 0x4c := by decide
    rw [← hbytes, ← hlo, ← hhi]
    rfl
  have hsend : fsusUartSend txBuf { pkg with checksum := sum } = _ := fsusUartSend_ret htx h50
  rw [hframe] at hsend
  have hrun : fsusSendPackage c0 txBuf pkg₀ cmdId size content =
      fsusUartSend txBuf { pkg with checksum := sum } := by
    rw [fsusSendPackage, dif_pos ⟨h50, hlen⟩]
    show (fsusCalcChecksum c0 pkg >>= fun checksum =>
      fsusUartSend txBuf { pkg with checksum := checksum }) = _
    rw [hsum, Call.ret_bind]
  exact ⟨_, sum, hrun.trans hsend⟩

/-! ## Receiving a frame -/

section Lists

variable {α : Type} {front back : List α} {b : α} {k : ℕ}

theorem take_succ_behind (h : front.length = k) :
    (front ++ b :: back).take (k + 1) = front ++ [b] := by
  subst h
  rw [List.take_append, List.take_of_length_le (by omega), Nat.add_sub_cancel_left]
  rfl

theorem drop_behind (h : front.length = k) (m : ℕ) :
    (front ++ b :: back).drop (k + (m + 1)) = back.drop m := by
  subst h
  rw [List.drop_append, List.drop_of_length_le (by omega), Nat.add_sub_cancel_left]
  rfl

end Lists

/-- The content of a frame and its checksum: the content is stored from `bIdx` on, and the
function returns. -/
theorem recvBytes_content (c0 : UInt8) (pkg : Package) (bIdx : UInt8) (header : UInt16)
    (hs : pkg.status = 7) (hle : pkg.size.toNat ≤ 45) {xs : List UInt8} (hne : xs ≠ [])
    (hlen : bIdx.toNat + xs.length = pkg.size.toNat) (c : UInt8) (rest : List UInt8) :
    ∃ content sum, content.toList =
        pkg.content.toList.take bIdx.toNat ++ xs ++ pkg.content.toList.drop pkg.size.toNat ∧
      fsusCalcChecksum c0 { pkg with content := content, checksum := c, status := 31 } =
        .ret sum ∧
      (recvBytes c0 ⟨pkg, bIdx, header⟩ (xs ++ c :: rest)).2 =
        .done (if sum ≠ c then .checksumError else .success)
          { pkg with content := content, checksum := c, status := 31 } := by
  induction xs generalizing pkg bIdx with
  | nil => exact absurd rfl hne
  | cons b xs ih =>
    rw [List.length_cons] at hlen
    have hlt : bIdx.toNat < 50 := by omega
    have hnext : (bIdx + 1).toNat = bIdx.toNat + 1 := by
      rw [UInt8.toNat_add, UInt8.toNat_one]
      omega
    have hset : (pkg.content.set bIdx.toNat b).toList =
        pkg.content.toList.take bIdx.toNat ++ b :: pkg.content.toList.drop (bIdx.toNat + 1) := by
      rw [Vector.toList_set, List.set_eq_take_append_cons_drop,
        if_pos (by rw [Vector.length_toList]; exact hlt)]
    rw [List.cons_append, recvBytes_more (recvByte_content c0 pkg bIdx b header hs hlt)]
    cases xs with
    | nil =>
      -- the last byte: the next one is the checksum
      have hlast : bIdx + 1 = pkg.size := UInt8.toNat_inj.mp (by rw [hnext]; exact hlen)
      rw [if_pos hlast]
      obtain ⟨sum, hsum, hbyte⟩ := recvByte_checksum c0
        { pkg with content := pkg.content.set bIdx.toNat b, status := 15 } (bIdx + 1) c header rfl
        (show pkg.size.toNat ≤ 50 by omega)
      refine ⟨pkg.content.set bIdx.toNat b, sum, ?_, hsum, ?_⟩
      · rw [hset, ← hlen]
        simp
      · rw [List.nil_append, recvBytes_done hbyte]
    | cons b' xs =>
      have hmore : bIdx + 1 ≠ pkg.size := by
        intro h
        have := congrArg UInt8.toNat h
        rw [List.length_cons] at hlen
        omega
      rw [if_neg hmore]
      obtain ⟨content, sum, hc, hsum, hdone⟩ :=
        ih { pkg with content := pkg.content.set bIdx.toNat b, status := 7 } (bIdx + 1)
          rfl hle (by simp) (by rw [hnext]; show _ = pkg.size.toNat; omega)
      refine ⟨content, sum, ?_, hsum, hdone⟩
      have hfront : (pkg.content.toList.take bIdx.toNat).length = bIdx.toNat := by
        rw [List.length_take, Vector.length_toList]
        omega
      rw [hc, hnext, hset]
      show _ ++ _ ++ List.drop pkg.size.toNat _ = _
      rw [← hlen, take_succ_behind hfront, drop_behind hfront, List.drop_drop,
        show bIdx.toNat + 1 + (b' :: xs).length = bIdx.toNat + ((b' :: xs).length + 1) by omega]
      simp

/-- Two packages with the same header, command, size and content. -/
structure Package.Same (p q : Package) : Prop where
  header : p.header = q.header
  cmdId : p.cmdId = q.cmdId
  size : p.size = q.size
  bytes : p.bytes = q.bytes

/-- A package that can be received. -/
structure Package.Valid (pkg : Package) : Prop where
  header : pkg.header = responseHeader
  cmdId : pkg.cmdId ≤ fsusCmdNum
  size_pos : 1 ≤ pkg.size
  size_le : pkg.size ≤ maxSize

theorem Package.Valid.size_toNat {pkg : Package} (h : pkg.Valid) :
    1 ≤ pkg.size.toNat ∧ pkg.size.toNat ≤ 45 :=
  ⟨UInt8.le_iff_toNat_le.mp h.size_pos, UInt8.le_iff_toNat_le.mp h.size_le⟩

theorem Package.Valid.frame_eq {pkg : Package} (h : pkg.Valid) :
    pkg.frame =
      0x05 :: 0x1c :: pkg.cmdId :: pkg.size :: (pkg.bytes ++ [pkg.checksum]) := by
  rw [Package.frame, h.header, responseHeader_low, responseHeader_high]

/-- A whole frame: the function returns the package, and its checksum decides. -/
theorem recvBytes_frame (c0 : UInt8) (pkg₀ : Package) {sent : Package} (h : sent.Valid)
    (rest : List UInt8) :
    ∃ got sum, got.Same sent ∧ got.checksum = sent.checksum ∧ fsusCalcChecksum c0 got = .ret sum ∧
      (recvBytes c0 (.start pkg₀) (sent.frame ++ rest)).2 =
        .done (if sum ≠ sent.checksum then .checksumError else .success) got := by
  obtain ⟨h1, h45⟩ := h.size_toNat
  have hbytes := Package.bytes_length (show sent.size.toNat ≤ 50 by omega)
  have hframe : sent.frame ++ rest = 0x05 :: 0x1c :: sent.cmdId :: sent.size ::
      (sent.bytes ++ sent.checksum :: rest) := by
    rw [h.frame_eq]
    simp
  -- the header
  have hhead : recvBytes c0 (.start pkg₀) (sent.frame ++ rest) =
      recvBytes c0 ⟨{ pkg₀ with status := 0 }.withHeader, 0, responseHeader⟩
        (sent.cmdId :: sent.size :: (sent.bytes ++ sent.checksum :: rest)) := by
    rw [hframe]
    exact recvBytes_found c0 pkg₀ (afterHeader_header _)
  -- the command and the size
  have hcmd := recvByte_cmdId c0 { pkg₀ with status := 0 }.withHeader 0 sent.cmdId
    responseHeader rfl
  rw [if_neg (UInt8.not_lt.mpr h.cmdId)] at hcmd
  have hsize := recvByte_size c0
    { pkg₀ with header := responseHeader, cmdId := sent.cmdId, status := 3 } 0 sent.size
    responseHeader rfl
  rw [if_neg (UInt8.not_lt.mpr h.size_le)] at hsize
  have hne : sent.bytes ≠ [] := by
    intro hnil
    rw [hnil, List.length_nil] at hbytes
    omega
  obtain ⟨content, sum, hc, hsum, hdone⟩ := recvBytes_content c0
    { pkg₀ with header := responseHeader, cmdId := sent.cmdId, size := sent.size, status := 7 }
    0 responseHeader rfl h45 hne (by simpa using hbytes) sent.checksum rest
  refine ⟨⟨responseHeader, sent.cmdId, sent.size, content, sent.checksum, 31⟩, sum,
    ⟨h.header.symm, rfl, rfl, ?_⟩, rfl, hsum, ?_⟩
  · show content.toList.take sent.size.toNat = sent.bytes
    rw [hc, ← hbytes]
    simp
  · rw [hhead, recvBytes_more hcmd]
    show (recvBytes c0 ⟨{ pkg₀ with
      header := responseHeader, cmdId := sent.cmdId, status := 3 }, 0, responseHeader⟩
        (sent.size :: (sent.bytes ++ sent.checksum :: rest))).2 = _
    rw [recvBytes_more hsize]
    exact hdone

/-! ## The checksum -/

theorem foldl_add_inj {a b : UInt8} (xs : List UInt8) :
    xs.foldl (· + ·) a = xs.foldl (· + ·) b ↔ a = b := by
  induction xs generalizing a b with
  | nil => exact Iff.rfl
  | cons x xs ih =>
    rw [List.foldl_cons, List.foldl_cons, ih]
    exact UInt8.add_left_inj x

/-- The same package, from two start values: the sums agree exactly if the start values do. -/
theorem fsusCalcChecksum_inj {c1 c2 s1 s2 : UInt8} {p q : Package} (h : p.Same q)
    (h1 : fsusCalcChecksum c1 p = .ret s1) (h2 : fsusCalcChecksum c2 q = .ret s2) :
    s1 = s2 ↔ c1 = c2 := by
  unfold fsusCalcChecksum at h1 h2
  rw [h.header, h.cmdId, h.size, h.bytes] at h1
  by_cases hn : q.size.toNat ≤ 50
  · rw [if_pos hn] at h1 h2
    rw [← Call.ret.inj h1, ← Call.ret.inj h2, foldl_add_inj]
    simp only [UInt8.add_left_inj]
  · rw [if_neg hn] at h2
    exact absurd h2 (by simp)

/-- A package for the response header, any command up to 17, any size from 1 to 45 and any
content, with the checksum that `FSUS_CalcChecksum` gives the sender: `FSUS_UART_Send` lays it
out, and `FSUS_RecvPackage` gives it back with success exactly if the uninitialised local of
`FSUS_CalcChecksum` held the same value at both ends. -/
theorem roundTrip_iff (c1 c2 : UInt8) {txBuf : List UInt8} (htx : txBuf.length = 55)
    (pkg pkg₀ : Package) (h : pkg.Valid) :
    ∃ sum tx line, fsusCalcChecksum c1 pkg = .ret sum ∧
      fsusUartSend txBuf { pkg with checksum := sum } = .ret (tx, line) ∧
      ∀ evs, rxBytes evs = line →
        ((∃ got, (fsusRecvPackage c2 pkg₀ evs).2 = .done .success got ∧
            got.cmdId = pkg.cmdId ∧ got.size = pkg.size ∧ got.bytes = pkg.bytes) ↔ c1 = c2) := by
  obtain ⟨-, h45⟩ := h.size_toNat
  have h50 : pkg.size.toNat ≤ 50 := by omega
  obtain ⟨sum, hsum⟩ : ∃ sum, fsusCalcChecksum c1 pkg = .ret sum :=
    ⟨_, by rw [fsusCalcChecksum, if_pos h50]⟩
  have hvalid : ({ pkg with checksum := sum } : Package).Valid := ⟨h.1, h.2, h.3, h.4⟩
  refine ⟨sum, _, _, hsum, fsusUartSend_ret htx h50, fun evs hevs => ?_⟩
  obtain ⟨got, sum', hsame, -, hsum', hrun⟩ := recvBytes_frame c2 pkg₀ hvalid []
  have hsame' : got.Same pkg := ⟨hsame.1, hsame.2, hsame.3, hsame.4⟩
  rw [List.append_nil, ← hevs] at hrun
  have hout := recvRun_done hrun
  have hiff : sum' = sum ↔ c1 = c2 :=
    (fsusCalcChecksum_inj hsame' hsum' hsum).trans eq_comm
  rw [fsusRecvPackage, hout, ← hiff]
  constructor
  · rintro ⟨got', hdone, -⟩
    by_contra hne
    rw [if_pos hne] at hdone
    simp at hdone
  · intro heq
    exact ⟨got, by rw [if_neg (not_not.mpr heq)], hsame'.cmdId, hsame'.size, hsame'.bytes⟩

/-- The answer of servo 0 to `FSUS_Ping`, before its checksum is set. -/
def pingAnswer : Package := ⟨responseHeader, 1, 1, .replicate 50 0, 0, 0⟩

/-- Both locals 0: the answer arrives. -/
theorem roundTrip_iff_pingAnswer :
    ∃ sum tx line, fsusCalcChecksum 0 pingAnswer = .ret sum ∧
      fsusUartSend (List.replicate 55 0) { pingAnswer with checksum := sum } = .ret (tx, line) ∧
      ∀ evs, rxBytes evs = line →
        ((∃ got, (fsusRecvPackage 0 .zero evs).2 = .done .success got ∧ got.cmdId = 1 ∧
            got.size = 1 ∧ got.bytes = pingAnswer.bytes) ↔ (0 : UInt8) = 0) :=
  roundTrip_iff 0 0 (by decide) pingAnswer .zero ⟨rfl, by decide, by decide, by decide⟩

/-- The local of the sender 0 and that of the receiver 1: the receiver reports a wrong
checksum. -/
theorem roundTrip_checksumError :
    fsusCalcChecksum 0 pingAnswer = .ret 0x23 ∧
      (fsusUartSend (List.replicate 55 0) { pingAnswer with checksum := 0x23 }).ret?.map
        Prod.snd = some [0x05, 0x1c, 0x01, 0x01, 0x00, 0x23] ∧
      ∀ got, (fsusRecvPackage 1 .zero ([0x05, 0x1c, 0x01, 0x01, 0x00, 0x23].map .byte)).2 ≠
        .done .success got := by
  refine ⟨by decide, by decide +kernel, fun got h => ?_⟩
  have hout : (fsusRecvPackage 1 .zero ([0x05, 0x1c, 0x01, 0x01, 0x00, 0x23].map .byte)).2 =
      .done .checksumError ⟨responseHeader, 1, 1, .replicate 50 0, 0x23, 31⟩ := by
    decide +kernel
  rw [hout] at h
  simp at h

end Robot
