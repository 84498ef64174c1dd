import ConstructionRobot.Servo.Balance

/-!
# Blocks of data

`FSUS_ReadData` takes the two bytes of the id and the address from the size of the answer, and
`FSUS_WriteData` adds them to the size of its data; both work on a byte. Neither function looks at
the result, and nothing on the way to the line compares it with the arrays of 50 and 55 bytes.

* `readData_exact_iff`: an answer of at least two bytes is handed on as it was received.
* `fsusUartSend_iff`, `fsusSendPackage_iff`, `writeRequest_iff`: the sizes with which the functions
  stay in their arrays, and announce as many bytes as there are.
-/

namespace Robot

open Call

/-- What `FSUS_ReadData` reports is the content behind the id and the address, and the size is its
length. -/
def ReadExact (pkg : Package) (value : ServoValue) : Prop :=
  ∃ size : UInt8, value = .data size ((pkg.bytes.drop 2).map some) ∧
    (size.toNat : ℤ) = (pkg.size.toNat : ℤ) - 2

/-- The bytes on the line are a frame with the content, and announce its length. -/
def Announces (line content : List UInt8) : Prop :=
  ∃ lo hi cmdId size sum, line = lo :: hi :: cmdId :: size :: (content ++ [sum]) ∧
    size.toNat = content.length

/-- `FSUS_WriteData` up to the answer. -/
def writeRequest (servoId address : UInt8) (value : List UInt8) (size : UInt8) : ServoM Unit :=
  if size.toNat ≤ value.length then
    sendPackage 4 (size + 2) (servoId :: address :: value.take size.toNat)
  else StateT.lift .fault

theorem fsusWriteData_eq (servoId address : UInt8) (value : List UInt8) (size : UInt8) :
    fsusWriteData servoId address value size = (do
      writeRequest servoId address value size
      let got ← recvPackage
      pure ((FsusCall.writeData servoId address value).statusOf got)) := by
  unfold fsusWriteData writeRequest ask
  split
  case isTrue h =>
    funext io
    show ((sendPackage 4 (size + 2) _ io >>= fun r => recvPackage r.2) >>= _) =
      sendPackage 4 (size + 2) _ io >>= _
    cases sendPackage 4 (size + 2) (servoId :: address :: value.take size.toNat) io <;> rfl
  case isFalse h => rfl

/-! ## Answers -/

/-- The function returns with success only after the checksum, which reads all of the content. -/
theorem recvByte_success_size {c0 : UInt8} {st : RecvState} {b : UInt8} {pkg : Package}
    (h : (recvByte c0 st b).2 = .done .success pkg) : pkg.size.toNat ≤ 50 := by
  unfold recvByte at h
  split at h
  · dsimp only at h
    split at h
    next sum hsum =>
      unfold fsusCalcChecksum at hsum
      split at hsum
      case isTrue hle =>
        obtain ⟨-, rfl⟩ := RecvOut.done.inj h
        exact hle
      case isFalse => cases hsum
    next => cases h
  · split at h
    · unfold recvContent at h
      dsimp only at h
      split at h
      · split at h <;> cases h
      · cases h
    · split at h
      · dsimp only at h
        split at h <;> cases h
      · split at h
        · dsimp only at h
          split at h <;> cases h
        · cases h

theorem recvRun_success_size {c0 : UInt8} {st : RecvState} {evs : List RxEvent} {pkg : Package}
    (h : (recvRun c0 st evs).2 = .done .success pkg) : pkg.size.toNat ≤ 50 := by
  induction evs generalizing st with
  | nil => cases h
  | cons e evs ih =>
    cases e with
    | byte b =>
      rw [recvRun] at h
      rcases hb : recvByte c0 st b with ⟨ws, st' | ⟨s, p⟩ | _⟩
      · rw [hb] at h
        exact ih h
      · rw [hb] at h
        exact recvByte_success_size (by rw [hb]; exact h)
      · rw [hb] at h
        cases h
    | wake => exact ih h
    | timeout => cases h

/-- The bytes behind the id and the address, if the package has both. -/
theorem finish_readData {servoId address : UInt8} {pkg : Package} (hle : pkg.size.toNat ≤ 50)
    (h2 : 2 ≤ pkg.size.toNat) :
    ReadExact pkg ((FsusCall.readData servoId address).finish pkg).value := by
  have hsub : (pkg.size - 2).toNat = pkg.size.toNat - 2 :=
    UInt8.toNat_sub_of_le _ _ (UInt8.le_iff_toNat_le.mpr h2)
  refine ⟨pkg.size - 2, ?_, by omega⟩
  simp only [FsusCall.finish, hsub]
  congr 1
  refine List.ext_getElem? fun i => ?_
  by_cases hi : i < pkg.size.toNat - 2
  · rw [List.getElem?_map, List.getElem?_range hi, List.getElem?_map, List.getElem?_drop,
      Package.bytes, List.getElem?_take_of_lt (by omega), Nat.add_comm 2 i,
      List.getElem?_eq_getElem (by rw [Vector.length_toList]; omega)]
    simp [show i + 2 < 50 by omega]
  · rw [List.getElem?_eq_none (by simp; omega), List.getElem?_eq_none]
    rw [List.length_map, List.length_drop, Package.bytes_length hle]
    omega

/-- An accepted answer is handed on exactly if it has the two bytes. -/
theorem readData_exact_iff {servoId address : UInt8} {io io' : ServoIo} {pkg : Package}
    (h : ask 3 2 [servoId, address] io = .ret ((.success, pkg), io')) :
    ∃ value, fsusReadData servoId address io = .ret ((.success, value), io') ∧
      (ReadExact pkg value ↔ 2 ≤ pkg.size.toNat) := by
  refine ⟨_, stateT_bind_eq_ret.mpr ⟨_, _, h, rfl⟩, ?_, ?_⟩
  · rintro ⟨size, -, hsize⟩
    have := size.toNat_lt
    omega
  · exact finish_readData (recvRun_success_size (ask_recv h))

/-! ## Requests -/

theorem fsusUartSend_iff {txBuf : List UInt8} (htx : txBuf.length = 55) (pkg : Package) :
    (∃ tx line, fsusUartSend txBuf pkg = .ret (tx, line) ∧ Announces line pkg.bytes) ↔
      pkg.size.toNat ≤ 50 := by
  constructor
  · rintro ⟨tx, line, hrun, -⟩
    unfold fsusUartSend at hrun
    obtain ⟨tx₁, -, hrun⟩ := bind_eq_ret.mp hrun
    obtain ⟨tx₂, -, hrun⟩ := bind_eq_ret.mp hrun
    obtain ⟨tx₃, -, hrun⟩ := bind_eq_ret.mp hrun
    -- the copy of the content
    obtain ⟨tx₄, hcopy, -⟩ := bind_eq_ret.mp hrun
    have hin := (memcpy_inv hcopy).2.1
    rw [Vector.length_toList] at hin
    omega
  · intro h
    exact ⟨_, _, fsusUartSend_ret htx h, _, _, _, _, _, rfl, (Package.bytes_length h).symm⟩

/-- A request that was sent is not longer than the content of a package. -/
theorem fsusSendPackage_size_le {c0 : UInt8} {txBuf : List UInt8} {pkg₀ : Package}
    {cmdId size : UInt8} {content : List UInt8} {r : List UInt8 × List UInt8}
    (h : fsusSendPackage c0 txBuf pkg₀ cmdId size content = .ret r) : size.toNat ≤ 50 := by
  unfold fsusSendPackage at h
  split at h
  case isTrue hle => exact hle.1
  case isFalse => cases h

/-- The request stays in its arrays and announces its bytes exactly if there are at most 50. -/
theorem fsusSendPackage_iff (c0 : UInt8) {txBuf : List UInt8} (htx : txBuf.length = 55)
    (pkg₀ : Package) (cmdId : UInt8) {size : UInt8} {content : List UInt8}
    (hlen : size.toNat ≤ content.length) :
    (∃ tx line, fsusSendPackage c0 txBuf pkg₀ cmdId size content = .ret (tx, line) ∧
      Announces line (content.take size.toNat)) ↔ size.toNat ≤ 50 := by
  constructor
  · rintro ⟨tx, line, hrun, -⟩
    exact fsusSendPackage_size_le hrun
  · intro h50
    obtain ⟨tx, sum, hrun⟩ := fsusSendPackage_ret c0 htx pkg₀ cmdId h50 hlen
    exact ⟨tx, _, hrun, _, _, _, _, _, rfl, by rw [List.length_take, Nat.min_eq_left hlen]⟩

/-- The size of the request, as a byte. -/
theorem size_add_two (size : UInt8) :
    (size + 2).toNat = if size.toNat < 254 then size.toNat + 2 else size.toNat - 254 := by
  have := size.toNat_lt
  rw [UInt8.toNat_add]
  show (size.toNat + 2) % 2 ^ 8 = _
  split <;> omega

/-- A request for at most 48 bytes goes out with its bytes and their number. With 49 to 253 bytes
the copy leaves the arrays; with more, the size that is announced starts again at 0. -/
theorem writeRequest_iff {servoId address : UInt8} {value : List UInt8} {size : UInt8}
    (hlen : size.toNat ≤ value.length) {io : ServoIo} (htx : io.txBuf.length = 55) :
    (∃ io', writeRequest servoId address value size io = .ret ((), io') ∧
      ∃ line, io'.tx = io.tx ++ line ∧
        Announces line (servoId :: address :: value.take size.toNat)) ↔ size.toNat ≤ 48 := by
  have hsize := size.toNat_lt
  have hadd := size_add_two size
  have hcontent : (servoId :: address :: value.take size.toNat).length = size.toNat + 2 := by
    rw [List.length_cons, List.length_cons, List.length_take, Nat.min_eq_left hlen]
  unfold writeRequest
  rw [if_pos hlen]
  generalize servoId :: address :: value.take size.toNat = content at hcontent ⊢
  constructor
  · rintro ⟨io', hrun, line, hline, lo, hi, cmdId, n, sum, rfl, hn⟩
    obtain ⟨⟨tx, line'⟩, hsend, hret⟩ := bind_eq_ret.mp hrun
    cases hret
    have h50 : (size + 2).toNat ≤ 50 := fsusSendPackage_size_le hsend
    have hle : (size + 2).toNat ≤ content.length := by
      split at hadd <;> omega
    obtain ⟨tx', sum', hsend'⟩ :=
      fsusSendPackage_ret io.locals.head.1 htx io.locals.head.2 4 h50 hle
    rw [hsend] at hsend'
    cases hsend'
    have hsame := List.append_cancel_left hline
    injection hsame with _ hsame
    injection hsame with _ hsame
    injection hsame with _ hsame
    injection hsame with hsize' _
    rw [← hsize', hcontent] at hn
    omega
  · intro h48
    rw [if_pos (by omega)] at hadd
    have h50 : (size + 2).toNat ≤ 50 := by omega
    have hle : (size + 2).toNat ≤ content.length := by omega
    obtain ⟨tx, sum, hsend⟩ :=
      fsusSendPackage_ret io.locals.head.1 htx io.locals.head.2 4 h50 hle
    rw [List.take_of_length_le (show content.length ≤ (size + 2).toNat by omega)] at hsend
    exact ⟨_, bind_eq_ret.mpr ⟨_, hsend, rfl⟩, _, rfl, _, _, _, _, sum, rfl, by omega⟩

/-- `FSUS_ReadData` hands an accepted answer on exactly if it has at least two bytes. The functions
that send stay in their arrays and announce the bytes that there are exactly for a package of at
most 50 bytes, which is at most 48 bytes of data for `FSUS_WriteData`. -/
theorem servo_data_bounds (servoId address : UInt8) (io : ServoIo) (txBuf : List UInt8) :
    (∀ io' pkg, ask 3 2 [servoId, address] io = .ret ((.success, pkg), io') →
      ∃ value, fsusReadData servoId address io = .ret ((.success, value), io') ∧
        (ReadExact pkg value ↔ 2 ≤ pkg.size.toNat)) ∧
    (∀ value size, size.toNat ≤ value.length → io.txBuf.length = 55 →
      ((∃ io', writeRequest servoId address value size io = .ret ((), io') ∧
        ∃ line, io'.tx = io.tx ++ line ∧
          Announces line (servoId :: address :: value.take size.toNat)) ↔ size.toNat ≤ 48)) ∧
    (∀ c0 pkg₀ cmdId size content, txBuf.length = 55 → size.toNat ≤ content.length →
      ((∃ tx line, fsusSendPackage c0 txBuf pkg₀ cmdId size content = .ret (tx, line) ∧
        Announces line (content.take size.toNat)) ↔ size.toNat ≤ 50)) ∧
    (∀ pkg, txBuf.length = 55 →
      ((∃ tx line, fsusUartSend txBuf pkg = .ret (tx, line) ∧ Announces line pkg.bytes) ↔
        pkg.size.toNat ≤ 50)) :=
  ⟨fun _ _ h => readData_exact_iff h, fun _ _ hlen htx => writeRequest_iff hlen htx,
    fun c0 pkg₀ cmdId _ _ htx hlen => fsusSendPackage_iff c0 htx pkg₀ cmdId hlen,
    fun pkg htx => fsusUartSend_iff htx pkg⟩

/-- A servo answers a read with three bytes, one of them data; and the largest packages are sent:
48 bytes of data, and 50 bytes of content. -/
theorem servo_data_bounds_answer :
    (∃ io' pkg value,
      ask 3 2 [0, 9] (servoIdle [0x05, 0x1c, 0x03, 0x03, 0x00, 0x09, 0x2a, 0x5a]) =
        .ret ((.success, pkg), io') ∧ pkg.size.toNat = 3 ∧
      fsusReadData 0 9 (servoIdle [0x05, 0x1c, 0x03, 0x03, 0x00, 0x09, 0x2a, 0x5a]) =
        .ret ((.success, value), io') ∧ ReadExact pkg value) ∧
    (∃ io', writeRequest 0 9 (List.replicate 48 7) 48 (servoIdle []) = .ret ((), io') ∧
      ∃ line, io'.tx = (servoIdle []).tx ++ line ∧
        Announces line (0 :: 9 :: (List.replicate 48 7).take 48)) ∧
    (∃ tx line, fsusSendPackage 0 (List.replicate 55 0) .zero 4 50 (List.replicate 50 7) =
      .ret (tx, line) ∧ Announces line ((List.replicate 50 7).take 50)) ∧
    ∃ tx line, fsusUartSend (List.replicate 55 0) { Package.zero with size := 50 } =
      .ret (tx, line) ∧ Announces line { Package.zero with size := 50 }.bytes := by
  have hsend := servo_data_bounds 0 9 (servoIdle []) (List.replicate 55 0)
  refine ⟨?_, (hsend.2.1 (List.replicate 48 7) 48 (by decide) rfl).mpr (by decide),
    (hsend.2.2.1 0 .zero 4 50 (List.replicate 50 7) rfl (by decide)).mpr (by decide),
    (hsend.2.2.2 { Package.zero with size := 50 } rfl).mpr (by decide)⟩
  have hrun : (ask 3 2 [0, 9]
      (servoIdle [0x05, 0x1c, 0x03, 0x03, 0x00, 0x09, 0x2a, 0x5a])).ret?.map
        (fun r => (r.1.1, r.1.2.size.toNat)) = some (.success, 3) := by
    decide +kernel
  obtain ⟨⟨⟨status, pkg⟩, io'⟩, hret, heq⟩ := Option.map_eq_some_iff.mp hrun
  obtain ⟨rfl, hsize⟩ : status = .success ∧ pkg.size.toNat = 3 := Prod.mk.inj heq
  have hask := Call.ret?_eq_some.mp hret
  obtain ⟨value, hread, hiff⟩ := (servo_data_bounds 0 9 _ []).1 _ _ hask
  exact ⟨io', pkg, value, hask, hsize, hread, hiff.mpr (by omega)⟩

/-- A servo answers a read with its id alone: the size that is reported is 255. A write of 49 bytes
leaves the content, and a write of 254 bytes announces none. -/
theorem servo_data_wraps :
    (∃ io' pkg value,
      ask 3 2 [0, 9] (servoIdle [0x05, 0x1c, 0x03, 0x01, 0x00, 0x25]) =
        .ret ((.success, pkg), io') ∧ pkg.size.toNat = 1 ∧
      fsusReadData 0 9 (servoIdle [0x05, 0x1c, 0x03, 0x01, 0x00, 0x25]) =
        .ret ((.success, value), io') ∧ ¬ReadExact pkg value) ∧
    (fsusReadData 0 9 (servoIdle [0x05, 0x1c, 0x03, 0x01, 0x00, 0x25])).ret?.map
        (fun r => match r.1.2 with | .data size _ => size | _ => 0) = some 255 ∧
    writeRequest 0 9 (List.replicate 49 0) 49 (servoIdle []) = .fault ∧
    (writeRequest 0 9 (List.replicate 254 0) 254 (servoIdle [])).ret?.map (fun r => r.2.tx) =
      some [0x12, 0x4c, 0x04, 0x00, 0x62] := by
  refine ⟨?_, by decide +kernel, ?_, by decide +kernel⟩
  · have hrun : (ask 3 2 [0, 9] (servoIdle [0x05, 0x1c, 0x03, 0x01, 0x00, 0x25])).ret?.map
        (fun r => (r.1.1, r.1.2.size.toNat)) = some (.success, 1) := by
      decide +kernel
    obtain ⟨⟨⟨status, pkg⟩, io'⟩, hret, heq⟩ := Option.map_eq_some_iff.mp hrun
    obtain ⟨rfl, hsize⟩ : status = .success ∧ pkg.size.toNat = 1 := Prod.mk.inj heq
    have hask := Call.ret?_eq_some.mp hret
    obtain ⟨value, hread, hiff⟩ := readData_exact_iff hask
    exact ⟨io', pkg, value, hask, hsize, hread, fun h => absurd (hiff.mp h) (by omega)⟩
  · rfl

end Robot
