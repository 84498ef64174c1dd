import ConstructionRobot.Lib.Ring

/-!
# Servo packages (`fashion_star_uart_servo.c`)

The frame of the servo protocol: header, command, size, content and checksum, how it is sent
(`FSUS_UART_Send`, `FSUS_SendPackage`) and received (`FSUS_RecvPackage`).

* `checksum` in `FSUS_CalcChecksum` is not initialised. Its value at the start of the call is the
  parameter `c0` of `fsusCalcChecksum`.
* One round of the loop of `FSUS_RecvPackage` is an `RxEvent`: a byte, or none and then a wake-up
  or a timeout of the semaphore. `recvByte` is the round with a byte; it gives the writes to
  `content` that it makes, each with the `size` of that moment.
* A write or read outside `content` ends the model of the run (`RecvOut.fault`).
-/

namespace Robot

/-- The status codes `FSUS_STATUS_*`. -/
inductive FsusStatus where
  | success
  | fail
  | timeout
  | wrongResponseHeader
  | unkownCmdId
  | sizeTooBig
  | checksumError
  | idNotMatch
  deriving DecidableEq, Repr

/-- `PackageTypeDef`. -/
structure Package where
  header : UInt16
  cmdId : UInt8
  size : UInt8
  content : Vector UInt8 50
  checksum : UInt8
  status : UInt8
  deriving DecidableEq, Repr

/-- `FSUS_PACK_REQUEST_HEADER` and `FSUS_PACK_RESPONSE_HEADER`. -/
def requestHeader : UInt16 := 0x4c12
def responseHeader : UInt16 := 0x1c05

theorem responseHeader_low : responseHeader.toUInt8 = 0x05 := by decide
theorem responseHeader_high : (responseHeader >>> 8).toUInt8 = 0x1c := by decide

/-- `FSUS_CMD_NUM`. -/
def fsusCmdNum : UInt8 := 17

/-- `FSUS_PACK_RESPONSE_MAX_SIZE - 5`, the largest size that is received. -/
def maxSize : UInt8 := 45

/-- The flags `FSUS_RECV_FLAG_*` of `status`. -/
def flagHeader : UInt8 := 0x01
def flagCmdId : UInt8 := 0x02
def flagSize : UInt8 := 0x04
def flagContent : UInt8 := 0x08
def flagChecksum : UInt8 := 0x10

/-- The bytes of the content that count. -/
def Package.bytes (pkg : Package) : List UInt8 := pkg.content.toList.take pkg.size.toNat

/-- `FSUS_CalcChecksum`, with `checksum` starting at `c0`. A size over 50 reads past the
content. -/
def fsusCalcChecksum (c0 : UInt8) (pkg : Package) : Call UInt8 :=
  if pkg.size.toNat ≤ 50 then
    .ret (pkg.bytes.foldl (· + ·)
      (c0 + pkg.header.toUInt8 + (pkg.header >>> 8).toUInt8 + pkg.cmdId + pkg.size))
  else .fault

/-- `FSUS_UART_Send`: `tx_buf` after the call, and the bytes given to `rt_device_write`. -/
def fsusUartSend (txBuf : List UInt8) (pkg : Package) : Call (List UInt8 × List UInt8) := do
  let txBuf ← memcpy txBuf 0 [pkg.header.toUInt8, (pkg.header >>> 8).toUInt8] 0 2
  let txBuf ← memcpy txBuf 2 [pkg.cmdId] 0 1
  let txBuf ← memcpy txBuf 3 [pkg.size] 0 1
  let txBuf ← memcpy txBuf 4 pkg.content.toList 0 pkg.size.toNat
  let txBuf ← memcpy txBuf (4 + pkg.size.toNat) [pkg.checksum] 0 1
  if pkg.size.toNat + 5 ≤ txBuf.length then pure (txBuf, txBuf.take (pkg.size.toNat + 5))
  else .fault

/-- `FSUS_SendPackage`; `pkg₀` is its uninitialised local. The loop copies `size` bytes. -/
def fsusSendPackage (c0 : UInt8) (txBuf : List UInt8) (pkg₀ : Package) (cmdId size : UInt8)
    (content : List UInt8) : Call (List UInt8 × List UInt8) :=
  if h : size.toNat ≤ 50 ∧ size.toNat ≤ content.length then do
    let pkg := { pkg₀ with
      header := requestHeader
      cmdId := cmdId
      size := size
      content := .ofFn fun i => if hi : i.val < size.toNat then content[i.val] else pkg₀.content[i] }
    let checksum ← fsusCalcChecksum c0 pkg
    fsusUartSend txBuf { pkg with checksum := checksum }
  else .fault

/-! ## Receiving -/

/-- The variables of `FSUS_RecvPackage`. -/
structure RecvState where
  pkg : Package
  bIdx : UInt8
  header : UInt16
  deriving DecidableEq, Repr

/-- A write to `content`, and the size of the package at that moment. -/
structure ContentWrite where
  index : ℕ
  size : ℕ
  deriving DecidableEq, Repr

/-- One round of the loop: a byte was read, or there was none and the semaphore was taken or timed
out. -/
inductive RxEvent where
  | byte (b : UInt8)
  | wake
  | timeout
  deriving DecidableEq, Repr

/-- After some rounds: the loop goes on, or the function has returned, or it left an object. -/
inductive RecvOut where
  | more (st : RecvState)
  | done (status : FsusStatus) (pkg : Package)
  | fault
  deriving DecidableEq, Repr

/-- At the start `pkg` is an uninitialised local of the caller, only its status is set. -/
def RecvState.start (pkg : Package) : RecvState where
  pkg := { pkg with status := 0 }
  bIdx := 0
  header := 0

/-- The two bytes of the header. -/
def recvHeader (st : RecvState) (tmpdata : UInt8) : RecvState :=
  if st.header = 0 then
    { st with header :=
        if tmpdata.toUInt16 ≠ responseHeader &&& 0x0F then 0 else tmpdata.toUInt16 }
  else if st.header = responseHeader &&& 0x0F then
    let header := st.header ||| (tmpdata.toUInt16 <<< 8)
    if header ≠ responseHeader then { st with header := 0 }
    else { st with
      header := header
      pkg := { st.pkg with header := header, status := st.pkg.status ||| flagHeader } }
  else { st with header := 0 }

/-- A byte of the content. -/
def recvContent (st : RecvState) (tmpdata : UInt8) : RecvOut :=
  if h : st.bIdx.toNat < 50 then
    let pkg := { st.pkg with content := st.pkg.content.set st.bIdx.toNat tmpdata }
    let bIdx := st.bIdx + 1
    if bIdx = pkg.size then
      .more { st with pkg := { pkg with status := pkg.status ||| flagContent }, bIdx := bIdx }
    else .more { st with pkg := pkg, bIdx := bIdx }
  else .fault

/-- One round of the loop that has read the byte `tmpdata`. -/
def recvByte (c0 : UInt8) (st : RecvState) (tmpdata : UInt8) : List ContentWrite × RecvOut :=
  if st.pkg.status &&& flagContent ≠ 0 then
    let pkg := { st.pkg with checksum := tmpdata, status := st.pkg.status ||| flagChecksum }
    match fsusCalcChecksum c0 pkg with
    | .ret sum => ([], .done (if sum ≠ pkg.checksum then .checksumError else .success) pkg)
    | _ => ([], .fault)
  else if st.pkg.status &&& flagSize ≠ 0 then
    ([⟨st.bIdx.toNat, st.pkg.size.toNat⟩], recvContent st tmpdata)
  else if st.pkg.status &&& flagCmdId ≠ 0 then
    let pkg := { st.pkg with size := tmpdata }
    if pkg.size > maxSize then ([], .done .sizeTooBig pkg)
    else ([], .more { st with pkg := { pkg with status := pkg.status ||| flagSize } })
  else if st.pkg.status &&& flagHeader ≠ 0 then
    let pkg := { st.pkg with cmdId := tmpdata }
    if pkg.cmdId > fsusCmdNum then ([], .done .unkownCmdId pkg)
    else ([], .more { st with pkg := { pkg with status := pkg.status ||| flagCmdId } })
  else ([], .more (recvHeader st tmpdata))

/-- `FSUS_RecvPackage` over the rounds `evs`, from any state of its loop: all writes to `content`,
and where it is then. -/
def recvRun (c0 : UInt8) (st : RecvState) : List RxEvent → List ContentWrite × RecvOut
  | [] => ([], .more st)
  | .byte b :: evs =>
    match recvByte c0 st b with
    | (ws, .more st) => (ws ++ (recvRun c0 st evs).1, (recvRun c0 st evs).2)
    | (ws, out) => (ws, out)
  | .wake :: evs => recvRun c0 st evs
  | .timeout :: _ => ([], .done .timeout st.pkg)

/-- `FSUS_RecvPackage` from its first line on. -/
def fsusRecvPackage (c0 : UInt8) (pkg : Package) (evs : List RxEvent) :
    List ContentWrite × RecvOut :=
  recvRun c0 (.start pkg) evs

/-! ## The bytes that are read -/

/-- The bytes up to the first timeout. -/
def rxBytes : List RxEvent → List UInt8
  | [] => []
  | .byte b :: evs => b :: rxBytes evs
  | .wake :: evs => rxBytes evs
  | .timeout :: _ => []

/-- The loop on bytes alone. -/
def recvBytes (c0 : UInt8) (st : RecvState) : List UInt8 → List ContentWrite × RecvOut
  | [] => ([], .more st)
  | b :: bs =>
    match recvByte c0 st b with
    | (ws, .more st) => (ws ++ (recvBytes c0 st bs).1, (recvBytes c0 st bs).2)
    | (ws, out) => (ws, out)

/-- The loop goes on after byte `b`. -/
theorem recvBytes_more {c0 : UInt8} {st st' : RecvState} {b : UInt8} {ws : List ContentWrite}
    (h : recvByte c0 st b = (ws, .more st')) (bs : List UInt8) :
    recvBytes c0 st (b :: bs) =
      (ws ++ (recvBytes c0 st' bs).1, (recvBytes c0 st' bs).2) := by
  rw [recvBytes, h]

/-- The function returns at byte `b`. -/
theorem recvBytes_done {c0 : UInt8} {st : RecvState} {b : UInt8} {ws : List ContentWrite}
    {status : FsusStatus} {pkg : Package} (h : recvByte c0 st b = (ws, .done status pkg))
    (bs : List UInt8) : recvBytes c0 st (b :: bs) = (ws, .done status pkg) := by
  rw [recvBytes, h]

/-- The writes depend only on the bytes that are read. -/
theorem recvRun_writes (c0 : UInt8) (st : RecvState) (evs : List RxEvent) :
    (recvRun c0 st evs).1 = (recvBytes c0 st (rxBytes evs)).1 := by
  induction evs generalizing st with
  | nil => rfl
  | cons e evs ih =>
    cases e with
    | byte b =>
      rw [recvRun, rxBytes, recvBytes]
      rcases recvByte c0 st b with ⟨ws, st' | ⟨s, p⟩ | _⟩
      · exact congrArg (ws ++ ·) (ih st')
      · rfl
      · rfl
    | wake => exact ih st
    | timeout => rfl

/-- So does the result, if the function has returned before the first timeout. -/
theorem recvRun_done {c0 : UInt8} {st : RecvState} {evs : List RxEvent} {status : FsusStatus}
    {pkg : Package} (h : (recvBytes c0 st (rxBytes evs)).2 = .done status pkg) :
    (recvRun c0 st evs).2 = .done status pkg := by
  induction evs generalizing st with
  | nil => exact h
  | cons e evs ih =>
    cases e with
    | byte b =>
      rw [rxBytes, recvBytes] at h
      rw [recvRun]
      rcases hb : recvByte c0 st b with ⟨ws, st' | ⟨s, p⟩ | _⟩
      · rw [hb] at h
        exact ih h
      · rw [hb] at h
        exact h
      · rw [hb] at h
        exact h
    | wake => exact ih h
    | timeout => exact absurd h (by simp [rxBytes, recvBytes])

/-- A success is a success on the bytes. -/
theorem recvRun_success {c0 : UInt8} {st : RecvState} {evs : List RxEvent} {pkg : Package}
    (h : (recvRun c0 st evs).2 = .done .success pkg) :
    (recvBytes c0 st (rxBytes evs)).2 = .done .success pkg := by
  induction evs generalizing st with
  | nil => exact h
  | cons e evs ih =>
    cases e with
    | byte b =>
      rw [recvRun] at h
      rw [rxBytes, recvBytes]
      rcases hb : recvByte c0 st b with ⟨ws, st' | ⟨s, p⟩ | _⟩
      · rw [hb] at h
        exact ih h
      · rw [hb] at h
        exact h
      · rw [hb] at h
        exact h
    | wake => exact ih h
    | timeout => exact absurd h (by simp [recvRun])

end Robot
