import ConstructionRobot.Servo.RoundTrip
import ConstructionRobot.Lib.Sys

/-!
# Requests to the servos and their answers

Any number of threads call the six functions that wait for an answer. The line is a queue of
answer frames: the servo may send a frame late, twice or never, and a frame stays in the queue
until some call takes it. A call takes whatever frame is first; neither its command nor its size is
looked at, nothing is thrown away after a timeout, and `FSUS_ReadData` and `FSUS_WriteData` do not
take the mutex.

* `FsusCall.finish`: what each function makes of the package it received.
* `Session.step`: one step of a call or of the servo. The receive step is `FSUS_RecvPackage` on the
  bytes of the first frame.
* `answers_match`: if requests and answers take turns (`InOrder`), each reported value is from an
  answer to the request of the call.
-/

namespace Robot

/-- A call of one of the functions, with its arguments. -/
inductive FsusCall where
  | ping (servoId : UInt8)
  | resetUserData (servoId : UInt8)
  | readData (servoId address : UInt8)
  | writeData (servoId address : UInt8) (value : List UInt8)
  | queryServoAngle (servoId : UInt8)
  | queryServoAngleMTurn (servoId : UInt8)
  deriving DecidableEq, Repr

/-- What a call reports besides its status; `none` stands for a byte outside the package. -/
inductive ServoValue where
  | nothing
  | angle (degrees : ℚ)
  | data (size : UInt8) (bytes : List (Option UInt8))
  deriving DecidableEq, Repr

/-- The end of a call: its status and value, the places of `content` that it read, and if it
keeps the mutex. -/
structure ServoReply where
  status : FsusStatus
  value : ServoValue
  reads : List ℕ
  keeps : Bool
  deriving DecidableEq, Repr

namespace FsusCall

/-- The command of the request. -/
def cmdId : FsusCall → UInt8
  | ping _ => 1
  | resetUserData _ => 2
  | readData _ _ => 3
  | writeData _ _ _ => 4
  | queryServoAngle _ => 10
  | queryServoAngleMTurn _ => 16

/-- The functions that take the mutex. -/
def locks : FsusCall → Bool
  | ping _ | resetUserData _ | queryServoAngle _ | queryServoAngleMTurn _ => true
  | readData .. | writeData .. => false

/-- The size of an answer with all the bytes that the function reads. -/
def need : FsusCall → ℕ
  | ping _ => 1
  | resetUserData _ => 2
  | readData _ _ => 2
  | writeData _ _ _ => 3
  | queryServoAngle _ => 3
  | queryServoAngleMTurn _ => 5

/-- A result byte: 1 is success. -/
def resultStatus (result : UInt8) : FsusStatus := if result = 1 then .success else .fail

/-- What the function does with a package that was received with success. `FSUS_ReadData`
subtracts 2 from the size as a byte; `FSUS_QueryServoAngleMTurn` returns without
`rt_mutex_release` if the id is wrong. -/
def finish (c : FsusCall) (pkg : Package) : ServoReply :=
  match c with
  | ping servoId =>
    ⟨if pkg.content[0] ≠ servoId then .idNotMatch else .success, .nothing, [0], false⟩
  | resetUserData _ => ⟨resultStatus pkg.content[1], .nothing, [1], false⟩
  | readData _ _ =>
    let size := pkg.size - 2
    ⟨.success, .data size ((List.range size.toNat).map fun i => pkg.content[i + 2]?),
      (List.range size.toNat).map (· + 2), false⟩
  | writeData _ _ _ => ⟨resultStatus pkg.content[2], .nothing, [2], false⟩
  | queryServoAngle servoId =>
    if pkg.content[0] ≠ servoId then ⟨.idNotMatch, .nothing, [0], false⟩
    else
      let echo := sint 16 (pkg.content[1].toNat + pkg.content[2].toNat * 2 ^ 8)
      ⟨.success, .angle (echo / 10), [0, 1, 2], false⟩
  | queryServoAngleMTurn servoId =>
    if pkg.content[0] ≠ servoId then ⟨.idNotMatch, .nothing, [0], true⟩
    else
      let echo := sint 32 (pkg.content[1].toNat + pkg.content[2].toNat * 2 ^ 8 +
        pkg.content[3].toNat * 2 ^ 16 + pkg.content[4].toNat * 2 ^ 24)
      ⟨.success, .angle (echo / 10), [0, 1, 2, 3, 4], false⟩

end FsusCall

/-- The first byte of the content: the id of the servo that answers. -/
def Package.servoId (pkg : Package) : UInt8 := pkg.content[0]

/-! ## The system -/

/-- An answer frame on the line, with the number of requests that were sent before it. -/
structure Response where
  pkg : Package
  valid : pkg.Valid
  stamp : ℕ

/-- Where a thread is; `req` is the number of the request it has sent. -/
inductive CallPc where
  | idle
  | lock (c : FsusCall)
  | send (c : FsusCall)
  | wait (c : FsusCall) (req : ℕ)
  deriving DecidableEq, Repr

structure Session where
  uart : List Response
  /-- All requests that were sent, the first one first. -/
  requests : List FsusCall
  mutex : Mutex ℕ
  threads : ℕ → CallPc

inductive SessionEvent where
  | call (t : ℕ) (c : FsusCall)
  | take (t : ℕ)
  | lockTimeout (t : ℕ)
  | send (t : ℕ)
  /-- The servo sends a frame. -/
  | answer (pkg : Package) (valid : pkg.Valid)
  /-- The thread takes the first frame; `c0` and `pkg₀` are what its locals hold. -/
  | receive (t : ℕ) (c0 : UInt8) (pkg₀ : Package)
  | timeout (t : ℕ)

inductive SessionObs where
  /-- The call of thread `t` with request `req` returned what it made of the answer. -/
  | answered (t : ℕ) (c : FsusCall) (req : ℕ) (reply : ServoReply) (answer : Response)
  /-- It returned without an answer. -/
  | failed (t : ℕ) (c : FsusCall) (status : FsusStatus)

namespace Session

def start : Session where
  uart := []
  requests := []
  mutex := .free
  threads _ := .idle

/-- Thread `t` goes to `pc`. -/
def goto (st : Session) (t : ℕ) (pc : CallPc) : Session :=
  { st with threads := Function.update st.threads t pc }

/-- The call of thread `t` returns, and gives the mutex back if it took it. -/
def leave (st : Session) (t : ℕ) (c : FsusCall) (keeps : Bool) : Session :=
  ({ st with
    mutex := if c.locks && !keeps then st.mutex.release t else st.mutex } : Session).goto t .idle

/-- One step. -/
def step (st : Session) : SessionEvent → Option (Session × List SessionObs)
  | .call t c =>
    match st.threads t with
    | .idle => some (st.goto t (if c.locks then .lock c else .send c), [])
    | _ => none
  | .take t =>
    match st.threads t with
    | .lock c => (st.mutex.take t).map fun mutex =>
      (({ st with mutex := mutex } : Session).goto t (.send c), [])
    | _ => none
  | .lockTimeout t =>
    match st.threads t with
    | .lock c => some (st.goto t .idle, [.failed t c .timeout])
    | _ => none
  | .send t =>
    match st.threads t with
    | .send c =>
      some (({ st with requests := st.requests ++ [c] } : Session).goto t
        (.wait c st.requests.length), [])
    | _ => none
  | .answer pkg valid =>
    some ({ st with uart := st.uart ++ [⟨pkg, valid, st.requests.length⟩] }, [])
  | .receive t c0 pkg₀ =>
    match st.threads t, st.uart with
    | .wait c req, r :: uart =>
      match (fsusRecvPackage c0 pkg₀ (r.pkg.frame.map .byte)).2 with
      | .done .success got =>
        some (({ st with uart := uart } : Session).leave t c (c.finish got).keeps,
          [.answered t c req (c.finish got) r])
      | .done status _ =>
        some (({ st with uart := uart } : Session).leave t c false, [.failed t c status])
      | _ => none
    | _, _ => none
  | .timeout t =>
    match st.threads t with
    | .wait c _ => some (st.leave t c false, [.failed t c .timeout])
    | _ => none

/-- Requests and answers take turns: a request is sent when no frame is in the queue and no call
waits, and a frame that comes while a call waits has the command of the request and all bytes that
the call reads. -/
def InOrder (st : Session) : SessionEvent → Prop
  | .send _ => st.uart = [] ∧ ∀ u c req, st.threads u ≠ .wait c req
  | .answer pkg _ => ∀ t c req, st.threads t = .wait c req →
      pkg.cmdId = c.cmdId ∧ c.need ≤ pkg.size.toNat
  | _ => True

/-- One call waits at most, and every frame in the queue answers its request. -/
def Matched (st : Session) : Prop :=
  ∀ t c req, st.threads t = .wait c req →
    (∀ u c' req', st.threads u = .wait c' req' → u = t) ∧
    req < st.requests.length ∧
    ∀ r ∈ st.uart, req < r.stamp ∧ r.pkg.cmdId = c.cmdId ∧ c.need ≤ r.pkg.size.toNat

end Session

/-- A value is reported only from an answer to the request of the call, from the bytes it has. -/
def SessionObs.Matches : SessionObs → Prop
  | .answered _ c req reply r =>
    r.pkg.cmdId = c.cmdId ∧ req < r.stamp ∧ (∀ i ∈ reply.reads, i < r.pkg.size.toNat) ∧
      reply = c.finish r.pkg
  | .failed .. => True

/-! ## What a call reads -/

namespace FsusCall

/-- An answer of the size `need` covers all the places that are read. -/
theorem reads_lt (c : FsusCall) {pkg : Package} (h : c.need ≤ pkg.size.toNat) :
    ∀ i ∈ (c.finish pkg).reads, i < pkg.size.toNat := by
  cases c with
  | ping servoId | resetUserData servoId | writeData servoId address value =>
    simp only [need] at h
    simp only [finish, List.mem_singleton, forall_eq]
    omega
  | readData servoId address =>
    simp only [need] at h
    have hsub : (pkg.size - 2).toNat = pkg.size.toNat - 2 :=
      UInt8.toNat_sub_of_le _ _ (UInt8.le_iff_toNat_le.mpr h)
    intro i hi
    simp only [finish, List.mem_map, List.mem_range, hsub] at hi
    obtain ⟨j, hj, rfl⟩ := hi
    omega
  | queryServoAngle servoId | queryServoAngleMTurn servoId =>
    simp only [need] at h
    simp only [finish]
    split
    · simp only [List.mem_singleton, forall_eq]
      omega
    · intro i hi
      simp only [List.mem_cons, List.not_mem_nil, or_false] at hi
      omega

/-- The result depends only on the bytes of the content that count. -/
theorem finish_congr (c : FsusCall) {p q : Package} (h : p.Same q)
    (hn : c.need ≤ q.size.toNat) (hle : q.size.toNat ≤ 50) : c.finish p = c.finish q := by
  have hget (i : ℕ) (hi : i < q.size.toNat) : p.content[i]? = q.content[i]? := by
    have hb := congrArg (·[i]?) h.bytes
    simp only [Package.bytes, h.size] at hb
    rw [List.getElem?_take_of_lt hi, List.getElem?_take_of_lt hi] at hb
    simpa using hb
  have hget' (i : ℕ) (hi : i < q.size.toNat) (hi' : i < 50) : p.content[i] = q.content[i] := by
    have hb := hget i hi
    rwa [Vector.getElem?_eq_getElem hi', Vector.getElem?_eq_getElem hi', Option.some.injEq] at hb
  cases c with
  | ping servoId =>
    simp only [need] at hn
    simp only [finish, hget' 0 (by omega) (by omega)]
  | resetUserData servoId =>
    simp only [need] at hn
    simp only [finish, hget' 1 (by omega) (by omega)]
  | readData servoId address =>
    simp only [need] at hn
    have hsub : (q.size - 2).toNat = q.size.toNat - 2 :=
      UInt8.toNat_sub_of_le _ _ (UInt8.le_iff_toNat_le.mpr hn)
    simp only [finish, h.size]
    congr 2
    refine List.map_congr_left fun i hi => hget (i + 2) ?_
    rw [List.mem_range, hsub] at hi
    omega
  | writeData servoId address value =>
    simp only [need] at hn
    simp only [finish, hget' 2 (by omega) (by omega)]
  | queryServoAngle servoId =>
    simp only [need] at hn
    simp only [finish, hget' 0 (by omega) (by omega), hget' 1 (by omega) (by omega),
      hget' 2 (by omega) (by omega)]
  | queryServoAngleMTurn servoId =>
    simp only [need] at hn
    simp only [finish, hget' 0 (by omega) (by omega), hget' 1 (by omega) (by omega),
      hget' 2 (by omega) (by omega), hget' 3 (by omega) (by omega), hget' 4 (by omega) (by omega)]

end FsusCall

/-- The first frame: `FSUS_RecvPackage` gives the package back, or reports its checksum. -/
theorem fsusRecvPackage_frame (c0 : UInt8) (pkg₀ : Package) {sent : Package} (h : sent.Valid) :
    ∃ got, got.Same sent ∧
      ((fsusRecvPackage c0 pkg₀ (sent.frame.map .byte)).2 = .done .success got ∨
        (fsusRecvPackage c0 pkg₀ (sent.frame.map .byte)).2 = .done .checksumError got) := by
  have hbytes (bs : List UInt8) : rxBytes (bs.map .byte) = bs := by
    induction bs with
    | nil => rfl
    | cons b bs ih => rw [List.map_cons, rxBytes, ih]
  obtain ⟨got, sum, hsame, -, -, hrun⟩ := recvBytes_frame c0 pkg₀ h []
  rw [List.append_nil, ← hbytes sent.frame] at hrun
  have hdone := recvRun_done hrun
  refine ⟨got, hsame, ?_⟩
  unfold fsusRecvPackage
  rw [hdone]
  by_cases hsum : sum = sent.checksum
  · exact .inl (by rw [if_neg (not_not.mpr hsum)])
  · exact .inr (by rw [if_pos hsum])

/-! ## Runs -/

namespace Session

/-- A thread goes to a place where it does not wait, and frames may go: the rest stays matched. -/
theorem Matched.update {st st' : Session} (h : st.Matched) {t : ℕ} {pc : CallPc}
    (hpc : ∀ c req, pc ≠ .wait c req) (hth : st'.threads = Function.update st.threads t pc)
    (hreq : st'.requests = st.requests) (hu : ∀ r ∈ st'.uart, r ∈ st.uart) : st'.Matched := by
  have hold (u : ℕ) (c : FsusCall) (req : ℕ) (hw : st'.threads u = .wait c req) :
      st.threads u = .wait c req := by
    rw [hth] at hw
    by_cases hut : u = t
    · subst hut
      rw [Function.update_self] at hw
      exact absurd hw (hpc c req)
    · rwa [Function.update_of_ne hut] at hw
  intro u c req hw
  obtain ⟨h1, h2, h3⟩ := h u c req (hold u c req hw)
  exact ⟨fun v c' req' hv => h1 v c' req' (hold v c' req' hv), by rwa [hreq],
    fun r hr => h3 r (hu r hr)⟩

/-- A request that is sent in turn waits alone, and no frame is in the queue. -/
theorem send_matched {st : Session} {t : ℕ} {c : FsusCall} (hu : st.uart = [])
    (hw : ∀ u c req, st.threads u ≠ .wait c req) :
    (({ st with requests := st.requests ++ [c] } : Session).goto t
      (.wait c st.requests.length)).Matched := by
  have honly (u : ℕ) (c' : FsusCall) (req' : ℕ)
      (h : Function.update st.threads t (.wait c st.requests.length) u = .wait c' req') :
      u = t ∧ c' = c ∧ req' = st.requests.length := by
    by_cases hut : u = t
    · subst hut
      rw [Function.update_self, CallPc.wait.injEq] at h
      exact ⟨rfl, h.1.symm, h.2.symm⟩
    · rw [Function.update_of_ne hut] at h
      exact absurd h (hw u c' req')
  intro u c' req' h
  obtain ⟨rfl, rfl, rfl⟩ := honly u c' req' h
  refine ⟨fun v c'' req'' hv => (honly v c'' req'' hv).1, ?_, ?_⟩
  · show st.requests.length < (st.requests ++ [c']).length
    simp
  · intro r hr
    have hnil : r ∈ st.uart := hr
    rw [hu] at hnil
    exact absurd hnil (by simp)

/-- A frame of the servo in turn. -/
theorem answer_matched {st : Session} (h : st.Matched) {pkg : Package} (valid : pkg.Valid)
    (hpkg : ∀ t c req, st.threads t = .wait c req →
      pkg.cmdId = c.cmdId ∧ c.need ≤ pkg.size.toNat) :
    ({ st with uart := st.uart ++ [⟨pkg, valid, st.requests.length⟩] } : Session).Matched := by
  intro t c req hw
  obtain ⟨h1, h2, h3⟩ := h t c req hw
  refine ⟨h1, h2, fun r hr => ?_⟩
  rcases List.mem_append.mp hr with hr | hr
  · exact h3 r hr
  · rw [List.mem_singleton] at hr
    subst hr
    exact ⟨h2, hpkg t c req hw⟩

/-- The first frame is received while its call waits. -/
theorem receive_matches {st st₁ : Session} {t : ℕ} {c0 : UInt8} {pkg₀ : Package}
    {l₁ : List SessionObs} (hI : st.Matched)
    (h : st.step (.receive t c0 pkg₀) = some (st₁, l₁)) :
    st₁.Matched ∧ ∀ o ∈ l₁, o.Matches := by
  simp only [step] at h
  split at h
  next c req r uart hw hu =>
    obtain ⟨-, -, hr⟩ := hI t c req hw
    obtain ⟨hstamp, hcmd, hneed⟩ := hr r (by rw [hu]; simp)
    have htail : ∀ r' ∈ uart, r' ∈ st.uart := fun r' hr' => by
      rw [hu]
      exact List.mem_cons_of_mem r hr'
    obtain ⟨got, hsame, hrun | hrun⟩ := fsusRecvPackage_frame c0 pkg₀ r.valid
    · rw [hrun] at h
      simp only [Option.some.injEq, Prod.mk.injEq] at h
      obtain ⟨rfl, rfl⟩ := h
      refine ⟨hI.update (by simp) rfl rfl htail, fun o ho => ?_⟩
      rw [List.mem_singleton] at ho
      subst ho
      have hfin : c.finish got = c.finish r.pkg := by
        have hle := r.valid.size_toNat.2
        exact c.finish_congr hsame hneed (by omega)
      refine ⟨hcmd, hstamp, ?_, hfin⟩
      rw [hfin]
      exact c.reads_lt hneed
    · rw [hrun] at h
      simp only [Option.some.injEq, Prod.mk.injEq] at h
      obtain ⟨rfl, rfl⟩ := h
      refine ⟨hI.update (by simp) rfl rfl htail, fun o ho => ?_⟩
      rw [List.mem_singleton] at ho
      subst ho
      trivial
  next => cases h

/-- One step in turn. -/
theorem step_matches {st st₁ : Session} {e : SessionEvent} {l₁ : List SessionObs}
    (hI : st.Matched) (hC : st.InOrder e) (h : st.step e = some (st₁, l₁)) :
    st₁.Matched ∧ ∀ o ∈ l₁, o.Matches := by
  cases e with
  | call t c =>
    simp only [step] at h
    split at h
    · cases h
      refine ⟨hI.update (fun c' req => ?_) rfl rfl (fun _ hr => hr), by simp⟩
      split <;> simp
    · cases h
  | take t =>
    simp only [step] at h
    split at h
    · obtain ⟨mutex, -, heq⟩ := Option.map_eq_some_iff.mp h
      cases heq
      exact ⟨hI.update (by simp) rfl rfl (fun _ hr => hr), by simp⟩
    · cases h
  | lockTimeout t =>
    simp only [step] at h
    split at h
    · cases h
      exact ⟨hI.update (by simp) rfl rfl (fun _ hr => hr), by simp [SessionObs.Matches]⟩
    · cases h
  | send t =>
    simp only [step] at h
    split at h
    · cases h
      exact ⟨send_matched hC.1 hC.2, by simp⟩
    · cases h
  | answer pkg valid =>
    cases h
    exact ⟨answer_matched hI valid hC, by simp⟩
  | receive t c0 pkg₀ => exact receive_matches hI h
  | timeout t =>
    simp only [step] at h
    split at h
    · cases h
      exact ⟨hI.update (by simp) rfl rfl (fun _ hr => hr), by simp [SessionObs.Matches]⟩
    · cases h

theorem start_matched : start.Matched := fun _ _ _ h => by simp [start] at h

end Session

/-- In every run in which requests and answers take turns, every value that a call reports with
success, or with the result byte of a failure, is from a frame with the command of its request that
was sent after the request, and from bytes that the frame has. -/
theorem answers_match {es : List SessionEvent} {st : Session} {log : List SessionObs}
    (hrun : runLog Session.step .start es = some (st, log))
    (hall : AllSteps Session.step Session.InOrder .start es) :
    ∀ t c req reply answer, .answered t c req reply answer ∈ log →
      reply.status = .success ∨ reply.status = .fail →
      answer.pkg.cmdId = c.cmdId ∧ req < answer.stamp ∧
        (∀ i ∈ reply.reads, i < answer.pkg.size.toNat) ∧ reply = c.finish answer.pkg := by
  intro t c req reply answer hmem _
  have hgood := (runLog_guarantee (fun _ _ _ _ hI hC h => Session.step_matches hI hC h)
    Session.start_matched hall hrun).2
  exact hgood _ hmem

/-- The answer of servo 0 to `FSUS_ReadData` at address 34, with one byte of data. -/
def dataAnswer : Package := ⟨responseHeader, 3, 3, .ofFn fun i => [0, 34, 7].getD i 0, 0x50, 0⟩

/-- `pingAnswer` with its checksum. -/
def pongFrame : Package := { pingAnswer with checksum := 0x23 }

theorem pongFrame_valid : pongFrame.Valid := ⟨rfl, by decide, by decide, by decide⟩

theorem dataAnswer_valid : dataAnswer.Valid := ⟨rfl, by decide, by decide, by decide⟩

/-- The answers of a history: the call, its request, the status, and the command and the stamp of
the frame. -/
def statuses (log : List SessionObs) : List (FsusCall × ℕ × FsusStatus × UInt8 × ℕ) :=
  log.filterMap fun
    | .answered _ c req reply r => some (c, req, reply.status, r.pkg.cmdId, r.stamp)
    | .failed .. => none

namespace Session

/-- No frame is in the queue, and no call waits. -/
def Quiet (st : Session) : Prop := st.uart = [] ∧ ∀ u c req, st.threads u ≠ .wait c req

theorem receive_threads {st st₁ : Session} {t : ℕ} {c0 : UInt8} {pkg₀ : Package}
    {l₁ : List SessionObs} (h : st.step (.receive t c0 pkg₀) = some (st₁, l₁)) :
    st₁.uart = st.uart.tail ∧ st₁.threads = Function.update st.threads t .idle := by
  simp only [step] at h
  split at h
  next c req r uart hw hu =>
    rw [hu]
    split at h
    · cases h
      exact ⟨rfl, rfl⟩
    · cases h
      exact ⟨rfl, rfl⟩
    · cases h
  next => cases h

/-- A request, its answer and its reception are in order, and leave the line quiet. -/
theorem turn_inOrder {st : Session} {t : ℕ} {c : FsusCall} {pkg : Package} {valid : pkg.Valid}
    {c0 : UInt8} {pkg₀ : Package} {es : List SessionEvent} (hq : st.Quiet)
    (ht : st.threads t = .send c) (hpkg : pkg.cmdId = c.cmdId ∧ c.need ≤ pkg.size.toNat)
    (hes : ∀ st' : Session, st'.Quiet → (∀ u, u ≠ t → st'.threads u = st.threads u) →
      AllSteps step InOrder st' es) :
    AllSteps step InOrder st (.send t :: .answer pkg valid :: .receive t c0 pkg₀ :: es) := by
  refine ⟨hq, fun s₁ l₁ h₁ => ?_⟩
  simp only [step, ht, Option.some.injEq, Prod.mk.injEq] at h₁
  obtain ⟨rfl, -⟩ := h₁
  have hwait : ∀ u c' req, Function.update st.threads t (.wait c st.requests.length) u =
      .wait c' req → c' = c := by
    intro u c' req hw
    by_cases hu : u = t
    · rw [hu, Function.update_self, CallPc.wait.injEq] at hw
      exact hw.1.symm
    · rw [Function.update_of_ne hu] at hw
      exact absurd hw (hq.2 u c' req)
  refine ⟨fun u c' req hw => hwait u c' req hw ▸ hpkg, fun s₂ l₂ h₂ => ⟨trivial, fun s₃ l₃ h₃ => ?_⟩⟩
  cases h₂
  obtain ⟨huart, hthreads⟩ := receive_threads h₃
  have hidle : ∀ u, s₃.threads u = if u = t then .idle else st.threads u := by
    intro u
    rw [hthreads]
    by_cases hu : u = t
    · rw [hu, Function.update_self, if_pos rfl]
    · rw [Function.update_of_ne hu, if_neg hu]
      exact Function.update_of_ne hu _ _
  refine hes s₃ ⟨?_, fun u c' req => ?_⟩ fun u hu => by rw [hidle u, if_neg hu]
  · rw [huart]
    show (st.uart ++ [_]).tail = []
    rw [hq.1]
    rfl
  · rw [hidle u]
    split
    · exact CallPc.noConfusion
    · exact hq.2 u c' req

end Session

/-- Thread 0 pings while thread 1 is about to read data: both are answered in turn. -/
def twoCalls : List SessionEvent :=
  [.call 0 (.ping 0), .take 0, .call 1 (.readData 0 34),
    .send 0, .answer pongFrame pongFrame_valid, .receive 0 0 .zero,
    .send 1, .answer dataAnswer dataAnswer_valid, .receive 1 0 .zero]

theorem answers_match_two :
    ∃ st log, runLog Session.step .start twoCalls = some (st, log) ∧
      statuses log = [(.ping 0, 0, .success, 1, 1), (.readData 0 34, 1, .success, 3, 2)] ∧
      ∀ t c req reply answer, .answered t c req reply answer ∈ log →
        reply.status = .success ∨ reply.status = .fail →
        answer.pkg.cmdId = c.cmdId ∧ req < answer.stamp ∧
          (∀ i ∈ reply.reads, i < answer.pkg.size.toNat) ∧ reply = c.finish answer.pkg := by
  have hlog : (runLog Session.step .start twoCalls).map (statuses ·.2) =
      some [(.ping 0, 0, .success, 1, 1), (.readData 0 34, 1, .success, 3, 2)] := by
    decide +kernel
  obtain ⟨⟨st, log⟩, hrun, h⟩ := Option.map_eq_some_iff.mp hlog
  have hall : AllSteps Session.step Session.InOrder .start twoCalls := by
    refine ⟨trivial, fun _ _ h₁ => ?_⟩
    cases h₁
    refine ⟨trivial, fun _ _ h₂ => ?_⟩
    cases h₂
    refine ⟨trivial, fun _ _ h₃ => ?_⟩
    cases h₃
    refine Session.turn_inOrder ⟨rfl, fun u c req hw => ?_⟩ rfl (by decide) fun st' hq' hth' => ?_
    · by_cases h1 : u = 1 <;> by_cases h0 : u = 0 <;>
        simp [Session.goto, Session.start, FsusCall.locks, h0, h1] at hw
    · exact Session.turn_inOrder hq' (hth' 1 (by decide)) (by decide) fun _ _ _ => trivial
  exact ⟨st, log, hrun, h, answers_match hrun hall⟩

/-- `FSUS_ReadData` times out and its answer comes late: the next `FSUS_Ping` takes it and reports
success, from a frame of another command that was sent before its request. -/
theorem ping_answered_by_stale_data :
    (runLog Session.step .start
        ([.call 0 (.readData 0 34), .send 0, .timeout 0, .answer dataAnswer dataAnswer_valid,
          .call 0 (.ping 0), .take 0, .send 0, .receive 0 0 .zero])).map (statuses ·.2) =
      some [(.ping 0, 1, .success, 3, 1)] ∧
    (FsusCall.ping 0).cmdId ≠ 3 ∧ ¬ 1 < 1 := by
  refine ⟨?_, by decide, by decide⟩
  decide +kernel

end Robot
