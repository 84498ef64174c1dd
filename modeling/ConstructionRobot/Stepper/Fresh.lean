import ConstructionRobot.Stepper.Lock

/-!
# Fresh telemetry

What the loop stores in a motor is decoded from `rxCmd`. The bytes it decodes are `Telemetry.used`
(`assign_congr`); they are from the read of this iteration only if that read got them all, and the
answer is the one asked for only if its function code is looked at.

* `Stepper.FreshInv`: while an answer is read and decoded the state is the one it was asked for
  in, since the loop has the mutex, and the first bytes of `rxCmd` are those of the last read.
* `step_fresh_iff`: one step, up to an answer that is read and not decoded yet (`Pending`).
* `telemetry_fresh_iff`: every run.
-/

namespace Robot

namespace Telemetry

/-- The places of `rxCmd` that are decoded: address, function code and data. -/
def used : Telemetry → List (Fin 128)
  | cpha => [0, 1, 2, 3]
  | vel => [0, 1, 2, 3, 4]
  | cpos | perr => [0, 1, 2, 3, 4, 5, 6]
  | flag | org => [0, 1, 2]

/-- The assignments depend on these places alone. -/
theorem assign_congr (k : Telemetry) {rx rx' : RxCmd} (h : ∀ i ∈ k.used, rx[i] = rx'[i])
    (m : StepperMotor) : k.assign rx m = k.assign rx' m := by
  have h2 : rx[2] = rx'[2] := h 2 (by cases k <;> decide)
  cases k with
  | cpha =>
    have h3 : rx[3] = rx'[3] := h 3 (by decide)
    have hword : rx.word 2 = rx'.word 2 :=
      congrArg₂ (fun a b : UInt8 => UInt16.ofNat (a.toNat * 256 + b.toNat)) h2 h3
    rw [assign, assign, hword]
  | vel =>
    have h3 : rx[3] = rx'[3] := h 3 (by decide)
    have h4 : rx[4] = rx'[4] := h 4 (by decide)
    have hword : rx.word 3 = rx'.word 3 :=
      congrArg₂ (fun a b : UInt8 => UInt16.ofNat (a.toNat * 256 + b.toNat)) h3 h4
    rw [assign, assign, hword, h2]
  | cpos | perr =>
    have h3 : rx[3] = rx'[3] := h 3 (by decide)
    have h4 : rx[4] = rx'[4] := h 4 (by decide)
    have h5 : rx[5] = rx'[5] := h 5 (by decide)
    have h6 : rx[6] = rx'[6] := h 6 (by decide)
    have hdeg : rx.degrees = rx'.degrees := by
      unfold RxCmd.degrees
      rw [h3, h4, h5, h6]
    rw [assign, assign, hdeg, h2]
  | flag | org => rw [assign, assign, h2]

/-- They are all but the last byte of the answer. -/
theorem used_lt_iff (k : Telemetry) (n : ℕ) : (∀ i ∈ k.used, i.val < n) ↔ k.len ≤ n + 1 := by
  cases k <;> simp [used, len] <;> omega

/-- The function code of an answer that is checked is the one that was sent. -/
theorem checked_code {k : Telemetry} {code : UInt8} (h : code ∈ k.checked) :
    k.sysParams.functionCode = [code] := by
  cases k <;> simp_all [checked, sysParams, SysParams.functionCode]

/-- The answer `k` in `rx`, asked for in state `s`, is from the bytes `got` and has the function
code of `s`. -/
def FreshIn (k : Telemetry) (s : SysParams) (got : List UInt8) (rx : RxCmd) : Prop :=
  (∀ i ∈ k.used, got[i.val]? = some (rx.get i)) ∧ s.functionCode = [rx.get 1]

end Telemetry

/-- Assignments from bytes of this iteration, with the function code that was sent. -/
def StepObs.Fresh : StepObs → Prop
  | .iteration .. => True
  | .assigned k s got rx => k.FreshIn s got rx

/-- The bytes of a read stand at the start of `rxCmd`, the places behind them keep theirs: only
the places of the read are fresh. -/
theorem RxCmd.read_fresh_iff (rx : RxCmd) (got : List UInt8) (i : Fin 128) :
    got[i.val]? = some ((rx.read got).get i) ↔ i.val < got.length := by
  have hget : (rx.read got).get i = if h : i.val < got.length then got[i.val] else rx[i.val] := by
    show (rx.read got)[i.val] = _
    simp [RxCmd.read]
  rw [hget]
  by_cases h : i.val < got.length
  · rw [dif_pos h]
    exact iff_of_true (List.getElem?_eq_getElem h) h
  · rw [dif_neg h, List.getElem?_eq_none (by omega)]
    exact iff_of_false (by simp) h

namespace Stepper

/-- A read that is decoded: `uart` has all bytes but the last, and an answer whose function code is
not checked has the right one. -/
def FreshRead (st : Stepper) : StepEvent → Prop
  | .loop =>
    match st.loop with
    | .read k =>
      k.Accepts (st.rxCmd.read (st.uart.take k.len)) →
        k.len ≤ st.uart.length + 1 ∧
          (k.checked = none →
            k.sysParams.functionCode = [(st.rxCmd.read (st.uart.take k.len)).get 1])
    | _ => True
  | _ => True

instance (st : Stepper) : (e : StepEvent) → Decidable (st.FreshRead e)
  | .loop =>
    match hl : st.loop with
    | .read k =>
      decidable_of_iff (k.Accepts (st.rxCmd.read (st.uart.take k.len)) →
        k.len ≤ st.uart.length + 1 ∧ (k.checked = none →
          k.sysParams.functionCode = [(st.rxCmd.read (st.uart.take k.len)).get 1]))
        (by simp [FreshRead, hl])
    | .waitStep | .waitMutex | .waitCmp | .dispatch | .decode _ _ =>
      isTrue (by simp [FreshRead, hl])
  | .call _ _ | .sender _ | .arrive _ | .indicate _ => isTrue trivial

/-- The answer that waits to be decoded will be fresh. -/
def Pending (st : Stepper) : Prop :=
  ∀ k got, st.loop = .decode k got → k.Accepts st.rxCmd → k.FreshIn k.sysParams got st.rxCmd

/-- The loop has read for answer `k`, or is about to. -/
def Busy (st : Stepper) (k : Telemetry) : Prop :=
  st.loop = .read k ∨ ∃ got, st.loop = .decode k got

end Stepper

/-- The sender has the mutex. -/
def SenderPc.Locked : SenderPc → Prop
  | .set _ | .transmit | .unlock => True
  | _ => False

/-- The invariant of the system. -/
structure Stepper.FreshInv (st : Stepper) : Prop where
  lock : st.LockInv
  senders : ∀ i, (st.senders i).Locked → 0 < st.mutex.held (.sender i)
  state : ∀ k, st.Busy k → st.cmdState = k.sysParams

namespace Stepper

theorem start_freshInv (motors : Arm → StepperMotor) (uart : List UInt8) :
    (start motors uart).FreshInv := by
  refine ⟨trivial, fun i hi => hi.elim, fun k hk => ?_⟩
  rcases hk with h | ⟨got, h⟩
  · exact absurd h (by simp [start])
  · exact absurd h (by simp [start])

/-! ## Steps of the loop -/

/-- The loop leaves the senders alone, and their holds. -/
theorem LoopCase.senders {st st₁ : Stepper} {l₁ : List StepObs} (h : LoopCase st st₁ l₁) :
    st₁.senders = st.senders ∧ ∀ i, st₁.mutex.held (.sender i) = st.mutex.held (.sender i) := by
  cases h with
  | lock hl hm =>
    refine ⟨rfl, fun i => ?_⟩
    obtain ⟨h1, h2⟩ := Mutex.held_take_ne hm (u := .sender i) (by simp)
    exact h1.trans h2.symm
  | give uart s hl hc => exact ⟨rfl, fun i => Mutex.held_release_ne _ (by simp)⟩
  | assign k got arm hl hc => exact ⟨rfl, fun i => Mutex.held_release_ne _ (by simp)⟩
  | first hl => exact ⟨rfl, fun _ => rfl⟩
  | wake hl => exact ⟨rfl, fun _ => rfl⟩
  | reply k hl hs hc => exact ⟨rfl, fun _ => rfl⟩
  | fetch k hl => exact ⟨by simp only [readReply], fun _ => by simp only [readReply]⟩
  | keep uart hl => exact ⟨rfl, fun _ => rfl⟩

/-- The loop reads and decodes for the state that it found. -/
theorem LoopCase.busy {st st₁ : Stepper} {l₁ : List StepObs} (h : LoopCase st st₁ l₁)
    (hst : ∀ k, st.Busy k → st.cmdState = k.sysParams) :
    ∀ k, st₁.Busy k → st₁.cmdState = k.sysParams := by
  intro k hk
  cases h with
  | reply k' hl hs hc =>
    rcases hk with h | ⟨got, h⟩
    · cases h
      exact hs
    · cases h
  | fetch k' hl =>
    have hkk : k' = k := by
      rcases hk with h | ⟨got, h⟩
      · simp [readReply] at h
      · simp only [readReply, LoopPc.decode.injEq] at h
        exact h.1
    subst hkk
    simp only [readReply]
    exact hst k' (.inl hl)
  | first hl | lock hl hm | wake hl | keep uart hl | give uart s hl hc | assign k' got arm hl hc =>
    rcases hk with h | ⟨got, h⟩ <;> cases h

/-- A read makes fresh what is decoded exactly if it meets `FreshRead`. -/
theorem readReply_pending_iff {st : Stepper} {k : Telemetry} (hl : st.loop = .read k) :
    (st.readReply k).Pending ↔ st.FreshRead .loop := by
  have hdef : (st.readReply k).Pending ↔
      (k.Accepts (st.rxCmd.read (st.uart.take k.len)) →
        k.FreshIn k.sysParams (st.uart.take k.len) (st.rxCmd.read (st.uart.take k.len))) := by
    constructor
    · intro hp
      exact hp k _ (by simp only [readReply])
    · intro hp k' got hl'
      simp only [readReply, LoopPc.decode.injEq] at hl'
      obtain ⟨rfl, rfl⟩ := hl'
      exact hp
  rw [hdef]
  simp only [FreshRead, hl]
  refine forall_congr' fun hacc => ?_
  unfold Telemetry.FreshIn
  simp only [RxCmd.read_fresh_iff]
  rw [k.used_lt_iff, List.length_take]
  refine and_congr (by omega) ⟨fun hcode _ => hcode, fun hcode => ?_⟩
  cases hk : k.checked with
  | none => exact hcode hk
  | some code =>
    rw [Telemetry.checked_code (show code ∈ k.checked from hk), ← hacc.2 code hk]
    rfl

/-- A step that neither comes from an answer that is read nor leads to one. -/
theorem fresh_iff_of_quiet {st st₁ : Stepper} {l₁ : List StepObs} (hobs : ∀ o ∈ l₁, o.Fresh)
    (h₁ : ∀ k got, st₁.loop ≠ .decode k got) (h : ∀ k got, st.loop ≠ .decode k got)
    (hF : st.FreshRead .loop) :
    ((∀ o ∈ l₁, o.Fresh) ∧ st₁.Pending) ↔ (st.Pending ∧ st.FreshRead .loop) :=
  iff_of_true ⟨hobs, fun k got hd => absurd hd (h₁ k got)⟩
    ⟨fun k got hd => absurd hd (h k got), hF⟩

theorem LoopCase.fresh_iff {st st₁ : Stepper} {l₁ : List StepObs} (h : LoopCase st st₁ l₁)
    (hst : ∀ k, st.Busy k → st.cmdState = k.sysParams) :
    ((∀ o ∈ l₁, o.Fresh) ∧ st₁.Pending) ↔ (st.Pending ∧ st.FreshRead .loop) := by
  cases h with
  | first hl =>
    exact fresh_iff_of_quiet (by simp) (by simp) (by simp [hl]) (by simp [FreshRead, hl])
  | lock hl hm =>
    exact fresh_iff_of_quiet (by simp) (by simp) (by simp [hl]) (by simp [FreshRead, hl])
  | wake hl => exact fresh_iff_of_quiet (by simp) (by simp) (by simp [hl]) (by simp [FreshRead, hl])
  | reply k hl hs hc =>
    exact fresh_iff_of_quiet (by simp) (by simp) (by simp [hl]) (by simp [FreshRead, hl])
  | fetch k hl =>
    have hp : st.Pending := by
      intro k' got hd
      rw [hl] at hd
      cases hd
    simp only [List.not_mem_nil, false_implies, implies_true, true_and, hp]
    exact readReply_pending_iff hl
  | keep uart hl =>
    rcases hl with ⟨hl, -⟩ | ⟨k, got, hl, hn⟩
    · exact fresh_iff_of_quiet (by simp [StepObs.Fresh]) (by simp) (by simp [hl])
        (by simp [FreshRead, hl])
    · -- the answer is not accepted, so nothing is decoded from it
      refine iff_of_true ⟨by simp [StepObs.Fresh], by simp [Pending]⟩
        ⟨fun k' got' hl' hacc => ?_, by simp [FreshRead, hl]⟩
      rw [hl, LoopPc.decode.injEq] at hl'
      rw [← hl'.1] at hacc
      exact absurd hacc hn
  | give uart s hl hc =>
    exact fresh_iff_of_quiet (by simp [StepObs.Fresh]) (by simp) (by simp [hl])
      (by simp [FreshRead, hl])
  | assign k got arm hl hc =>
    have hs := hst k (.inr ⟨got, hl⟩)
    have hF : st.FreshRead .loop := by simp [FreshRead, hl]
    have hrest : Pending { st with
        motors := Function.update st.motors arm (k.assign st.rxCmd (st.motors arm))
        cmdState := .idle, mutex := st.mutex.release .receiver, loop := .waitStep } := by
      simp [Pending]
    rw [and_iff_left hrest, and_iff_left hF]
    constructor
    · intro hall k' got' hl' _
      rw [hl, LoopPc.decode.injEq] at hl'
      have hfresh : k.FreshIn st.cmdState got st.rxCmd := hall (.assigned _ _ _ _) (by simp)
      rw [hs] at hfresh
      rwa [← hl'.1, ← hl'.2]
    · intro hp o ho
      rcases List.mem_pair.mp ho with rfl | rfl
      · show k.FreshIn st.cmdState got st.rxCmd
        rw [hs]
        exact hp k got hl hc
      · trivial

/-! ## Steps of the senders -/

/-- While the loop reads and decodes, no sender has the mutex. -/
theorem FreshInv.not_locked {st : Stepper} (hI : st.FreshInv) {k : Telemetry} (hk : st.Busy k)
    (i : ℕ) : ¬ (st.senders i).Locked := by
  intro hlock
  have hsender := hI.senders i hlock
  have hloop : 0 < st.mutex.held .receiver := by
    have hheld := hI.lock
    unfold LockInv at hheld
    rcases hk with hl | ⟨got, hl⟩
    · simp only [hl] at hheld
      omega
    · simp only [hl] at hheld
      omega
  have hzero := st.mutex.held_eq_zero_of_ne hloop (u := .sender i) (by simp)
  omega

/-- The sender of thread `i` goes to `pc` and the mutex changes for its own holds at most: the
holds of the other senders stay. -/
theorem locked_update {st : Stepper} {i : ℕ} {pc : SenderPc} {mutex : Mutex StepTid}
    (hI : ∀ j, (st.senders j).Locked → 0 < st.mutex.held (.sender j))
    (hi : pc.Locked → 0 < mutex.held (.sender i))
    (hj : ∀ j, j ≠ i → 0 < st.mutex.held (.sender j) → 0 < mutex.held (.sender j)) :
    ∀ j, (Function.update st.senders i pc j).Locked → 0 < mutex.held (.sender j) := by
  intro j hlock
  by_cases hji : j = i
  · subst hji
    rw [Function.update_self] at hlock
    exact hi hlock
  · rw [Function.update_of_ne hji] at hlock
    exact hj j hji (hI j hlock)

theorem senderStep_freshInv {st st₁ : Stepper} {i : ℕ} (hI : st.FreshInv)
    (h : st.senderStep i = some st₁) : st₁.FreshInv := by
  obtain ⟨hl, hh, -, hheld⟩ := senderStep_frame h
  have hlock : st₁.LockInv := by
    have hlock := hI.lock
    unfold LockInv at hlock ⊢
    rwa [hl, hh, hheld]
  have hbusy (k : Telemetry) : st₁.Busy k ↔ st.Busy k := by
    unfold Busy
    rw [hl]
  unfold senderStep at h
  cases hs : st.senders i with
  | idle => simp [hs] at h
  | take s =>
    simp only [hs] at h
    obtain ⟨mutex, hm, rfl⟩ := Option.map_eq_some_iff.mp h
    refine ⟨hlock, locked_update hI.senders (fun _ => ?_) fun j hj hpos => ?_,
      fun k hk => hI.state k ((hbusy k).mp hk)⟩
    · rw [Mutex.held_take hm]
      omega
    · -- the mutex was free: no other sender had it
      obtain ⟨-, hzero⟩ := Mutex.held_take_ne hm (u := .sender j) (by simpa using hj)
      omega
  | set s =>
    have hset : (st.senders i).Locked := by
      rw [hs]
      trivial
    simp only [hs, Option.some.injEq] at h
    subst h
    refine ⟨hlock, locked_update hI.senders (fun _ => hI.senders i hset) fun _ _ hpos => hpos, ?_⟩
    -- the state changes, so the loop is not at an answer
    intro k hk
    exact absurd hset (hI.not_locked ((hbusy k).mp hk) i)
  | transmit =>
    have hset : (st.senders i).Locked := by
      rw [hs]
      trivial
    simp only [hs, Option.some.injEq] at h
    subst h
    exact ⟨hlock, locked_update hI.senders (fun _ => hI.senders i hset) fun _ _ hpos => hpos,
      fun k hk => hI.state k ((hbusy k).mp hk)⟩
  | unlock =>
    simp only [hs, Option.some.injEq] at h
    subst h
    refine ⟨hlock, locked_update hI.senders (fun hp => hp.elim) fun j hj hpos => ?_,
      fun k hk => hI.state k ((hbusy k).mp hk)⟩
    rwa [Mutex.held_release_ne _ (by simpa using hj)]
  | post =>
    simp only [hs, Option.some.injEq] at h
    subst h
    exact ⟨hlock, locked_update hI.senders (fun hp => hp.elim) fun _ _ hpos => hpos,
      fun k hk => hI.state k ((hbusy k).mp hk)⟩

/-! ## One step, and runs -/

/-- Every step keeps the invariant. -/
theorem step_freshInv {st st₁ : Stepper} {e : StepEvent} {l₁ : List StepObs} (hI : st.FreshInv)
    (h : st.step e = some (st₁, l₁)) : st₁.FreshInv := by
  have hlock := (step_balanced_iff hI.lock h).1
  cases e with
  | call i s =>
    simp only [step] at h
    split at h
    · cases h
      exact ⟨hlock, locked_update hI.senders (fun hp => hp.elim) fun _ _ hpos => hpos, hI.state⟩
    · cases h
  | sender i =>
    obtain ⟨st', hs, heq⟩ := Option.map_eq_some_iff.mp h
    cases heq
    exact senderStep_freshInv hI hs
  | arrive bs =>
    cases h
    exact ⟨hlock, hI.senders, hI.state⟩
  | indicate size =>
    obtain ⟨st', hs, heq⟩ := Option.map_eq_some_iff.mp h
    cases heq
    rw [callback_frame hs] at hlock ⊢
    exact ⟨hlock, hI.senders, hI.state⟩
  | loop =>
    have hcase := loopStep_case h
    obtain ⟨hsend, hheld⟩ := hcase.senders
    refine ⟨hlock, fun i hi => ?_, hcase.busy hI.state⟩
    rw [hheld i]
    rw [hsend] at hi
    exact hI.senders i hi

/-- Only the loop changes `rxCmd` and its own place. -/
theorem step_pending {st st₁ : Stepper} {e : StepEvent} {l₁ : List StepObs} (he : e ≠ .loop)
    (h : st.step e = some (st₁, l₁)) : st₁.Pending ↔ st.Pending := by
  obtain ⟨hl, -, hrx, -⟩ := step_frame he h
  unfold Pending
  rw [hl, hrx]

theorem step_fresh_iff {st st₁ : Stepper} {e : StepEvent} {l₁ : List StepObs} (hI : st.FreshInv)
    (h : st.step e = some (st₁, l₁)) :
    st₁.FreshInv ∧ (((∀ o ∈ l₁, o.Fresh) ∧ st₁.Pending) ↔ (st.Pending ∧ st.FreshRead e)) := by
  refine ⟨step_freshInv hI h, ?_⟩
  by_cases he : e = .loop
  · subst he
    exact (loopStep_case h).fresh_iff hI.state
  · obtain ⟨-, -, -, -, rfl⟩ := step_frame he h
    have hF : st.FreshRead e := by
      cases e with
      | loop => exact absurd rfl he
      | call i s => trivial
      | sender i => trivial
      | arrive bs => trivial
      | indicate size => trivial
    rw [and_iff_left hF, step_pending he h]
    simp

end Stepper

/-- In every run whose reads meet `FreshRead`, every field of a motor is assigned from bytes read in
the same iteration, with the function code that was sent for the state; and a run that is not
between a read and its decoding has no other. -/
theorem telemetry_fresh_iff {motors : Arm → StepperMotor} {uart : List UInt8}
    {es : List StepEvent} {st : Stepper} {log : List StepObs}
    (hrun : runLog Stepper.step (.start motors uart) es = some (st, log)) :
    (AllSteps Stepper.step Stepper.FreshRead (.start motors uart) es →
      ∀ k s got rx, .assigned k s got rx ∈ log →
        (∀ i ∈ k.used, got[i.val]? = some (rx.get i)) ∧ s.functionCode = [rx.get 1]) ∧
    ((∀ k got, st.loop ≠ .decode k got) →
      (∀ k s got rx, .assigned k s got rx ∈ log →
        (∀ i ∈ k.used, got[i.val]? = some (rx.get i)) ∧ s.functionCode = [rx.get 1]) →
      AllSteps Stepper.step Stepper.FreshRead (.start motors uart) es) := by
  have hstart : (Stepper.start motors uart).Pending := fun k got hl => by simp [Stepper.start] at hl
  have hiff := runLog_iff (fun _ _ _ _ hI h => Stepper.step_fresh_iff hI h)
    (Stepper.start_freshInv motors uart) hrun
  rw [and_iff_right hstart] at hiff
  constructor
  · intro hall k s got rx hmem
    exact (hiff.mpr hall).1 _ hmem
  · intro hdone hgood
    refine hiff.mp ⟨fun o ho => ?_, fun k got hl => absurd hl (hdone k got)⟩
    cases o with
    | iteration before after => trivial
    | assigned k s got rx => exact hgood k s got rx ho

/-- An answer of motor 1 with its position. -/
def posAnswer : List UInt8 := [0x01, 0x36, 0x00, 0x00, 0x01, 0x00, 0x00, 0x6B]

/-- The assignments of a history: the answer, the bytes that were read and the function code. -/
def assignments (log : List StepObs) : List (Telemetry × List UInt8 × UInt8) :=
  log.filterMap fun
    | .iteration .. => none
    | .assigned k _ got rx => some (k, got, rx.get 1)

/-- The position is asked for and answered. -/
theorem telemetry_fresh_iff_position :
    ∃ st log, runLog Stepper.step (.start zeroMotors []) (exchange 0 .cpos posAnswer 6) =
        some (st, log) ∧
      assignments log = [(.cpos, posAnswer, 0x36)] ∧
      AllSteps Stepper.step Stepper.FreshRead (.start zeroMotors [])
        (exchange 0 .cpos posAnswer 6) ∧
      ∀ k s got rx, .assigned k s got rx ∈ log →
        (∀ i ∈ k.used, got[i.val]? = some (rx.get i)) ∧ s.functionCode = [rx.get 1] := by
  have hall : AllSteps Stepper.step Stepper.FreshRead (.start zeroMotors [])
      (exchange 0 .cpos posAnswer 6) := by
    decide +kernel
  have hlog : (runLog Stepper.step (.start zeroMotors [])
      (exchange 0 .cpos posAnswer 6)).map (assignments ·.2) =
        some [(.cpos, posAnswer, 0x36)] := by
    decide +kernel
  obtain ⟨⟨st, log⟩, hrun, h⟩ := Option.map_eq_some_iff.mp hlog
  exact ⟨st, log, hrun, h, hall, (telemetry_fresh_iff hrun).1 hall⟩

/-- The position error is asked for and a position comes: it is stored as the error. Then the
callback comes twice for one position: the next iteration for a position reads no byte and stores
the old ones. -/
theorem telemetry_stale :
    (runLog Stepper.step (.start zeroMotors []) (exchange 0 .perr posAnswer 6)).map
        (assignments ·.2) = some [(.perr, posAnswer, 0x36)] ∧
    SysParams.perr.functionCode ≠ [0x36] ∧
    (runLog Stepper.step (.start zeroMotors [])
        (.call 0 .cpos :: List.replicate 5 (.sender 0) ++
          [.arrive posAnswer, .indicate 8, .indicate 8] ++ List.replicate 6 .loop ++
          .call 0 .cpos :: List.replicate 5 (.sender 0) ++ List.replicate 6 .loop)).map
        (assignments ·.2) = some [(.cpos, posAnswer, 0x36), (.cpos, [], 0x36)] := by
  refine ⟨?_, ?_, ?_⟩
  · decide +kernel
  · decide
  · decide +kernel

end Robot
