import ConstructionRobot.Stepper.Basic

/-!
# The lock of the stepper loop

An iteration of the loop takes `mutex_step` once. Only some of the paths through its `switch` give
it back: an answer to a command, a state without a name, and an answer that is complete, comes from
one of the motors and, where it is checked, has the right function code. On every other path the
loop keeps the mutex, and every sender waits.

* `Stepper.LockInv`: the holds of the loop, at each of its places.
* `step_balanced_iff`: a step ends an iteration with the holds it began with exactly if it meets
  `GivesBack`.
* `iterations_balanced_iff`: the same for every run; and then the mutex is not with the loop
  between two iterations.
-/

namespace Robot

/-- An iteration that ends with the holds it began with. -/
def StepObs.Balanced : StepObs → Prop
  | .iteration before after => after = before
  | .assigned .. => True

namespace Stepper

/-- The place of the loop is on a path to the `rt_mutex_release`. -/
def GivesBack (st : Stepper) : StepEvent → Prop
  | .loop =>
    match st.loop with
    | .dispatch => st.Answered
    | .decode k _ => k.Accepts st.rxCmd
    | _ => True
  | _ => True

instance (st : Stepper) : (e : StepEvent) → Decidable (st.GivesBack e)
  | .loop =>
    match hl : st.loop with
    | .dispatch => decidable_of_iff st.Answered (by simp [GivesBack, hl])
    | .decode k _ => decidable_of_iff (k.Accepts st.rxCmd) (by simp [GivesBack, hl])
    | .waitStep | .waitMutex | .waitCmp | .read _ => isTrue (by simp [GivesBack, hl])
  | .call _ _ | .sender _ | .arrive _ | .indicate _ => isTrue trivial

/-- The holds of the loop: one more than at the start of the iteration, from its `rt_mutex_take`
on. -/
def LockInv (st : Stepper) : Prop :=
  match st.loop with
  | .waitStep => True
  | .waitMutex => st.mutex.held .receiver = st.held₀
  | _ => st.mutex.held .receiver = st.held₀ + 1

/-! ## One step -/

/-- One step of the loop. -/
theorem loopStep_balanced_iff {st st₁ : Stepper} {l₁ : List StepObs} (hI : st.LockInv)
    (h : LoopCase st st₁ l₁) :
    st₁.LockInv ∧ ((∀ o ∈ l₁, o.Balanced) ↔ st.GivesBack .loop) := by
  unfold LockInv at hI
  cases h with
  | first hl => exact ⟨rfl, iff_of_true (by simp) (by simp [GivesBack, hl])⟩
  | lock hl hm =>
    simp only [hl] at hI
    refine ⟨?_, iff_of_true (by simp) (by simp [GivesBack, hl])⟩
    show Mutex.held _ StepTid.receiver = st.held₀ + 1
    rw [Mutex.held_take hm, hI]
  | wake hl =>
    simp only [hl] at hI
    exact ⟨hI, iff_of_true (by simp) (by simp [GivesBack, hl])⟩
  | reply k hl hs hc =>
    simp only [hl] at hI
    exact ⟨hI, iff_of_true (by simp) (by simpa only [GivesBack, hl] using hc)⟩
  | fetch k hl =>
    simp only [hl] at hI
    refine ⟨?_, iff_of_true (by simp) (by simp [GivesBack, hl])⟩
    simp only [LockInv, readReply]
    exact hI
  | keep uart hl =>
    -- the hold of this iteration is still there
    have hheld : st.mutex.held .receiver = st.held₀ + 1 := by
      rcases hl with ⟨hl, -⟩ | ⟨k, got, hl, -⟩
      · simpa only [hl] using hI
      · simpa only [hl] using hI
    refine ⟨trivial, iff_of_false ?_ ?_⟩
    · intro hall
      have hbal : st.mutex.held .receiver = st.held₀ := hall (.iteration _ _) (by simp)
      omega
    · rcases hl with ⟨hl, hn⟩ | ⟨k, got, hl, hn⟩
      · simpa only [GivesBack, hl] using hn
      · simpa only [GivesBack, hl] using hn
  | give uart s hl hc =>
    simp only [hl] at hI
    refine ⟨trivial, iff_of_true ?_ (by simpa only [GivesBack, hl] using hc)⟩
    intro o ho
    rw [List.mem_singleton] at ho
    subst ho
    show Mutex.held _ StepTid.receiver = st.held₀
    rw [Mutex.held_release, hI, Nat.add_sub_cancel]
  | assign k got arm hl hc =>
    simp only [hl] at hI
    refine ⟨trivial, iff_of_true ?_ (by simpa only [GivesBack, hl] using hc)⟩
    intro o ho
    rcases List.mem_pair.mp ho with rfl | rfl
    · trivial
    · show Mutex.held _ StepTid.receiver = st.held₀
      rw [Mutex.held_release, hI, Nat.add_sub_cancel]

/-- A sender leaves the holds of the loop, its place and its bytes alone. -/
theorem senderStep_frame {st st₁ : Stepper} {i : ℕ} (h : st.senderStep i = some st₁) :
    st₁.loop = st.loop ∧ st₁.held₀ = st.held₀ ∧ st₁.rxCmd = st.rxCmd ∧
      st₁.mutex.held .receiver = st.mutex.held .receiver := by
  unfold senderStep at h
  cases hs : st.senders i with
  | idle => simp [hs] at h
  | take s =>
    simp only [hs] at h
    obtain ⟨mutex, hm, rfl⟩ := Option.map_eq_some_iff.mp h
    obtain ⟨h1, h2⟩ := Mutex.held_take_ne hm (u := .receiver) (by simp)
    exact ⟨rfl, rfl, rfl, h1.trans h2.symm⟩
  | set s | transmit | post =>
    simp only [hs] at h
    cases h
    exact ⟨rfl, rfl, rfl, rfl⟩
  | unlock =>
    simp only [hs] at h
    cases h
    exact ⟨rfl, rfl, rfl, Mutex.held_release_ne _ (by simp)⟩

/-- The callback changes only `rxCount` and `cmp_sem`. -/
theorem callback_frame {st st₁ : Stepper} {size : ℕ} (h : st.callback size = some st₁) :
    st₁ = { st with rxCount := st₁.rxCount, cmpSem := st₁.cmpSem } := by
  unfold callback at h
  split at h
  · cases h
  · cases h
    rfl

/-- Every step that is not one of the loop leaves the place, the bytes and the holds of the loop
alone, and shows nothing. -/
theorem step_frame {st st₁ : Stepper} {e : StepEvent} {l₁ : List StepObs} (he : e ≠ .loop)
    (h : st.step e = some (st₁, l₁)) :
    st₁.loop = st.loop ∧ st₁.held₀ = st.held₀ ∧ st₁.rxCmd = st.rxCmd ∧
      st₁.mutex.held .receiver = st.mutex.held .receiver ∧ l₁ = [] := by
  cases e with
  | call i s =>
    simp only [step] at h
    split at h
    · cases h
      exact ⟨rfl, rfl, rfl, rfl, rfl⟩
    · cases h
  | sender i =>
    obtain ⟨st', hs, heq⟩ := Option.map_eq_some_iff.mp h
    cases heq
    obtain ⟨h1, h2, h3, h4⟩ := senderStep_frame hs
    exact ⟨h1, h2, h3, h4, rfl⟩
  | arrive bs =>
    cases h
    exact ⟨rfl, rfl, rfl, rfl, rfl⟩
  | indicate size =>
    obtain ⟨st', hs, heq⟩ := Option.map_eq_some_iff.mp h
    cases heq
    rw [callback_frame hs]
    exact ⟨rfl, rfl, rfl, rfl, rfl⟩
  | loop => exact absurd rfl he

/-- One step of the system. -/
theorem step_balanced_iff {st st₁ : Stepper} {e : StepEvent} {l₁ : List StepObs}
    (hI : st.LockInv) (h : st.step e = some (st₁, l₁)) :
    st₁.LockInv ∧ ((∀ o ∈ l₁, o.Balanced) ↔ st.GivesBack e) := by
  by_cases he : e = .loop
  · subst he
    exact loopStep_balanced_iff hI (loopStep_case h)
  · obtain ⟨hl, hh, -, hm, rfl⟩ := step_frame he h
    refine ⟨?_, iff_of_true (by simp) ?_⟩
    · unfold LockInv at hI ⊢
      rwa [hl, hh, hm]
    · cases e with
      | loop => exact absurd rfl he
      | call i s => trivial
      | sender i => trivial
      | arrive bs => trivial
      | indicate size => trivial

/-! ## Between two iterations -/

/-- The loop has no hold between two iterations, and had none when this one began. -/
def AtRest (st : Stepper) : Prop :=
  if st.loop = .waitStep then st.mutex.held .receiver = 0 else st.held₀ = 0

theorem step_atRest {st st₁ : Stepper} {e : StepEvent} {l₁ : List StepObs} (hI : st.AtRest)
    (hbal : ∀ o ∈ l₁, o.Balanced) (h : st.step e = some (st₁, l₁)) : st₁.AtRest := by
  by_cases he : e = .loop
  · subst he
    unfold AtRest at hI
    -- an iteration that ends gives its holds to the next one
    have hend (after : ℕ) (hl : st.loop ≠ .waitStep) (hmem : .iteration st.held₀ after ∈ l₁) :
        after = 0 := by
      rw [if_neg hl] at hI
      have hb : after = st.held₀ := hbal _ hmem
      rw [hb, hI]
    cases loopStep_case h with
    | first hl =>
      rw [if_pos hl] at hI
      exact hI
    | lock hl hm =>
      rw [if_neg (by simp [hl])] at hI
      exact hI
    | wake hl =>
      rw [if_neg (by simp [hl])] at hI
      exact hI
    | reply k hl hs hc =>
      rw [if_neg (by simp [hl])] at hI
      exact hI
    | fetch k hl =>
      rw [if_neg (by simp [hl])] at hI
      rw [AtRest, if_neg (by simp [readReply])]
      simp only [readReply]
      exact hI
    | keep uart hl =>
      refine hend _ ?_ (by simp)
      rcases hl with ⟨hl, -⟩ | ⟨k, got, hl, -⟩ <;> simp [hl]
    | give uart s hl hc => exact hend _ (by simp [hl]) (by simp)
    | assign k got arm hl hc => exact hend _ (by simp [hl]) (by simp)
  · obtain ⟨hl, hh, -, hm, -⟩ := step_frame he h
    unfold AtRest at hI ⊢
    rwa [hl, hh, hm]

/-! ## Runs -/

theorem start_lockInv (motors : Arm → StepperMotor) (uart : List UInt8) :
    (start motors uart).LockInv := trivial

theorem start_atRest (motors : Arm → StepperMotor) (uart : List UInt8) :
    (start motors uart).AtRest := rfl

end Stepper

/-- In every run, every iteration ends with the holds it began with exactly if every step of the
loop meets `GivesBack`; and then `mutex_step` is not with the loop between two iterations. -/
theorem iterations_balanced_iff {motors : Arm → StepperMotor} {uart : List UInt8}
    {es : List StepEvent} {st : Stepper} {log : List StepObs}
    (hrun : runLog Stepper.step (.start motors uart) es = some (st, log)) :
    ((∀ before after, .iteration before after ∈ log → after = before) ↔
      AllSteps Stepper.step Stepper.GivesBack (.start motors uart) es) ∧
    (AllSteps Stepper.step Stepper.GivesBack (.start motors uart) es → st.loop = .waitStep →
      ∀ n, st.mutex.owner ≠ some (.receiver, n)) := by
  have hgood : (∀ before after, .iteration before after ∈ log → after = before) ↔
      ∀ o ∈ log, o.Balanced := by
    constructor
    · intro h o ho
      cases o with
      | iteration before after => exact h before after ho
      | assigned k s got rx => trivial
    · intro h before after ho
      exact h _ ho
  have hiff : (∀ o ∈ log, o.Balanced) ↔
      AllSteps Stepper.step Stepper.GivesBack (.start motors uart) es := by
    have hstep : ∀ s e s₁ l₁, s.LockInv → Stepper.step s e = some (s₁, l₁) →
        s₁.LockInv ∧ (((∀ o ∈ l₁, o.Balanced) ∧ True) ↔ (True ∧ s.GivesBack e)) := by
      intro s e s₁ l₁ hI h
      simpa using Stepper.step_balanced_iff hI h
    simpa using runLog_iff hstep (Stepper.start_lockInv motors uart) hrun
  refine ⟨hgood.trans hiff, fun hall hl n hown => ?_⟩
  have hstep : ∀ s e s₁ l₁, (s.LockInv ∧ s.AtRest) → s.GivesBack e →
      Stepper.step s e = some (s₁, l₁) →
      (s₁.LockInv ∧ s₁.AtRest) ∧ ∀ o ∈ l₁, o.Balanced := by
    intro s e s₁ l₁ hI hC h
    obtain ⟨hlock, hb⟩ := Stepper.step_balanced_iff hI.1 h
    exact ⟨⟨hlock, Stepper.step_atRest hI.2 (hb.mpr hC) h⟩, hb.mpr hC⟩
  have hheld := (runLog_guarantee hstep
    ⟨Stepper.start_lockInv motors uart, Stepper.start_atRest motors uart⟩ hall hrun).1.2
  unfold Stepper.AtRest at hheld
  rw [if_pos hl, Mutex.held, hown] at hheld
  simp at hheld

/-- The events of a call for parameter `s`, its answer and the iteration of the loop. -/
def exchange (i : ℕ) (s : SysParams) (answer : List UInt8) (steps : ℕ) : List StepEvent :=
  .call i s :: List.replicate 5 (.sender i) ++
    [.arrive answer, .indicate answer.length] ++ List.replicate steps .loop

/-- Motors of zeros. -/
def zeroMotors (_ : Arm) : StepperMotor := ⟨0, 0, 0, 0, 0, 0, 0, 0, 0, 0, 0⟩

/-- A command and its answer, and the speed with its answer: both iterations give the mutex
back. -/
theorem iterations_balanced_iff_command :
    ∃ st log, runLog Stepper.step (.start zeroMotors [])
        (exchange 0 .ans [0x01, 0xF3, 0x02, 0x6B] 4 ++
          exchange 1 .vel [0x03, 0x35, 0x00, 0x00, 0x64, 0x6B] 6) = some (st, log) ∧
      AllSteps Stepper.step Stepper.GivesBack (.start zeroMotors [])
        (exchange 0 .ans [0x01, 0xF3, 0x02, 0x6B] 4 ++
          exchange 1 .vel [0x03, 0x35, 0x00, 0x00, 0x64, 0x6B] 6) ∧
      log.length = 3 ∧ ∀ before after, .iteration before after ∈ log → after = before := by
  have hall : AllSteps Stepper.step Stepper.GivesBack (.start zeroMotors [])
      (exchange 0 .ans [0x01, 0xF3, 0x02, 0x6B] 4 ++
        exchange 1 .vel [0x03, 0x35, 0x00, 0x00, 0x64, 0x6B] 6) := by
    decide +kernel
  have heval : (runLog Stepper.step (.start zeroMotors [])
      (exchange 0 .ans [0x01, 0xF3, 0x02, 0x6B] 4 ++
        exchange 1 .vel [0x03, 0x35, 0x00, 0x00, 0x64, 0x6B] 6)).map (·.2.length) = some 3 := by
    decide +kernel
  obtain ⟨⟨st, log⟩, hrun, hlen⟩ := Option.map_eq_some_iff.mp heval
  exact ⟨st, log, hrun, hall, hlen, (iterations_balanced_iff hrun).1.mpr hall⟩

/-- The speed is asked for and an answer of motor 2 comes: the iteration ends with the mutex held,
and the next sender does not get it. -/
theorem iteration_keeps_mutex :
    (runLog Stepper.step (.start zeroMotors [])
        (exchange 0 .vel [0x02, 0x35, 0x00, 0x00, 0x64, 0x6B] 6)).map Prod.snd =
      some [.iteration 0 1] ∧
    (runLog Stepper.step (.start zeroMotors [])
        (exchange 0 .vel [0x02, 0x35, 0x00, 0x00, 0x64, 0x6B] 6 ++
          [.call 1 .vel, .sender 1])).isNone = true := by
  constructor
  · decide +kernel
  · decide +kernel

end Robot
