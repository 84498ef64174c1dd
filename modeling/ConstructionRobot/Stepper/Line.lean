import ConstructionRobot.Stepper.Command
import ConstructionRobot.Stepper.Fresh

/-!
# The line to the stepper motors

`Emm_V5_Transmit` writes the bytes of a command one after the other while its thread holds
`mutex_step`. The threads that send, the callback and the loop that decodes the answers run in any
order, also between two bytes.

* `EmmLine.step`: `Stepper.step` with the commands and their bytes. `line_projects`: without the
  bytes it is a run of `Stepper`.
* `EmmLine.Inv`: at most one thread writes, and the line has whole commands and the beginning of
  the one that is being written.
* `emm_line_fifo`: in every run, what is on the line can be read as commands in one way only, and
  these are the commands of each thread in the order of its calls, none lost and none twice.
-/

namespace Robot

structure EmmLine where
  st : Stepper
  /-- The call that a thread is in. -/
  cmds : ℕ → EmmCommand
  /-- The bytes of `cmd` that are still to be written. -/
  rest : ℕ → List UInt8
  wire : List UInt8

inductive LineEvent where
  /-- Thread `i` calls a function of `Emm_V5.c`. -/
  | call (i : ℕ) (c : EmmCommand)
  /-- The next step of thread `i` in its call. -/
  | sender (i : ℕ)
  | arrive (bs : List UInt8)
  | indicate (size : ℕ)
  | loop

inductive LineObs where
  | called (i : ℕ) (c : EmmCommand)
  /-- The last byte of the command was written. -/
  | sent (i : ℕ) (c : EmmCommand)
  | loop (o : StepObs)
  deriving DecidableEq, Repr

namespace LineObs

def calledBy (i : ℕ) : LineObs → Option EmmCommand
  | called j c => if j = i then some c else none
  | _ => none

def sentBy (i : ℕ) : LineObs → Option EmmCommand
  | sent j c => if j = i then some c else none
  | _ => none

def sentCommand : LineObs → Option EmmCommand
  | sent _ c => some c
  | _ => none

def ofLoop : LineObs → Option StepObs
  | loop o => some o
  | _ => none

end LineObs

namespace EmmLine

/-- A step of `Stepper` that is not one of a sender. -/
def lift (s : EmmLine) (e : StepEvent) : Option (EmmLine × List LineObs) :=
  (s.st.step e).map fun r => ({ s with st := r.1 }, r.2.map .loop)

/-- A step of thread `i` in its call. `rt_device_write` returns behind the last byte. -/
def senderStep (s : EmmLine) (i : ℕ) : Option (EmmLine × List LineObs) :=
  match s.st.senders i, s.rest i with
  | .transmit, b :: rest => some
      ({ s with wire := s.wire ++ [b], rest := Function.update s.rest i rest },
        if rest = [] then [.sent i (s.cmds i)] else [])
  | _, _ => s.lift (.sender i)

def step (s : EmmLine) : LineEvent → Option (EmmLine × List LineObs)
  | .call i c => (s.lift (.call i c.cmdState)).map fun r =>
      ({ r.1 with
          cmds := Function.update s.cmds i c
          rest := Function.update s.rest i c.bytes }, .called i c :: r.2)
  | .sender i => s.senderStep i
  | .arrive bs => s.lift (.arrive bs)
  | .indicate size => s.lift (.indicate size)
  | .loop => s.lift .loop

/-- Nobody has called yet. -/
def start (motors : Arm → StepperMotor) (uart : List UInt8) : EmmLine where
  st := .start motors uart
  cmds _ := .synchronousMotion 0
  rest _ := []
  wire := []

/-! ## Without the bytes -/

theorem lift_eq_some {s s₁ : EmmLine} {e : StepEvent} {l₁ : List LineObs} :
    s.lift e = some (s₁, l₁) ↔
      ∃ st l, s.st.step e = some (st, l) ∧ s₁ = { s with st := st } ∧ l₁ = l.map .loop := by
  simp only [lift, Option.map_eq_some_iff, Prod.exists, Prod.mk.injEq]
  constructor
  · rintro ⟨st, l, h, rfl, rfl⟩
    exact ⟨st, l, h, rfl, rfl⟩
  · rintro ⟨st, l, h, rfl, rfl⟩
    exact ⟨st, l, h, rfl, rfl⟩

theorem ofLoop_map (l : List StepObs) : (l.map LineObs.loop).filterMap LineObs.ofLoop = l := by
  rw [List.filterMap_map]
  exact List.filterMap_some

/-- A step of a thread in its call: it writes a byte, or is a step of the sender in `Stepper`. -/
theorem senderStep_cases {s s₁ : EmmLine} {i : ℕ} {l₁ : List LineObs}
    (h : s.senderStep i = some (s₁, l₁)) :
    (∃ b rest, s.st.senders i = .transmit ∧ s.rest i = b :: rest ∧
      s₁ = { s with wire := s.wire ++ [b], rest := Function.update s.rest i rest } ∧
      l₁ = if rest = [] then [.sent i (s.cmds i)] else []) ∨
    ((s.st.senders i = .transmit → s.rest i = []) ∧
      ∃ st, s.st.senderStep i = some st ∧ s₁ = { s with st := st } ∧ l₁ = []) := by
  unfold senderStep at h
  split at h
  · rename_i b rest hpc hrest
    simp only [Option.some.injEq, Prod.mk.injEq] at h
    exact .inl ⟨b, rest, hpc, hrest, h.1.symm, h.2.symm⟩
  · rename_i hno
    right
    refine ⟨fun hpc => ?_, ?_⟩
    · cases hrest : s.rest i with
      | nil => rfl
      | cons b rest => exact absurd hrest (hno b rest hpc)
    · obtain ⟨st, l, hst, rfl, rfl⟩ := lift_eq_some.mp h
      obtain ⟨st', hst', heq⟩ := Option.map_eq_some_iff.mp hst
      cases heq
      exact ⟨_, hst', rfl, rfl⟩

/-- A step is one of `Stepper`, or writes a byte. -/
theorem step_projects {s s₁ : EmmLine} {e : LineEvent} {l₁ : List LineObs}
    (h : s.step e = some (s₁, l₁)) :
    (∃ e', s.st.step e' = some (s₁.st, l₁.filterMap LineObs.ofLoop)) ∨
      (s₁.st = s.st ∧ l₁.filterMap LineObs.ofLoop = []) := by
  cases e with
  | call i c =>
    simp only [step, Option.map_eq_some_iff, Prod.exists, Prod.mk.injEq] at h
    obtain ⟨s₂, l₂, hlift, rfl, rfl⟩ := h
    obtain ⟨st, l, hst, rfl, rfl⟩ := lift_eq_some.mp hlift
    left
    refine ⟨_, hst.trans ?_⟩
    rw [List.filterMap_cons_none rfl, ofLoop_map]
  | sender i =>
    rcases senderStep_cases h with ⟨b, rest, -, -, rfl, rfl⟩ | ⟨-, st, hst, rfl, rfl⟩
    · right
      refine ⟨rfl, ?_⟩
      split <;> rfl
    · left
      refine ⟨.sender i, ?_⟩
      rw [Stepper.step, hst]
      rfl
  | arrive bs | indicate size | loop =>
    obtain ⟨st, l, hst, rfl, rfl⟩ := lift_eq_some.mp h
    left
    refine ⟨_, hst.trans ?_⟩
    rw [ofLoop_map]

/-- Only a call is observed as one. -/
theorem step_not_called {s s₁ : EmmLine} {e : LineEvent} {l₁ : List LineObs}
    (he : ∀ i c, e ≠ .call i c) (h : s.step e = some (s₁, l₁)) (i : ℕ) (c : EmmCommand) :
    .called i c ∉ l₁ := by
  cases e with
  | call i c => exact absurd rfl (he i c)
  | sender i =>
    rcases senderStep_cases h with ⟨b, rest, -, -, -, rfl⟩ | ⟨-, st, -, -, rfl⟩
    · split <;> simp
    · simp
  | arrive bs | indicate size | loop =>
    obtain ⟨st, l, -, -, rfl⟩ := lift_eq_some.mp h
    simp

theorem line_projects {s s' : EmmLine} {es : List LineEvent} {log : List LineObs}
    (h : runLog step s es = some (s', log)) :
    ∃ es', runLog Stepper.step s.st es' = some (s'.st, log.filterMap LineObs.ofLoop) :=
  runLog_projects EmmLine.st LineObs.ofLoop (fun _ _ _ _ => step_projects) h

end EmmLine

namespace Stepper

variable {st st₁ : Stepper}

/-- No two senders have the mutex. -/
theorem FreshInv.locked_unique (h : st.FreshInv) {i j : ℕ} (hi : (st.senders i).Locked)
    (hj : (st.senders j).Locked) : i = j := by
  by_contra hne
  have hheld := h.senders j hj
  rw [st.mutex.held_eq_zero_of_ne (h.senders i hi) (by simpa using Ne.symm hne)] at hheld
  exact absurd hheld (lt_irrefl 0)

/-- What arrives, the callback and the loop leave the senders alone. -/
theorem step_senders {e : StepEvent} {l₁ : List StepObs} (hcall : ∀ i s, e ≠ .call i s)
    (hsender : ∀ i, e ≠ .sender i) (h : st.step e = some (st₁, l₁)) :
    st₁.senders = st.senders := by
  cases e with
  | call i s => exact absurd rfl (hcall i s)
  | sender i => exact absurd rfl (hsender i)
  | arrive bs =>
    cases h
    rfl
  | indicate size =>
    obtain ⟨st', hst, heq⟩ := Option.map_eq_some_iff.mp h
    cases heq
    rw [callback_frame hst]
  | loop => exact (loopStep_case h).senders.1

end Stepper

/-! ## What is on the line -/

namespace EmmLine

/-- Thread `i` is in the middle of a command. -/
def Writes (s : EmmLine) (i : ℕ) : Prop := s.st.senders i = .transmit ∧ s.rest i ≠ []

/-- Thread `i` has not written anything of its command. -/
def Waits (s : EmmLine) (i : ℕ) : Prop :=
  ∃ p, s.st.senders i = .take p ∨ s.st.senders i = .set p

/-- The command of thread `i` that is not all on the line. -/
def underWay (s : EmmLine) (i : ℕ) : List EmmCommand :=
  match s.st.senders i with
  | .take _ | .set _ => [s.cmds i]
  | .transmit => if s.rest i = [] then [] else [s.cmds i]
  | _ => []

structure Inv (s : EmmLine) (log : List LineObs) : Prop where
  fresh : s.st.FreshInv
  calls : ∀ i, log.filterMap (LineObs.calledBy i) =
    log.filterMap (LineObs.sentBy i) ++ s.underWay i
  waits : ∀ i, s.Waits i → s.rest i = (s.cmds i).bytes
  line : ∃ tail, s.wire = (log.filterMap LineObs.sentCommand).flatMap EmmCommand.bytes ++ tail ∧
    (∀ i, s.Writes i → tail ++ s.rest i = (s.cmds i).bytes) ∧ ((∀ i, ¬ s.Writes i) → tail = [])

variable {s s₁ : EmmLine} {log : List LineObs}

theorem start_inv (motors : Arm → StepperMotor) (uart : List UInt8) :
    (start motors uart).Inv [] where
  fresh := Stepper.start_freshInv motors uart
  calls _ := rfl
  waits i := by
    rintro ⟨p, h | h⟩ <;> cases h
  line := by
    refine ⟨[], rfl, fun i h => ?_, fun _ => rfl⟩
    cases h.1

/-- At most one thread writes. -/
theorem Inv.writes_unique (h : s.Inv log) {i j : ℕ} (hi : (s.st.senders i).Locked)
    (hj : s.Writes j) : i = j :=
  h.fresh.locked_unique hi (by rw [hj.1]; trivial)

/-- Nobody writes while a thread holds the mutex and does not write. -/
theorem Inv.not_writes (h : s.Inv log) {i : ℕ} (hi : (s.st.senders i).Locked)
    (hn : ¬ s.Writes i) (j : ℕ) : ¬ s.Writes j := by
  intro hj
  obtain rfl := h.writes_unique hi hj
  exact hn hj

/-- What is observed of the loop is not about commands. -/
theorem filterMap_loop {α : Type} (f : LineObs → Option α) (hf : ∀ o, f (.loop o) = none)
    (log : List LineObs) (l : List StepObs) :
    (log ++ l.map LineObs.loop).filterMap f = log.filterMap f := by
  have hnil : (l.map LineObs.loop).filterMap f = [] := by
    rw [List.filterMap_map]
    exact List.filterMap_eq_nil_iff.mpr fun o _ => hf o
  rw [List.filterMap_append, hnil, List.append_nil]

/-- A step that leaves the senders alone. -/
theorem Inv.frame (h : s.Inv log) {st : Stepper} (l : List StepObs)
    (hfresh : st.FreshInv) (hs : st.senders = s.st.senders) :
    ({ s with st := st } : EmmLine).Inv (log ++ l.map .loop) where
  fresh := hfresh
  calls i := by
    rw [filterMap_loop (LineObs.calledBy i) fun _ => rfl,
      filterMap_loop (LineObs.sentBy i) fun _ => rfl, h.calls i]
    simp only [underWay, hs]
  waits i := by
    rintro ⟨p, hp⟩
    exact h.waits i ⟨p, by rwa [hs] at hp⟩
  line := by
    obtain ⟨tail, hwire, hwrites, hnone⟩ := h.line
    refine ⟨tail, ?_, ?_, ?_⟩
    · rw [filterMap_loop LineObs.sentCommand fun _ => rfl]
      exact hwire
    · intro i hi
      exact hwrites i (by rwa [Writes, hs] at hi)
    · intro hi
      exact hnone fun i => by
        have := hi i
        rwa [Writes, hs] at this

/-- A thread goes on in its call without a byte. Where it begins to write, nobody else does. -/
theorem Inv.move (h : s.Inv log) (pc : SenderPc) {st : Stepper} {i : ℕ}
    (hfresh : st.FreshInv) (hs : st.senders = Function.update s.st.senders i pc)
    (hunder : ({ s with st := st } : EmmLine).underWay i = s.underWay i)
    (hwaits : ({ s with st := st } : EmmLine).Waits i → s.Waits i)
    (hwrites : pc = .transmit → s.Waits i ∧ (s.st.senders i).Locked)
    (hends : ¬ s.Writes i) : ({ s with st := st } : EmmLine).Inv log where
  fresh := hfresh
  calls j := by
    by_cases hj : j = i
    · subst hj
      rw [hunder, h.calls j]
    · rw [h.calls j]
      simp only [underWay, hs, Function.update_of_ne hj]
  waits j hj := by
    by_cases hij : j = i
    · subst hij
      exact h.waits j (hwaits hj)
    · obtain ⟨p, hp⟩ := hj
      rw [hs, Function.update_of_ne hij] at hp
      exact h.waits j ⟨p, hp⟩
  line := by
    obtain ⟨tail, hwire, hold, hnone⟩ := h.line
    refine ⟨tail, hwire, fun j hj => ?_, fun hall => hnone fun j hj => ?_⟩
    · by_cases hij : j = i
      · subst hij
        have hpc : pc = .transmit := by
          have := hj.1
          rwa [hs, Function.update_self] at this
        obtain ⟨hw, hl⟩ := hwrites hpc
        rw [hnone (h.not_writes hl hends), List.nil_append]
        exact h.waits j hw
      · refine hold j ⟨?_, hj.2⟩
        have := hj.1
        rwa [hs, Function.update_of_ne hij] at this
    · by_cases hij : j = i
      · exact hends (hij ▸ hj)
      · refine hall j ⟨?_, hj.2⟩
        rw [hs, Function.update_of_ne hij]
        exact hj.1

/-- One step of a thread in its call that is not a byte. -/
theorem Inv.senderStep (h : s.Inv log) {st : Stepper} {i : ℕ}
    (hrest : s.st.senders i = .transmit → s.rest i = [])
    (hstep : s.st.senderStep i = some st) : ({ s with st := st } : EmmLine).Inv log := by
  have hfresh := Stepper.senderStep_freshInv h.fresh hstep
  have hends : ¬ s.Writes i := fun hw => hw.2 (hrest hw.1)
  unfold Stepper.senderStep at hstep
  cases hpc : s.st.senders i with
  | idle => simp [hpc] at hstep
  | take p =>
    simp only [hpc] at hstep
    obtain ⟨mutex, -, rfl⟩ := Option.map_eq_some_iff.mp hstep
    refine h.move (.set p) hfresh rfl ?_ (fun _ => ⟨p, .inl hpc⟩) (by simp) hends
    simp [underWay, hpc]
  | set p =>
    simp only [hpc, Option.some.injEq] at hstep
    subst hstep
    have hwaits : s.Waits i := ⟨p, .inr hpc⟩
    refine h.move .transmit hfresh rfl ?_ (fun _ => hwaits)
      (fun _ => ⟨hwaits, by rw [hpc]; trivial⟩) hends
    simp [underWay, hpc, h.waits i hwaits, EmmCommand.bytes_ne_nil]
  | transmit =>
    simp only [hpc, Option.some.injEq] at hstep
    subst hstep
    refine h.move .unlock hfresh rfl ?_ ?_ (by simp) hends
    · simp [underWay, hpc, hrest hpc]
    · rintro ⟨p, hp⟩
      simp at hp
  | unlock =>
    simp only [hpc, Option.some.injEq] at hstep
    subst hstep
    refine h.move .post hfresh rfl ?_ ?_ (by simp) hends
    · simp [underWay, hpc]
    · rintro ⟨p, hp⟩
      simp at hp
  | post =>
    simp only [hpc, Option.some.injEq] at hstep
    subst hstep
    refine h.move .idle hfresh rfl ?_ ?_ (by simp) hends
    · simp [underWay, hpc]
    · rintro ⟨p, hp⟩
      simp at hp

/-- One byte. With the last one the command is sent. -/
theorem Inv.byte (h : s.Inv log) {i : ℕ} {b : UInt8} {rest : List UInt8}
    (hpc : s.st.senders i = .transmit) (hrest : s.rest i = b :: rest) :
    ({ s with wire := s.wire ++ [b], rest := Function.update s.rest i rest } : EmmLine).Inv
      (log ++ if rest = [] then [.sent i (s.cmds i)] else []) := by
  have hwi : s.Writes i := ⟨hpc, by simp [hrest]⟩
  have hother : ∀ j, j ≠ i → ¬ s.Writes j := fun j hj hw =>
    hj (h.writes_unique (by rw [hw.1]; trivial) hwi)
  obtain ⟨tail, hwire, hwrites, -⟩ := h.line
  have hword := hwrites i hwi
  rw [hrest] at hword
  constructor
  case fresh => exact h.fresh
  case calls =>
    intro j
    by_cases hj : j = i
    · subst hj
      by_cases hlast : rest = []
      · simp [hlast, h.calls j, underWay, hpc, hrest, LineObs.calledBy, LineObs.sentBy]
      · simp [hlast, h.calls j, underWay, hpc, hrest]
    · by_cases hlast : rest = []
      · simp [hlast, h.calls j, underWay, hj, Ne.symm hj, LineObs.calledBy, LineObs.sentBy]
      · simp [hlast, h.calls j, underWay, hj]
  case waits =>
    rintro j ⟨p, hp⟩
    have hj : j ≠ i := by
      rintro rfl
      simp [hpc] at hp
    simpa [hj] using h.waits j ⟨p, hp⟩
  case line =>
    by_cases hlast : rest = []
    · refine ⟨[], ?_, fun j hj => ?_, fun _ => rfl⟩
      · simp [hlast, hwire, LineObs.sentCommand, ← hword]
      · by_cases hij : j = i
        · exact absurd (by simp [hij, hlast]) hj.2
        · exact absurd ⟨hj.1, by simpa [hij] using hj.2⟩ (hother j hij)
    · refine ⟨tail ++ [b], by simp [hlast, hwire], fun j hj => ?_, fun hall => ?_⟩
      · by_cases hij : j = i
        · subst hij
          simpa using hword
        · exact absurd ⟨hj.1, by simpa [hij] using hj.2⟩ (hother j hij)
      · exact absurd ⟨hpc, by simpa using hlast⟩ (hall i)

/-- A call. -/
theorem Inv.call (h : s.Inv log) {st : Stepper} {i : ℕ} {c : EmmCommand} {l : List StepObs}
    (hstep : s.st.step (.call i c.cmdState) = some (st, l)) :
    ({ s with
        st := st
        cmds := Function.update s.cmds i c
        rest := Function.update s.rest i c.bytes } : EmmLine).Inv
      (log ++ .called i c :: l.map .loop) := by
  have hfresh := Stepper.step_freshInv h.fresh hstep
  simp only [Stepper.step] at hstep
  split at hstep
  case isFalse => cases hstep
  case isTrue hidle =>
  simp only [Option.some.injEq, Prod.mk.injEq] at hstep
  obtain ⟨rfl, rfl⟩ := hstep
  obtain ⟨tail, hwire, hwrites, hnone⟩ := h.line
  constructor
  case fresh => exact hfresh
  case calls =>
    intro j
    by_cases hj : j = i
    · subst hj
      have hcalls := h.calls j
      simp only [underWay, hidle, List.append_nil] at hcalls
      simp [hcalls, underWay, LineObs.calledBy, LineObs.sentBy]
    · simp [h.calls j, underWay, hj, Ne.symm hj, LineObs.calledBy, LineObs.sentBy]
  case waits =>
    rintro j ⟨p, hp⟩
    by_cases hj : j = i
    · subst hj
      simp
    · simp only [Function.update_of_ne hj] at hp ⊢
      exact h.waits j ⟨p, hp⟩
  case line =>
    have hiff : ∀ j, ((Function.update s.st.senders i (.take c.cmdState)) j = .transmit ∧
        Function.update s.rest i c.bytes j ≠ []) ↔ s.Writes j := by
      intro j
      by_cases hj : j = i
      · subst hj
        simp [Writes, hidle]
      · simp [Writes, hj]
    refine ⟨tail, ?_, fun j hj => ?_, fun hall => ?_⟩
    · rw [hwire, List.filterMap_append, List.map_nil, List.filterMap_cons_none rfl,
        List.filterMap_nil, List.append_nil]
    · have hw := (hiff j).mp hj
      have hij : j ≠ i := by
        rintro rfl
        simp [Writes, hidle] at hw
      simpa [hij] using hwrites j hw
    · exact hnone fun j hj => hall j ((hiff j).mpr hj)

/-- One step. -/
theorem Inv.step (h : s.Inv log) {e : LineEvent} {l₁ : List LineObs}
    (hstep : s.step e = some (s₁, l₁)) : s₁.Inv (log ++ l₁) := by
  cases e with
  | call i c =>
    simp only [EmmLine.step, Option.map_eq_some_iff, Prod.exists, Prod.mk.injEq] at hstep
    obtain ⟨s₂, l₂, hlift, rfl, rfl⟩ := hstep
    obtain ⟨st, l, hst, rfl, rfl⟩ := lift_eq_some.mp hlift
    exact h.call hst
  | sender i =>
    rcases senderStep_cases hstep with ⟨b, rest, hpc, hrest, rfl, rfl⟩ | ⟨hrest, st, hst, rfl, rfl⟩
    · exact h.byte hpc hrest
    · rw [List.append_nil]
      exact h.senderStep hrest hst
  | arrive bs | indicate size | loop =>
    obtain ⟨st, l, hst, rfl, rfl⟩ := lift_eq_some.mp hstep
    exact h.frame l (Stepper.step_freshInv h.fresh hst)
      (Stepper.step_senders (by simp) (by simp) hst)

theorem run_inv {motors : Arm → StepperMotor} {uart : List UInt8} {es : List LineEvent}
    (hrun : runLog step (start motors uart) es = some (s, log)) : s.Inv log := by
  have hstep : ∀ (s : EmmLine) l e s₁ l₁, s.Inv l → True → s.step e = some (s₁, l₁) →
      s₁.Inv (l ++ l₁) := fun s l e s₁ l₁ h _ h₁ => h.step h₁
  exact runLog_history hstep (start_inv motors uart)
    (allSteps_of_forall (C := fun _ => True) fun _ _ => trivial) hrun

/-- The line has the commands that were sent, and can be read in no other way. -/
theorem Inv.wire (h : s.Inv log) : ∃ tail, Begun EmmCommand.bytes tail ∧
    s.wire = (log.filterMap LineObs.sentCommand).flatMap EmmCommand.bytes ++ tail ∧
    ∀ (cs : List EmmCommand) tail', Begun EmmCommand.bytes tail' →
      s.wire = cs.flatMap EmmCommand.bytes ++ tail' →
      cs.map EmmCommand.sent = (log.filterMap LineObs.sentCommand).map EmmCommand.sent ∧
        tail' = tail := by
  obtain ⟨tail, hwire, hwrites, hnone⟩ := h.line
  have hbegun : Begun EmmCommand.bytes tail := by
    by_cases hw : ∃ i, s.Writes i
    · obtain ⟨i, hi⟩ := hw
      refine ⟨s.cmds i, ⟨_, hwrites i hi⟩, fun heq => hi.2 ?_⟩
      simpa [heq] using hwrites i hi
    · rw [hnone (not_exists.mp hw)]
      exact EmmCommand.begun_nil
  refine ⟨tail, hbegun, hwire, fun cs tail' htail' hcs => ?_⟩
  obtain ⟨hmap, htail⟩ := stream_unique EmmCommand.bytes_prefixFree htail' hbegun
    (hcs.symm.trans hwire)
  exact ⟨EmmCommand.map_bytes_eq_iff.mp hmap, htail⟩

end EmmLine

/-- In every run, what is on the line can be read as commands and the beginning of one in one way
only. These are the commands of each thread in the order of its calls, up to the one it is in.
Without the bytes the run is one of `Stepper`. -/
theorem emm_line_fifo (motors : Arm → StepperMotor) (uart : List UInt8) (es : List LineEvent)
    (s : EmmLine) (log : List LineObs)
    (hrun : runLog EmmLine.step (.start motors uart) es = some (s, log)) :
    (∃ es', runLog Stepper.step (.start motors uart) es' =
      some (s.st, log.filterMap LineObs.ofLoop)) ∧
    (∀ i, log.filterMap (LineObs.calledBy i) =
      log.filterMap (LineObs.sentBy i) ++ s.underWay i) ∧
    ∃ tail, Begun EmmCommand.bytes tail ∧
      s.wire = (log.filterMap LineObs.sentCommand).flatMap EmmCommand.bytes ++ tail ∧
      ∀ (cs : List EmmCommand) tail', Begun EmmCommand.bytes tail' →
        s.wire = cs.flatMap EmmCommand.bytes ++ tail' →
        cs.map EmmCommand.sent = (log.filterMap LineObs.sentCommand).map EmmCommand.sent ∧
          tail' = tail := by
  have hinv := EmmLine.run_inv hrun
  exact ⟨EmmLine.line_projects hrun, hinv.calls, hinv.wire⟩

/-- Two threads: one stops motor 1 while the other one waits with a command for motor 3. -/
def twoSenders : List LineEvent :=
  [.call 1 (.stopNow 1 0), .call 2 (.synchronousMotion 3)] ++
    List.replicate 10 (.sender 1) ++ List.replicate 5 (.sender 2)

theorem emm_line_fifo_two :
    (runLog EmmLine.step (.start (fun _ => ⟨0, 0, 0, 0, 0, 0, 0, 0, 0, 0, 0⟩) [])
      twoSenders).map (·.1.wire) = some [1, 0xFE, 0x98, 0, 0x6B, 3, 0xFF, 0x66] ∧
    ∀ s log, runLog EmmLine.step (.start (fun _ => ⟨0, 0, 0, 0, 0, 0, 0, 0, 0, 0, 0⟩) [])
      twoSenders = some (s, log) →
      log.filterMap (LineObs.calledBy 1) =
        log.filterMap (LineObs.sentBy 1) ++ s.underWay 1 :=
  ⟨by decide +kernel, fun s log h => (emm_line_fifo _ _ _ s log h).2.1 1⟩

end Robot
