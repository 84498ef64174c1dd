import ConstructionRobot.Robotarm.Period
import ConstructionRobot.Stepper.Control

/-!
# From the sketch to the line

The pulses that the sketch computes reach the motors as a direction and a number, in commands that
are written byte by byte. With exact floats, whatever the order of the steps is, every position
command on the line stands for pulses that the sketch has reported, or for zero before the first
report; and no pulse is one that the thread cannot negate.

* `Arm.signed`: what a direction and a number mean for a motor. `signed_dir`: the thread sends what
  it has loaded.
* `ArmControl.Sends`: the invariant.
* `arm_wire_reported`: the bytes on the line.
* `level_report`, `ArmControl.level_runs`: a report with round pulses, and runs that start with it.
-/

namespace Robot

open Robotarm

/-- The pulses that a direction and a number stand for: the two motors turn against each other. -/
def Arm.signed (a : Arm) (dir : UInt8) (clk : UInt32) : ℤ :=
  match a with
  | .big => if dir = 0 then clk.toNat else -clk.toNat
  | .small => if dir = 0 then -clk.toNat else clk.toNat

theorem Arm.signed_dir (a : Arm) {p : ℤ} (h : |p| < 2 ^ 31) :
    a.signed (a.dir p) (UInt32.ofInt (if 0 < p then p else -p)) = p := by
  obtain ⟨hlo, hhi⟩ := abs_lt.mp h
  have hnat : ∀ z : ℤ, 0 ≤ z → z < 2 ^ 32 → ((UInt32.ofInt z).toNat : ℤ) = z := by
    intro z h0 h1
    rw [UInt32.ofInt, UInt32.toNat_ofNat']
    omega
  by_cases hp : 0 < p
  · rw [if_pos hp]
    have hclk := hnat p (by omega) (by omega)
    generalize UInt32.ofInt p = clk at hclk
    cases a <;> simp [signed, dir, hp, hclk]
  · rw [if_neg hp]
    have hclk := hnat (-p) (by omega) (by omega)
    generalize UInt32.ofInt (-p) = clk at hclk
    cases a <;> simp [signed, dir, hp, hclk]

/-- The pulses of a motor that were reported, or zero. -/
def Reported (log : List (ControlObs XReal)) (a : Arm) (p : ℤ) : Prop :=
  p = 0 ∨ ∃ r, .report r ∈ log ∧ r.pulse a = p

/-- A position command is for pulses that were reported before it. -/
def FromReport (before : List (ControlObs XReal)) : ControlObs XReal → Prop
  | .line (.called _ (.posControl addr dir vel acc clk raF snF)) =>
    ∃ a : Arm, (addr, vel, acc, raF, snF) = (a.addr, 100, 20, 1, 0) ∧
      Reported before a (a.signed dir clk)
  | .overflow => False
  | _ => True

theorem Reported.mono {log : List (ControlObs XReal)} {a : Arm} {p : ℤ} (h : Reported log a p)
    (l : List (ControlObs XReal)) : Reported (log ++ l) a p := by
  rcases h with h | ⟨r, hr, hp⟩
  · exact .inl h
  · exact .inr ⟨r, List.mem_append_left l hr, hp⟩

namespace ArmControl

/-- What the thread has loaded. -/
def Loaded (s : ArmControl XReal) (log : List (ControlObs XReal)) : Prop :=
  match s.pc with
  | .load .small => Reported log .big (s.pulse .big)
  | .direct => ∀ a, Reported log a (s.pulse a)
  | .pos .big => ∀ a : Arm, Reported log a (a.signed (s.dir a) (UInt32.ofInt (s.pulse a)))
  | .pos .small =>
    Reported log .small (Arm.small.signed (s.dir .small) (UInt32.ofInt (s.pulse .small)))
  | _ => True

structure Sends (s : ArmControl XReal) (log : List (ControlObs XReal)) : Prop where
  sound : s.sketch.Sound
  reports : ∀ r, .report r ∈ log → r.Faithful ∧ r.Bounded
  stores : ∀ a ∈ s.stores, Reported log a (s.sketch.pulse a)
  target : ∀ a, Reported log a (s.target a)
  loaded : s.Loaded log
  guarded : Guarded FromReport log

variable {s s₁ : ArmControl XReal} {log l₁ : List (ControlObs XReal)}

theorem Loaded.mono (h : s.Loaded log) (l : List (ControlObs XReal)) : s.Loaded (log ++ l) := by
  unfold Loaded at h ⊢
  cases hpc : s.pc with
  | load a =>
    simp only [hpc] at h
    cases a with
    | big => trivial
    | small => exact Reported.mono h l
  | direct =>
    simp only [hpc] at h
    exact fun a => (h a).mono l
  | pos a =>
    simp only [hpc] at h
    cases a with
    | big => exact fun a => (h a).mono l
    | small => exact Reported.mono h l
  | _ => trivial

/-- Reported pulses can be negated. -/
theorem Sends.bounded (h : s.Sends log) {a : Arm} {p : ℤ} (hp : Reported log a p) :
    |p| ≤ 28800 := by
  rcases hp with rfl | ⟨r, hr, rfl⟩
  · simp
  · obtain ⟨hbig, hsmall⟩ := (h.reports r hr).2
    cases a with
    | big => exact hbig
    | small => exact hsmall

/-- More is observed, but no report. -/
theorem Sends.extend (h : s.Sends log) (hsketch : s₁.sketch = s.sketch)
    (hstores : s₁.stores = s.stores) (htarget : s₁.target = s.target)
    (hl : ∀ r, .report r ∉ l₁) (hloaded : s₁.Loaded (log ++ l₁))
    (hguarded : Guarded FromReport (log ++ l₁)) : s₁.Sends (log ++ l₁) where
  sound := hsketch ▸ h.sound
  reports r hr := by
    rcases List.mem_append.mp hr with hr | hr
    · exact h.reports r hr
    · exact absurd hr (hl r)
  stores a ha := by
    rw [hsketch]
    exact (h.stores a (hstores ▸ ha)).mono l₁
  target a := by
    rw [htarget]
    exact (h.target a).mono l₁
  loaded := hloaded
  guarded := hguarded

/-- A call of the thread. -/
theorem Sends.call (h : s.Sends log) {c : EmmCommand} {pc : ControlPc}
    (hcall : s.call c pc = some (s₁, l₁)) (hc : FromReport log (.line (.called 0 c)))
    (hloaded : ({ s with pc := pc } : ArmControl XReal).Loaded log) : s₁.Sends (log ++ l₁) := by
  obtain ⟨line, rfl, -, rfl⟩ := call_spec hcall
  refine h.extend rfl rfl rfl (by simp) (Loaded.mono ?_ _) (guarded_concat.mpr ⟨h.guarded, hc⟩)
  exact hloaded

/-- A step of the thread that is not observed. -/
theorem Sends.move (h : s.Sends log) (hsketch : s₁.sketch = s.sketch)
    (hstores : s₁.stores = s.stores) (htarget : s₁.target = s.target)
    (hloaded : s₁.Loaded log) : s₁.Sends (log ++ []) := by
  refine h.extend hsketch hstores htarget (by simp) (hloaded.mono []) ?_
  rw [List.append_nil]
  exact h.guarded

section Thread

variable {a : Arm}

theorem Sends.enable (h : s.Sends log) (hpc : s.pc = .enable a)
    (hcall : ({ s with initFlag := Function.update s.initFlag a true } : ArmControl XReal).call
      (.enControl a.addr 1 0) (ControlPc.enable a).next = some (s₁, l₁)) : s₁.Sends (log ++ l₁) := by
  have h' : Sends { s with initFlag := Function.update s.initFlag a true } log :=
    ⟨h.sound, h.reports, h.stores, h.target, by simp [Loaded, hpc], h.guarded⟩
  refine h'.call hcall trivial ?_
  cases a <;> trivial

theorem Sends.load (h : s.Sends log) (hpc : s.pc = .load a) :
    Sends { s with
      pulse := Function.update s.pulse a (s.target a)
      pc := (ControlPc.load a).next } (log ++ []) := by
  refine h.move rfl rfl rfl ?_
  cases a with
  | big => simpa [Loaded, ControlPc.next] using h.target .big
  | small =>
    have hbig := h.loaded
    simp only [Loaded, hpc] at hbig
    intro a
    cases a with
    | big => simpa using hbig
    | small => simpa using h.target .small

/-- Loaded pulses can be negated. -/
theorem Sends.loaded_bounded (h : s.Sends log) (hpc : s.pc = .direct) (a : Arm) :
    |s.pulse a| < 2 ^ 31 := by
  have hloaded := h.loaded
  simp only [Loaded, hpc] at hloaded
  exact (h.bounded (hloaded a)).trans_lt (by norm_num)

theorem Sends.direct (h : s.Sends log) (hpc : s.pc = .direct) :
    Sends { s with pulse := s.magnitude, dir := fun a => a.dir (s.pulse a), pc := .pos .big }
      (log ++ []) := by
  have hloaded := h.loaded
  simp only [Loaded, hpc] at hloaded
  refine h.move rfl rfl rfl fun a => ?_
  simp only [magnitude]
  rw [a.signed_dir (h.loaded_bounded hpc a)]
  exact hloaded a

theorem Sends.pos (h : s.Sends log) (hpc : s.pc = .pos a)
    (hcall : s.call (.posControl a.addr (s.dir a) 100 20 (UInt32.ofInt (s.pulse a)) 1 0)
      (ControlPc.pos a).next = some (s₁, l₁)) : s₁.Sends (log ++ l₁) := by
  have hloaded := h.loaded
  simp only [Loaded, hpc] at hloaded
  cases a with
  | big => exact h.call hcall ⟨.big, rfl, hloaded .big⟩ (hloaded .small)
  | small => exact h.call hcall ⟨.small, rfl, hloaded⟩ trivial

/-- A step of the thread. -/
theorem Sends.thread (h : s.Sends log) (hstep : s.thread = some (s₁, l₁)) :
    s₁.Sends (log ++ l₁) := by
  cases thread_case hstep with
  | unload a hpc hcall | ask a hpc hcall | zero a hpc hcall =>
    refine h.call hcall trivial ?_
    cases a <;> trivial
  | enable a hpc hcall => exact h.enable hpc hcall
  | away a hpc hhome =>
    refine h.move rfl rfl rfl ?_
    cases a <;> trivial
  | home a hpc hhome => exact h.move rfl rfl rfl trivial
  | both hpc hflags | again hpc hflags => exact h.move rfl rfl rfl trivial
  | lineMode hpc =>
    exact h.extend rfl rfl rfl (by simp) trivial (guarded_concat.mpr ⟨h.guarded, trivial⟩)
  | load a hpc => exact h.load hpc
  | overflow hpc hmin =>
    obtain ⟨a, ha⟩ := hmin
    have hlo := (abs_lt.mp (h.loaded_bounded hpc a)).1
    omega
  | direct hpc hmin => exact h.direct hpc
  | pos a hpc hcall => exact h.pos hpc hcall
  | queried hpc => exact h.move rfl rfl rfl trivial
  | query hpc hcall => exact h.call hcall trivial trivial

end Thread

/-- A loop of the sketch: its report is faithful, and its stores are still to come. -/
theorem Sends.loop (h : s.Sends log) {sketch : ArmState XReal} {micros₁ micros₂ : ℤ}
    {l : List (ArmReport XReal)}
    (hstep : s.sketch.step (.loop micros₁ micros₂) = some (sketch, l)) :
    Sends { s with sketch := sketch, stores := [.big, .small] } (log ++ l.map .report) := by
  obtain ⟨sketch', l', hstep', hsound, hl⟩ := h.sound.step (.loop micros₁ micros₂)
  obtain ⟨rfl, rfl⟩ := Prod.mk.inj (Option.some.inj (hstep.symm.trans hstep'))
  obtain ⟨sketch'', -, heq⟩ := Option.map_eq_some_iff.mp hstep
  obtain ⟨rfl, rfl⟩ := Prod.mk.inj heq
  refine ⟨hsound, ?_, ?_, fun a => (h.target a).mono _, Loaded.mono h.loaded _, ?_⟩
  · intro r hr
    rcases List.mem_append.mp hr with hr | hr
    · exact h.reports r hr
    · obtain ⟨r', hr', heq⟩ := List.mem_map.mp hr
      cases heq
      exact hl r hr'
  · intro a _
    refine .inr ⟨sketch''.report, by simp, ?_⟩
    cases a with
    | big => rfl
    | small => rfl
  · exact h.guarded.append (by simp [FromReport])

/-- A shell command leaves the pulses alone. -/
theorem Sends.shell (h : s.Sends log) {e : ArmEvent XReal} {sketch : ArmState XReal}
    {l : List (ArmReport XReal)} (he : ∀ micros₁ micros₂, e ≠ .loop micros₁ micros₂)
    (hstep : s.sketch.step e = some (sketch, l)) :
    Sends { s with sketch := sketch } (log ++ l.map .report) := by
  obtain ⟨sketch', l', hstep', hsound, -⟩ := h.sound.step e
  obtain ⟨rfl, rfl⟩ := Prod.mk.inj (Option.some.inj (hstep.symm.trans hstep'))
  have hsame : l = [] ∧ sketch.pulse = s.sketch.pulse := by
    cases e with
    | loop micros₁ micros₂ => exact absurd rfl (he micros₁ micros₂)
    | armYAdd20 | armYReduce20 | armZAdd20 | armZReduce20 | armCtrl ymm zmm =>
      cases hstep
      refine ⟨rfl, ?_⟩
      funext a
      cases a <;> rfl
  obtain ⟨rfl, hpulse⟩ := hsame
  rw [List.map_nil, List.append_nil]
  exact ⟨hsound, h.reports, fun a ha => by rw [hpulse]; exact h.stores a ha, h.target, h.loaded,
    h.guarded⟩

/-- One step of the system. -/
theorem Sends.step (h : s.Sends log) {e : ControlEvent XReal}
    (hstep : s.step e = some (s₁, l₁)) : s₁.Sends (log ++ l₁) := by
  cases e with
  | control => exact h.thread hstep
  | send | arrive bs | indicate size | decode =>
    simp only [ArmControl.step, onLine, Option.map_eq_some_iff, Prod.exists, Prod.mk.injEq] at hstep
    obtain ⟨line, l, hline, rfl, rfl⟩ := hstep
    refine h.extend rfl rfl rfl (by simp) (Loaded.mono h.loaded _) (h.guarded.append ?_)
    intro o ho before
    obtain ⟨lo, hlo, rfl⟩ := List.mem_map.mp ho
    cases lo with
    | called i c => exact absurd hlo (EmmLine.step_not_called (by simp) hline i c)
    | sent i c | loop o => trivial
  | sketch e =>
    cases e with
    | loop micros₁ micros₂ =>
      simp only [ArmControl.step] at hstep
      split at hstep
      · simp only [Option.map_eq_some_iff, Prod.exists, Prod.mk.injEq] at hstep
        obtain ⟨sketch, l, hsketch, rfl, rfl⟩ := hstep
        exact h.loop hsketch
      · cases hstep
    | armYAdd20 | armYReduce20 | armZAdd20 | armZReduce20 | armCtrl ymm zmm =>
      simp only [ArmControl.step, Option.map_eq_some_iff, Prod.exists, Prod.mk.injEq] at hstep
      obtain ⟨sketch, l, hsketch, rfl, rfl⟩ := hstep
      exact h.shell (by simp) hsketch
  | store =>
    simp only [ArmControl.step] at hstep
    split at hstep
    · cases hstep
    · rename_i a rest hstores
      cases hstep
      rw [List.append_nil]
      refine ⟨h.sound, h.reports, ?_, ?_, h.loaded, h.guarded⟩
      · intro a' ha'
        exact h.stores a' (by rw [hstores]; exact List.mem_cons_of_mem a ha')
      · intro a'
        by_cases haa : a' = a
        · subst haa
          simp only [Function.update_self]
          exact h.stores a' (by rw [hstores]; exact List.mem_cons_self)
        · simp only [Function.update_of_ne haa]
          exact h.target a'

theorem start_sends (micros : ℤ) (uart : List UInt8) :
    (start micros uart : ArmControl XReal).Sends [] where
  sound := ArmState.setup_sound micros
  reports r hr := by cases hr
  stores a ha := by cases ha
  target _ := .inl rfl
  loaded := trivial
  guarded := guarded_nil

theorem run_sends {micros : ℤ} {uart : List UInt8} {es : List (ControlEvent XReal)}
    (hrun : runLog step (start micros uart : ArmControl XReal) es = some (s, log)) :
    s.Sends log := by
  have hstep : ∀ (s : ArmControl XReal) l e s₁ l₁, s.Sends l → True →
      s.step e = some (s₁, l₁) → s₁.Sends (l ++ l₁) := fun s l e s₁ l₁ h _ h₁ => h.step h₁
  exact runLog_history hstep (start_sends micros uart)
    (allSteps_of_forall (C := fun _ => True) fun _ _ => trivial) hrun

end ArmControl

/-! ## The bytes -/

namespace ArmControl

variable {F : Type} [Libm F] {s s₁ : ArmControl F}

/-- A step is one of the line, or leaves it alone. -/
theorem step_projects {e : ControlEvent F} {l₁ : List (ControlObs F)}
    (h : s.step e = some (s₁, l₁)) :
    (∃ e', s.line.step e' = some (s₁.line, l₁.filterMap ControlObs.ofLine)) ∨
      (s₁.line = s.line ∧ l₁.filterMap ControlObs.ofLine = []) := by
  have honLine : ∀ (s' : ArmControl F) {e' : LineEvent}, s'.line = s.line →
      s'.onLine e' = some (s₁, l₁) →
      ∃ e', s.line.step e' = some (s₁.line, l₁.filterMap ControlObs.ofLine) := by
    intro s' e' hline h'
    simp only [onLine, Option.map_eq_some_iff, Prod.exists, Prod.mk.injEq] at h'
    obtain ⟨line, l, hstep, rfl, rfl⟩ := h'
    refine ⟨e', ?_⟩
    rw [← hline, hstep, List.filterMap_map]
    exact congrArg (fun l => some (line, l)) List.filterMap_some.symm
  have hreports : ∀ l : List (ArmReport F),
      (l.map ControlObs.report).filterMap ControlObs.ofLine = [] := by
    intro l
    rw [List.filterMap_map]
    exact List.filterMap_eq_nil_iff.mpr fun _ _ => rfl
  cases e with
  | control =>
    rcases thread_line h with ⟨s', c, pc, hline, hcall⟩ | hquiet
    · exact .inl (honLine { s' with pc := pc } hline hcall)
    · exact .inr hquiet
  | send | arrive bs | indicate size | decode => exact .inl (honLine s rfl h)
  | sketch e =>
    right
    cases e with
    | loop micros₁ micros₂ =>
      simp only [step] at h
      split at h
      · simp only [Option.map_eq_some_iff, Prod.exists, Prod.mk.injEq] at h
        obtain ⟨sketch, l, -, rfl, rfl⟩ := h
        exact ⟨rfl, hreports l⟩
      · cases h
    | armYAdd20 | armYReduce20 | armZAdd20 | armZReduce20 | armCtrl ymm zmm =>
      simp only [step, Option.map_eq_some_iff, Prod.exists, Prod.mk.injEq] at h
      obtain ⟨sketch, l, -, rfl, rfl⟩ := h
      exact ⟨rfl, hreports l⟩
  | store =>
    simp only [step] at h
    split at h
    · cases h
    · cases h
      exact .inr ⟨rfl, rfl⟩

theorem control_projects {s' : ArmControl F} {es : List (ControlEvent F)}
    {log : List (ControlObs F)} (h : runLog step s es = some (s', log)) :
    ∃ es', runLog EmmLine.step s.line es' = some (s'.line, log.filterMap ControlObs.ofLine) :=
  runLog_projects ArmControl.line ControlObs.ofLine (fun _ _ _ _ => step_projects) h

end ArmControl

/-- What was sent was called. -/
theorem EmmLine.Inv.called {s : EmmLine} {log : List LineObs} (h : s.Inv log) {c : EmmCommand}
    (hc : c ∈ log.filterMap LineObs.sentCommand) : ∃ i, .called i c ∈ log := by
  obtain ⟨o, ho, hsent⟩ := List.mem_filterMap.mp hc
  cases o with
  | called | loop => cases hsent
  | sent i c' =>
    cases hsent
    have hby : c ∈ log.filterMap (LineObs.calledBy i) := by
      rw [h.calls i]
      exact List.mem_append_left _ (List.mem_filterMap.mpr ⟨_, ho, by simp [LineObs.sentBy]⟩)
    obtain ⟨o', ho', hcalled⟩ := List.mem_filterMap.mp hby
    cases o' with
    | sent | loop => cases hcalled
    | called j c' =>
      simp only [LineObs.calledBy, Option.ite_none_right_eq_some, Option.some.injEq] at hcalled
      obtain ⟨rfl, rfl⟩ := hcalled
      exact ⟨j, ho'⟩

/-- A command that is the same on the line as a position command is that command, up to flags. -/
theorem EmmCommand.sent_posControl {c : EmmCommand} {addr dir : UInt8} {vel : UInt16} {acc : UInt8}
    {clk : UInt32} {raF snF : Int32} (h : c.sent = (posControl addr dir vel acc clk raF snF).sent) :
    ∃ raF' snF', c = posControl addr dir vel acc clk raF' snF' ∧
      flagByte raF' = flagByte raF ∧ flagByte snF' = flagByte snF := by
  cases c <;> simp only [sent, reduceCtorEq, posControl.injEq] at h
  case posControl =>
    obtain ⟨rfl, rfl, rfl, rfl, rfl, hra, hsn⟩ := h
    refine ⟨_, _, rfl, ?_, ?_⟩
    · rw [← flagByte_sentFlag, hra, flagByte_sentFlag]
    · rw [← flagByte_sentFlag, hsn, flagByte_sentFlag]

/-- With exact floats, in every run of the thread, the line, the answers, the sketch and the shell:
no negation overflows, every report is faithful, and however the line is read, each position command
on it is for pulses of that motor that were reported, or zero. -/
theorem arm_wire_reported (micros : ℤ) (uart : List UInt8) (es : List (ControlEvent XReal))
    (s : ArmControl XReal) (log : List (ControlObs XReal))
    (hrun : runLog ArmControl.step (.start micros uart) es = some (s, log)) :
    .overflow ∉ log ∧ (∀ r, .report r ∈ log → r.Faithful) ∧
    (∃ (cs : List EmmCommand) (tail : List UInt8), Begun EmmCommand.bytes tail ∧
      s.line.wire = cs.flatMap EmmCommand.bytes ++ tail) ∧
    ∀ (cs : List EmmCommand) (tail : List UInt8), Begun EmmCommand.bytes tail →
      s.line.wire = cs.flatMap EmmCommand.bytes ++ tail →
      ∀ addr dir vel acc clk raF snF, .posControl addr dir vel acc clk raF snF ∈ cs →
        ∃ a : Arm, (addr, vel, acc, flagByte raF, flagByte snF) = (a.addr, 100, 20, 1, 0) ∧
          Reported log a (a.signed dir clk) := by
  have hsends := ArmControl.run_sends hrun
  obtain ⟨es', hline⟩ := ArmControl.control_projects hrun
  have hinv := EmmLine.run_inv hline
  obtain ⟨tail, hbegun, hwire, hunique⟩ := hinv.wire
  refine ⟨?_, fun r hr => (hsends.reports r hr).1, ⟨_, tail, hbegun, hwire⟩, ?_⟩
  · intro hover
    obtain ⟨l₁, l₂, heq⟩ := List.append_of_mem hover
    exact hsends.guarded l₁ _ l₂ heq
  · intro cs tail' hbegun' hcs addr dir vel acc clk raF snF hmem
    obtain ⟨hsent, -⟩ := hunique cs tail' hbegun' hcs
    have hmem' := List.mem_map_of_mem (f := EmmCommand.sent) hmem
    rw [hsent] at hmem'
    obtain ⟨c, hc, heq⟩ := List.mem_map.mp hmem'
    obtain ⟨raF', snF', rfl, hra, hsn⟩ := EmmCommand.sent_posControl heq
    obtain ⟨i, hcalled⟩ := hinv.called hc
    obtain ⟨o, ho, hof⟩ := List.mem_filterMap.mp hcalled
    cases o with
    | line lo =>
      cases hof
      obtain ⟨l₁, l₂, hlog⟩ := List.append_of_mem ho
      obtain ⟨a, hargs, hrep⟩ := hsends.guarded l₁ _ l₂ hlog
      simp only [Prod.mk.injEq] at hargs
      obtain ⟨rfl, rfl, rfl, rfl, rfl⟩ := hargs
      refine ⟨a, ?_, ?_⟩
      · rw [← hra, ← hsn]
        rfl
      · rw [hlog]
        exact hrep.mono _
    | report | lineMode | overflow => cases hof

/-! ## A report and its commands -/

namespace Robotarm

open XReal

theorem level_radius : shankRadius 0 167 = 120 := by
  rw [shankRadius, radius, zero_pow two_ne_zero, zero_add, Real.sqrt_sq (by norm_num)]
  norm_num

/-- At (167, 0) the shanks and the line to their end have the same length. -/
theorem level_reach : shankReach 0 167 0 = 120 := by
  rw [shankReach, level_radius, zero_pow two_ne_zero, add_zero, Real.sqrt_sq (by norm_num)]

theorem level_allowed : Allowed 0 167 0 := by
  have hradius : radius 0 167 = 167 := by
    rw [radius, zero_pow two_ne_zero, zero_add, Real.sqrt_sq (by norm_num)]
  refine ⟨by rw [hradius]; norm_num, ?_, ?_, by norm_num, by norm_num⟩ <;>
    · rw [level_reach]
      norm_num

theorem arccos_half : Real.arccos (1 / 2) = Real.pi / 3 := by
  have hpi := Real.pi_pos
  rw [← Real.cos_pi_div_three, Real.arccos_cos (by linarith) (by linarith)]

theorem level_lowAngle : lowAngle 0 167 0 = Real.pi / 6 := by
  have hlift : TwoLink.lift 120 120 120 = Real.pi / 3 := by
    rw [← arccos_half, TwoLink.lift]
    norm_num
  have hdirection : direction 0 167 0 = Real.pi / 2 := by
    rw [direction, if_neg (lt_irrefl _), level_reach, level_radius, div_self (by norm_num),
      Real.arcsin_one]
    ring
  rw [lowAngle, level_reach, hlift, hdirection]
  ring

theorem level_highAngle : highAngle 0 167 0 = Real.pi - Real.pi / 6 := by
  have helbow : TwoLink.elbow 120 120 120 = Real.pi / 3 := by
    rw [← arccos_half, TwoLink.elbow]
    norm_num
  rw [highAngle, level_lowAngle, level_reach, helbow]
  ring

/-- A loop with this target and the time to get there: a sixth of half a turn are 1200 pulses. -/
theorem level_report : ∃ it g,
    ({ setup 0 with ymm := fin 167, zmm := fin 0 } : ArmState XReal).step (.loop 0 24000000) =
      some (⟨it, g, fin 167, fin 0, 1200, 2400⟩,
        [⟨⟨fin 0, fin 167, fin 0, fin 0⟩, 1200, 2400⟩]) := by
  set s : ArmState XReal := { setup 0 with ymm := fin 167, zmm := fin 0 }
  have hpi := Real.pi_ne_zero
  have hway : s.Way 167 120 167 0 := ⟨(ArmState.setup_way 0).start, rfl, rfl⟩
  have hseconds : ArmState.seconds 0 24000000 = 24 := by
    have hint : sint 32 (24000000 - 0) = 24000000 := by decide
    rw [ArmState.seconds, hint]
    norm_num
  have hpoint : s.wayPoint 0 24000000 = ⟨fin 0, fin 167, fin 0, fin 0⟩ := by
    rw [hway.wayPoint_eq_target_iff (by rw [hseconds]; norm_num), hseconds, ArmState.dist,
      ArmState.velocity, sub_self, zero_pow two_ne_zero, zero_add, zero_sub, neg_sq,
      Real.sqrt_sq (by norm_num)]
    norm_num
  obtain ⟨it, hmove, -, hcase⟩ := ArmState.move_cases (s := s) rfl 0 24000000
  have hallowed : Interpolation.isAllowedPosition (s.wayPoint 0 24000000) = true := by
    rw [hpoint, isAllowedPosition_iff]
    exact ⟨0, 167, 0, rfl, rfl, rfl, level_allowed⟩
  have hpos : it.pos = ⟨fin 0, fin 167, fin 0, fin 0⟩ := by
    rcases hcase with hacc | hrej
    · rw [hacc.pos, hpoint]
    · rw [hrej.refused] at hallowed
      cases hallowed
  have hloop := ArmState.loop_pulses RobotGeometry.init_configured hmove
    (congrArg Point.xmm hpos) (congrArg Point.ymm hpos) (congrArg Point.zmm hpos)
    level_allowed.triangle
  have hbig : cut (Real.pi / 6 * (7200 / Real.pi)) = 1200 := by
    have hcancel : Real.pi / 6 * (7200 / Real.pi) = (1200 : ℤ) := by
      field_simp
      norm_num
    rw [hcancel, cut, if_pos (by norm_num), Int.floor_intCast]
  have hsmall : cut ((Real.pi - Real.pi / 6) * (7200 / Real.pi)) - 3600 = 2400 := by
    have hcancel : (Real.pi - Real.pi / 6) * (7200 / Real.pi) = (6000 : ℤ) := by
      field_simp
      norm_num
    rw [hcancel, cut, if_pos (by norm_num), Int.floor_intCast]
    norm_num
  rw [level_lowAngle, level_highAngle, hbig, hsmall] at hloop
  refine ⟨it, s.geometry.set (fin 0) (fin 167) (fin 0), ?_⟩
  rw [ArmState.step, hloop]
  show some (_, [ArmReport.mk it.pos 1200 2400]) = _
  rw [hpos]

end Robotarm

/-- Both motors are found at home, and the first position is on its way. -/
def firstPosition : List (ControlEvent XReal) :=
  ControlEvent.answered 11 [1, 0xF3, 2, 0x6B] 4 ++ ControlEvent.answered 11 [3, 0xF3, 2, 0x6B] 4 ++
    ControlEvent.answered 8 [1, 0x36, 0, 0, 0, 0xB3, 0xB3, 0x6B] 6 ++
    ControlEvent.answered 8 [3, 0x36, 1, 0, 0, 0x20, 0x24, 0x6B] 6 ++
    .control :: ControlEvent.answered 11 [1, 0xF3, 2, 0x6B] 4 ++
    .control :: ControlEvent.answered 11 [3, 0xF3, 2, 0x6B] 4 ++
    .control :: ControlEvent.answered 9 [1, 0x0A, 2, 0x6B] 4 ++
    ControlEvent.answered 9 [3, 0x0A, 2, 0x6B] 4 ++
    List.replicate 5 .control ++ List.replicate 18 .send

namespace ArmControl

open XReal

/-- The sketch has reported, and has its stores to do. -/
noncomputable def levelStart : ArmControl XReal :=
  { (start 0 [] : ArmControl XReal) with
    sketch := ⟨level_report.choose, level_report.choose_spec.choose, fin 167, fin 0, 1200, 2400⟩
    stores := [.big, .small] }

/-- Every run from there is the end of a run from the start. -/
theorem level_runs {C : ArmControl XReal → ControlEvent XReal → Prop}
    (hC : ∀ s e, C s (.sketch e)) {es : List (ControlEvent XReal)} {s : ArmControl XReal}
    {log : List (ControlObs XReal)} (hall : AllSteps step C levelStart es)
    (hrun : runLog step levelStart es = some (s, log)) :
    AllSteps step C (start 0 [])
        (.sketch (.armCtrl (fin 167) (fin 0)) :: .sketch (.loop 0 24000000) :: es) ∧
      runLog step (start 0 [])
        (.sketch (.armCtrl (fin 167) (fin 0)) :: .sketch (.loop 0 24000000) :: es) =
          some (s, .report ⟨⟨fin 0, fin 167, fin 0, fin 0⟩, 1200, 2400⟩ :: log) := by
  have htarget : (start 0 [] : ArmControl XReal).step (.sketch (.armCtrl (fin 167) (fin 0))) =
      some ({ (start 0 [] : ArmControl XReal) with
        sketch := { setup 0 with ymm := fin 167, zmm := fin 0 } }, []) := rfl
  have hloop : ({ (start 0 [] : ArmControl XReal) with
      sketch := { setup 0 with ymm := fin 167, zmm := fin 0 } } : ArmControl XReal).step
        (.sketch (.loop 0 24000000)) =
      some (levelStart, [.report ⟨⟨fin 0, fin 167, fin 0, fin 0⟩, 1200, 2400⟩]) := by
    have hstores : (start 0 [] : ArmControl XReal).stores = [] := rfl
    simp only [step]
    rw [if_pos hstores, level_report.choose_spec.choose_spec]
    rfl
  exact ⟨(allSteps_cons htarget).mpr ⟨hC _ _, (allSteps_cons hloop).mpr ⟨hC _ _, hall⟩⟩,
    runLog_cons.mpr ⟨_, _, _, htarget, runLog_cons.mpr ⟨_, _, _, hloop, hrun, rfl⟩, rfl⟩⟩

end ArmControl

open XReal in
/-- The sketch reports a position and stores its pulses, the thread loads them, and the command for
the big arm is on the line. -/
theorem arm_wire_reported_level :
    ∃ s log, runLog ArmControl.step (.start 0 [])
        (.sketch (.armCtrl (fin 167) (fin 0)) :: .sketch (.loop 0 24000000) :: .store :: .store ::
          firstPosition) = some (s, log) ∧
      (EmmCommand.posControl 1 0 100 20 1200 1 0).bytes.isSuffixOf s.line.wire ∧
      .report ⟨⟨fin 0, fin 167, fin 0, fin 0⟩, 1200, 2400⟩ ∈ log ∧ .overflow ∉ log ∧
      ∀ r, .report r ∈ log → r.Faithful := by
  have heval : (runLog ArmControl.step .levelStart (.store :: .store :: firstPosition)).map
      (fun r => (EmmCommand.posControl 1 0 100 20 1200 1 0).bytes.isSuffixOf r.1.line.wire) =
        some true := by
    decide +kernel
  obtain ⟨⟨s, log⟩, htail, hwire⟩ := Option.map_eq_some_iff.mp heval
  have hall : AllSteps ArmControl.step (fun _ _ => True) .levelStart
      (.store :: .store :: firstPosition) :=
    allSteps_of_forall (C := fun _ => True) fun _ _ => trivial
  obtain ⟨-, hrun⟩ := ArmControl.level_runs (fun _ _ => trivial) hall htail
  obtain ⟨hover, hfaithful, -⟩ := arm_wire_reported 0 [] _ s _ hrun
  exact ⟨s, _, hrun, hwire, List.mem_cons_self, hover, hfaithful⟩

end Robot
