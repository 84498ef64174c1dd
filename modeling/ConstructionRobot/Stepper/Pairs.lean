import ConstructionRobot.Stepper.Reports

/-!
# Both motors of one report

The sketch stores the pulses of a report one after the other, and the thread loads them one after
the other, without a lock. If a load comes between the two stores, or a store between the two loads,
the motors are sent to the angles of two different reports, and the tool may go to a place that
`isAllowedPosition` has not seen.

* `ArmControl.Unmixed`: the steps where this does not happen.
* `ArmControl.Paired`: the invariant.
* `arm_pairs_reported`: in a run of such steps the two commands of an iteration are of one report,
  or both zero.
-/

namespace Robot

open Robotarm

/-- The stores of a report and the loads of an iteration are not mixed. -/
def ArmControl.Unmixed {F : Type} (s : ArmControl F) : ControlEvent F → Prop
  | .store => s.pc ≠ .load .small
  | .control => s.pc = .load .big → s.stores ≠ [.small]
  | _ => True

instance {F : Type} (s : ArmControl F) (e : ControlEvent F) : Decidable (s.Unmixed e) :=
  match e with
  | .store => inferInstanceAs (Decidable (s.pc ≠ .load .small))
  | .control => inferInstanceAs (Decidable (s.pc = .load .big → s.stores ≠ [.small]))
  | .send | .arrive _ | .indicate _ | .decode | .sketch _ => inferInstanceAs (Decidable True)

/-- The pulses of both motors in one report, or zero. -/
def PairReported (log : List (ControlObs XReal)) (big small : ℤ) : Prop :=
  (big = 0 ∧ small = 0) ∨ ∃ r, .report r ∈ log ∧ r.big = big ∧ r.small = small

theorem PairReported.mono {log : List (ControlObs XReal)} {big small : ℤ}
    (h : PairReported log big small) (l : List (ControlObs XReal)) :
    PairReported (log ++ l) big small := by
  rcases h with h | ⟨r, hr, hp⟩
  · exact .inl h
  · exact .inr ⟨r, List.mem_append_left l hr, hp⟩

/-- The position command that is called. -/
def ControlObs.position {F : Type} : ControlObs F → Option EmmCommand
  | line (.called _ (.posControl addr dir vel acc clk raF snF)) =>
    some (.posControl addr dir vel acc clk raF snF)
  | _ => none

theorem ControlObs.position_eq_some {F : Type} {o : ControlObs F} {c : EmmCommand}
    (h : o.position = some c) : ∃ i, o = .line (.called i c) := by
  unfold ControlObs.position at h
  split at h
  · cases h
    exact ⟨_, rfl⟩
  · cases h

/-- The last position command. -/
def lastPosition {F : Type} (log : List (ControlObs F)) : Option EmmCommand :=
  (log.filterMap ControlObs.position).getLast?

theorem lastPosition_append {F : Type} {log l : List (ControlObs F)}
    (h : l.filterMap ControlObs.position = []) : lastPosition (log ++ l) = lastPosition log := by
  rw [lastPosition, List.filterMap_append, h, List.append_nil, lastPosition]

/-- The command for the small arm belongs to the one for the big arm before it. -/
def FromPair (before : List (ControlObs XReal)) : ControlObs XReal → Prop
  | .line (.called _ (.posControl addr dir _ _ clk _ _)) => addr = 3 →
    ∃ dir' clk', lastPosition before = some (.posControl 1 dir' 100 20 clk' 1 0) ∧
      PairReported before (Arm.big.signed dir' clk') (Arm.small.signed dir clk)
  | _ => True

namespace ArmControl

/-- What the thread has loaded. -/
def Matched (s : ArmControl XReal) (log : List (ControlObs XReal)) : Prop :=
  match s.pc with
  | .load .small => s.stores ≠ [.small] ∧ s.pulse .big = s.target .big
  | .direct => PairReported log (s.pulse .big) (s.pulse .small)
  | .pos .big => PairReported log (Arm.big.signed (s.dir .big) (UInt32.ofInt (s.pulse .big)))
      (Arm.small.signed (s.dir .small) (UInt32.ofInt (s.pulse .small)))
  | .pos .small => ∃ dir' clk', lastPosition log = some (.posControl 1 dir' 100 20 clk' 1 0) ∧
      PairReported log (Arm.big.signed dir' clk')
        (Arm.small.signed (s.dir .small) (UInt32.ofInt (s.pulse .small)))
  | _ => True

structure Paired (s : ArmControl XReal) (log : List (ControlObs XReal)) : Prop where
  sends : s.Sends log
  order : s.stores = [] ∨ s.stores = [.big, .small] ∨ s.stores = [.small]
  settled : s.stores ≠ [.small] → PairReported log (s.target .big) (s.target .small)
  half : s.stores = [.small] → s.target .big = s.sketch.pulse .big
  pending : s.stores ≠ [] → ∃ r, .report r ∈ log ∧ ∀ a, r.pulse a = s.sketch.pulse a
  matched : s.Matched log
  guarded : Guarded FromPair log

variable {s s₁ : ArmControl XReal} {log l₁ : List (ControlObs XReal)}

theorem Matched.mono (h : s.Matched log) {l : List (ControlObs XReal)}
    (hl : l.filterMap ControlObs.position = []) : s.Matched (log ++ l) := by
  unfold Matched at h ⊢
  cases hpc : s.pc with
  | load a =>
    simp only [hpc] at h
    cases a with
    | big => trivial
    | small => exact h
  | direct =>
    simp only [hpc] at h
    exact PairReported.mono h l
  | pos a =>
    simp only [hpc] at h
    cases a with
    | big => exact PairReported.mono h l
    | small =>
      obtain ⟨dir', clk', hlast, hpair⟩ := h
      exact ⟨dir', clk', (lastPosition_append hl).trans hlast, hpair.mono l⟩
  | _ => trivial

/-- The shared variables change, but not between the two loads. -/
theorem Matched.shared (h : s.Matched log) {sketch : ArmState XReal} {stores : List Arm}
    {target : Arm → ℤ}
    (hload : s.pc = .load .small → stores ≠ [.small] ∧ target .big = s.target .big) :
    Matched { s with sketch := sketch, stores := stores, target := target } log := by
  unfold Matched at h ⊢
  cases hpc : s.pc with
  | load a =>
    simp only [hpc] at h
    cases a with
    | big => trivial
    | small =>
      obtain ⟨hstores, htarget⟩ := hload hpc
      exact ⟨hstores, h.2.trans htarget.symm⟩
  | direct => simpa only [hpc] using h
  | pos a =>
    simp only [hpc] at h
    cases a with
    | big | small => exact h
  | _ => trivial

/-- More is observed, and the shared variables stay. -/
theorem Paired.extend (h : s.Paired log) (hsends : s₁.Sends (log ++ l₁))
    (hsketch : s₁.sketch = s.sketch) (hstores : s₁.stores = s.stores)
    (htarget : s₁.target = s.target) (hmatched : s₁.Matched (log ++ l₁))
    (hguarded : Guarded FromPair (log ++ l₁)) : s₁.Paired (log ++ l₁) where
  sends := hsends
  order := by
    rw [hstores]
    exact h.order
  settled hne := by
    rw [htarget]
    exact (h.settled (hstores ▸ hne)).mono l₁
  half heq := by
    rw [htarget, hsketch]
    exact h.half (hstores ▸ heq)
  pending hne := by
    obtain ⟨r, hr, hpulse⟩ := h.pending (hstores ▸ hne)
    refine ⟨r, List.mem_append_left l₁ hr, ?_⟩
    rw [hsketch]
    exact hpulse
  matched := hmatched
  guarded := hguarded

/-- A call of the thread that is no position. -/
theorem Paired.call (h : s.Paired log) {c : EmmCommand} {pc : ControlPc}
    (hsends : s₁.Sends (log ++ l₁)) (hcall : s.call c pc = some (s₁, l₁))
    (hc : (ControlObs.line (F := XReal) (.called 0 c)).position = none)
    (hmatched : ({ s with pc := pc } : ArmControl XReal).Matched log) : s₁.Paired (log ++ l₁) := by
  obtain ⟨line, rfl, -, rfl⟩ := call_spec hcall
  have hnil : [ControlObs.line (F := XReal) (.called 0 c)].filterMap ControlObs.position = [] := by
    rw [List.filterMap_cons_none hc, List.filterMap_nil]
  refine h.extend hsends rfl rfl rfl (Matched.mono (s := { s with pc := pc, line := line }) ?_ hnil)
    (guarded_concat.mpr ⟨h.guarded, ?_⟩)
  · exact hmatched
  · cases c with
    | posControl => cases hc
    | _ => trivial

/-- A step of the thread that is not observed. -/
theorem Paired.move (h : s.Paired log) (hsends : s₁.Sends (log ++ []))
    (hsketch : s₁.sketch = s.sketch) (hstores : s₁.stores = s.stores)
    (htarget : s₁.target = s.target) (hmatched : s₁.Matched log) : s₁.Paired (log ++ []) := by
  refine h.extend hsends hsketch hstores htarget (hmatched.mono rfl) ?_
  rw [List.append_nil]
  exact h.guarded

section Thread

variable {a : Arm}

theorem Paired.enable (h : s.Paired log) (hpc : s.pc = .enable a)
    (hsends : s₁.Sends (log ++ l₁))
    (hcall : ({ s with initFlag := Function.update s.initFlag a true } : ArmControl XReal).call
      (.enControl a.addr 1 0) (ControlPc.enable a).next = some (s₁, l₁)) : s₁.Paired (log ++ l₁) := by
  have h' : Paired { s with initFlag := Function.update s.initFlag a true } log :=
    ⟨⟨h.sends.sound, h.sends.reports, h.sends.stores, h.sends.target, by simp [Loaded, hpc],
      h.sends.guarded⟩, h.order, h.settled, h.half, h.pending, by simp [Matched, hpc], h.guarded⟩
  refine h'.call hsends hcall rfl ?_
  cases a <;> trivial

theorem Paired.load (h : s.Paired log) (hC : s.Unmixed .control) (hpc : s.pc = .load a) :
    Paired { s with
      pulse := Function.update s.pulse a (s.target a)
      pc := (ControlPc.load a).next } (log ++ []) := by
  refine h.move (h.sends.load hpc) rfl rfl rfl ?_
  cases a with
  | big => exact ⟨hC hpc, by simp⟩
  | small =>
    have hmatched := h.matched
    simp only [Matched, hpc] at hmatched
    have hpair := h.settled hmatched.1
    rw [← hmatched.2] at hpair
    simpa [Matched, ControlPc.next] using hpair

theorem Paired.direct (h : s.Paired log) (hpc : s.pc = .direct) :
    Paired { s with pulse := s.magnitude, dir := fun a => a.dir (s.pulse a), pc := .pos .big }
      (log ++ []) := by
  have hmatched := h.matched
  simp only [Matched, hpc] at hmatched
  refine h.move (h.sends.direct hpc) rfl rfl rfl ?_
  simp only [Matched, magnitude]
  rw [Arm.big.signed_dir (h.sends.loaded_bounded hpc .big),
    Arm.small.signed_dir (h.sends.loaded_bounded hpc .small)]
  exact hmatched

theorem Paired.pos (h : s.Paired log) (hpc : s.pc = .pos a) (hsends : s₁.Sends (log ++ l₁))
    (hcall : s.call (.posControl a.addr (s.dir a) 100 20 (UInt32.ofInt (s.pulse a)) 1 0)
      (ControlPc.pos a).next = some (s₁, l₁)) : s₁.Paired (log ++ l₁) := by
  have hmatched := h.matched
  simp only [Matched, hpc] at hmatched
  obtain ⟨line, rfl, -, rfl⟩ := call_spec hcall
  cases a with
  | big =>
    refine h.extend hsends rfl rfl rfl ⟨_, _, ?_, PairReported.mono hmatched _⟩
      (guarded_concat.mpr ⟨h.guarded, fun haddr => by cases haddr⟩)
    rw [lastPosition, List.filterMap_append]
    exact List.getLast?_concat
  | small =>
    exact h.extend hsends rfl rfl rfl trivial (guarded_concat.mpr ⟨h.guarded, fun _ => hmatched⟩)

/-- A step of the thread. -/
theorem Paired.thread (h : s.Paired log) (hC : s.Unmixed .control)
    (hstep : s.thread = some (s₁, l₁)) : s₁.Paired (log ++ l₁) := by
  have hsends := h.sends.thread hstep
  cases thread_case hstep with
  | unload a hpc hcall | ask a hpc hcall | zero a hpc hcall =>
    refine h.call hsends hcall rfl ?_
    cases a <;> trivial
  | enable a hpc hcall => exact h.enable hpc hsends hcall
  | away a hpc hhome =>
    refine h.move hsends rfl rfl rfl ?_
    cases a <;> trivial
  | home a hpc hhome => exact h.move hsends rfl rfl rfl trivial
  | both hpc hflags | again hpc hflags => exact h.move hsends rfl rfl rfl trivial
  | lineMode hpc =>
    exact h.extend hsends rfl rfl rfl trivial (guarded_concat.mpr ⟨h.guarded, trivial⟩)
  | load a hpc => exact h.load hC hpc
  | overflow hpc hmin =>
    obtain ⟨a, ha⟩ := hmin
    have hlo := (abs_lt.mp (h.sends.loaded_bounded hpc a)).1
    omega
  | direct hpc hmin => exact h.direct hpc
  | pos a hpc hcall => exact h.pos hpc hsends hcall
  | queried hpc => exact h.move hsends rfl rfl rfl trivial
  | query hpc hcall => exact h.call hsends hcall rfl trivial

end Thread

/-- Reports and what is seen on the line are no positions. -/
theorem position_map_report (l : List (ArmReport XReal)) :
    (l.map ControlObs.report).filterMap ControlObs.position = [] := by
  rw [List.filterMap_map]
  exact List.filterMap_eq_nil_iff.mpr fun _ _ => rfl

theorem position_map_line {line line' : EmmLine} {e : LineEvent} {l : List LineObs}
    (he : ∀ i c, e ≠ .call i c) (h : line.step e = some (line', l)) :
    (l.map (ControlObs.line (F := XReal))).filterMap ControlObs.position = [] := by
  rw [List.filterMap_map, List.filterMap_eq_nil_iff]
  intro o ho
  cases o with
  | called i c => exact absurd ho (EmmLine.step_not_called he h i c)
  | sent i c | loop o => rfl

/-- Observations that are no position keep the guard. -/
theorem guarded_fromPair (h : Guarded FromPair log) {l : List (ControlObs XReal)}
    (hl : l.filterMap ControlObs.position = []) : Guarded FromPair (log ++ l) := by
  refine h.append fun o ho before => ?_
  have hnone := List.filterMap_eq_nil_iff.mp hl o ho
  unfold FromPair
  split
  · cases hnone
  · trivial

/-- A loop of the sketch starts when its stores are done. -/
theorem Paired.loop (h : s.Paired log) {sketch : ArmState XReal} {micros₁ micros₂ : ℤ}
    {l : List (ArmReport XReal)} (hstores : s.stores = [])
    (hstep : s.sketch.step (.loop micros₁ micros₂) = some (sketch, l)) :
    Paired { s with sketch := sketch, stores := [.big, .small] } (log ++ l.map .report) := by
  have hsends := h.sends.loop hstep
  obtain ⟨sketch', -, heq⟩ := Option.map_eq_some_iff.mp hstep
  obtain ⟨rfl, rfl⟩ := Prod.mk.inj heq
  refine ⟨hsends, .inr (.inl rfl), fun _ => ?_, fun hhalf => ?_, fun _ => ?_, ?_,
    guarded_fromPair h.guarded (position_map_report _)⟩
  · exact (h.settled (by simp [hstores])).mono _
  · cases hhalf
  · refine ⟨sketch'.report, by simp, fun a => ?_⟩
    cases a <;> rfl
  · exact (h.matched.mono (position_map_report _)).shared fun _ => ⟨by simp, rfl⟩

/-- A store of the sketch. -/
theorem Paired.store (h : s.Paired log) (hC : s.Unmixed .store) {a : Arm} {rest : List Arm}
    (hstores : s.stores = a :: rest)
    (hsends : Sends { s with
      target := Function.update s.target a (s.sketch.pulse a), stores := rest } log) :
    Paired { s with
      target := Function.update s.target a (s.sketch.pulse a), stores := rest } log := by
  obtain ⟨r, hr, hpulse⟩ := h.pending (by simp [hstores])
  have hmatched : Matched { s with
      target := Function.update s.target a (s.sketch.pulse a), stores := rest } log :=
    h.matched.shared fun hpc => absurd hpc hC
  rcases h.order with hnil | hboth | hone
  · simp [hstores] at hnil
  · -- the first store: the variables are of two reports
    rw [hstores, List.cons.injEq] at hboth
    obtain ⟨rfl, rfl⟩ := hboth
    exact ⟨hsends, .inr (.inr rfl), fun hne => absurd rfl hne, fun _ => by simp,
      fun _ => ⟨r, hr, hpulse⟩, hmatched, h.guarded⟩
  · -- the second store: both are of the last report
    have hhalf := h.half hone
    rw [hstores, List.cons.injEq] at hone
    obtain ⟨rfl, rfl⟩ := hone
    refine ⟨hsends, .inl rfl, fun _ => .inr ⟨r, hr, ?_, ?_⟩, fun hsmall => ?_,
      fun hne => absurd rfl hne, hmatched, h.guarded⟩
    · simpa [hhalf, ArmReport.pulse] using hpulse .big
    · simpa [ArmReport.pulse] using hpulse .small
    · cases hsmall

/-- One step of the system. -/
theorem Paired.step (h : s.Paired log) {e : ControlEvent XReal} (hC : s.Unmixed e)
    (hstep : s.step e = some (s₁, l₁)) : s₁.Paired (log ++ l₁) := by
  have hsends := h.sends.step hstep
  cases e with
  | control => exact h.thread hC hstep
  | send | arrive bs | indicate size | decode =>
    simp only [ArmControl.step, onLine, Option.map_eq_some_iff, Prod.exists, Prod.mk.injEq] at hstep
    obtain ⟨line, l, hline, rfl, rfl⟩ := hstep
    have hnone := position_map_line (by simp) hline
    exact h.extend hsends rfl rfl rfl (Matched.mono h.matched hnone)
      (guarded_fromPair h.guarded hnone)
  | sketch e =>
    cases e with
    | loop micros₁ micros₂ =>
      simp only [ArmControl.step] at hstep
      split at hstep
      · rename_i hstores
        simp only [Option.map_eq_some_iff, Prod.exists, Prod.mk.injEq] at hstep
        obtain ⟨sketch, l, hsketch, rfl, rfl⟩ := hstep
        exact h.loop hstores hsketch
      · cases hstep
    | armYAdd20 | armYReduce20 | armZAdd20 | armZReduce20 | armCtrl ymm zmm =>
      cases hstep
      simp only [List.map_nil, List.append_nil] at hsends ⊢
      exact ⟨hsends, h.order, h.settled, h.half, h.pending, h.matched, h.guarded⟩
  | store =>
    simp only [ArmControl.step] at hstep
    split at hstep
    · cases hstep
    · rename_i a rest hstores
      cases hstep
      rw [List.append_nil] at hsends ⊢
      exact h.store hC hstores hsends

theorem start_paired (micros : ℤ) (uart : List UInt8) :
    (start micros uart : ArmControl XReal).Paired [] where
  sends := start_sends micros uart
  order := .inl rfl
  settled _ := .inl ⟨rfl, rfl⟩
  half h := by cases h
  pending h := absurd rfl h
  matched := trivial
  guarded := guarded_nil

end ArmControl

/-- With exact floats, in every run in which the stores of the sketch and the loads of the thread
are not mixed: the position of the small arm is called right after that of the big arm, and both are
zero, or the pulses of one faithful report that was made before. -/
theorem arm_pairs_reported (micros : ℤ) (uart : List UInt8) (es : List (ControlEvent XReal))
    (s : ArmControl XReal) (log : List (ControlObs XReal))
    (hC : AllSteps ArmControl.step ArmControl.Unmixed (.start micros uart) es)
    (hrun : runLog ArmControl.step (.start micros uart) es = some (s, log))
    (before after : List (ControlObs XReal)) (i : ℕ) (dir : UInt8) (vel : UInt16) (acc : UInt8)
    (clk : UInt32) (raF snF : Int32)
    (hlog : log =
      before ++ .line (.called i (.posControl 3 dir vel acc clk raF snF)) :: after) :
    ∃ dir' clk', lastPosition before = some (.posControl 1 dir' 100 20 clk' 1 0) ∧
      ((Arm.big.signed dir' clk' = 0 ∧ Arm.small.signed dir clk = 0) ∨
        ∃ r, .report r ∈ before ∧ r.Faithful ∧ r.big = Arm.big.signed dir' clk' ∧
          r.small = Arm.small.signed dir clk) := by
  have hstep : ∀ (s : ArmControl XReal) l e s₁ l₁, s.Paired l → s.Unmixed e →
      s.step e = some (s₁, l₁) → s₁.Paired (l ++ l₁) := fun s l e s₁ l₁ h hU h₁ => h.step hU h₁
  have hpaired : s.Paired log :=
    runLog_history hstep (ArmControl.start_paired micros uart) hC hrun
  obtain ⟨dir', clk', hlast, hpair⟩ := hpaired.guarded before _ after hlog rfl
  refine ⟨dir', clk', hlast, ?_⟩
  rcases hpair with hzero | ⟨r, hr, hbig, hsmall⟩
  · exact .inl hzero
  · have hmem : .report r ∈ log := by
      rw [hlog]
      exact List.mem_append_left _ hr
    exact .inr ⟨r, hr, (hpaired.sends.reports r hmem).1, hbig, hsmall⟩

/-- A report, its stores, the loads of the thread, and both commands. -/
theorem arm_pairs_reported_level :
    ∃ s log before i,
      runLog ArmControl.step (.start 0 [])
        (.sketch (.armCtrl (.fin 167) (.fin 0)) :: .sketch (.loop 0 24000000) :: .store :: .store ::
          (firstPosition ++ [.control])) = some (s, log) ∧
      log = before ++ [.line (.called i (.posControl 3 1 100 20 2400 1 0))] ∧
      ∃ dir' clk', lastPosition before = some (.posControl 1 dir' 100 20 clk' 1 0) ∧
        ∃ r, .report r ∈ before ∧ r.Faithful ∧ r.big = Arm.big.signed dir' clk' ∧
          r.small = Arm.small.signed 1 2400 := by
  have hall : AllSteps ArmControl.step ArmControl.Unmixed .levelStart
      (.store :: .store :: (firstPosition ++ [.control])) := by
    decide +kernel
  have heval : (runLog ArmControl.step .levelStart
      (.store :: .store :: (firstPosition ++ [.control]))).map
        (fun r => r.2.getLast?.bind ControlObs.position) =
        some (some (.posControl 3 1 100 20 2400 1 0)) := by
    decide +kernel
  obtain ⟨⟨s, tail⟩, htail, hlast⟩ := Option.map_eq_some_iff.mp heval
  obtain ⟨o, ho, hpos⟩ := Option.bind_eq_some_iff.mp hlast
  obtain ⟨i, rfl⟩ := ControlObs.position_eq_some hpos
  obtain ⟨hC, hrun⟩ := ArmControl.level_runs (fun _ _ => trivial) hall htail
  have hlog := List.dropLast_append_getLast? _ ho
  refine ⟨s, _, _ :: tail.dropLast, i, hrun, by rw [List.cons_append, hlog], ?_⟩
  obtain ⟨dir', clk', hlast', hpair⟩ :=
    arm_pairs_reported 0 [] _ s _ hC hrun (_ :: tail.dropLast) [] i _ _ _ _ _ _
      (by rw [List.cons_append, hlog])
  refine ⟨dir', clk', hlast', hpair.resolve_left ?_⟩
  rintro ⟨-, hzero⟩
  exact absurd hzero (by decide)

end Robot
