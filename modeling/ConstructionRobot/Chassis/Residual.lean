import ConstructionRobot.Chassis.Module

/-!
# Relative moves and the refresh of the position (`robotmanager.c`, `chassis.c`)

The manager thread makes relative moves one after the other. A move reads the position, adds its
argument, publishes the sum as the target, and waits until the position is near the target.
`chassis_pos_clean` then writes the target into the position, so that the next move starts from the
target and not from where the chassis came to rest.

The chassis thread calls `chassis_handle` every 50 ms, which refreshes the position from the wheels.
A move ends with a delay of 300 ms, so the refresh takes back what `chassis_pos_clean` wrote.

* `MoveSys`: the two threads, in any order of their steps. A tick of the chassis is one step; a move
  reads each coordinate in a step of its own.
* `MoveSys.Inv`: where the position comes from.
* `relative_moves_iff`: the targets of a run add up exactly if every coordinate that a move reads was
  refreshed to the last target or not at all.
-/

namespace Robot

/-- The two threads. The last four components are no variables of the source. -/
structure MoveSys where
  chassis : Chassis
  rbmg : RbmgState ℚ
  /-- The argument of the move. -/
  delta : ChassisPos ℚ
  /-- The target that the move has published. -/
  target : ChassisPos ℚ
  /-- The target of the last move, if it came near it. -/
  prev : Option (ChassisPos ℚ)
  /-- The position that the last tick has brought since `chassis_pos_clean`. -/
  fresh : Option (ChassisPos ℚ)

/-- The manager calls `action_relative_movement_car`, or makes its next step in it; or the chassis
makes a tick, with what the motors report. -/
inductive MoveEv where
  | call (delta : ChassisPos ℚ)
  | manager
  | tick (speed pos : Wheels)
  deriving DecidableEq, Repr

/-- A move publishes its target for the first time. -/
structure MoveObs where
  prev : Option (ChassisPos ℚ)
  delta : ChassisPos ℚ
  target : ChassisPos ℚ
  deriving DecidableEq, Repr

/-- The target is the one of the move before, plus the argument. -/
def MoveObs.Exact (o : MoveObs) : Prop :=
  ∀ t, o.prev = some t →
    o.target = ⟨t.x + o.delta.x, t.y + o.delta.y, t.z + o.delta.z⟩

namespace MoveSys

/-- The publications of a step reach the chassis in the same step. -/
def deliver (chassis : Chassis) : RbmgObs ℚ → Chassis
  | .publish _ ctrl => chassisSubCallback chassis ctrl
  | _ => chassis

/-- The next step of the move, with what happens at its end. -/
def moveStep (s : MoveSys) (pc : MovePc) : MoveSys × List MoveObs :=
  let (rbmg, obs) := actionRelativeMovementCar .exact s.chassis.present.pos s.rbmg pc
  let s := { s with rbmg := rbmg, chassis := obs.foldl deliver s.chassis }
  match pc, rbmg.move with
  | .publish, _ => ({ s with target := rbmg.ctrl.pos }, [⟨s.prev, s.delta, rbmg.ctrl.pos⟩])
  | .await _, none =>
    -- the position is near the target
    ({ s with chassis := chassisPosClean s.chassis, prev := some s.target, fresh := none }, [])
  | .publishAgain _, none =>
    -- timeout
    ({ s with prev := none }, [])
  | _, _ => (s, [])

/-- One step of the system. -/
def step (s : MoveSys) : MoveEv → Option (MoveSys × List MoveObs)
  | .call delta =>
    match s.rbmg.move with
    | none => some ({ s with rbmg.move := some (.setType delta), delta := delta }, [])
    | some _ => none
  | .manager => s.rbmg.move.map s.moveStep
  | .tick speed pos =>
    let chassis := (chassisHandle s.chassis speed pos).1
    some ({ s with chassis := chassis, fresh := some chassis.present.pos }, [])

/-- A coordinate `c` that the last tick brought is that of the last target. -/
def Settled (s : MoveSys) (c : ChassisPos ℚ → ℚ) : Prop :=
  ∀ t p, s.prev = some t → s.fresh = some p → c p = c t

/-- Where a move reads a coordinate, it is settled. -/
def Undisturbed (s : MoveSys) (e : MoveEv) : Prop :=
  match e, s.rbmg.move with
  | .manager, some (.setX _) => s.Settled (·.x)
  | .manager, some (.setY _) => s.Settled (·.y)
  | .manager, some (.setZ _) => s.Settled (·.z)
  | _, _ => True

instance decidableSettled (s : MoveSys) (c : ChassisPos ℚ → ℚ) : Decidable (s.Settled c) :=
  match hp : s.prev, hf : s.fresh with
  | some t, some p => decidable_of_iff (c p = c t) (by simp [Settled, hp, hf])
  | none, _ => isTrue (by simp [Settled, hp])
  | some _, none => isTrue (by simp [Settled, hf])

instance decidableUndisturbed (s : MoveSys) (e : MoveEv) : Decidable (s.Undisturbed e) := by
  unfold Undisturbed
  split <;> infer_instance

/-- At the beginning there is no move. -/
def start (chassis : Chassis) (rbmg : RbmgState ℚ) : MoveSys where
  chassis := { chassis with offset.pos := .zero }
  rbmg := { rbmg with move := none }
  delta := .zero
  target := .zero
  prev := none
  fresh := none

/-! ## One step -/

/-- What is known of the move that the manager is in. -/
def Phase (s : MoveSys) : Option MovePc → Prop
  | none => True
  | some (.setType d) => s.delta = d
  | some (.setX d) => s.delta = d ∧ s.rbmg.ctrl.type = 1
  | some (.setY d) => s.delta = d ∧ s.rbmg.ctrl.type = 1
  | some (.setZ d) => s.delta = d ∧ s.rbmg.ctrl.type = 1
  | some .publish => s.rbmg.ctrl.type = 1
  | some (.await _) => s.chassis.target.pos = s.target ∧ s.rbmg.ctrl.pos = s.target
  | some (.setTypeAgain _) => s.chassis.target.pos = s.target ∧ s.rbmg.ctrl.pos = s.target
  | some (.publishAgain _) =>
    s.chassis.target.pos = s.target ∧ s.rbmg.ctrl.pos = s.target ∧ s.rbmg.ctrl.type = 1

/-- The position is what the last tick brought. Without a tick since the end of the last move, it is
the target of that move. -/
structure Inv (s : MoveSys) : Prop where
  offset : s.chassis.offset.pos = .zero
  refreshed : ∀ p, s.fresh = some p → s.chassis.present.pos = p
  cleaned : ∀ t, s.prev = some t → s.fresh = none → s.chassis.present.pos = t
  phase : s.Phase s.rbmg.move

/-- The coordinate `c` of the message is that of the last target, plus the argument. -/
def Sum (s : MoveSys) (c : ChassisPos ℚ → ℚ) : Prop :=
  ∀ t, s.prev = some t → c s.rbmg.ctrl.pos = c t + c s.delta

/-- The coordinates that the move has written so far are exact. -/
def Pend (s : MoveSys) : Prop :=
  match s.rbmg.move with
  | some (.setY _) => s.Sum (·.x)
  | some (.setZ _) => s.Sum (·.x) ∧ s.Sum (·.y)
  | some .publish => s.Sum (·.x) ∧ s.Sum (·.y) ∧ s.Sum (·.z)
  | _ => True

/-- A coordinate that a move reads is that of the last target exactly if it is settled. -/
theorem Inv.settled_iff {s : MoveSys} (h : s.Inv) (c : ChassisPos ℚ → ℚ) :
    s.Settled c ↔ ∀ t, s.prev = some t → c s.chassis.present.pos = c t := by
  constructor
  · intro hs t ht
    cases hf : s.fresh with
    | none => rw [h.cleaned t ht hf]
    | some p => rw [h.refreshed p hf, hs t p ht hf]
  · intro hs t p ht hf
    rw [← h.refreshed p hf]
    exact hs t ht

/-- The message is the exact one exactly if its coordinates are. -/
theorem exact_iff (s : MoveSys) : MoveObs.Exact ⟨s.prev, s.delta, s.rbmg.ctrl.pos⟩ ↔
    s.Sum (·.x) ∧ s.Sum (·.y) ∧ s.Sum (·.z) := by
  constructor
  · intro h
    exact ⟨fun t ht => congrArg (·.x) (h t ht), fun t ht => congrArg (·.y) (h t ht),
      fun t ht => congrArg (·.z) (h t ht)⟩
  · rintro ⟨hx, hy, hz⟩ t ht
    have hx := hx t ht
    have hy := hy t ht
    have hz := hz t ht
    show s.rbmg.ctrl.pos = _
    rw [← hx, ← hy, ← hz]

section Read

variable {s s₁ : MoveSys} {c : ChassisPos ℚ → ℚ} (hprev : s₁.prev = s.prev)
  (hdelta : s₁.delta = s.delta)
include hprev hdelta

/-- A step that reads the coordinate `c`. -/
theorem sum_of_read (h : s.Inv)
    (hread : c s₁.rbmg.ctrl.pos = c s.chassis.present.pos + c s.delta) :
    s₁.Sum c ↔ s.Settled c := by
  rw [h.settled_iff, Sum, hprev, hdelta, hread]
  simp only [add_left_inj]

/-- A step that leaves the coordinate `c`. -/
theorem sum_of_keep (hkeep : c s₁.rbmg.ctrl.pos = c s.rbmg.ctrl.pos) : s₁.Sum c ↔ s.Sum c := by
  rw [Sum, Sum, hprev, hdelta, hkeep]

end Read

theorem moveStep_await (s : MoveSys) (n : ℕ) :
    s.moveStep (.await n) =
      if moveReached .exact s.chassis.present.pos s.rbmg.ctrl.pos then
        ({ s with
            rbmg.move := none, chassis := chassisPosClean s.chassis
            prev := some s.target, fresh := none }, [])
      else ({ s with rbmg.move := some (.setTypeAgain n) }, []) := by
  cases h : moveReached .exact s.chassis.present.pos s.rbmg.ctrl.pos <;>
    simp [moveStep, actionRelativeMovementCar, h]

theorem moveStep_publishAgain (s : MoveSys) (n : ℕ) :
    s.moveStep (.publishAgain n) =
      if n + 1 > 1000 then
        ({ s with
            rbmg.move := none, chassis := chassisSubCallback s.chassis s.rbmg.ctrl
            prev := none }, [])
      else
        ({ s with
            rbmg.move := some (.await (n + 1))
            chassis := chassisSubCallback s.chassis s.rbmg.ctrl }, []) := by
  by_cases h : n + 1 > 1000 <;>
    simp [moveStep, actionRelativeMovementCar, deliver, h]

/-- A message of type 1 sets the target. -/
theorem chassisSubCallback_pos (chassis : Chassis) {ctrl : ChassisCtrl ℚ} (h : ctrl.type = 1) :
    chassisSubCallback chassis ctrl = { chassis with target.pos := ctrl.pos, runStatus := .pos } := by
  rw [chassisSubCallback, h]
  rfl

/-- A step of the move keeps the invariant, and its message is exact exactly if the coordinates were
settled when they were read. -/
theorem moveStep_iff {s : MoveSys} (h : s.Inv) {pc : MovePc} (hpc : s.rbmg.move = some pc) :
    (s.moveStep pc).1.Inv ∧
      (((∀ o ∈ (s.moveStep pc).2, o.Exact) ∧ (s.moveStep pc).1.Pend) ↔
        (s.Pend ∧ s.Undisturbed .manager)) := by
  have hphase := h.phase
  rw [hpc] at hphase
  simp only [Pend, Undisturbed, hpc]
  cases pc with
  | setType d =>
    refine ⟨⟨h.offset, h.refreshed, h.cleaned, hphase, rfl⟩, ?_⟩
    simp [moveStep, actionRelativeMovementCar]
  | setX d =>
    refine ⟨⟨h.offset, h.refreshed, h.cleaned, hphase⟩, ?_⟩
    obtain ⟨rfl, -⟩ := hphase
    have hx : (s.moveStep (.setX s.delta)).1.Sum (·.x) ↔ s.Settled (·.x) :=
      sum_of_read rfl rfl h rfl
    simp only [moveStep, actionRelativeMovementCar] at hx ⊢
    simpa using hx
  | setY d =>
    refine ⟨⟨h.offset, h.refreshed, h.cleaned, hphase⟩, ?_⟩
    obtain ⟨rfl, -⟩ := hphase
    have hx : (s.moveStep (.setY s.delta)).1.Sum (·.x) ↔ s.Sum (·.x) := sum_of_keep rfl rfl rfl
    have hy : (s.moveStep (.setY s.delta)).1.Sum (·.y) ↔ s.Settled (·.y) :=
      sum_of_read rfl rfl h rfl
    simp only [moveStep, actionRelativeMovementCar] at hx hy ⊢
    simpa using and_congr hx hy
  | setZ d =>
    refine ⟨⟨h.offset, h.refreshed, h.cleaned, hphase.2⟩, ?_⟩
    obtain ⟨rfl, -⟩ := hphase
    have hx : (s.moveStep (.setZ s.delta)).1.Sum (·.x) ↔ s.Sum (·.x) := sum_of_keep rfl rfl rfl
    have hy : (s.moveStep (.setZ s.delta)).1.Sum (·.y) ↔ s.Sum (·.y) := sum_of_keep rfl rfl rfl
    have hz : (s.moveStep (.setZ s.delta)).1.Sum (·.z) ↔ s.Settled (·.z) :=
      sum_of_read rfl rfl h rfl
    simp only [moveStep, actionRelativeMovementCar] at hx hy hz ⊢
    simpa [and_assoc] using and_congr hx (and_congr hy hz)
  | publish =>
    have hsub := chassisSubCallback_pos s.chassis hphase
    refine ⟨⟨?_, ?_, ?_, ?_⟩, ?_⟩
    · simpa [moveStep, actionRelativeMovementCar, deliver, hsub] using h.offset
    · simpa [moveStep, actionRelativeMovementCar, deliver, hsub] using h.refreshed
    · simpa [moveStep, actionRelativeMovementCar, deliver, hsub] using h.cleaned
    · simp [moveStep, actionRelativeMovementCar, deliver, hsub, Phase]
    · simpa [moveStep, actionRelativeMovementCar] using exact_iff s
  | await n =>
    obtain ⟨htarget, hctrl⟩ := hphase
    rw [moveStep_await]
    split
    · refine ⟨⟨h.offset, fun p hp => (by cases hp), fun t ht _ => ?_, trivial⟩, by simp⟩
      rw [← Option.some.inj ht]
      exact htarget
    · exact ⟨⟨h.offset, h.refreshed, h.cleaned, htarget, hctrl⟩, by simp⟩
  | setTypeAgain n =>
    exact ⟨⟨h.offset, h.refreshed, h.cleaned, hphase.1, hphase.2, rfl⟩,
      by simp [moveStep, actionRelativeMovementCar]⟩
  | publishAgain n =>
    obtain ⟨htarget, hctrl, htype⟩ := hphase
    rw [moveStep_publishAgain, chassisSubCallback_pos _ htype]
    split
    · exact ⟨⟨h.offset, h.refreshed, fun t ht => (by cases ht), trivial⟩, by simp⟩
    · exact ⟨⟨h.offset, h.refreshed, h.cleaned, hctrl, hctrl⟩, by simp⟩

/-- A step keeps the invariant, and what it shows is exact exactly if it is undisturbed, up to what
the move has written but not published. -/
theorem step_iff {s s₁ : MoveSys} {e : MoveEv} {l₁ : List MoveObs} (h : s.Inv)
    (hstep : s.step e = some (s₁, l₁)) :
    s₁.Inv ∧ (((∀ o ∈ l₁, o.Exact) ∧ s₁.Pend) ↔ (s.Pend ∧ s.Undisturbed e)) := by
  cases e with
  | call delta =>
    rw [step] at hstep
    split at hstep
    · case h_1 hmove =>
      obtain ⟨rfl, rfl⟩ := Prod.mk.inj (Option.some.inj hstep)
      exact ⟨⟨h.offset, h.refreshed, h.cleaned, rfl⟩, by simp [Pend, Undisturbed, hmove]⟩
    · cases hstep
  | manager =>
    obtain ⟨pc, hpc, hstep⟩ := Option.map_eq_some_iff.mp hstep
    have hmove := moveStep_iff h hpc
    rwa [hstep] at hmove
  | tick speed pos =>
    obtain ⟨rfl, rfl⟩ := Prod.mk.inj (Option.some.inj hstep)
    obtain ⟨-, htarget, hoffset⟩ := chassisHandle_frame h.offset speed pos
    refine ⟨⟨hoffset, fun p hp => Option.some.inj hp, fun t _ hf => (by cases hf), ?_⟩, ?_⟩
    · have hphase := h.phase
      show Phase _ s.rbmg.move
      cases hmove : s.rbmg.move with
      | none => trivial
      | some pc =>
        rw [hmove] at hphase
        cases pc with
        | await n => exact ⟨htarget ▸ hphase.1, hphase.2⟩
        | setTypeAgain n => exact ⟨htarget ▸ hphase.1, hphase.2⟩
        | publishAgain n => exact ⟨htarget ▸ hphase.1, hphase.2⟩
        | _ => exact hphase
    · have hpend : ({ s with
          chassis := (chassisHandle s.chassis speed pos).1
          fresh := some (chassisHandle s.chassis speed pos).1.present.pos } : MoveSys).Pend ↔
            s.Pend := Iff.rfl
      rw [hpend]
      simp [Undisturbed]

theorem start_inv (chassis : Chassis) (rbmg : RbmgState ℚ) : (start chassis rbmg).Inv :=
  ⟨rfl, fun p hp => (by cases hp), fun t ht => (by cases ht), trivial⟩

end MoveSys

open MoveSys

/-- For every order of the steps of the two threads: if every coordinate that a move reads is
settled (no tick of the chassis has refreshed it since `chassis_pos_clean`, or the last one brought
the coordinate of the target), the first target of every move that follows a move that came near its
target is that target plus the argument, in all three coordinates. If the last move has come to its
end, the targets are exact only then. -/
theorem relative_moves_iff (chassis : Chassis) (rbmg : RbmgState ℚ) (es : List MoveEv)
    {s : MoveSys} {l : List MoveObs} (hrun : runLog step (start chassis rbmg) es = some (s, l)) :
    (AllSteps step Undisturbed (start chassis rbmg) es → ∀ o ∈ l, o.Exact) ∧
      (s.rbmg.move = none → (∀ o ∈ l, o.Exact) →
        AllSteps step Undisturbed (start chassis rbmg) es) := by
  have hiff : ((∀ o ∈ l, o.Exact) ∧ s.Pend) ↔
      ((start chassis rbmg).Pend ∧ AllSteps step Undisturbed (start chassis rbmg) es) :=
    runLog_iff (fun _ _ _ _ => step_iff) (start_inv chassis rbmg) hrun
  have hstart : (start chassis rbmg).Pend := trivial
  rw [and_iff_right hstart] at hiff
  refine ⟨fun hall => (hiff.mpr hall).1, fun hend hexact => hiff.mp ⟨hexact, ?_⟩⟩
  rw [Pend, hend]
  trivial

/-- The chassis before anything has moved. -/
def chassisStart : Chassis where
  target := ⟨.zero, .zero⟩
  present := ⟨.zero, .zero⟩
  runStatus := .pos
  offset := ⟨.zero, .zero⟩
  date := ⟨0, 0, 0, 0⟩

/-- A move by one meter to the side, which ends 5 mm before its target. -/
def sideMove : List MoveEv :=
  .call ⟨1, 0, 0⟩ :: List.replicate 5 .manager ++
    [.tick ⟨0, 0, 0, 0⟩ (wheelsAt ⟨0.995, 0, 0⟩), .manager]

/-- The next move up to its end, with the chassis 5 mm before the target `x`. -/
def nextMove (x : ℚ) : List MoveEv :=
  .call ⟨1, 0, 0⟩ :: List.replicate 5 .manager ++
    [.tick ⟨0, 0, 0, 0⟩ (wheelsAt ⟨x - 0.005, 0, 0⟩), .manager]

/-- Without a tick between the moves, the second one starts from the target of the first one. -/
theorem relative_moves_iff_two : ∃ s l,
    runLog step (start chassisStart (rbmgInit .exact)) (sideMove ++ nextMove 2) = some (s, l) ∧
    AllSteps step Undisturbed (start chassisStart (rbmgInit .exact)) (sideMove ++ nextMove 2) ∧
    s.rbmg.move = none ∧ ∀ o ∈ l, o.Exact := by
  have hsome : ((runLog step (start chassisStart (rbmgInit .exact))
      (sideMove ++ nextMove 2)).map fun r => r.1.rbmg.move) = some none := by decide +kernel
  obtain ⟨⟨s, l⟩, hrun, hend⟩ := Option.map_eq_some_iff.mp hsome
  have hall : AllSteps step Undisturbed (start chassisStart (rbmgInit .exact))
      (sideMove ++ nextMove 2) := by decide +kernel
  exact ⟨s, l, hrun, hall, hend, (relative_moves_iff _ _ _ hrun).1 hall⟩

/-- With a tick between the moves, the second one starts from where the first one came to rest: its
target is 1.995 and not 2. -/
theorem relative_moves_drift : ¬∀ (chassis : Chassis) (rbmg : RbmgState ℚ) (es : List MoveEv) s l,
    runLog step (start chassis rbmg) es = some (s, l) → ∀ o ∈ l, o.Exact := by
  intro h
  have hsome : ((runLog step (start chassisStart (rbmgInit .exact)) (sideMove ++
      .tick ⟨0, 0, 0, 0⟩ (wheelsAt ⟨0.995, 0, 0⟩) :: nextMove 1.995)).map fun r => r.2) =
        some [⟨none, ⟨1, 0, 0⟩, ⟨1, 0, 0⟩⟩, ⟨some ⟨1, 0, 0⟩, ⟨1, 0, 0⟩, ⟨1.995, 0, 0⟩⟩] := by
    decide +kernel
  obtain ⟨⟨s, l⟩, hrun, rfl⟩ := Option.map_eq_some_iff.mp hsome
  have hexact := h _ _ _ _ _ hrun _ (List.mem_cons_of_mem _ List.mem_cons_self) ⟨1, 0, 0⟩ rfl
  exact absurd hexact (by decide +kernel)

end Robot
