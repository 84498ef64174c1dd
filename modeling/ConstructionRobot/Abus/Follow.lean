import ConstructionRobot.Abus.WiredRuns
import ConstructionRobot.Lib.Sys

/-!
# The line follower on the bus (`follow_line.c`)

The thread `follow_line` reads eight sensors, publishes a special point if there is one, and then the
line error. The manager answers the error in its callback, with a command for the chassis, and
the special point by another mode. In between the other threads publish commands and directions, and
store the mode.

A publish is one step here, with the stores to its message before it and the publishes in its
callbacks: the runs are those in which no other thread publishes or stores while one is on its way.
What publishes do that come into each other's way is in `Abus/Concurrent.lean`.

* `lineErrorOf`, `isSpacialPoint`, `FollowStep`: the thread, with the publishes on the connected bus.
* `steer`: what all of it is for, without a bus.
* `follow_line_steers`: every such run goes on and does what `steer` says. The direction of the
  sensors is `front` for good.
* `special_point_holds`: after a special point the line error moves the chassis no more, until a
  thread stores `LINE_MODE`.
-/

namespace Robot

/-! ## The sensors -/

/-- The operations of `double`, and the conversion to `float`. -/
structure DoubleOps (D : Type) where
  ofInt : ℤ → D
  lit : ℚ → D
  add : D → D → D
  sub : D → D → D
  mul : D → D → D
  toFloat : D → FloatBytes

/-- `GET_Infrared_Data`: 1 for a pin that is low. -/
def getInfraredData (pins : Fin 8 → Bool) : Fin 8 → UInt8 := fun i => if pins i then 0 else 1

/-- `Is_Spacial_point`. Only `front` is told from the other directions. -/
def isSpacialPoint (moveDirection : UInt8) (data : Fin 8 → UInt8) : Bool :=
  match moveDirection with
  | 0 => ((data 0 != 0 && data 1 != 0) || (data 7 != 0 && data 6 != 0)) &&
      (data 3 != 0 || data 4 != 0)
  | _ => false

/-- The `error` of `follow_line`, with `factor0` to `factor3`. -/
def lineErrorOf {D : Type} (ops : DoubleOps D) (data : Fin 8 → UInt8) : FloatBytes :=
  let term (i : Fin 8) (factor : ℚ) : D := ops.mul (ops.ofInt (data i).toNat) (ops.lit factor)
  let sum := ops.mul (ops.ofInt (-(data 0).toNat)) (ops.lit 0.4)
  let sum := ops.add sum (term 7 0.4)
  let sum := ops.add (ops.sub sum (term 1 0.3)) (term 6 0.3)
  let sum := ops.add (ops.sub sum (term 2 0.2)) (term 5 0.2)
  let sum := ops.add (ops.sub sum (term 3 0.1)) (term 4 0.1)
  ops.toFloat sum

/-! ## The thread -/

/-- Where the loop of `follow_line` is. -/
inductive FollowPc where
  /-- `GET_Infrared_Data` -/
  | read
  /-- `abus_public(&line_spacial_point_acc, &bool_)` -/
  | special
  /-- `abus_public(&line_error_acc, &error)` -/
  | error
  deriving DecidableEq, Repr

/-- The globals of `follow_line.c`, where the thread is, and the rest of the memory. -/
structure FollowState (B : Type) where
  infraredData : Fin 8 → UInt8
  isSpacialPointFlag : Bool
  error : FloatBytes
  pc : FollowPc
  bus : B

/-- The part of the loop before the publishes. -/
def FollowState.sense {B D : Type} (dops : DoubleOps D) (moveDirection : UInt8)
    (pins : Fin 8 → Bool) (s : FollowState B) : FollowState B :=
  let data := getInfraredData pins
  let flag := isSpacialPoint moveDirection data
  { s with
    infraredData := data
    error := lineErrorOf dops data
    isSpacialPointFlag := flag
    pc := if flag then .special else .error }

/-- What happens next: a step of the thread, with what the pins are; a command of the manager or a
direction is published; or another thread stores the mode, the command or the state of the
chassis. -/
inductive FollowEv where
  | thread (pins : Fin 8 → Bool)
  | command (ctrl : ChassisCtrl FloatBytes)
  | direction (dir : UInt8)
  | mode (mode : Mode)
  | ctrl (ctrl : ChassisCtrl FloatBytes)
  | chassis (chassis : ChassisMai)

/-- The messages of a step. -/
abbrev Msgs := List (AccId × List UInt8)

/-- The start of the thread, on the connected bus. -/
def followStart (bus : WiredBus) : FollowState WiredBus where
  infraredData _ := 0
  isSpacialPointFlag := false
  error := ⟨0, 0, 0, 0⟩
  pc := .read
  bus := { bus with user := { bus.user with moveDirection := 0 } }

section Follow

variable {D : Type} (ops : FloatOps FloatBytes) (dops : DoubleOps D)

/-- An accounter publishes on the bus. -/
def Broadcast (bus : WiredBus) (a : AccId) (msg : List UInt8) (out : Msgs) (bus' : WiredBus) :
    Prop :=
  ∃ log, Ends (fun n => abusPublic (wiredCode ops) n [] bus a msg) log bus' ∧ sent log = out

/-- A step of `follow_line`, or of one of the others. No step comes into a publish. -/
inductive FollowStep : FollowState WiredBus → FollowEv → Msgs → FollowState WiredBus → Prop where
  | read {s : FollowState WiredBus} {pins : Fin 8 → Bool} (hpc : s.pc = .read) :
    FollowStep s (.thread pins) [] (s.sense dops s.bus.user.moveDirection pins)
  | special {s : FollowState WiredBus} {pins : Fin 8 → Bool} {out : Msgs} {bus : WiredBus}
      (hpc : s.pc = .special) (hpub : Broadcast ops s.bus .lineSpacialPoint [1] out bus) :
    FollowStep s (.thread pins) out { s with bus := bus, pc := .error }
  | error {s : FollowState WiredBus} {pins : Fin 8 → Bool} {out : Msgs} {bus : WiredBus}
      (hpc : s.pc = .error) (hpub : Broadcast ops s.bus .lineError s.error.bytes out bus) :
    FollowStep s (.thread pins) out { s with bus := bus, pc := .read }
  | command {s : FollowState WiredBus} {ctrl : ChassisCtrl FloatBytes} {out : Msgs}
      {bus : WiredBus} (hpub : Broadcast ops s.bus .rbmgChassis ctrl.bytes out bus) :
    FollowStep s (.command ctrl) out { s with bus := bus }
  | direction {s : FollowState WiredBus} {dir : UInt8} {out : Msgs} {bus : WiredBus}
      (hpub : Broadcast ops s.bus .rbmgDir [dir] out bus) :
    FollowStep s (.direction dir) out { s with bus := bus }
  | mode {s : FollowState WiredBus} {mode : Mode} :
    FollowStep s (.mode mode) []
      { s with bus := { s.bus with user := { s.bus.user with rbmgMode := mode } } }
  | ctrl {s : FollowState WiredBus} {ctrl : ChassisCtrl FloatBytes} :
    FollowStep s (.ctrl ctrl) []
      { s with bus := { s.bus with user := { s.bus.user with ctrl := ctrl } } }
  | chassis {s : FollowState WiredBus} {chassis : ChassisMai} :
    FollowStep s (.chassis chassis) []
      { s with bus := { s.bus with user := { s.bus.user with chassisMai := chassis } } }

/-! ## What it is for -/

/-- A special point ends the following of the line. -/
def Modules.specialPoint (s : Modules) : Modules :=
  if s.rbmgMode = .line then { s with rbmgMode := .action } else s

/-- In `LINE_MODE` the chassis drives on, and turns with the line error. -/
def Modules.steer (s : Modules) (error : FloatBytes) : Modules × Msgs :=
  if s.rbmgMode = .line then
    let ctrl := lineCtrl ops error
    ({ s with
      lineError := error, chassisDir := 0, ctrl := ctrl
      chassisMai := { s.chassisMai with speed := ctrl.pos, runStatus := .speed } },
      [(.rbmgChassis, ctrl.bytes)])
  else (s, [])

/-- The line follower, the manager and the chassis without a bus. The sensors look to the front,
whatever direction is published. -/
def steer (s : FollowState Modules) : FollowEv → FollowState Modules × Msgs
  | .thread pins =>
    match s.pc with
    | .read => (s.sense dops 0 pins, [])
    | .special =>
      ({ s with bus := s.bus.specialPoint, pc := .error }, [(.lineSpacialPoint, [1])])
    | .error =>
      let (modules, out) := s.bus.steer ops s.error
      ({ s with bus := modules, pc := .read }, (.lineError, s.error.bytes) :: out)
  | .command ctrl =>
    ({ s with bus := { s.bus with chassisMai := s.bus.chassisMai.command ctrl } },
      [(.rbmgChassis, ctrl.bytes)])
  | .direction dir => (s, [(.rbmgDir, [dir])])
  | .mode mode => ({ s with bus := { s.bus with rbmgMode := mode } }, [])
  | .ctrl ctrl => ({ s with bus := { s.bus with ctrl := ctrl } }, [])
  | .chassis chassis => ({ s with bus := { s.bus with chassisMai := chassis } }, [])

/-- The state without the bus. -/
def FollowState.view (s : FollowState WiredBus) : FollowState Modules :=
  ⟨s.infraredData, s.isSpacialPointFlag, s.error, s.pc, s.bus.user⟩

/-- The bus is connected and idle, the sensors look to the front, and the rest is the same. -/
def Steers (s : FollowState WiredBus) (a : FollowState Modules) : Prop :=
  s.bus.Wired [] ∧ s.bus.user.moveDirection = 0 ∧ s.view = a

variable {ops dops} {s : FollowState WiredBus} {bus : WiredBus} {a : AccId} {msg : List UInt8}
  {out : Msgs}

/-- What a publish leaves is what the accounters of the topic hear. -/
theorem Broadcast.heard (h : bus.Wired []) (hlen : msg.length = (wiredSize (topicOf a)).toNat)
    {bus' : WiredBus} (hpub : Broadcast ops bus a msg out bus') :
    bus'.Wired [] ∧ bus'.user = (hear ops msg (wiredSubs (topicOf a)) bus.user).1 ∧
      out = (a, msg) :: (hear ops msg (wiredSubs (topicOf a)) bus.user).2 := by
  obtain ⟨log, hends, rfl⟩ := hpub
  obtain ⟨log', bus'', hends', hheard⟩ := abusPublic_wired ops h hlen.ge
  obtain ⟨rfl, rfl⟩ := hends.unique hends'
  have htake : msg.take (wiredSize (topicOf a)).toNat = msg := List.take_of_length_le hlen.le
  rw [htake] at hheard
  exact ⟨hheard.wired, hheard.user, hheard.sent⟩

theorem exists_broadcast (h : bus.Wired []) (a : AccId) (msg : List UInt8)
    (hlen : msg.length = (wiredSize (topicOf a)).toNat) :
    ∃ out bus', Broadcast ops bus a msg out bus' := by
  obtain ⟨log, bus', hends, -⟩ := abusPublic_wired ops h hlen.ge
  exact ⟨sent log, bus', log, hends, rfl⟩

theorem hear_lineSpecial (m : List UInt8) (s : Modules) :
    hear ops m (wiredSubs .lineSpecial) s = (s.specialPoint, []) := by
  obtain ⟨dir, mode, lineError, chassisDir, ctrl, chassis⟩ := s
  cases mode <;> rfl

theorem hear_lineError (error : FloatBytes) (s : Modules) :
    hear ops error.bytes (wiredSubs .lineError) s = s.steer ops error := by
  obtain ⟨dir, mode, lineError, chassisDir, ctrl, chassis⟩ := s
  cases mode <;> rfl

/-- Every step can happen. -/
theorem follow_total (h : s.bus.Wired []) (e : FollowEv) :
    ∃ out s₁, FollowStep ops dops s e out s₁ := by
  cases e with
  | thread pins =>
    cases hpc : s.pc with
    | read => exact ⟨_, _, .read hpc⟩
    | special =>
      obtain ⟨out, bus, hpub⟩ := exists_broadcast h .lineSpacialPoint [1] rfl
      exact ⟨out, _, .special hpc hpub⟩
    | error =>
      obtain ⟨out, bus, hpub⟩ := exists_broadcast h .lineError s.error.bytes rfl
      exact ⟨out, _, .error hpc hpub⟩
  | command ctrl =>
    obtain ⟨out, bus, hpub⟩ := exists_broadcast h .rbmgChassis ctrl.bytes rfl
    exact ⟨out, _, .command hpub⟩
  | direction dir =>
    obtain ⟨out, bus, hpub⟩ := exists_broadcast h .rbmgDir [dir] rfl
    exact ⟨out, _, .direction hpub⟩
  | mode mode => exact ⟨_, _, .mode⟩
  | ctrl ctrl => exact ⟨_, _, .ctrl⟩
  | chassis chassis => exact ⟨_, _, .chassis⟩

/-- What a step with a publish leaves of the invariant. -/
theorem Steers.broadcast (h : Steers s s.view) {bus' : WiredBus} (pc : FollowPc)
    (hw : bus'.Wired []) (huser : bus'.user = (hear ops msg (wiredSubs (topicOf a)) s.bus.user).1) :
    Steers { s with bus := bus', pc := pc }
      { s.view with bus := (hear ops msg (wiredSubs (topicOf a)) s.bus.user).1, pc := pc } := by
  refine ⟨hw, ?_, ?_⟩
  · show bus'.user.moveDirection = 0
    rw [huser, hear_moveDirection, h.2.1]
  · rw [FollowState.view, huser]
    rfl

/-- A store of another thread. -/
theorem Steers.store (h : Steers s s.view) {modules : Modules}
    (hdir : modules.moveDirection = s.bus.user.moveDirection) :
    Steers { s with bus := { s.bus with user := modules } } { s.view with bus := modules } :=
  ⟨(heard_done h.1 modules).wired, hdir.trans h.2.1, rfl⟩

/-- Every step does what `steer` says. -/
theorem steers_step {v : FollowState Modules} {e : FollowEv} {s₁ : FollowState WiredBus}
    (h : Steers s v) (hstep : FollowStep ops dops s e out s₁) :
    out = (steer ops dops v e).2 ∧ Steers s₁ (steer ops dops v e).1 := by
  obtain rfl : s.view = v := h.2.2
  cases hstep with
  | read hpc =>
    rw [steer, show s.view.pc = .read from hpc, h.2.1]
    exact ⟨rfl, h.1, h.2.1, rfl⟩
  | special hpc hpub =>
    obtain ⟨hw, huser, rfl⟩ := hpub.heard h.1 rfl
    rw [steer, show s.view.pc = .special from hpc]
    have hs := h.broadcast .error hw huser
    rw [topicOf, hear_lineSpecial] at hs ⊢
    exact ⟨rfl, hs⟩
  | error hpc hpub =>
    obtain ⟨hw, huser, rfl⟩ := hpub.heard h.1 rfl
    rw [steer, show s.view.pc = .error from hpc]
    have hs := h.broadcast .read hw huser
    rw [topicOf, hear_lineError] at hs ⊢
    exact ⟨rfl, hs⟩
  | command hpub =>
    obtain ⟨hw, huser, rfl⟩ := hpub.heard h.1 rfl
    exact ⟨rfl, h.broadcast s.pc hw huser⟩
  | direction hpub =>
    obtain ⟨hw, huser, rfl⟩ := hpub.heard h.1 rfl
    exact ⟨rfl, h.broadcast s.pc hw huser⟩
  | mode => exact ⟨rfl, h.store rfl⟩
  | ctrl => exact ⟨rfl, h.store rfl⟩
  | chassis => exact ⟨rfl, h.store rfl⟩

/-- Every run goes on, and does what `steer` says. -/
theorem Steers.run {v : FollowState Modules} (h : Steers s v) (evs : List FollowEv) :
    (∃ outs s', RelRun (FollowStep ops dops) s evs outs s') ∧
      ∀ outs s', RelRun (FollowStep ops dops) s evs outs s' →
        outs = (specRun (steer ops dops) v evs).2 ∧ Steers s' (specRun (steer ops dops) v evs).1 :=
  relRun_refines (fun _ _ e h => follow_total h.1 e) (fun _ _ _ _ _ h hstep => steers_step h hstep)
    h

/-- The start of the thread on the connected bus. -/
theorem followStart_steers (h : bus.Wired []) : Steers (followStart bus) (followStart bus).view :=
  ⟨(heard_done h _).wired, rfl, rfl⟩

end Follow

/-- From `abus_all_init` and the start of the thread on, in any order of its steps and of what the
others do between the publishes: the run goes on, and its messages and the memory of the modules are
those of `steer`. -/
theorem follow_line_steers {D : Type} (ops : FloatOps FloatBytes) (dops : DoubleOps D)
    (str : String → ℕ) (heap : TopicId → Vector UInt8 1024) (user : Modules)
    (evs : List FollowEv) :
    ∃ bus, abusAllInit str heap (Bus.zero _ _ _ user) = .ret bus ∧
      (∃ outs s, RelRun (FollowStep ops dops) (followStart bus) evs outs s) ∧
      ∀ outs s, RelRun (FollowStep ops dops) (followStart bus) evs outs s →
        outs = (specRun (steer ops dops) (followStart bus).view evs).2 ∧
          s.view = (specRun (steer ops dops) (followStart bus).view evs).1 := by
  obtain ⟨bus, hinit, hw, -⟩ := abusAllInit_wired str heap user
  obtain ⟨hrun, hall⟩ := (followStart_steers hw).run evs
  exact ⟨bus, hinit, hrun, fun outs s h => ⟨(hall outs s h).1, (hall outs s h).2.2.2⟩⟩

/-! ## The interlock -/

/-- What the manager and the other threads make of the chassis. -/
def ChassisMai.after (chassis : ChassisMai) : FollowEv → ChassisMai
  | .command ctrl => chassis.command ctrl
  | .chassis chassis => chassis
  | _ => chassis

/-- The command of the manager. -/
def FollowEv.msg? : FollowEv → Option (AccId × List UInt8)
  | .command c => some (.rbmgChassis, c.bytes)
  | _ => none

/-- The commands for the chassis. -/
def commands (outs : List Msgs) : Msgs := outs.flatten.filter fun p => topicOf p.1 = .chassisCtrl

section Interlock

variable {D : Type} (ops : FloatOps FloatBytes) (dops : DoubleOps D) {v : FollowState Modules}
  {e : FollowEv}

theorem steer_holds (hmode : v.bus.rbmgMode ≠ .line) (he : e ≠ .mode .line) :
    (steer ops dops v e).1.bus.rbmgMode ≠ .line ∧
      (steer ops dops v e).1.bus.chassisMai = v.bus.chassisMai.after e ∧
      commands [(steer ops dops v e).2] = e.msg?.toList := by
  cases e with
  | thread pins =>
    cases hpc : v.pc with
    | read =>
      simp only [steer, hpc]
      exact ⟨hmode, rfl, rfl⟩
    | special =>
      simp only [steer, hpc, Modules.specialPoint, if_neg hmode]
      exact ⟨hmode, rfl, rfl⟩
    | error =>
      simp only [steer, hpc, Modules.steer, if_neg hmode]
      exact ⟨hmode, rfl, rfl⟩
  | mode mode => exact ⟨fun h => he (congrArg FollowEv.mode h), rfl, rfl⟩
  | _ => exact ⟨hmode, rfl, rfl⟩

/-- Outside `LINE_MODE` the line follower does nothing to the chassis. -/
theorem specRun_holds {evs : List FollowEv} (hmode : v.bus.rbmgMode ≠ .line)
    (hevs : ∀ e ∈ evs, e ≠ .mode .line) :
    (specRun (steer ops dops) v evs).1.bus.rbmgMode ≠ .line ∧
      (specRun (steer ops dops) v evs).1.bus.chassisMai = evs.foldl .after v.bus.chassisMai ∧
      commands (specRun (steer ops dops) v evs).2 = evs.filterMap FollowEv.msg? := by
  induction evs generalizing v with
  | nil => exact ⟨hmode, rfl, rfl⟩
  | cons e evs ih =>
    obtain ⟨he, hevs⟩ := List.forall_mem_cons.mp hevs
    obtain ⟨hmode₁, hchassis₁, hout₁⟩ := steer_holds ops dops hmode he
    obtain ⟨hmode', hchassis', hout'⟩ := ih hmode₁ hevs
    refine ⟨hmode', ?_, ?_⟩
    · rw [specRun, hchassis', hchassis₁, List.foldl_cons]
    · have hsplit : ∀ (l : Msgs) ls, commands (l :: ls) = commands [l] ++ commands ls := by
        intro l ls
        simp only [commands, List.flatten_cons, List.flatten_nil, List.append_nil,
          List.filter_append]
      rw [specRun, hsplit, hout₁, hout', List.filterMap_cons]
      cases e.msg? <;> rfl

end Interlock

/-- In every run, with each publish a step: from the publish of a special point on, and until a
thread stores `LINE_MODE`, the chassis gets the commands of the manager and no others, and only they
and the other threads change it. -/
theorem special_point_holds {D : Type} (ops : FloatOps FloatBytes) (dops : DoubleOps D)
    (str : String → ℕ) (heap : TopicId → Vector UInt8 1024) (user : Modules) (bus : WiredBus)
    (hinit : abusAllInit str heap (Bus.zero _ _ _ user) = .ret bus) (evs₁ : List FollowEv)
    (outs₁ : List Msgs) (s₁ : FollowState WiredBus)
    (hrun₁ : RelRun (FollowStep ops dops) (followStart bus) evs₁ outs₁ s₁)
    (hpc : s₁.pc = .special) (pins : Fin 8 → Bool) (evs₂ : List FollowEv)
    (hevs : ∀ e ∈ evs₂, e ≠ .mode .line) (outs₂ : List Msgs) (s₂ : FollowState WiredBus)
    (hrun₂ : RelRun (FollowStep ops dops) s₁ (.thread pins :: evs₂) outs₂ s₂) :
    s₂.bus.user.rbmgMode ≠ .line ∧
      s₂.bus.user.chassisMai = evs₂.foldl .after s₁.bus.user.chassisMai ∧
      commands outs₂ = evs₂.filterMap FollowEv.msg? := by
  obtain ⟨bus', hinit', hw, -⟩ := abusAllInit_wired str heap user
  obtain rfl : bus = bus' := Call.ret.inj (hinit.symm.trans hinit')
  obtain ⟨-, hs₁⟩ := ((followStart_steers hw).run evs₁).2 outs₁ s₁ hrun₁
  have hview : Steers s₁ s₁.view := ⟨hs₁.1, hs₁.2.1, rfl⟩
  obtain ⟨rfl, hs₂⟩ := (hview.run (.thread pins :: evs₂)).2 outs₂ s₂ hrun₂
  -- the mode after the publish of the special point
  have hspecial : s₁.bus.user.specialPoint.rbmgMode ≠ .line ∧
      s₁.bus.user.specialPoint.chassisMai = s₁.bus.user.chassisMai := by
    rw [Modules.specialPoint]
    split
    · exact ⟨by simp, rfl⟩
    · exact ⟨by assumption, rfl⟩
  have hstep : steer ops dops s₁.view (.thread pins) =
      ({ s₁.view with bus := s₁.bus.user.specialPoint, pc := .error },
        [(.lineSpacialPoint, [1])]) := by
    rw [steer, show s₁.view.pc = .special from hpc]
    rfl
  rw [specRun, hstep] at hs₂ ⊢
  obtain ⟨hmode₂, hchassis, hcommands⟩ :=
    specRun_holds ops dops (v := { s₁.view with bus := s₁.bus.user.specialPoint, pc := .error })
      hspecial.1 hevs
  rw [hspecial.2] at hchassis
  rw [← hs₂.2.2] at hmode₂ hchassis
  exact ⟨hmode₂, hchassis, hcommands⟩

/-- All sensors are on the line in `LINE_MODE`. The manager hears of it, and drives back. -/
theorem special_point_holds_back :
    let ctrl : ChassisCtrl FloatBytes := ⟨1, ⟨⟨0, 0, 0, 0⟩, ⟨0, 0, 0, 0⟩, ⟨0, 0, 0, 0⟩⟩⟩
    ∃ (ops : FloatOps FloatBytes) (dops : DoubleOps ℚ) (s₁ s₂ : FollowState WiredBus)
      (outs : List Msgs),
      s₁.pc = .special ∧ s₁.bus.user.rbmgMode = .line ∧
        RelRun (FollowStep ops dops) s₁
          [.thread fun _ => true, .thread fun _ => true, .command ctrl] outs s₂ ∧
        s₂.bus.user.rbmgMode ≠ .line ∧
        s₂.bus.user.chassisMai = s₁.bus.user.chassisMai.command ctrl ∧
        commands outs = [(.rbmgChassis, ctrl.bytes)] := by
  intro ctrl
  -- the run does not use floats
  let ops : FloatOps FloatBytes :=
    ⟨fun _ => ⟨0, 0, 0, 0⟩, fun x _ => x, fun x _ => x, fun _ _ _ => false⟩
  let dops : DoubleOps ℚ :=
    ⟨fun n => n, fun q => q, (· + ·), (· - ·), (· * ·), fun _ => ⟨0, 0, 0, 0⟩⟩
  let user : Modules := { startModules with rbmgMode := .line }
  obtain ⟨bus, hinit, hw, huser⟩ :=
    abusAllInit_wired (fun _ => 0) (fun _ => .replicate 1024 0) user
  let s₁ := (followStart bus).sense dops 0 fun _ => false
  have hrun₁ : RelRun (FollowStep ops dops) (followStart bus) [.thread fun _ => false] [[]] s₁ :=
    .cons (.read rfl) (.nil s₁)
  have hs₁ : Steers s₁ s₁.view := ⟨(followStart_steers hw).1, rfl, rfl⟩
  have hmode : s₁.bus.user.rbmgMode = .line := by
    show bus.user.rbmgMode = .line
    rw [huser]
  obtain ⟨outs, s₂, hrun₂⟩ : ∃ outs s₂, RelRun (FollowStep ops dops) s₁
      [.thread fun _ => true, .thread fun _ => true, .command ctrl] outs s₂ := (hs₁.run _).1
  exact ⟨ops, dops, s₁, s₂, outs, rfl, hmode, hrun₂,
    special_point_holds ops dops _ _ user bus hinit _ _ s₁ hrun₁ rfl _ _ (by simp) outs s₂ hrun₂⟩

end Robot
