import ConstructionRobot.Chassis.Kinematics
import ConstructionRobot.Dj.Pipeline
import ConstructionRobot.Motor.Table
import Mathlib.Data.Fintype.Basic
import Mathlib.Tactic.FinCases

/-!
# The chassis on its motors (`chassis_port_handle`, `driver_mai`)

The thread of the chassis runs `chassis_handle`: it reads the speeds and the positions of the four
motors, computes the position of the chassis from them, and sets the motors to what `module_mai`
makes of the target. Meanwhile frames come in, `can_rx_thread` ticks the motors, and other threads
store targets, also between the formulas of two wheels. The shell, which could set a motor itself,
does not.

* `Drive`, `Drive.step`: the thread, one access to the motors or one formula a step, and the CAN
  loop.
* `Motor.Aims`: a motor has a command; frames and ticks keep it (`aims_feedBack`, `aims_handle`).
* `Drive.Within`: how many steps the thread still needs for the command that stands.
* `command_arrives`: in every run a command that stands for 27 steps of the thread is at all four
  motors.
-/

namespace Robot

/-! ## The thread -/

namespace Wheels

/-- The member `motor1` to `motor4` for a wheel. -/
def get (w : Wheels) : Fin 4 → ℚ
  | 0 => w.motor1
  | 1 => w.motor2
  | 2 => w.motor3
  | 3 => w.motor4

def set (w : Wheels) (k : Fin 4) (x : ℚ) : Wheels :=
  match k with
  | 0 => { w with motor1 := x }
  | 1 => { w with motor2 := x }
  | 2 => { w with motor3 := x }
  | 3 => { w with motor4 := x }

@[simp] theorem get_set (w : Wheels) (k : Fin 4) (x : ℚ) : (w.set k x).get k = x := by
  fin_cases k <;> rfl

theorem get_set_of_ne (w : Wheels) {j k : Fin 4} (x : ℚ) (h : j ≠ k) :
    (w.set k x).get j = w.get j := by
  revert h
  fin_cases j <;> fin_cases k <;> simp [get, set]

end Wheels

/-- Where `chassis_handle` is. -/
inductive DrivePc where
  /-- `motor_get_speed` -/
  | getSpeed (k : Fin 4)
  | inputSpeed
  /-- `motor_get_pos` -/
  | getPos (k : Fin 4)
  | inputPos
  /-- `chassis_updata_offset` and `switch (chassis->run_status)` -/
  | choose
  /-- The formula of `module_mai` for a wheel. -/
  | output (cmd : ChassisStatus) (k : Fin 4)
  /-- `motor_set_speed` or `motor_set_pos` -/
  | set (cmd : ChassisStatus) (k : Fin 4)
  deriving DecidableEq, Repr

/-- The next wheel, or what comes after the last. -/
def DrivePc.next (pc : Fin 4 → DrivePc) (k : Fin 4) (last : DrivePc) : DrivePc :=
  if h : k.val + 1 < 4 then pc ⟨k + 1, h⟩ else last

/-- The chassis, its thread, and the CAN loop with the motors. -/
structure Drive where
  chassis : Chassis
  pc : DrivePc
  loop : DjLoop

inductive DriveEvent where
  /-- The thread of the chassis goes on. -/
  | chassis
  /-- A frame interrupts. -/
  | frame (k : Fin 4) (data : Vector UInt8 8)
  /-- `can_rx_thread` goes on. -/
  | can (writeOk : Bool)
  /-- Another thread stores a target, or a part of one, and the status. -/
  | store (target : ChassisData) (runStatus : ChassisStatus)
  /-- Another thread stores the position: `chassis_pos_clean`. -/
  | clean (pos : ChassisPos ℚ)

/-- The `output` part of `driver_mai` for a wheel. -/
def DjLoop.driverMai (s : DjLoop) (cmd : ChassisStatus) (k : Fin 4) (x : ℚ) :
    Call (DjLoop × List DjLoopObs) :=
  match cmd with
  | .idle => .ret (s, [])
  | .speed => s.command (motorSetSpeed · k x)
  | .pos => s.command (motorSetPos · k x)

namespace Drive

/-- A step of `chassis_handle`. -/
def thread (s : Drive) : Call (Drive × List DjLoopObs) :=
  match s.pc with
  | .getSpeed k => do
    let x ← motorGetSpeed s.loop.dj.motorList k
    pure ({ s with
      chassis.date := s.chassis.date.set k x, pc := .next .getSpeed k .inputSpeed }, [])
  | .inputSpeed => pure ({ s with chassis := moduleMaiInput s.chassis .speed, pc := .getPos 0 }, [])
  | .getPos k => do
    let x ← motorGetPos s.loop.dj.motorList k
    pure ({ s with chassis.date := s.chassis.date.set k x, pc := .next .getPos k .inputPos }, [])
  | .inputPos => pure ({ s with chassis := moduleMaiInput s.chassis .pos, pc := .choose }, [])
  | .choose =>
    let chassis := chassisUpdataOffset s.chassis
    match chassis.runStatus with
    | .idle => pure ({ s with chassis := chassis, pc := .getSpeed 0 }, [])
    | .speed => pure ({ s with chassis := chassis, pc := .output .speed 0 }, [])
    | .pos => pure ({ s with chassis := chassis, pc := .output .pos 0 }, [])
  | .output cmd k =>
    let x := (moduleMaiOutput s.chassis cmd).date.get k
    pure ({ s with
      chassis.date := s.chassis.date.set k x, pc := .next (.output cmd) k (.set cmd 0) }, [])
  | .set cmd k => do
    let (loop, l) ← s.loop.driverMai cmd k (s.chassis.date.get k)
    pure ({ s with loop := loop, pc := .next (.set cmd) k (.getSpeed 0) }, l)

/-- An event of the CAN loop. -/
def canLoop (s : Drive) (e : DjLoopEvent) : Option (Drive × List DjLoopObs) := do
  let (loop, l) ← s.loop.step e
  pure ({ s with loop := loop }, l)

def step (s : Drive) : DriveEvent → Option (Drive × List DjLoopObs)
  | .chassis => s.thread.ret?
  | .frame k data => s.canLoop (.frame k data)
  | .can writeOk => s.canLoop (.thread writeOk)
  | .store target runStatus =>
    some ({ s with chassis := { s.chassis with target := target, runStatus := runStatus } }, [])
  | .clean pos => some ({ s with chassis := { s.chassis with present.pos := pos } }, [])

/-- There is room in the ring of the CAN loop for the id of a frame. -/
def Room (s : Drive) : DriveEvent → Prop
  | .frame k data => s.loop.Room (.frame k data)
  | _ => True

instance (s : Drive) : (e : DriveEvent) → Decidable (s.Room e)
  | .frame k data => inferInstanceAs (Decidable (s.loop.Room (.frame k data)))
  | .chassis | .can _ | .store .. | .clean _ => isTrue trivial

/-- `chassis_port_handle` before its loop, after `motor_dj_init`. -/
def start (malloc : ℕ → List UInt8) (block : Apid) : Drive where
  chassis := chassisSetPos .zero .zero
  pc := .getSpeed 0
  loop := .start malloc block

end Drive

def DriveEvent.IsStore : DriveEvent → Prop
  | .store .. => True
  | _ => False

/-- A step of the thread of the chassis. -/
def DriveEvent.isChassis : DriveEvent → Bool
  | .chassis => true
  | _ => false

/-! ## The motors -/

/-- The motor has the command `cmd` with the value `x`. -/
def Motor.Aims (m : Motor) (cmd : ChassisStatus) (x : ℚ) : Prop :=
  match cmd with
  | .idle => True
  | .speed => m.flagRunMode = .speed ∧ m.tarSpeed = x
  | .pos => m.flagRunMode = .pos ∧ m.tarPos = x

section Aims

variable {m : Motor} {cmd : ChassisStatus} {x : ℚ}

theorem Motor.Aims.feedBack (h : m.Aims cmd x) (rxmsg : CanMsg) (mm : MotorMeasure) :
    (m.feedBack rxmsg mm).Aims cmd x := by
  cases cmd with
  | idle => trivial
  | speed | pos =>
    rw [Motor.Aims, Motor.feedBack]
    exact h

/-- A tick of the position mode writes the target of the speed, but not that of the position. -/
theorem Motor.Aims.handle (h : m.Aims cmd x) (hm : m.Limited) (cycle : { c : ℚ // 0 < c }) :
    (WheelOp.apply m (.handle cycle)).Aims cmd x := by
  cases cmd with
  | idle => trivial
  | speed =>
    obtain ⟨hmode, hx⟩ := h
    simp only [WheelOp.apply, hm.behaver, hmode, Behiver.run, motorBehiver2, Motor.speedLoop,
      Motor.Aims]
    exact ⟨trivial, hx⟩
  | pos =>
    obtain ⟨hmode, hx⟩ := h
    simp only [WheelOp.apply, hm.behaver, hmode, Behiver.run, motorBehiver2, Motor.speedLoop,
      Motor.posLoop, Motor.Aims]
    exact ⟨trivial, hx⟩

end Aims

namespace DjLoop

variable {s s' : DjLoop} {l : List DjLoopObs} {cmd : ChassisStatus} {x : ℚ}

/-- A motor of the CAN loop has a command. -/
abbrev Aims (s : DjLoop) (cmd : ChassisStatus) (k : Fin 4) (x : ℚ) : Prop :=
  (s.dj.motorList k).Aims cmd x

/-- No frame and no step of `can_rx_thread` changes the command of a motor. -/
theorem Aims.can {e : DjLoopEvent} {k : Fin 4} (h : s.Aims cmd k x) (hs : s.Inv)
    (hroom : s.Room e) (hstep : s.step e = some (s', l)) (he : ¬ e.IsCommand) :
    s'.Aims cmd k x := by
  obtain ⟨-, hd⟩ := does_of_step hs hroom hstep
  cases hd with
  | frame j data put got pc iq motors =>
    rcases motors k with hk | ⟨rxmsg, mm, hk⟩
    · rwa [Aims, hk]
    · rw [Aims, hk]
      exact h.feedBack rxmsg mm
  | wait writeOk put got pc dj | quiet writeOk c hpc ring pc dj => rwa [Aims, dj]
  | take writeOk i hpc put got pc iq motors | write writeOk c j hpc hc ring pc iq motors =>
    rwa [Aims, motors]
  | tick writeOk j i hpc hi ring iq motors pc =>
    rw [Aims, motors]
    by_cases hk : k = j
    · subst hk
      rw [MotorList.modify_same]
      exact h.handle (hs.motors k) _
    · rwa [MotorList.modify_ne _ _ hk]
  | command _ i f hcmd ring pc iq motors target => exact absurd hcmd he

/-- A call that gives a motor the command leaves the others alone. -/
theorem command_aims (hs : s.Inv) {f : MotorList 4 → Call (MotorList 4)} {k : Fin 4}
    {op : WheelOp} {e : DjLoopEvent}
    (hf : f s.dj.motorList = .ret (s.dj.motorList.modify k (WheelOp.apply · op)))
    (hroom : s.Room e) (he : s.step e = (s.command f).ret?)
    (hop : (op.apply (s.dj.motorList k)).Aims cmd x) :
    ∃ s', s.command f = .ret (s', []) ∧ s'.Inv ∧ s'.Aims cmd k x ∧
      ∀ j ≠ k, s'.dj.motorList j = s.dj.motorList j := by
  obtain ⟨s', hcall, hml⟩ : ∃ s', s.command f = .ret (s', []) ∧
      s'.dj.motorList = s.dj.motorList.modify k (WheelOp.apply · op) := by
    refine ⟨{ s with dj.motorList := s.dj.motorList.modify k (WheelOp.apply · op) }, ?_, rfl⟩
    simp only [command, hf, Call.ret_bind, Call.pure_eq]
  rw [hcall, Call.ret?_ret] at he
  refine ⟨s', hcall, (does_of_step hs hroom he).1, ?_, fun j hj => ?_⟩
  · rw [Aims, hml, MotorList.modify_same]
    exact hop
  · rw [hml, MotorList.modify_ne _ _ hj]

theorem driverMai_ret (hs : s.Inv) (cmd : ChassisStatus) (k : Fin 4) (x : ℚ) :
    ∃ s', s.driverMai cmd k x = .ret (s', []) ∧ s'.Inv ∧ s'.Aims cmd k x ∧
      ∀ j ≠ k, s'.dj.motorList j = s.dj.motorList j := by
  cases cmd with
  | idle => exact ⟨s, rfl, hs, trivial, fun _ _ => rfl⟩
  | speed =>
    have hf : motorSetSpeed s.dj.motorList k x =
        .ret (s.dj.motorList.modify k (WheelOp.apply · (.setSpeed x))) := by
      rw [motorSetSpeed, motorAssert_of_lt]
      rfl
    have haims : (WheelOp.apply (s.dj.motorList k) (.setSpeed x)).Aims .speed x := ⟨rfl, rfl⟩
    exact command_aims hs (f := (motorSetSpeed · k x)) (e := .setSpeed k x) hf trivial rfl haims
  | pos =>
    have hf : motorSetPos s.dj.motorList k x =
        .ret (s.dj.motorList.modify k (WheelOp.apply · (.setPos x))) := by
      rw [motorSetPos, motorAssert_of_lt]
      rfl
    have haims : (WheelOp.apply (s.dj.motorList k) (.setPos x)).Aims .pos x := ⟨rfl, rfl⟩
    exact command_aims hs (f := (motorSetPos · k x)) (e := .setPos k x) hf trivial rfl haims

end DjLoop

/-! ## The thread on the motors -/

/-- No access to the outputs: the thread reads, or chooses what to do. -/
def DrivePc.Reads : DrivePc → Prop
  | .output .. | .set .. => False
  | _ => True

/-- The steps up to the end of the round. -/
def DrivePc.left : DrivePc → ℕ
  | .getSpeed k => 19 - k
  | .inputSpeed => 15
  | .getPos k => 14 - k
  | .inputPos => 10
  | .choose => 9
  | .output _ k => 8 - k
  | .set _ k => 4 - k

/-- The thread has set motor `j` in this round. -/
def DrivePc.Past (pc : DrivePc) (j : Fin 4) : Prop :=
  match pc with
  | .set _ k => j < k
  | _ => False

theorem DrivePc.not_past_of_reads {pc : DrivePc} (h : pc.Reads) {j : Fin 4} : ¬ pc.Past j := by
  intro hpast
  cases pc with
  | output | set => exact h
  | _ => exact hpast

theorem DrivePc.next_getSpeed (k : Fin 4) :
    (next getSpeed k inputSpeed).Reads ∧
      (getSpeed k).left = (next getSpeed k inputSpeed).left + 1 := by
  fin_cases k <;> exact ⟨trivial, rfl⟩

theorem DrivePc.next_getPos (k : Fin 4) :
    (next getPos k inputPos).Reads ∧ (getPos k).left = (next getPos k inputPos).left + 1 := by
  fin_cases k <;> exact ⟨trivial, rfl⟩

theorem DrivePc.next_output (cmd : ChassisStatus) (k : Fin 4) :
    (output cmd k).left = (next (output cmd) k (set cmd 0)).left + 1 := by
  fin_cases k <;> rfl

theorem DrivePc.next_set (cmd : ChassisStatus) (k : Fin 4) :
    (set cmd k).left = (next (set cmd) k (getSpeed 0)).left + 1 ∨
      k = 3 ∧ next (set cmd) k (getSpeed 0) = getSpeed 0 := by
  fin_cases k
  · exact .inl rfl
  · exact .inl rfl
  · exact .inl rfl
  · exact .inr ⟨rfl, rfl⟩

namespace Drive

variable {s s' : Drive} {l : List DjLoopObs} {cmd : ChassisStatus} {w : Wheels}

/-- What every step keeps. -/
structure Inv (s : Drive) : Prop where
  loop : s.loop.Inv
  offset : s.chassis.Centered

theorem start_inv {malloc : ℕ → List UInt8} (hm : ∀ n, (malloc n).length = n) (block : Apid) :
    (start malloc block).Inv := ⟨DjLoop.start_inv hm block, rfl⟩

/-- What a step of the thread can do. -/
inductive ThreadDoes (s s' : Drive) : Prop where
  | read (hpc : s.pc.Reads) (pc : s'.pc.Reads) (left : s.pc.left = s'.pc.left + 1)
      (loop : s'.loop = s.loop)
  | idle (hpc : s.pc = .choose) (status : s.chassis.runStatus = .idle) (pc : s'.pc = .getSpeed 0)
      (loop : s'.loop = s.loop)
  | choose (hpc : s.pc = .choose) (pc : s'.pc = .output s.chassis.runStatus 0)
      (loop : s'.loop = s.loop)
  | output (cmd : ChassisStatus) (k : Fin 4) (hpc : s.pc = .output cmd k)
      (date : s'.chassis.date =
        s.chassis.date.set k ((moduleMaiOutput s.chassis cmd).date.get k))
      (pc : s'.pc = .next (.output cmd) k (.set cmd 0)) (loop : s'.loop = s.loop)
  | set (cmd : ChassisStatus) (k : Fin 4) (hpc : s.pc = .set cmd k)
      (date : s'.chassis.date = s.chassis.date) (pc : s'.pc = .next (.set cmd) k (.getSpeed 0))
      (aims : s'.loop.Aims cmd k (s.chassis.date.get k))
      (others : ∀ j ≠ k, s'.loop.dj.motorList j = s.loop.dj.motorList j)

/-- A step of the thread. -/
theorem thread_ret (h : s.Inv) :
    ∃ s' l, s.thread = .ret (s', l) ∧ s'.Inv ∧ s'.chassis.target = s.chassis.target ∧
      s'.chassis.runStatus = s.chassis.runStatus ∧ ThreadDoes s s' := by
  unfold thread
  cases hpc : s.pc with
  | getSpeed k =>
    simp only [motorGetSpeed, motorRead, motorAssert_of_lt, Call.ret_bind, Call.pure_eq]
    obtain ⟨hreads, hleft⟩ := DrivePc.next_getSpeed k
    exact ⟨_, _, rfl, ⟨h.loop, h.offset⟩, rfl, rfl, .read (hpc ▸ trivial) hreads (hpc ▸ hleft) rfl⟩
  | inputSpeed =>
    exact ⟨_, _, rfl, ⟨h.loop, h.offset⟩, rfl, rfl, .read (hpc ▸ trivial) trivial (hpc ▸ rfl) rfl⟩
  | getPos k =>
    simp only [motorGetPos, motorRead, motorAssert_of_lt, Call.ret_bind, Call.pure_eq]
    obtain ⟨hreads, hleft⟩ := DrivePc.next_getPos k
    exact ⟨_, _, rfl, ⟨h.loop, h.offset⟩, rfl, rfl, .read (hpc ▸ trivial) hreads (hpc ▸ hleft) rfl⟩
  | inputPos =>
    exact ⟨_, _, rfl, ⟨h.loop, h.offset⟩, rfl, rfl, .read (hpc ▸ trivial) trivial (hpc ▸ rfl) rfl⟩
  | choose =>
    have hoff : (chassisUpdataOffset s.chassis).Centered := by
      have := h.offset
      rw [Chassis.Centered] at this ⊢
      simp [chassisUpdataOffset, this, ChassisPos.zero]
    cases hstatus : s.chassis.runStatus with
    | idle =>
      simp only [chassisUpdataOffset, hstatus]
      exact ⟨_, _, rfl, ⟨h.loop, hoff⟩, rfl, rfl, .idle hpc hstatus rfl rfl⟩
    | speed =>
      simp only [chassisUpdataOffset, hstatus]
      exact ⟨_, _, rfl, ⟨h.loop, hoff⟩, rfl, rfl, .choose hpc (by rw [hstatus]) rfl⟩
    | pos =>
      simp only [chassisUpdataOffset, hstatus]
      exact ⟨_, _, rfl, ⟨h.loop, hoff⟩, rfl, rfl, .choose hpc (by rw [hstatus]) rfl⟩
  | output cmd k =>
    exact ⟨_, _, rfl, ⟨h.loop, h.offset⟩, rfl, rfl, .output cmd k hpc rfl rfl rfl⟩
  | set cmd k =>
    obtain ⟨loop, hcall, hinv, haims, hothers⟩ :=
      DjLoop.driverMai_ret h.loop cmd k (s.chassis.date.get k)
    simp only [hcall, Call.ret_bind, Call.pure_eq]
    exact ⟨_, _, rfl, ⟨hinv, h.offset⟩, rfl, rfl, .set cmd k hpc rfl rfl haims hothers⟩

/-! ## A command that stands -/

/-- The command `cmd` stands, and `w` are its wheels. -/
structure Stands (s : Drive) (cmd : ChassisStatus) (w : Wheels) : Prop where
  inv : s.Inv
  status : s.chassis.runStatus = cmd
  wheels : (moduleMaiOutput s.chassis cmd).date = w

/-- What the thread has computed is for the command. -/
def Fresh (s : Drive) (cmd : ChassisStatus) (w : Wheels) : Prop :=
  match s.pc with
  | .output c k => c = cmd ∧ ∀ j < k, s.chassis.date.get j = w.get j
  | .set c _ => c = cmd ∧ ∀ j, s.chassis.date.get j = w.get j
  | _ => True

/-- After at most `n` more steps of the thread the command has arrived at the motors. -/
inductive Within (s : Drive) (cmd : ChassisStatus) (w : Wheels) : ℕ → Prop where
  /-- Not with this round, but with the next. -/
  | stale {n : ℕ} (left : s.pc.left + 19 ≤ n) : Within s cmd w n
  | fresh {n : ℕ} (fresh : s.Fresh cmd w) (past : ∀ j, s.pc.Past j → s.loop.Aims cmd j (w.get j))
      (left : s.pc.left ≤ n) : Within s cmd w n
  | arrived {n : ℕ} (fresh : s.Fresh cmd w) (aims : ∀ j, s.loop.Aims cmd j (w.get j)) :
      Within s cmd w n

theorem Fresh.of_reads (h : s.pc.Reads) : s.Fresh cmd w := by
  unfold Fresh
  cases hpc : s.pc with
  | output | set =>
    rw [hpc] at h
    exact h.elim
  | _ => trivial

/-- The wheels are a function of the target. -/
theorem moduleMaiOutput_date {chassis chassis' : Chassis} (hcmd : cmd ≠ .idle)
    (htarget : chassis'.target = chassis.target) (h : chassis.Centered) (h' : chassis'.Centered) :
    (moduleMaiOutput chassis' cmd).date = (moduleMaiOutput chassis cmd).date := by
  rw [Chassis.Centered] at h h'
  cases cmd with
  | idle => exact absurd rfl hcmd
  | speed | pos => simp only [moduleMaiOutput, htarget, h, h']

section Thread

variable (hd : ThreadDoes s s')

include hd

theorem ThreadDoes.left_of_ne (hne : s.chassis.runStatus ≠ .idle) :
    s.pc.left = s'.pc.left + 1 ∨ s'.pc = .getSpeed 0 ∧ ∃ c, s.pc = .set c 3 := by
  cases hd with
  | read hpc pc left loop => exact .inl left
  | idle hpc status pc loop => exact absurd status hne
  | choose hpc pc loop =>
    rw [hpc, pc]
    exact .inl rfl
  | output c k hpc date pc loop =>
    rw [hpc, pc]
    exact .inl (DrivePc.next_output c k)
  | set c k hpc date pc aims others =>
    rw [hpc, pc]
    rcases DrivePc.next_set c k with hleft | ⟨rfl, hlast⟩
    · exact .inl hleft
    · exact .inr ⟨hlast, c, rfl⟩

theorem ThreadDoes.fresh (hs : s.Stands cmd w) (hf : s.Fresh cmd w) : s'.Fresh cmd w := by
  cases hd with
  | read hpc pc left loop => exact .of_reads pc
  | idle hpc status pc loop =>
    rw [Fresh, pc]
    trivial
  | choose hpc pc loop =>
    rw [Fresh, pc]
    exact ⟨hs.status, fun j hj => absurd hj (Fin.not_lt_zero j)⟩
  | output c k hpc date pc loop =>
    rw [Fresh, hpc] at hf
    obtain ⟨rfl, hf⟩ := hf
    have hdate : ∀ j ≤ k, s'.chassis.date.get j = w.get j := by
      intro j hj
      rw [date]
      by_cases hjk : j = k
      · rw [hjk, Wheels.get_set, hs.wheels]
      · rw [Wheels.get_set_of_ne _ _ hjk]
        exact hf j (lt_of_le_of_ne hj hjk)
    rw [Fresh, pc, DrivePc.next]
    by_cases hlast : k.val + 1 < 4
    · rw [dif_pos hlast]
      refine ⟨rfl, fun j hj => hdate j ?_⟩
      exact Nat.lt_succ_iff.mp hj
    · rw [dif_neg hlast]
      exact ⟨rfl, fun j => hdate j (by omega)⟩
  | set c k hpc date pc aims others =>
    rw [Fresh, hpc] at hf
    obtain ⟨rfl, hf⟩ := hf
    rw [Fresh, pc, DrivePc.next]
    by_cases hlast : k.val + 1 < 4
    · rw [dif_pos hlast, date]
      exact ⟨rfl, hf⟩
    · rw [dif_neg hlast]
      trivial

/-- A motor that has the command keeps it, and the motor that is set gets it. -/
theorem ThreadDoes.aims_of (hf : s.Fresh cmd w) {j : Fin 4}
    (h : s.loop.Aims cmd j (w.get j) ∨ s.pc = .set cmd j) : s'.loop.Aims cmd j (w.get j) := by
  have hsame : s'.loop = s.loop → s.pc ≠ .set cmd j → s'.loop.Aims cmd j (w.get j) := by
    intro hloop hpc
    rw [hloop]
    exact h.resolve_right hpc
  cases hd with
  | read hpc pc left loop =>
    refine hsame loop fun heq => ?_
    rw [heq] at hpc
    exact hpc
  | idle hpc status pc loop => exact hsame loop (by rw [hpc]; simp)
  | choose hpc pc loop => exact hsame loop (by rw [hpc]; simp)
  | output c k hpc date pc loop => exact hsame loop (by rw [hpc]; simp)
  | set c k hpc date pc aims others =>
    rw [Fresh, hpc] at hf
    obtain ⟨rfl, hf⟩ := hf
    by_cases hjk : j = k
    · rw [hjk, ← hf]
      exact aims
    · have hj : s.loop.Aims c j (w.get j) := by
        refine h.resolve_right fun heq => ?_
        rw [hpc] at heq
        exact hjk (DrivePc.set.inj heq).2.symm
      rwa [DjLoop.Aims, others j hjk]

theorem ThreadDoes.past {j : Fin 4} (h : s'.pc.Past j) :
    s.pc.Past j ∨ ∃ c, s.pc = .set c j := by
  cases hd with
  | read hpc pc left loop => exact absurd h (DrivePc.not_past_of_reads pc)
  | idle hpc status pc loop =>
    rw [pc] at h
    exact h.elim
  | choose hpc pc loop =>
    rw [pc] at h
    exact h.elim
  | output c k hpc date pc loop =>
    rw [pc, DrivePc.next] at h
    split at h
    · exact h.elim
    · exact absurd h (Fin.not_lt_zero j)
  | set c k hpc date pc aims others =>
    rw [pc, DrivePc.next] at h
    split at h
    · rcases (Nat.lt_succ_iff.mp h).lt_or_eq with hlt | heq
      · left
        rw [hpc]
        exact hlt
      · exact .inr ⟨c, by rw [hpc, Fin.ext heq]⟩
    · exact h.elim

end Thread

/-- A step of the thread. -/
theorem Within.thread {n : ℕ} (hw : s.Within cmd w n) (hs : s.Stands cmd w) (hcmd : cmd ≠ .idle)
    (hd : ThreadDoes s s') : s'.Within cmd w (n - 1) := by
  have hleft := hd.left_of_ne (by rwa [hs.status])
  cases hw with
  | stale left =>
    rcases hleft with hleft | ⟨hpc', c, hpc⟩
    · exact .stale (by omega)
    · have hreads : s'.pc.Reads := by
        rw [hpc']
        trivial
      refine .fresh (.of_reads hreads) (fun j hj => absurd hj (DrivePc.not_past_of_reads hreads)) ?_
      rw [hpc] at left
      rw [hpc']
      simp only [DrivePc.left] at left ⊢
      omega
  | fresh fresh past left =>
    have hset : ∀ j c, s.pc = .set c j → s.pc = .set cmd j := by
      intro j c hpc
      rw [Fresh, hpc] at fresh
      rw [hpc, fresh.1]
    rcases hleft with hleft | ⟨hpc', c, hpc⟩
    · refine .fresh (hd.fresh hs fresh) (fun j hj => hd.aims_of fresh ?_) (by omega)
      exact (hd.past hj).imp (past j) fun ⟨c, hpc⟩ => hset j c hpc
    · refine .arrived (hd.fresh hs fresh) fun j => hd.aims_of fresh ?_
      by_cases hj : j = 3
      · right
        rw [hj]
        exact hset 3 c hpc
      · left
        apply past
        rw [hpc]
        show j < 3
        omega
  | arrived fresh aims =>
    exact .arrived (hd.fresh hs fresh) fun j => hd.aims_of fresh (.inl (aims j))

/-- A step of the CAN loop. -/
theorem canLoop_ret (h : s.Inv) (e : DjLoopEvent) (hroom : s.loop.Room e) (he : ¬ e.IsCommand) :
    ∃ s' l, s.canLoop e = some (s', l) ∧ s'.Inv ∧ s'.chassis = s.chassis ∧ s'.pc = s.pc ∧
      ∀ cmd k x, s.loop.Aims cmd k x → s'.loop.Aims cmd k x := by
  obtain ⟨loop, l, hstep, hinv, -⟩ := DjLoop.step_ret h.loop e hroom
  refine ⟨{ s with loop := loop }, l, ?_, ⟨hinv, h.offset⟩, rfl, rfl, fun cmd k x hx => ?_⟩
  · simp only [canLoop, hstep, Option.bind_eq_bind, Option.bind_some, Option.pure_def]
  · exact DjLoop.Aims.can hx h.loop hroom hstep he

/-- What an event can do: the thread goes on, a target is stored, or the motors keep their
commands. -/
theorem step_ret (h : s.Inv) (e : DriveEvent) (hroom : s.Room e) :
    ∃ s' l, s.step e = some (s', l) ∧ s'.Inv ∧ (¬ e.IsStore →
      s'.chassis.target = s.chassis.target ∧ s'.chassis.runStatus = s.chassis.runStatus ∧
      if e.isChassis then ThreadDoes s s' else
        s'.pc = s.pc ∧ s'.chassis.date = s.chassis.date ∧
          ∀ cmd k x, s.loop.Aims cmd k x → s'.loop.Aims cmd k x) := by
  cases e with
  | chassis =>
    obtain ⟨s', l, hcall, hinv, htarget, hstatus, hd⟩ := thread_ret h
    refine ⟨s', l, ?_, hinv, fun _ => ⟨htarget, hstatus, hd⟩⟩
    rw [step, hcall, Call.ret?_ret]
  | frame k data =>
    obtain ⟨s', l, hstep, hinv, hc, hpc, haims⟩ := canLoop_ret h (.frame k data) hroom id
    exact ⟨s', l, hstep, hinv, fun _ => ⟨by rw [hc], by rw [hc], hpc, by rw [hc], haims⟩⟩
  | can writeOk =>
    obtain ⟨s', l, hstep, hinv, hc, hpc, haims⟩ := canLoop_ret h (.thread writeOk) trivial id
    exact ⟨s', l, hstep, hinv, fun _ => ⟨by rw [hc], by rw [hc], hpc, by rw [hc], haims⟩⟩
  | store target runStatus =>
    exact ⟨_, _, rfl, ⟨h.loop, h.offset⟩, fun hstore => absurd trivial hstore⟩
  | clean pos =>
    exact ⟨_, _, rfl, ⟨h.loop, h.offset⟩, fun _ => ⟨rfl, rfl, rfl, rfl, fun _ _ _ hx => hx⟩⟩

/-- A step of another thread. -/
theorem Within.others {n : ℕ} (hw : s.Within cmd w n) (hpc : s'.pc = s.pc)
    (hdate : s'.chassis.date = s.chassis.date)
    (haims : ∀ cmd k x, s.loop.Aims cmd k x → s'.loop.Aims cmd k x) : s'.Within cmd w n := by
  have hfresh : s.Fresh cmd w → s'.Fresh cmd w := by
    intro hf
    rwa [Fresh, hpc, hdate]
  cases hw with
  | stale left => exact .stale (by rwa [hpc])
  | fresh fresh past left =>
    refine .fresh (hfresh fresh) (fun j hj => haims _ _ _ (past j ?_)) (by rwa [hpc])
    rwa [← hpc]
  | arrived fresh aims => exact .arrived (hfresh fresh) fun j => haims _ _ _ (aims j)

/-- An event that is no store: a step of the thread brings the command closer. -/
theorem Within.step {n : ℕ} {e : DriveEvent} (hcmd : cmd ≠ .idle)
    (h : s.Stands cmd w ∧ s.Within cmd w n) (hroom : s.Room e) (he : ¬ e.IsStore)
    (hstep : s.step e = some (s', l)) :
    s'.Stands cmd w ∧ s'.Within cmd w (if e.isChassis then n - 1 else n) := by
  obtain ⟨hs, hw⟩ := h
  obtain ⟨s₁, l₁, h₁, hinv, hdoes⟩ := step_ret hs.inv e hroom
  rw [h₁] at hstep
  obtain ⟨rfl, rfl⟩ := Prod.mk.inj (Option.some.inj hstep)
  obtain ⟨htarget, hstatus, hdoes⟩ := hdoes he
  refine ⟨⟨hinv, hstatus.trans hs.status, ?_⟩, ?_⟩
  · rw [moduleMaiOutput_date hcmd htarget hs.inv.offset hinv.offset, hs.wheels]
  -- of all events only a step of the thread counts
  · split at hdoes
    next hchassis =>
      rw [if_pos hchassis]
      exact hw.thread hs hcmd hdoes
    next hchassis =>
      rw [if_neg hchassis]
      exact hw.others hdoes.1 hdoes.2.1 hdoes.2.2

/-- From anywhere a command arrives with 27 steps. -/
theorem within_of_pc (s : Drive) (cmd : ChassisStatus) (w : Wheels) : s.Within cmd w 27 := by
  cases hpc : s.pc with
  | output c k | set c k =>
    refine .stale ?_
    rw [hpc, DrivePc.left]
    omega
  | _ =>
    have hreads : s.pc.Reads := by
      rw [hpc]
      trivial
    refine .fresh (.of_reads hreads) (fun j hj => absurd hj (DrivePc.not_past_of_reads hreads)) ?_
    rw [hpc, DrivePc.left]
    omega

theorem Within.arrive (h : s.Within cmd w 0) (k : Fin 4) : s.loop.Aims cmd k (w.get k) := by
  have hpos : 0 < s.pc.left := by
    cases hpc : s.pc <;> simp only [DrivePc.left] <;> omega
  cases h with
  | stale left => omega
  | fresh fresh past left => omega
  | arrived fresh aims => exact aims k

end Drive

/-- The thread of the chassis, `can_rx_thread` with frames between any two of its accesses to the
ring, and other threads that store targets and commands at any time, also between the formulas of
two wheels and between two motors. No run in which the ring has room for the frames stops. Once a
command stands for 27 steps of the thread, all four motors have it, with the values that
`module_mai` gives for its target, and keep it until another one is stored. -/
theorem command_arrives (malloc : ℕ → List UInt8) (hm : ∀ n, (malloc n).length = n) (block : Apid)
    (es₁ es₂ : List DriveEvent)
    (hroom : AllSteps Drive.step Drive.Room (.start malloc block) (es₁ ++ es₂))
    (hstands : ∀ e ∈ es₂, ¬ e.IsStore) (hlong : 27 ≤ es₂.countP DriveEvent.isChassis) :
    ∃ s₁ l₁ s₂ l₂, runLog Drive.step (.start malloc block) es₁ = some (s₁, l₁) ∧
      runLog Drive.step s₁ es₂ = some (s₂, l₂) ∧
      ∀ k, (s₂.loop.dj.motorList k).Aims s₁.chassis.runStatus
        ((moduleMaiOutput s₁.chassis s₁.chassis.runStatus).date.get k) := by
  have hret : ∀ (s : Drive) (e : DriveEvent), s.Inv → s.Room e →
      ∃ s' l, s.step e = some (s', l) ∧ s'.Inv := by
    intro s e hs hroom
    obtain ⟨s', l, hstep, hinv, -⟩ := Drive.step_ret hs e hroom
    exact ⟨s', l, hstep, hinv⟩
  obtain ⟨s₁, l₁, hrun₁, hs₁⟩ := runLog_ret hret (Drive.start_inv hm block) hroom.left
  have hroom₂ := hroom.right hrun₁
  obtain ⟨s₂, l₂, hrun₂, -⟩ := runLog_ret hret hs₁ hroom₂
  refine ⟨s₁, l₁, s₂, l₂, hrun₁, hrun₂, fun k => ?_⟩
  by_cases hidle : s₁.chassis.runStatus = .idle
  · rw [hidle]
    trivial
  · let w := (moduleMaiOutput s₁.chassis s₁.chassis.runStatus).date
    let P (n : ℕ) (s : Drive) : Prop :=
      s.Stands s₁.chassis.runStatus w ∧ s.Within s₁.chassis.runStatus w n
    have h₁ : P 27 s₁ := ⟨⟨hs₁, rfl, rfl⟩, Drive.within_of_pc s₁ _ w⟩
    have h₂ : P (27 - es₂.countP DriveEvent.isChassis) s₂ :=
      runLog_countdown (fun n s e s' l h hC hstep => Drive.Within.step hidle h hC.1 hC.2 hstep)
        h₁ (hroom₂.and (allSteps_of_forall hstands)) hrun₂
    rw [Nat.sub_eq_zero_of_le hlong] at h₂
    exact h₂.2.arrive k

/-- A target is stored while the thread computes the wheels of the one before, with frames and
steps of `can_rx_thread` in between. -/
def driveRun : List DriveEvent :=
  List.replicate 12 .chassis ++ [.frame 1 (.replicate 8 0), .store ⟨⟨0, 1, 0⟩, .zero⟩ .speed]

theorem command_arrives_ahead :
    ∃ s₁ l₁ s₂ l₂, runLog Drive.step (.start (List.replicate · 0) .zero) driveRun = some (s₁, l₁) ∧
      runLog Drive.step s₁ ([.can true, .can true] ++ List.replicate 27 .chassis ++ [.can true]) =
        some (s₂, l₂) ∧
      ∀ k, (s₂.loop.dj.motorList k).Aims s₁.chassis.runStatus
        ((moduleMaiOutput s₁.chassis s₁.chassis.runStatus).date.get k) :=
  command_arrives _ (by simp) .zero _ _ (by decide +kernel)
    (by simp [DriveEvent.IsStore]) (by decide)

end Robot
