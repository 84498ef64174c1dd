import ConstructionRobot.Lib.Trace
import ConstructionRobot.Robotarm.Loop
import ConstructionRobot.Stepper.Line

/-!
# The thread that moves the arm (`drv_stepper_motor`)

The thread cuts the power of both motors, so that the arm can be put in its first posture by hand,
and reads their angles until both were seen within a degree of it. A motor is switched on when its
angle is seen there for the first time. Then the positions are set to zero and the robot may drive.
From then on the thread sends the pulses that the sketch has computed, with a sign for each motor.

The sketch stores the pulses of the two motors one after the other, the thread loads them one after
the other, and every other step may come in between.

* `ArmControl.step`: the thread, its calls on the line (`EmmLine`), and the sketch (`ArmState`).
* `Homing.next`: what may be observed of the thread, as a machine of its own.
  `homing_refines`: every run is one of that machine.
-/

namespace Robot

open Robotarm

namespace Arm

/-- The address of the motor. -/
def addr : Arm → UInt8
  | big => 1
  | small => 3

/-- The angle of the first posture. -/
def homeAngle : Arm → ℚ
  | big => 252.7
  | small => -45.2

/-- The angle is the one of the first posture, up to a degree. -/
def AtHome (a : Arm) (angle : ℚ) : Prop := |angle - a.homeAngle| < 1

instance (a : Arm) (angle : ℚ) : Decidable (a.AtHome angle) := inferInstanceAs (Decidable (_ < _))

/-- No motor starts at home: the angles are zero before the first answer. -/
theorem not_atHome_zero (a : Arm) : ¬ a.AtHome 0 := by
  cases a <;> norm_num [AtHome, homeAngle, abs_of_pos]

/-- The direction that is sent with a number of pulses. -/
def dir (a : Arm) (pulse : ℤ) : UInt8 :=
  match a with
  | big => if 0 < pulse then 0 else 1
  | small => if 0 < pulse then 1 else 0

end Arm

/-- Where the thread is: at the calls of `Emm_V5.c` (`unload` and `enable` are
`Emm_V5_En_Control`), at its tests, or at the loads of the pulses. -/
inductive ControlPc where
  | unload (a : Arm)
  | ask (a : Arm)
  | test (a : Arm)
  | enable (a : Arm)
  | testBoth
  | zero (a : Arm)
  | lineMode
  | load (a : Arm)
  | direct
  | pos (a : Arm)
  /-- The parameters that are still to be read. -/
  | query (qs : List (Arm × SysParams))
  /-- The negation of a pulse has overflowed. -/
  | overflow
  deriving DecidableEq, Repr

/-- The line, the sketch and the thread. `target` is `abig_arm_pulse` and `asmall_arm_pulse`; the
last three fields are the variables of the thread for the two motors. -/
structure ArmControl (F : Type) where
  line : EmmLine
  sketch : ArmState F
  /-- The stores that the loop of the sketch has still to do. -/
  stores : List Arm
  target : Arm → ℤ
  pc : ControlPc
  initFlag : Arm → Bool
  pulse : Arm → ℤ
  dir : Arm → UInt8

/-- What happens next: a step of the thread, or of the call it is in; the line; the loop that
decodes answers; a loop of the sketch or a shell command; a store of the sketch. -/
inductive ControlEvent (F : Type) where
  | control
  | send
  | arrive (bs : List UInt8)
  | indicate (size : ℕ)
  | decode
  | sketch (e : ArmEvent F)
  | store

inductive ControlObs (F : Type) where
  | line (o : LineObs)
  | report (r : ArmReport F)
  | lineMode
  | overflow

/-- The pulses of a motor. -/
def Robotarm.ArmState.pulse {F : Type} (s : ArmState F) : Arm → ℤ
  | .big => s.abigArmPulse
  | .small => s.asmallArmPulse

def Robotarm.ArmReport.pulse {F : Type} (r : ArmReport F) : Arm → ℤ
  | .big => r.big
  | .small => r.small

/-- The parameters that are read after the positions were sent. -/
def queries : List (Arm × SysParams) :=
  [Arm.big, .small].flatMap fun a => [SysParams.cpos, .vel, .perr, .flag, .org, .cpha].map (a, ·)

/-- Where the thread goes from here, if no test sends it elsewhere. -/
def ControlPc.next : ControlPc → ControlPc
  | unload .big => unload .small
  | unload .small => ask .big
  | ask .big => ask .small
  | ask .small => test .big
  | test .big | enable .big => test .small
  | test .small | enable .small => testBoth
  | testBoth => zero .big
  | zero .big => zero .small
  | zero .small => lineMode
  | lineMode => load .big
  | load .big => load .small
  | load .small => direct
  | direct => pos .big
  | pos .big => pos .small
  | pos .small => query queries
  | query [] => load .big
  | query (_ :: qs) => query qs
  | overflow => overflow

namespace ArmControl

variable {F : Type}

def onLine (s : ArmControl F) (e : LineEvent) : Option (ArmControl F × List (ControlObs F)) :=
  (s.line.step e).map fun r => ({ s with line := r.1 }, r.2.map .line)

/-- The thread calls a function of `Emm_V5.c`. -/
def call (s : ArmControl F) (c : EmmCommand) (pc : ControlPc) :
    Option (ArmControl F × List (ControlObs F)) :=
  ({ s with pc := pc } : ArmControl F).onLine (.call 0 c)

/-- The pulse that is sent: without its sign. -/
def magnitude (s : ArmControl F) (a : Arm) : ℤ := if 0 < s.pulse a then s.pulse a else -s.pulse a

/-- A step of `drv_stepper_motor`. It does not go on before its call has returned. -/
def thread (s : ArmControl F) : Option (ArmControl F × List (ControlObs F)) :=
  if s.line.st.senders 0 ≠ .idle then none
  else match s.pc with
  | .unload .big => s.call (.enControl 1 0 0) (.unload .small)
  | .unload .small => s.call (.enControl 3 0 0) (.ask .big)
  | .ask .big => s.call (.readSysParams 1 .cpos) (.ask .small)
  | .ask .small => s.call (.readSysParams 3 .cpos) (.test .big)
  | .test a =>
    let next := if a = .big then .test .small else .testBoth
    some ({ s with
      pc := if a.AtHome (s.line.st.motors a).angle ∧ s.initFlag a = false then .enable a
        else next }, [])
  | .enable .big =>
    ({ s with initFlag := Function.update s.initFlag .big true } : ArmControl F).call
      (.enControl 1 1 0) (.test .small)
  | .enable .small =>
    ({ s with initFlag := Function.update s.initFlag .small true } : ArmControl F).call
      (.enControl 3 1 0) .testBoth
  | .testBoth =>
    some ({ s with
      pc := if s.initFlag .big ∧ s.initFlag .small then .zero .big else .ask .big }, [])
  | .zero .big => s.call (.resetCurPosToZero 1) (.zero .small)
  | .zero .small => s.call (.resetCurPosToZero 3) .lineMode
  | .lineMode => some ({ s with pc := .load .big }, [.lineMode])
  | .load .big =>
    some ({ s with pulse := Function.update s.pulse .big (s.target .big), pc := .load .small }, [])
  | .load .small =>
    some ({ s with pulse := Function.update s.pulse .small (s.target .small), pc := .direct }, [])
  | .direct =>
    -- the negation of the least value has no result
    if s.pulse .big = -2 ^ 31 ∨ s.pulse .small = -2 ^ 31 then
      some ({ s with pc := .overflow }, [.overflow])
    else
      some ({ s with pulse := s.magnitude, dir := fun a => a.dir (s.pulse a), pc := .pos .big }, [])
  | .pos .big =>
    s.call (.posControl 1 (s.dir .big) 100 20 (UInt32.ofInt (s.pulse .big)) 1 0) (.pos .small)
  | .pos .small =>
    s.call (.posControl 3 (s.dir .small) 100 20 (UInt32.ofInt (s.pulse .small)) 1 0)
      (.query queries)
  | .query [] => some ({ s with pc := .load .big }, [])
  | .query ((a, p) :: qs) => s.call (.readSysParams a.addr p) (.query qs)
  | .overflow => none

variable [Libm F]

/-- One step of the system. The loop of the sketch goes on behind its stores. -/
def step (s : ArmControl F) : ControlEvent F → Option (ArmControl F × List (ControlObs F))
  | .control => s.thread
  | .send => s.onLine (.sender 0)
  | .arrive bs => s.onLine (.arrive bs)
  | .indicate size => s.onLine (.indicate size)
  | .decode => s.onLine .loop
  | .sketch (.loop micros₁ micros₂) =>
    if s.stores = [] then
      (s.sketch.step (.loop micros₁ micros₂)).map fun r =>
        ({ s with sketch := r.1, stores := [.big, .small] }, r.2.map .report)
    else none
  | .sketch e => (s.sketch.step e).map fun r => ({ s with sketch := r.1 }, r.2.map .report)
  | .store =>
    match s.stores with
    | [] => none
    | a :: rest => some
        ({ s with target := Function.update s.target a (s.sketch.pulse a), stores := rest }, [])

/-- When the thread starts; `setup` was called at the time `micros`, and `uart` is what has already
arrived. -/
def start (micros : ℤ) (uart : List UInt8) : ArmControl F where
  line := .start (fun _ => ⟨0, 0, 0, 0, 0, 0, 0, 0, 0, 0, 0⟩) uart
  sketch := setup micros
  stores := []
  target _ := 0
  pc := .unload .big
  initFlag _ := false
  pulse _ := 0
  dir _ := 0

end ArmControl

/-! ## What the thread may do -/

/-- The angle in an answer. -/
def RxCmd.angle (rx : RxCmd) : ℚ :=
  (Telemetry.cpos.assign rx ⟨0, 0, 0, 0, 0, 0, 0, 0, 0, 0, 0⟩).angle

/-- An answer of the motor with the angle of its first posture was decoded. -/
def StepObs.atHome (a : Arm) : StepObs → Bool
  | .assigned .cpos _ _ rx => emmV5IdJudge rx = some a ∧ a.AtHome rx.angle
  | _ => false

namespace ControlObs

variable {F : Type}

def atHome (a : Arm) : ControlObs F → Bool
  | line (.loop o) => o.atHome a
  | _ => false

def ofLine : ControlObs F → Option LineObs
  | line o => some o
  | _ => none

/-- Not an act of the thread. -/
def quiet : ControlObs F → Bool
  | line (.called _ _) | lineMode => false
  | _ => true

end ControlObs

/-- Which motors have answered that they are at home, which are on, which were set to zero, and if
the robot may drive. -/
structure Homing where
  seen : Arm → Bool
  enabled : Arm → Bool
  zeroed : Arm → Bool
  line : Bool

namespace Homing

variable {F : Type}

def start : Homing := ⟨fun _ => false, fun _ => false, fun _ => false, false⟩

/-- The motor with this address. -/
def armOf (addr : UInt8) : Option Arm :=
  if addr = 1 then some .big else if addr = 3 then some .small else none

/-- The commands that are allowed. Parameters may be read at any time; the power is cut only while
it is off; a motor is switched on once, and only if it was seen at home; the positions are set to
zero once, after both are on; and nothing moves before that. -/
def command (h : Homing) : EmmCommand → Option Homing
  | .readSysParams _ _ => some h
  | .enControl addr state _ => (armOf addr).bind fun a =>
    if state = 0 then if h.enabled .big || h.enabled .small then none else some h
    else if state = 1 ∧ h.seen a ∧ h.enabled a = false then
      some { h with enabled := Function.update h.enabled a true }
    else none
  | .resetCurPosToZero addr => (armOf addr).bind fun a =>
    if h.enabled .big ∧ h.enabled .small ∧ h.zeroed a = false ∧ h.line = false then
      some { h with zeroed := Function.update h.zeroed a true }
    else none
  | .posControl addr _ _ _ _ _ _ => (armOf addr).bind fun _ => if h.line then some h else none
  | _ => none

def next (h : Homing) : ControlObs F → Option Homing
  | .line (.loop o) => some { h with seen := fun a => h.seen a || o.atHome a }
  | .line (.called _ c) => h.command c
  | .line (.sent _ _) => some h
  | .report _ => some h
  | .lineMode =>
    if h.zeroed .big ∧ h.zeroed .small ∧ h.line = false then some { h with line := true } else none
  | .overflow => some h

/-- What is not an act of the thread changes only what is seen. -/
theorem foldlM_quiet (l : List (ControlObs F)) (hl : ∀ o ∈ l, o.quiet) (h : Homing) :
    l.foldlM next h = some { h with seen := fun a => h.seen a || l.any (·.atHome a) } := by
  induction l generalizing h with
  | nil => simp
  | cons o l ih =>
    obtain ⟨ho, hl⟩ := List.forall_mem_cons.mp hl
    have hnext : h.next o = some { h with seen := fun a => h.seen a || o.atHome a } := by
      cases o with
      | line lo => cases lo <;> simp_all [next, ControlObs.atHome, ControlObs.quiet]
      | report r => simp [next, ControlObs.atHome]
      | lineMode => simp [ControlObs.quiet] at ho
      | overflow => simp [next, ControlObs.atHome]
    rw [List.foldlM_cons, hnext, Option.bind_eq_bind, Option.bind_some, ih hl]
    simp [Bool.or_assoc]

end Homing

/-! ## The angles -/

namespace Stepper

variable {st st₁ : Stepper}

theorem senderStep_motors {i : ℕ} (h : st.senderStep i = some st₁) : st₁.motors = st.motors := by
  unfold senderStep at h
  cases hs : st.senders i with
  | idle => simp [hs] at h
  | take s =>
    simp only [hs] at h
    obtain ⟨mutex, -, rfl⟩ := Option.map_eq_some_iff.mp h
    rfl
  | set s | transmit | unlock | post =>
    simp only [hs] at h
    cases h
    rfl

/-- A step of the loop changes no motor, or one of them by its answer. -/
theorem loopStep_motors {l₁ : List StepObs} (h : st.loopStep = some (st₁, l₁)) :
    st₁.motors = st.motors ∨ ∃ k got a, .assigned k st.cmdState got st.rxCmd ∈ l₁ ∧
      emmV5IdJudge st.rxCmd = some a ∧
      st₁.motors = Function.update st.motors a (k.assign st.rxCmd (st.motors a)) := by
  cases hl : st.loop with
  | decode k got =>
    simp only [loopStep, hl, Option.some.injEq, decode] at h
    cases hj : emmV5IdJudge st.rxCmd with
    | none =>
      simp only [hj, again, Prod.mk.injEq] at h
      exact .inl (by rw [← h.1])
    | some a =>
      simp only [hj, again, unlock] at h
      split at h
      · simp only [Prod.mk.injEq] at h
        obtain ⟨rfl, rfl⟩ := h
        exact .inr ⟨k, got, a, List.mem_cons_self, rfl, rfl⟩
      · simp only [Prod.mk.injEq] at h
        exact .inl (by rw [← h.1])
  | waitStep | waitMutex | waitCmp | dispatch | read k =>
    left
    cases loopStep_case h with
    | assign k got arm hl' => simp [hl] at hl'
    | fetch => simp [readReply]
    | _ => rfl

/-- The angle of a motor changes only by an answer with a position. -/
theorem assign_angle (k : Telemetry) (rx : RxCmd) (m : StepperMotor) :
    (k.assign rx m).angle = if k = .cpos then rx.angle else m.angle := by
  cases k <;> rfl

/-- A motor that is at home after a step was there before, or its answer says so. -/
theorem step_atHome {e : StepEvent} {l₁ : List StepObs} (h : st.step e = some (st₁, l₁)) {a : Arm}
    (ha : a.AtHome (st₁.motors a).angle) :
    a.AtHome (st.motors a).angle ∨ ∃ o ∈ l₁, o.atHome a := by
  cases e with
  | call i s =>
    simp only [step] at h
    split at h
    · cases h
      exact .inl ha
    · cases h
  | sender i =>
    obtain ⟨st', hst, heq⟩ := Option.map_eq_some_iff.mp h
    cases heq
    exact .inl (senderStep_motors hst ▸ ha)
  | arrive bs =>
    cases h
    exact .inl ha
  | indicate size =>
    obtain ⟨st', hst, heq⟩ := Option.map_eq_some_iff.mp h
    cases heq
    rw [callback_frame hst] at ha
    exact .inl ha
  | loop =>
    rcases loopStep_motors h with hm | ⟨k, got, a', ho, hj, hm⟩
    · exact .inl (hm ▸ ha)
    · by_cases hcase : a = a' ∧ k = .cpos
      · obtain ⟨rfl, rfl⟩ := hcase
        rw [hm, Function.update_self, assign_angle, if_pos rfl] at ha
        exact .inr ⟨_, ho, by simp [StepObs.atHome, hj, ha]⟩
      · left
        rw [hm] at ha
        by_cases haa : a = a'
        · subst haa
          rwa [Function.update_self, assign_angle, if_neg fun hk => hcase ⟨rfl, hk⟩] at ha
        · rwa [Function.update_of_ne haa] at ha

end Stepper

/-! ## Homing -/

namespace ArmControl

variable {F : Type} {s s₁ : ArmControl F} {l₁ : List (ControlObs F)}

/-- A call of the thread. -/
theorem call_spec {c : EmmCommand} {pc : ControlPc} (h : s.call c pc = some (s₁, l₁)) :
    ∃ line, s₁ = { s with pc := pc, line := line } ∧ line.st.motors = s.line.st.motors ∧
      l₁ = [.line (.called 0 c)] := by
  simp only [call, onLine, EmmLine.step, EmmLine.lift, Stepper.step, Option.map_eq_some_iff,
    Prod.exists, Prod.mk.injEq] at h
  obtain ⟨line, l, ⟨line', l', ⟨st, l'', hst, rfl, rfl⟩, rfl, rfl⟩, rfl, rfl⟩ := h
  split at hst
  · cases hst
    exact ⟨_, rfl, rfl, rfl⟩
  · cases hst

/-- A step of the thread, by the place where it is. -/
inductive ThreadCase (s : ArmControl F) : ArmControl F → List (ControlObs F) → Prop where
  | unload (a : Arm) {s₁ l₁} (hpc : s.pc = .unload a)
      (hcall : s.call (.enControl a.addr 0 0) (ControlPc.unload a).next = some (s₁, l₁)) :
      ThreadCase s s₁ l₁
  | ask (a : Arm) {s₁ l₁} (hpc : s.pc = .ask a)
      (hcall : s.call (.readSysParams a.addr .cpos) (ControlPc.ask a).next = some (s₁, l₁)) :
      ThreadCase s s₁ l₁
  | home (a : Arm) (hpc : s.pc = .test a)
      (hhome : a.AtHome (s.line.st.motors a).angle ∧ s.initFlag a = false) :
      ThreadCase s { s with pc := .enable a } []
  | away (a : Arm) (hpc : s.pc = .test a)
      (hhome : ¬(a.AtHome (s.line.st.motors a).angle ∧ s.initFlag a = false)) :
      ThreadCase s { s with pc := (ControlPc.test a).next } []
  | enable (a : Arm) {s₁ l₁} (hpc : s.pc = .enable a)
      (hcall : ({ s with initFlag := Function.update s.initFlag a true } : ArmControl F).call
        (.enControl a.addr 1 0) (ControlPc.enable a).next = some (s₁, l₁)) :
      ThreadCase s s₁ l₁
  | both (hpc : s.pc = .testBoth) (hflags : ∀ a, s.initFlag a = true) :
      ThreadCase s { s with pc := .zero .big } []
  | again (hpc : s.pc = .testBoth) (hflags : ¬∀ a, s.initFlag a = true) :
      ThreadCase s { s with pc := .ask .big } []
  | zero (a : Arm) {s₁ l₁} (hpc : s.pc = .zero a)
      (hcall : s.call (.resetCurPosToZero a.addr) (ControlPc.zero a).next = some (s₁, l₁)) :
      ThreadCase s s₁ l₁
  | lineMode (hpc : s.pc = .lineMode) : ThreadCase s { s with pc := .load .big } [.lineMode]
  | load (a : Arm) (hpc : s.pc = .load a) :
      ThreadCase s
        { s with
          pulse := Function.update s.pulse a (s.target a)
          pc := (ControlPc.load a).next } []
  | overflow (hpc : s.pc = .direct) (hmin : ∃ a, s.pulse a = -2 ^ 31) :
      ThreadCase s { s with pc := .overflow } [.overflow]
  | direct (hpc : s.pc = .direct) (hmin : ∀ a, s.pulse a ≠ -2 ^ 31) :
      ThreadCase s
        { s with pulse := s.magnitude, dir := fun a => a.dir (s.pulse a), pc := .pos .big } []
  | pos (a : Arm) {s₁ l₁} (hpc : s.pc = .pos a)
      (hcall : s.call (.posControl a.addr (s.dir a) 100 20 (UInt32.ofInt (s.pulse a)) 1 0)
        (ControlPc.pos a).next = some (s₁, l₁)) :
      ThreadCase s s₁ l₁
  | queried (hpc : s.pc = .query []) : ThreadCase s { s with pc := .load .big } []
  | query {a p qs s₁ l₁} (hpc : s.pc = .query ((a, p) :: qs))
      (hcall : s.call (.readSysParams a.addr p) (.query qs) = some (s₁, l₁)) :
      ThreadCase s s₁ l₁

theorem thread_test {a : Arm} (hpc : s.pc = .test a) (h : s.thread = some (s₁, l₁)) :
    s.ThreadCase s₁ l₁ := by
  simp only [thread, hpc, Option.ite_none_left_eq_some, Option.some.injEq, Prod.mk.injEq] at h
  obtain ⟨-, rfl, rfl⟩ := h
  split
  case isTrue hhome => exact .home a hpc hhome
  case isFalse hhome =>
    have hnext : (if a = .big then ControlPc.test .small else .testBoth) =
        (ControlPc.test a).next := by
      cases a <;> rfl
    rw [hnext]
    exact .away a hpc hhome

theorem thread_testBoth (hpc : s.pc = .testBoth) (h : s.thread = some (s₁, l₁)) :
    s.ThreadCase s₁ l₁ := by
  simp only [thread, hpc, Option.ite_none_left_eq_some, Option.some.injEq, Prod.mk.injEq] at h
  obtain ⟨-, rfl, rfl⟩ := h
  split
  case isTrue hboth =>
    refine .both hpc fun a => ?_
    cases a with
    | big => exact hboth.1
    | small => exact hboth.2
  case isFalse hboth => exact .again hpc fun hflags => hboth ⟨hflags .big, hflags .small⟩

theorem thread_direct (hpc : s.pc = .direct) (h : s.thread = some (s₁, l₁)) :
    s.ThreadCase s₁ l₁ := by
  simp only [thread, hpc, Option.ite_none_left_eq_some] at h
  obtain ⟨-, h⟩ := h
  split at h
  case isTrue hmin =>
    cases h
    exact .overflow hpc (hmin.elim (fun hbig => ⟨.big, hbig⟩) fun hsmall => ⟨.small, hsmall⟩)
  case isFalse hmin =>
    cases h
    refine .direct hpc fun a ha => hmin ?_
    cases a with
    | big => exact .inl ha
    | small => exact .inr ha

/-- Every step of the thread is one of these. -/
theorem thread_case (h : s.thread = some (s₁, l₁)) : s.ThreadCase s₁ l₁ := by
  cases hpc : s.pc with
  | test a => exact thread_test hpc h
  | testBoth => exact thread_testBoth hpc h
  | direct => exact thread_direct hpc h
  | unload a =>
    cases a <;> simp only [thread, hpc, Option.ite_none_left_eq_some] at h <;>
      exact .unload _ hpc h.2
  | ask a =>
    cases a <;> simp only [thread, hpc, Option.ite_none_left_eq_some] at h <;>
      exact .ask _ hpc h.2
  | enable a =>
    cases a <;> simp only [thread, hpc, Option.ite_none_left_eq_some] at h <;>
      exact .enable _ hpc h.2
  | zero a =>
    cases a <;> simp only [thread, hpc, Option.ite_none_left_eq_some] at h <;>
      exact .zero _ hpc h.2
  | pos a =>
    cases a <;> simp only [thread, hpc, Option.ite_none_left_eq_some] at h <;>
      exact .pos _ hpc h.2
  | lineMode =>
    simp only [thread, hpc, Option.ite_none_left_eq_some, Option.some.injEq, Prod.mk.injEq] at h
    obtain ⟨-, rfl, rfl⟩ := h
    exact .lineMode hpc
  | load a =>
    cases a <;>
      simp only [thread, hpc, Option.ite_none_left_eq_some, Option.some.injEq, Prod.mk.injEq] at h <;>
      obtain ⟨-, rfl, rfl⟩ := h <;> exact .load _ hpc
  | query qs =>
    cases qs with
    | nil =>
      simp only [thread, hpc, Option.ite_none_left_eq_some, Option.some.injEq, Prod.mk.injEq] at h
      obtain ⟨-, rfl, rfl⟩ := h
      exact .queried hpc
    | cons q qs =>
      simp only [thread, hpc, Option.ite_none_left_eq_some] at h
      exact .query hpc h.2
  | overflow => simp [thread, hpc] at h

/-- A step of the thread is a call, or leaves the line alone. -/
theorem thread_line (h : s.thread = some (s₁, l₁)) :
    (∃ (s' : ArmControl F) (c : EmmCommand) (pc : ControlPc), s'.line = s.line ∧
      s'.call c pc = some (s₁, l₁)) ∨ (s₁.line = s.line ∧ l₁.filterMap ControlObs.ofLine = []) := by
  cases thread_case h with
  | enable a hpc hcall =>
    exact .inl ⟨{ s with initFlag := Function.update s.initFlag a true }, _, _, rfl, hcall⟩
  | unload a hpc hcall | ask a hpc hcall | zero a hpc hcall | pos a hpc hcall =>
    exact .inl ⟨s, _, _, rfl, hcall⟩
  | query hpc hcall => exact .inl ⟨s, _, _, rfl, hcall⟩
  | home | away | both | again | lineMode | load | overflow | direct | queried =>
    exact .inr ⟨rfl, rfl⟩

/-- What is not a call leaves the thread alone, and is not one of its acts. -/
theorem onLine_spec {e : LineEvent} (he : ∀ i c, e ≠ .call i c)
    (h : s.onLine e = some (s₁, l₁)) :
    ∃ line, s₁ = { s with line := line } ∧ (∀ o ∈ l₁, o.quiet) ∧
      ∀ a : Arm, a.AtHome (line.st.motors a).angle →
        a.AtHome (s.line.st.motors a).angle ∨ l₁.any (·.atHome a) := by
  simp only [onLine, Option.map_eq_some_iff, Prod.exists, Prod.mk.injEq] at h
  obtain ⟨line, l, hstep, rfl, rfl⟩ := h
  refine ⟨line, rfl, ?_, fun a ha => ?_⟩
  · intro o ho
    obtain ⟨lo, hlo, rfl⟩ := List.mem_map.mp ho
    cases lo with
    | called i c => exact absurd hlo (EmmLine.step_not_called he hstep i c)
    | sent i c | loop o' => rfl
  · rcases EmmLine.step_projects hstep with ⟨e', he'⟩ | ⟨hst, -⟩
    · rcases Stepper.step_atHome he' ha with hold | ⟨o, ho, hhome⟩
      · exact .inl hold
      · obtain ⟨lo, hlo, hof⟩ := List.mem_filterMap.mp ho
        right
        cases lo with
        | loop o' =>
          cases hof
          simpa using ⟨_, hlo, hhome⟩
        | called i c => cases hof
        | sent i c => cases hof
    · rw [hst] at ha
      exact .inl ha

end ArmControl

namespace Homing

variable {F : Type}

/-- Where the thread is, as far as the motors are concerned. -/
def Phase (h : Homing) (s : ArmControl F) : Prop :=
  match s.pc with
  | .unload _ => (∀ a, h.enabled a = false) ∧ (∀ a, h.zeroed a = false) ∧ h.line = false
  | .ask _ | .test _ | .testBoth => (∀ a, h.zeroed a = false) ∧ h.line = false
  | .enable a =>
    h.seen a ∧ h.enabled a = false ∧ (∀ a, h.zeroed a = false) ∧ h.line = false
  | .zero a =>
    (∀ a, h.enabled a = true) ∧ h.zeroed .big = decide (a = .small) ∧ h.zeroed .small = false ∧
      h.line = false
  | .lineMode => (∀ a, h.zeroed a = true) ∧ h.line = false
  | .load _ | .direct | .pos _ | .query _ | .overflow => h.line = true

structure Agrees (h : Homing) (s : ArmControl F) : Prop where
  enabled : ∀ a, h.enabled a = s.initFlag a
  seen : ∀ a : Arm, a.AtHome (s.line.st.motors a).angle → h.seen a
  phase : h.Phase s

variable {h : Homing} {s s₁ : ArmControl F} {l₁ : List (ControlObs F)}

/-- What is not an act of the thread. -/
theorem Agrees.quiet (hA : h.Agrees s) (hl : ∀ o ∈ l₁, o.quiet) (hpc : s₁.pc = s.pc)
    (hflag : s₁.initFlag = s.initFlag)
    (hhome : ∀ a : Arm, a.AtHome (s₁.line.st.motors a).angle →
      a.AtHome (s.line.st.motors a).angle ∨ l₁.any (·.atHome a)) :
    ∃ h₁, l₁.foldlM next h = some h₁ ∧ h₁.Agrees s₁ := by
  refine ⟨_, foldlM_quiet l₁ hl h, ?_, fun a ha => ?_, ?_⟩
  · rw [hflag]
    exact hA.enabled
  · rw [Bool.or_eq_true]
    rcases hhome a ha with hold | hnew
    · exact .inl (hA.seen a hold)
    · exact .inr hnew
  · have hphase := hA.phase
    unfold Phase at hphase ⊢
    rw [hpc]
    split <;> simp_all

/-- A call of the thread that is allowed. -/
theorem agrees_call {c : EmmCommand} {pc : ControlPc} (hcall : s.call c pc = some (s₁, l₁))
    (h₁ : Homing) (hcmd : h.command c = some h₁)
    (henabled : ∀ a, h₁.enabled a = s.initFlag a)
    (hseen : ∀ a : Arm, a.AtHome (s.line.st.motors a).angle → h₁.seen a)
    (hphase : h₁.Phase ({ s with pc := pc } : ArmControl F)) :
    ∃ h₁, l₁.foldlM next h = some h₁ ∧ h₁.Agrees s₁ := by
  obtain ⟨line, rfl, hmotors, rfl⟩ := ArmControl.call_spec hcall
  refine ⟨h₁, ?_, henabled, fun a ha => hseen a ?_, hphase⟩
  · rw [List.foldlM_cons, next, hcmd]
    rfl
  · rwa [hmotors] at ha

/-- A step of the thread that is not a call and is not observed. -/
theorem Agrees.move (hA : h.Agrees s) (hl : l₁ = [])
    (hflag : s₁.initFlag = s.initFlag) (hline : s₁.line = s.line) (hphase : h.Phase s₁) :
    ∃ h₁, l₁.foldlM next h = some h₁ ∧ h₁.Agrees s₁ := by
  subst hl
  refine ⟨h, rfl, ?_, ?_, hphase⟩
  · rw [hflag]
    exact hA.enabled
  · rw [hline]
    exact hA.seen

section Thread

variable {a : Arm}

theorem Agrees.unload (hA : h.Agrees s) (hpc : s.pc = .unload a)
    (hcall : s.call (.enControl a.addr 0 0) (ControlPc.unload a).next = some (s₁, l₁)) :
    ∃ h₁, l₁.foldlM next h = some h₁ ∧ h₁.Agrees s₁ := by
  have hphase := hA.phase
  simp only [Phase, hpc] at hphase
  obtain ⟨hen, hz, hline⟩ := hphase
  have hcmd : h.command (.enControl a.addr 0 0) = some h := by
    cases a <;> simp [command, armOf, Arm.addr, hen]
  refine agrees_call hcall h hcmd hA.enabled hA.seen ?_
  cases a with
  | big => exact ⟨hen, hz, hline⟩
  | small => exact ⟨hz, hline⟩

theorem Agrees.home (hA : h.Agrees s) (hpc : s.pc = .test a)
    (hhome : a.AtHome (s.line.st.motors a).angle ∧ s.initFlag a = false) :
    h.Phase ({ s with pc := .enable a } : ArmControl F) := by
  have hphase := hA.phase
  simp only [Phase, hpc] at hphase
  exact ⟨hA.seen a hhome.1, (hA.enabled a).trans hhome.2, hphase⟩

theorem Agrees.enable (hA : h.Agrees s) (hpc : s.pc = .enable a)
    (hcall : ({ s with initFlag := Function.update s.initFlag a true } : ArmControl F).call
      (.enControl a.addr 1 0) (ControlPc.enable a).next = some (s₁, l₁)) :
    ∃ h₁, l₁.foldlM next h = some h₁ ∧ h₁.Agrees s₁ := by
  have hphase := hA.phase
  simp only [Phase, hpc] at hphase
  obtain ⟨hseen, hen, hz, hline⟩ := hphase
  have hcmd : h.command (.enControl a.addr 1 0) =
      some { h with enabled := Function.update h.enabled a true } := by
    cases a <;> simp [command, armOf, Arm.addr, hseen, hen]
  refine agrees_call hcall _ hcmd (fun a' => ?_) hA.seen ?_
  · show Function.update h.enabled a true a' = Function.update s.initFlag a true a'
    rw [funext hA.enabled]
  · cases a <;> exact ⟨hz, hline⟩

theorem Agrees.both (hA : h.Agrees s) (hpc : s.pc = .testBoth)
    (hflags : ∀ a, s.initFlag a = true) :
    h.Phase ({ s with pc := .zero .big } : ArmControl F) := by
  have hphase := hA.phase
  simp only [Phase, hpc] at hphase
  exact ⟨fun a => (hA.enabled a).trans (hflags a), by simp [hphase.1], hphase.1 .small, hphase.2⟩

theorem Agrees.zero (hA : h.Agrees s) (hpc : s.pc = .zero a)
    (hcall : s.call (.resetCurPosToZero a.addr) (ControlPc.zero a).next = some (s₁, l₁)) :
    ∃ h₁, l₁.foldlM next h = some h₁ ∧ h₁.Agrees s₁ := by
  have hphase := hA.phase
  simp only [Phase, hpc] at hphase
  obtain ⟨hen, hzb, hzs, hline⟩ := hphase
  have hcmd : h.command (.resetCurPosToZero a.addr) =
      some { h with zeroed := Function.update h.zeroed a true } := by
    cases a <;> simp [command, armOf, Arm.addr, hen, hzb, hzs, hline]
  refine agrees_call hcall _ hcmd hA.enabled hA.seen ?_
  cases a with
  | big => exact ⟨hen, by simp, by simpa using hzs, hline⟩
  | small =>
    refine ⟨fun a => ?_, hline⟩
    cases a with
    | big => simpa using hzb
    | small => simp

theorem Agrees.lineMode (hA : h.Agrees s) (hpc : s.pc = .lineMode) :
    ∃ h₁, [ControlObs.lineMode (F := F)].foldlM next h = some h₁ ∧
      h₁.Agrees { s with pc := .load .big } := by
  have hphase := hA.phase
  simp only [Phase, hpc] at hphase
  refine ⟨{ h with line := true }, ?_, hA.enabled, hA.seen, rfl⟩
  simp [next, hphase]

theorem Agrees.pos (hA : h.Agrees s) (hpc : s.pc = .pos a)
    (hcall : s.call (.posControl a.addr (s.dir a) 100 20 (UInt32.ofInt (s.pulse a)) 1 0)
      (ControlPc.pos a).next = some (s₁, l₁)) :
    ∃ h₁, l₁.foldlM next h = some h₁ ∧ h₁.Agrees s₁ := by
  have hphase := hA.phase
  simp only [Phase, hpc] at hphase
  refine agrees_call hcall h ?_ hA.enabled hA.seen ?_
  · cases a <;> simp [command, armOf, Arm.addr, hphase]
  · cases a <;> exact hphase

/-- A step of the thread. -/
theorem Agrees.thread (hA : h.Agrees s) (hstep : s.thread = some (s₁, l₁)) :
    ∃ h₁, l₁.foldlM next h = some h₁ ∧ h₁.Agrees s₁ := by
  have hphase := hA.phase
  cases ArmControl.thread_case hstep with
  | unload a hpc hcall => exact hA.unload hpc hcall
  | home a hpc hhome => exact hA.move rfl rfl rfl (hA.home hpc hhome)
  | enable a hpc hcall => exact hA.enable hpc hcall
  | both hpc hflags => exact hA.move rfl rfl rfl (hA.both hpc hflags)
  | zero a hpc hcall => exact hA.zero hpc hcall
  | lineMode hpc => exact hA.lineMode hpc
  | pos a hpc hcall => exact hA.pos hpc hcall
  | ask a hpc hcall =>
    simp only [Phase, hpc] at hphase
    refine agrees_call hcall h rfl hA.enabled hA.seen ?_
    cases a <;> exact hphase
  | away a hpc hhome =>
    simp only [Phase, hpc] at hphase
    refine hA.move rfl rfl rfl ?_
    cases a <;> exact hphase
  | again hpc hflags =>
    simp only [Phase, hpc] at hphase
    exact hA.move rfl rfl rfl hphase
  | load a hpc =>
    simp only [Phase, hpc] at hphase
    refine hA.move rfl rfl rfl ?_
    cases a <;> exact hphase
  | overflow hpc hmin =>
    simp only [Phase, hpc] at hphase
    exact ⟨h, rfl, hA.enabled, hA.seen, hphase⟩
  | direct hpc hmin | queried hpc =>
    simp only [Phase, hpc] at hphase
    exact hA.move rfl rfl rfl hphase
  | query hpc hcall =>
    simp only [Phase, hpc] at hphase
    exact agrees_call hcall h rfl hA.enabled hA.seen hphase

end Thread

variable [Libm F]

theorem start_agrees (micros : ℤ) (uart : List UInt8) :
    start.Agrees (.start micros uart : ArmControl F) where
  enabled _ := rfl
  seen a ha := absurd ha a.not_atHome_zero
  phase := ⟨fun _ => rfl, fun _ => rfl, rfl⟩

/-- One step of the system. -/
theorem Agrees.step (hA : h.Agrees s) {e : ControlEvent F} (hstep : s.step e = some (s₁, l₁)) :
    ∃ h₁, l₁.foldlM next h = some h₁ ∧ h₁.Agrees s₁ := by
  cases e with
  | control => exact hA.thread hstep
  | send | arrive bs | indicate size | decode =>
    obtain ⟨line, rfl, hl, hhome⟩ := ArmControl.onLine_spec (by simp) hstep
    exact hA.quiet hl rfl rfl hhome
  | sketch e =>
    have hquiet : ∀ {l : List (ArmReport F)}, ∀ o ∈ l.map ControlObs.report, o.quiet := by
      intro l o ho
      obtain ⟨r, -, rfl⟩ := List.mem_map.mp ho
      rfl
    cases e with
    | loop micros₁ micros₂ =>
      simp only [ArmControl.step] at hstep
      split at hstep
      · simp only [Option.map_eq_some_iff, Prod.mk.injEq] at hstep
        obtain ⟨r, -, rfl, rfl⟩ := hstep
        exact hA.quiet hquiet rfl rfl fun a ha => .inl ha
      · cases hstep
    | armYAdd20 | armYReduce20 | armZAdd20 | armZReduce20 | armCtrl ymm zmm =>
      simp only [ArmControl.step, Option.map_eq_some_iff, Prod.mk.injEq] at hstep
      obtain ⟨r, -, rfl, rfl⟩ := hstep
      exact hA.quiet hquiet rfl rfl fun a ha => .inl ha
  | store =>
    simp only [ArmControl.step] at hstep
    split at hstep
    · cases hstep
    · simp only [Option.some.injEq, Prod.mk.injEq] at hstep
      obtain ⟨rfl, rfl⟩ := hstep
      exact hA.quiet (by simp) rfl rfl fun a ha => .inl ha

end Homing

/-- Every run of the thread, with answers, callbacks, shell commands and floats of any kind, is one
that `Homing` allows: no motor is switched on that was not seen at home, none twice, and none is
moved before both are on and set to zero and the robot may drive. -/
theorem homing_refines {F : Type} [Libm F] (micros : ℤ) (uart : List UInt8)
    (es : List (ControlEvent F)) (s : ArmControl F) (log : List (ControlObs F))
    (hrun : runLog ArmControl.step (.start micros uart) es = some (s, log)) :
    (log.foldlM Homing.next Homing.start).isSome := by
  have hinv : ∃ h, log.foldlM Homing.next Homing.start = some h ∧ h.Agrees s := by
    have hstep : ∀ (s : ArmControl F) (log : List (ControlObs F)) e s₁ l₁,
        (∃ h, log.foldlM Homing.next Homing.start = some h ∧ h.Agrees s) → True →
        s.step e = some (s₁, l₁) →
        ∃ h, (log ++ l₁).foldlM Homing.next Homing.start = some h ∧ h.Agrees s₁ := by
      rintro s log e s₁ l₁ ⟨h, hlog, hA⟩ - h₁
      obtain ⟨h', hl₁, hA₁⟩ := hA.step h₁
      refine ⟨h', ?_, hA₁⟩
      rw [List.foldlM_append, hlog]
      exact hl₁
    have hstart : ∃ h, ([] : List (ControlObs F)).foldlM Homing.next Homing.start = some h ∧
        h.Agrees (.start micros uart : ArmControl F) :=
      ⟨_, rfl, Homing.start_agrees micros uart⟩
    exact runLog_history hstep hstart
      (allSteps_of_forall (C := fun _ => True) fun _ _ => trivial) hrun
  obtain ⟨h, hlog, -⟩ := hinv
  rw [hlog]
  rfl

/-- A call of the thread, the steps of the call, its answer, and the steps that decode it. -/
def ControlEvent.answered {F : Type} (sends : ℕ) (answer : List UInt8) (steps : ℕ) :
    List (ControlEvent F) :=
  control :: List.replicate sends send ++ [arrive answer, indicate answer.length] ++
    List.replicate steps decode

/-- The thread finds the big arm at home and switches it on. -/
def bigAtHome {F : Type} : List (ControlEvent F) :=
  ControlEvent.answered 11 [1, 0xF3, 2, 0x6B] 4 ++ ControlEvent.answered 11 [3, 0xF3, 2, 0x6B] 4 ++
    ControlEvent.answered 8 [1, 0x36, 0, 0, 0, 0xB3, 0xB3, 0x6B] 6 ++
    ControlEvent.answered 8 [3, 0x36, 1, 0, 0, 0, 0, 0x6B] 6 ++ [.control, .control]

theorem homing_refines_big :
    ∃ s log, runLog ArmControl.step (.start 0 [] : ArmControl XReal) bigAtHome = some (s, log) ∧
      (log.any fun | .line (.called 0 (.enControl 1 1 0)) => true | _ => false) ∧
      (log.foldlM Homing.next Homing.start).isSome := by
  have heval : (runLog ArmControl.step (.start 0 [] : ArmControl XReal) bigAtHome).map
      (fun r => r.2.any fun | .line (.called 0 (.enControl 1 1 0)) => true | _ => false) =
        some true := by
    decide +kernel
  obtain ⟨⟨s, log⟩, hrun, hany⟩ := Option.map_eq_some_iff.mp heval
  exact ⟨s, log, hrun, hany, homing_refines 0 [] _ s log hrun⟩

end Robot
