import ConstructionRobot.Lib.Sys
import Mathlib.Data.Rat.Defs

/-!
# The stepper motors (`drv_stepper_motor.c`, `Emm_V5.c`)

Two stepper motors on one serial line. A sender takes `mutex_step`, stores in
`stepper_motor_cmd_state` what it asks for, sends the command, gives the mutex back and releases
`step_sem`. The receive callback stores the number of buffered bytes in `rxCount` and releases
`cmp_sem` if there are enough for the answer. The loop of `drv_process_steppermotor` takes both
semaphores and the mutex, and decodes the answer.

* `Stepper.step`: one step of a sender, of the line, of the callback or of the loop. The steps of
  the loop are the three waits, the `switch`, the read and the decoding, so that everything else
  may happen in between.
* The semaphores count, and the mutex may be taken again by its owner.
* Positions are rational numbers; the flags, the speed and the current have the types of the
  source.
-/

namespace Robot

/-- `SysParams_t`; `other` is any value that has no name. -/
inductive SysParams where
  | ver | rl | pid | vbus | cpha | encl | tpos | vel | cpos | perr | flag | conf | state | org
  | idle | ans | other
  deriving DecidableEq, Repr

/-- The function code that `Emm_V5_Read_Sys_Params` puts behind the address. -/
def SysParams.functionCode : SysParams → List UInt8
  | .ver => [0x1F]
  | .rl => [0x20]
  | .pid => [0x21]
  | .vbus => [0x24]
  | .cpha => [0x27]
  | .encl => [0x31]
  | .tpos => [0x33]
  | .vel => [0x35]
  | .cpos => [0x36]
  | .perr => [0x37]
  | .flag => [0x3A]
  | .org => [0x3B]
  | .conf => [0x42, 0x6C]
  | .state => [0x43, 0x7A]
  | .idle | .ans | .other => []

def emmV5ReadSysParams (addr : UInt8) (s : SysParams) : List UInt8 :=
  addr :: s.functionCode ++ [0x6B]

inductive Telemetry where
  | cpha | vel | cpos | perr | flag | org
  deriving DecidableEq, Repr

namespace Telemetry

def sysParams : Telemetry → SysParams
  | cpha => .cpha
  | vel => .vel
  | cpos => .cpos
  | perr => .perr
  | flag => .flag
  | org => .org

def len : Telemetry → ℕ
  | cpha => 5
  | vel => 6
  | cpos | perr => 8
  | flag | org => 4

/-- The function code that the loop asks for before it decodes; three answers are decoded
whatever their code. -/
def checked : Telemetry → Option UInt8
  | cpha => some 0x27
  | vel => some 0x35
  | cpos => some 0x36
  | perr | flag | org => none

end Telemetry

/-- The fields of `stepper_motor_t` that the loop writes. -/
structure StepperMotor where
  speed : UInt16
  angle : ℚ
  err : ℚ
  reachflag : UInt8
  stallflag : UInt8
  enflag : UInt8
  encokflag : UInt8
  calibrationflag : UInt8
  returnzeroingflag : UInt8
  returnzeroFailflag : UInt8
  current : UInt16
  deriving DecidableEq, Repr

abbrev RxCmd := Vector UInt8 128

/-- Two bytes of `rxCmd`, high byte first. -/
def RxCmd.word (rx : RxCmd) (i : Fin 127) : UInt16 :=
  UInt16.ofNat (rx[i.val].toNat * 256 + rx[i.val + 1].toNat)

/-- The position in the bytes 3 to 6, in degrees. -/
def RxCmd.degrees (rx : RxCmd) : ℚ :=
  (((rx[3].toNat * 256 + rx[4].toNat) * 256 + rx[5].toNat) * 256 + rx[6].toNat : ℕ) * 360 / 65536

/-- What the loop stores of an answer. -/
def Telemetry.assign (k : Telemetry) (rx : RxCmd) (m : StepperMotor) : StepperMotor :=
  match k with
  | .cpha => { m with current := rx.word 2 }
  | .vel => { m with speed := if rx[2] ≠ 0 then -(rx.word 3) else rx.word 3 }
  | .cpos => { m with angle := if rx[2] ≠ 0 then -rx.degrees else rx.degrees }
  | .perr => { m with err := if rx[2] ≠ 0 then -rx.degrees else rx.degrees }
  | .flag => { m with
      reachflag := rx[2] &&& 0x02
      stallflag := rx[2] &&& 0x04
      enflag := rx[2] &&& 0x01 }
  | .org => { m with
      calibrationflag := rx[2] &&& 0x02
      returnzeroingflag := rx[2] &&& 0x04
      encokflag := rx[2] &&& 0x01
      returnzeroFailflag := rx[2] &&& 0x08 }

inductive Arm where
  | big | small
  deriving DecidableEq, Repr

def emmV5IdJudge (rx : RxCmd) : Option Arm :=
  if rx[0] = 1 then some .big
  else if rx[0] = 3 then some .small
  else none

/-- `rt_device_read` into `rxCmd`: the bytes it got, and the old ones behind them. -/
def RxCmd.read (rx : RxCmd) (got : List UInt8) : RxCmd :=
  .ofFn fun i => if h : i.val < got.length then got[i.val] else rx[i.val]

/-! ## The system -/

inductive StepTid where
  | receiver
  | sender (i : ℕ)
  deriving DecidableEq, Repr

/-- Where a sender is. `s` is the state it will set: the parameter it asks for, or `ans` for a
command. -/
inductive SenderPc where
  | idle
  | take (s : SysParams)
  | set (s : SysParams)
  | transmit
  | unlock
  | post
  deriving DecidableEq, Repr

/-- Where the loop is; `got` are the bytes that the last read returned. -/
inductive LoopPc where
  | waitStep
  | waitMutex
  | waitCmp
  | dispatch
  | read (k : Telemetry)
  | decode (k : Telemetry) (got : List UInt8)
  deriving DecidableEq, Repr

/-- The globals of the driver, the bytes in the buffer of the serial device, where the threads are,
and the holds of the loop when its iteration began. -/
structure Stepper where
  cmdState : SysParams
  rxCount : UInt8
  rxCmd : RxCmd
  uart : List UInt8
  stepSem : ℕ
  cmpSem : ℕ
  mutex : Mutex StepTid
  motors : Arm → StepperMotor
  senders : ℕ → SenderPc
  loop : LoopPc
  held₀ : ℕ

/-- What happens next: thread `i` calls a sender, or goes on in it; bytes arrive; the receive
callback; a step of the loop. -/
inductive StepEvent where
  | call (i : ℕ) (s : SysParams)
  | sender (i : ℕ)
  | arrive (bs : List UInt8)
  | indicate (size : ℕ)
  | loop

/-- An iteration has ended, with the holds of the loop before and after it, or fields of a motor
were assigned from the answer `k` in `rx`, in state `s`, after a read of the bytes `got`. -/
inductive StepObs where
  | iteration (before after : ℕ)
  | assigned (k : Telemetry) (s : SysParams) (got : List UInt8) (rx : RxCmd)
  deriving DecidableEq, Repr

namespace Stepper

/-- The number of bytes for which the callback releases `cmp_sem`. -/
def signals (s : SysParams) (size : ℕ) : Bool :=
  match s with
  | .cpha => 5 ≤ size
  | .vel => 6 ≤ size
  | .cpos | .perr => 8 ≤ size
  | .flag | .org | .ans => 4 ≤ size
  | .idle => true
  | _ => false

/-- `Emm_uart_receive_callback`. In a state without a name it does not return. -/
def callback (st : Stepper) (size : ℕ) : Option Stepper :=
  if st.cmdState = .other then none
  else some { st with
    rxCount := UInt8.ofNat size
    cmpSem := if signals st.cmdState size then st.cmpSem + 1 else st.cmpSem }

def senderStep (st : Stepper) (i : ℕ) : Option Stepper :=
  match st.senders i with
  | .idle => none
  | .take s => (st.mutex.take (.sender i)).map fun mutex =>
    { st with mutex := mutex, senders := Function.update st.senders i (.set s) }
  | .set s => some { st with cmdState := s, senders := Function.update st.senders i .transmit }
  | .transmit => some { st with senders := Function.update st.senders i .unlock }
  | .unlock => some { st with
      mutex := st.mutex.release (.sender i), senders := Function.update st.senders i .post }
  | .post => some { st with
      stepSem := st.stepSem + 1, senders := Function.update st.senders i .idle }

/-- `rt_device_read (Emm_serial1, 0, tmp, 60)`. -/
def discard (st : Stepper) : Stepper := { st with uart := st.uart.drop 60 }

/-- `rt_mutex_release (mutex_step)` by the loop. -/
def unlock (st : Stepper) : Stepper := { st with mutex := st.mutex.release .receiver }

def again (st : Stepper) : Stepper × List StepObs :=
  ({ st with loop := .waitStep }, [.iteration st.held₀ (st.mutex.held .receiver)])

/-- A case of the `switch` with an answer: it is read if `rxCount` has all of it. -/
def dispatchReply (st : Stepper) (k : Telemetry) : Stepper × List StepObs :=
  if k.len ≤ st.rxCount.toNat then ({ st with loop := .read k }, []) else st.discard.again

def dispatch (st : Stepper) : Stepper × List StepObs :=
  match st.cmdState with
  | .idle => st.discard.again
  | .ver | .rl | .pid | .vbus | .encl | .tpos | .conf | .state => st.again
  | .cpha => st.dispatchReply .cpha
  | .vel => st.dispatchReply .vel
  | .cpos => st.dispatchReply .cpos
  | .perr => st.dispatchReply .perr
  | .flag => st.dispatchReply .flag
  | .org => st.dispatchReply .org
  | .ans => ({ st with cmdState := .idle } : Stepper).discard.unlock.again
  | .other => st.discard.unlock.again

/-- `Emm_V5_Receive (rxCmd, len)`: a short read is only logged. -/
def readReply (st : Stepper) (k : Telemetry) : Stepper :=
  { st with
    rxCmd := st.rxCmd.read (st.uart.take k.len)
    uart := st.uart.drop k.len
    loop := .decode k (st.uart.take k.len) }

/-- The rest of the case: the motor of the answer, its function code, and the assignments. The
mutex is given back only behind the assignments. -/
def decode (st : Stepper) (k : Telemetry) (got : List UInt8) : Stepper × List StepObs :=
  match emmV5IdJudge st.rxCmd with
  | none => st.again
  | some arm =>
    if k.checked.all (st.rxCmd[1] = ·) then
      let r := ({ st with
        motors := Function.update st.motors arm (k.assign st.rxCmd (st.motors arm))
        cmdState := .idle } : Stepper).unlock.again
      (r.1, .assigned k st.cmdState got st.rxCmd :: r.2)
    else st.again

/-- A step of the loop of `drv_process_steppermotor`; `none` while it waits. -/
def loopStep (st : Stepper) : Option (Stepper × List StepObs) :=
  match st.loop with
  | .waitStep =>
    if 0 < st.stepSem then
      some ({ st with
        stepSem := st.stepSem - 1, loop := .waitMutex, held₀ := st.mutex.held .receiver }, [])
    else none
  | .waitMutex => (st.mutex.take .receiver).map fun mutex =>
    ({ st with mutex := mutex, loop := .waitCmp }, [])
  | .waitCmp =>
    if 0 < st.cmpSem then some ({ st with cmpSem := st.cmpSem - 1, loop := .dispatch }, [])
    else none
  | .dispatch => some st.dispatch
  | .read k => some (st.readReply k, [])
  | .decode k got => some (st.decode k got)

/-- One step of the system. -/
def step (st : Stepper) : StepEvent → Option (Stepper × List StepObs)
  | .call i s =>
    if st.senders i = .idle then
      some ({ st with senders := Function.update st.senders i (.take s) }, [])
    else none
  | .sender i => (st.senderStep i).map (·, [])
  | .arrive bs => some ({ st with uart := st.uart ++ bs }, [])
  | .indicate size => (st.callback size).map (·, [])
  | .loop => st.loopStep

/-- The system when the loop starts: nobody has called yet. -/
def start (motors : Arm → StepperMotor) (uart : List UInt8) : Stepper where
  cmdState := .idle
  rxCount := 0
  rxCmd := .replicate 128 0
  uart := uart
  stepSem := 0
  cmpSem := 0
  mutex := .free
  motors := motors
  senders _ := .idle
  loop := .waitStep
  held₀ := 0

end Stepper

/-! ## What a step of the loop can do -/

/-- The answer `k` in `rx` is decoded: it is from one of the motors, and has the function code if
that is checked. -/
def Telemetry.Accepts (k : Telemetry) (rx : RxCmd) : Prop :=
  (rx[0] = 1 ∨ rx[0] = 3) ∧ ∀ code ∈ k.checked, rx[1] = code

instance (k : Telemetry) (rx : RxCmd) : Decidable (k.Accepts rx) :=
  inferInstanceAs (Decidable ((rx[0] = 1 ∨ rx[0] = 3) ∧ ∀ code ∈ k.checked, rx[1] = code))

theorem emmV5IdJudge_isSome {rx : RxCmd} :
    (emmV5IdJudge rx).isSome ↔ rx[0] = 1 ∨ rx[0] = 3 := by
  unfold emmV5IdJudge
  by_cases h1 : rx[0] = 1
  · simp [h1]
  · by_cases h3 : rx[0] = 3
    · simp [h3]
    · simp [h1, h3]

namespace Stepper

/-- The `switch` goes on to an answer, or to a case that gives the mutex back. -/
def Answered (st : Stepper) : Prop :=
  match st.cmdState with
  | .ans | .other => True
  | .cpha => 5 ≤ st.rxCount.toNat
  | .vel => 6 ≤ st.rxCount.toNat
  | .cpos | .perr => 8 ≤ st.rxCount.toNat
  | .flag | .org => 4 ≤ st.rxCount.toNat
  | _ => False

instance (st : Stepper) : Decidable st.Answered :=
  match hs : st.cmdState with
  | .ans | .other => isTrue (by simp [Answered, hs])
  | .cpha => decidable_of_iff (5 ≤ st.rxCount.toNat) (by simp [Answered, hs])
  | .vel => decidable_of_iff (6 ≤ st.rxCount.toNat) (by simp [Answered, hs])
  | .cpos | .perr => decidable_of_iff (8 ≤ st.rxCount.toNat) (by simp [Answered, hs])
  | .flag | .org => decidable_of_iff (4 ≤ st.rxCount.toNat) (by simp [Answered, hs])
  | .ver | .rl | .pid | .vbus | .encl | .tpos | .conf | .state | .idle =>
    isFalse (by simp [Answered, hs])

/-- A step of the loop: the state after it, and what it shows. -/
inductive LoopCase (st : Stepper) : Stepper → List StepObs → Prop
  /-- The first semaphore: an iteration begins. -/
  | first (hl : st.loop = .waitStep) : LoopCase st { st with
      stepSem := st.stepSem - 1, loop := .waitMutex, held₀ := st.mutex.held .receiver } []
  | lock (hl : st.loop = .waitMutex) {mutex : Mutex StepTid}
      (hm : st.mutex.take .receiver = some mutex) :
      LoopCase st { st with mutex := mutex, loop := .waitCmp } []
  | wake (hl : st.loop = .waitCmp) :
      LoopCase st { st with cmpSem := st.cmpSem - 1, loop := .dispatch } []
  | reply (k : Telemetry) (hl : st.loop = .dispatch) (hs : st.cmdState = k.sysParams)
      (hc : st.Answered) : LoopCase st { st with loop := .read k } []
  | fetch (k : Telemetry) (hl : st.loop = .read k) : LoopCase st (st.readReply k) []
  /-- The iteration ends and the mutex is kept. -/
  | keep (uart : List UInt8)
      (hl : (st.loop = .dispatch ∧ ¬ st.Answered) ∨
        ∃ k got, st.loop = .decode k got ∧ ¬ k.Accepts st.rxCmd) :
      LoopCase st { st with uart := uart, loop := .waitStep }
        [.iteration st.held₀ (st.mutex.held .receiver)]
  /-- The iteration ends without an answer to decode, and the mutex is given back. -/
  | give (uart : List UInt8) (s : SysParams) (hl : st.loop = .dispatch) (hc : st.Answered) :
      LoopCase st { st with
          uart := uart, cmdState := s, mutex := st.mutex.release .receiver, loop := .waitStep }
        [.iteration st.held₀ ((st.mutex.release .receiver).held .receiver)]
  /-- The iteration ends with the assignments. -/
  | assign (k : Telemetry) (got : List UInt8) (arm : Arm) (hl : st.loop = .decode k got)
      (hc : k.Accepts st.rxCmd) :
      LoopCase st { st with
          motors := Function.update st.motors arm (k.assign st.rxCmd (st.motors arm))
          cmdState := .idle, mutex := st.mutex.release .receiver, loop := .waitStep }
        [.assigned k st.cmdState got st.rxCmd,
          .iteration st.held₀ ((st.mutex.release .receiver).held .receiver)]

theorem dispatchReply_case {st : Stepper} {k : Telemetry} (hl : st.loop = .dispatch)
    (hs : st.cmdState = k.sysParams) (hc : st.Answered ↔ k.len ≤ st.rxCount.toNat) :
    LoopCase st (st.dispatchReply k).1 (st.dispatchReply k).2 := by
  unfold dispatchReply
  by_cases h : k.len ≤ st.rxCount.toNat
  · rw [if_pos h]
    exact .reply k hl hs (hc.mpr h)
  · rw [if_neg h]
    exact .keep _ (.inl ⟨hl, fun hn => h (hc.mp hn)⟩)

theorem dispatch_case {st : Stepper} (hl : st.loop = .dispatch) :
    LoopCase st st.dispatch.1 st.dispatch.2 := by
  unfold dispatch
  cases hs : st.cmdState with
  | ver | rl | pid | vbus | encl | tpos | conf | state | idle =>
    exact .keep _ (.inl ⟨hl, by simp [Answered, hs]⟩)
  | cpha => exact dispatchReply_case hl hs (by simp [Answered, hs, Telemetry.len])
  | vel => exact dispatchReply_case hl hs (by simp [Answered, hs, Telemetry.len])
  | cpos => exact dispatchReply_case hl hs (by simp [Answered, hs, Telemetry.len])
  | perr => exact dispatchReply_case hl hs (by simp [Answered, hs, Telemetry.len])
  | flag => exact dispatchReply_case hl hs (by simp [Answered, hs, Telemetry.len])
  | org => exact dispatchReply_case hl hs (by simp [Answered, hs, Telemetry.len])
  | ans => exact .give (st.uart.drop 60) .idle hl (by simp [Answered, hs])
  | other =>
    have h := LoopCase.give (st.uart.drop 60) .other hl (by simp [Answered, hs])
    rw [← hs] at h
    exact h

theorem decode_case {st : Stepper} {k : Telemetry} {got : List UInt8}
    (hl : st.loop = .decode k got) : LoopCase st (st.decode k got).1 (st.decode k got).2 := by
  unfold decode
  cases hid : emmV5IdJudge st.rxCmd with
  | none =>
    refine .keep st.uart (.inr ⟨k, got, hl, fun hacc => ?_⟩)
    have h := emmV5IdJudge_isSome.mpr hacc.1
    rw [hid] at h
    exact absurd h (by simp)
  | some arm =>
    have hmem : st.rxCmd[0] = 1 ∨ st.rxCmd[0] = 3 := emmV5IdJudge_isSome.mp (by rw [hid]; rfl)
    by_cases hc : k.checked.all (st.rxCmd[1] = ·)
    · simp only [hc, ↓reduceIte]
      refine .assign k got arm hl ⟨hmem, fun code hcode => ?_⟩
      rw [Option.mem_def.mp hcode] at hc
      simpa using hc
    · simp only [hc]
      refine .keep st.uart (.inr ⟨k, got, hl, fun hacc => hc ?_⟩)
      cases hk : k.checked with
      | none => rfl
      | some code => simpa using hacc.2 code hk

theorem loopStep_case {st st₁ : Stepper} {l₁ : List StepObs}
    (h : st.loopStep = some (st₁, l₁)) : LoopCase st st₁ l₁ := by
  unfold loopStep at h
  cases hl : st.loop with
  | waitStep =>
    simp only [hl] at h
    split at h
    · cases h
      exact .first hl
    · cases h
  | waitMutex =>
    simp only [hl] at h
    obtain ⟨mutex, hm, heq⟩ := Option.map_eq_some_iff.mp h
    cases heq
    exact .lock hl hm
  | waitCmp =>
    simp only [hl] at h
    split at h
    · cases h
      exact .wake hl
    · cases h
  | dispatch =>
    simp only [hl, Option.some.injEq] at h
    have hd := dispatch_case hl
    rwa [h] at hd
  | read k =>
    simp only [hl, Option.some.injEq, Prod.mk.injEq] at h
    obtain ⟨rfl, rfl⟩ := h
    exact .fetch k hl
  | decode k got =>
    simp only [hl, Option.some.injEq] at h
    have hd := decode_case hl
    rwa [h] at hd

end Stepper

end Robot
