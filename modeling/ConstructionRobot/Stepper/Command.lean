import ConstructionRobot.Lib.Code
import ConstructionRobot.Stepper.Basic

/-!
# The commands of the stepper motors (`Emm_V5.c`)

Each function of `Emm_V5.c` writes one command: the address of the motor, a function code, the
arguments with the high byte first, and a check byte. Flags have the type `rt_bool_t`, which is
`int`, and are cut to a byte.

* `EmmCommand`: a call of one of the functions. `EmmCommand.bytes`: what it writes.
* `EmmCommand.decode`: the command for a frame. `decode_bytes`: it gives back the arguments, up to
  what the byte of a flag loses and the parameters without a function code (`EmmCommand.sent`).
* `bytes_prefixFree`: the function code says how long a command is.
-/

namespace Robot

/-- The low byte of a `rt_bool_t`. -/
def flagByte (b : Int32) : UInt8 := b.toUInt32.toUInt8

/-- The flag that a byte stands for. -/
def byteFlag (b : UInt8) : Int32 := b.toUInt32.toInt32

@[simp] theorem flagByte_byteFlag (b : UInt8) : flagByte (byteFlag b) = b := by
  simp [flagByte, byteFlag]

/-- The bytes of a word, high byte first. -/
def highFirst16 (x : UInt16) : List UInt8 := [(x >>> 8).toUInt8, (x >>> 0).toUInt8]
def highFirst32 (x : UInt32) : List UInt8 :=
  [(x >>> 24).toUInt8, (x >>> 16).toUInt8, (x >>> 8).toUInt8, (x >>> 0).toUInt8]

def word16 (b₁ b₀ : UInt8) : UInt16 := UInt16.ofNat (b₁.toNat * 256 + b₀.toNat)
def word32 (b₃ b₂ b₁ b₀ : UInt8) : UInt32 :=
  UInt32.ofNat (((b₃.toNat * 256 + b₂.toNat) * 256 + b₁.toNat) * 256 + b₀.toNat)

theorem word16_highFirst (x : UInt16) : word16 (x >>> 8).toUInt8 (x >>> 0).toUInt8 = x := by
  have hlt := x.toNat_lt
  have h8 : (x >>> 8).toNat = x.toNat / 2 ^ 8 := by
    rw [UInt16.toNat_shiftRight, Nat.shiftRight_eq_div_pow]
    rfl
  rw [← UInt16.toNat_inj, word16, UInt16.toNat_ofNat', UInt16.toNat_toUInt8, UInt16.toNat_toUInt8,
    h8, UInt16.shiftRight_zero]
  omega

theorem word32_highFirst (x : UInt32) :
    word32 (x >>> 24).toUInt8 (x >>> 16).toUInt8 (x >>> 8).toUInt8 (x >>> 0).toUInt8 = x := by
  have hlt := x.toNat_lt
  have h8 : (x >>> 8).toNat = x.toNat / 2 ^ 8 := by
    rw [UInt32.toNat_shiftRight, Nat.shiftRight_eq_div_pow]
    rfl
  have h16 : (x >>> 16).toNat = x.toNat / 2 ^ 16 := by
    rw [UInt32.toNat_shiftRight, Nat.shiftRight_eq_div_pow]
    rfl
  have h24 : (x >>> 24).toNat = x.toNat / 2 ^ 24 := by
    rw [UInt32.toNat_shiftRight, Nat.shiftRight_eq_div_pow]
    rfl
  rw [← UInt32.toNat_inj, word32, UInt32.toNat_ofNat']
  simp only [UInt32.toNat_toUInt8, h8, h16, h24, UInt32.shiftRight_zero]
  omega

/-! ## Commands -/

/-- A call of a function of `Emm_V5.c`. -/
inductive EmmCommand where
  | resetCurPosToZero (addr : UInt8)
  | resetClogPro (addr : UInt8)
  | readSysParams (addr : UInt8) (s : SysParams)
  | modifyCtrlMode (addr : UInt8) (svF : Int32) (ctrlMode : UInt8)
  | enControl (addr : UInt8) (state snF : Int32)
  | velControl (addr dir : UInt8) (vel : UInt16) (acc : UInt8) (snF : Int32)
  | posControl (addr dir : UInt8) (vel : UInt16) (acc : UInt8) (clk : UInt32) (raF snF : Int32)
  | stopNow (addr : UInt8) (snF : Int32)
  | synchronousMotion (addr : UInt8)
  | originSetO (addr : UInt8) (svF : Int32)
  | originModifyParams (addr : UInt8) (svF : Int32) (oMode oDir : UInt8) (oVel : UInt16)
      (oTm : UInt32) (slVel slMa slMs : UInt16) (potF : Int32)
  | originTriggerReturn (addr oMode : UInt8) (snF : Int32)
  | originInterrupt (addr : UInt8)
  deriving DecidableEq, Repr

namespace EmmCommand

/-- What is given to `Emm_V5_Transmit`. -/
def bytes : EmmCommand → List UInt8
  | resetCurPosToZero addr => [addr, 0x0A, 0x6D, 0x6B]
  | resetClogPro addr => [addr, 0x0E, 0x52, 0x6B]
  | readSysParams addr s => emmV5ReadSysParams addr s
  | modifyCtrlMode addr svF ctrlMode => [addr, 0x46, 0x69, flagByte svF, ctrlMode, 0x6B]
  | enControl addr state snF => [addr, 0xF3, 0xAB, flagByte state, flagByte snF, 0x6B]
  | velControl addr dir vel acc snF =>
    [addr, 0xF6, dir] ++ highFirst16 vel ++ [acc, flagByte snF, 0x6B]
  | posControl addr dir vel acc clk raF snF =>
    [addr, 0xFD, dir] ++ highFirst16 vel ++ [acc] ++ highFirst32 clk ++
      [flagByte raF, flagByte snF, 0x6B]
  | stopNow addr snF => [addr, 0xFE, 0x98, flagByte snF, 0x6B]
  | synchronousMotion addr => [addr, 0xFF, 0x66, 0x6B]
  | originSetO addr svF => [addr, 0x93, 0x88, flagByte svF, 0x6B]
  | originModifyParams addr svF oMode oDir oVel oTm slVel slMa slMs potF =>
    [addr, 0x4C, 0xAE, flagByte svF, oMode, oDir] ++ highFirst16 oVel ++ highFirst32 oTm ++
      highFirst16 slVel ++ highFirst16 slMa ++ highFirst16 slMs ++ [flagByte potF, 0x6B]
  | originTriggerReturn addr oMode snF => [addr, 0x9A, oMode, flagByte snF, 0x6B]
  | originInterrupt addr => [addr, 0x9C, 0x48, 0x6B]

/-- What the function stores in `stepper_motor_cmd_state`. -/
def cmdState : EmmCommand → SysParams
  | readSysParams _ s => s
  | _ => .ans

/-! ## The length of a command -/

/-- The length of a command with this function code. `Emm_V5_Read_Sys_Params` has none for a
parameter it does not know: the check byte stands in its place. -/
def frameLength (code : UInt8) : ℕ :=
  if code ∈ [0x0A, 0x0E, 0x42, 0x43, 0xFF, 0x9C] then 4
  else if code ∈ [0xFE, 0x93, 0x9A] then 5
  else if code ∈ [0x46, 0xF3] then 6
  else if code = 0xF6 then 8
  else if code = 0xFD then 13
  else if code = 0x4C then 20
  else if code = 0x6B then 2
  else 3

/-- The length of the command at the beginning of what is on the line. -/
def headLength : List UInt8 → ℕ
  | _ :: code :: _ => frameLength code
  | _ => 0

theorem headLength_bytes (c : EmmCommand) (rest : List UInt8) :
    headLength (c.bytes ++ rest) = c.bytes.length := by
  cases c with
  | readSysParams addr s => cases s <;> rfl
  | _ => rfl

theorem bytes_prefixFree : PrefixFree bytes := prefixFree_of_size headLength_bytes

theorem bytes_ne_nil (c : EmmCommand) : c.bytes ≠ [] := by
  cases c <;> exact List.cons_ne_nil _ _

/-- Nothing was written of the next command. -/
theorem begun_nil : Begun bytes [] :=
  ⟨resetCurPosToZero 0, List.nil_prefix, (bytes_ne_nil _).symm⟩

/-! ## Decoding -/

/-- The parameter for a function code. -/
def paramOf (code : UInt8) : Option SysParams :=
  [SysParams.ver, .rl, .pid, .vbus, .cpha, .encl, .tpos, .vel, .cpos, .perr, .flag, .org].find?
    fun s => s.functionCode = [code]

/-- The arguments of a command and the check byte, by its function code. -/
def decodeArgs (addr code : UInt8) : List UInt8 → Option EmmCommand
  | [] => if code = 0x6B then some (readSysParams addr .idle) else none
  | [_] => (paramOf code).map (readSysParams addr)
  | [aux, _] =>
    if (code, aux) = (0x0A, 0x6D) then some (resetCurPosToZero addr)
    else if (code, aux) = (0x0E, 0x52) then some (resetClogPro addr)
    else if (code, aux) = (0x42, 0x6C) then some (readSysParams addr .conf)
    else if (code, aux) = (0x43, 0x7A) then some (readSysParams addr .state)
    else if (code, aux) = (0xFF, 0x66) then some (synchronousMotion addr)
    else if (code, aux) = (0x9C, 0x48) then some (originInterrupt addr)
    else none
  | [arg, flag, _] =>
    if code = 0x9A then some (originTriggerReturn addr arg (byteFlag flag))
    else if (code, arg) = (0xFE, 0x98) then some (stopNow addr (byteFlag flag))
    else if (code, arg) = (0x93, 0x88) then some (originSetO addr (byteFlag flag))
    else none
  | [aux, flag, arg, _] =>
    if (code, aux) = (0x46, 0x69) then some (modifyCtrlMode addr (byteFlag flag) arg)
    else if (code, aux) = (0xF3, 0xAB) then
      some (enControl addr (byteFlag flag) (byteFlag arg))
    else none
  | [dir, v₁, v₀, acc, snF, _] =>
    if code = 0xF6 then some (velControl addr dir (word16 v₁ v₀) acc (byteFlag snF)) else none
  | [dir, v₁, v₀, acc, c₃, c₂, c₁, c₀, raF, snF, _] =>
    if code = 0xFD then
      some (posControl addr dir (word16 v₁ v₀) acc (word32 c₃ c₂ c₁ c₀) (byteFlag raF)
        (byteFlag snF))
    else none
  | [aux, svF, oMode, oDir, v₁, v₀, t₃, t₂, t₁, t₀, sv₁, sv₀, ma₁, ma₀, ms₁, ms₀, potF, _] =>
    if (code, aux) = (0x4C, 0xAE) then
      some (originModifyParams addr (byteFlag svF) oMode oDir (word16 v₁ v₀) (word32 t₃ t₂ t₁ t₀)
        (word16 sv₁ sv₀) (word16 ma₁ ma₀) (word16 ms₁ ms₀) (byteFlag potF))
    else none
  | _ => none

/-- The command for a frame. -/
def decode : List UInt8 → Option EmmCommand
  | addr :: code :: args =>
    if (code :: args).getLast? = some 0x6B then decodeArgs addr code args else none
  | _ => none

/-- What a motor can know of a flag. -/
def sentFlag (b : Int32) : Int32 := byteFlag (flagByte b)

/-- What a motor can know of a command. -/
def sent : EmmCommand → EmmCommand
  | readSysParams addr s => readSysParams addr (if s.functionCode = [] then .idle else s)
  | modifyCtrlMode addr svF ctrlMode => modifyCtrlMode addr (sentFlag svF) ctrlMode
  | enControl addr state snF => enControl addr (sentFlag state) (sentFlag snF)
  | velControl addr dir vel acc snF => velControl addr dir vel acc (sentFlag snF)
  | posControl addr dir vel acc clk raF snF =>
    posControl addr dir vel acc clk (sentFlag raF) (sentFlag snF)
  | stopNow addr snF => stopNow addr (sentFlag snF)
  | originSetO addr svF => originSetO addr (sentFlag svF)
  | originModifyParams addr svF oMode oDir oVel oTm slVel slMa slMs potF =>
    originModifyParams addr (sentFlag svF) oMode oDir oVel oTm slVel slMa slMs (sentFlag potF)
  | originTriggerReturn addr oMode snF => originTriggerReturn addr oMode (sentFlag snF)
  | c => c

/-- Decoding gives back what was written. The words come back because their bytes do. -/
theorem decode_bytes (c : EmmCommand) : decode c.bytes = some c.sent := by
  cases c with
  | readSysParams addr s => cases s <;> rfl
  | velControl addr dir vel acc snF =>
    exact congrArg (fun v => some (velControl addr dir v acc (sentFlag snF)))
      (word16_highFirst vel)
  | posControl addr dir vel acc clk raF snF =>
    exact congrArg₂ (fun v n => some (posControl addr dir v acc n (sentFlag raF) (sentFlag snF)))
      (word16_highFirst vel) (word32_highFirst clk)
  | originModifyParams addr svF oMode oDir oVel oTm slVel slMa slMs potF =>
    have hwords := congr (congr (congrArg₂ (fun v t sv ma ms => some (originModifyParams addr
        (sentFlag svF) oMode oDir v t sv ma ms (sentFlag potF)))
      (word16_highFirst oVel) (word32_highFirst oTm)) (word16_highFirst slVel))
      (word16_highFirst slMa)
    exact congr hwords (word16_highFirst slMs)
  | _ => rfl

@[simp] theorem flagByte_sentFlag (b : Int32) : flagByte (sentFlag b) = flagByte b :=
  flagByte_byteFlag _

theorem bytes_sent (c : EmmCommand) : c.sent.bytes = c.bytes := by
  cases c with
  | readSysParams addr s => cases s <;> rfl
  | _ => simp only [sent, bytes, flagByte_sentFlag]

/-- Two commands are the same on the line exactly if a motor cannot tell them apart. -/
theorem bytes_eq_iff {c c' : EmmCommand} : c.bytes = c'.bytes ↔ c.sent = c'.sent := by
  constructor
  · intro h
    exact Option.some.inj (by rw [← decode_bytes, h, decode_bytes])
  · intro h
    rw [← bytes_sent c, h, bytes_sent c']

/-- The same for a list of commands. -/
theorem map_bytes_eq_iff {cs cs' : List EmmCommand} :
    cs.map bytes = cs'.map bytes ↔ cs.map sent = cs'.map sent := by
  induction cs generalizing cs' with
  | nil => cases cs' <;> simp
  | cons c cs ih =>
    cases cs' with
    | nil => simp
    | cons c' cs' =>
      simp only [List.map_cons, List.cons.injEq]
      exact and_congr bytes_eq_iff ih

end EmmCommand

end Robot
