import ConstructionRobot.Abus.Publish
import ConstructionRobot.Chassis.Module

/-!
# The wiring of the bus (`abus_port.c`)

`abus_all_init` sets up four topics and eight accounters, through two records that it uses again
and again. The callbacks are those of the line follower (`follow_line.c`), of the chassis
(`chassis_port.c`) and of the manager (`robotmanager.c`).

* `wiredCode`: the callbacks.
* `abusAllInit`: the function of the source, statement by statement.
* `WirePlan`, `Bus.Connects`: what a bus connects. Each step of `abusAllInit` adds to it
  (`connects_topic`, `connects_store`, `connects_acc`).
* `wiredPlan`, `abusAllInit_wired`: what the whole function connects. The callback of `line_dir_acc`
  is lost.
-/

namespace Robot

/-- The topics of `abus_port.c`. -/
inductive TopicId where
  | lineError
  | lineDir
  | lineSpecial
  | chassisCtrl
  deriving DecidableEq, Repr

/-- The accounters of `abus_port.c`. -/
inductive AccId where
  | lineError
  | lineDir
  | lineSpacialPoint
  | chassis
  | rbmgError
  | rbmgDir
  | rbmgSpecialPoint
  | rbmgChassis
  deriving DecidableEq, Repr

/-- The callbacks that `abus_all_init` knows. -/
inductive CallbackId where
  | lineDirSub
  | chassisSub
  | rbmgError
  | rbmgDir
  | rbmgSpecialPoint
  | rbmgChassisCtrl
  deriving DecidableEq, Repr

/-- A `float`, as the four bytes it is stored in. -/
structure FloatBytes where
  b₀ : UInt8
  b₁ : UInt8
  b₂ : UInt8
  b₃ : UInt8
  deriving DecidableEq, Repr

/-- The fields `target` and `run_status` of `chassis_mai`. -/
structure ChassisMai where
  speed : ChassisPos FloatBytes
  pos : ChassisPos FloatBytes
  runStatus : ChassisStatus
  deriving DecidableEq, Repr

/-- The variables that the callbacks use. -/
structure Modules where
  /-- `infrared_package.move_direction`; an enumeration is stored in one byte. -/
  moveDirection : UInt8
  rbmgMode : Mode
  lineError : FloatBytes
  chassisDir : UInt8
  ctrl : ChassisCtrl FloatBytes
  chassisMai : ChassisMai
  deriving DecidableEq, Repr

/-! ## Messages -/

/-- The `float` at offset `i`. -/
def floatAt (bytes : List UInt8) (i : ℕ) : FloatBytes :=
  ⟨bytes.getD i 0, bytes.getD (i + 1) 0, bytes.getD (i + 2) 0, bytes.getD (i + 3) 0⟩

def FloatBytes.bytes (x : FloatBytes) : List UInt8 := [x.b₀, x.b₁, x.b₂, x.b₃]

/-- The `chassis_ctrl_t` that is stored in `bytes`. The floats are aligned. -/
def ctrlOf (bytes : List UInt8) : ChassisCtrl FloatBytes where
  type := bytes.getD 0 0
  pos := ⟨floatAt bytes 4, floatAt bytes 8, floatAt bytes 12⟩

/-- How a `chassis_ctrl_t` is stored. -/
def ChassisCtrl.bytes (ctrl : ChassisCtrl FloatBytes) : List UInt8 :=
  [ctrl.type, 0, 0, 0] ++ ctrl.pos.x.bytes ++ ctrl.pos.y.bytes ++ ctrl.pos.z.bytes

/-- The `msg_size` of the topics: of a `float`, of a `uint8_t` and of a `chassis_ctrl_t`. -/
def wiredSize : TopicId → UInt32
  | .lineError => 4
  | .lineDir => 1
  | .lineSpecial => 1
  | .chassisCtrl => 16

/-! ## The callbacks -/

/-- What `chassis_sub_callback` does with the command: `chassis_set_speed` or `chassis_set_pos`. -/
def ChassisMai.command (chassis : ChassisMai) (ctrl : ChassisCtrl FloatBytes) : ChassisMai :=
  if ctrl.type = 0 then { chassis with speed := ctrl.pos, runStatus := .speed }
  else { chassis with pos := ctrl.pos, runStatus := .pos }

/-- The command that `rbmg_error_callback` makes of the line error. `chassis_dir` is 0 there, so
only the first case of its `switch` is left: `KK` is 0.9 and `SPEED` is 0.25. -/
def lineCtrl (ops : FloatOps FloatBytes) (lineError : FloatBytes) : ChassisCtrl FloatBytes where
  type := 0
  pos := ⟨ops.lit 0, ops.lit 0.25, ops.mul lineError (ops.lit 0.9)⟩

/-- The code of the callbacks. The local `ctrl` of `chassis_sub_callback` is not read before it is
written. -/
def wiredCode (ops : FloatOps FloatBytes) :
    CallbackId → TopicId → Modules → Callback AccId Modules
  | .lineDirSub, _, s =>
      .outData [s.moveDirection] 1 (by simp) fun buffer _ =>
      .done { s with moveDirection := buffer.getD 0 0 }
  | .chassisSub, _, s => .outData (List.replicate 16 0) 16 (by decide) fun buffer size =>
      if size.toUInt16 ≠ 16 then .done s
      else .done { s with chassisMai := s.chassisMai.command (ctrlOf buffer) }
  | .rbmgError, _, s =>
    if s.rbmgMode = .line then
      .outData s.lineError.bytes 4 (by simp [FloatBytes.bytes]) fun buffer _ =>
        let lineError := floatAt buffer 0
        let ctrl := lineCtrl ops lineError
        .publish { s with lineError := lineError, chassisDir := 0, ctrl := ctrl } .rbmgChassis
          ctrl.bytes .done
    else .done s
  | .rbmgDir, _, s => .done s
  | .rbmgSpecialPoint, _, s =>
    .done (if s.rbmgMode ≠ .cab then { s with rbmgMode := .action } else s)
  | .rbmgChassisCtrl, _, s => .done s

/-! ## The start -/

/-- The bus of `abus_port.c`. -/
abbrev WiredBus := Bus TopicId AccId CallbackId Modules

/-- `abus_all_init`. `str` gives the addresses of the texts and `heap` what the calls of `malloc`
return, which succeed. -/
def abusAllInit (str : String → ℕ) (heap : TopicId → Vector UInt8 1024) (bus : WiredBus) :
    Call WiredBus := do
  let init : TopicInit :=
    { buf := (heap .lineError).toList, bufSize := 1024, msgSize := 4
      name := str "line_error_topic" }
  let bus ← abusTopicInit bus .lineError init true
  let init := { init with
    buf := (heap .lineSpecial).toList, bufSize := 1024, msgSize := 1
    name := str "line_special_topic" }
  let bus ← abusTopicInit bus .lineSpecial init true
  let init := { init with
    buf := (heap .lineDir).toList, bufSize := 1024, msgSize := 1
    name := str "line_dir_topic" }
  let bus ← abusTopicInit bus .lineDir init true
  let topicInit : TopicInit :=
    { name := str "chassis_ctrl", buf := (heap .chassisCtrl).toList, bufSize := 1024
      msgSize := 16 }
  let bus ← abusTopicInit bus .chassisCtrl topicInit true
  let accInit : AccInit CallbackId :=
    { name := str "line_error_acc", callback := none, datafifo := none }
  let bus ← abusAccInit bus .lineError accInit
  let bus ← abusTopicSubscribe bus .lineError .lineError ⟨0, 0⟩
  -- the fields are stored in the accounter here, not in the record
  let acc := bus.acc .lineDir
  let bus := { bus with acc := Function.update bus.acc .lineDir { acc with
    name := str "line_dir_acc", callback := some .lineDirSub, datafifo := none
    flag := { acc.flag with isAsync := 0 } } }
  let bus ← abusAccInit bus .lineDir accInit
  let bus ← abusTopicSubscribe bus .lineDir .lineDir ⟨0, 0⟩
  let accInit := { accInit with
    name := str "line_special_acc", callback := none, datafifo := none }
  let bus ← abusAccInit bus .lineSpacialPoint accInit
  let bus ← abusTopicSubscribe bus .lineSpecial .lineSpacialPoint ⟨0, 0⟩
  let accInit := { accInit with
    name := str "chassis_acc", datafifo := none, callback := some .chassisSub }
  let bus ← abusAccInit bus .chassis accInit
  let bus ← abusTopicSubscribe bus .chassisCtrl .chassis ⟨0, 0⟩
  let accInit := { accInit with
    name := str "rbmg_error_acc", datafifo := none, callback := some .rbmgError }
  let bus ← abusAccInit bus .rbmgError accInit
  let bus ← abusTopicSubscribe bus .lineError .rbmgError ⟨0, 0⟩
  let accInit := { accInit with
    name := str "rbmg_dir_acc", datafifo := none, callback := some .rbmgDir }
  let bus ← abusAccInit bus .rbmgDir accInit
  let bus ← abusTopicSubscribe bus .lineDir .rbmgDir ⟨0, 0⟩
  let accInit := { accInit with
    name := str "rbmg_special_point_acc", datafifo := none, callback := some .rbmgSpecialPoint }
  let bus ← abusAccInit bus .rbmgSpecialPoint accInit
  let bus ← abusTopicSubscribe bus .lineSpecial .rbmgSpecialPoint ⟨0, 0⟩
  let accInit := { accInit with
    name := str "rbmg_chassis_acc", datafifo := none, callback := some .rbmgChassisCtrl }
  let bus ← abusAccInit bus .rbmgChassis accInit
  abusTopicSubscribe bus .chassisCtrl .rbmgChassis ⟨0, 0⟩

/-! ## What it connects -/

/-- What is registered and connected: the subscriptions, the accounters in the order of their
initialisation, their callbacks, and the sizes of the messages. -/
structure WirePlan where
  reg : Registry TopicId AccId
  accs : List AccId
  callback : AccId → Option CallbackId
  msgSize : TopicId → UInt32
  mem_accs : ∀ k t, ∀ a ∈ reg.subs k t, a ∈ accs

namespace WirePlan

def empty : WirePlan := ⟨.empty, [], fun _ => none, fun _ => 0, by simp [Registry.empty]⟩

/-- One more topic. -/
def addTopic (plan : WirePlan) (t : TopicId) (msgSize : UInt32) : WirePlan :=
  { plan with
    reg := plan.reg.addTopic t
    msgSize := Function.update plan.msgSize t msgSize }

/-- An accounter gets a callback. -/
def setCallback (plan : WirePlan) (a : AccId) (f : Option CallbackId) : WirePlan :=
  { plan with callback := Function.update plan.callback a f }

theorem subscribe_mem_accs (plan : WirePlan) (t : TopicId) (a : AccId) (k : Bool) (u : TopicId) :
    ∀ b ∈ (plan.reg.subscribe t a false).subs k u, b ∈ plan.accs ++ [a] := by
  intro b hb
  have hmem := plan.mem_accs k u b
  simp only [Registry.subscribe] at hb
  grind

/-- One more accounter, with its callback, on the sync list of `t`. -/
def addAcc (plan : WirePlan) (t : TopicId) (a : AccId) (f : Option CallbackId) : WirePlan where
  reg := plan.reg.subscribe t a false
  accs := plan.accs ++ [a]
  callback := Function.update plan.callback a f
  msgSize := plan.msgSize
  mem_accs := plan.subscribe_mem_accs t a

end WirePlan

/-- The bus is connected as `plan` says, its accounters have no buffers, and the topics outside
`busy` hold no message. -/
structure Bus.Connects (bus : WiredBus) (plan : WirePlan) (busy : List TopicId) : Prop where
  inv : bus.Inv plan.reg busy
  accs : bus.accs = plan.accs
  callback : ∀ a, (bus.acc a).callback = plan.callback a
  datafifo : ∀ a, (bus.acc a).datafifo = none
  msgSize : ∀ t, (bus.topic t).msgSize = plan.msgSize t

section Start

variable {bus : WiredBus} {plan : WirePlan}

theorem connects_zero (user : Modules) :
    (Bus.zero TopicId AccId CallbackId user).Connects .empty [] :=
  ⟨Bus.inv_zero user, rfl, fun _ => rfl, fun _ => rfl, fun _ => rfl⟩

/-- A topic is set up with a buffer of 1024 bytes. -/
theorem connects_topic (t : TopicId) (name : ℕ) (buf : Vector UInt8 1024) (msgSize : UInt32)
    (h : bus.Connects plan []) (ht : t ∉ plan.reg.topics)
    (hnum : plan.reg.topics.length < abusTopicsNum) (hsize : msgSize.toNat ≤ 1024) :
    ∃ bus₁, abusTopicInit bus t ⟨name, buf.toList, 1024, msgSize⟩ true = .ret bus₁ ∧
      bus₁.Connects (plan.addTopic t msgSize) [] ∧ bus₁.user = bus.user := by
  have hpow : isPowerOf2 (sint 32 (1024 : UInt32).toNat) = true := by decide +kernel
  rw [← h.inv.topics] at ht hnum
  have hrun : abusTopicInit bus t ⟨name, buf.toList, 1024, msgSize⟩ true = .ret _ :=
    abusTopicInit_eq hpow hnum
  refine ⟨_, hrun, ⟨topicInit_inv h.inv ht (by simp) hsize hrun, h.accs, h.callback, h.datafifo,
    fun u => ?_⟩, rfl⟩
  by_cases hu : u = t
  · simp [WirePlan.addTopic, hu]
  · simp [WirePlan.addTopic, Function.update_of_ne hu, h.msgSize]

/-- The fields of an accounter that is on no list are stored. -/
theorem connects_store {a : AccId} {x : Accounter TopicId CallbackId}
    {f : Option CallbackId} (h : bus.Connects plan []) (ha : a ∉ plan.accs)
    (htopic : x.topic = (bus.acc a).topic) (hfifo : x.datafifo = none) (hf : x.callback = f) :
    Bus.Connects { bus with acc := Function.update bus.acc a x } (plan.setCallback a f) [] := by
  have hnone := topic_eq_none h.inv fun k t hmem => ha (plan.mem_accs k t a hmem)
  have hinv := h.inv.updateAcc htopic (by simp [htopic, hnone]) (by simp [hfifo])
  refine ⟨hinv, h.accs, fun b => ?_, fun b => ?_, h.msgSize⟩
  · by_cases hb : b = a
    · simp [WirePlan.setCallback, hb, hf]
    · simp [WirePlan.setCallback, Function.update_of_ne hb, h.callback]
  · by_cases hb : b = a
    · simp [hb, hfifo]
    · simp [Function.update_of_ne hb, h.datafifo]

/-- An accounter that is on no list is set up and subscribed. -/
theorem connects_acc (t : TopicId) (a : AccId) (name : ℕ) (f : Option CallbackId)
    (h : bus.Connects plan []) (ht : t ∈ plan.reg.topics) (ha : a ∉ plan.accs)
    (hnum : plan.accs.length < abusAccsNum) :
    ∃ bus₁ bus₂, abusAccInit bus a ⟨name, none, f⟩ = .ret bus₁ ∧
      abusTopicSubscribe bus₁ t a ⟨0, 0⟩ = .ret bus₂ ∧
      bus₂.Connects (plan.addAcc t a f) [] ∧ bus₂.user = bus.user := by
  let bus₁ : WiredBus := { bus with
    acc := Function.update bus.acc a
      { bus.acc a with name := name, datafifo := none, callback := f }
    accs := bus.accs ++ [a] }
  have hinit : abusAccInit bus a ⟨name, none, f⟩ = .ret bus₁ := abusAccInit_eq (by rwa [h.accs])
  have hstore : Bus.Connects { bus with acc := bus₁.acc } (plan.setCallback a f) [] :=
    connects_store h ha rfl rfl rfl
  have hinv₁ : bus₁.Inv plan.reg [] := accInit_inv h.inv (by simp) hinit
  obtain ⟨bus₂, hsub, hinv₂⟩ : ∃ bus₂, abusTopicSubscribe bus₁ t a ⟨0, 0⟩ = .ret bus₂ ∧
      bus₂.Inv (plan.reg.subscribe t a false) [] :=
    subscribe_inv hinv₁ (by rwa [hinv₁.topics])
      (topic_eq_none hinv₁ fun k u hmem => ha (plan.mem_accs k u a hmem))
  refine ⟨bus₁, bus₂, hinit, hsub, ?_⟩
  obtain ⟨links, -, hbus₂⟩ := Call.bind_eq_ret.mp hsub
  cases hbus₂
  refine ⟨⟨hinv₂, congrArg (· ++ [a]) h.accs, fun b => ?_, fun b => ?_, h.msgSize⟩, rfl⟩
  · rw [← show _ = (plan.addAcc t a f).callback b from hstore.callback b]
    by_cases hb : b = a
    · simp [hb]
    · simp [Function.update_of_ne hb]
  · rw [← show _ = none from hstore.datafifo b]
    by_cases hb : b = a
    · simp [hb]
    · simp [Function.update_of_ne hb]

end Start

/-- The topics of the accounters. -/
def topicOf : AccId → TopicId
  | .lineError => .lineError
  | .lineDir => .lineDir
  | .lineSpacialPoint => .lineSpecial
  | .chassis => .chassisCtrl
  | .rbmgError => .lineError
  | .rbmgDir => .lineDir
  | .rbmgSpecialPoint => .lineSpecial
  | .rbmgChassis => .chassisCtrl

/-- The subscribers of the topics, the last to subscribe first. -/
def wiredSubs : TopicId → List AccId
  | .lineError => [.rbmgError, .lineError]
  | .lineDir => [.rbmgDir, .lineDir]
  | .lineSpecial => [.rbmgSpecialPoint, .lineSpacialPoint]
  | .chassisCtrl => [.rbmgChassis, .chassis]

/-- The callbacks the accounters have after `abus_all_init`. The one of `line_dir_acc` was stored
in it, and then overwritten with the record of `line_error_acc`, which has none. -/
def wiredCallback : AccId → Option CallbackId
  | .lineError => none
  | .lineDir => none
  | .lineSpacialPoint => none
  | .chassis => some .chassisSub
  | .rbmgError => some .rbmgError
  | .rbmgDir => some .rbmgDir
  | .rbmgSpecialPoint => some .rbmgSpecialPoint
  | .rbmgChassis => some .rbmgChassisCtrl

/-- What `abus_all_init` connects. -/
def wiredPlan : WirePlan where
  reg := {
    topics := [.lineError, .lineSpecial, .lineDir, .chassisCtrl]
    subs := fun async t => if async then [] else wiredSubs t }
  accs := [.lineError, .lineDir, .lineSpacialPoint, .chassis, .rbmgError, .rbmgDir,
    .rbmgSpecialPoint, .rbmgChassis]
  callback := wiredCallback
  msgSize := wiredSize
  mem_accs k t a ha := by cases a <;> decide

/-- The bus is connected as `abus_all_init` leaves it. -/
abbrev Bus.Wired (bus : WiredBus) (busy : List TopicId) : Prop := bus.Connects wiredPlan busy

/-- The steps of `abus_all_init` add up to `wiredPlan`. -/
theorem wiredPlan_eq :
    ((((((((((((WirePlan.empty.addTopic .lineError 4).addTopic .lineSpecial 1).addTopic
      .lineDir 1).addTopic .chassisCtrl 16).addAcc .lineError .lineError none).setCallback
      .lineDir (some .lineDirSub)).addAcc .lineDir .lineDir none).addAcc
      .lineSpecial .lineSpacialPoint none).addAcc .chassisCtrl .chassis (some .chassisSub)).addAcc
      .lineError .rbmgError (some .rbmgError)).addAcc .lineDir .rbmgDir (some .rbmgDir)).addAcc
      .lineSpecial .rbmgSpecialPoint (some .rbmgSpecialPoint)).addAcc
      .chassisCtrl .rbmgChassis (some .rbmgChassisCtrl) = wiredPlan := by
  rw [wiredPlan, WirePlan.mk.injEq]
  refine ⟨?_, rfl, ?_, ?_⟩
  · rw [Registry.mk.injEq]
    refine ⟨rfl, ?_⟩
    funext k t
    cases k <;> cases t <;> rfl
  · funext a
    cases a <;> rfl
  · funext t
    cases t <;> rfl

/-- `abus_all_init` returns, and leaves the bus connected in this way. -/
theorem abusAllInit_wired (str : String → ℕ) (heap : TopicId → Vector UInt8 1024)
    (user : Modules) : ∃ bus, abusAllInit str heap (Bus.zero _ _ _ user) = .ret bus ∧
      bus.Wired [] ∧ bus.user = user := by
  obtain ⟨b₁, r₁, h₁, u₁⟩ := connects_topic .lineError (str "line_error_topic") (heap .lineError) 4
    (connects_zero user) (by decide) (by decide) (by decide)
  obtain ⟨b₂, r₂, h₂, u₂⟩ := connects_topic .lineSpecial (str "line_special_topic")
    (heap .lineSpecial) 1 h₁ (by decide) (by decide) (by decide)
  obtain ⟨b₃, r₃, h₃, u₃⟩ := connects_topic .lineDir (str "line_dir_topic") (heap .lineDir) 1 h₂
    (by decide) (by decide) (by decide)
  obtain ⟨b₄, r₄, h₄, u₄⟩ := connects_topic .chassisCtrl (str "chassis_ctrl") (heap .chassisCtrl)
    16 h₃ (by decide) (by decide) (by decide)
  obtain ⟨_, b₅, i₅, r₅, h₅, u₅⟩ := connects_acc .lineError .lineError (str "line_error_acc") none
    h₄ (by decide) (by decide) (by decide)
  have h₆ := connects_store (a := .lineDir) (f := some .lineDirSub)
    (x := { b₅.acc .lineDir with
      name := str "line_dir_acc", datafifo := none, callback := some .lineDirSub
      flag := { (b₅.acc .lineDir).flag with isAsync := 0 } })
    h₅ (by decide) rfl rfl rfl
  obtain ⟨_, b₇, i₇, r₇, h₇, u₇⟩ := connects_acc .lineDir .lineDir (str "line_error_acc") none
    h₆ (by decide) (by decide) (by decide)
  obtain ⟨_, b₈, i₈, r₈, h₈, u₈⟩ := connects_acc .lineSpecial .lineSpacialPoint
    (str "line_special_acc") none h₇ (by decide) (by decide)
    (by decide)
  obtain ⟨_, b₉, i₉, r₉, h₉, u₉⟩ := connects_acc .chassisCtrl .chassis (str "chassis_acc")
    (some .chassisSub) h₈ (by decide) (by decide) (by decide)
  obtain ⟨_, b₁₀, i₁₀, r₁₀, h₁₀, u₁₀⟩ := connects_acc .lineError .rbmgError (str "rbmg_error_acc")
    (some .rbmgError) h₉ (by decide) (by decide) (by decide)
  obtain ⟨_, b₁₁, i₁₁, r₁₁, h₁₁, u₁₁⟩ := connects_acc .lineDir .rbmgDir (str "rbmg_dir_acc")
    (some .rbmgDir) h₁₀ (by decide) (by decide) (by decide)
  obtain ⟨_, b₁₂, i₁₂, r₁₂, h₁₂, u₁₂⟩ := connects_acc .lineSpecial .rbmgSpecialPoint
    (str "rbmg_special_point_acc") (some .rbmgSpecialPoint) h₁₁ (by decide)
    (by decide) (by decide)
  obtain ⟨_, b₁₃, i₁₃, r₁₃, h₁₃, u₁₃⟩ := connects_acc .chassisCtrl .rbmgChassis
    (str "rbmg_chassis_acc") (some .rbmgChassisCtrl) h₁₂ (by decide)
    (by decide) (by decide)
  refine ⟨b₁₃, ?_, ?_, ?_⟩
  · have next : ∀ {c : Call WiredBus} {f : WiredBus → Call WiredBus} {b b' : WiredBus},
        c = .ret b → f b = .ret b' → (c >>= f) = .ret b' :=
      fun h h' => Call.bind_eq_ret.mpr ⟨_, h, h'⟩
    exact next r₁ <| next r₂ <| next r₃ <| next r₄ <| next i₅ <| next r₅ <| next i₇ <| next r₇ <|
      next i₈ <| next r₈ <| next i₉ <| next r₉ <| next i₁₀ <| next r₁₀ <| next i₁₁ <| next r₁₁ <|
      next i₁₂ <| next r₁₂ <| next i₁₃ r₁₃
  · rwa [wiredPlan_eq] at h₁₃
  · simp only [u₁₃, u₁₂, u₁₁, u₁₀, u₉, u₈, u₇, u₅, u₄, u₃, u₂, u₁, Bus.zero]

end Robot
