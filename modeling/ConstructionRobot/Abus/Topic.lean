import ConstructionRobot.Abus.Afifo
import ConstructionRobot.Lib.LinkRing
import ConstructionRobot.Lib.Traced

/-!
# The message bus (`abus_topic.c`)

A topic has a ring buffer for the message that is being published and two lists of subscribers,
which are threaded through the accounters. `abus_public` puts the message in the buffer, calls the
subscribers of the sync list one after the other and takes the message out again. A callback may
publish itself.

`T` and `A` are the addresses of the topics and of the accounters, `κ` those of the callbacks, and
`σ` is the memory of the modules that own the callbacks. Every pointer `datafifo` leads to a
buffer of its own.

* `Callback`: what a callback can do, as a tree of its reads and publishes.
* `abusTopicInit`, `abusAccInit`, `abusTopicSubscribe`, `abusTopicUnsubscribe`, `abusPublic`: the
  functions of the source. `abusPublic` has fuel for its loop and for the publishes in callbacks.
* `Event`: what a publish writes to the log.
-/

namespace Robot

/-- `abus_sub_flag`. -/
structure AbusSubFlag where
  isAsync : UInt8
  isSelfFifo : UInt8
  deriving DecidableEq, Repr

/-- The `alist_head_t` objects of the bus: `list false t` is `t->sync_accounter`, `list true t` is
`t->async_accounter`, and `acc a` is `a->head`. -/
inductive Head (T A : Type) where
  | list (async : Bool) (t : T)
  | acc (a : A)
  deriving DecidableEq, Repr

/-- `abus_accounter_t`, without its links. A name is its address. -/
structure Accounter (T κ : Type) where
  name : ℕ
  datafifo : Option Afifo
  callback : Option κ
  flag : AbusSubFlag
  topic : Option T
  deriving DecidableEq, Repr

/-- `abus_topic_t`, without its links. -/
structure Topic where
  name : ℕ
  datafifo : Option Afifo
  msgSize : UInt32
  deriving DecidableEq, Repr

/-- `abus_topic_init_t`. -/
structure TopicInit where
  name : ℕ
  buf : List UInt8
  bufSize : UInt32
  msgSize : UInt32

/-- `abus_acc_init_t`. -/
structure AccInit (κ : Type) where
  name : ℕ
  datafifo : Option Afifo
  callback : Option κ

/-- All topics and accounters, the registered ones in order, and the memory of the modules. -/
structure Bus (T A κ σ : Type) where
  topic : T → Topic
  acc : A → Accounter T κ
  links : Links (Head T A)
  topics : List T
  accs : List A
  user : σ

/-- The bus before the first call: static objects are zero. -/
def Bus.zero (T A κ : Type) {σ : Type} (user : σ) : Bus T A κ σ where
  topic _ := { name := 0, datafifo := none, msgSize := 0 }
  acc _ := { name := 0, datafifo := none, callback := none, flag := ⟨0, 0⟩, topic := none }
  links := { next := fun _ => none, prev := fun _ => none }
  topics := []
  accs := []
  user := user

/-- The rest of a callback that was called with a topic: it returns, it reads the buffer of the
topic into `buffer`, or it stores its own variables and publishes. -/
inductive Callback (A σ : Type) where
  | done (user : σ)
  | outData (buffer : List UInt8) (len : UInt32) (h : len.toNat ≤ buffer.length)
      (k : List UInt8 → UInt32 → Callback A σ)
  | publish (user : σ) (a : A) (msg : List UInt8) (k : σ → Callback A σ)

/-- The events of a publish: a call of `abus_public` while the topics `busy` are being published,
a call of the callback of an accounter, and a read of a topic in a callback. -/
inductive Event (T A κ σ : Type) where
  | enter (busy : List T) (bus : Bus T A κ σ) (a : A) (msg : List UInt8)
  | call (t : T) (a : A)
  | read (t : T) (len : UInt32) (bytes : List UInt8)

variable {T A κ σ : Type} [DecidableEq T] [DecidableEq A]

namespace Bus

/-- Stores the buffer of a topic. -/
def setTopicFifo (bus : Bus T A κ σ) (t : T) (fifo : Option Afifo) : Bus T A κ σ :=
  { bus with topic := Function.update bus.topic t { bus.topic t with datafifo := fifo } }

/-- Stores the buffer of an accounter. -/
def setAccFifo (bus : Bus T A κ σ) (a : A) (fifo : Option Afifo) : Bus T A κ σ :=
  { bus with acc := Function.update bus.acc a { bus.acc a with datafifo := fifo } }

end Bus

/-- `ABUS_TOPICS_NUM`. -/
def abusTopicsNum : ℕ := 32

/-- `ABUS_ACCS_NUM`. -/
def abusAccsNum : ℕ := 128

/-- `abus_topic_init`; `mallocOk` is the result of the allocation in `afifo_init`. -/
def abusTopicInit (bus : Bus T A κ σ) (t : T) (init : TopicInit) (mallocOk : Bool) :
    Call (Bus T A κ σ) := do
  let fifo ← afifoInit init.buf init.bufSize mallocOk
  bugOn !(bus.topics.length < abusTopicsNum)
  pure { bus with
    topic := Function.update bus.topic t
      { name := init.name, datafifo := fifo, msgSize := init.msgSize }
    links := initListHead (initListHead bus.links (.list false t)) (.list true t)
    topics := bus.topics ++ [t] }

theorem abusTopicInit_eq {bus : Bus T A κ σ} {t : T} {init : TopicInit}
    (hp : isPowerOf2 (sint 32 init.bufSize.toNat) = true)
    (hn : bus.topics.length < abusTopicsNum) :
    abusTopicInit bus t init true = .ret { bus with
      topic := Function.update bus.topic t
        { name := init.name
          datafifo := some { buffer := init.buf, size := init.bufSize, inIdx := 0, outIdx := 0 }
          msgSize := init.msgSize }
      links := initListHead (initListHead bus.links (.list false t)) (.list true t)
      topics := bus.topics ++ [t] } := by
  rw [abusTopicInit, afifoInit_eq hp]
  simp [bugOn, hn]

/-- `abus_acc_init`. -/
def abusAccInit (bus : Bus T A κ σ) (a : A) (init : AccInit κ) : Call (Bus T A κ σ) := do
  bugOn !(bus.accs.length < abusAccsNum)
  pure { bus with
    acc := Function.update bus.acc a
      { bus.acc a with name := init.name, datafifo := init.datafifo, callback := init.callback }
    accs := bus.accs ++ [a] }

omit [DecidableEq T] in
theorem abusAccInit_eq {bus : Bus T A κ σ} {a : A} {init : AccInit κ}
    (hn : bus.accs.length < abusAccsNum) :
    abusAccInit bus a init = .ret { bus with
      acc := Function.update bus.acc a
        { bus.acc a with name := init.name, datafifo := init.datafifo, callback := init.callback }
      accs := bus.accs ++ [a] } := by
  simp [abusAccInit, bugOn, hn]

/-- `!flag.is_async` is false. -/
def AbusSubFlag.async (flag : AbusSubFlag) : Bool := flag.isAsync != 0

/-- `abus_topic_subscribe`. -/
def abusTopicSubscribe (bus : Bus T A κ σ) (t : T) (a : A) (flag : AbusSubFlag) :
    Call (Bus T A κ σ) := do
  let links ← listAdd bus.links (.acc a) (.list flag.async t)
  pure { bus with
    acc := Function.update bus.acc a { bus.acc a with flag := flag, topic := some t }
    links := links }

/-- `abus_topic_unsubscribe`: the topic is not looked at. -/
def abusTopicUnsubscribe (bus : Bus T A κ σ) (_t : T) (a : A) : Call (Bus T A κ σ) := do
  let links ← listDel bus.links (.acc a)
  pure { bus with
    acc := Function.update bus.acc a { bus.acc a with topic := none }
    links := links }

/-! ## Publishing -/

/-- A publish of `a`, while `busy` are being published. -/
abbrev Publish (T A κ σ : Type) :=
  List T → Bus T A κ σ → A → List UInt8 → Traced (Event T A κ σ) (Bus T A κ σ)

/-- Runs a callback of topic `t`; `pub` is `abus_public`. -/
def runCallback (pub : Publish T A κ σ) (busy : List T) (t : T) :
    Callback A σ → Bus T A κ σ → Traced (Event T A κ σ) (Bus T A κ σ)
  | .done user, bus => pure { bus with user := user }
  | .outData buffer len _ k, bus => do
    let fifo ← deref (bus.topic t).datafifo
    let (buffer, n) ← afifoOutData fifo buffer len
    Traced.emit (.read t len (buffer.take n.toNat))
    runCallback pub busy t (k buffer n) bus
  | .publish user a msg k, bus => do
    let bus ← pub busy { bus with user := user } a msg
    runCallback pub busy t (k bus.user) bus

/-- The copy of the message to the buffer of a subscriber. -/
def copyToSync (a : A) (msg : List UInt8) (sync : A) (bus : Bus T A κ σ) : Call (Bus T A κ σ) :=
  match (bus.acc sync).datafifo with
  | none => pure bus
  | some fifo => do
    let t ← deref (bus.acc a).topic
    let (fifo, syncIn) ← afifoIn fifo msg (bus.topic t).msgSize
    let bus := bus.setAccFifo sync (some fifo)
    let u ← deref (bus.acc sync).topic
    bugOn (syncIn != (bus.topic u).msgSize)
    pure bus

/-- The call of a subscriber's callback. -/
def callSync (code : κ → T → σ → Callback A σ) (pub : Publish T A κ σ) (busy : List T) (a : A)
    (sync : A) (bus : Bus T A κ σ) : Traced (Event T A κ σ) (Bus T A κ σ) :=
  match (bus.acc sync).callback with
  | none => pure bus
  | some f => do
    let t ← deref (bus.acc a).topic
    Traced.emit (.call t sync)
    runCallback pub busy t (code f t bus.user) bus

/-- The body of the loop of `abus_public`. -/
def publicBody (code : κ → T → σ → Callback A σ) (pub : Publish T A κ σ) (busy : List T) (a : A)
    (msg : List UInt8) (pos : Head T A) (bus : Bus T A κ σ) :
    Traced (Event T A κ σ) (Bus T A κ σ) :=
  match pos with
  | .list _ _ => (Call.fault : Call _)
  | .acc sync =>
    if (bus.acc sync).flag.async then pure bus
    else do
      let bus ← copyToSync a msg sync bus
      callSync code pub busy a sync bus

/-- The loop `list_for_each` of `abus_public`, from `pos` on. Its head is looked up each time. -/
def publicLoop (a : A) (body : Head T A → Bus T A κ σ → Traced (Event T A κ σ) (Bus T A κ σ)) :
    ℕ → Head T A → Bus T A κ σ → Traced (Event T A κ σ) (Bus T A κ σ)
  | 0, _, _ => Traced.diverge
  | fuel + 1, pos, bus => do
    let t ← deref (bus.acc a).topic
    if pos = .list false t then pure bus
    else
      let bus ← body pos bus
      let pos ← deref (bus.links.next pos)
      publicLoop a body fuel pos bus

/-- `abus_public`. -/
def abusPublic (code : κ → T → σ → Callback A σ) : ℕ → Publish T A κ σ
  | 0, _, _, _, _ => Traced.diverge
  | fuel + 1, busy, bus, a, msg => do
    Traced.emit (.enter busy bus a msg)
    let t ← deref (bus.acc a).topic
    let fifo ← deref (bus.topic t).datafifo
    let (fifo, accIn) ← afifoIn fifo msg (bus.topic t).msgSize
    let bus := bus.setTopicFifo t (some fifo)
    bugOn (accIn != (bus.topic t).msgSize)
    let pos ← deref (bus.links.next (.list false t))
    let bus ← publicLoop a (publicBody code (abusPublic code fuel) (t :: busy) a msg) fuel pos bus
    let t ← deref (bus.acc a).topic
    let fifo ← deref (bus.topic t).datafifo
    pure (bus.setTopicFifo t (some (afifoAddOut fifo (bus.topic t).msgSize).1))

/-! ## Fuel -/

section Fuel

variable {code : κ → T → σ → Callback A σ} {pub pub' : Publish T A κ σ}

omit [DecidableEq T] [DecidableEq A] in
theorem runCallback_le (h : ∀ busy bus a msg, (pub busy bus a msg).Le (pub' busy bus a msg))
    (busy : List T) (t : T) (c : Callback A σ) (bus : Bus T A κ σ) :
    (runCallback pub busy t c bus).Le (runCallback pub' busy t c bus) := by
  induction c generalizing bus with
  | done user => exact .refl _
  | outData buffer len hlen k ih =>
    exact .bind (.refl _) fun fifo => .bind (.refl _) fun r => .bind (.refl _) fun _ => ih _ _ bus
  | publish user a msg k ih => exact .bind (h _ _ a msg) fun bus₁ => ih _ bus₁

omit [DecidableEq T] in
theorem publicBody_le (h : ∀ busy bus a msg, (pub busy bus a msg).Le (pub' busy bus a msg))
    (busy : List T) (a : A) (msg : List UInt8) (pos : Head T A) (bus : Bus T A κ σ) :
    (publicBody code pub busy a msg pos bus).Le (publicBody code pub' busy a msg pos bus) := by
  cases pos with
  | list async t => exact .refl _
  | acc sync =>
    simp only [publicBody]
    split
    · exact .refl _
    · refine .bind (.refl _) fun bus₁ => ?_
      simp only [callSync]
      split
      · exact .refl _
      · exact .bind (.refl _) fun t => .bind (.refl _) fun _ =>
        runCallback_le h busy t _ bus₁

theorem publicLoop_le {body body' : Head T A → Bus T A κ σ →
      Traced (Event T A κ σ) (Bus T A κ σ)}
    (h : ∀ pos bus, (body pos bus).Le (body' pos bus)) (a : A) (n : ℕ) (pos : Head T A)
    (bus : Bus T A κ σ) :
    (publicLoop a body n pos bus).Le (publicLoop a body' (n + 1) pos bus) := by
  induction n generalizing pos bus with
  | zero => exact Traced.diverge_le _
  | succ n ih =>
    refine .bind (.refl _) fun t => ?_
    split
    · exact .refl _
    · exact .bind (h pos bus) fun bus₁ => .bind (.refl _) fun pos₁ => ih pos₁ bus₁

/-- More fuel changes nothing about a publish that returns. -/
theorem abusPublic_le (n : ℕ) (busy : List T) (bus : Bus T A κ σ) (a : A) (msg : List UInt8) :
    (abusPublic code n busy bus a msg).Le (abusPublic code (n + 1) busy bus a msg) := by
  induction n generalizing busy bus a msg with
  | zero => exact Traced.diverge_le _
  | succ n ih =>
    refine .bind (.refl _) fun _ => .bind (.refl _) fun t => .bind (.refl _) fun fifo =>
      .bind (.refl _) fun r => .bind (.refl _) fun _ => .bind (.refl _) fun pos =>
        .bind ?_ fun bus₁ => .refl _
    exact publicLoop_le (fun pos bus₁ => publicBody_le ih (t :: busy) a msg pos bus₁) a n pos _

end Fuel

end Robot
