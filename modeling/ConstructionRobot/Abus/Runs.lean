import ConstructionRobot.Abus.Publish

/-!
# Runs of the bus

`Reached code bus reg`: the bus can be in the state `bus` after calls of its functions, and the
subscriptions made and ended by these calls leave `reg`. An accounter subscribes only while it is
not subscribed and unsubscribes only while it is.

* `reached_inv`: the invariant holds in every state reached.
* `public_delivers`: a publish from there returns and reaches every sync subscriber.
* `public_skips_async`: an async subscriber gets nothing, not even in its own buffer.
-/

namespace Robot

variable {T A κ σ : Type} [DecidableEq T] [DecidableEq A]

/-- The states of the bus, with the subscriptions that are left. -/
inductive Reached (code : κ → T → σ → Callback A σ) : Bus T A κ σ → Registry T A → Prop where
  | start (user : σ) : Reached code (Bus.zero T A κ user) Registry.empty
  | topicInit {bus bus' : Bus T A κ σ} {reg : Registry T A} (t : T) (init : TopicInit)
      (h : Reached code bus reg) (ht : t ∉ bus.topics)
      (hbuf : init.buf.length = init.bufSize.toNat)
      (hsize : init.msgSize.toNat ≤ init.bufSize.toNat)
      (hrun : abusTopicInit bus t init true = .ret bus') : Reached code bus' (reg.addTopic t)
  | accInit {bus bus' : Bus T A κ σ} {reg : Registry T A} (a : A) (init : AccInit κ)
      (h : Reached code bus reg) (hfifo : ∀ fifo, init.datafifo = some fifo → fifo.WF)
      (hrun : abusAccInit bus a init = .ret bus') : Reached code bus' reg
  | subscribe {bus bus' : Bus T A κ σ} {reg : Registry T A} (t : T) (a : A) (flag : AbusSubFlag)
      (h : Reached code bus reg) (ht : t ∈ bus.topics) (ha : (bus.acc a).topic = none)
      (hrun : abusTopicSubscribe bus t a flag = .ret bus') :
      Reached code bus' (reg.subscribe t a flag.async)
  | unsubscribe {bus bus' : Bus T A κ σ} {reg : Registry T A} (t : T) (a : A)
      (h : Reached code bus reg) (ha : (bus.acc a).topic = some t)
      (hrun : abusTopicUnsubscribe bus t a = .ret bus') : Reached code bus' (reg.unsubscribe a)
  -- the owner of a buffer takes bytes out of it
  | out {bus : Bus T A κ σ} {reg : Registry T A} (a : A) {fifo fifo' : Afifo}
      {buffer buffer' : List UInt8} {len n : UInt32} (h : Reached code bus reg)
      (hfifo : (bus.acc a).datafifo = some fifo)
      (hrun : afifoOut fifo buffer len = .ret (fifo', buffer', n)) :
      Reached code (bus.setAccFifo a (some fifo')) reg
  | publish {bus bus' : Bus T A κ σ} {reg : Registry T A} (a : A) (msg : List UInt8)
      {log : List (Event T A κ σ)} (h : Reached code bus reg)
      (hrun : Ends (fun n => abusPublic code n [] bus a msg) log bus')
      (hallowed : ∀ e ∈ log, e.Allowed) : Reached code bus' reg

section Inv

variable {code : κ → T → σ → Callback A σ} {bus : Bus T A κ σ} {reg : Registry T A}

theorem reached_inv (h : Reached code bus reg) : bus.Inv reg [] := by
  induction h with
  | start user => exact Bus.inv_zero user
  | topicInit t init h ht hbuf hsize hrun ih => exact topicInit_inv ih ht hbuf hsize hrun
  | accInit a init h hfifo hrun ih => exact accInit_inv ih hfifo hrun
  | subscribe t a flag h ht ha hrun ih => exact subscribe_ret_inv ih ht ha hrun
  | unsubscribe t a h ha hrun ih =>
    obtain ⟨bus₁, hrun₁, hinv⟩ := unsubscribe_inv ih ha
    rwa [Call.ret.inj (hrun.symm.trans hrun₁)]
  | out a h hfifo hrun ih =>
    rw [afifoOut_eq] at hrun
    obtain ⟨r, -, hrun⟩ := Call.bind_eq_ret.mp hrun
    obtain ⟨rfl, -⟩ := Prod.mk.inj (Call.ret.inj hrun)
    exact setAccFifo_inv ih (afifoAddOut_spec (ih.own _ _ hfifo) _).1
  | publish a msg h hrun hallowed ih =>
    obtain ⟨log₁, bus₁, hrun₁, ⟨t, -, -, hd⟩, -⟩ :=
      abusPublic_settles ih (hrun.forall_log hallowed)
    rw [(hrun.unique hrun₁).2]
    exact hd.inv

end Inv

/-- In every state the bus can reach, a publish that meets the contract, and whose callbacks meet
it, returns. The callbacks of the sync subscribers of its topic are called once each, the last to
subscribe first, and no others of the topic. What they read is the message. The sync subscribers
with a buffer get the message, the async subscribers get nothing. At the end the topic is empty,
and nothing but buffers has changed. Every publish made in a callback, at any depth, has done the
same. -/
theorem public_delivers {code : κ → T → σ → Callback A σ} {bus : Bus T A κ σ}
    {reg : Registry T A} {a : A} {msg : List UInt8} (hreach : Reached code bus reg)
    (hallowed : ∀ᶠ fuel in Filter.atTop,
      ∀ e ∈ (abusPublic code fuel [] bus a msg).log, e.Allowed) :
    ∃ t log bus', (bus.acc a).topic = some t ∧
      Ends (fun fuel => abusPublic code fuel [] bus a msg) log bus' ∧
      Ring bus.links (.list false t) ((reg.subs false t).map .acc) ∧
      calls t log = (reg.subs false t).filter (fun b => (bus.acc b).callback.isSome) ∧
      (∀ len bytes, Event.read t len bytes ∈ log →
        bytes = (msg.take (bus.topic t).msgSize.toNat).take len.toNat) ∧
      (∀ b ∈ reg.subs false t, (bus'.acc b).datafifo.map Afifo.queue =
        (bus.acc b).datafifo.map (·.queue ++ msg.take (bus.topic t).msgSize.toNat)) ∧
      (∀ b ∈ reg.subs true t, bus'.acc b = bus.acc b) ∧
      (∃ fifo, (bus'.topic t).datafifo = some fifo ∧ fifo.queue = []) ∧
      bus.Same bus' ∧ AllPublished reg log := by
  have hinv := reached_inv hreach
  obtain ⟨log, bus', hends, ⟨t, htopic, hidle, hd⟩, hall⟩ := abusPublic_settles hinv hallowed
  have ht := hinv.mem_topics a t htopic
  have hasync : ∀ b ∈ reg.subs true t, bus'.acc b = bus.acc b := by
    intro b hb
    obtain ⟨-, hflag⟩ := (hinv.mem_subs true t b).mp hb
    refine hd.acc b (fun hb' => ?_) fun u _ => .inr hflag
    obtain ⟨-, hflag'⟩ := (hinv.mem_subs false t b).mp hb'
    exact Bool.false_ne_true (hflag'.symm.trans hflag)
  have hempty : ∃ fifo, (bus'.topic t).datafifo = some fifo ∧ fifo.queue = [] := by
    obtain ⟨fifo, hfifo⟩ := hd.inv.ready t ht
    exact ⟨fifo, hfifo.datafifo, hfifo.idle hidle⟩
  exact ⟨t, log, bus', htopic, hends, hinv.ring false t ht, hd.calls, hd.reads, hd.appended,
    hasync, hempty, hd.same, hall⟩

/-! ## Two small buses -/

/-- An empty buffer of 4 bytes. -/
def smallFifo : Afifo := { buffer := [0, 0, 0, 0], size := 4, inIdx := 0, outIdx := 0 }

theorem smallFifo_wf : smallFifo.WF := ⟨⟨2, by decide, by decide⟩, by decide, by decide⟩

/-- The callbacks of a line follower: one reads the line error and publishes a chassis command,
the other reads and keeps the command. -/
def lineCode : Bool → Bool → List UInt8 → Callback (Fin 4) (List UInt8)
  | false, _, user => .outData [0] 1 (by decide) fun buffer _ =>
      .publish user 3 (0 :: buffer) fun user => .done user
  | true, _, _ => .outData [0, 0] 2 (by decide) fun buffer _ => .done buffer

/-- Topic `false` is the line error, of one byte, with the accounters 0 and 1. Topic `true` is the
chassis command, of two bytes, with the accounters 2, which has a buffer, and 3. -/
theorem line_reached : ∃ bus reg, Reached lineCode bus reg ∧
    (abusPublic lineCode 20 [] bus 0 [7]).res.ret?.map Bus.user = some [0, 7] ∧
    (∀ e ∈ (abusPublic lineCode 20 [] bus 0 [7]).log, e.Allowed) ∧
    (bus.acc 0).topic = some false ∧
    (reg.subs false false).filter (fun b => (bus.acc b).callback.isSome) = [1] := by
  have h₀ : Reached lineCode (Bus.zero Bool (Fin 4) Bool []) Registry.empty := .start []
  have h₁ := Reached.topicInit false ⟨0, [0, 0, 0, 0], 4, 1⟩ h₀ (by decide) rfl (by decide)
    (abusTopicInit_eq (by decide +kernel) (by decide))
  have h₂ := Reached.topicInit true ⟨0, [0, 0, 0, 0], 4, 2⟩ h₁ (by decide) rfl (by decide)
    (abusTopicInit_eq (by decide +kernel) (by decide))
  have h₃ := Reached.accInit 1 ⟨0, none, some false⟩ h₂ (by simp) rfl
  have h₄ := Reached.accInit 2 ⟨0, some smallFifo, some true⟩ h₃ (by simp [smallFifo_wf]) rfl
  have h₅ := Reached.subscribe false 0 ⟨0, 0⟩ h₄ (by decide) rfl rfl
  have h₆ := Reached.subscribe false 1 ⟨0, 0⟩ h₅ (by decide) rfl rfl
  have h₇ := Reached.subscribe true 2 ⟨0, 0⟩ h₆ (by decide) rfl rfl
  have h₈ := Reached.subscribe true 3 ⟨0, 0⟩ h₇ (by decide) rfl rfl
  exact ⟨_, _, h₈, by decide +kernel, by decide +kernel, by decide +kernel, by decide +kernel⟩

/-- A line error of 7: the callback of accounter 1 is called and publishes the command `[0, 7]`,
which the callback of accounter 2 keeps. -/
theorem public_delivers_nested : ∃ bus reg, Reached lineCode bus reg ∧
    (∀ᶠ fuel in Filter.atTop,
      ∀ e ∈ (abusPublic lineCode fuel [] bus 0 [7]).log, e.Allowed) ∧
    ∃ log bus', Ends (fun fuel => abusPublic lineCode fuel [] bus 0 [7]) log bus' ∧
      calls false log = [1] ∧ bus'.user = [0, 7] := by
  obtain ⟨bus, reg, hreach, hrun, hlog, htopic, hsubs⟩ := line_reached
  obtain ⟨bus₁, hrun, huser⟩ := Option.map_eq_some_iff.mp hrun
  have hends := ends_of_le (abusPublic_le · [] bus 0 [7]) 20 hrun
  have hallowed := hends.forall_log hlog
  obtain ⟨t, log, bus', ht, hends', -, hcalls, -⟩ := public_delivers hreach hallowed
  obtain rfl : t = false := Option.some.inj (ht.symm.trans htopic)
  obtain ⟨-, rfl⟩ := hends.unique hends'
  exact ⟨bus, reg, hreach, hallowed, log, bus₁, hends', hcalls.trans hsubs, huser⟩

/-- A topic with messages of one byte. Accounter `false` is on its sync list, accounter `true` is
on its async list and has an empty buffer of 4 bytes. -/
theorem async_reached :
    ∃ (bus : Bus Unit Bool Empty Unit) (reg : Registry Unit Bool), Reached Empty.elim bus reg ∧
      (abusPublic Empty.elim 20 [] bus false [7]).res.ret?.map
        (fun bus' => (bus'.acc true).datafifo.map Afifo.queue) = some (some []) ∧
      (∀ e ∈ (abusPublic Empty.elim 20 [] bus false [7]).log, e.Allowed) ∧
      true ∈ reg.subs true () ∧ bus.Room () true ∧
      (bus.acc true).datafifo.map Afifo.queue = some [] ∧ (bus.topic ()).msgSize = 1 := by
  have h₀ : Reached Empty.elim (Bus.zero Unit Bool Empty ()) Registry.empty := .start ()
  have h₁ := Reached.topicInit () ⟨0, [0, 0, 0, 0], 4, 1⟩ h₀ (by decide) rfl (by decide)
    (abusTopicInit_eq (by decide +kernel) (by decide))
  have h₂ := Reached.accInit true ⟨0, some smallFifo, none⟩ h₁ (by simp [smallFifo_wf]) rfl
  have h₃ := Reached.subscribe () false ⟨0, 0⟩ h₂ (by decide) rfl rfl
  have h₄ := Reached.subscribe () true ⟨1, 0⟩ h₃ (by decide) rfl rfl
  exact ⟨_, _, h₄, by decide +kernel, by decide +kernel, by decide +kernel, by decide +kernel,
    by decide +kernel, by decide +kernel⟩

/-- A subscriber on the async list does not get the message in its buffer, which has room: nothing
of the source forwards messages to that list. -/
theorem public_skips_async :
    ∃ (bus : Bus Unit Bool Empty Unit) (reg : Registry Unit Bool), Reached Empty.elim bus reg ∧
      (∀ᶠ fuel in Filter.atTop,
        ∀ e ∈ (abusPublic Empty.elim fuel [] bus false [7]).log, e.Allowed) ∧
      true ∈ reg.subs true () ∧ bus.Room () true ∧
      ∃ log bus', Ends (fun fuel => abusPublic Empty.elim fuel [] bus false [7]) log bus' ∧
        (bus'.acc true).datafifo.map Afifo.queue ≠
          (bus.acc true).datafifo.map (·.queue ++ [7].take (bus.topic ()).msgSize.toNat) := by
  obtain ⟨bus, reg, hreach, hrun, hlog, hsub, hroom, hqueue, hsize⟩ := async_reached
  obtain ⟨bus', hrun, hqueue'⟩ := Option.map_eq_some_iff.mp hrun
  have hends := ends_of_le (abusPublic_le · [] bus false [7]) 20 hrun
  refine ⟨bus, reg, hreach, hends.forall_log hlog, hsub, hroom, _, bus', hends, ?_⟩
  obtain ⟨fifo, hfifo, hempty⟩ := Option.map_eq_some_iff.mp hqueue
  rw [hqueue', hfifo, hsize, Option.map_some, hempty]
  decide

end Robot
