import ConstructionRobot.Abus.Runs

/-!
# Subscribing in any order

The nodes of the subscriber lists do not know if they are on a list. `abus_topic_subscribe` adds an
accounter without looking where it is, and `abus_topic_unsubscribe` follows the links of an
accounter that may have none.

* `Bus.Listed`: the lists of the topics are rings of the accounters that name the topic.
* `subscribe_again_not_listed`, `unsubscribe_unlinked`: what the two functions do out of order.
* `TakesTurns`: a condition on the calls alone: an accounter is subscribed while it is not, and
  unsubscribed while it is.
* `lists_survive_iff`: the lists survive the calls exactly if the calls are in order.
-/

namespace Robot

/-- A call by the modules. -/
inductive BusOp (T A : Type) where
  | subscribe (t : T) (a : A) (flag : AbusSubFlag)
  | unsubscribe (t : T) (a : A)
  | publish (a : A) (msg : List UInt8)

variable {T A κ σ : Type} [DecidableEq T] [DecidableEq A]

/-- The call returns, and leaves `bus'`. -/
def BusOp.Returns (code : κ → T → σ → Callback A σ) (bus : Bus T A κ σ) (bus' : Bus T A κ σ) :
    BusOp T A → Prop
  | .subscribe t a flag => abusTopicSubscribe bus t a flag = .ret bus'
  | .unsubscribe t a => abusTopicUnsubscribe bus t a = .ret bus'
  | .publish a msg => ∃ log, Ends (fun fuel => abusPublic code fuel [] bus a msg) log bus'

/-- Each list of a registered topic is a ring, and the accounters on it are those that name the
topic, each once. -/
def Bus.Listed (bus : Bus T A κ σ) : Prop :=
  ∀ k, ∀ t ∈ bus.topics, ∃ xs : List A, Ring bus.links (.list k t) (xs.map .acc) ∧
    ∀ a, a ∈ xs ↔ (bus.acc a).topic = some t ∧ (bus.acc a).flag.async = k

/-- The lists are in order before and after each call, and every call returns. -/
def Survives (code : κ → T → σ → Callback A σ) : Bus T A κ σ → List (BusOp T A) → Prop
  | bus, [] => bus.Listed
  | bus, op :: ops => bus.Listed ∧ ∃ bus', op.Returns code bus bus' ∧ Survives code bus' ops

/-- Every publish of the calls, and every publish in its callbacks, is one that callers may
make. -/
def PublishesAllowed (code : κ → T → σ → Callback A σ) :
    Bus T A κ σ → List (BusOp T A) → Prop
  | _, [] => True
  | bus, op :: ops =>
    (∀ a msg, op = .publish a msg →
      ∀ᶠ fuel in Filter.atTop, ∀ e ∈ (abusPublic code fuel [] bus a msg).log, e.Allowed) ∧
    ∀ bus', op.Returns code bus bus' → PublishesAllowed code bus' ops

/-- With the accounters `subs` subscribed: an accounter is subscribed only while it is not, and
unsubscribed only while it is. -/
def TakesTurns : (A → Bool) → List (BusOp T A) → Prop
  | _, [] => True
  | subs, .subscribe _ a _ :: ops => subs a = false ∧ TakesTurns (Function.update subs a true) ops
  | subs, .unsubscribe _ a :: ops => subs a = true ∧ TakesTurns (Function.update subs a false) ops
  | subs, .publish _ _ :: ops => TakesTurns subs ops

/-- Accounters that name a topic. -/
def Bus.subscribed (bus : Bus T A κ σ) (a : A) : Bool := (bus.acc a).topic.isSome

/-- An accounter that names no topic has no links. -/
def Bus.Unlinked (bus : Bus T A κ σ) : Prop :=
  ∀ a, (bus.acc a).topic = none → bus.links.next (.acc a) = none ∧ bus.links.prev (.acc a) = none

section Calls

variable {code : κ → T → σ → Callback A σ} {bus bus' : Bus T A κ σ} {reg : Registry T A} {t : T}
  {a : A}

omit [DecidableEq T] [DecidableEq A] in
theorem Bus.Inv.listed {busy : List T} (h : bus.Inv reg busy) : bus.Listed := by
  intro k t ht
  rw [h.topics] at ht
  exact ⟨reg.subs k t, h.ring k t ht, h.mem_subs k t⟩

omit [DecidableEq T] [DecidableEq A] in
/-- An accounter that names no topic is on no list. -/
theorem not_mem_list {busy : List T} (h : bus.Inv reg busy) (ha : (bus.acc a).topic = none)
    (k : Bool) (t : T) : Head.acc a ∉ Head.list k t :: (reg.subs k t).map Head.acc := by
  have hnot : a ∉ reg.subs k t := by
    intro hmem
    rw [h.mem_subs, ha] at hmem
    exact absurd hmem.1 (by simp)
  simpa using hnot

/-! ## In order -/

theorem subscribe_unlinked {flag : AbusSubFlag} (h : bus.Inv reg []) (hu : bus.Unlinked)
    (ht : t ∈ bus.topics) (ha : (bus.acc a).topic = none)
    (hrun : abusTopicSubscribe bus t a flag = .ret bus') : bus'.Unlinked := by
  rw [h.topics] at ht
  obtain ⟨l', hl', -, hframe⟩ := ring_add (h.ring flag.async t ht) (not_mem_list h ha _ t)
  rw [abusTopicSubscribe, hl'] at hrun
  cases hrun
  intro b hb
  by_cases hba : b = a
  · rw [hba] at hb
    simp at hb
  · have hb' : (bus.acc b).topic = none := by simpa [Function.update_of_ne hba] using hb
    have hnot : Head.acc b ∉ Head.acc a :: Head.list flag.async t ::
        (reg.subs flag.async t).map Head.acc := by
      rw [List.mem_cons, not_or]
      exact ⟨by simpa using hba, not_mem_list h hb' _ t⟩
    rw [(hframe _ hnot).1, (hframe _ hnot).2]
    exact hu b hb'

theorem unsubscribe_unlinked {u : T} (h : bus.Inv reg []) (hu : bus.Unlinked)
    (ha : (bus.acc a).topic = some t) (hrun : abusTopicUnsubscribe bus u a = .ret bus') :
    bus'.Unlinked := by
  have hmem : a ∈ reg.subs (bus.acc a).flag.async t := (h.mem_subs _ _ _).mpr ⟨ha, rfl⟩
  have hmem' : Head.acc a ∈ (reg.subs (bus.acc a).flag.async t).map (Head.acc : A → Head T A) :=
    List.mem_map_of_mem hmem
  obtain ⟨l', hl', -, hframe⟩ := ring_del (h.ring _ t (h.mem_topics a t ha)) hmem'
  rw [abusTopicUnsubscribe, hl'] at hrun
  cases hrun
  intro b hb
  by_cases hba : b = a
  · obtain ⟨p, -, hdel⟩ := Call.bind_eq_ret.mp hl'
    obtain ⟨n, -, hdel⟩ := Call.bind_eq_ret.mp hdel
    cases hdel
    simp [hba]
  · have hb' : (bus.acc b).topic = none := by simpa [Function.update_of_ne hba] using hb
    have hnot := not_mem_list h hb' (bus.acc a).flag.async t
    rw [(hframe _ hnot).1, (hframe _ hnot).2]
    exact hu b hb'

/-- The states that the bus reaches: no links are left over. -/
theorem reached_unlinked (h : Reached code bus reg) : bus.Unlinked := by
  induction h with
  | start user => exact fun a _ => ⟨rfl, rfl⟩
  | topicInit t init h ht hbuf hsize hrun ih =>
    obtain ⟨fifo?, -, hrun⟩ := Call.bind_eq_ret.mp hrun
    obtain ⟨-, -, hrun⟩ := Call.bind_eq_ret.mp hrun
    cases hrun
    intro a ha
    simpa [initListHead] using ih a ha
  | accInit a init h hfifo hrun ih =>
    obtain ⟨-, -, hrun⟩ := Call.bind_eq_ret.mp hrun
    cases hrun
    intro b hb
    refine ih b ?_
    by_cases hba : b = a
    · simpa [hba] using hb
    · simpa [Function.update_of_ne hba] using hb
  | subscribe t a flag h ht ha hrun ih => exact subscribe_unlinked (reached_inv h) ih ht ha hrun
  | unsubscribe t a h ha hrun ih => exact unsubscribe_unlinked (reached_inv h) ih ha hrun
  | out a h hfifo hrun ih =>
    intro b hb
    refine ih b ?_
    by_cases hba : b = a
    · simpa [Bus.setAccFifo, hba] using hb
    · simpa [Bus.setAccFifo, Function.update_of_ne hba] using hb
  | publish a msg h hrun hallowed ih =>
    obtain ⟨log₁, bus₁, hrun₁, ⟨t, -, -, hd⟩, -⟩ :=
      abusPublic_settles (reached_inv h) (hrun.forall_log hallowed)
    intro b hb
    rw [(hrun.unique hrun₁).2] at hb ⊢
    rw [hd.same.acc_topic] at hb
    rw [hd.same.links]
    exact ih b hb

/-! ## Out of order -/

/-- An accounter is subscribed once more: the list that it was on is no ring any more. -/
theorem subscribe_again_not_listed {u : T} {flag : AbusSubFlag} (h : bus.Inv reg [])
    (ha : (bus.acc a).topic = some u) (hrun : abusTopicSubscribe bus t a flag = .ret bus') :
    ¬ bus'.Listed := by
  intro hlisted
  have hu := h.mem_topics a u ha
  have hmem : a ∈ reg.subs (bus.acc a).flag.async u := (h.mem_subs _ _ _).mpr ⟨ha, rfl⟩
  have hmem' : Head.acc a ∈ (reg.subs (bus.acc a).flag.async u).map (Head.acc : A → Head T A) :=
    List.mem_map_of_mem hmem
  obtain ⟨l', hadd, hret⟩ := Call.bind_eq_ret.mp hrun
  cases hret
  obtain ⟨q, hq, hnext, hprev, hself⟩ :=
    ring_add_again (h.ring (bus.acc a).flag.async u hu) hmem' hadd
  obtain ⟨xs, hring, hxs⟩ := hlisted (bus.acc a).flag.async u (by rw [h.topics]; exact hu)
  -- the node that leads to `a` is on the list still, and so `a` has to lead back to it
  refine hprev (hring.prev_next ?_ hnext)
  rcases List.mem_cons.mp hq with rfl | hq
  · exact List.mem_cons_self
  · obtain ⟨b, hb, rfl⟩ := List.mem_map.mp hq
    refine List.mem_cons_of_mem _ (List.mem_map_of_mem ((hxs b).mpr ?_))
    by_cases hba : b = a
    · obtain ⟨hk, rfl⟩ : flag.async = (bus.acc a).flag.async ∧ t = u := by
        simpa using hself (by rw [hba])
      simp [hba, hk]
    · simpa [Function.update_of_ne hba] using (h.mem_subs _ u b).mp hb

/-- An accounter that is not subscribed is unsubscribed: a null link is followed. -/
theorem unsubscribe_fault {u : T} (hu : bus.Unlinked)
    (ha : (bus.acc a).topic = none) : abusTopicUnsubscribe bus u a = .fault := by
  rw [abusTopicUnsubscribe, listDel, (hu a ha).2]
  rfl

/-! ## Runs -/

/-- The call returns, keeps the invariants, and leaves the accounters `subs` subscribed. -/
def Keeps (code : κ → T → σ → Callback A σ) (bus : Bus T A κ σ) (op : BusOp T A)
    (subs : A → Bool) : Prop :=
  ∃ bus' reg', op.Returns code bus bus' ∧ bus'.Inv reg' [] ∧ bus'.Unlinked ∧
    bus'.topics = bus.topics ∧ bus'.subscribed = subs

omit [DecidableEq T] in
/-- The accounter `a` gets another topic field. -/
theorem subscribed_update {x : Accounter T κ} (hacc : bus'.acc = Function.update bus.acc a x) :
    bus'.subscribed = Function.update bus.subscribed a x.topic.isSome := by
  funext b
  by_cases hba : b = a
  · simp [Bus.subscribed, hacc, hba]
  · simp [Bus.subscribed, hacc, Function.update_of_ne hba]

theorem subscribe_keeps {flag : AbusSubFlag} (h : bus.Inv reg []) (hu : bus.Unlinked)
    (ht : t ∈ bus.topics) (ha : (bus.acc a).topic = none) :
    Keeps code bus (.subscribe t a flag) (Function.update bus.subscribed a true) := by
  obtain ⟨bus', hrun, hinv⟩ := subscribe_inv h ht ha
  obtain ⟨l', -, hret⟩ := Call.bind_eq_ret.mp hrun
  have hacc := congrArg Bus.acc (Call.ret.inj hret).symm
  refine ⟨bus', _, hrun, hinv, subscribe_unlinked h hu ht ha hrun, ?_, subscribed_update hacc⟩
  rw [hinv.topics, h.topics]
  rfl

theorem unsubscribe_keeps {u : T} (h : bus.Inv reg []) (hu : bus.Unlinked)
    (ha : (bus.acc a).topic = some t) :
    Keeps code bus (.unsubscribe u a) (Function.update bus.subscribed a false) := by
  obtain ⟨bus', hrun, hinv⟩ := unsubscribe_inv h ha
  obtain ⟨l', -, hret⟩ := Call.bind_eq_ret.mp hrun
  have hacc := congrArg Bus.acc (Call.ret.inj hret).symm
  refine ⟨bus', _, hrun, hinv, unsubscribe_unlinked h hu ha hrun, ?_, subscribed_update hacc⟩
  rw [hinv.topics, h.topics]
  rfl

/-- A publish that callers may make. -/
theorem publish_keeps {msg : List UInt8} (h : bus.Inv reg []) (hu : bus.Unlinked)
    (hallowed : ∀ᶠ fuel in Filter.atTop,
      ∀ e ∈ (abusPublic code fuel [] bus a msg).log, e.Allowed) :
    Keeps code bus (.publish a msg) bus.subscribed := by
  obtain ⟨log, bus', hends, ⟨t, -, -, hd⟩, -⟩ := abusPublic_settles h hallowed
  refine ⟨bus', reg, ⟨log, hends⟩, hd.inv, fun b hb => ?_, hd.same.topics, ?_⟩
  · rw [hd.same.acc_topic] at hb
    rw [hd.same.links]
    exact hu b hb
  · funext b
    rw [Bus.subscribed, hd.same.acc_topic, Bus.subscribed]

/-- A call returns in one way. -/
theorem returns_unique {op : BusOp T A} {bus₁ bus₂ : Bus T A κ σ} (h₁ : op.Returns code bus bus₁)
    (h₂ : op.Returns code bus bus₂) : bus₁ = bus₂ := by
  cases op with
  | subscribe t a flag => exact Call.ret.inj (h₁.symm.trans h₂)
  | unsubscribe t a => exact Call.ret.inj (h₁.symm.trans h₂)
  | publish a msg =>
    obtain ⟨log₁, h₁⟩ := h₁
    obtain ⟨log₂, h₂⟩ := h₂
    exact (h₁.unique h₂).2

theorem survives_listed {ops : List (BusOp T A)} (h : Survives code bus ops) : bus.Listed := by
  cases ops with
  | nil => exact h
  | cons op ops => exact h.1

/-- Runs from any state with the invariant. The induction is on the calls; the first one that is
out of order ends it. -/
theorem survives_iff_inOrder {ops : List (BusOp T A)} (h : bus.Inv reg []) (hu : bus.Unlinked)
    (hinit : ∀ t a flag, .subscribe t a flag ∈ ops → t ∈ bus.topics)
    (hpub : PublishesAllowed code bus ops) :
    Survives code bus ops ↔ TakesTurns bus.subscribed ops := by
  induction ops generalizing bus reg with
  | nil => exact iff_of_true h.listed trivial
  | cons op ops ih =>
    -- behind a call that is in order
    have hrest (subs : A → Bool) (hkeeps : Keeps code bus op subs) :
        Survives code bus (op :: ops) ↔ TakesTurns subs ops := by
      obtain ⟨bus', reg', hop, hinv, hu', htopics, rfl⟩ := hkeeps
      rw [← ih hinv hu' (fun t a flag hmem => ?_) (hpub.2 bus' hop)]
      · constructor
        · rintro ⟨-, bus₁, hop₁, hs⟩
          rwa [returns_unique hop hop₁]
        · exact fun hs => ⟨h.listed, bus', hop, hs⟩
      · rw [htopics]
        exact hinit t a flag (List.mem_cons_of_mem _ hmem)
    cases op with
    | subscribe t a flag =>
      have ht := hinit t a flag List.mem_cons_self
      cases ha : (bus.acc a).topic with
      | none =>
        rw [hrest _ (subscribe_keeps h hu ht ha)]
        exact (and_iff_right (by rw [Bus.subscribed, ha]; rfl)).symm
      | some u =>
        refine iff_of_false ?_ ?_
        · rintro ⟨-, bus', hrun, hs⟩
          exact subscribe_again_not_listed h ha hrun (survives_listed hs)
        · rintro ⟨hno, -⟩
          rw [Bus.subscribed, ha] at hno
          cases hno
    | unsubscribe t a =>
      cases ha : (bus.acc a).topic with
      | none =>
        refine iff_of_false ?_ ?_
        · rintro ⟨-, bus', hrun, -⟩
          have hrun' : abusTopicUnsubscribe bus t a = .ret bus' := hrun
          rw [unsubscribe_fault hu ha] at hrun'
          cases hrun'
        · rintro ⟨hyes, -⟩
          rw [Bus.subscribed, ha] at hyes
          cases hyes
      | some u =>
        rw [hrest _ (unsubscribe_keeps h hu ha)]
        exact (and_iff_right (by rw [Bus.subscribed, ha]; rfl)).symm
    | publish a msg => exact hrest _ (publish_keeps h hu (hpub.1 a msg rfl))

end Calls

/-- From any state that the bus reaches, and for any calls of `abus_topic_subscribe`,
`abus_topic_unsubscribe` and `abus_public` on registered topics whose publishes are ones that
callers may make: the lists of all topics stay rings of the accounters that name the topic, and
every call returns, exactly if the calls are in order. -/
theorem lists_survive_iff {code : κ → T → σ → Callback A σ} {bus : Bus T A κ σ}
    {reg : Registry T A} (hreach : Reached code bus reg) (ops : List (BusOp T A))
    (hinit : ∀ t a flag, .subscribe t a flag ∈ ops → t ∈ bus.topics)
    (hpub : PublishesAllowed code bus ops) :
    Survives code bus ops ↔ TakesTurns bus.subscribed ops :=
  survives_iff_inOrder (reached_inv hreach) (reached_unlinked hreach) hinit hpub

/-! ## A small bus -/

/-- One topic with messages of one byte, and two accounters that are not subscribed. -/
def oneTopic : Bus Unit Bool Empty Unit :=
  { Bus.zero Unit Bool Empty () with
    topic := Function.update (Bus.zero Unit Bool Empty ()).topic ()
      { name := 0
        datafifo := some { buffer := [0, 0, 0, 0], size := 4, inIdx := 0, outIdx := 0 }
        msgSize := 1 }
    links := initListHead (initListHead (Bus.zero Unit Bool Empty ()).links (.list false ()))
      (.list true ())
    topics := [()] }

theorem oneTopic_reached : Reached Empty.elim oneTopic (Registry.empty.addTopic ()) :=
  .topicInit () ⟨0, [0, 0, 0, 0], 4, 1⟩ (.start ()) (by decide) rfl (by decide)
    (abusTopicInit_eq (by decide +kernel) (by decide))

/-- A publish whose run is known. -/
theorem publish_allowed {code : κ → T → σ → Callback A σ} {bus : Bus T A κ σ} {a : A}
    {msg : List UInt8} {N : ℕ} (hret : (abusPublic code N [] bus a msg).res.ret?.isSome = true)
    (hlog : ∀ e ∈ (abusPublic code N [] bus a msg).log, e.Allowed) :
    ∀ᶠ fuel in Filter.atTop, ∀ e ∈ (abusPublic code fuel [] bus a msg).log, e.Allowed := by
  obtain ⟨bus', hbus'⟩ := Option.isSome_iff_exists.mp hret
  exact (ends_of_le (abusPublic_le · [] bus a msg) N hbus').forall_log hlog

/-- An accounter subscribes, leaves, subscribes again and publishes. -/
theorem lists_survive_iff_again :
    Survives Empty.elim oneTopic [.subscribe () false ⟨1, 0⟩, .unsubscribe () false,
      .subscribe () false ⟨0, 0⟩, .publish false [7]] := by
  refine (lists_survive_iff oneTopic_reached _ (fun t _ _ _ => by simp [oneTopic]) ?_).mpr
    ⟨by decide, by decide, by decide, trivial⟩
  refine ⟨fun _ _ h => (by cases h), ?_⟩
  rintro _ ⟨⟩
  refine ⟨fun _ _ h => (by cases h), ?_⟩
  rintro _ ⟨⟩
  refine ⟨fun _ _ h => (by cases h), ?_⟩
  rintro bus ⟨⟩
  refine ⟨?_, fun _ _ => trivial⟩
  rintro a msg ⟨⟩
  exact publish_allowed (N := 20) (by decide +kernel) (by decide +kernel)

/-- An accounter that is first on the list of its topic and leads to itself: its publish goes
around for ever. -/
theorem abusPublic_hang {code : κ → T → σ → Callback A σ} {bus : Bus T A κ σ} {t : T} {a : A}
    {msg : List UInt8} {fifo fifo' : Afifo} (htopic : (bus.acc a).topic = some t)
    (hasync : (bus.acc a).flag.async = false) (hown : (bus.acc a).datafifo = none)
    (hcallback : (bus.acc a).callback = none) (hfifo : (bus.topic t).datafifo = some fifo)
    (hin : afifoIn fifo msg (bus.topic t).msgSize = .ret (fifo', (bus.topic t).msgSize))
    (hfirst : bus.links.next (.list false t) = some (.acc a))
    (hself : bus.links.next (.acc a) = some (.acc a)) (fuel : ℕ) :
    (abusPublic code fuel [] bus a msg).res = .hang := by
  have hloop (pub : Publish T A κ σ) (n : ℕ) :
      publicLoop a (publicBody code pub [t] a msg) n (.acc a) (bus.setTopicFifo t (some fifo')) =
        ⟨[], .hang⟩ := by
    induction n with
    | zero => rfl
    | succ n ih =>
      have hbody : publicBody code pub [t] a msg (.acc a) (bus.setTopicFifo t (some fifo')) =
          pure (bus.setTopicFifo t (some fifo')) := by
        simp only [publicBody, copyToSync, callSync, Bus.setTopicFifo, hasync, hown, hcallback,
          Bool.false_eq_true, ↓reduceIte, Call.pure_eq, Traced.liftM_ret_bind]
      simp only [publicLoop, Bus.setTopicFifo, htopic, deref_some, Traced.liftM_ret_bind,
        reduceCtorEq, ↓reduceIte]
      simp only [Bus.setTopicFifo] at hbody ih
      rw [hbody, Traced.pure_def, Traced.mk_ret_bind]
      simp only [hself, deref_some, Traced.liftM_ret_bind, ih, List.append_nil]
  cases fuel with
  | zero => rfl
  | succ n =>
    have hbug : bugOn ((bus.topic t).msgSize !=
        ((bus.setTopicFifo t (some fifo')).topic t).msgSize) = .ret () := by
      simp [bugOn, (setTopicFifo_same bus t (some fifo')).msgSize t]
    have hfirst' : (bus.setTopicFifo t (some fifo')).links.next (.list false t) =
        some (.acc a) := hfirst
    rw [abusPublic, Traced.bind_res]
    simp only [htopic, hfifo, deref_some, Traced.liftM_ret_bind, hin, hbug, hfirst']
    rw [hloop]
    rfl

/-- An accounter subscribes twice: the list of its topic is no ring any more, and a publish does
not return. A publish of an accounter that is not subscribed follows its null topic. -/
theorem subscribe_twice_breaks :
    ¬ Survives Empty.elim oneTopic [.subscribe () false ⟨0, 0⟩, .subscribe () false ⟨0, 0⟩] ∧
    ∃ bus₁ bus₂, abusTopicSubscribe oneTopic () false ⟨0, 0⟩ = .ret bus₁ ∧
      abusTopicSubscribe bus₁ () false ⟨0, 0⟩ = .ret bus₂ ∧ ¬ bus₂.Listed ∧
      (∀ fuel, (abusPublic Empty.elim fuel [] bus₂ false [7]).res = .hang) ∧
      ∀ fuel, (abusPublic Empty.elim (fuel + 1) [] oneTopic false [7]).res = .fault := by
  have hinv := reached_inv oneTopic_reached
  obtain ⟨bus₁, h₁, hinv₁⟩ : ∃ bus', abusTopicSubscribe oneTopic () false ⟨0, 0⟩ = .ret bus' ∧
      bus'.Inv _ [] := subscribe_inv hinv List.mem_cons_self rfl
  have htopic₁ : (bus₁.acc false).topic = some () := by
    cases h₁
    rfl
  have hnot (bus₂ : Bus Unit Bool Empty Unit)
      (h₂ : abusTopicSubscribe bus₁ () false ⟨0, 0⟩ = .ret bus₂) : ¬ bus₂.Listed :=
    subscribe_again_not_listed hinv₁ htopic₁ h₂
  constructor
  · rintro ⟨-, bus, hbus, -, bus₂, h₂, hlisted⟩
    obtain rfl : bus₁ = bus := Call.ret.inj (h₁.symm.trans hbus)
    exact hnot bus₂ h₂ hlisted
  · cases h₁
    refine ⟨_, _, rfl, rfl, hnot _ rfl, fun fuel => ?_, fun fuel => rfl⟩
    exact abusPublic_hang (t := ()) rfl rfl rfl rfl rfl rfl rfl rfl fuel

end Robot
