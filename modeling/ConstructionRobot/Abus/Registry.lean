import ConstructionRobot.Abus.Topic

/-!
# Who is subscribed

The bus keeps its subscriptions in linked rings. What they stand for is a `Registry`: for each
topic the list of its sync and of its async subscribers, the last to subscribe first.

* `Bus.Inv bus reg busy`: the bus stands for `reg`, and only the topics `busy` hold a message.
* `Bus.inv_zero`, `topicInit_inv`, `accInit_inv`, `subscribe_inv`, `unsubscribe_inv`: the
  operations keep it, and do on the registry what their names say.
-/

namespace Robot

/-- The registered topics, and the subscribers of each: `subs false t` on the sync list, `subs
true t` on the async list. -/
structure Registry (T A : Type) where
  topics : List T
  subs : Bool → T → List A

namespace Registry

variable {T A : Type} [DecidableEq T] [DecidableEq A]

/-- Nothing is registered. -/
def empty : Registry T A := ⟨[], fun _ _ => []⟩

/-- One more topic. -/
def addTopic (reg : Registry T A) (t : T) : Registry T A :=
  { reg with topics := reg.topics ++ [t] }

/-- `a` comes first on a list of `t`. -/
def subscribe (reg : Registry T A) (t : T) (a : A) (async : Bool) : Registry T A :=
  { reg with
    subs := fun k u => if k = async ∧ u = t then a :: reg.subs k u else reg.subs k u }

/-- `a` leaves its list. -/
def unsubscribe (reg : Registry T A) (a : A) : Registry T A :=
  { reg with subs := fun k u => (reg.subs k u).erase a }

end Registry

variable {T A κ σ : Type} [DecidableEq T] [DecidableEq A]

/-- A buffer that can hold a message of the topic; it holds none if nobody publishes. -/
structure Topic.Ready (topic : Topic) (fifo : Afifo) (idle : Prop) : Prop where
  datafifo : topic.datafifo = some fifo
  wf : fifo.WF
  size : topic.msgSize.toNat ≤ fifo.size.toNat
  idle : idle → fifo.queue = []

/-- The bus stands for the registry `reg`, and the topics outside `busy` hold no message. -/
structure Bus.Inv (bus : Bus T A κ σ) (reg : Registry T A) (busy : List T) : Prop where
  topics : bus.topics = reg.topics
  ring : ∀ k, ∀ t ∈ reg.topics, Ring bus.links (.list k t) ((reg.subs k t).map .acc)
  mem_subs : ∀ k t a, a ∈ reg.subs k t ↔ (bus.acc a).topic = some t ∧ (bus.acc a).flag.async = k
  mem_topics : ∀ a t, (bus.acc a).topic = some t → t ∈ reg.topics
  ready : ∀ t ∈ reg.topics, ∃ fifo, (bus.topic t).Ready fifo (t ∉ busy)
  own : ∀ a fifo, (bus.acc a).datafifo = some fifo → fifo.WF

omit [DecidableEq T] [DecidableEq A] in
theorem Bus.inv_zero (user : σ) : (Bus.zero T A κ user).Inv Registry.empty [] where
  topics := rfl
  ring _ _ ht := absurd ht List.not_mem_nil
  mem_subs k t a := by simp [Registry.empty, Bus.zero]
  mem_topics a t h := by simp [Bus.zero] at h
  ready _ ht := absurd ht List.not_mem_nil
  own a fifo h := by simp [Bus.zero] at h

variable {bus bus' : Bus T A κ σ} {reg : Registry T A} {busy : List T} {t : T} {a : A}

omit [DecidableEq T] [DecidableEq A] in
theorem subs_nil_of_not_mem (h : bus.Inv reg busy) (ht : t ∉ reg.topics) (k : Bool) :
    reg.subs k t = [] := by
  refine List.eq_nil_iff_forall_not_mem.mpr fun a ha => ht ?_
  exact h.mem_topics a t ((h.mem_subs k t a).mp ha).1

/-- A topic that was not registered is registered, with an empty buffer and empty lists. -/
theorem topicInit_inv {init : TopicInit} (h : bus.Inv reg busy) (ht : t ∉ bus.topics)
    (hbuf : init.buf.length = init.bufSize.toNat)
    (hsize : init.msgSize.toNat ≤ init.bufSize.toNat)
    (hrun : abusTopicInit bus t init true = .ret bus') : bus'.Inv (reg.addTopic t) busy := by
  rw [h.topics] at ht
  obtain ⟨fifo?, hfifo, hrun⟩ := Call.bind_eq_ret.mp hrun
  obtain ⟨-, -, hrun⟩ := Call.bind_eq_ret.mp hrun
  obtain ⟨fifo, rfl⟩ : ∃ fifo, fifo? = some fifo := by
    obtain ⟨-, -, hfifo⟩ := Call.bind_eq_ret.mp hfifo
    exact ⟨_, (Call.ret.inj hfifo).symm⟩
  obtain ⟨hwf, hq, hsz⟩ := afifoInit_ret hbuf hfifo
  cases hrun
  refine ⟨by rw [h.topics]; rfl, ?_, h.mem_subs, ?_, ?_, h.own⟩
  · intro k u hu
    rw [Registry.addTopic, List.mem_append, List.mem_singleton] at hu
    show Ring _ (Head.list k u) ((reg.subs k u).map Head.acc)
    rcases hu with hu | rfl
    · have hne : u ≠ t := fun he => ht (he ▸ hu)
      refine (h.ring k u hu).frame fun n hn => ?_
      have hn' : n ≠ .list false t ∧ n ≠ .list true t := by
        rw [List.mem_cons, List.mem_map] at hn
        rcases hn with rfl | ⟨b, -, rfl⟩
        · exact ⟨by simp [hne], by simp [hne]⟩
        · exact ⟨by simp, by simp⟩
      have h₁ := initListHead_frame (l := bus.links) hn'.1
      have h₂ := initListHead_frame (l := initListHead bus.links (.list false t)) hn'.2
      exact ⟨h₂.1.trans h₁.1, h₂.2.trans h₁.2⟩
    · rw [subs_nil_of_not_mem h ht, List.map_nil]
      cases k with
      | false =>
        refine (ring_init bus.links (.list false u)).frame fun n hn => ?_
        rw [List.mem_singleton] at hn
        exact initListHead_frame (by simp [hn])
      | true => exact ring_init _ _
  · intro b u hu
    exact List.mem_append_left _ (h.mem_topics b u hu)
  · intro u hu
    by_cases hut : u = t
    · subst hut
      refine ⟨fifo, ?_, hwf, ?_, fun _ => hq⟩
      · simp
      · simpa [hsz] using hsize
    · have hu' : u ∈ reg.topics := by simpa [Registry.addTopic, hut] using hu
      simpa [Function.update_of_ne hut] using h.ready u hu'

omit [DecidableEq T] in
/-- An accounter may change, but not its subscription. -/
theorem Bus.Inv.updateAcc (h : bus.Inv reg busy) {x : Accounter T κ}
    (htopic : x.topic = (bus.acc a).topic)
    (hflag : ∀ t, x.topic = some t → x.flag = (bus.acc a).flag)
    (hfifo : ∀ fifo, x.datafifo = some fifo → fifo.WF) :
    Bus.Inv { bus with acc := Function.update bus.acc a x } reg busy := by
  refine ⟨h.topics, h.ring, ?_, ?_, h.ready, ?_⟩
  · intro k t b
    rw [h.mem_subs]
    by_cases hb : b = a
    · simp only [hb, Function.update_self, ← htopic]
      exact and_congr_right fun ht => by rw [hflag t ht]
    · simp [Function.update_of_ne hb]
  · intro b t hb
    by_cases hba : b = a
    · exact h.mem_topics a t (by simpa [hba, htopic] using hb)
    · exact h.mem_topics b t (by simpa [Function.update_of_ne hba] using hb)
  · intro b fifo hb
    by_cases hba : b = a
    · exact hfifo fifo (by simpa [hba] using hb)
    · exact h.own b fifo (by simpa [Function.update_of_ne hba] using hb)

omit [DecidableEq T] in
/-- An accounter gets its buffer and its callback. -/
theorem accInit_inv {init : AccInit κ} (h : bus.Inv reg busy)
    (hfifo : ∀ fifo, init.datafifo = some fifo → fifo.WF)
    (hrun : abusAccInit bus a init = .ret bus') : bus'.Inv reg busy := by
  obtain ⟨-, -, hrun⟩ := Call.bind_eq_ret.mp hrun
  cases hrun
  have hinv : Bus.Inv { bus with acc := Function.update bus.acc a { bus.acc a with
      name := init.name, datafifo := init.datafifo, callback := init.callback } } reg busy :=
    h.updateAcc rfl (fun _ _ => rfl) hfifo
  exact ⟨hinv.topics, hinv.ring, hinv.mem_subs, hinv.mem_topics, hinv.ready, hinv.own⟩

omit [DecidableEq T] in
/-- The owner takes bytes out of its buffer. -/
theorem setAccFifo_inv {fifo : Afifo} (h : bus.Inv reg busy) (hwf : fifo.WF) :
    (bus.setAccFifo a (some fifo)).Inv reg busy := by
  refine h.updateAcc rfl (fun _ _ => rfl) fun f hf => ?_
  obtain rfl : fifo = f := Option.some.inj hf
  exact hwf

omit [DecidableEq T] [DecidableEq A] in
/-- The ring of one list does not go through the head of another, nor through the accounters of
another. -/
theorem not_mem_ring {k k' : Bool} {u : T} (h : bus.Inv reg busy) (hne : ¬(k = k' ∧ t = u))
    {n : Head T A} (hn : n ∈ Head.list k t :: (reg.subs k t).map Head.acc) :
    n ∉ Head.list k' u :: (reg.subs k' u).map Head.acc := by
  rw [List.mem_cons, List.mem_map] at hn ⊢
  rcases hn with rfl | ⟨b, hb, rfl⟩
  · simpa using hne
  · rintro (hb' | ⟨c, hc, hcb⟩)
    · exact absurd hb' (by simp)
    · obtain rfl : c = b := by simpa using hcb
      obtain ⟨h₁, h₂⟩ := (h.mem_subs k t c).mp hb
      obtain ⟨h₃, h₄⟩ := (h.mem_subs k' u c).mp hc
      exact hne ⟨h₂.symm.trans h₄, Option.some.inj (h₁.symm.trans h₃)⟩

omit [DecidableEq T] [DecidableEq A] in
theorem topic_eq_none (h : bus.Inv reg busy) (ha : ∀ k t, a ∉ reg.subs k t) :
    (bus.acc a).topic = none :=
  Option.eq_none_iff_forall_ne_some.mpr fun t ht => ha _ t ((h.mem_subs _ t a).mpr ⟨ht, rfl⟩)

/-- An accounter that is not subscribed comes first on the list it subscribes to. -/
theorem subscribe_inv {flag : AbusSubFlag} (h : bus.Inv reg busy) (ht : t ∈ bus.topics)
    (ha : (bus.acc a).topic = none) :
    ∃ bus', abusTopicSubscribe bus t a flag = .ret bus' ∧
      bus'.Inv (reg.subscribe t a flag.async) busy := by
  rw [h.topics] at ht
  have hnot : ∀ k u, a ∉ reg.subs k u := by
    intro k u hmem
    rw [h.mem_subs, ha] at hmem
    exact absurd hmem.1 (by simp)
  have hfree : ∀ k u, Head.acc a ∉ Head.list k u :: (reg.subs k u).map Head.acc := by
    intro k u
    simpa using hnot k u
  obtain ⟨l', hl', hring, hframe⟩ := ring_add (h.ring flag.async t ht) (hfree flag.async t)
  let bus' : Bus T A κ σ := { bus with
    acc := Function.update bus.acc a { bus.acc a with flag := flag, topic := some t }
    links := l' }
  have hrun : abusTopicSubscribe bus t a flag = .ret bus' := by rw [abusTopicSubscribe, hl']; rfl
  have hacc : ∀ b, b ≠ a → bus'.acc b = bus.acc b := fun b hb => Function.update_of_ne hb _ _
  have hself : bus'.acc a = { bus.acc a with flag := flag, topic := some t } :=
    Function.update_self a _ _
  refine ⟨bus', hrun, h.topics, ?_, ?_, ?_, h.ready, ?_⟩
  · intro k u hu
    by_cases hku : k = flag.async ∧ u = t
    · obtain ⟨rfl, rfl⟩ := hku
      simpa [Registry.subscribe] using hring
    · have hsubs : (reg.subscribe t a flag.async).subs k u = reg.subs k u := if_neg hku
      rw [hsubs]
      refine (h.ring k u hu).frame fun n hn => hframe n ?_
      rw [List.mem_cons, not_or]
      exact ⟨fun he => hfree k u (he ▸ hn), not_mem_ring h hku hn⟩
  · intro k u b
    by_cases hba : b = a
    · subst hba
      rw [hself]
      by_cases hku : k = flag.async ∧ u = t
      · simp [Registry.subscribe, hku]
      · have hku' : t = u → ¬flag.async = k := fun h₁ h₂ => hku ⟨h₂.symm, h₁.symm⟩
        simpa [Registry.subscribe, hku, hnot] using hku'
    · rw [hacc b hba, ← h.mem_subs]
      by_cases hku : k = flag.async ∧ u = t
      · simp [Registry.subscribe, hku, hba]
      · simp [Registry.subscribe, hku]
  · intro b u hb
    by_cases hba : b = a
    · rw [hba, hself] at hb
      exact Option.some.inj hb ▸ ht
    · exact h.mem_topics b u (hacc b hba ▸ hb)
  · intro b fifo hb
    by_cases hba : b = a
    · rw [hba, hself] at hb
      exact h.own a fifo hb
    · exact h.own b fifo (hacc b hba ▸ hb)

theorem subscribe_ret_inv {flag : AbusSubFlag} (h : bus.Inv reg busy) (ht : t ∈ bus.topics)
    (ha : (bus.acc a).topic = none) (hrun : abusTopicSubscribe bus t a flag = .ret bus') :
    bus'.Inv (reg.subscribe t a flag.async) busy := by
  obtain ⟨bus₁, hrun₁, hinv⟩ := subscribe_inv h ht ha
  rwa [Call.ret.inj (hrun.symm.trans hrun₁)]

/-- A subscribed accounter leaves its list. -/
theorem unsubscribe_inv {u : T} (h : bus.Inv reg busy) (ha : (bus.acc a).topic = some t) :
    ∃ bus', abusTopicUnsubscribe bus u a = .ret bus' ∧ bus'.Inv (reg.unsubscribe a) busy := by
  have hmem : a ∈ reg.subs (bus.acc a).flag.async t := (h.mem_subs _ _ _).mpr ⟨ha, rfl⟩
  have ht := h.mem_topics a t ha
  obtain ⟨l', hl', hring, hframe⟩ :=
    ring_del (h.ring _ t ht) (List.mem_map_of_mem (f := Head.acc) hmem)
  have hnodup : ∀ k v, v ∈ reg.topics → (reg.subs k v).Nodup := fun k v hv =>
    List.Nodup.of_map _ (List.nodup_cons.mp (h.ring k v hv).nodup).2
  let bus' : Bus T A κ σ := { bus with
    acc := Function.update bus.acc a { bus.acc a with topic := none }
    links := l' }
  have hrun : abusTopicUnsubscribe bus u a = .ret bus' := by rw [abusTopicUnsubscribe, hl']; rfl
  have hacc : ∀ b, b ≠ a → bus'.acc b = bus.acc b := fun b hb => Function.update_of_ne hb _ _
  have hself : bus'.acc a = { bus.acc a with topic := none } := Function.update_self a _ _
  refine ⟨bus', hrun, h.topics, ?_, ?_, ?_, h.ready, ?_⟩
  · intro k v hv
    show Ring l' (Head.list k v) (((reg.subs k v).erase a).map Head.acc)
    by_cases hkv : k = (bus.acc a).flag.async ∧ v = t
    · obtain ⟨rfl, rfl⟩ := hkv
      rwa [List.map_erase (fun _ _ => Head.acc.inj)]
    · have hav : a ∉ reg.subs k v := by
        intro hav
        obtain ⟨h₁, h₂⟩ := (h.mem_subs k v a).mp hav
        exact hkv ⟨h₂.symm, Option.some.inj (h₁.symm.trans ha)⟩
      rw [List.erase_of_not_mem hav]
      exact (h.ring k v hv).frame fun n hn => hframe n (not_mem_ring h hkv hn)
  · intro k v b
    show b ∈ (reg.subs k v).erase a ↔ _
    by_cases hv : v ∈ reg.topics
    · rw [(hnodup k v hv).mem_erase_iff]
      by_cases hba : b = a
      · simp [hba, hself]
      · simp [hba, hacc, h.mem_subs]
    · rw [subs_nil_of_not_mem h hv]
      by_cases hba : b = a
      · simp [hba, hself]
      · have : (bus.acc b).topic ≠ some v := fun hb => hv (h.mem_topics b v hb)
        simp [hacc b hba, this]
  · intro b v hb
    by_cases hba : b = a
    · rw [hba, hself] at hb
      exact absurd hb (by simp)
    · exact h.mem_topics b v (hacc b hba ▸ hb)
  · intro b fifo hb
    by_cases hba : b = a
    · rw [hba, hself] at hb
      exact h.own a fifo hb
    · exact h.own b fifo (hacc b hba ▸ hb)

end Robot
