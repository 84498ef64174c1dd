import ConstructionRobot.Abus.Delivery

/-!
# `abus_public` delivers

The parts of `abus_public`, from the inside out, and the whole function.

* `runCallback_settles`, `callSync_settles`, `copyToSync_spec`, `publicBody_settles`: one
  subscriber.
* `Pending`, `publicLoop_rule`: the loop, by induction on the subscribers before it.
* `abusPublic_rule`: the function, from what one round of its loop keeps.
* `abusPublic_settles`: it delivers, by induction on the topics that are not being published.
-/

namespace Robot

open Traced

variable {T A κ σ : Type} [DecidableEq T] [DecidableEq A]

/-! ## The parts of a publish -/

section Publish

variable {reg : Registry T A} {busy : List T} {t : T} {m msg : List UInt8} {a b : A}
  {bus bus' : Bus T A κ σ} {code : κ → T → σ → Callback A σ} {pub : ℕ → Publish T A κ σ}

/-- What the callbacks of `t` need from the publishes they make: these return, and leave `t`
and its subscribers alone. -/
def Nested (reg : Registry T A) (busy : List T) (t : T) (m : List UInt8)
    (pub : ℕ → Publish T A κ σ) : Prop :=
  ∀ bus a msg, bus.Inv reg (t :: busy) →
    Settles Event.Allowed (fun n => pub n (t :: busy) bus a msg)
      (Effect reg (t :: busy) busy t m [] [] bus)

omit [DecidableEq T] [DecidableEq A] in
/-- A read in a callback gives the message, as much of it as was asked for. -/
theorem runCallback_outData {buffer : List UInt8} {len : UInt32} (hlen : len.toNat ≤ buffer.length)
    (k : List UInt8 → UInt32 → Callback A σ) (hm : bus.Holds t m) :
    ∃ n : UInt32, n.toNat = min len.toNat m.length ∧
      ∀ (pub : Publish T A κ σ) (busy : List T),
        runCallback pub busy t (.outData buffer len hlen k) bus =
          emit (.read t len (m.take len.toNat)) >>= fun _ =>
            runCallback pub busy t (k (m.take n.toNat ++ buffer.drop n.toNat) n) bus := by
  obtain ⟨fifo, hfifo, hwf, hq⟩ := hm
  obtain ⟨n, hout, hn⟩ := afifoOutData_spec hwf hlen
  rw [hq] at hout hn
  have hbytes : (m.take n.toNat ++ buffer.drop n.toNat).take n.toNat = m.take len.toNat := by
    rw [List.take_append_of_le_length (by rw [List.length_take]; omega), List.take_take,
      Nat.min_self, hn, List.take_eq_take_iff]
    omega
  refine ⟨n, hn, fun pub busy => ?_⟩
  simp only [runCallback, hfifo, deref_some, liftM_ret_bind, hout, hbytes]

omit [DecidableEq A] in
/-- A callback returns, and reads nothing but the message. -/
theorem runCallback_settles (hpub : Nested reg busy t m pub) (ht : t ∉ busy) (c : Callback A σ)
    (hinv : bus.Inv reg (t :: busy)) (hm : bus.Holds t m) :
    Settles Event.Allowed (fun n => runCallback (pub n) (t :: busy) t c bus)
      (Effect reg (t :: busy) busy t m [] [] bus) := by
  induction c generalizing bus with
  | done user => exact settles_pure (Effect.setUser hinv user)
  | outData buffer len hlen k ih =>
    obtain ⟨n, -, hread⟩ := runCallback_outData hlen k hm
    simp only [hread]
    have heffect : Effect reg (t :: busy) busy t m [] [] bus
        [.read t len (m.take len.toNat)] bus := by
      refine .event hinv (by simp) (fun u hu => ⟨by simp, ?_⟩) rfl ?_
      · intro len' bytes hmem
        simp only [List.mem_singleton, Event.read.injEq] at hmem
        exact ht (hmem.1 ▸ hu)
      · intro len' bytes hmem
        simp only [List.mem_singleton, Event.read.injEq, true_and] at hmem
        rw [hmem.1, hmem.2]
    refine settles_bind (settles_emit (Q := fun l _ => l = [.read t len (m.take len.toNat)])
      fun _ => rfl) ?_
    rintro l - rfl
    exact settles_mono (ih _ n hinv hm)
      fun l' bus' hd => heffect.append_nil hd List.mem_cons_self
  | publish user b msg k ih =>
    have huser : Effect reg (t :: busy) busy t m [] [] bus [] { bus with user := user } :=
      .setUser hinv user
    refine settles_bind (hpub _ b msg huser.inv) fun l bus₁ h₁ => ?_
    have h₁' := huser.append_nil h₁ List.mem_cons_self
    have hm₁ : bus₁.Holds t m := hm.congr (h₁'.topic t List.mem_cons_self)
    exact settles_mono (ih bus₁.user h₁.inv hm₁)
      fun l' bus₂ h₂ => h₁'.append_nil h₂ List.mem_cons_self

omit [DecidableEq A] in
/-- The callback of a subscriber is called once, if there is one. -/
theorem callSync_settles (hpub : Nested reg busy t m pub) (ht : t ∉ busy)
    (ha : (bus.acc a).topic = some t) (hinv : bus.Inv reg (t :: busy)) (hm : bus.Holds t m) :
    Settles Event.Allowed (fun n => callSync code (pub n) (t :: busy) a b bus)
      (Effect reg (t :: busy) busy t m [] ([b].filter fun c => (bus.acc c).callback.isSome)
        bus) := by
  cases hcb : (bus.acc b).callback with
  | none =>
    simp only [callSync, hcb, List.filter_cons, Option.isSome_none, Bool.false_eq_true,
      ↓reduceIte, List.filter_nil]
    exact settles_pure (Effect.setUser hinv bus.user)
  | some f =>
    simp only [callSync, hcb, ha, deref_some, liftM_ret_bind, List.filter_cons,
      Option.isSome_some, ↓reduceIte, List.filter_nil]
    have hcall : Effect reg (t :: busy) busy t m [] [b] bus [.call t b] bus := by
      refine .event hinv (by simp) (fun u hu => ⟨?_, by simp⟩) (by simp [calls]) (by simp [Reads])
      intro c hmem
      simp only [List.mem_singleton, Event.call.injEq] at hmem
      exact ht (hmem.1 ▸ hu)
    refine settles_bind (settles_emit (Q := fun l _ => l = [.call t b]) fun _ => rfl) ?_
    rintro l - rfl
    exact settles_mono (runCallback_settles hpub ht _ hinv hm)
      fun l' bus' hd => hcall.append_nil hd List.mem_cons_self

/-- The message is copied to the buffer of a subscriber, if there is one. -/
theorem copyToSync_spec (ha : (bus.acc a).topic = some t) (hb : (bus.acc b).topic = some t)
    (hinv : bus.Inv reg (t :: busy)) (hroom : bus.Room t b)
    (hmsg : (bus.topic t).msgSize.toNat ≤ msg.length)
    (hm : m = msg.take (bus.topic t).msgSize.toNat) :
    ∃ bus', copyToSync a msg b bus = .ret bus' ∧
      Effect reg (t :: busy) busy t m [b] [] bus [] bus' := by
  unfold copyToSync
  cases hf : (bus.acc b).datafifo with
  | none =>
    have hd : Effect reg (t :: busy) busy t m [] [] bus [] bus := .setUser hinv bus.user
    exact ⟨bus, rfl, { hd with
      acc := fun _ _ _ => rfl
      appended := fun c hc => by
        rw [List.mem_singleton.mp hc, hf]
        rfl }⟩
  | some fifo =>
    obtain ⟨fifo', n, hin, hwf', -, hn, hq⟩ := afifoIn_spec (hinv.own b fifo hf) hmsg
    have hroom' := hroom fifo hf
    have hn' : n = (bus.topic t).msgSize := UInt32.toNat_inj.mp (by omega)
    refine ⟨bus.setAccFifo b (some fifo'), ?_, ?_⟩
    · simp [ha, hb, hin, hn', Bus.setAccFifo, bugOn]
    · exact {
        inv := setAccFifo_inv hinv hwf'
        same := ⟨rfl, rfl, rfl, fun _ => rfl, fun c => by
          by_cases hc : c = b
          · simp [Bus.setAccFifo, hc]
          · simp [Bus.setAccFifo, Function.update_of_ne hc]⟩
        topic := fun _ _ => rfl
        acc := fun c hc _ => Function.update_of_ne (fun he => hc (by simp [he])) _ _
        appended := fun c hc => by
          rw [List.mem_singleton.mp hc, hf]
          simp [Bus.setAccFifo, hq, hn', hm]
        quiet := fun u _ => ⟨by simp, by simp⟩
        calls := rfl
        reads := by simp [Reads]
        nested := allPublished_of_no_enter (by simp) }

/-- The loop of a publish of `a` on `t` has the subscribers `rest` before it. -/
structure Pending (reg : Registry T A) (busy : List T) (t : T) (a : A) (msg m : List UInt8)
    (rest : List A) (bus : Bus T A κ σ) : Prop where
  inv : bus.Inv reg (t :: busy)
  holds : bus.Holds t m
  topic : (bus.acc a).topic = some t
  subs : ∀ b ∈ rest, b ∈ reg.subs false t
  nodup : rest.Nodup
  room : ∀ b ∈ rest, bus.Room t b
  size : (bus.topic t).msgSize.toNat ≤ msg.length
  msg : m = msg.take (bus.topic t).msgSize.toNat

variable {rest : List A}

omit [DecidableEq T] [DecidableEq A] in
theorem Pending.mem_rest (h : Pending reg busy t a msg m rest bus) (hb : b ∈ rest) :
    (bus.acc b).topic = some t ∧ (bus.acc b).flag.async = false :=
  (h.inv.mem_subs false t b).mp (h.subs b hb)

omit [DecidableEq A] in
/-- After the first subscriber the others come. -/
theorem Pending.step {cs : List A} {l : List (Event T A κ σ)}
    (h : Pending reg busy t a msg m (b :: rest) bus)
    (hd : Effect reg (t :: busy) busy t m [b] cs bus l bus') :
    Pending reg busy t a msg m rest bus' where
  inv := hd.inv
  holds := h.holds.congr (hd.topic t List.mem_cons_self)
  topic := by rw [hd.same.acc_topic, h.topic]
  subs c hc := h.subs c (List.mem_cons_of_mem _ hc)
  nodup := (List.nodup_cons.mp h.nodup).2
  room c hc := by
    have hcb : c ∉ [b] := fun he => (List.nodup_cons.mp h.nodup).1 (List.mem_singleton.mp he ▸ hc)
    have hacc : bus'.acc c = bus.acc c := by
      refine hd.acc c hcb fun u hu => .inl ?_
      obtain rfl : t = u :=
        Option.some.inj ((h.mem_rest (List.mem_cons_of_mem _ hc)).1.symm.trans hu)
      exact List.mem_cons_self
    intro fifo hfifo
    rw [hd.same.msgSize]
    exact h.room c (List.mem_cons_of_mem _ hc) fifo (hacc ▸ hfifo)
  size := by rw [hd.same.msgSize]; exact h.size
  msg := by rw [hd.same.msgSize]; exact h.msg

/-- One round of the loop. -/
theorem publicBody_settles (hpub : Nested reg busy t m pub) (ht : t ∉ busy)
    (h : Pending reg busy t a msg m (b :: rest) bus) :
    Settles Event.Allowed (fun n => publicBody code (pub n) (t :: busy) a msg (.acc b) bus)
      (Effect reg (t :: busy) busy t m [b]
        ([b].filter fun c => (bus.acc c).callback.isSome) bus) := by
  obtain ⟨hb, hasync⟩ := h.mem_rest List.mem_cons_self
  obtain ⟨bus₁, hcopy, h₁⟩ := copyToSync_spec h.topic hb h.inv (h.room b List.mem_cons_self) h.size
    h.msg
  simp only [publicBody, hasync, Bool.false_eq_true, ↓reduceIte, hcopy, liftM_ret_bind]
  have hp := h.step h₁
  refine settles_mono (callSync_settles hpub ht hp.topic hp.inv hp.holds) fun l bus₂ h₂ => ?_
  have hcb : [b].filter (fun c => (bus₁.acc c).callback.isSome) =
      [b].filter fun c => (bus.acc c).callback.isSome := by simp only [h₁.same.acc_callback]
  rw [hcb] at h₂
  exact h₁.append h₂ List.mem_cons_self (by simpa using hb) (by simp)

/-- The rule for the loop. `I rest l` holds of the bus when the subscribers `rest` are left and
the loop has written `l`. The induction is on `rest`; the ring leads from `pos` through them to
the head of the list. -/
theorem publicLoop_rule {P : Event T A κ σ → Prop} {l : List (Event T A κ σ)}
    {body : ℕ → Head T A → Bus T A κ σ → Traced (Event T A κ σ) (Bus T A κ σ)}
    {I : List A → List (Event T A κ σ) → Bus T A κ σ → Prop} {links : Links (Head T A)}
    (hstay : ∀ rest l bus, I rest l bus → (bus.acc a).topic = some t ∧ bus.links = links)
    (hbody : ∀ b rest l bus, I (b :: rest) l bus →
      Settles P (fun n => body n (.acc b) bus) fun l' bus' => I rest (l ++ l') bus')
    {pos : Head T A} {vs : List (Head T A)} {φ : ℕ → ℕ} (h : I rest l bus)
    (hpos : rest.map Head.acc ++ [.list false t] = pos :: vs)
    (hring : (pos :: vs).IsChain links.Link) (hφ : ∀ᶠ n in Filter.atTop, rest.length < φ n) :
    Settles P (fun n => publicLoop a (body n) (φ n) pos bus) fun l' => I [] (l ++ l') := by
  have hsucc : ∀ᶠ n in Filter.atTop, φ n = φ n - 1 + 1 := hφ.mono fun n hn => by omega
  induction rest generalizing l bus pos vs φ with
  | nil =>
    obtain ⟨rfl, rfl⟩ : Head.list false t = pos ∧ [] = vs := by simpa using hpos
    refine settles_congr (f := fun _ => pure bus) (hsucc.mono fun n hn => ?_)
      (settles_pure (by rwa [List.append_nil]))
    rw [hn, publicLoop, (hstay _ _ _ h).1]
    simp
  | cons b rest ih =>
    obtain ⟨rfl, rfl⟩ : Head.acc b = pos ∧ rest.map Head.acc ++ [.list false t] = vs := by
      simpa using hpos
    obtain ⟨pos', vs', hpos'⟩ : ∃ pos' vs', rest.map Head.acc ++ [.list false t] = pos' :: vs' :=
      List.exists_cons_of_ne_nil (by simp)
    rw [hpos', List.isChain_cons_cons] at hring
    have hround : ∀ᶠ n in Filter.atTop,
        publicLoop a (body n) (φ n) (.acc b) bus = (body n (.acc b) bus >>= fun bus₁ => do
          let pos ← deref (bus₁.links.next (.acc b))
          publicLoop a (body n) (φ n - 1) pos bus₁) := by
      refine hsucc.mono fun n hn => ?_
      rw [hn, publicLoop, (hstay _ _ _ h).1]
      simp
    refine settles_congr hround (settles_bind (hbody b rest l bus h) fun l' bus₁ h₁ => ?_)
    have hnext : bus₁.links.next (.acc b) = some pos' := by rw [(hstay _ _ _ h₁).2]; exact hring.1.1
    simp only [hnext, deref_some, liftM_ret_bind]
    have hφ' : ∀ᶠ n in Filter.atTop, rest.length < φ n - 1 := by
      refine hφ.mono fun n hn => ?_
      rw [List.length_cons] at hn
      omega
    refine settles_mono (ih h₁ hpos' hring.2 hφ' (hφ'.mono fun n hn => by omega))
      fun l₂ bus₂ h₂ => ?_
    rwa [← List.append_assoc]

end Publish

/-! ## The whole function -/

section Whole

variable {reg : Registry T A} {busy : List T} {t : T} {m msg : List UInt8} {a : A}
  {bus bus₁ bus₂ : Bus T A κ σ} {code : κ → T → σ → Callback A σ}

omit [DecidableEq A]

theorem setTopicFifo_same (bus : Bus T A κ σ) (t : T) (fifo : Option Afifo) :
    bus.Same (bus.setTopicFifo t fifo) := by
  refine ⟨rfl, rfl, rfl, fun u => ?_, fun _ => rfl⟩
  by_cases hu : u = t
  · simp [Bus.setTopicFifo, hu]
  · simp [Bus.setTopicFifo, Function.update_of_ne hu]

/-- A new buffer for `t`; `t` may become busy or idle by it. -/
theorem setTopicFifo_inv {keep : List T} {fifo : Afifo} (h : bus.Inv reg busy) (hwf : fifo.WF)
    (hsize : (bus.topic t).msgSize.toNat ≤ fifo.size.toNat) (hidle : t ∉ keep → fifo.queue = [])
    (hkeep : ∀ u ≠ t, u ∉ keep → u ∉ busy) :
    (bus.setTopicFifo t (some fifo)).Inv reg keep := by
  refine ⟨h.topics, h.ring, h.mem_subs, h.mem_topics, fun u hu => ?_, h.own⟩
  by_cases hut : u = t
  · subst hut
    exact ⟨fifo, by simp [Bus.setTopicFifo], hwf, by simpa [Bus.setTopicFifo] using hsize, hidle⟩
  · obtain ⟨f, hf⟩ := h.ready u hu
    have htopic : (bus.setTopicFifo t (some fifo)).topic u = bus.topic u :=
      Function.update_of_ne hut _ _
    rw [htopic]
    exact ⟨f, hf.datafifo, hf.wf, hf.size, fun hk => hf.idle (hkeep u hut hk)⟩

/-- A publish on another topic, seen from the publish on `t` it is nested in. -/
theorem Delivered.nested {u : T} {m' : List UInt8} {cs : List A} {l : List (Event T A κ σ)}
    (h : Delivered reg (t :: busy) (t :: busy) u m' (reg.subs false u) cs bus l bus₁)
    (hinv : bus.Inv reg (t :: busy)) (hu : u ∉ t :: busy) :
    Delivered reg (t :: busy) busy t m [] [] bus l bus₁ where
  inv := h.inv
  same := h.same
  topic := h.topic
  acc b _ hstay := by
    refine h.acc b (fun hb => ?_) hstay
    obtain ⟨htopic, hasync⟩ := (hinv.mem_subs false u b).mp hb
    rcases hstay u htopic with hu' | hb'
    · exact hu hu'
    · exact absurd (hasync.symm.trans hb') Bool.false_ne_true
  appended _ hb := absurd hb List.not_mem_nil
  quiet v hv := h.quiet v (List.mem_cons_of_mem _ hv)
  calls := (h.quiet t List.mem_cons_self).calls
  reads := (h.quiet t List.mem_cons_self).reads

/-- A publish on `t` is what its loop did, between the copy of the message to the buffer of `t`
and its removal. -/
theorem Delivered.whole {fifo fifo' : Option Afifo} {ys cs : List A}
    {l : List (Event T A κ σ)} (ht : t ∉ busy)
    (h : Delivered reg (t :: busy) busy t m ys cs (bus.setTopicFifo t fifo) l bus₁)
    (hinv : (bus₁.setTopicFifo t fifo').Inv reg busy) :
    Delivered reg busy busy t m ys cs bus (.enter busy bus a msg :: l)
      (bus₁.setTopicFifo t fifo') where
  inv := hinv
  same := ((setTopicFifo_same bus t fifo).trans h.same).trans (setTopicFifo_same bus₁ t fifo')
  topic u hu := by
    have hut : u ≠ t := fun he => ht (he ▸ hu)
    have h₁ := h.topic u (List.mem_cons_of_mem _ hu)
    simpa [Bus.setTopicFifo, Function.update_of_ne hut] using h₁
  acc b hb hstay := h.acc b hb fun u hu => (hstay u hu).imp_left (List.mem_cons_of_mem _)
  appended := h.appended
  quiet u hu := by
    refine Quiet.append (l := [.enter busy bus a msg]) ⟨by simp, by simp⟩ (h.quiet u hu)
  calls := h.calls
  reads := Reads.append (l := [.enter busy bus a msg]) (by simp [Reads]) h.reads

/-- Fewer topics are left to publish on. -/
theorem length_free_lt (ht : t ∈ reg.topics) (hbusy : t ∉ busy) :
    (reg.topics.filter (· ∉ t :: busy)).length < (reg.topics.filter (· ∉ busy)).length := by
  have hfilter : reg.topics.filter (· ∉ t :: busy) =
      (reg.topics.filter (· ∉ busy)).filter (· ≠ t) := by
    rw [List.filter_filter]
    refine List.filter_congr fun u _ => ?_
    simp [not_or]
  rw [hfilter, List.length_filter_lt_length_iff_exists]
  exact ⟨t, List.mem_filter.mpr ⟨ht, by simpa using hbusy⟩, by simp⟩

end Whole

omit [DecidableEq A] in
/-- The message fits in the buffer of an idle topic, and the loop has all subscribers before
it. -/
theorem Pending.start {reg : Registry T A} {busy : List T} {bus : Bus T A κ σ} {t : T} {a : A}
    {msg : List UInt8} (hinv : bus.Inv reg busy) (htopic : (bus.acc a).topic = some t)
    (hbusy : t ∉ busy) (hlen : (bus.topic t).msgSize.toNat ≤ msg.length)
    (hroom : ∀ b, (bus.acc b).topic = some t → (bus.acc b).flag.async = false → bus.Room t b) :
    ∃ fifo fifo', (bus.topic t).datafifo = some fifo ∧
      afifoIn fifo msg (bus.topic t).msgSize = .ret (fifo', (bus.topic t).msgSize) ∧
      fifo'.WF ∧ fifo'.queue = msg.take (bus.topic t).msgSize.toNat ∧
      (bus.topic t).msgSize.toNat ≤ fifo'.size.toNat ∧
      Pending reg busy t a msg (msg.take (bus.topic t).msgSize.toNat) (reg.subs false t)
        (bus.setTopicFifo t (some fifo')) := by
  have ht := hinv.mem_topics a t htopic
  obtain ⟨fifo, hfifo⟩ := hinv.ready t ht
  obtain ⟨fifo', n, hin, hwf, hsize, hn, hq⟩ := afifoIn_spec hfifo.wf hlen
  have hfit := hfifo.size
  rw [hfifo.idle hbusy, List.length_nil] at hn
  obtain rfl : n = (bus.topic t).msgSize := UInt32.toNat_inj.mp (by omega)
  rw [hfifo.idle hbusy, List.nil_append] at hq
  have hsame := (setTopicFifo_same bus t (some fifo')).msgSize t
  refine ⟨fifo, fifo', hfifo.datafifo, hin, hwf, hq, by rw [hsize]; exact hfit, ?_⟩
  exact {
    inv := setTopicFifo_inv hinv hwf (by rw [hsize]; exact hfit)
      (fun h => absurd List.mem_cons_self h) fun u _ hu hub => hu (List.mem_cons_of_mem _ hub)
    holds := ⟨fifo', by simp [Bus.setTopicFifo], hwf, hq⟩
    topic := htopic
    subs := fun b hb => hb
    nodup := List.Nodup.of_map _ (List.nodup_cons.mp (hinv.ring false t ht).nodup).2
    room := fun b hb f hf => by
      obtain ⟨hb₁, hb₂⟩ := (hinv.mem_subs false t b).mp hb
      rw [hsame]
      exact hroom b hb₁ hb₂ f hf
    size := by rw [hsame]; exact hlen
    msg := by rw [hsame] }

/-- The rule for `abus_public`. `I rest l` holds of the bus when the loop has the subscribers `rest`
before it and has written `l`. -/
theorem abusPublic_rule {P : Event T A κ σ → Prop} {reg : Registry T A} {busy : List T}
    {bus : Bus T A κ σ} {t : T} {a : A} {msg m : List UInt8} {code : κ → T → σ → Callback A σ}
    {I : List A → List (Event T A κ σ) → Bus T A κ σ → Prop} (hinv : bus.Inv reg busy)
    (htopic : (bus.acc a).topic = some t) (hbusy : t ∉ busy)
    (hlen : (bus.topic t).msgSize.toNat ≤ msg.length)
    (hroom : ∀ b, (bus.acc b).topic = some t → (bus.acc b).flag.async = false → bus.Room t b)
    (hm : m = msg.take (bus.topic t).msgSize.toNat)
    (hstart : ∀ bus₁, Pending reg busy t a msg m (reg.subs false t) bus₁ →
      (∃ fifo, bus₁ = bus.setTopicFifo t (some fifo)) → I (reg.subs false t) [] bus₁)
    (hbody : ∀ b rest l bus₁, Pending reg busy t a msg m (b :: rest) bus₁ → I (b :: rest) l bus₁ →
      Settles P (fun n => publicBody code (abusPublic code n) (t :: busy) a msg (.acc b) bus₁)
        fun l' bus₂ => Pending reg busy t a msg m rest bus₂ ∧ bus₁.Same bus₂ ∧
          bus₂.topic t = bus₁.topic t ∧ I rest (l ++ l') bus₂) :
    Settles P (fun n => abusPublic code n busy bus a msg) fun l bus' =>
      ∃ l₁ bus₁ fifo, l = .enter busy bus a msg :: l₁ ∧ I [] l₁ bus₁ ∧
        bus' = bus₁.setTopicFifo t (some fifo) ∧ bus'.Inv reg busy := by
  refine settles_succ (fun n => rfl) (settles_bind (settles_emit
    (Q := fun l _ => l = [.enter busy bus a msg]) fun _ => rfl) ?_)
  rintro l - rfl
  have ht := hinv.mem_topics a t htopic
  obtain ⟨fifo, fifo', hfifo, hin, hwf, hq, hsize, hp⟩ :=
    Pending.start hinv htopic hbusy hlen hroom
  obtain ⟨pos, vs, hpos, hnext, hchain⟩ := (hp.inv.ring false t ht).next_head
  have hmsg := (setTopicFifo_same bus t (some fifo')).msgSize t
  have hbug : bugOn ((bus.topic t).msgSize != ((bus.setTopicFifo t (some fifo')).topic t).msgSize) =
      .ret () := by simp [bugOn, hmsg]
  simp only [htopic, hfifo, deref_some, liftM_ret_bind, hin, hbug, hnext]
  -- the loop keeps all but buffers, and the buffer of `t`
  let J : List A → List (Event T A κ σ) → Bus T A κ σ → Prop := fun rest l bus₁ =>
    Pending reg busy t a msg m rest bus₁ ∧ (bus.setTopicFifo t (some fifo')).Same bus₁ ∧
      bus₁.topic t = (bus.setTopicFifo t (some fifo')).topic t ∧ I rest l bus₁
  rw [← hm] at hp
  have hJ : J (reg.subs false t) [] (bus.setTopicFifo t (some fifo')) :=
    ⟨hp, .refl _, rfl, hstart _ hp ⟨fifo', rfl⟩⟩
  have hstay : ∀ rest l bus₁, J rest l bus₁ → (bus₁.acc a).topic = some t ∧
      bus₁.links = (bus.setTopicFifo t (some fifo')).links := by
    rintro rest l bus₁ ⟨hp₁, hsame, -, -⟩
    exact ⟨hp₁.topic, hsame.links⟩
  refine settles_bind (publicLoop_rule hstay ?_ hJ hpos hchain (Filter.eventually_gt_atTop _)) ?_
  · rintro b rest l bus₁ ⟨hp₁, hsame, htop, hi⟩
    refine settles_mono (hbody b rest l bus₁ hp₁ hi) ?_
    rintro l' bus₂ ⟨hp₂, hsame₂, htop₂, hi₂⟩
    exact ⟨hp₂, hsame.trans hsame₂, htop₂.trans htop, hi₂⟩
  rintro l bus₂ ⟨hp₂, -, htop, hi⟩
  have htopic₂ : bus₂.topic t = { bus.topic t with datafifo := some fifo' } := by
    rw [htop]
    simp [Bus.setTopicFifo]
  simp only [hp₂.topic, htopic₂, deref_some, liftM_ret_bind]
  -- the message is the whole queue, so nothing is left
  obtain ⟨hwf₃, hsize₃, hn₃, hq₃⟩ := afifoAddOut_spec hwf (bus.topic t).msgSize
  have hempty : (afifoAddOut fifo' (bus.topic t).msgSize).1.queue = [] := by
    rw [hq₃, hn₃, hq, List.drop_eq_nil_iff, List.length_take]
    omega
  refine settles_pure ⟨l, bus₂, _, by rw [List.append_nil]; rfl, hi, rfl, ?_⟩
  refine setTopicFifo_inv hp₂.inv hwf₃ ?_ (fun _ => hempty) fun u hut hu hub => ?_
  · rw [htopic₂, hsize₃]
    exact hsize
  · rcases List.mem_cons.mp hub with rfl | hub
    · exact hut rfl
    · exact hu hub

/-- `abus_public` delivers its message if the publishes in callbacks do. -/
theorem abusPublic_step {reg : Registry T A} {busy : List T} {bus : Bus T A κ σ} {a : A}
    {msg : List UInt8} {code : κ → T → σ → Callback A σ} (hinv : bus.Inv reg busy)
    (hnested : ∀ t ∈ reg.topics, t ∉ busy → ∀ m, Nested reg busy t m (abusPublic code)) :
    Settles Event.Allowed (fun n => abusPublic code n busy bus a msg)
      fun log bus' => Published reg busy a msg bus log bus' ∧ AllPublished reg log := by
  intro hP
  -- the first event is the call itself
  obtain ⟨t, htopic, hbusy, hlen, hroom⟩ : (Event.enter busy bus a msg).Allowed := by
    obtain ⟨n, hn, hpos⟩ := (hP.and (Filter.eventually_gt_atTop 0)).exists
    obtain ⟨n, rfl⟩ : ∃ k, n = k + 1 := ⟨n - 1, by omega⟩
    exact hn _ (mem_bind_log List.mem_cons_self)
  rw [Option.mem_def] at htopic
  have ht := hinv.mem_topics a t htopic
  let m := msg.take (bus.topic t).msgSize.toNat
  -- the subscribers `ys` had their turn
  let I : List A → List (Event T A κ σ) → Bus T A κ σ → Prop := fun rest l bus₁ =>
    ∃ ys fifo, ys ++ rest = reg.subs false t ∧ Effect reg (t :: busy) busy t m ys
      (ys.filter fun c => (bus.acc c).callback.isSome) (bus.setTopicFifo t fifo) l bus₁
  refine settles_mono (abusPublic_rule (I := I) hinv htopic hbusy hlen hroom rfl ?_ ?_) ?_ hP
  · rintro bus₁ hp ⟨fifo, rfl⟩
    exact ⟨[], some fifo, rfl, .setUser hp.inv _⟩
  · rintro b rest l bus₁ hp ⟨ys, fifo, hys, h₁⟩
    refine settles_mono (publicBody_settles (hnested t ht hbusy m) hbusy hp) fun l' bus₂ h₂ =>
      ⟨hp.step h₂, h₂.same, h₂.topic t List.mem_cons_self, ys ++ [b], fifo, by simp [← hys], ?_⟩
    have hcb : ∀ c, (bus₁.acc c).callback = (bus.acc c).callback := h₁.same.acc_callback
    simp only [hcb] at h₂
    rw [List.filter_append]
    have hnodup : (ys ++ b :: rest).Nodup := by
      rw [hys]
      exact List.Nodup.of_map _ (List.nodup_cons.mp (hinv.ring false t ht).nodup).2
    refine h₁.append h₂ List.mem_cons_self (fun c hc => ?_) ?_
    · have hc' : c ∈ reg.subs false t := by
        rw [← hys, List.append_cons]
        exact List.mem_append_left _ hc
      exact ((hinv.mem_subs false t c).mp hc').1
    · rw [List.disjoint_singleton]
      exact fun hb => List.disjoint_of_nodup_append hnodup hb List.mem_cons_self
  · rintro log bus' ⟨l, bus₂, fifo, rfl, ⟨ys, fifo', hys, h₂⟩, rfl, hinv₃⟩
    rw [List.append_nil] at hys
    subst hys
    have hpub : Published reg busy a msg bus (.enter busy bus a msg :: l)
        (bus₂.setTopicFifo t (some fifo)) :=
      ⟨t, htopic, hbusy, h₂.toDelivered.whole hbusy hinv₃⟩
    exact ⟨hpub, h₂.nested.cons hpub⟩

/-- `abus_public` returns and delivers its message, also if the callbacks publish on topics that
are not being published. The induction is on the number of those topics. -/
theorem abusPublic_settles {reg : Registry T A} {code : κ → T → σ → Callback A σ}
    {busy : List T} {bus : Bus T A κ σ} {a : A} {msg : List UInt8} (hinv : bus.Inv reg busy) :
    Settles Event.Allowed (fun n => abusPublic code n busy bus a msg)
      fun log bus' => Published reg busy a msg bus log bus' ∧ AllPublished reg log := by
  induction hk : (reg.topics.filter (· ∉ busy)).length using Nat.strong_induction_on
    generalizing busy bus a msg with
  | _ k ih =>
    refine abusPublic_step hinv fun t ht hbusy m bus₁ b msg₁ hinv₁ => ?_
    have hlt := length_free_lt ht hbusy
    refine settles_mono (ih _ (hk ▸ hlt) hinv₁ rfl) ?_
    rintro l bus₂ ⟨⟨u, -, hu, hd⟩, hall⟩
    exact { hd.nested hinv₁ hu with nested := hall }

end Robot
