import ConstructionRobot.Abus.Registry
import Mathlib.Data.Fintype.Basic

/-!
# Delivery

A publish reaches every sync subscriber of the topic, in the order of the list, also if the
callbacks publish themselves.

* `Event.Allowed`: what callers owe to a call of `abus_public`: the accounter is subscribed, its
  topic is not being published, and there is room for the message.
* `Delivered`: what happened up to some point of a publish. `Effect` adds that the publishes in
  callbacks deliver too; it composes (`Effect.append`).
* `Published`: what a whole publish should do.
-/

namespace Robot

variable {T A κ σ : Type} [DecidableEq T] [DecidableEq A]

/-- The buffer of a subscriber of `t`, if there is one, has room for a message. -/
def Bus.Room (bus : Bus T A κ σ) (t : T) (a : A) : Prop :=
  ∀ fifo ∈ (bus.acc a).datafifo,
    fifo.queue.length + (bus.topic t).msgSize.toNat ≤ fifo.size.toNat

/-- A call of `abus_public` is one its callers may make. -/
def Event.Allowed : Event T A κ σ → Prop
  | .enter busy bus a msg => ∃ t ∈ (bus.acc a).topic, t ∉ busy ∧
      (bus.topic t).msgSize.toNat ≤ msg.length ∧
      ∀ b, (bus.acc b).topic = some t → (bus.acc b).flag.async = false → bus.Room t b
  | _ => True

instance (bus : Bus T A κ σ) (t : T) (a : A) : Decidable (bus.Room t a) :=
  inferInstanceAs (Decidable (∀ fifo ∈ (bus.acc a).datafifo,
    fifo.queue.length + (bus.topic t).msgSize.toNat ≤ fifo.size.toNat))

instance [Fintype A] : DecidablePred (Event.Allowed : Event T A κ σ → Prop)
  | .enter busy bus a msg => inferInstanceAs (Decidable (∃ t ∈ (bus.acc a).topic, t ∉ busy ∧
      (bus.topic t).msgSize.toNat ≤ msg.length ∧
      ∀ b, (bus.acc b).topic = some t → (bus.acc b).flag.async = false → bus.Room t b))
  | .call .. => inferInstanceAs (Decidable True)
  | .read .. => inferInstanceAs (Decidable True)

/-! ## The log -/

/-- The accounters whose callback was called with `t`, in order. -/
def calls (t : T) (log : List (Event T A κ σ)) : List A :=
  log.filterMap fun e =>
    match e with
    | .call u a => if u = t then some a else none
    | _ => none

/-- Every read of `t` gave the first bytes of `m`, as many as it asked for. -/
def Reads (t : T) (m : List UInt8) (log : List (Event T A κ σ)) : Prop :=
  ∀ len bytes, Event.read t len bytes ∈ log → bytes = m.take len.toNat

/-- Nothing happened on `t`. -/
def Quiet (t : T) (log : List (Event T A κ σ)) : Prop :=
  (∀ a, Event.call t a ∉ log) ∧ ∀ len bytes, Event.read t len bytes ∉ log

section Log

omit [DecidableEq A]

variable {t : T} {m : List UInt8} {l l' : List (Event T A κ σ)}

theorem calls_append : calls t (l ++ l') = calls t l ++ calls t l' := List.filterMap_append ..

omit [DecidableEq T] in
theorem Reads.append (h : Reads t m l) (h' : Reads t m l') : Reads t m (l ++ l') := by
  intro len bytes hmem
  rcases List.mem_append.mp hmem with hmem | hmem
  · exact h len bytes hmem
  · exact h' len bytes hmem

omit [DecidableEq T] in
theorem Quiet.append (h : Quiet t l) (h' : Quiet t l') : Quiet t (l ++ l') := by
  refine ⟨fun a hmem => ?_, fun len bytes hmem => ?_⟩
  · exact (List.mem_append.mp hmem).elim (h.1 a) (h'.1 a)
  · exact (List.mem_append.mp hmem).elim (h.2 len bytes) (h'.2 len bytes)

theorem Quiet.calls (h : Quiet t l) : calls t l = [] := by
  refine List.filterMap_eq_nil_iff.mpr fun e he => ?_
  cases e with
  | call u a =>
    have : u ≠ t := fun hu => h.1 a (hu ▸ he)
    simp [this]
  | enter => rfl
  | read => rfl

omit [DecidableEq T] in
theorem Quiet.reads (h : Quiet t l) : Reads t m l :=
  fun len bytes hmem => absurd hmem (h.2 len bytes)

end Log

/-! ## What a publish does -/

/-- Only buffers changed, and the memory of the modules. -/
structure Bus.Same (bus bus' : Bus T A κ σ) : Prop where
  links : bus'.links = bus.links
  topics : bus'.topics = bus.topics
  accs : bus'.accs = bus.accs
  topic : ∀ t, bus'.topic t = { bus.topic t with datafifo := (bus'.topic t).datafifo }
  acc : ∀ a, bus'.acc a = { bus.acc a with datafifo := (bus'.acc a).datafifo }

/-- The buffer of the topic holds `m`. -/
def Bus.Holds (bus : Bus T A κ σ) (t : T) (m : List UInt8) : Prop :=
  ∃ fifo, (bus.topic t).datafifo = some fifo ∧ fifo.WF ∧ fifo.queue = m

/-- Some part of a publish on `t`, with the message `m`: the subscribers `ys` got the message in
their buffers and the callbacks of `cs` were called. The topics `keep` and their other
subscribers have the buffers they had, and nothing happened on the topics `busy`. -/
structure Delivered (reg : Registry T A) (keep busy : List T) (t : T) (m : List UInt8)
    (ys cs : List A) (bus : Bus T A κ σ) (log : List (Event T A κ σ)) (bus' : Bus T A κ σ) :
    Prop where
  inv : bus'.Inv reg keep
  same : bus.Same bus'
  topic : ∀ u ∈ keep, bus'.topic u = bus.topic u
  acc : ∀ a ∉ ys, (∀ u, (bus.acc a).topic = some u → u ∈ keep ∨ (bus.acc a).flag.async = true) →
    bus'.acc a = bus.acc a
  appended : ∀ a ∈ ys,
    (bus'.acc a).datafifo.map Afifo.queue = (bus.acc a).datafifo.map (·.queue ++ m)
  quiet : ∀ u ∈ busy, Quiet u log
  calls : calls t log = cs
  reads : Reads t m log

/-- What a publish of `a` does. -/
def Published (reg : Registry T A) (busy : List T) (a : A) (msg : List UInt8)
    (bus : Bus T A κ σ) (log : List (Event T A κ σ)) (bus' : Bus T A κ σ) : Prop :=
  ∃ t, (bus.acc a).topic = some t ∧ t ∉ busy ∧
    Delivered reg busy busy t (msg.take (bus.topic t).msgSize.toNat) (reg.subs false t)
      ((reg.subs false t).filter fun c => (bus.acc c).callback.isSome) bus log bus'

/-- Every publish in the log was one: the log goes on with what it did. -/
def AllPublished (reg : Registry T A) (log : List (Event T A κ σ)) : Prop :=
  ∀ l busy bus a msg l', log = l ++ Event.enter busy bus a msg :: l' →
    ∃ l₁ l₂ bus', l' = l₁ ++ l₂ ∧
      Published reg busy a msg bus (.enter busy bus a msg :: l₁) bus'

/-- `Delivered`, and so is every publish in the log. -/
structure Effect (reg : Registry T A) (keep busy : List T) (t : T) (m : List UInt8)
    (ys cs : List A) (bus : Bus T A κ σ) (log : List (Event T A κ σ)) (bus' : Bus T A κ σ) : Prop
    extends Delivered reg keep busy t m ys cs bus log bus' where
  nested : AllPublished reg log

section AllPublished

omit [DecidableEq A]

variable {reg : Registry T A} {l l' : List (Event T A κ σ)}

theorem AllPublished.append (h : AllPublished reg l) (h' : AllPublished reg l') :
    AllPublished reg (l ++ l') := by
  intro l₁ busy bus a msg l₂ heq
  rcases List.append_eq_append_iff.mp heq with ⟨l₃, rfl, hl'⟩ | ⟨l₃, rfl, hl₂⟩
  · exact h' l₃ busy bus a msg l₂ hl'
  · cases l₃ with
    | nil =>
      rw [List.nil_append] at hl₂
      exact h' [] busy bus a msg l₂ hl₂.symm
    | cons e l₃ =>
      obtain ⟨rfl, rfl⟩ := List.cons.inj hl₂
      obtain ⟨l₄, l₅, bus', rfl, hp⟩ := h l₁ busy bus a msg l₃ rfl
      exact ⟨l₄, l₅ ++ l', bus', List.append_assoc .., hp⟩

theorem AllPublished.cons {busy : List T} {bus bus' : Bus T A κ σ} {a : A} {msg : List UInt8}
    (h : AllPublished reg l)
    (hp : Published reg busy a msg bus (.enter busy bus a msg :: l) bus') :
    AllPublished reg (.enter busy bus a msg :: l) := by
  intro l₁ busy₁ bus₁ b msg₁ l₂ heq
  cases l₁ with
  | nil =>
    simp only [List.nil_append, List.cons.injEq, Event.enter.injEq] at heq
    obtain ⟨⟨rfl, rfl, rfl, rfl⟩, rfl⟩ := heq
    exact ⟨l, [], bus', (List.append_nil l).symm, hp⟩
  | cons e l₁ =>
    obtain ⟨-, hl⟩ := List.cons.inj heq
    exact h l₁ busy₁ bus₁ b msg₁ l₂ hl

theorem allPublished_of_no_enter (h : ∀ busy bus a msg, Event.enter busy bus a msg ∉ l) :
    AllPublished reg l := by
  intro l₁ busy bus a msg l₂ heq
  exact absurd (by rw [heq]; simp) (h busy bus a msg)

end AllPublished

section Same

omit [DecidableEq T] [DecidableEq A]

variable {bus bus₁ bus₂ : Bus T A κ σ}

theorem Bus.Same.refl (bus : Bus T A κ σ) : bus.Same bus :=
  ⟨rfl, rfl, rfl, fun _ => rfl, fun _ => rfl⟩

theorem Bus.Same.trans (h₁ : bus.Same bus₁) (h₂ : bus₁.Same bus₂) : bus.Same bus₂ where
  links := h₂.links.trans h₁.links
  topics := h₂.topics.trans h₁.topics
  accs := h₂.accs.trans h₁.accs
  topic t := by rw [h₂.topic t, h₁.topic t]
  acc a := by rw [h₂.acc a, h₁.acc a]

theorem Bus.Same.acc_topic (h : bus.Same bus₁) (a : A) :
    (bus₁.acc a).topic = (bus.acc a).topic := by rw [h.acc a]

theorem Bus.Same.acc_flag (h : bus.Same bus₁) (a : A) :
    (bus₁.acc a).flag = (bus.acc a).flag := by rw [h.acc a]

theorem Bus.Same.acc_callback (h : bus.Same bus₁) (a : A) :
    (bus₁.acc a).callback = (bus.acc a).callback := by rw [h.acc a]

theorem Bus.Same.msgSize (h : bus.Same bus₁) (t : T) :
    (bus₁.topic t).msgSize = (bus.topic t).msgSize := by rw [h.topic t]

end Same

section Effect

omit [DecidableEq A]

variable {reg : Registry T A} {keep busy : List T} {t : T} {m : List UInt8}
  {ys ys' cs cs' : List A} {bus bus₁ bus₂ : Bus T A κ σ} {l l' : List (Event T A κ σ)}

/-- One part after the other. No subscriber gets the message twice. -/
theorem Effect.append (h₁ : Effect reg keep busy t m ys cs bus l bus₁)
    (h₂ : Effect reg keep busy t m ys' cs' bus₁ l' bus₂) (ht : t ∈ keep)
    (hys : ∀ a ∈ ys ++ ys', (bus.acc a).topic = some t) (hd : ys.Disjoint ys') :
    Effect reg keep busy t m (ys ++ ys') (cs ++ cs') bus (l ++ l') bus₂ where
  inv := h₂.inv
  same := h₁.same.trans h₂.same
  topic u hu := (h₂.topic u hu).trans (h₁.topic u hu)
  acc a ha hstay := by
    rw [List.mem_append, not_or] at ha
    rw [h₂.acc a ha.2 (by rwa [h₁.same.acc_topic, h₁.same.acc_flag]), h₁.acc a ha.1 hstay]
  appended a ha := by
    have hstay : ∀ u, (bus.acc a).topic = some u → u ∈ keep ∨ (bus.acc a).flag.async = true := by
      intro u hu
      obtain rfl : t = u := Option.some.inj ((hys a ha).symm.trans hu)
      exact .inl ht
    rcases List.mem_append.mp ha with ha | ha
    · rw [h₂.acc a (hd ha) (by rwa [h₁.same.acc_topic, h₁.same.acc_flag]), h₁.appended a ha]
    · rw [h₂.appended a ha, h₁.acc a (fun ha' => hd ha' ha) hstay]
  quiet u hu := (h₁.quiet u hu).append (h₂.quiet u hu)
  calls := by rw [calls_append, h₁.calls, h₂.calls]
  reads := h₁.reads.append h₂.reads
  nested := h₁.nested.append h₂.nested

/-- A part in which no subscriber gets anything. -/
theorem Effect.append_nil (h₁ : Effect reg keep busy t m [] cs bus l bus₁)
    (h₂ : Effect reg keep busy t m [] cs' bus₁ l' bus₂) (ht : t ∈ keep) :
    Effect reg keep busy t m [] (cs ++ cs') bus (l ++ l') bus₂ :=
  h₁.append h₂ ht (by simp) (by simp)

/-- A callback stores its variables. -/
theorem Effect.setUser (h : bus.Inv reg keep) (user : σ) :
    Effect reg keep busy t m [] [] bus [] { bus with user := user } where
  inv := ⟨h.topics, h.ring, h.mem_subs, h.mem_topics, h.ready, h.own⟩
  same := ⟨rfl, rfl, rfl, fun _ => rfl, fun _ => rfl⟩
  topic _ _ := rfl
  acc _ _ _ := rfl
  appended a ha := absurd ha List.not_mem_nil
  quiet u _ := ⟨by simp, by simp⟩
  calls := rfl
  reads := by simp [Reads]
  nested := allPublished_of_no_enter (by simp)

/-- A call or a read changes nothing. -/
theorem Effect.event {e : Event T A κ σ} (h : bus.Inv reg keep)
    (he : ∀ busy bus a msg, .enter busy bus a msg ≠ e) (hq : ∀ u ∈ busy, Quiet u [e])
    (hc : Robot.calls t [e] = cs) (hr : Reads t m [e]) :
    Effect reg keep busy t m [] cs bus [e] bus where
  inv := h
  same := .refl bus
  topic _ _ := rfl
  acc _ _ _ := rfl
  appended _ ha := absurd ha List.not_mem_nil
  quiet := hq
  calls := hc
  reads := hr
  nested := allPublished_of_no_enter fun busy bus a msg hmem =>
    he busy bus a msg (List.mem_singleton.mp hmem)

omit [DecidableEq T] in
theorem Bus.Holds.congr (h : bus.Holds t m) (ht : bus₁.topic t = bus.topic t) :
    bus₁.Holds t m := by
  obtain ⟨fifo, hf⟩ := h
  exact ⟨fifo, by rwa [ht]⟩

end Effect

end Robot
