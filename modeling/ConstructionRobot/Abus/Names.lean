import ConstructionRobot.Abus.Topic
import ConstructionRobot.Lib.Names

/-!
# The bus by name (`abus_topic.c`)

`abus_topic_subscribe_name`, `abus_topic_unsubscribe_name` and `abus_public_name` look up the topic
and the accounter and call the function without the name. The lookups compare the pointers of the
names, not the texts: the same text in another place is not found, and the functions return -1.

`text` gives the text at an address.

* `abus_names_iff`: when the functions do what the functions without the name do.
-/

namespace Robot

variable {T A κ σ : Type}

/-- `abus_accounter_find`. -/
def abusAccounterFind (bus : Bus T A κ σ) (name : ℕ) : Option A :=
  findName (fun a => (bus.acc a).name) name bus.accs

/-- `abus_topic_find`. -/
def abusTopicFind (bus : Bus T A κ σ) (name : ℕ) : Option T :=
  findName (fun t => (bus.topic t).name) name bus.topics

/-- A function that returns 0. -/
def returnsZero {m : Type → Type} [Monad m] {α : Type} (f : m α) : m (α × ℤ) := do
  let a ← f
  pure (a, 0)

/-- The two lookups and the call of `f`. -/
def abusByName (f : T → A → Call (Bus T A κ σ)) (bus : Bus T A κ σ) (topic acc : ℕ) :
    Call (Bus T A κ σ × ℤ) :=
  match abusAccounterFind bus acc, abusTopicFind bus topic with
  | some a, some t => returnsZero (f t a)
  | _, _ => pure (bus, -1)

section Functions

variable [DecidableEq T] [DecidableEq A]

/-- `abus_topic_subscribe_name`. -/
def abusTopicSubscribeName (bus : Bus T A κ σ) (topic acc : ℕ) (flag : AbusSubFlag) :
    Call (Bus T A κ σ × ℤ) :=
  abusByName (fun t a => abusTopicSubscribe bus t a flag) bus topic acc

/-- `abus_topic_unsubscribe_name`. -/
def abusTopicUnsubscribeName (bus : Bus T A κ σ) (topic acc : ℕ) : Call (Bus T A κ σ × ℤ) :=
  abusByName (abusTopicUnsubscribe bus) bus topic acc

/-- `abus_public_name`, with fuel for `abus_public`. -/
def abusPublicName (code : κ → T → σ → Callback A σ) (fuel : ℕ) (busy : List T)
    (bus : Bus T A κ σ) (acc : ℕ) (msg : List UInt8) :
    Traced (Event T A κ σ) (Bus T A κ σ × ℤ) :=
  match abusAccounterFind bus acc with
  | some a => returnsZero (abusPublic code fuel busy bus a msg)
  | none => pure (bus, -1)

end Functions

/-- No two registered topics have the same name, and no two registered accounters. -/
structure Bus.NamesDistinct (text : ℕ → String) (bus : Bus T A κ σ) : Prop where
  topics : TextsDistinct text (fun t => (bus.topic t).name) bus.topics
  accs : TextsDistinct text (fun a => (bus.acc a).name) bus.accs

/-- The name spells that of no registered topic. -/
def Bus.UnknownTopic (text : ℕ → String) (bus : Bus T A κ σ) (p : ℕ) : Prop :=
  ∀ t ∈ bus.topics, text p ≠ text (bus.topic t).name

/-- The name spells that of no registered accounter. -/
def Bus.UnknownAcc (text : ℕ → String) (bus : Bus T A κ σ) (p : ℕ) : Prop :=
  ∀ a ∈ bus.accs, text p ≠ text (bus.acc a).name

/-! ## Return values -/

theorem failed_ne_zero {α : Type} (c : Call α) (a : α) : .ret (a, -1) ≠ returnsZero c := by
  cases c with
  | ret b =>
    intro h
    cases h
  | hang =>
    intro h
    cases h
  | fault =>
    intro h
    cases h

theorem traced_failed_ne_zero {ε α : Type} (c : Traced ε α) (a : α) :
    (pure (a, -1) : Traced ε (α × ℤ)) ≠ returnsZero c := by
  intro h
  refine failed_ne_zero c.res a ?_
  have hres := congrArg Traced.res h
  rw [returnsZero, Traced.bind_res] at hres
  exact hres

/-! ## Lookups -/

section Names

variable {bus : Bus T A κ σ} {text : ℕ → String}

theorem accounterFind_of_text (h : bus.NamesDistinct text) {a : A} (ha : a ∈ bus.accs) {p : ℕ}
    (hp : text p = text (bus.acc a).name) :
    abusAccounterFind bus p = if p = (bus.acc a).name then some a else none :=
  findName_of_text text h.accs ha hp

theorem topicFind_of_text (h : bus.NamesDistinct text) {t : T} (ht : t ∈ bus.topics) {p : ℕ}
    (hp : text p = text (bus.topic t).name) :
    abusTopicFind bus p = if p = (bus.topic t).name then some t else none :=
  findName_of_text text h.topics ht hp

theorem accounterFind_of_unknown {p : ℕ} (hp : bus.UnknownAcc text p) :
    abusAccounterFind bus p = none :=
  findName_of_unknown text hp

theorem topicFind_of_unknown {p : ℕ} (hp : bus.UnknownTopic text p) :
    abusTopicFind bus p = none :=
  findName_of_unknown text hp

/-- With names of registered objects, the function is called on these objects exactly if the names
are those that the objects keep. -/
theorem abusByName_iff (h : bus.NamesDistinct text) {t : T} {a : A} (ht : t ∈ bus.topics)
    (ha : a ∈ bus.accs) {topic acc : ℕ} (htopic : text topic = text (bus.topic t).name)
    (hacc : text acc = text (bus.acc a).name) (f : T → A → Call (Bus T A κ σ)) :
    abusByName f bus topic acc = returnsZero (f t a) ↔
      topic = (bus.topic t).name ∧ acc = (bus.acc a).name := by
  rw [abusByName, accounterFind_of_text h ha hacc, topicFind_of_text h ht htopic]
  by_cases hacc' : acc = (bus.acc a).name
  · rw [if_pos hacc']
    by_cases htopic' : topic = (bus.topic t).name
    · rw [if_pos htopic']
      exact iff_of_true rfl ⟨htopic', hacc'⟩
    · rw [if_neg htopic']
      exact iff_of_false (failed_ne_zero _ bus) fun hand => htopic' hand.1
  · rw [if_neg hacc']
    exact iff_of_false (failed_ne_zero _ bus) fun hand => hacc' hand.2

/-- With another name nothing is called. -/
theorem abusByName_of_unknown {topic acc : ℕ}
    (h : bus.UnknownTopic text topic ∨ bus.UnknownAcc text acc)
    (f : T → A → Call (Bus T A κ σ)) : abusByName f bus topic acc = .ret (bus, -1) := by
  rw [abusByName]
  rcases h with h | h
  · rw [topicFind_of_unknown h]
    cases abusAccounterFind bus acc <;> rfl
  · rw [accounterFind_of_unknown h]
    rfl

variable [DecidableEq T] [DecidableEq A]

/-- For every bus whose registered names differ as texts, every two names that spell those of a
registered topic `t` and a registered accounter `a`, wherever they are in memory, and all other
arguments: the functions with names do what the functions without them do on `t` and `a`, and return
0, exactly if the names are the addresses that `t` and `a` keep. With a name of no registered object
they return -1 and change nothing. -/
theorem abus_names_iff (h : bus.NamesDistinct text) {t : T} {a : A} (ht : t ∈ bus.topics)
    (ha : a ∈ bus.accs) {topic acc : ℕ} (htopic : text topic = text (bus.topic t).name)
    (hacc : text acc = text (bus.acc a).name) (flag : AbusSubFlag)
    (code : κ → T → σ → Callback A σ) (fuel : ℕ) (busy : List T) (msg : List UInt8) :
    (abusTopicSubscribeName bus topic acc flag =
        returnsZero (abusTopicSubscribe bus t a flag) ↔
      topic = (bus.topic t).name ∧ acc = (bus.acc a).name) ∧
    (abusTopicUnsubscribeName bus topic acc = returnsZero (abusTopicUnsubscribe bus t a) ↔
      topic = (bus.topic t).name ∧ acc = (bus.acc a).name) ∧
    (abusPublicName code fuel busy bus acc msg =
        returnsZero (abusPublic code fuel busy bus a msg) ↔ acc = (bus.acc a).name) ∧
    ∀ topic acc, bus.UnknownTopic text topic ∨ bus.UnknownAcc text acc →
      abusTopicSubscribeName bus topic acc flag = .ret (bus, -1) ∧
      abusTopicUnsubscribeName bus topic acc = .ret (bus, -1) ∧
      (bus.UnknownAcc text acc → abusPublicName code fuel busy bus acc msg = pure (bus, -1)) := by
  refine ⟨abusByName_iff h ht ha htopic hacc _, abusByName_iff h ht ha htopic hacc _, ?_,
    fun topic acc hu => ⟨abusByName_of_unknown hu _, abusByName_of_unknown hu _, fun hu => ?_⟩⟩
  · rw [abusPublicName, accounterFind_of_text h ha hacc]
    by_cases hacc' : acc = (bus.acc a).name
    · rw [if_pos hacc']
      exact iff_of_true rfl hacc'
    · rw [if_neg hacc']
      exact iff_of_false (traced_failed_ne_zero _ bus) hacc'
  · rw [abusPublicName, accounterFind_of_unknown hu]

end Names

/-- Two topics are registered with the names at 1 and 4, and two accounters with those at 2
and 5. -/
def registerFour : Call (Bus Bool Bool Unit Unit) := do
  let bus ← abusTopicInit (Bus.zero Bool Bool Unit ()) false
    { name := 1, buf := [0], bufSize := 1, msgSize := 1 } true
  let bus ← abusTopicInit bus true { name := 4, buf := [0, 0], bufSize := 2, msgSize := 1 } true
  let bus ← abusAccInit bus false { name := 2, datafifo := none, callback := none }
  abusAccInit bus true { name := 5, datafifo := none, callback := none }

/-- The name of the first topic is also at 3. -/
def busText (p : ℕ) : String :=
  if p = 2 then "chassis" else if p = 4 then "imu" else if p = 5 then "log" else "remote"

theorem registerFour_ret : ∃ bus, registerFour = .ret bus ∧ bus.topics = [false, true] ∧
    bus.accs = [false, true] ∧ (∀ t, (bus.topic t).name = if t then 4 else 1) ∧
    ∀ a, (bus.acc a).name = if a then 5 else 2 := by
  rw [registerFour, abusTopicInit_eq (by decide +kernel) (by decide), Call.ret_bind,
    abusTopicInit_eq (by decide +kernel) (by decide), Call.ret_bind, abusAccInit_eq (by decide),
    Call.ret_bind, abusAccInit_eq (by decide)]
  refine ⟨_, rfl, rfl, rfl, fun t => ?_, fun a => ?_⟩
  · cases t <;> rfl
  · cases a <;> rfl

theorem registerFour_distinct {bus : Bus Bool Bool Unit Unit} (hbus : registerFour = .ret bus) :
    bus.NamesDistinct busText := by
  obtain ⟨bus', hbus', -, -, htopic, hacc⟩ := registerFour_ret
  obtain rfl := Call.ret.inj (hbus.symm.trans hbus')
  refine ⟨fun t _ t' _ h => ?_, fun a _ a' _ h => ?_⟩
  · have htext : ∀ t t' : Bool, busText (if t then 4 else 1) = busText (if t' then 4 else 1) →
        t = t' := by
      decide
    simp only [htopic] at h
    exact htext t t' h
  · have htext : ∀ a a' : Bool, busText (if a then 5 else 2) = busText (if a' then 5 else 2) →
        a = a' := by
      decide
    simp only [hacc] at h
    exact htext a a' h

/-- The second topic and the second accounter, by the names that they keep. -/
theorem abus_names_iff_registerFour : ∃ bus, registerFour = .ret bus ∧
    abusTopicSubscribeName bus 4 5 ⟨0, 0⟩ =
      returnsZero (abusTopicSubscribe bus true true ⟨0, 0⟩) ∧
    abusTopicUnsubscribeName bus 4 5 = returnsZero (abusTopicUnsubscribe bus true true) ∧
    abusPublicName (fun _ _ u => .done u) 0 [] bus 5 [7] =
      returnsZero (abusPublic (fun _ _ u => .done u) 0 [] bus true [7]) := by
  obtain ⟨bus, hbus, htopics, haccs, htopic, hacc⟩ := registerFour_ret
  have hname : 4 = (bus.topic true).name := (htopic true).symm
  have hname' : 5 = (bus.acc true).name := (hacc true).symm
  have h := abus_names_iff (registerFour_distinct hbus)
    (by rw [htopics]; decide) (by rw [haccs]; decide) (congrArg busText hname)
    (congrArg busText hname') ⟨0, 0⟩ (fun _ _ u => .done u) 0 [] [7]
  exact ⟨bus, hbus, h.1.mpr ⟨hname, hname'⟩, h.2.1.mpr ⟨hname, hname'⟩, h.2.2.1.mpr hname'⟩

/-- The name of the topic in another place: nothing is subscribed. -/
theorem abus_subscribe_copy : ∃ bus, registerFour = .ret bus ∧ bus.NamesDistinct busText ∧
    busText 3 = busText (bus.topic false).name ∧
    abusTopicSubscribeName bus 3 2 ⟨0, 0⟩ = .ret (bus, -1) ∧
    abusTopicSubscribeName bus 3 2 ⟨0, 0⟩ ≠
      returnsZero (abusTopicSubscribe bus false false ⟨0, 0⟩) := by
  obtain ⟨bus, hbus, htopics, -, htopic, -⟩ := registerFour_ret
  have htext : busText 3 = busText (bus.topic false).name := by
    rw [htopic]
    rfl
  have hfind : abusTopicFind bus 3 = none := by
    have hmem : false ∈ bus.topics := by
      rw [htopics]
      exact List.mem_cons_self
    rw [topicFind_of_text (registerFour_distinct hbus) hmem htext, htopic]
    rfl
  have hname : abusTopicSubscribeName bus 3 2 ⟨0, 0⟩ = .ret (bus, -1) := by
    rw [abusTopicSubscribeName, abusByName, hfind]
    cases abusAccounterFind bus 2 <;> rfl
  refine ⟨bus, hbus, registerFour_distinct hbus, htext, hname, ?_⟩
  rw [hname]
  exact failed_ne_zero _ bus

end Robot
