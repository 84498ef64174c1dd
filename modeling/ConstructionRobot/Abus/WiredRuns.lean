import ConstructionRobot.Abus.Wiring

/-!
# Runs of the connected bus

What the modules do after `abus_all_init`, whatever is published on the four topics.

* `hear`: what a message does to the memory of the modules, and which messages they publish on the
  way.
* `abusPublic_wired`: a publish returns and does just that. The manager publishes a command in the
  callback of the line error, so there is a publish in a publish.
* `FollowsTopics`: in every state of a run the modules are where the last messages of their topics
  put them.
* `topics_followed_iff`: when this is so.
-/

namespace Robot

/-! ## What a message does -/

/-- The messages that were published, with the accounters that published them. -/
def sent (log : List (Event TopicId AccId CallbackId Modules)) : List (AccId × List UInt8) :=
  log.filterMap fun e =>
    match e with
    | .enter _ _ a msg => some (a, msg)
    | _ => none

theorem sent_append (l l' : List (Event TopicId AccId CallbackId Modules)) :
    sent (l ++ l') = sent l ++ sent l' := List.filterMap_append ..

/-- What the message `m` does to the modules through the accounter `b`. -/
def hearAcc (ops : FloatOps FloatBytes) (m : List UInt8) (s : Modules) : AccId → Modules
  | .rbmgError =>
    if s.rbmgMode = .line then
      let ctrl := lineCtrl ops (floatAt m 0)
      { s with
        lineError := floatAt m 0, chassisDir := 0, ctrl := ctrl
        chassisMai := s.chassisMai.command ctrl }
    else s
  | .rbmgSpecialPoint => if s.rbmgMode ≠ .cab then { s with rbmgMode := .action } else s
  | .chassis => { s with chassisMai := s.chassisMai.command (ctrlOf m) }
  | _ => s

/-- What is published on the way. -/
def sentAcc (ops : FloatOps FloatBytes) (m : List UInt8) (s : Modules) :
    AccId → List (AccId × List UInt8)
  | .rbmgError =>
    if s.rbmgMode = .line then [(.rbmgChassis, (lineCtrl ops (floatAt m 0)).bytes)] else []
  | _ => []

/-- The accounters hear the message one after the other. -/
def hear (ops : FloatOps FloatBytes) (m : List UInt8) :
    List AccId → Modules → Modules × List (AccId × List UInt8)
  | [], s => (s, [])
  | b :: bs, s =>
    let r := hear ops m bs (hearAcc ops m s b)
    (r.1, sentAcc ops m s b ++ r.2)

/-- What a part of a publish leaves: the bus is connected, the topics `busy` have the buffers they
had, the modules are in the state `s`, and the messages `out` were published. -/
structure Heard (busy : List TopicId) (bus : WiredBus) (s : Modules)
    (out : List (AccId × List UInt8)) (log : List (Event TopicId AccId CallbackId Modules))
    (bus' : WiredBus) : Prop where
  wired : bus'.Wired busy
  same : bus.Same bus'
  topic : ∀ t ∈ busy, bus'.topic t = bus.topic t
  user : bus'.user = s
  sent : sent log = out

section Publish

open Traced

variable {P : Event TopicId AccId CallbackId Modules → Prop} {ops : FloatOps FloatBytes}
  {busy : List TopicId} {t : TopicId} {a b : AccId} {m msg : List UInt8} {bus bus' : WiredBus}
  {s : Modules} {out : List (AccId × List UInt8)}

theorem mem_wiredSubs : b ∈ wiredPlan.reg.subs false t ↔ topicOf b = t := by
  cases b <;> cases t <;> decide

theorem Bus.Connects.topicOf (h : bus.Wired busy) (a : AccId) :
    (bus.acc a).topic = some (topicOf a) ∧ (bus.acc a).flag.async = false :=
  (h.inv.mem_subs false _ a).mp (mem_wiredSubs.mpr rfl)

/-- Other buffers of topics change nothing about the connections. -/
theorem Bus.Connects.of_same {busy' : List TopicId} (h : bus.Wired busy') (hs : bus.Same bus')
    (hinv : bus'.Inv wiredPlan.reg busy) (hfifo : ∀ a, (bus'.acc a).datafifo = none) :
    bus'.Wired busy where
  inv := hinv
  accs := hs.accs.trans h.accs
  callback a := (hs.acc_callback a).trans (h.callback a)
  datafifo := hfifo
  msgSize t := (hs.msgSize t).trans (h.msgSize t)

/-- A callback returns. -/
theorem heard_done (h : bus.Wired busy) (s : Modules) :
    Heard busy bus s [] [] { bus with user := s } where
  wired := ⟨⟨h.inv.topics, h.inv.ring, h.inv.mem_subs, h.inv.mem_topics, h.inv.ready, h.inv.own⟩,
    h.accs, h.callback, h.datafifo, h.msgSize⟩
  same := ⟨rfl, rfl, rfl, fun _ => rfl, fun _ => rfl⟩
  topic _ _ := rfl
  user := rfl
  sent := rfl

/-- A call of a callback or a read comes first. -/
theorem settles_event {e : Event TopicId AccId CallbackId Modules}
    {f : ℕ → Traced (Event TopicId AccId CallbackId Modules) WiredBus} (he : sent [e] = [])
    (hf : Settles P f (Heard busy bus s out)) :
    Settles P (fun n => emit e >>= fun _ => f n) (Heard busy bus s out) := by
  refine settles_bind (settles_emit (Q := fun l _ => l = [e]) fun _ => rfl) ?_
  rintro l - rfl
  refine settles_mono hf fun l' bus' h => { h with sent := ?_ }
  rw [sent_append, he, List.nil_append, h.sent]

/-- A callback reads the whole message. -/
theorem settles_read {buffer : List UInt8} {len : UInt32} {hlen : len.toNat ≤ buffer.length}
    {k : List UInt8 → UInt32 → Callback AccId Modules}
    {pub : ℕ → Publish TopicId AccId CallbackId Modules} (hm : bus.Holds t m)
    (hbuf : buffer.length = len.toNat) (hmsg : m.length = len.toNat)
    (hk : Settles P (fun n => runCallback (pub n) busy t (k m len) bus) (Heard busy bus s out)) :
    Settles P (fun n => runCallback (pub n) busy t (.outData buffer len hlen k) bus)
      (Heard busy bus s out) := by
  obtain ⟨n, hn, hread⟩ := runCallback_outData hlen k hm
  obtain rfl : n = len := UInt32.toNat_inj.mp (by rw [hn, hmsg, Nat.min_self])
  simp only [hread, List.take_of_length_le hmsg.le, List.drop_of_length_le hbuf.le,
    List.append_nil]
  exact settles_event rfl hk

/-- The turn of one accounter: there is no buffer to copy the message to. -/
theorem publicBody_wired (pub : Publish TopicId AccId CallbackId Modules)
    (h : bus.Wired (t :: busy)) (ha : topicOf a = t) :
    publicBody (wiredCode ops) pub (t :: busy) a msg (.acc b) bus =
      match wiredCallback b with
      | none => pure bus
      | some f => emit (.call t b) >>= fun _ =>
          runCallback pub (t :: busy) t (wiredCode ops f t bus.user) bus := by
  have hcb : (bus.acc b).callback = wiredCallback b := h.callback b
  simp only [publicBody, (h.topicOf b).2, Bool.false_eq_true, ↓reduceIte, copyToSync,
    h.datafifo, callSync, hcb, (h.topicOf a).1, ha, deref_some, Call.pure_eq, liftM_ret_bind]
  cases wiredCallback b <;> rfl

/-- The publish that `rbmg_error_callback` makes does what it should. -/
def CommandHeard (P : Event TopicId AccId CallbackId Modules → Prop) (ops : FloatOps FloatBytes)
    (busy : List TopicId) : Prop :=
  ∀ (bus : WiredBus) (msg : List UInt8), bus.Wired busy → msg.length = 16 →
    Settles P (fun n => abusPublic (wiredCode ops) n busy bus .rbmgChassis msg)
      (Heard busy bus { bus.user with chassisMai := bus.user.chassisMai.command (ctrlOf msg) }
        [(.rbmgChassis, msg)])

/-- Every accounter hears the message in its turn. -/
theorem visit_settles (h : bus.Wired (t :: busy)) (ha : topicOf a = t) (hb : topicOf b = t)
    (hm : bus.Holds t m) (hlen : m.length = (wiredSize t).toNat)
    (hnest : t = .lineError → CommandHeard P ops (t :: busy)) :
    Settles P (fun n => publicBody (wiredCode ops) (abusPublic (wiredCode ops) n) (t :: busy) a msg
      (.acc b) bus) (Heard (t :: busy) bus (hearAcc ops m bus.user b)
        (sentAcc ops m bus.user b)) := by
  have hdone := fun s => settles_pure (P := P) (heard_done h s)
  simp only [publicBody_wired _ h ha]
  cases b with
  | lineError => exact hdone bus.user
  | lineDir => exact hdone bus.user
  | lineSpacialPoint => exact hdone bus.user
  | chassis =>
    subst hb
    refine settles_event rfl (settles_read hm rfl hlen ?_)
    rw [if_neg (by decide)]
    exact hdone _
  | rbmgError =>
    subst hb
    refine settles_event rfl ?_
    by_cases hmode : bus.user.rbmgMode = .line
    · simp only [wiredCode, hearAcc, sentAcc, if_pos hmode]
      refine settles_read hm rfl hlen ?_
      let ctrl := lineCtrl ops (floatAt m 0)
      let s₁ : Modules :=
        { bus.user with lineError := floatAt m 0, chassisDir := 0, ctrl := ctrl }
      have h₁ := heard_done h s₁
      refine settles_bind (hnest rfl { bus with user := s₁ } ctrl.bytes h₁.wired rfl)
        fun l bus₂ h₂ => settles_pure ?_
      rw [List.append_nil]
      exact ⟨h₂.wired, h₁.same.trans h₂.same, h₂.topic, h₂.user, h₂.sent⟩
    · simp only [wiredCode, hearAcc, sentAcc, if_neg hmode]
      exact hdone bus.user
  | rbmgDir => exact settles_event rfl (hdone bus.user)
  | rbmgSpecialPoint => exact settles_event rfl (hdone _)
  | rbmgChassis => exact settles_event rfl (hdone bus.user)

/-- A publish reaches the accounters of its topic in turn. -/
theorem abusPublic_hear (h : bus.Wired busy) (ha : topicOf a = t) (hbusy : t ∉ busy)
    (hlen : (wiredSize t).toNat ≤ msg.length)
    (hnest : t = .lineError → CommandHeard P ops (t :: busy)) :
    Settles P (fun n => abusPublic (wiredCode ops) n busy bus a msg)
      (Heard busy bus (hear ops (msg.take (wiredSize t).toNat) (wiredSubs t) bus.user).1
        ((a, msg) :: (hear ops (msg.take (wiredSize t).toNat) (wiredSubs t) bus.user).2)) := by
  have hsize : (bus.topic t).msgSize = wiredSize t := h.msgSize t
  rw [← hsize] at hlen ⊢
  generalize hm : msg.take (bus.topic t).msgSize.toNat = m
  have hmlen : m.length = (wiredSize t).toNat := by
    rw [← hm, List.length_take, ← hsize]
    omega
  -- what was heard, and what is still to be heard
  let I : List AccId → List (Event TopicId AccId CallbackId Modules) → WiredBus → Prop :=
    fun rest l bus₁ => bus₁.Wired (t :: busy) ∧ bus.Same bus₁ ∧
      (∀ u ∈ busy, bus₁.topic u = bus.topic u) ∧
      (hear ops m rest bus₁.user).1 = (hear ops m (wiredSubs t) bus.user).1 ∧
      sent l ++ (hear ops m rest bus₁.user).2 = (hear ops m (wiredSubs t) bus.user).2
  have hroom : ∀ b, (bus.acc b).topic = some t → (bus.acc b).flag.async = false →
      bus.Room t b := by
    intro b _ _ fifo hfifo
    rw [h.datafifo b] at hfifo
    cases hfifo
  refine settles_mono (abusPublic_rule (I := I) h.inv (by rw [(h.topicOf a).1, ha]) hbusy hlen
    hroom hm.symm ?_ ?_) ?_
  · rintro bus₁ hp ⟨fifo, rfl⟩
    have hsame := setTopicFifo_same bus t (some fifo)
    refine ⟨h.of_same hsame hp.inv h.datafifo, hsame, fun u hu => ?_, rfl, rfl⟩
    exact Function.update_of_ne (fun he : u = t => hbusy (he ▸ hu)) _ _
  · rintro b rest l bus₁ hp ⟨hw, hsame, htopic, huser, hsent⟩
    have hb : topicOf b = t := mem_wiredSubs.mp (hp.subs b List.mem_cons_self)
    refine settles_mono (visit_settles hw ha hb hp.holds hmlen hnest) fun l' bus₂ h₂ => ?_
    have htop := h₂.topic t List.mem_cons_self
    refine ⟨?_, h₂.same, htop, h₂.wired, hsame.trans h₂.same, fun u hu => ?_, ?_, ?_⟩
    · exact {
        inv := h₂.wired.inv
        holds := hp.holds.congr htop
        topic := by rw [(h₂.wired.topicOf a).1, ha]
        subs := fun c hc => hp.subs c (List.mem_cons_of_mem _ hc)
        nodup := (List.nodup_cons.mp hp.nodup).2
        room := fun c _ fifo hfifo => by
          rw [h₂.wired.datafifo c] at hfifo
          cases hfifo
        size := by rw [htop]; exact hp.size
        msg := by rw [htop]; exact hp.msg }
    · rw [h₂.topic u (List.mem_cons_of_mem _ hu), htopic u hu]
    · rw [h₂.user]
      exact huser
    · rw [sent_append, h₂.sent, h₂.user, List.append_assoc]
      exact hsent
  · rintro log bus' ⟨l, bus₁, fifo, rfl, ⟨hw, hsame, htopic, huser, hsent⟩, rfl, hinv⟩
    have hset := setTopicFifo_same bus₁ t (some fifo)
    refine ⟨hw.of_same hset hinv hw.datafifo, hsame.trans hset, fun u hu => ?_, huser, ?_⟩
    · rw [← htopic u hu]
      exact Function.update_of_ne (fun he : u = t => hbusy (he ▸ hu)) _ _
    · rw [← hsent, hear, List.append_nil]
      rfl

/-- The command of `rbmg_error_callback` is carried out. -/
theorem commandHeard (hbusy : .chassisCtrl ∉ busy) : CommandHeard P ops busy := by
  intro bus msg h hlen
  have htake : msg.take (wiredSize (topicOf .rbmgChassis)).toNat = msg :=
    List.take_of_length_le hlen.le
  have hpub : Settles P (fun n => abusPublic (wiredCode ops) n busy bus .rbmgChassis msg) _ :=
    abusPublic_hear h rfl hbusy hlen.ge fun ht => absurd ht (by decide)
  rwa [htake] at hpub

/-- What a publish does when no topic is being published. -/
theorem abusPublic_wired (ops : FloatOps FloatBytes) (h : bus.Wired [])
    (hlen : (wiredSize (topicOf a)).toNat ≤ msg.length) :
    ∃ log bus', Ends (fun n => abusPublic (wiredCode ops) n [] bus a msg) log bus' ∧
      Heard [] bus (hear ops (msg.take (wiredSize (topicOf a)).toNat) (wiredSubs (topicOf a))
        bus.user).1 ((a, msg) :: (hear ops (msg.take (wiredSize (topicOf a)).toNat)
          (wiredSubs (topicOf a)) bus.user).2) log bus' :=
  abusPublic_hear (P := fun _ => True) h rfl List.not_mem_nil hlen
    (fun ht => commandHeard (by simp [ht])) (Filter.Eventually.of_forall fun _ _ _ => trivial)

end Publish

/-! ## Runs -/

/-- What can happen next: an accounter publishes a message of its topic, or the other threads store
the mode, the command of the manager and the state of the chassis. -/
inductive WireEv where
  | publish (a : AccId) (msg : List UInt8) (h : (wiredSize (topicOf a)).toNat ≤ msg.length)
  | others (mode : Mode) (ctrl : ChassisCtrl FloatBytes) (chassis : ChassisMai)

/-- A run, with the log of each event and the bus after it. -/
inductive WireRun (ops : FloatOps FloatBytes) : WiredBus → List WireEv →
    List (List (Event TopicId AccId CallbackId Modules) × WiredBus) → Prop where
  | nil (bus : WiredBus) : WireRun ops bus [] []
  | publish {bus bus' : WiredBus} {a : AccId} {msg : List UInt8}
      {h : (wiredSize (topicOf a)).toNat ≤ msg.length}
      {log : List (Event TopicId AccId CallbackId Modules)} {evs : List WireEv}
      {tr : List (List (Event TopicId AccId CallbackId Modules) × WiredBus)}
      (hrun : Ends (fun n => abusPublic (wiredCode ops) n [] bus a msg) log bus')
      (hrest : WireRun ops bus' evs tr) :
      WireRun ops bus (.publish a msg h :: evs) ((log, bus') :: tr)
  | others {bus bus' : WiredBus} {mode : Mode} {ctrl : ChassisCtrl FloatBytes}
      {chassis : ChassisMai} {evs : List WireEv}
      {tr : List (List (Event TopicId AccId CallbackId Modules) × WiredBus)}
      (hbus : bus' = { bus with
        user := { bus.user with rbmgMode := mode, ctrl := ctrl, chassisMai := chassis } })
      (hrest : WireRun ops bus' evs tr) :
      WireRun ops bus (.others mode ctrl chassis :: evs) (([], bus') :: tr)

/-- The bytes that were published on `line_dir_topic`. -/
def dirBytes (out : List (AccId × List UInt8)) : List UInt8 :=
  out.filterMap fun p => if topicOf p.1 = .lineDir then p.2.head? else none

/-- The target and the `run_status` are those of the command. -/
def ChassisMai.Carries (chassis : ChassisMai) (ctrl : ChassisCtrl FloatBytes) : Prop :=
  if ctrl.type = 0 then chassis.speed = ctrl.pos ∧ chassis.runStatus = .speed
  else chassis.pos = ctrl.pos ∧ chassis.runStatus = .pos

/-- A special point outside `CAB_MODE` starts the actions, and a chassis command sets the chassis.
`s` and `s'` are the modules before and after the messages `out`. -/
def Attached (s s' : Modules) (out : List (AccId × List UInt8)) : Prop :=
  ∀ p ∈ out, (topicOf p.1 = .lineSpecial → s.rbmgMode ≠ .cab → s'.rbmgMode = .action) ∧
    (topicOf p.1 = .chassisCtrl → s'.chassisMai.Carries (ctrlOf p.2))

/-- In every state of the trace each module is where the last message of its topic put it; `dir` is
the last byte of `line_dir_topic` before. -/
def FollowsTopics : WiredBus → UInt8 →
    List (List (Event TopicId AccId CallbackId Modules) × WiredBus) → Prop
  | _, _, [] => True
  | bus, dir, (log, bus') :: tr =>
    bus'.user.moveDirection = (dirBytes (sent log)).getLastD dir ∧
      Attached bus.user bus'.user (sent log) ∧
      FollowsTopics bus' ((dirBytes (sent log)).getLastD dir) tr

section Runs

variable {ops : FloatOps FloatBytes} {bus : WiredBus} {a : AccId} {msg : List UInt8}
  {evs : List WireEv} {dir : UInt8}

theorem command_carries (chassis : ChassisMai) (ctrl : ChassisCtrl FloatBytes) :
    (chassis.command ctrl).Carries ctrl := by
  unfold ChassisMai.command ChassisMai.Carries
  split
  · exact ⟨rfl, rfl⟩
  · exact ⟨rfl, rfl⟩

/-- A command is stored in the first 16 bytes. -/
theorem ctrlOf_take (msg : List UInt8) : ctrlOf (msg.take 16) = ctrlOf msg := by
  simp [ctrlOf, floatAt]

/-- No message changes the direction of the line sensor. -/
theorem hear_moveDirection (ops : FloatOps FloatBytes) (m : List UInt8) (bs : List AccId)
    (s : Modules) : (hear ops m bs s).1.moveDirection = s.moveDirection := by
  induction bs generalizing s with
  | nil => rfl
  | cons b bs ih =>
    rw [hear, ih]
    cases b with
    | rbmgError =>
      rw [hearAcc]
      split <;> rfl
    | rbmgSpecialPoint =>
      rw [hearAcc]
      split <;> rfl
    | _ => rfl

/-- On the way only the command for the line error is published, and it is carried out. -/
theorem hear_out {m : List UInt8} {t : TopicId} {s : Modules} {p : AccId × List UInt8}
    (hp : p ∈ (hear ops m (wiredSubs t) s).2) : p.1 = .rbmgChassis ∧
      (hear ops m (wiredSubs t) s).1.chassisMai.Carries (ctrlOf p.2) := by
  cases t with
  | lineError =>
    by_cases hmode : s.rbmgMode = .line
    · simp only [wiredSubs, hear, hearAcc, sentAcc, if_pos hmode, List.append_nil,
        List.mem_singleton] at hp ⊢
      subst hp
      exact ⟨rfl, command_carries _ _⟩
    · simp [wiredSubs, hear, hearAcc, sentAcc, hmode] at hp
  | _ => simp [wiredSubs, hear, sentAcc] at hp

/-- The callbacks of the manager and of the chassis are connected to their topics. -/
theorem hear_attached (ops : FloatOps FloatBytes) (a : AccId) (msg : List UInt8) (s : Modules) :
    Attached s
      (hear ops (msg.take (wiredSize (topicOf a)).toNat) (wiredSubs (topicOf a)) s).1
      ((a, msg) ::
        (hear ops (msg.take (wiredSize (topicOf a)).toNat) (wiredSubs (topicOf a)) s).2) := by
  intro p hp
  rcases List.mem_cons.mp hp with rfl | hp
  · refine ⟨fun ht hmode => ?_, fun ht => ?_⟩
    · simp [ht, wiredSubs, hear, hearAcc, hmode]
    · rw [ht]
      show (s.chassisMai.command (ctrlOf (msg.take 16))).Carries (ctrlOf msg)
      rw [ctrlOf_take]
      exact command_carries _ _
  · obtain ⟨ha, hcarries⟩ := hear_out hp
    refine ⟨fun ht => ?_, fun _ => hcarries⟩
    rw [ha] at ht
    cases ht

/-- Only the publisher can have published on `line_dir_topic`. -/
theorem dirBytes_hear (ops : FloatOps FloatBytes) (a : AccId) (msg m : List UInt8) (t : TopicId)
    (s : Modules) : dirBytes ((a, msg) :: (hear ops m (wiredSubs t) s).2) =
      if topicOf a = .lineDir then msg.head?.toList else [] := by
  have hout : dirBytes (hear ops m (wiredSubs t) s).2 = [] := by
    refine List.filterMap_eq_nil_iff.mpr fun p hp => ?_
    rw [(hear_out hp).1]
    rfl
  unfold dirBytes at hout ⊢
  by_cases ha : topicOf a = .lineDir
  · cases hmsg : msg.head? with
    | none => simp [ha, hmsg, hout]
    | some x => simp [ha, hmsg, hout]
  · simp [ha, hout]

/-- Every message on `line_dir_topic` is the byte `dir`. -/
def OnlyDir (dir : UInt8) (evs : List WireEv) : Prop :=
  ∀ a msg h, .publish a msg h ∈ evs → topicOf a = .lineDir → msg.head? = some dir

theorem onlyDir_publish {h : (wiredSize (topicOf a)).toNat ≤ msg.length} :
    OnlyDir dir (.publish a msg h :: evs) ↔
      (topicOf a = .lineDir → msg.head? = some dir) ∧ OnlyDir dir evs := by
  refine ⟨fun hall => ⟨hall a msg h List.mem_cons_self, fun b msg' h' hmem =>
    hall b msg' h' (List.mem_cons_of_mem _ hmem)⟩, ?_⟩
  rintro ⟨ha, hall⟩ b msg' h' hmem
  rcases List.mem_cons.mp hmem with heq | hmem
  · cases heq
    exact ha
  · exact hall b msg' h' hmem

theorem onlyDir_others {mode : Mode} {ctrl : ChassisCtrl FloatBytes} {chassis : ChassisMai} :
    OnlyDir dir (.others mode ctrl chassis :: evs) ↔ OnlyDir dir evs := by
  simp [OnlyDir]

/-- From any state of a run: it goes on, and the modules follow their topics exactly if no message
asks for another direction of the line sensor. -/
theorem wireRun_iff (hw : bus.Wired []) (hdir : bus.user.moveDirection = dir) :
    ∃ tr, WireRun ops bus evs tr ∧ (FollowsTopics bus dir tr ↔ OnlyDir dir evs) := by
  induction evs generalizing bus with
  | nil => exact ⟨[], .nil bus, by simp [FollowsTopics, OnlyDir]⟩
  | cons ev evs ih =>
    cases ev with
    | publish a msg h =>
      obtain ⟨log, bus', hends, hheard⟩ := abusPublic_wired ops hw h
      have hdir' : bus'.user.moveDirection = dir := by rw [hheard.user, hear_moveDirection, hdir]
      obtain ⟨tr, hrun, hiff⟩ := ih hheard.wired hdir'
      refine ⟨(log, bus') :: tr, .publish hends hrun, ?_⟩
      have hattached : Attached bus.user bus'.user (sent log) := by
        rw [hheard.sent, hheard.user]
        exact hear_attached ops a msg bus.user
      have hbytes : dirBytes (sent log) =
          if topicOf a = .lineDir then msg.head?.toList else [] := by
        rw [hheard.sent, dirBytes_hear]
      rw [FollowsTopics, onlyDir_publish, hbytes, hdir', ← hiff]
      by_cases ha : topicOf a = .lineDir
      · obtain ⟨x, hx⟩ : ∃ x, msg.head? = some x := by
          have : msg ≠ [] := by
            rintro rfl
            simp [ha, wiredSize] at h
          exact ⟨_, List.head?_eq_some_head this⟩
        -- the byte is not stored, so it has to be the one that is there
        by_cases hxd : x = dir
        · simp [ha, hx, hxd, hattached]
        · simp [ha, hx, hxd, Ne.symm hxd]
      · simp [ha, hattached]
    | others mode ctrl chassis =>
      have hheard := heard_done hw
        { bus.user with rbmgMode := mode, ctrl := ctrl, chassisMai := chassis }
      obtain ⟨tr, hrun, hiff⟩ := ih hheard.wired hdir
      refine ⟨_, .others rfl hrun, ?_⟩
      rw [onlyDir_others, ← hiff]
      simp [FollowsTopics, Attached, sent, dirBytes, hdir]

end Runs

/-- From `abus_all_init` on, whatever is published: the run goes on, the direction of the line
sensor is the last byte of `line_dir_topic`, every special point outside `CAB_MODE` switches to
`ACTION_MODE` and every chassis command sets the target and the status of the chassis, exactly if
all bytes of `line_dir_topic` are the direction the sensor had before. -/
theorem topics_followed_iff (ops : FloatOps FloatBytes) (str : String → ℕ)
    (heap : TopicId → Vector UInt8 1024) (user : Modules) (evs : List WireEv) :
    ∃ bus tr, abusAllInit str heap (Bus.zero _ _ _ user) = .ret bus ∧ WireRun ops bus evs tr ∧
      (FollowsTopics bus user.moveDirection tr ↔
        ∀ a msg h, .publish a msg h ∈ evs → topicOf a = .lineDir →
          msg.head? = some user.moveDirection) := by
  obtain ⟨bus, hinit, hw, huser⟩ := abusAllInit_wired str heap user
  obtain ⟨tr, hrun, hiff⟩ := wireRun_iff hw (congrArg Modules.moveDirection huser)
  exact ⟨bus, tr, hinit, hrun, hiff⟩

/-- The modules before the start: the sensor looks to the front. -/
def startModules : Modules where
  moveDirection := 0
  rbmgMode := .cab
  lineError := ⟨0, 0, 0, 0⟩
  chassisDir := 0
  ctrl := ⟨0, ⟨⟨0, 0, 0, 0⟩, ⟨0, 0, 0, 0⟩, ⟨0, 0, 0, 0⟩⟩⟩
  chassisMai := {
    speed := ⟨⟨0, 0, 0, 0⟩, ⟨0, 0, 0, 0⟩, ⟨0, 0, 0, 0⟩⟩
    pos := ⟨⟨0, 0, 0, 0⟩, ⟨0, 0, 0, 0⟩, ⟨0, 0, 0, 0⟩⟩
    runStatus := .idle }

/-- The manager publishes `left`, and the sensor still looks to the front. -/
theorem line_dir_lost : ∃ (ops : FloatOps FloatBytes) (bus : WiredBus) (tr : _),
    abusAllInit (fun _ => 0) (fun _ => .replicate 1024 0) (Bus.zero _ _ _ startModules) = .ret bus ∧
      WireRun ops bus [.publish .rbmgDir [1] (by decide)] tr ∧
      ¬FollowsTopics bus startModules.moveDirection tr := by
  -- the run does not use floats
  let ops : FloatOps FloatBytes :=
    ⟨fun _ => ⟨0, 0, 0, 0⟩, fun x _ => x, fun x _ => x, fun _ _ _ => false⟩
  obtain ⟨bus, hinit, hw, huser⟩ :=
    abusAllInit_wired (fun _ => 0) (fun _ => .replicate 1024 0) startModules
  obtain ⟨tr, hrun, hiff⟩ := wireRun_iff hw (congrArg Modules.moveDirection huser)
  refine ⟨ops, bus, tr, hinit, hrun, fun hfollows => ?_⟩
  have hbyte := hiff.mp hfollows .rbmgDir [1] (by decide) List.mem_cons_self rfl
  exact absurd hbyte (by decide)

end Robot
