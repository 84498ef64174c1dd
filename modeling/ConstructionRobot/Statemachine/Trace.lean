import ConstructionRobot.Statemachine.Machine

/-!
# What a state machine calls (`statemachine.c`)

A machine is built by calls of `aStateMachine_addState` and `aStateMachine_addTransition1`, is
started in a state and then updated again and again.

* `SmWorld.Started.traceLaw`: the callbacks of a run of updates are those of its turns.
* `SmWorld.buildAll_transitions`: the transitions of a state are those added to it, in that order.
* `aStateMachine_trace`: both together.
-/

namespace Robot

variable {S σ : Type}

/-! ## Runs of updates -/

/-- The flags with which `s₀` is entered. -/
def startFlags (s₀ : S) : SmFlags S :=
  { current := some s₀, previous := none, started := true, finished := false }

/-- What holds of the worlds `W n` after `n` updates of a machine with the states `a`, when the data
of the callbacks were `user` before it was started. `turn n` is the turn of the update after that,
if the machine is not finished. -/
structure TraceLaw (a : S → AState S σ) (user : σ) (s₀ : S) (W : ℕ → SmWorld S σ)
    (turn : ℕ → Option (Turn S)) : Prop where
  log : ∀ n, (W n).log = called (a s₀).entry (.entry s₀) ++
    ((List.range n).filterMap turn).flatMap (Turn.events fun s => (a s).toStateDecl)
  start : (W 0).sm.toSmFlags = startFlags s₀ ∧
    Replays a user ((called (a s₀).entry (.entry s₀)).map (startFlags s₀, ·)) (W 0).user
  running : ∀ n, (W n).sm.finished = false → ∃ t, turn n = some t ∧
    t.Valid (fun s => (a s).toStateDecl) (fun s => (a s).targets) ∧
    Replays a (W n).user (t.calls (fun s => (a s).toStateDecl) (W n).sm.toSmFlags)
      (W (n + 1)).user ∧
    (W n).sm.current = some t.state ∧ (W (n + 1)).sm.current = some t.next ∧
    ((W (n + 1)).sm.finished = true ↔ t.ret = some stateFinish)
  finished : ∀ n, (W n).sm.finished = true → turn n = none ∧ W (n + 1) = W n
  previous : ∀ n, (W n).sm.previous = lastExited ((List.range n).filterMap turn)

/-- A machine that runs in a state, or has finished in one. -/
structure SmWorld.Started (w : SmWorld S σ) : Prop where
  triggered : w.Triggered
  started : w.sm.started = true
  current : w.sm.current.isSome

/-- An update returns; it is a turn if the machine has not finished, else it does nothing. -/
theorem SmWorld.Started.update {w : SmWorld S σ} (h : w.Started) :
    ∃ (t : Option (Turn S)) (w' : SmWorld S σ), aStateMachineUpdate w = .ret w' ∧ w'.Started ∧
      (w.sm.finished = true → t = none ∧ w' = w) ∧
      (w.sm.finished = false → ∃ t', t = some t' ∧ w.Does t' w') := by
  cases hfin : w.sm.finished with
  | true => exact ⟨none, w, aStateMachineUpdate_finished hfin, h, by simp, by simp⟩
  | false =>
    obtain ⟨s, hcur⟩ := Option.isSome_iff_exists.mp h.current
    obtain ⟨t, w', hret, hdoes⟩ := aStateMachineUpdate_spec h.triggered h.started hfin hcur
    refine ⟨some t, w', hret, ⟨?_, ?_, ?_⟩, by simp, fun _ => ⟨t, rfl, hdoes⟩⟩
    · rw [Triggered, hdoes.table]
      exact h.triggered
    · rw [hdoes.sm]
      exact h.started
    · rw [hdoes.sm]
      rfl

theorem SmWorld.Started.updates {w : SmWorld S σ} (h : w.Started) (n : ℕ) :
    ∃ w', updates w n = .ret w' ∧ w'.Started ∧ w'.table = w.table := by
  induction n with
  | zero => exact ⟨w, rfl, h, rfl⟩
  | succ n ih =>
    obtain ⟨w₁, hrun, hst, htab⟩ := ih
    obtain ⟨t, w', hret, hst', hfin, hturn⟩ := hst.update
    refine ⟨w', by simp [Robot.updates, hrun, hret], hst', ?_⟩
    cases hf : w₁.sm.finished with
    | true => rw [(hfin hf).2, htab]
    | false =>
      obtain ⟨t', -, hdoes⟩ := hturn hf
      rw [hdoes.table, htab]

/-- The worlds of a run, and the turn of each update of a machine that has not finished. -/
structure Turns (W : ℕ → SmWorld S σ) (turn : ℕ → Option (Turn S)) : Prop where
  running : ∀ n, (W n).sm.finished = false → ∃ t, turn n = some t ∧ (W n).Does t (W (n + 1))
  finished : ∀ n, (W n).sm.finished = true → turn n = none ∧ W (n + 1) = W n

section Turns

variable {W : ℕ → SmWorld S σ} {turn : ℕ → Option (Turn S)}

theorem filterMap_turn_succ (n : ℕ) : (List.range (n + 1)).filterMap turn =
    (List.range n).filterMap turn ++ (turn n).toList := by
  rw [List.range_succ, List.filterMap_append]
  cases ht : turn n <;> simp [ht]

theorem Turns.log (h : Turns W turn) {d : S → StateDecl S σ} (hdecl : ∀ n, (W n).decl = d)
    (n : ℕ) :
    (W n).log = (W 0).log ++ ((List.range n).filterMap turn).flatMap (Turn.events d) := by
  induction n with
  | zero => simp
  | succ n ih =>
    rw [filterMap_turn_succ, List.flatMap_append, ← List.append_assoc, ← ih]
    cases hf : (W n).sm.finished with
    | true => simp [h.finished n hf]
    | false =>
      obtain ⟨t, ht, hdoes⟩ := h.running n hf
      rw [hdoes.log, hdecl, ht]
      simp

theorem Turns.previous (h : Turns W turn) (h₀ : (W 0).sm.previous = none) (n : ℕ) :
    (W n).sm.previous = lastExited ((List.range n).filterMap turn) := by
  induction n with
  | zero => simp [h₀]
  | succ n ih =>
    rw [filterMap_turn_succ]
    cases hf : (W n).sm.finished with
    | true => simp [h.finished n hf, ih]
    | false =>
      obtain ⟨t, ht, hdoes⟩ := h.running n hf
      rw [ht, Option.toList_some, lastExited_concat, hdoes.sm, ih]

end Turns

/-- The updates of a started machine, one after the other, are turns. -/
theorem SmWorld.Started.turns {w : SmWorld S σ} (h : w.Started) :
    ∃ (W : ℕ → SmWorld S σ) (turn : ℕ → Option (Turn S)),
      (∀ n, Robot.updates w n = .ret (W n)) ∧ Turns W turn ∧ W 0 = w ∧
      ∀ n, (W n).table = w.table := by
  choose W hW hst htab using h.updates
  choose turn W' hret _ hdone hturn using fun n => (hst n).update
  -- the updates are deterministic
  have hW' : ∀ n, W' n = W (n + 1) := fun n => by
    have := hW (n + 1)
    simp only [Robot.updates, hW, Call.ret_bind, hret, Call.ret.injEq] at this
    exact this
  exact ⟨W, turn, hW, ⟨fun n hf => hW' n ▸ hturn n hf, fun n hf => hW' n ▸ hdone n hf⟩,
    (Call.ret.inj (hW 0)).symm, htab⟩

/-- A machine that has just entered its first state follows the law. -/
theorem SmWorld.Started.traceLaw {w : SmWorld S σ} {user : σ} {s₀ : S} (h : w.Started)
    (hflags : w.sm.toSmFlags = startFlags s₀)
    (hlog : w.log = called (w.decl s₀).entry (.entry s₀))
    (huser : Replays w.table user
      ((called (w.decl s₀).entry (.entry s₀)).map (startFlags s₀, ·)) w.user) :
    ∃ (W : ℕ → SmWorld S σ) (turn : ℕ → Option (Turn S)),
      (∀ n, Robot.updates w n = .ret (W n)) ∧ TraceLaw w.table user s₀ W turn := by
  obtain ⟨W, turn, hW, hturns, rfl, htab⟩ := h.turns
  have hdecl : ∀ n, (W n).decl = (W 0).decl := fun n => by
    funext s
    rw [decl, decl, htab]
  have htargets : ∀ n, (W n).targets = (W 0).targets := fun n => by
    funext s
    rw [targets, targets, htab]
  refine ⟨W, turn, hW, fun n => ?_, ⟨hflags, huser⟩, fun n hf => ?_, hturns.finished,
    hturns.previous (congrArg SmFlags.previous hflags)⟩
  · rw [hturns.log hdecl, hlog]
    rfl
  · obtain ⟨t, ht, hdoes⟩ := hturns.running n hf
    have hvalid := hdoes.valid
    have hcalls := hdoes.calls
    rw [hdecl, htargets] at hvalid
    rw [hdecl, htab] at hcalls
    refine ⟨t, ht, hvalid, hcalls, hdoes.state, ?_, ?_⟩
    · rw [hdoes.sm]
    · rw [hdoes.sm]
      exact decide_eq_true_iff

/-! ## Building a machine -/

/-- The calls that build a machine. -/
inductive BuildOp (S σ : Type) where
  | addState (s : S)
  | addTransition1 (fromState toState : Option S) (condition : SmFlags S → σ → Bool × σ)

/-- A call that builds leaves the flags, the declarations and the data of the callbacks. -/
structure SmWorld.Builds (w w' : SmWorld S σ) : Prop where
  flags : w'.sm.toSmFlags = w.sm.toSmFlags
  fin : w'.sm.defaultFinishState = w.sm.defaultFinishState
  decl : w'.decl = w.decl
  log : w'.log = w.log
  user : w'.user = w.user
  triggered : w.Triggered → w'.Triggered

theorem SmWorld.Builds.refl (w : SmWorld S σ) : w.Builds w := ⟨rfl, rfl, rfl, rfl, rfl, id⟩

theorem SmWorld.Builds.trans {w w₁ w₂ : SmWorld S σ} (h₁ : w.Builds w₁) (h₂ : w₁.Builds w₂) :
    w.Builds w₂ :=
  ⟨h₂.flags.trans h₁.flags, h₂.fin.trans h₁.fin, h₂.decl.trans h₁.decl, h₂.log.trans h₁.log,
    h₂.user.trans h₁.user, h₂.triggered ∘ h₁.triggered⟩

section Build

variable [DecidableEq S]

/-- One call. -/
def SmWorld.build (w : SmWorld S σ) : BuildOp S σ → SmWorld S σ
  | .addState s => aStateMachineAddState w s
  | .addTransition1 a b c => aStateMachineAddTransition1 w a b c

/-- The transitions added to `s`, in the order of the calls. A transition is added if its state was
added before it. -/
def addedTransitions (fin s : S) (states : List S) : List (BuildOp S σ) → List (Transition S σ)
  | [] => []
  | .addState s' :: ops => addedTransitions fin s (states ++ [s']) ops
  | .addTransition1 a b c :: ops =>
    if a = some s ∧ s ∈ states then
      transitionInit (b.getD fin) c :: addedTransitions fin s states ops
    else addedTransitions fin s states ops

theorem aStateMachineAddTransition1_eq (w : SmWorld S σ) (a b : Option S)
    (c : SmFlags S → σ → Bool × σ) :
    (∃ s, a = some s ∧ s ∈ w.sm.states ∧ aStateMachineAddTransition1 w a b c =
      let t := transitionInit (b.getD w.sm.defaultFinishState) c
      { w with table := Function.update w.table s (aStateAddTransition (w.table s) t) }) ∨
    ((∀ s ∈ w.sm.states, a ≠ some s) ∧ aStateMachineAddTransition1 w a b c = w) := by
  unfold aStateMachineAddTransition1
  cases hf : w.sm.states.find? (fun s => some s = a) with
  | some s =>
    have hs := List.find?_some hf
    simp only [decide_eq_true_eq] at hs
    exact .inl ⟨s, hs.symm, List.mem_of_find?_eq_some hf, rfl⟩
  | none =>
    refine .inr ⟨fun s hs ha => ?_, rfl⟩
    have := List.find?_eq_none.mp hf s hs
    simp [ha] at this

/-- A transition more at the state `s`. -/
theorem SmWorld.builds_update (w : SmWorld S σ) (s toState : S) (c : SmFlags S → σ → Bool × σ) :
    w.Builds { w with
      table := Function.update w.table s
        (aStateAddTransition (w.table s) (transitionInit toState c)) } := by
  refine ⟨rfl, rfl, ?_, rfl, rfl, fun htr s' t ht => ?_⟩
  · funext s'
    by_cases hs : s' = s
    · subst hs
      simp [decl, aStateAddTransition]
    · simp [decl, hs]
  · by_cases hs : s' = s
    · subst hs
      simp only [Function.update_self, aStateAddTransition, List.mem_append,
        List.mem_singleton] at ht
      rcases ht with ht | rfl
      · exact htr s' t ht
      · rfl
    · simp only [Function.update_of_ne hs] at ht
      exact htr s' t ht

theorem SmWorld.build_builds (w : SmWorld S σ) (op : BuildOp S σ) : w.Builds (w.build op) := by
  cases op with
  | addState s => exact ⟨rfl, rfl, rfl, rfl, rfl, id⟩
  | addTransition1 a b c =>
    rcases aStateMachineAddTransition1_eq w a b c with ⟨s, -, -, heq⟩ | ⟨-, heq⟩
    · rw [build, heq]
      exact w.builds_update s _ c
    · rw [build, heq]
      exact Builds.refl w

/-- The calls one after the other. -/
def SmWorld.buildAll (w : SmWorld S σ) (ops : List (BuildOp S σ)) : SmWorld S σ :=
  ops.foldl SmWorld.build w

theorem SmWorld.buildAll_builds (w : SmWorld S σ) (ops : List (BuildOp S σ)) :
    w.Builds (w.buildAll ops) := by
  induction ops generalizing w with
  | nil => exact Builds.refl w
  | cons op ops ih => exact (w.build_builds op).trans (ih (w.build op))

/-- The transitions of a state after the calls. -/
theorem SmWorld.buildAll_transitions (w : SmWorld S σ) (ops : List (BuildOp S σ)) (s : S) :
    ((w.buildAll ops).table s).transitions =
      (w.table s).transitions ++ addedTransitions w.sm.defaultFinishState s w.sm.states ops := by
  induction ops generalizing w with
  | nil => exact (List.append_nil _).symm
  | cons op ops ih =>
    rw [show w.buildAll (op :: ops) = (w.build op).buildAll ops from rfl, ih]
    cases op with
    | addState s' => rfl
    | addTransition1 a b c =>
      rcases aStateMachineAddTransition1_eq w a b c with ⟨s', rfl, hmem, heq⟩ | ⟨hne, heq⟩
      · rw [build, heq, addedTransitions]
        by_cases hs : s' = s
        · subst hs
          simp [aStateAddTransition, hmem]
        · simp [hs, Ne.symm hs]
      · rw [build, heq, addedTransitions, if_neg fun h => hne s h.2 h.1]

/-- A machine with the calls `ops`. -/
def builtMachine (name : String) (fin : S) (d : S → StateDecl S σ) (user : σ)
    (ops : List (BuildOp S σ)) : SmWorld S σ :=
  (aStateMachineInit name fin d user).buildAll ops

theorem builtMachine_builds (name : String) (fin : S) (d : S → StateDecl S σ) (user : σ)
    (ops : List (BuildOp S σ)) :
    (aStateMachineInit name fin d user).Builds (builtMachine name fin d user ops) :=
  SmWorld.buildAll_builds _ ops

/-- The states of the machine. -/
def builtStates (fin : S) (d : S → StateDecl S σ) (ops : List (BuildOp S σ)) (s : S) : AState S σ :=
  { declare d fin s with transitions := addedTransitions fin s [] ops }

theorem builtMachine_table (name : String) (fin : S) (d : S → StateDecl S σ) (user : σ)
    (ops : List (BuildOp S σ)) :
    (builtMachine name fin d user ops).table = builtStates fin d ops := by
  funext s
  have hdecl : ((builtMachine name fin d user ops).table s).toStateDecl = declare d fin s :=
    congrFun (builtMachine_builds name fin d user ops).decl s
  have htrans : ((builtMachine name fin d user ops).table s).transitions =
      addedTransitions fin s [] ops := SmWorld.buildAll_transitions _ ops s
  generalize (builtMachine name fin d user ops).table s = a at hdecl htrans
  obtain ⟨decl, transitions⟩ := a
  rw [builtStates, ← htrans, ← hdecl]

/-- Every machine, from every first state, with callbacks that keep data: it enters the state; each
update of a machine that is not finished executes the state, asks the conditions in the order in
which the transitions were added up to the first that returns true, and then exits and enters; what
each of them returns is what its callback returns for the flags and the data at that point.
`finished` is set by an execution that returns `stateFinish`; a finished machine does nothing;
`previous` is the state exited last. -/
theorem aStateMachine_trace (name : String) (fin s₀ : S) (d : S → StateDecl S σ) (user : σ)
    (ops : List (BuildOp S σ)) :
    ∃ (W : ℕ → SmWorld S σ) (turn : ℕ → Option (Turn S)),
      (∀ n, updates (aStateMachineStart (builtMachine name fin d user ops) s₀) n = .ret (W n)) ∧
      TraceLaw (builtStates fin d ops) user s₀ W turn := by
  have hb := builtMachine_builds name fin d user ops
  have htable := builtMachine_table name fin d user ops
  have htr := hb.triggered fun s t ht => (List.not_mem_nil ht).elim
  have hflags : (builtMachine name fin d user ops).sm.toSmFlags = initFlags := hb.flags
  have hlog : (builtMachine name fin d user ops).log = [] := hb.log
  have huser : (builtMachine name fin d user ops).user = user := hb.user
  generalize builtMachine name fin d user ops = w at *
  have hstopped : w.sm.started = false := congrArg SmFlags.started hflags
  have hfin : w.sm.finished = false := congrArg SmFlags.finished hflags
  obtain ⟨htab, hsm, hlog'⟩ := aStateMachineStart_spec hstopped s₀
  have hruns := aStateMachineStart_replays hstopped s₀
  have hdecl : (aStateMachineStart w s₀).decl = w.decl := by
    funext s
    rw [SmWorld.decl, SmWorld.decl, htab]
  rw [hflags, huser] at hruns
  rw [← htable, ← htab]
  refine SmWorld.Started.traceLaw ⟨?_, by rw [hsm], by rw [hsm]; rfl⟩ ?_ ?_ ?_
  · rw [SmWorld.Triggered, htab]
    exact htr
  · rw [hsm, startFlags, ← hfin]
  · rw [hlog', hlog, hdecl, List.nil_append]
  · rw [htab, hdecl]
    exact hruns

end Build

end Robot
