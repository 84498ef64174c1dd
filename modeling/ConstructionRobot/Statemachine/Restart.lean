import ConstructionRobot.Statemachine.Trace

/-!
# Restarting a state machine (`statemachine.c`)

`aStateMachine_restart` does what `aStateMachine_start` does and clears `finished`, but it sets
`started` to false. With `ASTATE_AUTO_START = 0` an update of a machine that is not started returns
at once.

* `aStateMachine_restart_iff`: a restarted machine does what a fresh one does only if the state has
  nothing to do.
-/

namespace Robot

variable {S σ : Type}

/-- The calls on a machine. -/
inductive SmOp (S σ : Type) where
  | build (op : BuildOp S σ)
  | start (s : S)
  | restart (s : S)
  | update

/-- One call. -/
def SmWorld.step [DecidableEq S] (w : SmWorld S σ) : SmOp S σ → Call (SmWorld S σ)
  | .build op => pure (w.build op)
  | .start s => pure (aStateMachineStart w s)
  | .restart s => pure (aStateMachineRestart w s)
  | .update => aStateMachineUpdate w

/-- The machine with the flags of `aStateMachine_Init`. -/
def SmWorld.reset (w : SmWorld S σ) : SmWorld S σ :=
  { w with sm := { w.sm with toSmFlags := initFlags } }

/-- After `aStateMachine_restart` in the world `w`, any number of updates give the same callbacks
and flags as after `aStateMachine_start` with the flags of `aStateMachine_Init`. -/
def RestartFresh (w : SmWorld S σ) (s : S) : Prop :=
  ∀ n, ∃ w₁ w₂, updates (aStateMachineRestart w s) n = .ret w₁ ∧
    updates (aStateMachineStart w.reset s) n = .ret w₂ ∧
    w₁.log = w₂.log ∧ w₁.sm.current = w₂.sm.current ∧ w₁.sm.previous = w₂.sm.previous ∧
    w₁.sm.finished = w₂.sm.finished

/-- The state has nothing to do in an update. -/
def AState.Idle (a : AState S σ) : Prop := a.excution = none ∧ a.transitions = []

/-- A restarted machine is not started: its updates do nothing. -/
theorem updates_restart (w : SmWorld S σ) (s : S) (n : ℕ) :
    updates (aStateMachineRestart w s) n = .ret (aStateMachineRestart w s) := by
  induction n with
  | zero => rfl
  | succ n ih =>
    rw [updates, ih, Call.ret_bind]
    refine aStateMachineUpdate_stopped ?_
    rw [(aStateMachineRestart_spec w s).2.1]

/-- The updates of a machine in a state that has nothing to do, too. -/
theorem aStateMachineUpdate_idle {w : SmWorld S σ} {s : S} (h : (w.table s).Idle)
    (hcur : w.sm.current = some s) : aStateMachineUpdate w = .ret w := by
  cases hstart : w.sm.started with
  | false => exact aStateMachineUpdate_stopped hstart
  | true =>
    cases hfin : w.sm.finished with
    | true => exact aStateMachineUpdate_finished hfin
    | false =>
      have hexec : w.execute s = w := by simp [SmWorld.execute, SmWorld.call, h.1]
      simp [aStateMachineUpdate, hstart, hfin, hcur, hexec, h.2, SmWorld.tryTransitions]

theorem updates_idle {w : SmWorld S σ} {s : S} (h : (w.table s).Idle)
    (hcur : w.sm.current = some s) (n : ℕ) : updates w n = .ret w := by
  induction n with
  | zero => rfl
  | succ n ih => rw [updates, ih, Call.ret_bind, aStateMachineUpdate_idle h hcur]

/-- A turn without callbacks is one of a state that has nothing to do. -/
theorem Turn.idle_of_events_eq_nil {w : SmWorld S σ} {t : Turn S} (hv : t.Valid w.decl w.targets)
    (h : t.events w.decl = []) : (w.table t.state).Idle := by
  simp only [events, List.append_eq_nil_iff, Option.toList_eq_nil_iff, Option.map_eq_none_iff,
    List.map_eq_nil_iff, List.range_eq_nil] at h
  obtain ⟨⟨hret, hrefused⟩, htaken⟩ := h
  have hnone : t.taken = none := by
    cases ht : t.taken with
    | none => rfl
    | some toState => simp [ht] at htaken
  have hexc := hv.ret
  have hlen := hv.refused hnone
  rw [hret, eq_comm] at hexc
  rw [hrefused, eq_comm, List.length_eq_zero_iff] at hlen
  exact ⟨Option.not_isSome_iff_eq_none.mp (ne_true_of_eq_false hexc),
    List.map_eq_nil_iff.mp hlen⟩

/-- An update does nothing, or it is a turn of a running machine. -/
theorem aStateMachineUpdate_cases {w w' : SmWorld S σ} (htr : w.Triggered)
    (h : aStateMachineUpdate w = .ret w') :
    w' = w ∨ w.sm.started = true ∧ w.sm.finished = false ∧ ∃ t, w.Does t w' := by
  cases hstart : w.sm.started with
  | false => exact .inl (Call.ret.inj ((aStateMachineUpdate_stopped hstart).symm.trans h)).symm
  | true =>
    cases hfin : w.sm.finished with
    | true => exact .inl (Call.ret.inj ((aStateMachineUpdate_finished hfin).symm.trans h)).symm
    | false =>
      cases hcur : w.sm.current with
      | none =>
        simp only [aStateMachineUpdate, hstart, hfin, hcur] at h
        exact .inl (Call.ret.inj h).symm
      | some s =>
        obtain ⟨t, w₁, hret, hdoes⟩ := aStateMachineUpdate_spec htr hstart hfin hcur
        obtain rfl := Call.ret.inj (hret.symm.trans h)
        exact .inr ⟨rfl, rfl, t, hdoes⟩

/-- A call builds, or it leaves the states and the transitions. -/
theorem SmWorld.step_cases [DecidableEq S] {w w' : SmWorld S σ} {op : SmOp S σ}
    (htr : w.Triggered) (h : w.step op = .ret w') :
    (∃ b, w' = w.build b) ∨
      w'.table = w.table ∧ w'.sm.defaultFinishState = w.sm.defaultFinishState := by
  cases op with
  | build op => exact .inl ⟨op, (Call.ret.inj h).symm⟩
  | start s =>
    obtain rfl := Call.ret.inj h
    cases hstart : w.sm.started with
    | true => exact .inr (by simp [aStateMachineStart, hstart])
    | false =>
      obtain ⟨htab, hsm, -⟩ := aStateMachineStart_spec hstart s
      exact .inr ⟨htab, by rw [hsm]⟩
  | restart s =>
    obtain rfl := Call.ret.inj h
    obtain ⟨htab, hsm, -⟩ := aStateMachineRestart_spec w s
    exact .inr ⟨htab, by rw [hsm]⟩
  | update =>
    obtain rfl | ⟨-, -, t, hdoes⟩ := aStateMachineUpdate_cases htr h
    · exact .inr ⟨rfl, rfl⟩
    · exact .inr ⟨hdoes.table, by rw [hdoes.sm]⟩

/-- What no call changes: the declarations, the default finish state, and that the transitions are
triggered. -/
structure SmWorld.Keeps (w w' : SmWorld S σ) : Prop where
  triggered : w'.Triggered
  decl : w'.decl = w.decl
  fin : w'.sm.defaultFinishState = w.sm.defaultFinishState

theorem SmWorld.step_keeps [DecidableEq S] {w w' : SmWorld S σ} {op : SmOp S σ}
    (htr : w.Triggered) (h : w.step op = .ret w') : w.Keeps w' := by
  obtain ⟨b, rfl⟩ | ⟨htab, hfin⟩ := step_cases htr h
  · have hb := w.build_builds b
    exact ⟨hb.triggered htr, hb.decl, hb.fin⟩
  · refine ⟨?_, ?_, hfin⟩
    · rw [Triggered, htab]
      exact htr
    · funext s
      rw [decl, decl, htab]

/-- The calls one after the other. -/
def SmWorld.run [DecidableEq S] (w : SmWorld S σ) : List (SmOp S σ) → Call (SmWorld S σ)
  | [] => pure w
  | op :: ops => do
    let w ← w.step op
    w.run ops

theorem SmWorld.run_keeps [DecidableEq S] {w w' : SmWorld S σ} {ops : List (SmOp S σ)}
    (htr : w.Triggered) (h : w.run ops = .ret w') : w.Keeps w' := by
  induction ops generalizing w with
  | nil =>
    obtain rfl := Call.ret.inj h
    exact ⟨htr, rfl, rfl⟩
  | cons op ops ih =>
    obtain ⟨w₁, hop, hops⟩ := Call.bind_eq_ret.mp h
    have hstep := step_keeps htr hop
    have hrun := ih hstep.triggered hops
    exact ⟨hrun.triggered, hrun.decl.trans hstep.decl, hrun.fin.trans hstep.fin⟩

/-- What holds of every machine. -/
theorem aStateMachine_keeps [DecidableEq S] {name : String} {fin : S} {d : S → StateDecl S σ}
    {user : σ} {ops : List (SmOp S σ)} {w : SmWorld S σ}
    (h : (aStateMachineInit name fin d user).run ops = .ret w) :
    (aStateMachineInit name fin d user).Keeps w :=
  SmWorld.run_keeps (fun _ _ ht => (List.not_mem_nil ht).elim) h

/-- In every state that a machine can reach: a restart in `s` is like a fresh start exactly if `s`
has neither an execution nor a transition. `aStateMachine_restart` leaves `started` false, and the
updates return at once. -/
theorem aStateMachine_restart_iff [DecidableEq S] (name : String) (fin : S)
    (d : S → StateDecl S σ) (user : σ) (ops : List (SmOp S σ)) (w : SmWorld S σ) (s : S)
    (h : (aStateMachineInit name fin d user).run ops = .ret w) :
    RestartFresh w s ↔ (w.table s).Idle := by
  have htr := (aStateMachine_keeps h).triggered
  obtain ⟨-, hsm₁, hlog₁⟩ := aStateMachineRestart_spec w s
  obtain ⟨htab₂, hsm₂, hlog₂⟩ := aStateMachineStart_spec (w := w.reset) rfl s
  have hcur₂ : (aStateMachineStart w.reset s).sm.current = some s := by rw [hsm₂]
  constructor
  · intro hfresh
    -- one update of the fresh machine is a turn; on the restarted one nothing happens
    obtain ⟨w₁, w₂, h₁, h₂, hlog, -⟩ := hfresh 1
    rw [updates_restart] at h₁
    obtain rfl := Call.ret.inj h₁
    obtain ⟨t, w₃, h₃, hdoes⟩ := aStateMachineUpdate_spec (w := aStateMachineStart w.reset s)
      (by rw [SmWorld.Triggered, htab₂]; exact htr) (by rw [hsm₂]) (by rw [hsm₂]; rfl) hcur₂
    simp only [updates, Call.pure_eq, Call.ret_bind] at h₂
    obtain rfl := Call.ret.inj (h₃.symm.trans h₂)
    obtain rfl : s = t.state := Option.some.inj (hcur₂.symm.trans hdoes.state)
    have hnil : t.events (aStateMachineStart w.reset t.state).decl = [] := by
      have hlog' := hdoes.log
      rw [← hlog, hlog₁, hlog₂] at hlog'
      exact List.append_right_eq_self.mp hlog'.symm
    have hidle := Turn.idle_of_events_eq_nil hdoes.valid hnil
    rwa [htab₂] at hidle
  · intro hidle n
    refine ⟨_, _, updates_restart w s n, updates_idle (by rw [htab₂]; exact hidle) hcur₂ n, ?_⟩
    rw [hlog₁, hlog₂, hsm₁, hsm₂]
    exact ⟨rfl, rfl, rfl, rfl⟩

/-- The states `true`, whose execution returns 0 (`stateNone`), and `false`, the default finish
state. -/
def loopDecl (s : Bool) : StateDecl Bool Unit :=
  { name := "loop", excution := if s then some fun _ _ u => (0, u) else none
    entry := none, exit := none }

/-- Both states are added and the machine runs in `true`. -/
def loopOps : List (SmOp Bool Unit) :=
  [.build (.addState true), .build (.addState false), .start true, .update]

theorem aStateMachine_restart_iff_loop :
    ∃ w, (aStateMachineInit "sm" false loopDecl ()).run loopOps = .ret w ∧
      ¬RestartFresh w true ∧ RestartFresh w false := by
  refine ⟨_, rfl, fun h => ?_, ?_⟩
  · have hidle := (aStateMachine_restart_iff "sm" false loopDecl () loopOps _ true rfl).mp h
    exact nomatch hidle.1
  · exact (aStateMachine_restart_iff "sm" false loopDecl () loopOps _ false rfl).mpr ⟨rfl, rfl⟩

/-- A machine that runs in a state with an execution, restarted in that state: the next update
does not execute it. -/
theorem aStateMachine_restart_loop :
    ∃ w, (aStateMachineInit "sm" false loopDecl ()).run loopOps = .ret w ∧
      ¬RestartFresh w true := by
  refine ⟨_, rfl, fun h => ?_⟩
  obtain ⟨w₁, w₂, h₁, h₂, hlog, -⟩ := h 1
  obtain rfl := Call.ret.inj h₁
  obtain rfl := Call.ret.inj h₂
  revert hlog
  decide

end Robot
