import ConstructionRobot.Statemachine.Restart

/-!
# The default finish state (`statemachine.c`)

A transition to `NULL` leads to `defaultFinishState`. There is a callback for it,
`defaultFinishState_excution`, which returns `stateFinish`, but `aStateMachine_Init` gives the state
no callback at all. A machine in this state is not finished; it is only finished if the execution of
the state before returned `stateFinish` in the same update.

* `SmWorld.TakesFinish`: the update takes a transition to `defaultFinishState`.
* `aStateMachine_finish_iff`: when the machine is then finished.
-/

namespace Robot

variable {S σ : Type}

/-- The update from `w` to `w'` calls the condition of a transition from `s` to
`defaultFinishState`, and the condition holds. -/
def SmWorld.TakesFinish (w : SmWorld S σ) (s : S) (w' : SmWorld S σ) : Prop :=
  ∃ i events, (w.targets s)[i]? = some w.sm.defaultFinishState ∧
    w'.log = w.log ++ events ∧ StateEvent.condition s i true ∈ events

/-- The execution of the state `s`, called now, returns `stateFinish`. -/
def SmWorld.Finishes (w : SmWorld S σ) (s : S) : Prop :=
  ∃ f, (w.table s).excution = some f ∧ (f s w.sm.toSmFlags w.user).1 = stateFinish

/-- The next update sets `finished`, and the updates behind it call no callback and change neither
`current` nor `previous`. -/
def SmWorld.FinishesNext (w : SmWorld S σ) : Prop :=
  ∃ w₁, aStateMachineUpdate w = .ret w₁ ∧ w₁.sm.finished = true ∧
    ∀ n, ∃ w₂, updates w₁ n = .ret w₂ ∧ w₂.log = w₁.log ∧
      w₂.sm.current = w₁.sm.current ∧ w₂.sm.previous = w₁.sm.previous

/-- A finished machine stays as it is, update after update. -/
theorem updates_finished {w : SmWorld S σ} (hfin : w.sm.finished = true) (n : ℕ) :
    updates w n = .ret w := by
  induction n with
  | zero => rfl
  | succ n ih => rw [updates, ih, Call.ret_bind, aStateMachineUpdate_finished hfin]

/-- `finished` after the start of an update. -/
theorem SmWorld.execute_finished {w : SmWorld S σ} {s : S} (hfin : w.sm.finished = false) :
    (w.execute s).sm.finished = true ↔ w.Finishes s := by
  cases hf : (w.table s).excution with
  | none => simp [execute, call, hf, hfin, Finishes]
  | some f =>
    by_cases hret : (f s w.sm.toSmFlags w.user).1 = stateFinish
    · simp [execute, call, hf, hret, aStateMachineFinish, Finishes]
    · simp [execute, call, hf, hret, hfin, Finishes]

/-- `finished` after an update: only the execution decides. -/
theorem aStateMachineUpdate_sets {w w' : SmWorld S σ} {s : S} (htr : w.Triggered)
    (hstart : w.sm.started = true) (hfin : w.sm.finished = false) (hcur : w.sm.current = some s)
    (h : aStateMachineUpdate w = .ret w') : w'.sm.finished = true ↔ w.Finishes s := by
  obtain ⟨-, -, htab, -, -, -⟩ := w.execute_spec s
  obtain ⟨refused, taken, -, -, -, hsm, -, -⟩ :=
    SmWorld.tryTransitions_spec (htr s) (w.execute s) s 0 (by rw [htab, List.drop_zero])
  simp only [aStateMachineUpdate, hstart, hfin, hcur, htab] at h
  obtain rfl := Call.ret.inj h
  rw [← SmWorld.execute_finished hfin, hsm]
  cases taken <;> rfl

/-- The one condition of a turn that holds is that of its transition. -/
theorem Turn.condition_mem {d : S → StateDecl S σ} {t : Turn S} {s : S} {i : ℕ}
    (h : StateEvent.condition s i true ∈ t.events d) :
    s = t.state ∧ i = t.refused ∧ t.taken.isSome := by
  simp only [events, List.mem_append, Option.mem_toList, Option.map_eq_some_iff, reduceCtorEq,
    and_false, exists_false, List.mem_map, StateEvent.condition.injEq, Bool.false_eq_true,
    or_self, false_or] at h
  cases ht : t.taken with
  | none =>
    rw [ht] at h
    cases h
  | some toState =>
    rw [ht] at h
    simp only [List.mem_append, List.mem_singleton, StateEvent.condition.injEq, called] at h
    rcases h with (h | h) | h
    · exact ⟨h.1, h.2.1, rfl⟩
    · split at h <;> simp at h
    · split at h <;> simp at h

/-- An update that takes a transition to `defaultFinishState`: it is a turn of the state, and the
machine is then in `defaultFinishState`. -/
theorem SmWorld.TakesFinish.turn {w w' : SmWorld S σ} {s : S} (htr : w.Triggered)
    (hup : aStateMachineUpdate w = .ret w') (h : w.TakesFinish s w') :
    w.sm.started = true ∧ w.sm.finished = false ∧ w.sm.current = some s ∧
      ∃ t, w.Does t w' ∧ w'.sm.current = some w.sm.defaultFinishState := by
  obtain ⟨i, events, htarget, hlog, hmem⟩ := h
  obtain rfl | ⟨hstart, hfin, t, hdoes⟩ := aStateMachineUpdate_cases htr hup
  · rw [List.self_eq_append_right.mp hlog] at hmem
    cases hmem
  · obtain rfl := List.append_cancel_left (hdoes.log.symm.trans hlog)
    obtain ⟨rfl, rfl, htaken⟩ := Turn.condition_mem hmem
    obtain ⟨toState, ht⟩ := Option.isSome_iff_exists.mp htaken
    obtain rfl := Option.some.inj ((hdoes.valid.taken toState ht).symm.trans htarget)
    refine ⟨hstart, hfin, hdoes.state, t, hdoes, ?_⟩
    rw [hdoes.sm, Turn.next, ht]
    rfl

/-- `aStateMachine_Init` gives the default finish state no execution, and no call changes that. -/
theorem finishState_excution [DecidableEq S] {name : String} {fin : S} {d : S → StateDecl S σ}
    {user : σ} {ops : List (SmOp S σ)} {w : SmWorld S σ}
    (h : (aStateMachineInit name fin d user).run ops = .ret w) :
    (w.table w.sm.defaultFinishState).excution = none := by
  have hkeeps := aStateMachine_keeps h
  have hnone : (w.decl fin).excution = none := by
    rw [hkeeps.decl]
    show (declare d fin fin).excution = none
    rw [declare, Function.update_self]
    rfl
  rw [hkeeps.fin]
  exact hnone

/-- In every state that a machine can reach: if an update takes a transition to
`defaultFinishState`, the next update sets `finished` and nothing happens from then on, exactly if
the execution of the state that is left returned `stateFinish`. -/
theorem aStateMachine_finish_iff [DecidableEq S] (name : String) (fin : S)
    (d : S → StateDecl S σ) (user : σ) (ops : List (SmOp S σ)) {w w' : SmWorld S σ} {s : S}
    (h : (aStateMachineInit name fin d user).run ops = .ret w)
    (hup : aStateMachineUpdate w = .ret w') (htakes : w.TakesFinish s w') :
    w'.FinishesNext ↔ w.Finishes s := by
  have hkeeps := aStateMachine_keeps h
  obtain ⟨hstart, hfin, hcur, t, hdoes, hcur'⟩ := htakes.turn hkeeps.triggered hup
  rw [← aStateMachineUpdate_sets hkeeps.triggered hstart hfin hcur hup]
  constructor
  · rintro ⟨w₁, hnext, hfin₁, -⟩
    by_contra hfin'
    have hfin' : w'.sm.finished = false := by rwa [Bool.not_eq_true] at hfin'
    have hstart' : w'.sm.started = true := by
      rw [hdoes.sm]
      exact hstart
    have htr' : w'.Triggered := by
      rw [SmWorld.Triggered, hdoes.table]
      exact hkeeps.triggered
    obtain ⟨f, hf, -⟩ := (aStateMachineUpdate_sets htr' hstart' hfin' hcur' hnext).mp hfin₁
    rw [hdoes.table, finishState_excution h] at hf
    cases hf
  · intro hfin'
    refine ⟨w', aStateMachineUpdate_finished hfin', hfin', fun n => ?_⟩
    exact ⟨w', updates_finished hfin' n, rfl, rfl, rfl⟩

/-- The state `true`, whose execution returns `ret`, and `false`, the default finish state. -/
def endDecl (ret : ℤ) (s : Bool) : StateDecl Bool Unit :=
  { name := "end", excution := if s then some fun _ _ u => (ret, u) else none
    entry := none, exit := none }

/-- The machine has one state and one transition, to `NULL`, and is started. -/
def endOps : List (SmOp Bool Unit) :=
  [.build (.addState true), .build (.addTransition1 (some true) none fun _ u => (true, u)),
    .start true]

theorem aStateMachine_finish_iff_end : ∃ w w',
    (aStateMachineInit "sm" false (endDecl stateFinish) ()).run endOps = .ret w ∧
      aStateMachineUpdate w = .ret w' ∧ w.TakesFinish true w' ∧ w'.FinishesNext := by
  refine ⟨_, _, rfl, rfl, (and_iff_left_of_imp fun htakes => ?_).mpr ⟨0, _, rfl, rfl, by decide⟩⟩
  exact (aStateMachine_finish_iff "sm" false (endDecl stateFinish) () endOps rfl rfl htakes).mpr
    ⟨_, rfl, rfl⟩

/-- The execution returns 0 (`stateNone`) and the transition to `NULL` is taken: no update finishes
the machine. -/
theorem aStateMachine_never_finished : ∃ w w',
    (aStateMachineInit "sm" false (endDecl 0) ()).run endOps = .ret w ∧
      aStateMachineUpdate w = .ret w' ∧ w.TakesFinish true w' ∧ ¬w'.FinishesNext := by
  refine ⟨_, _, rfl, rfl, ⟨0, _, rfl, rfl, by decide⟩, ?_⟩
  rintro ⟨w₁, hnext, hfin, -⟩
  obtain rfl := Call.ret.inj hnext
  cases hfin

end Robot
