import Mathlib.Logic.Function.Basic
import ConstructionRobot.Lib.Call
import ConstructionRobot.Lib.Trace

/-!
# The state machine (`statemachine.c`, `statemachine.h`)

`S` is the type of pointers to an `aState`, `σ` that of everything the callbacks keep outside of the
machine. A callback may read the flags of the machine and may read and change its own data; it
changes neither the machine nor a transition. The vectors of states and transitions are lists:
they are only pushed to and read by index (`cvectorPushback_spec`, `cvectorAt_spec`), and the
allocations succeed.

Each call of a callback is recorded in `log`. The setting is `ASTATE_AUTO_START = 0`.

* `aStateMachineUpdate_spec`: one update is a `Turn`: an execution, refused conditions, at most one
  transition. `Replays`: what its callbacks return is what they return for the flags that they see
  and the data that the callbacks before them left.
* `aStateMachineStart_spec`, `aStateMachineRestart_spec`: the two ways into a first state.
-/

namespace Robot

def stateFinish : ℤ := 2

/-- The fields of `aStateMachine` that change after it is built. A null pointer is `none`. -/
structure SmFlags (S : Type) where
  current : Option S
  previous : Option S
  started : Bool
  finished : Bool
  deriving DecidableEq, Repr

/-- A callback `int (*)(aState*)`. -/
abbrev StateFn (S σ : Type) := S → SmFlags S → σ → ℤ × σ

structure Transition (S σ : Type) where
  trigger : Bool
  toState : S
  condition : SmFlags S → σ → Bool × σ

/-- What `aState_Init` gets for a state. -/
structure StateDecl (S σ : Type) where
  name : String
  excution : Option (StateFn S σ)
  entry : Option (StateFn S σ)
  exit : Option (StateFn S σ)

structure AState (S σ : Type) extends StateDecl S σ where
  transitions : List (Transition S σ)

structure AStateMachine (S : Type) extends SmFlags S where
  name : String
  states : List S
  defaultFinishState : S
  deriving DecidableEq, Repr

/-- A call of a callback: a condition with its place in the list of its state. -/
inductive StateEvent (S : Type) where
  | entry (s : S)
  | excution (s : S) (ret : ℤ)
  | condition (s : S) (i : ℕ) (res : Bool)
  | exit (s : S)
  deriving DecidableEq, Repr

/-- The machine, the states, the data of the callbacks and the calls so far. -/
structure SmWorld (S σ : Type) where
  sm : AStateMachine S
  table : S → AState S σ
  user : σ
  log : List (StateEvent S)

variable {S σ : Type}

def transitionInit (toState : S) (condition : SmFlags S → σ → Bool × σ) : Transition S σ :=
  { trigger := true, toState := toState, condition := condition }

def aStateInit (d : StateDecl S σ) : AState S σ := { d with transitions := [] }

def aStateAddTransition (a : AState S σ) (t : Transition S σ) : AState S σ :=
  { a with transitions := a.transitions ++ [t] }

/-- The declaration of `defaultFinishState`. -/
def finishDecl : StateDecl S σ := { name := "finish", excution := none, entry := none, exit := none }

/-- The flags that `aStateMachine_Init` sets. -/
def initFlags : SmFlags S :=
  { current := none, previous := none, started := false, finished := false }

def aStateMachineAddState (w : SmWorld S σ) (s : S) : SmWorld S σ :=
  { w with sm := { w.sm with states := w.sm.states ++ [s] } }

def aStateMachineFinish (sm : AStateMachine S) : AStateMachine S := { sm with finished := true }

section Build

variable [DecidableEq S]

/-- All states after their declarations; `defaultFinishState` has its own. -/
def declare (d : S → StateDecl S σ) (fin : S) : S → StateDecl S σ :=
  Function.update d fin finishDecl

/-- `aStateMachine_Init` of a machine whose field `defaultFinishState` is at `fin`, with the states
after `aState_Init`. -/
def aStateMachineInit (name : String) (fin : S) (d : S → StateDecl S σ) (user : σ) :
    SmWorld S σ :=
  { sm := { initFlags with name := name, states := [], defaultFinishState := fin }
    table := fun s => aStateInit (declare d fin s)
    user := user
    log := [] }

/-- `aStateMachine_addTransition1`: from a state that was not added there is only a message. -/
def aStateMachineAddTransition1 (w : SmWorld S σ) (fromState toState : Option S)
    (condition : SmFlags S → σ → Bool × σ) : SmWorld S σ :=
  let toState := toState.getD w.sm.defaultFinishState
  match w.sm.states.find? (fun s => some s = fromState) with
  | some s =>
    let t := transitionInit toState condition
    { w with table := Function.update w.table s (aStateAddTransition (w.table s) t) }
  | none => w

end Build

/-- The callback `f` of state `s`, if there is one: what it returns, and the world after it. -/
def SmWorld.call (w : SmWorld S σ) (f : Option (StateFn S σ)) (s : S)
    (event : ℤ → StateEvent S) : Option ℤ × SmWorld S σ :=
  match f with
  | none => (none, w)
  | some f =>
    let (ret, user) := f s w.sm.toSmFlags w.user
    (some ret, { w with user := user, log := w.log ++ [event ret] })

def aStateMachineStart (w : SmWorld S σ) (s : S) : SmWorld S σ :=
  if w.sm.started then w
  else
    let w := { w with sm := { w.sm with started := true, current := some s, previous := none } }
    (w.call (w.table s).entry s fun _ => .entry s).2

def aStateMachineRestart (w : SmWorld S σ) (s : S) : SmWorld S σ :=
  let w := { w with sm := { w.sm with
    started := false, finished := false, current := some s, previous := none } }
  (w.call (w.table s).entry s fun _ => .entry s).2

/-- The end of the loop of `aStateMachine_update`: the transition from `s` to `toState`. -/
def SmWorld.take (w : SmWorld S σ) (s toState : S) : SmWorld S σ :=
  let w := (w.call (w.table s).exit s fun _ => .exit s).2
  let w := { w with sm := { w.sm with previous := some s, current := some toState } }
  (w.call (w.table toState).entry toState fun _ => .entry toState).2

/-- The loop of `aStateMachine_update` over the transitions of the state `s`, from the one at
`i`. -/
def SmWorld.tryTransitions (w : SmWorld S σ) (s : S) (i : ℕ) : List (Transition S σ) → SmWorld S σ
  | [] => w
  | t :: ts =>
    if t.trigger then
      let (res, user) := t.condition w.sm.toSmFlags w.user
      let w := { w with user := user, log := w.log ++ [StateEvent.condition s i res] }
      if res then w.take s t.toState else w.tryTransitions s (i + 1) ts
    else w.tryTransitions s (i + 1) ts

/-- The start of `aStateMachine_update`, up to the loop. -/
def SmWorld.execute (w : SmWorld S σ) (s : S) : SmWorld S σ :=
  match w.call (w.table s).excution s fun ret => .excution s ret with
  | (some ret, w) => if ret = stateFinish then { w with sm := aStateMachineFinish w.sm } else w
  | (none, w) => w

def aStateMachineUpdate (w : SmWorld S σ) : Call (SmWorld S σ) :=
  if !w.sm.started then pure w
  else if w.sm.finished then pure w
  else
    match w.sm.current with
    | some s =>
      let w := w.execute s
      pure (w.tryTransitions s 0 (w.table s).transitions)
    | none =>
      if w.sm.started = false then
        match w.sm.states with
        | s :: _ => pure (aStateMachineStart w s)
        | [] => .fault
      else pure w

def updates (w : SmWorld S σ) : ℕ → Call (SmWorld S σ)
  | 0 => pure w
  | n + 1 => do
    let w ← updates w n
    aStateMachineUpdate w

/-! ## Turns -/

/-- The event of a callback that may be null. -/
def called (f : Option (StateFn S σ)) (e : StateEvent S) : List (StateEvent S) :=
  if f.isSome then [e] else []

/-- What an update of a running machine does: the state, what its execution returns, how many
conditions refuse, and the state that is entered. -/
structure Turn (S : Type) where
  state : S
  ret : Option ℤ
  refused : ℕ
  taken : Option S
  deriving DecidableEq, Repr

/-- The callbacks of a turn, in order. -/
def Turn.events (d : S → StateDecl S σ) (t : Turn S) : List (StateEvent S) :=
  (t.ret.map (StateEvent.excution t.state)).toList ++
  (List.range t.refused).map (fun i => .condition t.state i false) ++
  match t.taken with
  | none => []
  | some toState =>
    [.condition t.state t.refused true] ++ called (d t.state).exit (.exit t.state) ++
      called (d toState).entry (.entry toState)

/-- The callbacks behind the execution, with the flags that each of them sees: those from the
condition at `i` on, of which `refused` return false, and those of the transition that is taken. -/
def askCalls (d : S → StateDecl S σ) (fl : SmFlags S) (s : S) (i refused : ℕ) (taken : Option S) :
    List (SmFlags S × StateEvent S) :=
  (List.range refused).map (fun j => (fl, .condition s (i + j) false)) ++
  match taken with
  | none => []
  | some toState =>
    [(fl, .condition s (i + refused) true)] ++ (called (d s).exit (.exit s)).map (fl, ·) ++
      (called (d toState).entry (.entry toState)).map
        ({ fl with previous := some s, current := some toState }, ·)

/-- A condition at `i` that refuses, before those from `i + 1` on. -/
theorem askCalls_succ (d : S → StateDecl S σ) (fl : SmFlags S) (s : S) (i refused : ℕ)
    (taken : Option S) : askCalls d fl s i (refused + 1) taken =
      (fl, .condition s i false) :: askCalls d fl s (i + 1) refused taken := by
  unfold askCalls
  rw [List.range_succ_eq_map, List.map_cons, List.map_map, List.cons_append]
  simp only [Nat.add_zero, Function.comp_def, Nat.succ_eq_add_one, ← Nat.add_assoc,
    Nat.add_right_comm i]

/-- The callbacks of a turn that starts with the flags `fl`, with the flags that each of them sees:
an execution that returns `stateFinish` has set `finished` for the ones behind it. -/
def Turn.calls (d : S → StateDecl S σ) (fl : SmFlags S) (t : Turn S) :
    List (SmFlags S × StateEvent S) :=
  (t.ret.map fun ret => (fl, StateEvent.excution t.state ret)).toList ++
    askCalls d { fl with finished := decide (t.ret = some stateFinish) } t.state 0 t.refused t.taken

theorem Turn.calls_events (d : S → StateDecl S σ) (fl : SmFlags S) (t : Turn S) :
    (t.calls d fl).map Prod.snd = t.events d := by
  unfold calls askCalls events
  cases t.taken <;> cases t.ret <;> simp [Function.comp_def]

/-- The callback of the event, called with the flags `fl` and the data `u`, returns what the event
says and leaves the data `u'`. -/
def StateEvent.Runs (a : S → AState S σ) (fl : SmFlags S) (u u' : σ) : StateEvent S → Prop
  | entry s => ∃ f, (a s).entry = some f ∧ (f s fl u).2 = u'
  | excution s ret => ∃ f, (a s).excution = some f ∧ f s fl u = (ret, u')
  | condition s i res => ∃ t, (a s).transitions[i]? = some t ∧ t.condition fl u = (res, u')
  | exit s => ∃ f, (a s).exit = some f ∧ (f s fl u).2 = u'

/-- The callbacks one after the other, each with the data that the one before it left. -/
def Replays (a : S → AState S σ) (u : σ) : List (SmFlags S × StateEvent S) → σ → Prop
  | [], u' => u = u'
  | (fl, e) :: cs, u' => ∃ u₁, e.Runs a fl u u₁ ∧ Replays a u₁ cs u'

theorem Replays.append {a : S → AState S σ} {u v u' : σ} {cs ds : List (SmFlags S × StateEvent S)}
    (hc : Replays a u cs v) (hd : Replays a v ds u') : Replays a u (cs ++ ds) u' := by
  induction cs generalizing u with
  | nil => exact (show u = v from hc) ▸ hd
  | cons c cs ih =>
    obtain ⟨u₁, he, hrest⟩ := hc
    exact ⟨u₁, he, ih hrest⟩

/-- The state after a turn. -/
def Turn.next (t : Turn S) : S := t.taken.getD t.state

/-- The turn is one of a machine with these declarations and, for each state, these states to go
to: all conditions refuse, or those before the one that is taken. -/
structure Turn.Valid (d : S → StateDecl S σ) (targets : S → List S) (t : Turn S) : Prop where
  ret : t.ret.isSome = (d t.state).excution.isSome
  refused : t.taken = none → t.refused = (targets t.state).length
  taken : ∀ toState, t.taken = some toState → (targets t.state)[t.refused]? = some toState

/-- The state of the last turn with a transition. -/
def lastExited (ts : List (Turn S)) : Option S :=
  (ts.findRev? fun t => t.taken.isSome).map (·.state)

@[simp] theorem lastExited_nil : lastExited ([] : List (Turn S)) = none := rfl

theorem lastExited_concat (ts : List (Turn S)) (t : Turn S) :
    lastExited (ts ++ [t]) = if t.taken.isSome then some t.state else lastExited ts := by
  rw [lastExited, findRev?_concat]
  cases t.taken.isSome <;> rfl

/-! ## One update -/

section Call

variable (w : SmWorld S σ) (f : Option (StateFn S σ)) (s : S) (event : ℤ → StateEvent S)

@[simp] theorem SmWorld.call_sm : (w.call f s event).2.sm = w.sm := by cases f <;> rfl

@[simp] theorem SmWorld.call_table : (w.call f s event).2.table = w.table := by cases f <;> rfl

@[simp] theorem SmWorld.call_log (e : StateEvent S) :
    (w.call f s fun _ => e).2.log = w.log ++ called f e := by
  cases f with
  | none => exact (List.append_nil _).symm
  | some f => rfl

/-- A callback that is there runs, and one that is not there leaves the data. -/
theorem SmWorld.call_replays {a : S → AState S σ} {e : StateEvent S}
    (he : ∀ g u', f = some g → (g s w.sm.toSmFlags w.user).2 = u' →
      e.Runs a w.sm.toSmFlags w.user u') :
    Replays a w.user ((called f e).map (w.sm.toSmFlags, ·)) (w.call f s fun _ => e).2.user := by
  cases f with
  | none => rfl
  | some g => exact ⟨_, he g _ rfl rfl, rfl⟩

end Call

/-- The states that the transitions lead to. -/
def AState.targets (a : AState S σ) : List S := a.transitions.map (·.toState)

/-- The machine after the transition from `s`. -/
def AStateMachine.enter (sm : AStateMachine S) (s : S) (taken : Option S) : AStateMachine S :=
  match taken with
  | none => sm
  | some toState => { sm with previous := some s, current := some toState }

section Take

variable (w : SmWorld S σ) (s toState : S)

@[simp] theorem SmWorld.take_sm : (w.take s toState).sm = w.sm.enter s (some toState) := by
  simp [SmWorld.take, AStateMachine.enter]

@[simp] theorem SmWorld.take_table : (w.take s toState).table = w.table := by
  simp [SmWorld.take]

theorem SmWorld.take_log : (w.take s toState).log =
    w.log ++ called (w.table s).exit (.exit s) ++
      called (w.table toState).entry (.entry toState) := by
  simp [SmWorld.take]

theorem SmWorld.take_replays :
    Replays w.table w.user
      ((called (w.table s).exit (.exit s)).map (w.sm.toSmFlags, ·) ++
        (called (w.table toState).entry (.entry toState)).map
          ({ w.sm.toSmFlags with previous := some s, current := some toState }, ·))
      (w.take s toState).user := by
  have hexit := w.call_replays (w.table s).exit s (a := w.table) (e := .exit s)
    fun g u' hg hu => ⟨g, hg, hu⟩
  refine hexit.append ?_
  unfold take
  simp only [call_sm, call_table]
  generalize (w.call (w.table s).exit s fun _ => .exit s).2 = w₁
  exact call_replays
    { w with
      sm := { w.sm with previous := some s, current := some toState }
      user := w₁.user, log := w₁.log }
    (w.table toState).entry toState (a := w.table) (e := .entry toState)
    fun g u' hg hu => ⟨g, hg, hu⟩

end Take

/-- The loop over the transitions from the one at `i` on: conditions that refuse, and the transition
behind them. -/
theorem SmWorld.tryTransitions_spec {ts : List (Transition S σ)} (htr : ∀ t ∈ ts, t.trigger = true)
    (w : SmWorld S σ) (s : S) (i : ℕ) (hts : (w.table s).transitions.drop i = ts) :
    ∃ (refused : ℕ) (taken : Option S),
      (taken = none → refused = ts.length) ∧
      (∀ toState, taken = some toState → (ts.map (·.toState))[refused]? = some toState) ∧
      (w.tryTransitions s i ts).table = w.table ∧
      (w.tryTransitions s i ts).sm = w.sm.enter s taken ∧
      (w.tryTransitions s i ts).log = w.log ++
        (askCalls (fun s => (w.table s).toStateDecl) w.sm.toSmFlags s i refused taken).map Prod.snd ∧
      Replays w.table w.user
        (askCalls (fun s => (w.table s).toStateDecl) w.sm.toSmFlags s i refused taken)
        (w.tryTransitions s i ts).user := by
  induction ts generalizing w i with
  | nil => exact ⟨0, none, by simp, by simp, rfl, rfl, by simp [tryTransitions, askCalls], rfl⟩
  | cons t ts ih =>
    have ht : t.trigger = true := htr t (by simp)
    have hget : (w.table s).transitions[i]? = some t := by
      rw [← List.head?_drop, hts, List.head?_cons]
    cases hres : (t.condition w.sm.toSmFlags w.user).1 with
    | true =>
      have hcond : t.condition w.sm.toSmFlags w.user =
          (true, (t.condition w.sm.toSmFlags w.user).2) := Prod.ext hres rfl
      let w₁ : SmWorld S σ :=
        { w with
          user := (t.condition w.sm.toSmFlags w.user).2
          log := w.log ++ [StateEvent.condition s i true] }
      have hw : w.tryTransitions s i (t :: ts) = w₁.take s t.toState := by
        simp [tryTransitions, ht, hres, w₁]
      rw [hw]
      refine ⟨0, some t.toState, by simp, by simp, by simp [w₁], by simp [w₁], ?_, ?_⟩
      · simp [take_log, askCalls, w₁, Function.comp_def]
      · exact ⟨_, ⟨t, hget, hcond⟩, w₁.take_replays s t.toState⟩
    | false =>
      have hcond : t.condition w.sm.toSmFlags w.user =
          (false, (t.condition w.sm.toSmFlags w.user).2) := Prod.ext hres rfl
      let w₁ : SmWorld S σ :=
        { w with
          user := (t.condition w.sm.toSmFlags w.user).2
          log := w.log ++ [StateEvent.condition s i false] }
      have hw : w.tryTransitions s i (t :: ts) = w₁.tryTransitions s (i + 1) ts := by
        simp [tryTransitions, ht, hres, w₁]
      have hdrop : (w₁.table s).transitions.drop (i + 1) = ts := by
        rw [← List.tail_drop, hts, List.tail_cons]
      obtain ⟨refused, taken, hnone, hsome, htab, hsm, hlog, hrun⟩ :=
        ih (fun t ht => htr t (List.mem_cons_of_mem _ ht)) w₁ (i + 1) hdrop
      rw [hw]
      refine ⟨refused + 1, taken, by simpa using hnone, by simpa using hsome, htab, hsm, ?_, ?_⟩
      · rw [askCalls_succ, hlog, List.map_cons, ← List.singleton_append, ← List.append_assoc]
      · rw [askCalls_succ]
        exact ⟨_, ⟨t, hget, hcond⟩, hrun⟩

/-- The execution is called and decides about `finished`. -/
theorem SmWorld.execute_spec (w : SmWorld S σ) (s : S) :
    ∃ ret : Option ℤ, ret.isSome = (w.table s).excution.isSome ∧
      (w.execute s).table = w.table ∧
      (w.execute s).sm =
        { w.sm with finished := w.sm.finished || decide (ret = some stateFinish) } ∧
      (w.execute s).log = w.log ++ (ret.map (StateEvent.excution s)).toList ∧
      Replays w.table w.user
        (ret.map fun ret => (w.sm.toSmFlags, StateEvent.excution s ret)).toList
        (w.execute s).user := by
  cases hf : (w.table s).excution with
  | none => exact ⟨none, rfl, by simp [execute, call, hf, Replays]⟩
  | some f =>
    refine ⟨some (f s w.sm.toSmFlags w.user).1, rfl, ?_⟩
    have hrun : Replays w.table w.user
        [(w.sm.toSmFlags, .excution s (f s w.sm.toSmFlags w.user).1)]
        (f s w.sm.toSmFlags w.user).2 := ⟨_, ⟨f, hf, rfl⟩, rfl⟩
    by_cases hret : (f s w.sm.toSmFlags w.user).1 = stateFinish
    · rw [hret] at hrun
      simp [execute, call, hf, hret, aStateMachineFinish, hrun]
    · simp [execute, call, hf, hret, hrun]

/-- All transitions are triggered. -/
def SmWorld.Triggered (w : SmWorld S σ) : Prop :=
  ∀ s, ∀ t ∈ (w.table s).transitions, t.trigger = true

/-- The declarations of the states. -/
def SmWorld.decl (w : SmWorld S σ) (s : S) : StateDecl S σ := (w.table s).toStateDecl

/-- The states that the transitions of each state lead to. -/
def SmWorld.targets (w : SmWorld S σ) (s : S) : List S := (w.table s).targets

/-- What the turn `t` makes of the world `w`. -/
structure SmWorld.Does (w : SmWorld S σ) (t : Turn S) (w' : SmWorld S σ) : Prop where
  valid : t.Valid w.decl w.targets
  state : w.sm.current = some t.state
  table : w'.table = w.table
  sm : w'.sm = { w.sm with
    finished := decide (t.ret = some stateFinish)
    current := some t.next
    previous := if t.taken.isSome then some t.state else w.sm.previous }
  log : w'.log = w.log ++ t.events w.decl
  calls : Replays w.table w.user (t.calls w.decl w.sm.toSmFlags) w'.user

/-- An update of a running machine is a turn. -/
theorem aStateMachineUpdate_spec {w : SmWorld S σ} {s : S} (htr : w.Triggered)
    (hstart : w.sm.started = true) (hfin : w.sm.finished = false) (hcur : w.sm.current = some s) :
    ∃ (t : Turn S) (w' : SmWorld S σ), aStateMachineUpdate w = .ret w' ∧ w.Does t w' := by
  obtain ⟨ret, hret, htab₁, hsm₁, hlog₁, hrun₁⟩ := w.execute_spec s
  have hts : ((w.execute s).table s).transitions.drop 0 = (w.table s).transitions := by
    rw [htab₁, List.drop_zero]
  obtain ⟨refused, taken, hnone, hsome, htab₂, hsm₂, hlog₂, hrun₂⟩ :=
    SmWorld.tryTransitions_spec (htr s) (w.execute s) s 0 hts
  have hflags : (w.execute s).sm.toSmFlags =
      { w.sm.toSmFlags with finished := decide (ret = some stateFinish) } := by
    rw [hsm₁, hfin, Bool.false_or]
  rw [htab₁, hflags] at hlog₂ hrun₂
  refine ⟨⟨s, ret, refused, taken⟩, (w.execute s).tryTransitions s 0 (w.table s).transitions,
    by simp [aStateMachineUpdate, hstart, hfin, hcur, htab₁], ?_⟩
  refine ⟨⟨hret, ?_, hsome⟩, hcur, htab₂.trans htab₁, ?_, ?_, hrun₁.append hrun₂⟩
  · intro h
    rw [hnone h]
    exact (List.length_map _).symm
  · rw [hsm₂, hsm₁, hfin, Bool.false_or]
    cases taken with
    | none => simp [AStateMachine.enter, Turn.next, hcur]
    | some toState => simp [AStateMachine.enter, Turn.next]
  · rw [← Turn.calls_events w.decl w.sm.toSmFlags, Turn.calls, List.map_append, ← List.append_assoc,
      hlog₂, hlog₁]
    congr 2
    cases ret <;> rfl

/-- A finished machine stays as it is. -/
theorem aStateMachineUpdate_finished {w : SmWorld S σ} (hfin : w.sm.finished = true) :
    aStateMachineUpdate w = .ret w := by
  cases hstart : w.sm.started <;> simp [aStateMachineUpdate, hstart, hfin]

/-- A machine that was not started stays as it is. -/
theorem aStateMachineUpdate_stopped {w : SmWorld S σ} (hstart : w.sm.started = false) :
    aStateMachineUpdate w = .ret w := by
  simp [aStateMachineUpdate, hstart]

/-- `aStateMachine_start` of a machine that was not started. -/
theorem aStateMachineStart_spec {w : SmWorld S σ} (h : w.sm.started = false) (s : S) :
    (aStateMachineStart w s).table = w.table ∧
    (aStateMachineStart w s).sm =
      { w.sm with started := true, current := some s, previous := none } ∧
    (aStateMachineStart w s).log = w.log ++ called (w.decl s).entry (.entry s) := by
  simp [aStateMachineStart, h, SmWorld.decl]

/-- Its callback. -/
theorem aStateMachineStart_replays {w : SmWorld S σ} (h : w.sm.started = false) (s : S) :
    Replays w.table w.user
      ((called (w.decl s).entry (.entry s)).map
        ({ w.sm.toSmFlags with started := true, current := some s, previous := none }, ·))
      (aStateMachineStart w s).user := by
  unfold aStateMachineStart
  rw [h]
  exact SmWorld.call_replays
    { w with sm := { w.sm with started := true, current := some s, previous := none } }
    (w.table s).entry s fun g u' hg hu => ⟨g, hg, hu⟩

/-- `aStateMachine_restart` of any machine. -/
theorem aStateMachineRestart_spec (w : SmWorld S σ) (s : S) :
    (aStateMachineRestart w s).table = w.table ∧
    (aStateMachineRestart w s).sm =
      { w.sm with started := false, finished := false, current := some s, previous := none } ∧
    (aStateMachineRestart w s).log = w.log ++ called (w.decl s).entry (.entry s) := by
  simp [aStateMachineRestart, SmWorld.decl]

end Robot
