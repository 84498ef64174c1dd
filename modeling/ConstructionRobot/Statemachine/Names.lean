import ConstructionRobot.Lib.Names
import ConstructionRobot.Statemachine.Trace

/-!
# Transitions by name (`statemachine.c`)

`aStateMachine_addTransition2`, `3` and `4` take the names of states. `aStateMachine_convert_state`
compares the pointers of the names, not the texts. A name in another place finds nothing, and
nothing (`NULL`) is also what stands for the default finish state.

`N` is the type of the pointers to names; `nameAt s` is the pointer `s->name`, and `text` gives the
text at a pointer.

* `aStateMachine_addTransition_names_iff`: when the functions do what
  `aStateMachine_addTransition1` does with the states of these names.
-/

namespace Robot

variable {S σ N : Type}

section Functions

variable [DecidableEq S] [DecidableEq N]

/-- `aStateMachine_convert_state`. -/
def aStateMachineConvertState (nameAt : S → N) (w : SmWorld S σ) (name : N) : Option S :=
  findName nameAt name w.sm.states

/-- `aStateMachine_addTransition2`. -/
def aStateMachineAddTransition2 (nameAt : S → N) (w : SmWorld S σ) (fromName toName : N)
    (condition : SmFlags S → σ → Bool × σ) : SmWorld S σ :=
  let fromState := aStateMachineConvertState nameAt w fromName
  let toState := aStateMachineConvertState nameAt w toName
  aStateMachineAddTransition1 w fromState toState condition

/-- `aStateMachine_addTransition3`. -/
def aStateMachineAddTransition3 (nameAt : S → N) (w : SmWorld S σ) (fromState : Option S)
    (toName : N) (condition : SmFlags S → σ → Bool × σ) : SmWorld S σ :=
  let toState := aStateMachineConvertState nameAt w toName
  aStateMachineAddTransition1 w fromState toState condition

/-- `aStateMachine_addTransition4`. -/
def aStateMachineAddTransition4 (nameAt : S → N) (w : SmWorld S σ) (fromName : N)
    (toState : Option S) (condition : SmFlags S → σ → Bool × σ) : SmWorld S σ :=
  let fromState := aStateMachineConvertState nameAt w fromName
  aStateMachineAddTransition1 w fromState toState condition

end Functions

/-- The states keep pointers to their names, and no two added states have the same name. -/
structure NamesKept (text : N → String) (nameAt : S → N) (w : SmWorld S σ) : Prop where
  name : ∀ s, text (nameAt s) = (w.decl s).name
  distinct : ∀ s ∈ w.sm.states, ∀ s' ∈ w.sm.states, (w.decl s).name = (w.decl s').name → s = s'

section AddTransition

variable [DecidableEq S] {w : SmWorld S σ} {c : SmFlags S → σ → Bool × σ}

/-- From a state that was not added, or from `NULL`, nothing is added. -/
theorem addTransition1_none {a : Option S} (ha : ∀ s ∈ w.sm.states, a ≠ some s) (b : Option S) :
    aStateMachineAddTransition1 w a b c = w := by
  obtain ⟨s, hs, hmem, -⟩ | ⟨-, heq⟩ := aStateMachineAddTransition1_eq w a b c
  · exact absurd hs (ha s hmem)
  · exact heq

theorem addTransition1_null (b : Option S) : aStateMachineAddTransition1 w none b c = w :=
  addTransition1_none (fun s _ heq => by cases heq) b

/-- From a state that was added, one transition is added. -/
theorem addTransition1_targets {f : S} (hf : f ∈ w.sm.states) (b : Option S) :
    (aStateMachineAddTransition1 w (some f) b c).targets f =
      w.targets f ++ [b.getD w.sm.defaultFinishState] := by
  obtain ⟨s, hs, -, heq⟩ | ⟨hne, -⟩ := aStateMachineAddTransition1_eq w (some f) b c
  · obtain rfl := Option.some.inj hs
    rw [heq]
    simp [SmWorld.targets, AState.targets, aStateAddTransition, transitionInit]
  · exact absurd rfl (hne f hf)

/-- The target decides about the effect. -/
theorem addTransition1_eq_iff {f : S} (hf : f ∈ w.sm.states) (b b' : Option S) :
    aStateMachineAddTransition1 w (some f) b c = aStateMachineAddTransition1 w (some f) b' c ↔
      b.getD w.sm.defaultFinishState = b'.getD w.sm.defaultFinishState := by
  constructor
  · intro h
    have htargets := congrArg (SmWorld.targets · f) h
    simp only [addTransition1_targets hf] at htargets
    exact List.singleton_inj.mp (List.append_cancel_left htargets)
  · intro h
    unfold aStateMachineAddTransition1
    rw [h]

theorem addTransition1_ne {f : S} (hf : f ∈ w.sm.states) (b : Option S) :
    w ≠ aStateMachineAddTransition1 w (some f) b c := by
  intro h
  have htargets := congrArg (SmWorld.targets · f) h
  simp only [addTransition1_targets hf] at htargets
  exact absurd (List.self_eq_append_right.mp htargets) (List.cons_ne_nil _ _)

end AddTransition

section Convert

variable {w : SmWorld S σ} {text : N → String} {nameAt : S → N}

theorem NamesKept.texts (h : NamesKept text nameAt w) :
    TextsDistinct text nameAt w.sm.states := by
  intro s hs s' hs' heq
  rw [h.name, h.name] at heq
  exact h.distinct s hs s' hs' heq

variable [DecidableEq N]

/-- A name that spells that of an added state. -/
theorem convertState_of_text (h : NamesKept text nameAt w) {s : S} (hs : s ∈ w.sm.states) {p : N}
    (hp : text p = (w.decl s).name) :
    aStateMachineConvertState nameAt w p = if p = nameAt s then some s else none :=
  findName_of_text text h.texts hs (hp.trans (h.name s).symm)

theorem convertState_of_unknown (h : NamesKept text nameAt w) {p : N}
    (hp : ∀ s ∈ w.sm.states, text p ≠ (w.decl s).name) :
    aStateMachineConvertState nameAt w p = none := by
  refine findName_of_unknown text fun s hs => ?_
  rw [h.name]
  exact hp s hs

/-- The name of the state that a transition leads to: a name that is not found stands for the
default finish state. -/
theorem convertState_target_iff (h : NamesKept text nameAt w) {g : S} (hg : g ∈ w.sm.states)
    {p : N} (hp : text p = (w.decl g).name) :
    (aStateMachineConvertState nameAt w p).getD w.sm.defaultFinishState =
        (some g).getD w.sm.defaultFinishState ↔
      p = nameAt g ∨ g = w.sm.defaultFinishState := by
  rw [convertState_of_text h hg hp]
  split
  · case isTrue heq => exact iff_of_true rfl (.inl heq)
  · case isFalse hne => exact eq_comm.trans (or_iff_right hne).symm

end Convert

section Names

variable [DecidableEq S] [DecidableEq N] {w : SmWorld S σ} {text : N → String} {nameAt : S → N}
  {c : SmFlags S → σ → Bool × σ}

/-- The name of the state that a transition starts from. -/
theorem addTransition_from_iff (h : NamesKept text nameAt w) {f : S} (hf : f ∈ w.sm.states) {p : N}
    (hp : text p = (w.decl f).name) (b b' : Option S) :
    aStateMachineAddTransition1 w (aStateMachineConvertState nameAt w p) b c =
        aStateMachineAddTransition1 w (some f) b' c ↔
      p = nameAt f ∧ b.getD w.sm.defaultFinishState = b'.getD w.sm.defaultFinishState := by
  rw [convertState_of_text h hf hp]
  split
  · case isTrue heq =>
    rw [addTransition1_eq_iff hf]
    exact (and_iff_right heq).symm
  · case isFalse hne =>
    rw [addTransition1_null]
    exact iff_of_false (addTransition1_ne hf b') fun hand => hne hand.1

/-- For every machine with names that differ as texts, every two names that spell those of added
states `f` and `g`, wherever they are in memory, and all other arguments: the functions do what
`aStateMachine_addTransition1` does with `f` and `g` exactly if the names are the pointers that the
states keep; the second one also if `g` is the default finish state or there is no state to add to.
A name of no added state in the first place changes nothing. -/
theorem aStateMachine_addTransition_names_iff (h : NamesKept text nameAt w) {f g : S}
    (hf : f ∈ w.sm.states) (hg : g ∈ w.sm.states) {fromName toName : N}
    (hfrom : text fromName = (w.decl f).name) (hto : text toName = (w.decl g).name)
    (a b : Option S) (c : SmFlags S → σ → Bool × σ) :
    (aStateMachineAddTransition2 nameAt w fromName toName c =
        aStateMachineAddTransition1 w (some f) (some g) c ↔
      fromName = nameAt f ∧ (toName = nameAt g ∨ g = w.sm.defaultFinishState)) ∧
    (aStateMachineAddTransition3 nameAt w a toName c =
        aStateMachineAddTransition1 w a (some g) c ↔
      toName = nameAt g ∨ g = w.sm.defaultFinishState ∨ ∀ s ∈ w.sm.states, a ≠ some s) ∧
    (aStateMachineAddTransition4 nameAt w fromName b c =
        aStateMachineAddTransition1 w (some f) b c ↔ fromName = nameAt f) ∧
    ∀ p q, (∀ s ∈ w.sm.states, text p ≠ (w.decl s).name) →
      aStateMachineAddTransition2 nameAt w p q c = w ∧
        aStateMachineAddTransition4 nameAt w p b c = w := by
  refine ⟨?_, ?_, ?_, fun p q hp => ?_⟩
  · rw [aStateMachineAddTransition2, addTransition_from_iff h hf hfrom,
      convertState_target_iff h hg hto]
  · rw [aStateMachineAddTransition3]
    by_cases ha : ∃ s ∈ w.sm.states, a = some s
    · obtain ⟨s, hs, rfl⟩ := ha
      rw [addTransition1_eq_iff hs, convertState_target_iff h hg hto]
      refine or_congr_right (or_iff_left fun hnone => ?_).symm
      exact hnone s hs rfl
    · have hnone : ∀ s ∈ w.sm.states, a ≠ some s := fun s hs heq => ha ⟨s, hs, heq⟩
      rw [addTransition1_none hnone, addTransition1_none hnone]
      exact iff_of_true rfl (.inr (.inr hnone))
  · rw [aStateMachineAddTransition4, addTransition_from_iff h hf hfrom]
    exact and_iff_left rfl
  · rw [aStateMachineAddTransition2, aStateMachineAddTransition4, convertState_of_unknown h hp]
    exact ⟨addTransition1_null _, addTransition1_null _⟩

end Names

/-- The states `true`, with the name at 1, and `false`, the default finish state. The text of the
name is also at 2. -/
def goDecl (_ : Bool) : StateDecl Bool Unit :=
  { name := "go", excution := none, entry := none, exit := none }

def goNames (s : Bool) : ℕ := if s then 1 else 0

def goText (p : ℕ) : String := if p = 0 then "finish" else "go"

def goMachine : SmWorld Bool Unit :=
  aStateMachineAddState (aStateMachineInit "sm" false goDecl ()) true

theorem goMachine_named : NamesKept goText goNames goMachine := by
  refine ⟨by decide, ?_⟩
  decide

/-- A condition that always holds. -/
def always (_ : SmFlags Bool) (u : Unit) : Bool × Unit := (true, u)

theorem aStateMachine_addTransition_names_iff_go :
    aStateMachineAddTransition2 goNames goMachine 1 1 always =
      aStateMachineAddTransition1 goMachine (some true) (some true) always :=
  (aStateMachine_addTransition_names_iff goMachine_named (f := true) (g := true) (by decide)
    (by decide) (show goText 1 = _ from rfl) (show goText 1 = _ from rfl) none none always).1.mpr
    ⟨rfl, .inl rfl⟩

/-- The same name in another place: the transition is not added. -/
theorem aStateMachine_addTransition2_copy : NamesKept goText goNames goMachine ∧
    goText 2 = (goMachine.decl true).name ∧
    aStateMachineAddTransition2 goNames goMachine 2 2 always = goMachine ∧
    aStateMachineAddTransition2 goNames goMachine 2 2 always ≠
      aStateMachineAddTransition1 goMachine (some true) (some true) always := by
  have hnone : aStateMachineAddTransition2 goNames goMachine 2 2 always = goMachine := by
    have hfind : aStateMachineConvertState goNames goMachine 2 = none := by decide
    rw [aStateMachineAddTransition2, hfind]
    exact addTransition1_null _
  refine ⟨goMachine_named, rfl, hnone, ?_⟩
  rw [hnone]
  exact addTransition1_ne (by decide) _

end Robot
