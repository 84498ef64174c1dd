import ConstructionRobot.Map.PathFinder
import Mathlib.Algebra.BigOperators.Group.List.Basic
import Mathlib.Algebra.Group.Prod

/-!
# Dead reckoning on the grid (`RobotState.c`)

At each special point `Robot_State_Trigger` takes the next direction of the path, moves `now_state`
to where the robot was expected (`will_state`), and predicts the next point. Behind the `switch`
that predicts, the prediction is overwritten with `(2, 2)`.

* `reckon`: where a list of directions leads. This is what the two states should follow.
* `trigger_dir`, `trigger_finish`: one call, at a direction and at the terminator.
* `triggers_ret`: all calls up to the terminator, by induction.
* `DeadReckons`: the two states follow `reckon` along the whole path. `deadReckons_nil` and
  `deadReckons_one` are the short paths; on a longer one they do not (`DeadReckons.length_le_one`).

Positions are integers: the ones that are looked up are on the map, far from the bounds of `int`.
-/

namespace Robot

namespace Map

/-- `point_t`: the fields `x` and `y`. -/
abbrev Point := ℤ × ℤ

/-- `Robote_State_t`. Of the map, the number of elements in each row: `Robot_State_Trigger` takes
the address of an element and reads none. -/
structure RoboteState where
  table : PathTable ℤ
  map : List ℕ
  nowState : Point
  willState : Point
  deriving DecidableEq, Repr

/-- `map[p.x][p.y]` is an element of the map, or the one behind the last of its row. -/
def OnMap (map : List ℕ) (p : Point) : Prop :=
  0 ≤ p.1 ∧ 0 ≤ p.2 ∧ ∃ row, map[p.1.toNat]? = some row ∧ p.2 ≤ row

instance (map : List ℕ) (p : Point) : Decidable (OnMap map p) :=
  match hrow : map[p.1.toNat]? with
  | some row => decidable_of_iff (0 ≤ p.1 ∧ 0 ≤ p.2 ∧ p.2 ≤ row) (by simp [OnMap, hrow])
  | none => isFalse (by simp [OnMap, hrow])

/-- `&(map[p.x][p.y])`: the row is read and the address is formed. -/
def mapElement (map : List ℕ) (p : Point) : Call Unit :=
  if OnMap map p then .ret () else .fault

/-- `Robot_State_Trigger`; the state after the call, with its result. -/
def robotStateTrigger (s : RoboteState) : Call (ℤ × RoboteState) := do
  let (dir, table) ← pathGetNextDir s.table
  let absDir := UInt8.ofInt dir
  let s := { s with table := table, nowState := s.willState }
  mapElement s.map s.nowState
  if absDir = 0 then pure (1, s)
  else
    let s :=
      match absDir.toNat with
      | 1 => { s with willState := (s.nowState.1 - 1, s.nowState.2) }
      | 2 => { s with willState := (s.nowState.1, s.nowState.2 + 1) }
      | 3 => { s with willState := (s.nowState.1 + 1, s.nowState.2) }
      | 4 => { s with willState := (s.nowState.1, s.nowState.2 - 1) }
      | _ => s
    pure (0, { s with willState := (2, 2) })

/-- `k` calls. -/
def triggers : ℕ → RoboteState → Call RoboteState
  | 0, s => .ret s
  | k + 1, s => do
    let s ← triggers k s
    let (_, s) ← robotStateTrigger s
    pure s

/-! ## Where a path leads -/

/-- The unit step of a direction. -/
def unitStep (dir : ℤ) : Point :=
  if dir = 1 then (-1, 0)
  else if dir = 2 then (0, 1)
  else if dir = 3 then (1, 0)
  else if dir = 4 then (0, -1)
  else 0

/-- The point reached from `start` along `dirs`. -/
def reckon (start : Point) (dirs : List ℤ) : Point := start + (dirs.map unitStep).sum

/-- An element of a path that is not the terminator. -/
def IsDir (dir : ℤ) : Prop := 1 ≤ dir ∧ dir ≤ 4

/-- Along the path, `now_state` is one step behind `will_state`; the call at the terminator returns
1, moves `now_state` to `will_state` and leaves that where it is. -/
structure DeadReckons (dirs : List ℤ) (s : RoboteState) : Prop where
  moves : ∀ k, 1 ≤ k → k ≤ dirs.length → ∃ s', triggers k s = .ret s' ∧
    s'.nowState = reckon s.willState (dirs.take (k - 1)) ∧
    s'.willState = reckon s.willState (dirs.take k)
  finish : ∃ s₁ s₂, triggers dirs.length s = .ret s₁ ∧ robotStateTrigger s₁ = .ret (1, s₂) ∧
    s₂.nowState = s₁.willState ∧ s₂.willState = s₁.willState

variable {start : Point} {dirs rest : List ℤ} {dir : ℤ} {s s' : RoboteState} {k : ℕ}

theorem IsDir.cases (h : IsDir dir) : dir = 1 ∨ dir = 2 ∨ dir = 3 ∨ dir = 4 := by
  unfold IsDir at h
  omega

theorem unitStep_ne_zero (h : IsDir dir) : unitStep dir ≠ 0 := by
  rcases h.cases with rfl | rfl | rfl | rfl
  · decide
  · decide
  · decide
  · decide

@[simp] theorem reckon_nil : reckon start [] = start := by simp [reckon]

theorem reckon_append_one : reckon start (dirs ++ [dir]) = reckon start dirs + unitStep dir := by
  simp [reckon, add_assoc]

/-! ## One call -/

/-- A direction stays a direction as a `uint8_t`. -/
theorem ofInt_ne_zero (h : IsDir dir) : UInt8.ofInt dir ≠ 0 := by
  rcases h.cases with rfl | rfl | rfl | rfl
  · decide
  · decide
  · decide
  · decide

/-- What a call does to the state apart from `will_state`. -/
def RoboteState.moved (s : RoboteState) (will : Point) : RoboteState :=
  { s with
    table := { s.table with index := s.table.index + 1 }
    nowState := s.willState
    willState := will }

/-- A call at a direction: whatever was predicted, `(2, 2)` is left. -/
theorem trigger_dir (hread : s.table.table[s.table.index]? = some dir) (hd : IsDir dir) :
    robotStateTrigger s = if OnMap s.map s.willState then .ret (0, s.moved (2, 2)) else .fault := by
  have h0 := ofInt_ne_zero hd
  unfold robotStateTrigger pathGetNextDir mapElement
  rw [hread]
  by_cases hon : OnMap s.map s.willState
  · simp only [Call.ret_bind, if_pos hon, if_neg h0, Call.pure_eq, Call.ret.injEq]
    split <;> rfl
  · simp only [Call.ret_bind, if_neg hon]
    rfl

/-- The call at the terminator. -/
theorem trigger_finish (hread : s.table.table[s.table.index]? = some 0) :
    robotStateTrigger s =
      if OnMap s.map s.willState then .ret (1, s.moved s.willState) else .fault := by
  unfold robotStateTrigger pathGetNextDir mapElement
  rw [hread]
  by_cases hon : OnMap s.map s.willState
  · simp only [Call.ret_bind, if_pos hon]
    rfl
  · simp only [Call.ret_bind, if_neg hon]
    rfl

/-! ## The calls along a path -/

/-- `s'` is a state that `k` calls lead to from `s`, all of them at a direction. -/
structure Along (s : RoboteState) (k : ℕ) (s' : RoboteState) : Prop where
  table : s'.table = { s.table with index := k }
  map : s'.map = s.map
  will : s'.willState = if k = 0 then s.willState else (2, 2)

theorem triggers_succ : triggers (k + 1) s = .ret s' ↔
    ∃ s₁ r, triggers k s = .ret s₁ ∧ robotStateTrigger s₁ = .ret (r, s') := by
  rw [triggers, Call.bind_eq_ret]
  constructor
  · rintro ⟨s₁, h₁, h⟩
    obtain ⟨⟨r, s₂⟩, h₂, h⟩ := Call.bind_eq_ret.mp h
    cases h
    exact ⟨s₁, r, h₁, h₂⟩
  · rintro ⟨s₁, r, h₁, h₂⟩
    refine ⟨s₁, h₁, ?_⟩
    rw [h₂]
    rfl

section Path

variable {name : String} {x y : ℤ}
  (hd : ∀ d ∈ dirs, IsDir d) (hs : s.table = pathTableInit (dirs ++ 0 :: rest) name x y)

include hs

theorem Along.zero : Along s 0 s := by
  refine ⟨?_, rfl, rfl⟩
  rw [hs]
  rfl

/-- Before the end of the path, the next element is a direction of it. -/
theorem Along.reads_dir (ha : Along s k s') (hk : k < dirs.length) :
    s'.table.table[s'.table.index]? = some (dirs.get ⟨k, hk⟩) := by
  rw [ha.table, hs]
  simp [pathTableInit, List.getElem?_append_left hk]

/-- At the end of the path, it is the terminator. -/
theorem Along.reads_finish (ha : Along s dirs.length s') :
    s'.table.table[s'.table.index]? = some 0 := by
  rw [ha.table, hs]
  simp [pathTableInit]

include hd

/-- One more call, at a direction. -/
theorem Along.step {r : ℤ} {s'' : RoboteState} (ha : Along s k s') (hk : k < dirs.length)
    (h : robotStateTrigger s' = .ret (r, s'')) :
    OnMap s'.map s'.willState ∧ Along s (k + 1) s'' := by
  rw [trigger_dir (ha.reads_dir hs hk) (hd _ (List.get_mem _ _))] at h
  split at h
  · next hon =>
    cases h
    refine ⟨hon, ?_, ha.map, rfl⟩
    simp [RoboteState.moved, ha.table]
  · cases h

/-- All the calls up to one before the end of the path. -/
theorem triggers_ret (hk : k ≤ dirs.length) (h : triggers k s = .ret s') : Along s k s' := by
  induction k generalizing s' with
  | zero =>
    cases h
    exact Along.zero hs
  | succ k ih =>
    obtain ⟨s₁, r, h₁, h₂⟩ := triggers_succ.mp h
    have ha := ih (by omega) h₁
    exact (ha.step hd hs (by omega) h₂).2

/-- From the first call on, the path would have to be at `(2, 2)`. -/
theorem DeadReckons.stuck (h : DeadReckons dirs s) (h1 : 1 ≤ k) (hk : k ≤ dirs.length) :
    reckon s.willState (dirs.take k) = (2, 2) := by
  obtain ⟨s', hrun, -, hwill⟩ := h.moves k h1 hk
  have ha := triggers_ret hd hs hk hrun
  rw [← hwill, ha.will, if_neg (by omega)]

/-- A second direction leaves `(2, 2)`. -/
theorem DeadReckons.length_le_one (h : DeadReckons dirs s) : dirs.length ≤ 1 := by
  by_contra hlen
  have h₁ := h.stuck hd hs (k := 1) le_rfl (by omega)
  have h₂ := h.stuck hd hs (k := 2) (by omega) (by omega)
  have htake : dirs.take 2 = dirs.take 1 ++ [dirs.get ⟨1, by omega⟩] :=
    List.take_succ_eq_append_getElem (by omega)
  rw [htake, reckon_append_one, h₁] at h₂
  apply unitStep_ne_zero (hd _ (List.get_mem dirs ⟨1, by omega⟩))
  exact add_eq_left.mp h₂

/-- The call at the terminator is in order if its point is on the map. -/
theorem triggers_finish (hrun : triggers dirs.length s = .ret s') :
    (∃ s₂, robotStateTrigger s' = .ret (1, s₂) ∧ s₂.nowState = s'.willState ∧
      s₂.willState = s'.willState) ↔ OnMap s.map s'.willState := by
  have ha := triggers_ret hd hs le_rfl hrun
  rw [trigger_finish (ha.reads_finish hs), ha.map]
  by_cases hon : OnMap s.map s'.willState
  · rw [if_pos hon]
    exact ⟨fun _ => hon, fun _ => ⟨_, rfl, rfl, rfl⟩⟩
  · rw [if_neg hon]
    refine ⟨?_, fun h => absurd h hon⟩
    rintro ⟨s₂, h, -⟩
    cases h

end Path

section Short

variable {name : String} {x y : ℤ}

/-- An empty path: the first call is the one at the terminator. -/
theorem deadReckons_nil (hs : s.table = pathTableInit (0 :: rest) name x y) :
    DeadReckons [] s ↔ OnMap s.map s.willState := by
  have hd : ∀ d ∈ ([] : List ℤ), IsDir d := by simp
  rw [← triggers_finish hd hs rfl]
  constructor
  · intro h
    obtain ⟨s₁, s₂, hrun, hend⟩ := h.finish
    cases hrun
    exact ⟨s₂, hend⟩
  · rintro ⟨s₂, hend⟩
    refine ⟨?_, s, s₂, rfl, hend⟩
    intro k h1 hk
    exact absurd hk (by simp; omega)

/-- One direction: the prediction has to be the constant. -/
theorem deadReckons_one (hdir : IsDir dir)
    (hs : s.table = pathTableInit ([dir] ++ 0 :: rest) name x y) :
    DeadReckons [dir] s ↔
      OnMap s.map s.willState ∧ s.willState + unitStep dir = (2, 2) ∧ OnMap s.map (2, 2) := by
  have hd : ∀ d ∈ [dir], IsDir d := by simp [hdir]
  constructor
  · intro h
    obtain ⟨s₁, s₂, hrun, hend⟩ := h.finish
    obtain ⟨s₀, r, h₀, h₁⟩ := triggers_succ.mp hrun
    cases h₀
    obtain ⟨hon, ha⟩ := (Along.zero hs).step hd hs (by simp) h₁
    have hon' := (triggers_finish hd hs hrun).mp ⟨s₂, hend⟩
    rw [ha.will, if_neg (by omega)] at hon'
    have hstuck := h.stuck hd hs (k := 1) le_rfl (by simp)
    refine ⟨hon, ?_, hon'⟩
    simpa [reckon] using hstuck
  · rintro ⟨hon, hlead, hon'⟩
    have hstep := trigger_dir ((Along.zero hs).reads_dir hs (by simp)) hdir
    rw [if_pos hon] at hstep
    have hrun : triggers 1 s = .ret (s.moved (2, 2)) := triggers_succ.mpr ⟨s, 0, rfl, hstep⟩
    obtain ⟨s₂, hend⟩ := (triggers_finish hd hs hrun).mpr hon'
    refine ⟨?_, s.moved (2, 2), s₂, hrun, hend⟩
    intro k h1 hk
    obtain rfl : k = 1 := by simp at hk; omega
    refine ⟨_, hrun, ?_, ?_⟩
    · simp [RoboteState.moved]
    · simp [RoboteState.moved, reckon, hlead]

end Short

/-- The two states follow the path exactly if it is empty, or if it is one direction that leads to
`(2, 2)`, where the code puts `will_state` anyway; and if the points looked up are on the map. -/
theorem deadReckons_iff (dirs rest : List ℤ) (name : String) (x y : ℤ) (s : RoboteState)
    (hd : ∀ d ∈ dirs, IsDir d) (hs : s.table = pathTableInit (dirs ++ 0 :: rest) name x y) :
    DeadReckons dirs s ↔ OnMap s.map s.willState ∧
      (dirs = [] ∨ ∃ d, dirs = [d] ∧ s.willState + unitStep d = (2, 2) ∧ OnMap s.map (2, 2)) := by
  match dirs with
  | [] =>
    rw [deadReckons_nil hs]
    exact ⟨fun hon => ⟨hon, .inl rfl⟩, And.left⟩
  | [d] =>
    rw [deadReckons_one (hd d (by simp)) hs]
    refine and_congr_right fun _ => ⟨fun h => .inr ⟨d, rfl, h⟩, ?_⟩
    rintro (h | ⟨d', h, hlead⟩)
    · cases h
    · cases h
      exact hlead
  | d₁ :: d₂ :: ds =>
    constructor
    · intro h
      have := h.length_le_one hd hs
      simp at this
    · rintro ⟨-, h | ⟨d, h, -⟩⟩
      · cases h
      · cases h

/-- A robot on `map_soduko` (4 rows of 5), expected at `will`, with a path from its beginning. -/
def onSoduko (tableData : List ℤ) (will : Point) : RoboteState where
  table := pathTableInit tableData "" 0 0
  map := [5, 5, 5, 5]
  nowState := (0, 0)
  willState := will

theorem deadReckons_onSoduko : DeadReckons [3] (onSoduko [3, 0] (1, 2)) := by
  refine (deadReckons_iff [3] [] "" 0 0 (onSoduko [3, 0] (1, 2)) ?_ rfl).mpr ⟨by decide, .inr ?_⟩
  · simp [IsDir]
  · exact ⟨3, rfl, by decide, by decide⟩

/-- The path `soduko_back1` from `(1, 1)`: the first direction leads to `(1, 0)`. -/
theorem soduko_back1_overwritten :
    ¬ ∀ (dirs rest : List ℤ) (s : RoboteState), (∀ d ∈ dirs, IsDir d) →
      s.table = pathTableInit (dirs ++ 0 :: rest) "" 0 0 → DeadReckons dirs s := by
  intro h
  have hreckons := h [4, 3] [] (onSoduko [4, 3, 0] (1, 1)) (by simp [IsDir]) rfl
  obtain ⟨s', hrun, -, hwill⟩ := hreckons.moves 1 le_rfl (by decide)
  have hstate : triggers 1 (onSoduko [4, 3, 0] (1, 1)) =
      .ret ((onSoduko [4, 3, 0] (1, 1)).moved (2, 2)) := by decide
  rw [hstate] at hrun
  cases hrun
  exact absurd hwill (by decide)

end Map

end Robot
