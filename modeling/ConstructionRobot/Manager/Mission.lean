import ConstructionRobot.Manager.Basic
import Mathlib.Data.List.Infix

/-!
# The mission of the robot manager (`robotmanager.c`)

The directions that `Path_get_next_dir` gives and the actions of `turn_actions`, over all runs of
the system.

* `Plan`: what decides about the directions and actions. All of it is used by the manager thread
  only, so the steps of a plan (`Plan.step`) do not depend on the other threads, on the outcome of
  the moves or on the colours. `plan_step`: every step of the system is a step of the plan, or does
  not touch it.
* `mission_prefix`: directions and actions of a run are a prefix of `mission`; no table is read
  outside.
-/

namespace Robot

variable {F : Type}

/-- What is shown of a mission: a direction, a read outside a table, an action, or the end of
`take_action`. -/
inductive Leg where
  | dir (dir : Dir)
  | outside
  | act (a : Act)
  | taken
  deriving DecidableEq, Repr

/-- The part of a mission that a step shows. -/
def RbmgObs.leg : RbmgObs F → Option Leg
  | .dir d => some (.dir d)
  | .outside => some .outside
  | .act a => some (.act a)
  | .ended .take => some .taken
  | _ => none

/-- The mission. -/
def mission : List Leg :=
  [.dir .forward, .dir .forward, .act .take] ++
  (List.replicate 8 [.dir .right, .act .put, .dir .right, .act .take]).flatten ++
  [.dir .right, .act .put, .dir .left, .act .approach]

/-- An action, with the mark `END` of the table for which `turn_actions` executes it. -/
def Leg.marked : Leg → List Leg
  | .act a => [.dir .finish, .act a]
  | leg => [leg]

/-- A direction, not the mark `END`, or an action. -/
def Leg.isCourse : Leg → Bool
  | .dir .finish => false
  | .taken => false
  | _ => true

/-! ## The plan -/

/-- The commands that a plan depends on. -/
def TurnCmd.isKey : TurnCmd → Bool
  | .act _ | .takeEnd | .switchTable _ | .finished => true
  | _ => false

/-- What decides about the directions and actions. -/
structure Plan where
  keys : List TurnCmd
  thisTable : TableId
  tables : Tables
  takeCnt : UInt8
  deriving DecidableEq, Repr

/-- The plan of a state. -/
def RbmgState.plan (s : RbmgState F) : Plan where
  keys := s.calls.filter TurnCmd.isKey
  thisTable := s.thisTable
  tables := s.tables
  takeCnt := s.takeCnt

/-- The next step of a plan. -/
def Plan.step (p : Plan) : Plan × List Leg :=
  match p.keys with
  | [] =>
    match pathGetNextDir (p.tables.get p.thisTable) with
    | .ret (dir, table) =>
      ({ p with
          keys := (turnActions p.thisTable dir).filter TurnCmd.isKey
          tables := p.tables.set p.thisTable table }, [.dir dir])
    | _ => (p, [.outside])
  | .act a :: ks =>
    ({ p with keys := (actBody p.takeCnt a).filter TurnCmd.isKey ++ ks }, [.act a])
  | .takeEnd :: ks => ({ p with keys := ks, takeCnt := p.takeCnt + 1 }, [.taken])
  | .switchTable .take :: ks =>
    ({ p with keys := ks, tables := p.tables.reset .put, thisTable := .put }, [])
  | .switchTable .put :: ks =>
    ({ p with
        keys := ks
        tables := p.tables.reset .take
        thisTable := if p.takeCnt < 10 then .take else .back }, [])
  | .switchTable .approach :: ks =>
    ({ p with keys := ks, tables := p.tables.reset .back, thisTable := .put }, [])
  | _ => (p, [])

/-- The plan after `rbmg_init`. -/
def Plan.start : Plan where
  keys := []
  thisTable := .init
  tables := Tables.start
  takeCnt := 1

/-! ## The mission of the plan -/

/-- The number of steps until the plan is in the `while(1)` after the last move. -/
def missionSteps : ℕ := 86

theorem Plan.start_stops : (iterLog Plan.step Plan.start missionSteps).1.step =
    ((iterLog Plan.step Plan.start missionSteps).1, []) := by decide +kernel

theorem Plan.start_course :
    (iterLog Plan.step Plan.start missionSteps).2.filter Leg.isCourse = mission := by
  decide +kernel

theorem Plan.start_marked : (iterLog Plan.step Plan.start missionSteps).2.filter (· ≠ .taken) =
    mission.flatMap Leg.marked := by decide +kernel

theorem Plan.start_taken :
    (iterLog Plan.step Plan.start missionSteps).2.count .taken = 9 := by decide +kernel

theorem Plan.step_takeCnt (p : Plan) :
    p.step.1.takeCnt = p.takeCnt + UInt8.ofNat (p.step.2.count .taken) := by
  unfold Plan.step
  split
  · split <;> simp
  all_goals simp

/-- `take_cnt` counts the ends of `take_action`, in 8 bits. -/
theorem Plan.iterLog_takeCnt (k : ℕ) : (iterLog Plan.step Plan.start k).1.takeCnt =
    1 + UInt8.ofNat ((iterLog Plan.step Plan.start k).2.count .taken) := by
  refine iterLog_inv (P := fun (p : Plan) (legs : List Leg) =>
    p.takeCnt = 1 + UInt8.ofNat (legs.count .taken)) rfl ?_ k
  intro p legs h
  rw [p.step_takeCnt, h, List.count_append, UInt8.ofNat_add, UInt8.add_assoc]

/-! ## The steps of the system -/

variable {fl : FloatOps F} {s s₁ : RbmgState F} {l₁ : List (RbmgObs F)}

/-- The plan is the one of `s`, and nothing of it is shown. -/
def Untouched (s : RbmgState F) (r : RbmgState F × List (RbmgObs F)) : Prop :=
  (r.1.plan, r.2.filterMap RbmgObs.leg) = (s.plan, [])

/-- The plan makes a step. -/
def Advances (s : RbmgState F) (r : RbmgState F × List (RbmgObs F)) : Prop :=
  (r.1.plan, r.2.filterMap RbmgObs.leg) = s.plan.step

theorem AllMoves.filter_isKey {cs : List TurnCmd} (h : AllMoves cs) :
    cs.filter TurnCmd.isKey = [] := by
  rw [List.filter_eq_nil_iff]
  intro c hc
  obtain ⟨d, rfl⟩ := h c hc
  simp [TurnCmd.isKey]

theorem actionRelativeMovementCar_untouched (nowpos : ChassisPos F) (s : RbmgState F)
    (pc : MovePc) : Untouched s (actionRelativeMovementCar fl nowpos s pc) := by
  cases pc <;> rfl

theorem count_plan (s : RbmgState F) (c : ColorType) : Untouched s (s.count c) := by
  cases c <;> rfl

/-- The plan of a state whose next command is no key. -/
theorem plan_of_not_isKey {c : TurnCmd} {cs : List TurnCmd} (h : s.calls = c :: cs)
    (hc : c.isKey = false) : s.plan = { s with calls := cs }.plan := by
  simp [RbmgState.plan, h, hc]

/-- The plan of a state whose next command is a key. -/
theorem plan_of_isKey {c : TurnCmd} {cs : List TurnCmd} (h : s.calls = c :: cs)
    (hc : c.isKey = true) :
    s.plan = { { s with calls := cs }.plan with keys := c :: cs.filter TurnCmd.isKey } := by
  simp [RbmgState.plan, h, hc]

theorem execCmd_plan {c : TurnCmd} {cs : List TurnCmd} (h : s.calls = c :: cs) :
    Untouched s (execCmd s cs c) ∨ Advances s (execCmd s cs c) := by
  cases c with
  | actionMode | lineMode | move | sampleColor | clear | putEnd =>
    left
    rw [Untouched, plan_of_not_isKey h rfl]
    rfl
  | sampleFlag =>
    left
    rw [Untouched, plan_of_not_isKey h rfl, execCmd]
    cases s.colorFlag <;> rfl
  | deliver =>
    left
    rw [Untouched, plan_of_not_isKey h rfl, execCmd, count_plan]
    simp [RbmgState.plan, (allMoves_deliverMoves s.colorType).filter_isKey]
  | retreat =>
    left
    rw [Untouched, plan_of_not_isKey h rfl, execCmd]
    simp [RbmgState.plan, (allMoves_retreatMoves s.colorType).filter_isKey]
  | act a =>
    right
    rw [Advances, plan_of_isKey h rfl, execCmd]
    simp [RbmgState.plan, Plan.step, RbmgObs.leg]
  | takeEnd =>
    right
    rw [Advances, plan_of_isKey h rfl]
    rfl
  | switchTable a =>
    right
    rw [Advances, plan_of_isKey h rfl]
    cases a <;> rfl
  | finished =>
    right
    rw [Advances, plan_of_isKey h rfl]
    rfl

theorem rbmgHandle_plan (h : s.calls = []) (pc : HandlePc) :
    Untouched s (rbmgHandle s pc) ∨ Advances s (rbmgHandle s pc) := by
  cases pc with
  | nextDir =>
    right
    unfold Advances Plan.step rbmgHandle
    simp only [RbmgState.plan, h, List.filter_nil]
    cases pathGetNextDir (s.tables.get s.thisTable) with
    | ret r => rfl
    | hang | fault => simp [RbmgObs.leg, h]
  | _ => exact .inl rfl

/-- Every step of the system is a step of the plan, or does not touch it. -/
theorem plan_step {e : RbmgEv F} (h : rbmgStep fl s e = some (s₁, l₁)) :
    Untouched s (s₁, l₁) ∨ Advances s (s₁, l₁) := by
  rcases rbmgStep_cases h with ⟨nowpos, rfl, hmanager⟩ | henv
  · rw [← hmanager, managerStep]
    split
    · exact .inl (actionRelativeMovementCar_untouched nowpos s _)
    · exact execCmd_plan (by assumption)
    · exact rbmgHandle_plan (by assumption) _
  · cases henv <;> exact .inl rfl

/-! ## Runs -/

/-- What a run shows of its mission. -/
def legs (l : List (RbmgObs F)) : List Leg := l.filterMap RbmgObs.leg

/-- Directions and actions of a run are a prefix of the mission, also with the marks `END`;
`take_cnt` is one more than the number of ends of `take_action`; no table is read outside. -/
theorem mission_prefix {es : List (RbmgEv F)} {l : List (RbmgObs F)}
    (hrun : runLog (rbmgStep fl) (rbmgInit fl) es = some (s, l)) :
    (legs l).filter Leg.isCourse <+: mission ∧
    (legs l).filter (· ≠ .taken) <+: mission.flatMap Leg.marked ∧
    s.takeCnt.toNat = 1 + (legs l).count .taken ∧ s.takeCnt.toNat ≤ 10 ∧
    .outside ∉ legs l := by
  obtain ⟨k, hk⟩ := runLog_stutters (fun _ _ _ _ h => plan_step h) hrun
  have hplan : (rbmgInit fl).plan = Plan.start := rfl
  rw [hplan] at hk
  have hcnt := Plan.iterLog_takeCnt k
  have hprefix := iterLog_prefix Plan.start_stops k
  rw [hk] at hcnt hprefix
  have hnine : (legs l).count .taken ≤ 9 := by
    rw [← Plan.start_taken]
    exact hprefix.sublist.count_le _
  have htake : s.takeCnt.toNat = 1 + (legs l).count .taken := by
    rw [show s.takeCnt = 1 + UInt8.ofNat ((legs l).count .taken) from hcnt, UInt8.toNat_add,
      UInt8.toNat_ofNat']
    change (1 + _ % 2 ^ 8) % 2 ^ 8 = _
    omega
  have hcourse : (legs l).filter Leg.isCourse <+: mission := by
    rw [← Plan.start_course]
    exact hprefix.filter _
  refine ⟨hcourse, ?_, htake, by omega, fun hout => ?_⟩
  · rw [← Plan.start_marked]
    exact hprefix.filter _
  · have := hcourse.subset (List.mem_filter.mpr ⟨hout, rfl⟩)
    revert this
    decide

theorem mission_prefix_firstTake : ∃ s l,
    runLog (rbmgStep .exact) (rbmgInit .exact) (firstTakeRun none) = some (s, l) ∧
    legs l = [.dir .forward, .dir .forward, .dir .finish, .act .take, .taken] ∧
    (legs l).filter Leg.isCourse <+: mission ∧ s.takeCnt.toNat = 1 + (legs l).count .taken := by
  have hlegs : (runLog (rbmgStep .exact) (rbmgInit .exact) (firstTakeRun none)).map (legs ·.2) =
      some [.dir .forward, .dir .forward, .dir .finish, .act .take, .taken] := by decide +kernel
  obtain ⟨⟨s, l⟩, hrun, hl⟩ := Option.map_eq_some_iff.mp hlegs
  obtain ⟨hcourse, -, htake, -⟩ := mission_prefix hrun
  exact ⟨s, l, hrun, hl, hcourse, htake⟩

end Robot
