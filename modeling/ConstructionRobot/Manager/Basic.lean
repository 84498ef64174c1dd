import ConstructionRobot.Lib.Sys
import ConstructionRobot.Map.PathFinder
import Mathlib.Data.Rat.Defs
import Mathlib.Tactic.SplitIfs

/-!
# The robot manager (`robotmanager.c`, `color_com.c`)

The manager thread (`rbmg_handle`), the callbacks of the line follower thread, the receive callback
of the colour sensor and the one write of the stepper thread, in any order of their steps. A step
of a thread is at most one access to a variable that another thread writes, but for the publishes
and the test of `await`, which read all members of `ctrl` at once. What only the manager thread uses
(`take_cnt`, the tables, `color_type`) is updated with it.

The manager thread is in three levels, innermost first: a call of `action_relative_movement_car`
(`move`), the calls that `turn_actions` still has to make (`calls`), and the loop of `rbmg_handle`
(`loop`).

The positions are of any type `F` with the operations of `float` (`FloatOps`). The position of the
chassis is what the manager reads at each of its steps: any value, so that a move can be reached at
once, late or never. The delays, the power switches and the arm (`mypick`, `myup`) are left out.
-/

namespace Robot

/-- The operations of `float`: literals, sums, products, and `fabs(a - b) < bound`. -/
structure FloatOps (F : Type) where
  lit : ℚ → F
  add : F → F → F
  mul : F → F → F
  near : F → F → ℚ → Bool

/-- Three values: `chassis_pos_t`, or `chassis_speed_t`. -/
structure ChassisPos (F : Type) where
  x : F
  y : F
  z : F
  deriving DecidableEq, Repr

/-- `chassis_ctrl_t`; `type` is 0 for a speed and 1 for a position. The union of `speed` and `pos`
is three floats at one address. -/
structure ChassisCtrl (F : Type) where
  type : UInt8
  pos : ChassisPos F
  deriving DecidableEq, Repr

/-- The values of `rbmg_mode`. -/
inductive Mode where
  | cab
  | line
  | action
  deriving DecidableEq, Repr

/-- The elements of the path tables; `finish` is `END`. -/
inductive Dir where
  | finish
  | forward
  | right
  | backward
  | left
  | rotation
  deriving DecidableEq, Repr

/-- The values of `color_type`. -/
inductive ColorType where
  | red
  | blue
  | yellow
  | none
  | idle
  deriving DecidableEq, Repr

/-! ## The path tables -/

inductive TableId where
  | init
  | put
  | take
  | back
  deriving DecidableEq, Repr

/-- The arrays `init`, `put`, `take` and `back`. -/
def tableData : TableId → List Dir
  | .init => [.forward, .forward, .finish, .finish]
  | .put => [.right, .finish, .finish]
  | .take => [.right, .finish, .finish]
  | .back => [.left, .finish, .finish]

def tableName : TableId → String
  | .init => "init table"
  | .put => "put table"
  | .take => "take table"
  | .back => "back table"

/-- A table from its beginning. -/
def freshTable (id : TableId) : PathTable Dir := pathTableInit (tableData id) (tableName id) 0 0

/-- The variables `init_table`, `put_table`, `take_table` and `back_table`. -/
structure Tables where
  init : PathTable Dir
  put : PathTable Dir
  take : PathTable Dir
  back : PathTable Dir
  deriving DecidableEq, Repr

def Tables.get (tables : Tables) : TableId → PathTable Dir
  | .init => tables.init
  | .put => tables.put
  | .take => tables.take
  | .back => tables.back

def Tables.set (tables : Tables) (id : TableId) (table : PathTable Dir) : Tables :=
  match id with
  | .init => { tables with init := table }
  | .put => { tables with put := table }
  | .take => { tables with take := table }
  | .back => { tables with back := table }

def Tables.reset (tables : Tables) (id : TableId) : Tables := tables.set id (freshTable id)

/-- The tables after `rbmg_init`. -/
def Tables.start : Tables where
  init := freshTable .init
  put := freshTable .put
  take := freshTable .take
  back := freshTable .back

/-! ## The threads -/

/-- The actions at the end of a table. -/
inductive Act where
  | take
  | put
  | approach
  deriving DecidableEq, Repr

/-- What `turn_actions` still has to do: the writes of the mode around a turn, the calls of
`action_relative_movement_car` and of the actions, and the parts of `take_action` (`sampleFlag` to
`takeEnd`) and of `put_action` (`deliver` to `putEnd`) between their moves. `switchTable` is what
follows an action: `Path_table_init` and the write of `this_table`; `finished` is the `while(1)`
after the last move. -/
inductive TurnCmd where
  | actionMode
  | lineMode
  | move (offset : ChassisPos ℚ)
  | act (a : Act)
  | sampleFlag
  | sampleColor
  | takeEnd
  | deliver
  | retreat
  | clear
  | putEnd
  | switchTable (a : Act)
  | finished
  deriving DecidableEq, Repr

/-- Where a call of `action_relative_movement_car` is, with its argument or its `counter`. -/
inductive MovePc where
  | setType (offset : ChassisPos ℚ)
  | setX (offset : ChassisPos ℚ)
  | setY (offset : ChassisPos ℚ)
  | setZ (offset : ChassisPos ℚ)
  | publish
  | await (counter : ℕ)
  | setTypeAgain (counter : ℕ)
  | publishAgain (counter : ℕ)
  deriving DecidableEq, Repr

/-- Where the loop of `rbmg_handle` is: at the test of one of the three modes, or behind it. The
first inner loop of `CAB_MODE` is `waitFlag` to `waitMode`, with `case 114` of its `switch` in
`waitOpen` and `waitOpened` and the line behind the `switch` in `waitClear`; the second is `cabMode`
to `cabLine`. In `ACTION_MODE`, `nextDir` is `Path_get_next_dir` with the call of `turn_actions`. -/
inductive HandlePc where
  | cabTest
  | waitFlag
  | waitColor
  | waitOpen
  | waitOpened
  | waitClear
  | waitMode
  | cabMode
  | cabColor
  | cabLine
  | lineTest
  | actionTest
  | nextDir
  | actionEnd
  deriving DecidableEq, Repr

/-- Where the line follower thread is in the callbacks of the manager; `special` is the write of the
mode in `rbmg_special_point_callback`. -/
inductive LinePc where
  | idle
  | setType
  | setX
  | setY
  | setZ
  | publish
  | special
  deriving DecidableEq, Repr

/-- The two threads that write `ctrl`. -/
inductive RbmgThread where
  | manager
  | line
  deriving DecidableEq, Repr

/-- The globals of `robotmanager.c` and `color_com.c`, with the one byte of `color` that is used,
and where the threads are; `armReady` says that the stepper thread has written the mode. -/
structure RbmgState (F : Type) where
  rbmgMode : Mode
  ctrl : ChassisCtrl F
  lineError : F
  color : UInt8
  colorFlag : Bool
  colorType : ColorType
  nowDir : Dir
  nextDir : Dir
  thisTable : TableId
  tables : Tables
  takeCnt : UInt8
  redCnt : UInt8
  blueCnt : UInt8
  yellowCnt : UInt8
  move : Option MovePc
  calls : List TurnCmd
  loop : HandlePc
  line : LinePc
  armReady : Bool
  /-- The position that the last move has computed; no variable of the source. -/
  goal : ChassisPos F

/-- What happens next: a step of the manager, which reads the position of the chassis, a call of a
callback by the line follower thread or its next step, a colour byte, or the write of the stepper
thread. -/
inductive RbmgEv (F : Type) where
  | manager (nowpos : ChassisPos F)
  | lineError (error : F)
  | specialPoint
  | line
  | colorByte (byte : UInt8)
  | armReady
  deriving DecidableEq, Repr

/-- What a step shows: what `Path_get_next_dir` returns, or that it reads outside the table; an
action that begins or ends; a write to a member of `ctrl`, and a publish of it; a colour byte that
comes, is read by `take_action` (`sample`), or is cleared. -/
inductive RbmgObs (F : Type) where
  | dir (dir : Dir)
  | outside
  | act (a : Act)
  | ended (a : Act)
  | write (t : RbmgThread)
  | publish (t : RbmgThread) (ctrl : ChassisCtrl F)
  | received (byte : UInt8)
  | clear
  | sample
  | deliver (c : ColorType)
  deriving DecidableEq, Repr

variable {F : Type}

/-! ## `action_relative_movement_car` -/

def moveReached (fl : FloatOps F) (nowpos target : ChassisPos F) : Bool :=
  fl.near nowpos.y target.y 0.01 && fl.near nowpos.x target.x 0.01 &&
    fl.near nowpos.z target.z 0.1

/-- The next step of `action_relative_movement_car`. -/
def actionRelativeMovementCar (fl : FloatOps F) (nowpos : ChassisPos F) (s : RbmgState F) :
    MovePc → RbmgState F × List (RbmgObs F)
  | .setType d =>
    ({ s with ctrl := { s.ctrl with type := 1 }, move := some (.setX d) }, [.write .manager])
  | .setX d =>
    let x := fl.add nowpos.x (fl.lit d.x)
    ({ s with
        ctrl := { s.ctrl with pos := { s.ctrl.pos with x := x } }
        goal := { s.goal with x := x }
        move := some (.setY d) }, [.write .manager])
  | .setY d =>
    let y := fl.add nowpos.y (fl.lit d.y)
    ({ s with
        ctrl := { s.ctrl with pos := { s.ctrl.pos with y := y } }
        goal := { s.goal with y := y }
        move := some (.setZ d) }, [.write .manager])
  | .setZ d =>
    let z := fl.add nowpos.z (fl.lit d.z)
    ({ s with
        ctrl := { s.ctrl with pos := { s.ctrl.pos with z := z } }
        goal := { s.goal with z := z }
        move := some .publish }, [.write .manager])
  | .publish => ({ s with move := some (.await 0) }, [.publish .manager s.ctrl])
  | .await n =>
    ({ s with
        move := if moveReached fl nowpos s.ctrl.pos then none else some (.setTypeAgain n) }, [])
  | .setTypeAgain n =>
    ({ s with ctrl := { s.ctrl with type := 1 }, move := some (.publishAgain n) },
      [.write .manager])
  | .publishAgain n =>
    ({ s with move := if n + 1 > 1000 then none else some (.await (n + 1)) },
      [.publish .manager s.ctrl])

/-! ## The actions -/

/-- `color_type` for `color[0]`, in `take_action`. -/
def classifyColor (color : UInt8) : ColorType :=
  if color = 114 then .red
  else if color = 121 then .yellow
  else if color = 98 then .blue
  else .none

/-- The call `action_relative_movement_car(x, y, w)`. -/
def TurnCmd.go (x y w : ℚ) : TurnCmd := .move ⟨x, y, w⟩

/-- The moves of `take_action` to the object. -/
def takeApproach (takeCnt : UInt8) : List TurnCmd :=
  (if takeCnt > 3 ∧ takeCnt < 7 then [.go 0 0.185 0]
    else if takeCnt > 6 then [.go 0 0.385 0]
    else [.go 0 0 0]) ++
  (if takeCnt = 2 ∨ takeCnt = 5 ∨ takeCnt = 8 then
      [.go 0 (-0.06) 0, .go 0.182 0 0, .go 0 0.068 0]
    else if takeCnt = 3 ∨ takeCnt = 6 ∨ takeCnt = 9 then
      [.go 0 (-0.045) 0, .go (-0.215) 0 0, .go 0 0.043 0]
    else [.go 0 0 0])

/-- The moves of `take_action` back to the line. -/
def takeReturn (takeCnt : UInt8) : List TurnCmd :=
  (if takeCnt = 2 ∨ takeCnt = 5 ∨ takeCnt = 8 then [.go (-0.182) 0 0]
    else if takeCnt = 3 ∨ takeCnt = 6 ∨ takeCnt = 9 then [.go 0.215 0 0]
    else []) ++
  (if takeCnt > 3 ∧ takeCnt < 7 then [.go 0 (-0.2) 0]
    else if takeCnt > 6 then [.go 0 (-0.4) 0]
    else []) ++
  [.go 0 (-0.3) 0]

def takeAction (takeCnt : UInt8) : List TurnCmd :=
  takeApproach takeCnt ++ .sampleFlag :: takeReturn takeCnt ++ [.takeEnd]

/-- The way to the place of a colour, in `put_action`. -/
def deliverMoves : ColorType → List TurnCmd
  | .red => [.go 0.6 0 0, .go 0 0.18 0]
  | .blue => [.go 0 0 0, .go 0 0.18 0]
  | .yellow => [.go (-0.6) 0 0, .go 0 0.18 0]
  | .none => [.go 0 0 0, .go 0 0 0]
  | .idle => [.go 0 0 0, .go 0 0 0]

/-- The way back to the line, in `put_action`. -/
def retreatMoves : ColorType → List TurnCmd
  | .red => [.go 0 (-0.18) 0, .go (-0.6) 0 0]
  | .blue => [.go 0 (-0.18) 0, .go 0 0 0]
  | .yellow => [.go 0 (-0.18) 0, .go 0.6 0 0]
  | .none => [.go 0 0 0, .go 0 0 0]
  | .idle => [.go 0 0 0, .go 0 0 0]

def putAction : List TurnCmd :=
  [.go 0 0 0, .deliver, .retreat, .go 0 0 3.1415926, .clear, .putEnd]

/-- The calls of an action. -/
def actBody (takeCnt : UInt8) : Act → List TurnCmd
  | .take => takeAction takeCnt
  | .put => putAction
  | .approach => [.go 0 0.4 0]

def mPi2 : ℚ := 1.5707963267948966192313216916398

def deltaAngle : Dir → ℚ
  | .right => -mPi2
  | .backward => mPi2 * 2
  | .left => mPi2
  | _ => 0

def halfCarWidth : ℚ := 0.09

def turnActions (thisTable : TableId) (willDir : Dir) : List TurnCmd :=
  match willDir with
  | .finish =>
    match thisTable with
    | .init | .take => [.act .take, .switchTable .take]
    | .put => [.act .put, .switchTable .put]
    | .back => [.act .approach, .switchTable .approach, .finished]
  | dir =>
    [.actionMode, .go 0 halfCarWidth 0, .go 0 0 (deltaAngle dir), .lineMode]

/-- The counter of a colour, counted up. -/
def RbmgState.count (s : RbmgState F) : ColorType → RbmgState F × List (RbmgObs F)
  | .red => ({ s with redCnt := s.redCnt + 1 }, [.deliver .red])
  | .blue => ({ s with blueCnt := s.blueCnt + 1 }, [.deliver .blue])
  | .yellow => ({ s with yellowCnt := s.yellowCnt + 1 }, [.deliver .yellow])
  | _ => (s, [])

/-- The next command of `turn_actions`; `cs` are the ones after it. -/
def execCmd (s : RbmgState F) (cs : List TurnCmd) : TurnCmd → RbmgState F × List (RbmgObs F)
  | .actionMode => ({ s with rbmgMode := .action, calls := cs }, [])
  | .lineMode => ({ s with rbmgMode := .line, calls := cs }, [])
  | .move d => ({ s with move := some (.setType d), calls := cs }, [])
  | .act a => ({ s with calls := actBody s.takeCnt a ++ cs }, [.act a])
  | .sampleFlag => ({ s with calls := if s.colorFlag then .sampleColor :: cs else cs }, [])
  | .sampleColor => ({ s with colorType := classifyColor s.color, calls := cs }, [.sample])
  | .takeEnd =>
    ({ s with takeCnt := s.takeCnt + 1, rbmgMode := .line, calls := cs }, [.ended .take])
  | .deliver => { s with calls := deliverMoves s.colorType ++ cs }.count s.colorType
  | .retreat => ({ s with calls := retreatMoves s.colorType ++ cs }, [])
  | .clear => ({ s with colorType := .idle, colorFlag := false, calls := cs }, [.clear])
  | .putEnd => ({ s with rbmgMode := .line, calls := cs }, [.ended .put])
  | .switchTable .take =>
    ({ s with tables := s.tables.reset .put, thisTable := .put, calls := cs }, [])
  | .switchTable .put =>
    ({ s with
        tables := s.tables.reset .take
        thisTable := if s.takeCnt < 10 then .take else .back
        calls := cs }, [])
  | .switchTable .approach =>
    ({ s with tables := s.tables.reset .back, thisTable := .put, calls := cs }, [])
  | .finished => ({ s with calls := .finished :: cs }, [])

def AllMoves (cs : List TurnCmd) : Prop := ∀ c ∈ cs, ∃ d, c = .move d

theorem allMoves_cons {c : TurnCmd} {cs : List TurnCmd} :
    AllMoves (c :: cs) ↔ (∃ d, c = .move d) ∧ AllMoves cs := List.forall_mem_cons

theorem allMoves_append {cs cs' : List TurnCmd} :
    AllMoves (cs ++ cs') ↔ AllMoves cs ∧ AllMoves cs' := List.forall_mem_append

@[simp] theorem allMoves_nil : AllMoves [] := List.forall_mem_nil _

@[simp] theorem allMoves_go {x y w : ℚ} {cs : List TurnCmd} :
    AllMoves (.go x y w :: cs) ↔ AllMoves cs := by
  rw [allMoves_cons]
  exact and_iff_right ⟨_, rfl⟩

theorem allMoves_takeApproach (takeCnt : UInt8) : AllMoves (takeApproach takeCnt) := by
  unfold takeApproach
  rw [allMoves_append]
  constructor <;> split_ifs <;> simp

theorem allMoves_takeReturn (takeCnt : UInt8) : AllMoves (takeReturn takeCnt) := by
  unfold takeReturn
  rw [allMoves_append, allMoves_append]
  refine ⟨⟨?_, ?_⟩, by simp⟩ <;> split_ifs <;> simp

theorem allMoves_deliverMoves (c : ColorType) : AllMoves (deliverMoves c) := by
  cases c <;> simp [deliverMoves]

theorem allMoves_retreatMoves (c : ColorType) : AllMoves (retreatMoves c) := by
  cases c <;> simp [retreatMoves]

/-! ## `rbmg_handle` -/

/-- The next step of the loop of `rbmg_handle`. -/
def rbmgHandle (s : RbmgState F) : HandlePc → RbmgState F × List (RbmgObs F)
  | .cabTest => ({ s with loop := if s.rbmgMode = .cab then .waitFlag else .lineTest }, [])
  | .waitFlag => ({ s with loop := if s.colorFlag then .waitColor else .waitMode }, [])
  | .waitColor => ({ s with loop := if s.color = 114 then .waitOpen else .waitClear }, [])
  | .waitOpen => ({ s with rbmgMode := .line, loop := .waitOpened }, [])
  | .waitOpened => ({ s with colorFlag := false, loop := .waitClear }, [.clear])
  | .waitClear => ({ s with colorFlag := false, loop := .waitMode }, [.clear])
  | .waitMode => ({ s with loop := if s.rbmgMode = .line then .cabMode else .waitFlag }, [])
  | .cabMode => ({ s with loop := if s.rbmgMode ≠ .cab then .cabTest else .cabColor }, [])
  | .cabColor => ({ s with loop := if s.color ≠ 120 then .cabLine else .cabMode }, [])
  | .cabLine => ({ s with rbmgMode := .line, loop := .cabMode }, [])
  | .lineTest => ({ s with loop := if s.rbmgMode = .line then .cabTest else .actionTest }, [])
  | .actionTest => ({ s with loop := if s.rbmgMode = .action then .nextDir else .cabTest }, [])
  | .nextDir =>
    match pathGetNextDir (s.tables.get s.thisTable) with
    | .ret (dir, table) =>
      ({ s with
          nowDir := s.nextDir
          nextDir := dir
          tables := s.tables.set s.thisTable table
          calls := turnActions s.thisTable dir
          loop := .actionEnd }, [.dir dir])
    | _ => (s, [.outside])
  | .actionEnd => ({ s with rbmgMode := .line, loop := .cabTest }, [])

def managerStep (fl : FloatOps F) (nowpos : ChassisPos F) (s : RbmgState F) :
    RbmgState F × List (RbmgObs F) :=
  match s.move, s.calls with
  | some pc, _ => actionRelativeMovementCar fl nowpos s pc
  | none, c :: cs => execCmd s cs c
  | none, [] => rbmgHandle s s.loop

/-! ## The other threads -/

/-- The call of `rbmg_error_callback`, up to the test of the mode. -/
def rbmgErrorCallback (s : RbmgState F) (error : F) : RbmgState F :=
  if s.rbmgMode = .line then { s with lineError := error, line := .setType } else s

/-- The call of `rbmg_special_point_callback`, up to the test of the mode. -/
def rbmgSpecialPointCallback (s : RbmgState F) : RbmgState F :=
  if s.rbmgMode ≠ .cab then { s with line := .special } else s

/-- The next step of a callback; `none` if there is none. `chassis_dir` is 0. -/
def lineStep (fl : FloatOps F) (s : RbmgState F) : Option (RbmgState F × List (RbmgObs F)) :=
  match s.line with
  | .idle => none
  | .setType =>
    some ({ s with ctrl := { s.ctrl with type := 0 }, line := .setX }, [.write .line])
  | .setX =>
    some ({ s with
        ctrl := { s.ctrl with pos := { s.ctrl.pos with x := fl.lit 0 } }
        line := .setY }, [.write .line])
  | .setY =>
    some ({ s with
        ctrl := { s.ctrl with pos := { s.ctrl.pos with y := fl.lit 0.25 } }
        line := .setZ }, [.write .line])
  | .setZ =>
    some ({ s with
        ctrl := { s.ctrl with pos := { s.ctrl.pos with z := fl.mul s.lineError (fl.lit 0.9) } }
        line := .publish }, [.write .line])
  | .publish => some ({ s with line := .idle }, [.publish .line s.ctrl])
  | .special => some ({ s with rbmgMode := .action, line := .idle }, [])

def uartRxInd (s : RbmgState F) (byte : UInt8) : RbmgState F × List (RbmgObs F) :=
  ({ s with color := byte, colorFlag := true }, [.received byte])

def rbmgStep (fl : FloatOps F) (s : RbmgState F) :
    RbmgEv F → Option (RbmgState F × List (RbmgObs F))
  | .manager nowpos => some (managerStep fl nowpos s)
  | .lineError error => if s.line = .idle then some (rbmgErrorCallback s error, []) else none
  | .specialPoint => if s.line = .idle then some (rbmgSpecialPointCallback s, []) else none
  | .line => lineStep fl s
  | .colorByte byte => some (uartRxInd s byte)
  | .armReady =>
    if s.armReady then none else some ({ s with rbmgMode := .line, armReady := true }, [])

/-- The line follower thread is in `rbmg_error_callback`, behind the test of the mode. -/
def LinePc.inError : LinePc → Bool
  | .idle | .special => false
  | _ => true

/-- What a step of another thread than the manager can do; `skip` is a callback that returns after
its test of the mode. -/
inductive EnvStep (s : RbmgState F) :
    RbmgEv F → RbmgState F → List (RbmgObs F) → Prop where
  | skip (e : RbmgEv F) : EnvStep s e s []
  | error (x : F) (hmode : s.rbmgMode = .line) :
    EnvStep s (.lineError x) { s with lineError := x, line := .setType } []
  | special : EnvStep s .specialPoint { s with line := .special } []
  | write (ctrl : ChassisCtrl F) (line : LinePc) (hline : s.line.inError) :
    EnvStep s .line { s with ctrl := ctrl, line := line } [.write .line]
  | publish (hline : s.line.inError) :
    EnvStep s .line { s with line := .idle } [.publish .line s.ctrl]
  | action : EnvStep s .line { s with rbmgMode := .action, line := .idle } []
  | received (byte : UInt8) :
    EnvStep s (.colorByte byte) { s with color := byte, colorFlag := true } [.received byte]
  | ready : EnvStep s .armReady { s with rbmgMode := .line, armReady := true } []

theorem lineStep_cases {fl : FloatOps F} {s s₁ : RbmgState F} {l₁ : List (RbmgObs F)}
    (h : lineStep fl s = some (s₁, l₁)) : EnvStep s .line s₁ l₁ := by
  unfold lineStep at h
  cases hline : s.line with
  | idle => simp [hline] at h
  | setType | setX | setY | setZ =>
    rw [hline] at h
    obtain ⟨rfl, rfl⟩ := Prod.mk.inj (Option.some.inj h)
    exact .write _ _ (by rw [hline]; rfl)
  | publish =>
    rw [hline] at h
    obtain ⟨rfl, rfl⟩ := Prod.mk.inj (Option.some.inj h)
    exact .publish (by rw [hline]; rfl)
  | special =>
    rw [hline] at h
    obtain ⟨rfl, rfl⟩ := Prod.mk.inj (Option.some.inj h)
    exact .action

theorem rbmgStep_cases {fl : FloatOps F} {s s₁ : RbmgState F} {e : RbmgEv F}
    {l₁ : List (RbmgObs F)} (h : rbmgStep fl s e = some (s₁, l₁)) :
    (∃ nowpos, e = .manager nowpos ∧ managerStep fl nowpos s = (s₁, l₁)) ∨ EnvStep s e s₁ l₁ := by
  cases e with
  | manager nowpos => exact .inl ⟨nowpos, rfl, Option.some.inj h⟩
  | lineError x =>
    obtain ⟨-, h⟩ := Option.ite_none_right_eq_some.mp h
    obtain ⟨rfl, rfl⟩ := Prod.mk.inj (Option.some.inj h)
    unfold rbmgErrorCallback
    split
    · exact .inr (.error x (by assumption))
    · exact .inr (.skip _)
  | specialPoint =>
    obtain ⟨-, h⟩ := Option.ite_none_right_eq_some.mp h
    obtain ⟨rfl, rfl⟩ := Prod.mk.inj (Option.some.inj h)
    unfold rbmgSpecialPointCallback
    split
    · exact .inr .special
    · exact .inr (.skip _)
  | line => exact .inr (lineStep_cases h)
  | colorByte byte =>
    obtain ⟨rfl, rfl⟩ := Prod.mk.inj (Option.some.inj h)
    exact .inr (.received byte)
  | armReady =>
    obtain ⟨-, h⟩ := Option.ite_none_left_eq_some.mp h
    obtain ⟨rfl, rfl⟩ := Prod.mk.inj (Option.some.inj h)
    exact .inr .ready

/-- The globals after `rbmg_init`; `color_type` is 0. -/
def rbmgInit (fl : FloatOps F) : RbmgState F where
  rbmgMode := .cab
  ctrl := ⟨0, fl.lit 0, fl.lit 0, fl.lit 0⟩
  lineError := fl.lit 0
  color := 0
  colorFlag := false
  colorType := .red
  nowDir := .forward
  nextDir := .forward
  thisTable := .init
  tables := Tables.start
  takeCnt := 1
  redCnt := 0
  blueCnt := 0
  yellowCnt := 0
  move := none
  calls := []
  loop := .cabTest
  line := .idle
  armReady := false
  goal := ⟨fl.lit 0, fl.lit 0, fl.lit 0⟩

/-! ## Runs with exact arithmetic -/

/-- `float` without rounding. -/
def FloatOps.exact : FloatOps ℚ where
  lit := id
  add := (· + ·)
  mul := (· * ·)
  near a b bound := a - b < bound && b - a < bound

/-- Steps of the manager with the chassis at 0. -/
def managerSteps (n : ℕ) : List (RbmgEv ℚ) := List.replicate n (.manager ⟨0, 0, 0⟩)

/-- A move that is reached at once. -/
def moveSteps (d : ChassisPos ℚ) : List (RbmgEv ℚ) := managerSteps 6 ++ [.manager d]

/-- The handshake at the start. -/
def openSteps : List (RbmgEv ℚ) := .colorByte 114 :: managerSteps 8

/-- A special point, up to `Path_get_next_dir`. -/
def pointSteps : List (RbmgEv ℚ) := [.specialPoint, .line] ++ managerSteps 4

/-- A special point with a turn. -/
def turnSteps (dir : Dir) : List (RbmgEv ℚ) :=
  pointSteps ++ managerSteps 1 ++ moveSteps ⟨0, halfCarWidth, 0⟩ ++
    moveSteps ⟨0, 0, deltaAngle dir⟩ ++ managerSteps 2

/-- A special point with the first `take_action`, which needs `sampling` steps for the colour. -/
def takeSteps (sampling : ℕ) : List (RbmgEv ℚ) :=
  pointSteps ++ managerSteps 1 ++ moveSteps ⟨0, 0, 0⟩ ++ moveSteps ⟨0, 0, 0⟩ ++
    managerSteps sampling ++ moveSteps ⟨0, -0.3, 0⟩ ++ managerSteps 3

/-- From the start to the end of the first `take_action`, with a colour byte before it or none. -/
def firstTakeRun (byte : Option UInt8) : List (RbmgEv ℚ) :=
  openSteps ++ turnSteps .forward ++ turnSteps .forward ++
    match byte with
    | none => takeSteps 1
    | some b => .colorByte b :: takeSteps 2

/-- From the start to the first delivery of `put_action`. -/
def firstPutRun (byte : Option UInt8) : List (RbmgEv ℚ) :=
  firstTakeRun byte ++ turnSteps .right ++ pointSteps ++ managerSteps 1 ++ moveSteps ⟨0, 0, 0⟩ ++
    managerSteps 1

end Robot
