import ConstructionRobot.Lib.Call

/-!
# Paths (`PathFinder.c`)

A path is an array of directions with the place of the next one. Nothing checks for its end: the
manager and `Robot_State_Trigger` see it in the elements that they read.
-/

namespace Robot

/-- `Path_table_t`, with elements of type `D`: the `int` of the source, or an enumeration that
stands for its values. -/
structure PathTable (D : Type) where
  startPointX : ℤ
  startPointY : ℤ
  table : List D
  name : String
  index : ℕ
  deriving DecidableEq, Repr

variable {D : Type}

/-- `Path_table_init`. -/
def pathTableInit (tableData : List D) (name : String) (startPointX startPointY : ℤ) :
    PathTable D :=
  { startPointX, startPointY, table := tableData, name, index := 0 }

/-- `Path_get_next_dir`, before the element is converted to `uint8_t`. -/
def pathGetNextDir (table : PathTable D) : Call (D × PathTable D) :=
  match table.table[table.index]? with
  | some dir => .ret (dir, { table with index := table.index + 1 })
  | none => .fault

end Robot
