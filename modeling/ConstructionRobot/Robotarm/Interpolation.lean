import ConstructionRobot.Lib.Libm
import ConstructionRobot.Lib.Sys

/-!
# Interpolation of the arm's position (`robotarm/interpolation.cpp`, `robotarm/config.h`)

`setInterpolation` starts a move on a straight line from one point to another;
`updateActualPosition` computes where on the line the arm should be by now, and takes that position
if `isAllowedPosition` accepts it. A position that is not accepted ends the move where the arm is.

The model is over any type `F` with the operations of `float` (`Libm`). `micros()` gives any value
at each call. The coordinates of the points `xStartmm`, `xDelta` and `xPosmm` and so on are the
fields of `start`, `delta` and `pos`; `pos_tracker` is a local variable.

* `Interpolation`: the state; the functions under their names.
-/

namespace Robot

namespace Robotarm

open Libm

/-- `Point`. -/
structure Point (F : Type) where
  xmm : F
  ymm : F
  zmm : F
  emm : F
  deriving DecidableEq, Repr

section Model

variable {F : Type} [Libm F]

/-! ## Configuration -/

/-- `sq`. -/
def sq (x : F) : F := x * x

def lowShankLength : F := lit 120
def highShankLength : F := lit 120
def endEffectorOffset : F := lit 47
def zMin : F := lit (-140)
def zMax : F := lowShankLength + lit 30
def shanksMinAngleCos : F := lit 0.791436948
def shanksMaxAngleCos : F := lit (-0.774944489)

/-- The distance of the ends of the two shanks for an angle between them. -/
def reach (angleCos : F) : F :=
  sqrt ((sq lowShankLength + sq highShankLength) -
    (lit 2 * lowShankLength * highShankLength * angleCos))

/-- `R_MIN` and `R_MAX`. -/
def rMin : F := reach shanksMinAngleCos
def rMax : F := reach shanksMaxAngleCos

/-! ## The class -/

/-- `Interpolation`. -/
structure Interpolation (F : Type) where
  speedProfile : ℤ
  state : UInt8
  startTime : ℤ
  start : Point F
  delta : Point F
  pos : Point F
  v : F
  tmul : F

/-- A static object is zero before its constructor runs. -/
def zeroPoint : Point F := ⟨lit 0, lit 0, lit 0, lit 0⟩

namespace Interpolation

/-- The constructor. -/
def init : Interpolation F where
  speedProfile := 2
  state := 0
  startTime := 0
  start := zeroPoint
  delta := zeroPoint
  pos := zeroPoint
  v := lit 0
  tmul := lit 0

/-- `setInterpolation(Point p0, Point p1, float av)`, at the time `micros`. -/
def setInterpolation (it : Interpolation F) (p0 p1 : Point F) (av : F) (micros : ℤ) :
    Interpolation F :=
  let a := p1.xmm - p0.xmm
  let b := p1.ymm - p0.ymm
  let c := p1.zmm - p0.zmm
  let e := fabs (p1.emm - p0.emm)
  let dist := sqrt (a * a + b * b + c * c)
  let dist := if lt dist e then e else dist
  let v := if lt av (lit 5) then sqrt dist * lit 10 else av
  let v := if lt v (lit 5) then lit 5 else v
  { it with
    v := v
    tmul := v / dist
    start := p0
    delta := ⟨p1.xmm - p0.xmm, p1.ymm - p0.ymm, p1.zmm - p0.zmm, p1.emm - p0.emm⟩
    state := 0
    startTime := micros }

/-- The end of the last move. -/
def target (it : Interpolation F) : Point F :=
  ⟨it.start.xmm + it.delta.xmm, it.start.ymm + it.delta.ymm, it.start.zmm + it.delta.zmm,
    it.start.emm + it.delta.emm⟩

/-- `setInterpolation(Point p1, float v)`: from the end of the last move. -/
def setInterpolationTo (it : Interpolation F) (p1 : Point F) (v : F) (micros : ℤ) :
    Interpolation F :=
  it.setInterpolation it.target p1 v micros

/-- `isAllowedPosition`, without the rail. -/
def isAllowedPosition (p : Point F) : Bool :=
  let rrotEe := hypot p.xmm p.ymm
  let rrot := rrotEe - endEffectorOffset
  let rrotX := rrot * (p.ymm / rrotEe)
  let rrotY := rrot * (p.xmm / rrotEe)
  let squaredPositionModule := sq rrotX + sq rrotY + sq p.zmm
  le squaredPositionModule (sq rMax) && le (sq rMin) squaredPositionModule &&
    le zMin p.zmm && le p.zmm zMax

/-- The part of the way after the time `t`, and if the move is done. Another speed profile leaves
the variable without a value. -/
def progress (speedProfile : ℤ) (t tmul : F) : Call (F × Bool) :=
  match speedProfile with
  | 0 =>
    let progress := t * tmul
    .ret (if le (lit 1) progress then (lit 1, true) else (progress, false))
  | 1 =>
    let progress := atan ((pi * t * tmul) - (pi * lit 0.5)) * lit 0.5 + lit 0.5
    .ret (if le (lit 1) progress then (lit 1, true) else (progress, false))
  | 2 =>
    let progress := -cos (t * tmul * pi) * lit 0.5 + lit 0.5
    .ret (if le (lit 1) (t * tmul) then (lit 1, true) else (progress, false))
  | _ => .fault

/-- The point of the move after a part of the way. -/
def pointAt (it : Interpolation F) (progress : F) : Point F :=
  ⟨it.start.xmm + progress * it.delta.xmm, it.start.ymm + progress * it.delta.ymm,
    it.start.zmm + progress * it.delta.zmm, it.start.emm + progress * it.delta.emm⟩

/-- The seconds since the start of the move: `long` is 32 bits wide. -/
def elapsed (it : Interpolation F) (micros : ℤ) : F :=
  lit (sint 32 (micros - it.startTime)) / lit 1000000

/-- `updateActualPosition`. -/
def updateActualPosition (it : Interpolation F) (micros : ℤ) : Call (Interpolation F) :=
  if it.state ≠ 0 then .ret it
  else do
    let (progress, done) ← progress it.speedProfile (it.elapsed micros) it.tmul
    let posTracker := it.pointAt progress
    if isAllowedPosition posTracker then
      pure { it with pos := posTracker, state := if done then 1 else it.state }
    else pure { it with state := 1, start := it.pos, delta := zeroPoint }

end Interpolation

end Model

end Robotarm

end Robot
