import ConstructionRobot.Abus.Afifo
import ConstructionRobot.Abus.Alloc
import ConstructionRobot.Abus.Concurrent
import ConstructionRobot.Abus.Delivery
import ConstructionRobot.Abus.Follow
import ConstructionRobot.Abus.Names
import ConstructionRobot.Abus.Orders
import ConstructionRobot.Abus.Publish
import ConstructionRobot.Abus.Queue
import ConstructionRobot.Abus.Registry
import ConstructionRobot.Abus.Runs
import ConstructionRobot.Abus.Topic
import ConstructionRobot.Abus.WiredRuns
import ConstructionRobot.Abus.Wiring
import ConstructionRobot.Abus.ZeroCopy
import ConstructionRobot.Action.Posture
import ConstructionRobot.Apid
import ConstructionRobot.Apid.Coherence
import ConstructionRobot.Apid.Documented
import ConstructionRobot.Apid.Law
import ConstructionRobot.Apid.Saturation
import ConstructionRobot.Apid.Telescope
import ConstructionRobot.Apid.Ticks
import ConstructionRobot.Apid.Variables
import ConstructionRobot.Chassis.Drive
import ConstructionRobot.Chassis.Kinematics
import ConstructionRobot.Chassis.Module
import ConstructionRobot.Chassis.Residual
import ConstructionRobot.Dj.Config
import ConstructionRobot.Dj.Driver
import ConstructionRobot.Dj.Feedback
import ConstructionRobot.Dj.Interlock
import ConstructionRobot.Dj.Lookup
import ConstructionRobot.Dj.Pipeline
import ConstructionRobot.Dj.Position
import ConstructionRobot.Dj.Range
import ConstructionRobot.Dj.Routing
import ConstructionRobot.Dj.Symmetry
import ConstructionRobot.Dj.Turns
import ConstructionRobot.Lib.Bits
import ConstructionRobot.Lib.Block
import ConstructionRobot.Lib.Call
import ConstructionRobot.Lib.Code
import ConstructionRobot.Lib.Feed
import ConstructionRobot.Lib.Fields
import ConstructionRobot.Lib.Libm
import ConstructionRobot.Lib.LinkRing
import ConstructionRobot.Lib.Names
import ConstructionRobot.Lib.Ring
import ConstructionRobot.Lib.Sys
import ConstructionRobot.Lib.Text
import ConstructionRobot.Lib.Trace
import ConstructionRobot.Lib.Traced
import ConstructionRobot.Lib.TwoLink
import ConstructionRobot.Manager.Basic
import ConstructionRobot.Manager.Exclusion
import ConstructionRobot.Manager.Mission
import ConstructionRobot.Manager.Sorting
import ConstructionRobot.Map.PathFinder
import ConstructionRobot.Map.RobotState
import ConstructionRobot.Motor.Basic
import ConstructionRobot.Motor.Stop
import ConstructionRobot.Motor.Table
import ConstructionRobot.Ringbuffer.Basic
import ConstructionRobot.Ringbuffer.Interrupt
import ConstructionRobot.Ringbuffer.Queue
import ConstructionRobot.Robotarm.Geometry
import ConstructionRobot.Robotarm.Interpolation
import ConstructionRobot.Robotarm.Loop
import ConstructionRobot.Robotarm.Period
import ConstructionRobot.Sbus.Decode
import ConstructionRobot.Sbus.Receive
import ConstructionRobot.Servo.Accept
import ConstructionRobot.Servo.Angle
import ConstructionRobot.Servo.Balance
import ConstructionRobot.Servo.Data
import ConstructionRobot.Servo.Package
import ConstructionRobot.Servo.Receive
import ConstructionRobot.Servo.Resync
import ConstructionRobot.Servo.RoundTrip
import ConstructionRobot.Servo.Session
import ConstructionRobot.Servo.Wait
import ConstructionRobot.Statemachine.Atomic
import ConstructionRobot.Statemachine.Bounds
import ConstructionRobot.Statemachine.Cvector
import ConstructionRobot.Statemachine.Failing
import ConstructionRobot.Statemachine.Finish
import ConstructionRobot.Statemachine.Insert
import ConstructionRobot.Statemachine.Machine
import ConstructionRobot.Statemachine.Names
import ConstructionRobot.Statemachine.Restart
import ConstructionRobot.Statemachine.Trace
import ConstructionRobot.Stepper.Basic
import ConstructionRobot.Stepper.Command
import ConstructionRobot.Stepper.Control
import ConstructionRobot.Stepper.Fresh
import ConstructionRobot.Stepper.Line
import ConstructionRobot.Stepper.Lock
import ConstructionRobot.Stepper.Pairs
import ConstructionRobot.Stepper.Reports
