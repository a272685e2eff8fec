import Vehicle.Trace.Lts
import Vehicle.Recoverybase.Handshake
import Vehicle.Recoverybase.LockStep
import Vehicle.Recoverybase.Pipeline
import Vehicle.Recoverybase.Dumps
import Vehicle.Recoverybase.Requests
import Vehicle.Recoverybase.Fault
import Vehicle.Recoverybase.Shutdown
import Vehicle.Recoverybase.Lap
import Vehicle.Recoverybase.Progress
import Vehicle.Posix.Layout
import Vehicle.Posix.Shm
import Vehicle.Recovery.Attach
import Vehicle.Recovery.MiniPID
import Vehicle.Recovery.Part
import Vehicle.Recovery.System
import Vehicle.Recovery.Control
import Vehicle.Recovery.Wedge
import Vehicle.Trace.Register
import Vehicle.Recovery.Announce
import Vehicle.Recovery.Measure
import Vehicle.Recovery.Provenance
import Vehicle.Recovery.Encoder
import Vehicle.Recovery.Actuator
import Vehicle.Recovery.Throttle
import Vehicle.Recovery.Gains
import Vehicle.Recovery.Servo
import Vehicle.Numeric.Mean
import Vehicle.Recovery.Camera
import Vehicle.Recovery.Window
import Vehicle.Recovery.Reads
import Vehicle.Recovery.Lane
import Vehicle.Recovery.Message
import Vehicle.Recovery.Stream
import Vehicle.Recovery.Averaging
import Vehicle.Recovery.Sensor
import Vehicle.Recovery.Average
import Vehicle.Recoverybase.UnitCheckpoint
import Vehicle.Recoverybase.Restore
import Vehicle.Numeric.Circle
import Vehicle.Recovery.Curvature
import Vehicle.Recovery.CurvatureRange
import Vehicle.Recoverybase.Rotation
import Vehicle.Recoverybase.Children
import Vehicle.Recoverybase.CycleTime
import Vehicle.Numeric.Wrap
import Vehicle.Recoverybase.Board
import Vehicle.Numeric.Bezier
import Vehicle.Recovery.Bezier
import Vehicle.Numeric.Homography
import Vehicle.Recovery.Perspective
import Vehicle.Trace.View
import Vehicle.Recovery.Pca9685
import Vehicle.Recovery.Driver
import Vehicle.Recovery.Prescale
import Vehicle.Recovery.Pulse
import Vehicle.Trace.Refine
import Vehicle.Recoverybase.Images
import Vehicle.Recovery.Once
import Vehicle.Numeric.Excess
import Vehicle.Recovery.Tuning
import Vehicle.Recovery.Accuracy
import Vehicle.Posix.Framing
import Vehicle.Recovery.Telemetry
import Vehicle.Recovery.Follow
import Vehicle.Numeric.Ramp
import Vehicle.Recovery.Steady
import Vehicle.Thread.Car
import Vehicle.Thread.Throttle
import Vehicle.Numeric.Parity
import Vehicle.Recovery.Spi
import Vehicle.Posix.Record
import Vehicle.Recoverybase.Memory
import Vehicle.Recoverybase.OnMemory
