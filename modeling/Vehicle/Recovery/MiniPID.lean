import Mathlib.Data.Rat.Defs
import Mathlib.Algebra.Order.Ring.Rat
import Mathlib.Tactic.Common

/-!
# recovery: the PID controller

`MiniPID.cpp`, as far as the parts use it: the constructor, `setPID`, `setOutputLimits` and
`getOutput` with what these call. Numbers are exact rationals. The members that no call of the
program sets keep the values of `init`, but `getOutput` reads them.
-/

namespace Vehicle.Recovery

/-- The data members of the class `MiniPID`. -/
structure MiniPID where
  P : ℚ
  I : ℚ
  D : ℚ
  F : ℚ
  maxIOutput : ℚ
  maxError : ℚ
  errorSum : ℚ
  maxOutput : ℚ
  minOutput : ℚ
  setpoint : ℚ
  lastActual : ℚ
  firstRun : Bool
  reversed : Bool
  outputRampRate : ℚ
  lastOutput : ℚ
  outputFilter : ℚ
  setpointRange : ℚ
  deriving DecidableEq

namespace MiniPID

/-- `MiniPID::init`. -/
def init : MiniPID where
  P := 0
  I := 0
  D := 0
  F := 0
  maxIOutput := 0
  maxError := 0
  errorSum := 0
  maxOutput := 0
  minOutput := 0
  setpoint := 0
  lastActual := 0
  firstRun := true
  reversed := false
  outputRampRate := 0
  lastOutput := 0
  outputFilter := 0
  setpointRange := 0

/-- The constructor `MiniPID(p, i, d)`; it does not call `checkSigns`. -/
def new (p i d : ℚ) : MiniPID := { init with P := p, I := i, D := d }

/-- `MiniPID::clamp`. -/
def clamp (value min max : ℚ) : ℚ :=
  if value > max then max else if value < min then min else value

/-- `MiniPID::bounded`; the comment of the source says inclusive. -/
def bounded (value min max : ℚ) : Bool := decide (min < value) && decide (value < max)

/-- A gain after `checkSigns`. -/
def checkSign (reversed : Bool) (x : ℚ) : ℚ :=
  if reversed then if x > 0 then x * -1 else x else if x < 0 then x * -1 else x

/-- `MiniPID::checkSigns`. -/
def checkSigns (pid : MiniPID) : MiniPID :=
  { pid with
    P := checkSign pid.reversed pid.P
    I := checkSign pid.reversed pid.I
    D := checkSign pid.reversed pid.D
    F := checkSign pid.reversed pid.F }

/-- `MiniPID::setPID`. -/
def setPID (pid : MiniPID) (p i d : ℚ) : MiniPID :=
  { pid with P := p, I := i, D := d }.checkSigns

/-- `MiniPID::setMaxIOutput`. -/
def setMaxIOutput (pid : MiniPID) (maximum : ℚ) : MiniPID :=
  { pid with
    maxIOutput := maximum
    maxError := if pid.I ≠ 0 then maximum / pid.I else pid.maxError }

/-- `MiniPID::setOutputLimits`. -/
def setOutputLimits (pid : MiniPID) (minimum maximum : ℚ) : MiniPID :=
  if maximum < minimum then pid
  else
    let pid := { pid with maxOutput := maximum, minOutput := minimum }
    if pid.maxIOutput = 0 ∨ pid.maxIOutput > maximum - minimum then
      pid.setMaxIOutput (maximum - minimum)
    else pid

/-- `MiniPID::getOutput`: the output, and the controller after it. -/
def getOutput (pid : MiniPID) (actual setpoint : ℚ) : ℚ × MiniPID :=
  let target :=
    if pid.setpointRange ≠ 0 then
      clamp setpoint (actual - pid.setpointRange) (actual + pid.setpointRange)
    else setpoint
  let error := target - actual
  let foutput := pid.F * target
  let poutput := pid.P * error
  let lastActual := if pid.firstRun then actual else pid.lastActual
  let lastOutput := if pid.firstRun then poutput + foutput else pid.lastOutput
  let doutput := -pid.D * (actual - lastActual)
  let ioutput :=
    if pid.maxIOutput ≠ 0 then clamp (pid.I * pid.errorSum) (-pid.maxIOutput) pid.maxIOutput
    else pid.I * pid.errorSum
  let output := foutput + poutput + ioutput + doutput
  -- the error sum is set by the output before it is restricted
  let errorSum :=
    if pid.minOutput ≠ pid.maxOutput ∧ bounded output pid.minOutput pid.maxOutput = false then error
    else if pid.outputRampRate ≠ 0 ∧ bounded output (lastOutput - pid.outputRampRate)
      (lastOutput + pid.outputRampRate) = false then
      error
    else if pid.maxIOutput ≠ 0 then clamp (pid.errorSum + error) (-pid.maxError) pid.maxError
    else pid.errorSum + error
  let output :=
    if pid.outputRampRate ≠ 0 then
      clamp output (lastOutput - pid.outputRampRate) (lastOutput + pid.outputRampRate)
    else output
  let output :=
    if pid.minOutput ≠ pid.maxOutput then clamp output pid.minOutput pid.maxOutput else output
  let output :=
    if pid.outputFilter ≠ 0 then lastOutput * pid.outputFilter + output * (1 - pid.outputFilter)
    else output
  (output,
    { pid with
      setpoint := setpoint
      lastActual := actual
      firstRun := false
      errorSum := errorSum
      lastOutput := output })

end MiniPID

end Vehicle.Recovery
