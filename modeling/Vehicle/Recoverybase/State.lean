import Mathlib.Logic.Function.Basic
import Mathlib.Data.Fintype.Basic
import Mathlib.Data.Rat.Defs
import Mathlib.Tactic.Common
import Vehicle.Numeric.Index
import Vehicle.Posix.Time

/-!
# recoverybase: the shared State

`share.h`, `share.cpp` and `Car::InitState` of the recoverybase program. Arrays indexed by
`(int)part_type_` are functions of the part; `is_new_data`, which the parts index with literals, is
a function of the index. `stage` has the element type the header gives it, `bool`.
-/

namespace Vehicle.Recoverybase

export Vehicle.Posix (Timeval)

/-- `METHOD`: 1 only unit, 2 only compulsive, 3 both. -/
inductive Method
  | unitOnly | compulsiveOnly | both
  deriving DecidableEq, Repr

/-- The macros a build may change: `METHOD`, and `FAULTED` (true without fault, false with one). -/
structure Config where
  method : Method
  faulted : Bool
  deriving DecidableEq, Repr

/-- `METHOD` and `FAULTED` as `share.h` sets them. -/
def Config.default : Config := ⟨.unitOnly, false⟩

/-- `INTERVAL`. -/
def interval : ℤ := 2

/-- `MAX_TIMES`. -/
def maxTimes : ℤ := 30

/-- `FAULT_STEP`. -/
def faultStep : ℤ := 5

/-- The parts `Car::AddPart` adds, in the order of the enumeration `PartType` (its fourth member,
`throttlePID`, lies outside `PART_NUMBER = 3` and is never added). -/
inductive PartType
  | camera | speed | servoPID
  deriving DecidableEq, Repr

instance : Fintype PartType where
  elems := {.camera, .speed, .servoPID}
  complete p := by cases p <;> decide

/-- `(int)part_type_`. -/
def PartType.toInt : PartType → ℤ
  | .camera => 0
  | .speed => 1
  | .servoPID => 2

/-- The cell of `is_new_data` a loop over `i < PART_NUMBER` visits together with part `i`. -/
def PartType.idx : PartType → Fin 3
  | .camera => 0
  | .speed => 1
  | .servoPID => 2

/-- `++i` in a loop over `i < PART_NUMBER`; `none` ends the loop. -/
def PartType.succ : PartType → Option PartType
  | .camera => some .speed
  | .speed => some .servoPID
  | .servoPID => none

/-- `diffus`: the distance of two readings in microseconds. -/
def diffus (tvStart tvEnd : Timeval) : ℤ :=
  let t1 := 1000000 * tvStart.tvSec + tvStart.tvUsec
  let t2 := 1000000 * tvEnd.tvSec + tvEnd.tvUsec
  if t2 > t1 then t2 - t1 else t1 - t2

/-- The class `State`, the object in shared memory. -/
structure State where
  times : ℤ
  speed : ℚ
  direction : ℚ
  targetSpeed : ℚ
  targetDirection : ℚ
  isNewData : Fin 3 → Bool
  stage : PartType → Bool
  needCompulsiveCheckpoint : PartType → Bool
  averageTimePerCycle : PartType → ℤ
  lastUnitCheckpoint : PartType → Timeval

/-- The conversion of an `int` to `bool`. -/
def toBool (x : ℤ) : Bool := decide (x ≠ 0)

/-- The promotion of a `bool` to `int`. -/
def ofBool (b : Bool) : ℤ := if b then 1 else 0

/-- `Car::InitState`: what the fresh, zero-filled object holds after it (`avgt0`, `avgt1` and
`avgt2` are 0). -/
def initState : State where
  times := 0
  speed := 0
  direction := 0
  targetSpeed := 0
  targetDirection := 0
  isNewData := fun _ => false
  stage := fun _ => toBool 1
  needCompulsiveCheckpoint := fun _ => false
  averageTimePerCycle := fun _ => 0
  lastUnitCheckpoint := fun _ => ⟨0, 0⟩

end Vehicle.Recoverybase
