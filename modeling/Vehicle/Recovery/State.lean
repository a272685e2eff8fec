import Mathlib.Logic.Function.Basic
import Mathlib.Data.Fintype.Basic
import Mathlib.Data.Rat.Defs
import Mathlib.Tactic.Common
import Vehicle.Numeric.Index
import Vehicle.Posix.Time

/-!
# recovery: the shared State

`share.h` and `Car::InitState` of the recovery program, as the parts see it once they are attached.
The `double` members are read and written through their name (`Datum`), arrays are functions of the
index. `pca_` is left out: nobody stores to it after the parts are forked.
-/

namespace Vehicle.Recovery

export Vehicle.Posix (Timeval)

/-- `PartType`. -/
inductive PartType
  | camera | servoPID | throttlePID | speed | remote
  deriving DecidableEq, Repr

instance : Fintype PartType where
  elems := {.camera, .servoPID, .throttlePID, .speed, .remote}
  complete p := by cases p <;> decide

/-- The cell `(int)part_type_` of an array of `PART_NUMBER = 4` elements; the remote's index, 4,
lies outside. -/
def PartType.cell : PartType → Option (Fin 4)
  | .camera => some 0
  | .servoPID => some 1
  | .throttlePID => some 2
  | .speed => some 3
  | .remote => none

/-- The `double` members of the class `State`. -/
inductive Datum
  | speed
  | direction
  | targetSpeed
  | servoPID (i : Fin 3)
  | throttlePID (i : Fin 3)
  deriving DecidableEq, Repr

/-- The class `State`, the object in shared memory. -/
structure State where
  auto : Bool
  data : Datum → ℚ
  isNewData : Fin 6 → Bool
  needCompulsiveCheckpoint : Fin 4 → Bool
  averageTimePerCycle : Fin 4 → ℤ

namespace State

/-- A store to a `double` member. -/
def setDatum (s : State) (d : Datum) (x : ℚ) : State :=
  { s with data := Function.update s.data d x }

/-- A store to `is_new_data[d]`. -/
def setNew (s : State) (d : Fin 6) (b : Bool) : State :=
  { s with isNewData := Function.update s.isNewData d b }

/-- A store to `need_compulsive_checkpoint[i]`. -/
def setNeed (s : State) (i : Fin 4) (b : Bool) : State :=
  { s with needCompulsiveCheckpoint := Function.update s.needCompulsiveCheckpoint i b }

/-- A store to `average_time_per_cycle[i]`. -/
def setAverage (s : State) (i : Fin 4) (x : ℤ) : State :=
  { s with averageTimePerCycle := Function.update s.averageTimePerCycle i x }

end State

/-- `Car::InitState`: what the fresh, zero-filled object holds after it. The loop stores `false` and
0 in the cells 0 to 3 of the arrays; the others are zero already. -/
def initState : State where
  auto := false
  data := fun _ => 0
  isNewData := fun _ => false
  needCompulsiveCheckpoint := fun _ => false
  averageTimePerCycle := fun _ => 0

end Vehicle.Recovery
