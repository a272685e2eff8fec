import Vehicle.Trace.Cyclic
import Vehicle.Recoverybase.State

/-!
# recoverybase: the parts

`part.cpp`, `camera.cpp`, `speed.cpp` and `servoPID.cpp`. The body of the `while (true)` of
`Part::RunALL` is a list of statements, each of them one load or store of a field of the State (or
no access at all), put together from the lists of the member functions it calls. A part's control
point is the list of the statements still ahead in the current cycle.

An `Act` is the execution of a statement with the value it loads or stores. `Act.Agrees` says when
the value is the right one, `Act.write` what the State is afterwards and `Act.move` where the part
stands; a loop that spins stays where it is.
-/

namespace Vehicle.Recoverybase

open Vehicle.Trace.Cyclic

/-- A statement of `Part::RunALL`. -/
inductive Instr
  /-- `gettimeofday(&tv_start, nullptr)` -/
  | clockStart
  /-- the call of `Run()`; its `costtime()` makes no access -/
  | run
  /-- `state_->times += 1`, the load -/
  | loadTimes
  /-- `state_->times += 1`, the store -/
  | storeTimes
  /-- `while (state_->is_new_data[d] == false) {}` -/
  | whileOld (d : Fin 3)
  /-- `state_->is_new_data[d] = b` -/
  | storeNew (d : Fin 3) (b : Bool)
  /-- `state_->need_compulsive_checkpoint[(int)part_type_] = true` -/
  | storeNeed
  /-- `while (state_->need_compulsive_checkpoint[(int)part_type_]) {}` -/
  | whileNeed
  /-- `stage[p] = (stage[p] + 1) % 3`, the load -/
  | loadStage
  /-- `stage[p] = (stage[p] + 1) % 3`, the store -/
  | storeStage
  /-- `gettimeofday(&tv_end, nullptr)` -/
  | clockEnd
  /-- the load of `average_time_per_cycle[p]`; the second load of `UpdateAverageCycleTime` finds
  the same value, as only the part itself stores to the cell after the fork -/
  | loadAverage
  /-- the store of `average_time_per_cycle[p]` -/
  | storeAverage
  /-- `if (state_->times > MAX_TIMES) exit(0)` -/
  | exitTest
  deriving DecidableEq, Repr

/-! ### The member functions -/

namespace Camera

/-- `Camera::WaitNeededNewData` returns at once. -/
def waitNeededNewData : List Instr := []

/-- `Camera::UpdateIsNewData`. -/
def updateIsNewData : List Instr := [.storeNew 0 true]

/-- `Camera::Run`. -/
def run : List Instr := [.run]

end Camera

namespace Speed

/-- `Speed::WaitNeededNewData`. -/
def waitNeededNewData : List Instr := [.whileOld 0, .storeNew 0 false]

/-- `Speed::UpdateIsNewData`. -/
def updateIsNewData : List Instr := [.storeNew 1 true]

/-- `Speed::Run`. -/
def run : List Instr := [.run]

end Speed

namespace ServoPID

/-- `ServoPID::WaitNeededNewData`. -/
def waitNeededNewData : List Instr := [.whileOld 1, .storeNew 1 false]

/-- `ServoPID::UpdateIsNewData`. -/
def updateIsNewData : List Instr := [.storeNew 2 true]

/-- `ServoPID::Run`. -/
def run : List Instr := [.run, .loadTimes, .storeTimes]

end ServoPID

/-- `Part::SetCompulsiveCheckpoint`. -/
def setCompulsiveCheckpoint : List Instr := [.storeNeed]

/-- `Part::WaitCompulsiveCheckpoint`. -/
def waitCompulsiveCheckpoint : List Instr := [.whileNeed]

/-- `Part::UpdateAverageCycleTime`. -/
def updateAverageCycleTime : List Instr := [.loadAverage, .storeAverage]

/-- The `switch (this->part_type_)` of `Part::RunALL`. -/
def runSwitch : PartType → List Instr
  | .camera =>
    Camera.waitNeededNewData ++
      Camera.run ++ Camera.updateIsNewData ++ setCompulsiveCheckpoint ++ waitCompulsiveCheckpoint ++
      Camera.run ++ setCompulsiveCheckpoint ++ waitCompulsiveCheckpoint ++
      Camera.run ++ setCompulsiveCheckpoint ++ waitCompulsiveCheckpoint
  | .speed =>
    Speed.run ++ setCompulsiveCheckpoint ++ waitCompulsiveCheckpoint ++
      Speed.waitNeededNewData ++
      Speed.run ++ Speed.updateIsNewData ++ setCompulsiveCheckpoint ++ waitCompulsiveCheckpoint ++
      Speed.run ++ setCompulsiveCheckpoint ++ waitCompulsiveCheckpoint
  | .servoPID =>
    ServoPID.run ++ setCompulsiveCheckpoint ++ waitCompulsiveCheckpoint ++
      ServoPID.run ++ setCompulsiveCheckpoint ++ waitCompulsiveCheckpoint ++
      ServoPID.waitNeededNewData ++
      ServoPID.run ++ ServoPID.updateIsNewData ++ setCompulsiveCheckpoint ++
      waitCompulsiveCheckpoint

/-- **The body of the loop of `Part::RunALL`.** -/
def runALL (p : PartType) : List Instr :=
  [.clockStart] ++ runSwitch p ++ [.loadStage, .storeStage, .clockEnd] ++ updateAverageCycleTime ++
    [.exitTest]

/-! ### Executing a statement -/

/-- What a part's process keeps for itself: its control point, the value loaded last, and the two
clock readings of the cycle. -/
structure Local where
  rest : List Instr
  reg : ℤ
  tvStart : Timeval
  tvEnd : Timeval
  deriving DecidableEq, Repr

/-- A part that has just been forked, at the top of `RunALL`. -/
def Local.start (p : PartType) : Local := ⟨runALL p, 0, ⟨0, 0⟩, ⟨0, 0⟩⟩

/-- A statement executed, with the value it loads or stores. -/
inductive Act
  | clockStart (tv : Timeval)
  | run
  | loadTimes (x : ℤ)
  | storeTimes (x : ℤ)
  | testNew (d : Fin 3) (b : Bool)
  | storeNew (d : Fin 3) (b : Bool)
  | storeNeed
  | testNeed (b : Bool)
  | loadStage (b : Bool)
  | storeStage (b : Bool)
  | clockEnd (tv : Timeval)
  | loadAverage (x : ℤ)
  | storeAverage (x : ℤ)
  | testTimes (b : Bool)
  deriving DecidableEq, Repr

/-- The statement an act executes. -/
def Act.instr : Act → Instr
  | .clockStart _ => .clockStart
  | .run => .run
  | .loadTimes _ => .loadTimes
  | .storeTimes _ => .storeTimes
  | .testNew d _ => .whileOld d
  | .storeNew d b => .storeNew d b
  | .storeNeed => .storeNeed
  | .testNeed _ => .whileNeed
  | .loadStage _ => .loadStage
  | .storeStage _ => .storeStage
  | .clockEnd _ => .clockEnd
  | .loadAverage _ => .loadAverage
  | .storeAverage _ => .storeAverage
  | .testTimes _ => .exitTest

/-- The value `UpdateAverageCycleTime` stores over the average `avg`. -/
def nextAverage (avg : ℤ) (tvStart tvEnd : Timeval) : ℤ :=
  let t := (diffus tvStart tvEnd).tdiv 4
  if avg = 0 then t else (avg + t).tdiv 2

/-- The value of the act is the one its statement loads from the State or computes from what the
part has loaded. -/
def Act.Agrees (p : PartType) (s : State) (l : Local) : Act → Prop
  | .loadTimes x => x = s.times
  | .storeTimes x => x = l.reg + 1
  | .testNew d b => b = s.isNewData d
  | .testNeed b => b = s.needCompulsiveCheckpoint p
  | .loadStage b => b = s.stage p
  | .storeStage b => b = toBool ((l.reg + 1).tmod 3)
  | .loadAverage x => x = s.averageTimePerCycle p
  | .storeAverage x => x = nextAverage l.reg l.tvStart l.tvEnd
  | .testTimes b => b = decide (s.times > maxTimes)
  | .clockStart _ | .run | .storeNew _ _ | .storeNeed | .clockEnd _ => True

instance (p : PartType) (s : State) (l : Local) : ∀ a : Act, Decidable (a.Agrees p s l)
  | .loadTimes x => inferInstanceAs (Decidable (x = s.times))
  | .storeTimes x => inferInstanceAs (Decidable (x = l.reg + 1))
  | .testNew d b => inferInstanceAs (Decidable (b = s.isNewData d))
  | .testNeed b => inferInstanceAs (Decidable (b = s.needCompulsiveCheckpoint p))
  | .loadStage b => inferInstanceAs (Decidable (b = s.stage p))
  | .storeStage b => inferInstanceAs (Decidable (b = toBool ((l.reg + 1).tmod 3)))
  | .loadAverage x => inferInstanceAs (Decidable (x = s.averageTimePerCycle p))
  | .storeAverage x => inferInstanceAs (Decidable (x = nextAverage l.reg l.tvStart l.tvEnd))
  | .testTimes b => inferInstanceAs (Decidable (b = decide (s.times > maxTimes)))
  | .clockStart _ | .run | .storeNew _ _ | .storeNeed | .clockEnd _ => isTrue trivial

/-- The State after an act of part `p`. -/
def Act.write (p : PartType) : Act → State → State
  | .storeTimes x, s => { s with times := x }
  | .storeNew d b, s => { s with isNewData := Function.update s.isNewData d b }
  | .storeNeed, s =>
    { s with needCompulsiveCheckpoint := Function.update s.needCompulsiveCheckpoint p true }
  | .storeStage b, s => { s with stage := Function.update s.stage p b }
  | .storeAverage x, s =>
    { s with averageTimePerCycle := Function.update s.averageTimePerCycle p x }
  | _, s => s

/-- The control point after the statement at the head, back at the top after the last one. -/
def Local.next (p : PartType) (l : Local) : Local :=
  { l with rest := advance (runALL p) l.rest.tail }

/-- Where a part stands after an act: the two loops spin on a true, respectively false, test. -/
def Act.move (p : PartType) : Act → Local → Local
  | .testNew _ false, l => l
  | .testNeed true, l => l
  | .clockStart tv, l => { l.next p with tvStart := tv }
  | .clockEnd tv, l => { l.next p with tvEnd := tv }
  | .loadTimes x, l => { l.next p with reg := x }
  | .loadStage b, l => { l.next p with reg := ofBool b }
  | .loadAverage x, l => { l.next p with reg := x }
  | _, l => l.next p

/-- A part as the operating system sees it: not forked yet, running, killed, or gone by
`exit(0)`. -/
inductive Proc
  | unborn
  | running (l : Local)
  | killed
  | exited
  deriving DecidableEq, Repr

/-- The process after an act: `exit(0)` ends it. -/
def Act.after (p : PartType) (a : Act) (l : Local) : Proc :=
  if a = .testTimes true then .exited else .running (a.move p l)

end Vehicle.Recoverybase
