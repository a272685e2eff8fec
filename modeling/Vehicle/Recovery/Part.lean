import Vehicle.Trace.Cyclic
import Vehicle.Recovery.MiniPID
import Vehicle.Recovery.State

/-!
# recovery: the parts

`part.cpp`, `camera.cpp`, `speed.cpp`, `servoPID.cpp`, `throttlePID.cpp` and `remote.cpp`. As in
recoverybase, the body of the loop of `Part::RunALL` is a list of statements with one access to the
State at most, a part's control point is the list of those still ahead in the cycle, and an `Act` is
the execution of a statement with the value it loads, stores or is given. Here statements branch:
an `if` skips some of those behind it, and a loop goes back.

The arguments of a call are evaluated in any order, one load each (`Act.load`), before the call.
What the camera sees, the sensor answers and the network brings is any value.
-/

namespace Vehicle.Recovery

open Vehicle.Trace.Cyclic

/-- A statement of `Part::RunALL`. -/
inductive Instr
  /-- `gettimeofday(&tv_start, nullptr)` -/
  | clockStart
  /-- a stretch of `Run()` without access to the State, whose outcome no other statement reads -/
  | run
  /-- `result1 = chalega_kya.Read(AS5048_CMD_CLEAR_ERROR)` and the start of the loop of
  `Speed::Run` -/
  | clearError
  /-- an iteration of the loop of `Speed::Run` -/
  | sample
  /-- `speed = double(difference_total) / 16383.0 / time_total` -/
  | calcSpeed
  /-- `if (result1 == -1 || result2 == -1)`; the next statement, else the one behind it -/
  | ifError
  /-- `result1 = chalega_kya.Read(AS5048_CMD_CLEAR_ERROR); result2 = result1` -/
  | clearResults
  /-- `state_->speed_ = speed` -/
  | storeSpeed
  /-- `if (state_->is_new_data[d])` before the next `n` statements -/
  | ifNew (d : Fin 6) (n : ℕ)
  /-- `while (state_->is_new_data[d] == false) usleep(50)` -/
  | whileOld (d : Fin 6)
  /-- the left side of `while (state_->is_new_data[d] == false && ..) usleep(50)` -/
  | whileOldAnd (d : Fin 6)
  /-- the right side of
  `while (state_->is_new_data[d] == false && state_->is_new_data[e] == false)` -/
  | andOld (d e : Fin 6)
  /-- `state_->is_new_data[d] = b` -/
  | storeNew (d : Fin 6) (b : Bool)
  /-- `pid.setPID(state_->p, state_->i, state_->d)` -/
  | setPID (p i d : Datum)
  /-- `double output = pid.getOutput(state_->actual, setpoint)`, where the setpoint is a member of
  the State, or 0 -/
  | getOutput (actual : Datum) (setpoint : Option Datum)
  /-- `state_->pca_->setDirect(output / 2 + 1.5)` -/
  | setDirect
  /-- `state_->direction_ = output / 2 + 1.5` -/
  | storeDirection
  /-- `state_->pca_->setSpeed(output / 2 + 1.5)` -/
  | setSpeed
  /-- the `select` of `Remote::Run`, with the `read` and `parse` when there is something to read;
  what `Run` sends does not depend on the State -/
  | select
  /-- `state_->auto_ = ..` -/
  | storeAuto
  /-- `state_->d = root[..]` -/
  | storeRoot (d : Datum)
  /-- the end of the `while(1)` of `Remote::Run` -/
  | again
  /-- `gettimeofday(&tv_end, nullptr)` -/
  | clockEnd
  /-- the load of `average_time_per_cycle[p]`; the second load of `UpdateAverageCycleTime` finds the
  same value, as only the part itself stores to the cell -/
  | loadAverage
  /-- the store of `average_time_per_cycle[p]` -/
  | storeAverage
  /-- `state_->need_compulsive_checkpoint[(int)part_type_] = true` -/
  | storeNeed
  /-- `while (state_->need_compulsive_checkpoint[(int)part_type_]) usleep(100)` -/
  | whileNeed
  deriving DecidableEq, Repr

/-! ### The member functions -/

namespace Camera

/-- `Camera::WaitNeededNewData` returns at once. -/
def waitNeededNewData : List Instr := []

/-- `Camera::UpdateIsNewData`. -/
def updateIsNewData : List Instr := [.storeNew 1 true, .storeNew 2 true]

/-- `Camera::Run` works on the members of `Camera` alone. -/
def run : List Instr := [.run]

end Camera

namespace Speed

/-- `Speed::WaitNeededNewData` returns at once. -/
def waitNeededNewData : List Instr := []

/-- `Speed::UpdateIsNewData`. -/
def updateIsNewData : List Instr := [.storeNew 0 true]

/-- `Speed::Run`. -/
def run : List Instr :=
  [.clearError, .sample, .calcSpeed, .ifError, .clearResults, .storeSpeed]

end Speed

namespace ServoPID

/-- `ServoPID::WaitNeededNewData`. -/
def waitNeededNewData : List Instr := [.whileOld 1, .ifNew 3 1, .storeNew 1 false]

/-- `ServoPID::UpdateIsNewData`. -/
def updateIsNewData : List Instr := []

/-- `ServoPID::Run`. -/
def run : List Instr :=
  [.ifNew 4 2, .setPID (.servoPID 0) (.servoPID 1) (.servoPID 2), .storeNew 4 false,
    .getOutput .direction none, .setDirect, .storeDirection]

end ServoPID

namespace ThrottlePID

/-- `ThrottlePID::WaitNeededNewData`. -/
def waitNeededNewData : List Instr :=
  [.whileOldAnd 0, .andOld 0 2, .storeNew 0 false, .storeNew 2 false]

/-- `ThrottlePID::UpdateIsNewData`. -/
def updateIsNewData : List Instr := []

/-- `ThrottlePID::Run`. -/
def run : List Instr :=
  [.ifNew 5 2, .setPID (.throttlePID 0) (.throttlePID 1) (.throttlePID 2), .storeNew 5 false,
    .getOutput .speed (some .targetSpeed), .setSpeed]

end ThrottlePID

namespace Remote

/-- `Remote::WaitNeededNewData` returns at once. -/
def waitNeededNewData : List Instr := []

/-- `Remote::UpdateIsNewData`. -/
def updateIsNewData : List Instr := [.storeNew 3 true, .storeNew 4 true, .storeNew 5 true]

/-- The stores of `Remote::Run` for one message. -/
def apply : List Instr :=
  [.storeAuto, .storeRoot .direction, .storeRoot .speed, .storeRoot (.servoPID 0),
    .storeRoot (.servoPID 1), .storeRoot (.servoPID 2), .storeRoot (.throttlePID 0),
    .storeRoot (.throttlePID 1), .storeRoot (.throttlePID 2)]

/-- The body of the `while(1)` of `Remote::Run`. -/
def serve : List Instr := [.select] ++ apply

/-- `Remote::Run`. -/
def run : List Instr := [.run] ++ serve ++ [.again]

end Remote

/-- `WaitNeededNewData` of a part. -/
def waitNeededNewData : PartType → List Instr
  | .camera => Camera.waitNeededNewData
  | .servoPID => ServoPID.waitNeededNewData
  | .throttlePID => ThrottlePID.waitNeededNewData
  | .speed => Speed.waitNeededNewData
  | .remote => Remote.waitNeededNewData

/-- `Run` of a part. -/
def run : PartType → List Instr
  | .camera => Camera.run
  | .servoPID => ServoPID.run
  | .throttlePID => ThrottlePID.run
  | .speed => Speed.run
  | .remote => Remote.run

/-- `UpdateIsNewData` of a part. -/
def updateIsNewData : PartType → List Instr
  | .camera => Camera.updateIsNewData
  | .servoPID => ServoPID.updateIsNewData
  | .throttlePID => ThrottlePID.updateIsNewData
  | .speed => Speed.updateIsNewData
  | .remote => Remote.updateIsNewData

/-- `Part::UpdateAverageCycleTime`. -/
def updateAverageCycleTime : List Instr := [.loadAverage, .storeAverage]

/-- `Part::SetCompulsiveCheckpoint`. -/
def setCompulsiveCheckpoint : List Instr := [.storeNeed]

/-- `Part::WaitCompulsiveCheckpoint`. -/
def waitCompulsiveCheckpoint : List Instr := [.whileNeed]

/-- **The body of the loop of `Part::RunALL`.** -/
def runALL (p : PartType) : List Instr :=
  waitNeededNewData p ++ [.clockStart] ++ run p ++ updateIsNewData p ++ [.clockEnd] ++
    updateAverageCycleTime ++ setCompulsiveCheckpoint ++ waitCompulsiveCheckpoint

/-! ### What a part keeps for itself -/

/-- The members of `Speed`, and the counter of the loop of `Speed::Run`. -/
structure Speed.Members where
  result1 : ℤ
  result2 : ℤ
  difference : ℤ
  differenceTotal : ℤ
  timeTaken : ℚ
  timeTotal : ℚ
  speed : ℚ
  i : ℕ
  deriving DecidableEq

namespace Speed

/-- The constructor of `Speed`. -/
def Members.new : Members := ⟨0, 0, 0, 0, 0, 0, 0, 1⟩

/-- The start of `Speed::Run`, when the first read answers `r`. -/
def Members.start (m : Members) (r : ℤ) : Members :=
  { m with result1 := r, differenceTotal := 0, timeTotal := 0, i := 1 }

/-- The difference of two results, with the passing of the zero position resolved. -/
def unwrap (r1 r2 : ℤ) : ℤ :=
  let difference := (r2 - r1) * -1
  if difference < -10467 then difference + 16383
  else if difference > 10467 then difference - 16383
  else difference

/-- An iteration of the loop: the two results, and the microseconds between them. A sample that is
filtered does not count. -/
def Members.sample (m : Members) (r1 r2 us : ℤ) : Members :=
  let m := { m with result1 := r1, result2 := r2 }
  if r1 < 0 ∨ r2 < 0 then m
  else
    let m := { m with timeTaken := us / 1000000 }
    if m.timeTaken > 0.0025 ∨ m.timeTaken < 0 then m
    else
      { m with
        difference := unwrap r1 r2
        differenceTotal := m.differenceTotal + unwrap r1 r2
        timeTotal := m.timeTotal + m.timeTaken
        i := m.i + 1 }

end Speed

/-- What the stores of `Remote::Run` take from `root`. -/
structure Command where
  auto : Bool
  data : Datum → ℚ

/-- What a part's process keeps for itself: its control point, the arguments evaluated for the call
ahead, the clock readings of the cycle and the average loaded, and the members of its class (`pid`
and `output` of the controllers, `speed` of `Speed`, `root` of `Remote`). -/
structure Local where
  rest : List Instr
  args : Datum → Option ℚ
  tvStart : Timeval
  tvEnd : Timeval
  average : ℤ
  pid : MiniPID
  output : ℚ
  speed : Speed.Members
  root : Command

/-- The controller a part constructs. -/
def newPid : PartType → MiniPID
  | .servoPID =>
    (MiniPID.new 0.00228677780020377 0.00277411402751383 (-0.000169192834187225)).setOutputLimits
      (-1) 1
  | .throttlePID => (MiniPID.new 0.00228677780020377 0 0).setOutputLimits 0 1
  | _ => MiniPID.init

/-- A part that has just been constructed, at the top of `RunALL`. -/
def Local.start (p : PartType) : Local where
  rest := runALL p
  args := fun _ => none
  tvStart := ⟨0, 0⟩
  tvEnd := ⟨0, 0⟩
  average := 0
  pid := newPid p
  output := 0
  speed := .new
  root := ⟨false, fun _ => 0⟩

/-! ### Executing a statement -/

/-- A statement executed, with the value it loads, stores or is given. -/
inductive Act
  | clockStart (tv : Timeval)
  | run
  | clearError (r : ℤ)
  | sample (r1 r2 us : ℤ)
  | calcSpeed
  | testError (b : Bool)
  | clearResults (r : ℤ)
  | storeSpeed (x : ℚ)
  | testIf (d : Fin 6) (n : ℕ) (b : Bool)
  | testOld (d : Fin 6) (b : Bool)
  | testOldAnd (d : Fin 6) (b : Bool)
  | testAndOld (d e : Fin 6) (b : Bool)
  | storeNew (d : Fin 6) (b : Bool)
  /-- the evaluation of an argument of the call -/
  | load (call : Instr) (d : Datum) (x : ℚ)
  | setPID (p i d : Datum)
  | getOutput (actual : Datum) (setpoint : Option Datum) (x : ℚ)
  | setDirect (x : ℚ)
  | storeDirection (x : ℚ)
  | setSpeed (x : ℚ)
  /-- `select` fails; the part exits -/
  | selectError
  /-- there is nothing to read -/
  | selectIdle
  | receive (c : Command)
  | storeAuto (b : Bool)
  | storeRoot (d : Datum) (x : ℚ)
  | again
  | clockEnd (tv : Timeval)
  | loadAverage (x : ℤ)
  | storeAverage (x : ℤ)
  | storeNeed
  | testNeed (b : Bool)

/-- The statement an act executes. -/
def Act.instr : Act → Instr
  | .clockStart _ => .clockStart
  | .run => .run
  | .clearError _ => .clearError
  | .sample _ _ _ => .sample
  | .calcSpeed => .calcSpeed
  | .testError _ => .ifError
  | .clearResults _ => .clearResults
  | .storeSpeed _ => .storeSpeed
  | .testIf d n _ => .ifNew d n
  | .testOld d _ => .whileOld d
  | .testOldAnd d _ => .whileOldAnd d
  | .testAndOld d e _ => .andOld d e
  | .storeNew d b => .storeNew d b
  | .load call _ _ => call
  | .setPID p i d => .setPID p i d
  | .getOutput actual setpoint _ => .getOutput actual setpoint
  | .setDirect _ => .setDirect
  | .storeDirection _ => .storeDirection
  | .setSpeed _ => .setSpeed
  | .selectError | .selectIdle | .receive _ => .select
  | .storeAuto _ => .storeAuto
  | .storeRoot d _ => .storeRoot d
  | .again => .again
  | .clockEnd _ => .clockEnd
  | .loadAverage _ => .loadAverage
  | .storeAverage _ => .storeAverage
  | .storeNeed => .storeNeed
  | .testNeed _ => .whileNeed

/-- The members of the State that are arguments of a call. -/
def Instr.args : Instr → List Datum
  | .setPID p i d => [p, i, d]
  | .getOutput actual setpoint => actual :: setpoint.toList
  | _ => []

/-- All arguments of a call are evaluated. -/
def Local.Ready (l : Local) (call : Instr) : Prop := ∀ d ∈ call.args, l.args d ≠ none

instance (l : Local) (call : Instr) : Decidable (l.Ready call) :=
  inferInstanceAs (Decidable (∀ d ∈ call.args, l.args d ≠ none))

/-- The value of an argument. -/
def Local.arg (l : Local) (d : Datum) : ℚ := (l.args d).getD 0

/-- `pid.getOutput` on the arguments evaluated. -/
def Local.getOutput (l : Local) (actual : Datum) (setpoint : Option Datum) : ℚ × MiniPID :=
  l.pid.getOutput (l.arg actual) (setpoint.elim 0 l.arg)

/-- The value `UpdateAverageCycleTime` stores over the average `avg`; only the microseconds of the
clock readings are used. -/
def nextAverage (avg : ℤ) (tvStart tvEnd : Timeval) : ℤ :=
  let t := tvEnd.tvUsec - tvStart.tvUsec
  if avg = 0 then t else (avg + t).tdiv 2

/-- The value of the act is the one its statement loads from the State or computes from what the
part has. An access outside of an array is no step. -/
def Act.Agrees (p : PartType) (s : State) (l : Local) : Act → Prop
  | .testError b => b = (decide (l.speed.result1 = -1) || decide (l.speed.result2 = -1))
  | .storeSpeed x => x = l.speed.speed
  | .testIf d _ b | .testOld d b | .testOldAnd d b | .testAndOld _ d b => b = s.isNewData d
  | .load call d x => d ∈ call.args ∧ l.args d = none ∧ x = s.data d
  | .setPID p i d => l.Ready (.setPID p i d)
  | .getOutput actual setpoint x =>
    l.Ready (.getOutput actual setpoint) ∧ x = (l.getOutput actual setpoint).1
  | .setDirect x | .storeDirection x | .setSpeed x => x = l.output / 2 + 1.5
  | .storeAuto b => b = l.root.auto
  | .storeRoot d x => x = l.root.data d
  | .loadAverage x => p.cell.map s.averageTimePerCycle = some x
  | .storeAverage x => p.cell.isSome ∧ x = nextAverage l.average l.tvStart l.tvEnd
  | .storeNeed => p.cell.isSome
  | .testNeed b => p.cell.map s.needCompulsiveCheckpoint = some b
  | .clockStart _ | .run | .clearError _ | .sample _ _ _ | .calcSpeed | .clearResults _
  | .storeNew _ _ | .selectError | .selectIdle | .receive _ | .again | .clockEnd _ => True

instance (p : PartType) (s : State) (l : Local) : ∀ a : Act, Decidable (a.Agrees p s l)
  | .testError b =>
    inferInstanceAs
      (Decidable (b = (decide (l.speed.result1 = -1) || decide (l.speed.result2 = -1))))
  | .storeSpeed x => inferInstanceAs (Decidable (x = l.speed.speed))
  | .testIf d _ b | .testOld d b | .testOldAnd d b | .testAndOld _ d b =>
    inferInstanceAs (Decidable (b = s.isNewData d))
  | .load call d x => inferInstanceAs (Decidable (d ∈ call.args ∧ l.args d = none ∧ x = s.data d))
  | .setPID p i d => inferInstanceAs (Decidable (l.Ready (.setPID p i d)))
  | .getOutput actual setpoint x =>
    inferInstanceAs (Decidable
      (l.Ready (.getOutput actual setpoint) ∧ x = (l.getOutput actual setpoint).1))
  | .setDirect x | .storeDirection x | .setSpeed x =>
    inferInstanceAs (Decidable (x = l.output / 2 + 1.5))
  | .storeAuto b => inferInstanceAs (Decidable (b = l.root.auto))
  | .storeRoot d x => inferInstanceAs (Decidable (x = l.root.data d))
  | .loadAverage x => inferInstanceAs (Decidable (p.cell.map s.averageTimePerCycle = some x))
  | .storeAverage x =>
    inferInstanceAs (Decidable (p.cell.isSome ∧ x = nextAverage l.average l.tvStart l.tvEnd))
  | .storeNeed => inferInstanceAs (Decidable (p.cell.isSome = true))
  | .testNeed b => inferInstanceAs (Decidable (p.cell.map s.needCompulsiveCheckpoint = some b))
  | .clockStart _ | .run | .clearError _ | .sample _ _ _ | .calcSpeed | .clearResults _
  | .storeNew _ _ | .selectError | .selectIdle | .receive _ | .again | .clockEnd _ => isTrue trivial

/-- The `double` member an act stores to, and the value. -/
def Act.stores : Act → Option (Datum × ℚ)
  | .storeSpeed x => some (.speed, x)
  | .storeDirection x => some (.direction, x)
  | .storeRoot d x => some (d, x)
  | _ => none

/-- The State after an act of part `p`. -/
def Act.write (p : PartType) : Act → State → State
  | .storeSpeed x, s => s.setDatum .speed x
  | .storeDirection x, s => s.setDatum .direction x
  | .storeRoot d x, s => s.setDatum d x
  | .storeAuto b, s => { s with auto := b }
  | .storeNew d b, s => s.setNew d b
  | .storeNeed, s => p.cell.elim s (s.setNeed · true)
  | .storeAverage x, s => p.cell.elim s (s.setAverage · x)
  | _, s => s

/-- The control point behind the statement at the head and the `n` statements that follow it, back
at the top behind the last one. -/
def Local.skip (p : PartType) (n : ℕ) (l : Local) : Local :=
  { l with rest := advance (runALL p) (l.rest.tail.drop n) }

/-- The control point behind the statement at the head. -/
def Local.next (p : PartType) (l : Local) : Local := l.skip p 0

/-- What an act does to the part that executes it. -/
def Act.move (p : PartType) : Act → Local → Local
  | .clockStart tv, l => { l.next p with tvStart := tv }
  | .clearError r, l => { l.next p with speed := l.speed.start r }
  | .sample r1 r2 us, l =>
    -- `i <= 8` goes on
    let m := l.speed.sample r1 r2 us
    if m.i ≤ 8 then { l with speed := m } else { l.next p with speed := m }
  | .calcSpeed, l =>
    { l.next p with
      speed := { l.speed with speed := l.speed.differenceTotal / 16383 / l.speed.timeTotal } }
  | .testError false, l => l.skip p 1
  | .clearResults r, l => { l.skip p 1 with speed := { l.speed with result1 := r, result2 := r } }
  | .testIf _ n false, l => l.skip p n
  | .testOld _ false, l => l
  | .testOldAnd _ true, l => l.skip p 1
  | .testAndOld d _ false, l => { l with rest := .whileOldAnd d :: l.rest }
  | .load _ d x, l => { l with args := Function.update l.args d (some x) }
  | .setPID x y z, l =>
    { l.next p with args := fun _ => none, pid := l.pid.setPID (l.arg x) (l.arg y) (l.arg z) }
  | .getOutput actual setpoint x, l =>
    { l.next p with
      args := fun _ => none
      pid := (l.getOutput actual setpoint).2
      output := x }
  | .selectIdle, l => l.skip p Remote.apply.length
  | .receive c, l => { l.next p with root := c }
  | .again, l => { l with rest := Remote.serve ++ l.rest }
  | .clockEnd tv, l => { l.next p with tvEnd := tv }
  | .loadAverage x, l => { l.next p with average := x }
  | .testNeed true, l => l
  | _, l => l.next p

/-- Whether an act ends the process: `exit(-1)` of `Remote::Run`, and `exit(1)` of
`Pca::calcTicks`. -/
def Act.exits : Act → Bool
  | .selectError => true
  | .setDirect x | .setSpeed x => decide (x > 2) || decide (x < 1)
  | _ => false

/-- A part as the operating system sees it: not forked yet, constructing its `Part`, in `RunALL`, or
gone. -/
inductive Proc
  | unborn
  | constructing
  | running (l : Local)
  | exited

/-- The process after an act. -/
def Act.after (p : PartType) (a : Act) (l : Local) : Proc :=
  if a.exits then .exited else .running (a.move p l)

end Vehicle.Recovery
