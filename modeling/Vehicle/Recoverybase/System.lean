import Vehicle.Trace.Lts
import Vehicle.Recoverybase.Part

/-!
# recoverybase: the manager and the whole system

`Car::Run` of `car.cpp` with what it calls, one load or store of the State at a time, interleaved
with the parts it forks. `CheckUnitCheckpoint` and `CheckCompulsiveCheckpoint` are the same loop
over the parts with another test and another store at its end, so their program points are indexed
by the `Check`.

A label is enabled (`Enabled`) when its process stands at the statement it executes and the value it
carries is the right one; `next` is the state after it. `fork` and the loop of `SimulateFalut` walk
an `unordered_map`, so they visit the parts in any order. `criu` is taken at its word: `SaveState`
leaves the part running, and `RestoreState` puts a killed part back at a point it has occupied
(`Sys.occupied`), with the shared State as it is.
-/

namespace Vehicle.Recoverybase

open Vehicle.Trace

/-- The two checkpoint passes of the manager. -/
inductive Check
  | unit | compulsive
  deriving DecidableEq, Repr

/-- Whether the `switch (METHOD)` of a pass has a `SaveState` in its case. -/
def Method.saves : Method → Check → Bool
  | .unitOnly, .unit => true
  | .unitOnly, .compulsive => false
  | .compulsiveOnly, .unit => false
  | .compulsiveOnly, .compulsive => true
  | .both, .unit => true
  | .both, .compulsive => true

/-- Program points of the manager. -/
inductive CarPc
  /-- `gettimeofday(&tv, nullptr)` at the top of `Run` -/
  | start
  /-- `ForkPart()`, with the parts not forked yet -/
  | forkPart (todo : List PartType)
  /-- `state_->is_new_data[i] = false`, before the main loop -/
  | initNew (i : PartType)
  /-- `state_->need_compulsive_checkpoint[i] = false`, before the main loop -/
  | initNeed (i : PartType)
  /-- `state_->last_unit_checkpoint[i] = tv`, before the main loop -/
  | initUnit (i : PartType)
  /-- `int last_time = state_->times` -/
  | lastTime
  /-- `while (state_->times <= MAX_TIMES)` -/
  | whileTimes
  /-- `gettimeofday(&tv, nullptr)` of `CheckUnitCheckpoint` -/
  | clock
  /-- the `if` of a pass -/
  | test (c : Check) (i : PartType)
  /-- `if (state_->stage[i] == i)` -/
  | stage (c : Check) (i : PartType)
  /-- `SaveState(PartType(i))`, about to be called -/
  | save (c : Check) (i : PartType)
  /-- inside `SaveState(PartType(i))` -/
  | dump (c : Check) (i : PartType)
  /-- `last_unit_checkpoint[i] = tv`, respectively `need_compulsive_checkpoint[i] = false` -/
  | store (c : Check) (i : PartType)
  /-- `if (state_->times > FAULT_STEP && faluted == false)` -/
  | faultTest
  /-- the loop of `SimulateFalut`, with the parts not killed yet -/
  | simulateFalut (todo : List PartType)
  /-- `state_->is_new_data[i] = false`, after the kill -/
  | clearNew (i : PartType)
  /-- `RestoreState` of a part -/
  | restore (i : PartType)
  /-- after the main loop -/
  | finished
  deriving DecidableEq, Repr

/-- The manager: its program point, the `tv` of the function it is in, and `faluted`. -/
structure Car where
  pc : CarPc
  tv : Timeval
  faluted : Bool

/-- The whole system. `occupied p` lists the points part `p` has stood at, those a dump of it may
have been taken at. -/
structure Sys where
  state : State
  car : Car
  part : PartType → Proc
  occupied : PartType → List Local

/-- A statement the manager executes, with the value it loads or is given. -/
inductive CarAct
  | start (tv : Timeval)
  | fork (p : PartType)
  | createStateDir
  | initNew (i : PartType)
  | initNeed (i : PartType)
  | initUnit (i : PartType)
  | loadTimes (x : ℤ)
  | testLoop (b : Bool)
  | clock (tv : Timeval)
  | testUnit (i : PartType) (b : Bool)
  | testNeed (i : PartType) (b : Bool)
  | testStage (c : Check) (i : PartType) (b : Bool)
  | saveBegin (c : Check) (i : PartType)
  | saveEnd (c : Check) (i : PartType)
  | storeUnit (i : PartType)
  | clearNeed (i : PartType)
  | testFault (b : Bool)
  | kill (p : PartType)
  | clearNew (i : PartType)
  | restore (p : PartType) (l : Local)
  deriving DecidableEq, Repr

/-- One atomic step of a part or of the manager. -/
inductive Label
  | part (p : PartType) (a : Act)
  | car (a : CarAct)
  deriving DecidableEq, Repr

/-- The parts in `part_pid_`. -/
def addPart : List PartType := [.camera, .speed, .servoPID]

/-! ### Program points reached by `++i` -/

/-- After iteration `i` of a pass. -/
def CarPc.afterPass (c : Check) (i : PartType) : CarPc :=
  match i.succ, c with
  | some j, c => .test c j
  | none, .unit => .test .compulsive .camera
  | none, .compulsive => .faultTest

/-- After the test of a pass: the `switch` into `SaveState`'s guard, the store, or the next
iteration. -/
def CarPc.afterTest (cfg : Config) (c : Check) (i : PartType) (b : Bool) : CarPc :=
  if b then if cfg.method.saves c then .stage c i else .store c i else .afterPass c i

/-- After iteration `i` of the loop before the main loop. -/
def CarPc.afterInit (i : PartType) : CarPc :=
  match i.succ with
  | some j => .initNew j
  | none => .lastTime

/-- After iteration `i` of the loop that clears `is_new_data` after the kill. -/
def CarPc.afterClear (i : PartType) : CarPc :=
  match i.succ with
  | some j => .clearNew j
  | none => .restore .camera

/-- After `RestoreState(i)`. -/
def CarPc.afterRestore (i : PartType) : CarPc :=
  match i.succ with
  | some j => .restore j
  | none => .whileTimes

/-- In the loop of `SimulateFalut`, or after it. -/
def CarPc.killing : List PartType → CarPc
  | [] => .clearNew .camera
  | p :: todo => .simulateFalut (p :: todo)

/-- The parts `ForkPart` has still to fork. -/
def CarPc.toFork : CarPc → List PartType
  | .forkPart todo => todo
  | _ => []

/-- The parts `SimulateFalut` has still to kill. -/
def CarPc.toKill : CarPc → List PartType
  | .simulateFalut todo => todo
  | _ => []

/-! ### Steps of the manager -/

/-- The test `diffus(last_unit_checkpoint[i], tv) > average_time_per_cycle[i] / INTERVAL`. -/
def unitDue (s : State) (tv : Timeval) (i : PartType) : Bool :=
  decide (diffus (s.lastUnitCheckpoint i) tv > (s.averageTimePerCycle i).tdiv interval)

/-- The test `stage[i] == i`; the `bool` is promoted. -/
def stageIs (s : State) (i : PartType) : Bool := decide (ofBool (s.stage i) = i.toInt)

/-- When the manager can execute an act. -/
def CarAct.Enabled (s : Sys) : CarAct → Prop
  | .start _ => s.car.pc = .start
  | .fork p => p ∈ s.car.pc.toFork
  | .createStateDir => s.car.pc = .forkPart []
  | .initNew i => s.car.pc = .initNew i
  | .initNeed i => s.car.pc = .initNeed i
  | .initUnit i => s.car.pc = .initUnit i
  | .loadTimes x => s.car.pc = .lastTime ∧ x = s.state.times
  | .testLoop b => s.car.pc = .whileTimes ∧ b = decide (s.state.times ≤ maxTimes)
  | .clock _ => s.car.pc = .clock
  | .testUnit i b => s.car.pc = .test .unit i ∧ b = unitDue s.state s.car.tv i
  | .testNeed i b =>
    s.car.pc = .test .compulsive i ∧ b = s.state.needCompulsiveCheckpoint i
  | .testStage c i b => s.car.pc = .stage c i ∧ b = stageIs s.state i
  | .saveBegin c i => s.car.pc = .save c i
  | .saveEnd c i => s.car.pc = .dump c i
  | .storeUnit i => s.car.pc = .store .unit i
  | .clearNeed i => s.car.pc = .store .compulsive i
  | .testFault b =>
    s.car.pc = .faultTest ∧ b = (decide (s.state.times > faultStep) && !s.car.faluted)
  | .kill p => p ∈ s.car.pc.toKill
  | .clearNew i => s.car.pc = .clearNew i
  | .restore p l => s.car.pc = .restore p ∧ s.part p = .killed ∧ l ∈ s.occupied p

instance (s : Sys) : ∀ a : CarAct, Decidable (a.Enabled s)
  | .start _ => inferInstanceAs (Decidable (s.car.pc = .start))
  | .fork p => inferInstanceAs (Decidable (p ∈ s.car.pc.toFork))
  | .createStateDir => inferInstanceAs (Decidable (s.car.pc = .forkPart []))
  | .initNew i => inferInstanceAs (Decidable (s.car.pc = .initNew i))
  | .initNeed i => inferInstanceAs (Decidable (s.car.pc = .initNeed i))
  | .initUnit i => inferInstanceAs (Decidable (s.car.pc = .initUnit i))
  | .loadTimes x => inferInstanceAs (Decidable (s.car.pc = .lastTime ∧ x = s.state.times))
  | .testLoop b =>
    inferInstanceAs (Decidable (s.car.pc = .whileTimes ∧ b = decide (s.state.times ≤ maxTimes)))
  | .clock _ => inferInstanceAs (Decidable (s.car.pc = .clock))
  | .testUnit i b =>
    inferInstanceAs (Decidable (s.car.pc = .test .unit i ∧ b = unitDue s.state s.car.tv i))
  | .testNeed i b =>
    inferInstanceAs (Decidable
      (s.car.pc = .test .compulsive i ∧ b = s.state.needCompulsiveCheckpoint i))
  | .testStage c i b =>
    inferInstanceAs (Decidable (s.car.pc = .stage c i ∧ b = stageIs s.state i))
  | .saveBegin c i => inferInstanceAs (Decidable (s.car.pc = .save c i))
  | .saveEnd c i => inferInstanceAs (Decidable (s.car.pc = .dump c i))
  | .storeUnit i => inferInstanceAs (Decidable (s.car.pc = .store .unit i))
  | .clearNeed i => inferInstanceAs (Decidable (s.car.pc = .store .compulsive i))
  | .testFault b =>
    inferInstanceAs (Decidable
      (s.car.pc = .faultTest ∧ b = (decide (s.state.times > faultStep) && !s.car.faluted)))
  | .kill p => inferInstanceAs (Decidable (p ∈ s.car.pc.toKill))
  | .clearNew i => inferInstanceAs (Decidable (s.car.pc = .clearNew i))
  | .restore p l =>
    inferInstanceAs (Decidable (s.car.pc = .restore p ∧ s.part p = .killed ∧ l ∈ s.occupied p))

/-- The State after an act of the manager. -/
def CarAct.write (tv : Timeval) : CarAct → State → State
  | .initNew i, s => { s with isNewData := Function.update s.isNewData i.idx false }
  | .initNeed i, s =>
    { s with needCompulsiveCheckpoint := Function.update s.needCompulsiveCheckpoint i false }
  | .initUnit i, s => { s with lastUnitCheckpoint := Function.update s.lastUnitCheckpoint i tv }
  | .storeUnit i, s => { s with lastUnitCheckpoint := Function.update s.lastUnitCheckpoint i tv }
  | .clearNeed i, s =>
    { s with needCompulsiveCheckpoint := Function.update s.needCompulsiveCheckpoint i false }
  | .clearNew i, s => { s with isNewData := Function.update s.isNewData i.idx false }
  | _, s => s

/-- The manager after one of its acts. -/
def CarAct.move (cfg : Config) (c : Car) : CarAct → Car
  | .start tv => { c with pc := .forkPart addPart, tv := tv }
  | .fork p => { c with pc := .forkPart (c.pc.toFork.erase p) }
  | .createStateDir => { c with pc := .initNew .camera }
  | .initNew i => { c with pc := .initNeed i }
  | .initNeed i => { c with pc := .initUnit i }
  | .initUnit i => { c with pc := .afterInit i }
  | .loadTimes _ => { c with pc := .whileTimes }
  | .testLoop b => { c with pc := if b then .clock else .finished }
  | .clock tv => { c with pc := .test .unit .camera, tv := tv }
  | .testUnit i b => { c with pc := .afterTest cfg .unit i b }
  | .testNeed i b => { c with pc := .afterTest cfg .compulsive i b }
  | .testStage k i b => { c with pc := if b then .save k i else .store k i }
  | .saveBegin k i => { c with pc := .dump k i }
  | .saveEnd k i => { c with pc := .store k i }
  | .storeUnit i => { c with pc := .afterPass .unit i }
  | .clearNeed i => { c with pc := .afterPass .compulsive i }
  | .testFault b =>
    if b then { c with pc := .simulateFalut addPart, faluted := true }
    else { c with pc := .whileTimes }
  | .kill p => { c with pc := .killing (c.pc.toKill.erase p) }
  | .clearNew i => { c with pc := .afterClear i }
  | .restore p _ => { c with pc := .afterRestore p }

/-- The parts after an act of the manager: it forks, kills and restores them. -/
def CarAct.spawn (part : PartType → Proc) : CarAct → PartType → Proc
  | .fork p => Function.update part p (.running (.start p))
  | .kill p => Function.update part p .killed
  | .restore p l => Function.update part p (.running l)
  | _ => part

/-- The points occupied after an act of the manager. -/
def CarAct.record (occupied : PartType → List Local) : CarAct → PartType → List Local
  | .fork p => Function.update occupied p [.start p]
  | _ => occupied

/-! ### The system -/

/-- When a part can execute an act: it runs, stands at the statement, and the value is right. -/
def Proc.Enables (p : PartType) (s : State) (a : Act) : Proc → Prop
  | .running l => l.rest.head? = some a.instr ∧ a.Agrees p s l
  | _ => False

instance (p : PartType) (s : State) (a : Act) : ∀ q : Proc, Decidable (q.Enables p s a)
  | .running l => inferInstanceAs (Decidable (l.rest.head? = some a.instr ∧ a.Agrees p s l))
  | .unborn | .killed | .exited => isFalse id

/-- When a label can be executed. -/
def Label.Enabled (s : Sys) : Label → Prop
  | .part p a => (s.part p).Enables p s.state a
  | .car a => a.Enabled s

instance (s : Sys) : ∀ a : Label, Decidable (a.Enabled s)
  | .part p a => inferInstanceAs (Decidable ((s.part p).Enables p s.state a))
  | .car a => inferInstanceAs (Decidable (a.Enabled s))

/-- The process after an act it executes. -/
def Proc.after (p : PartType) (a : Act) : Proc → Proc
  | .running l => a.after p l
  | q => q

/-- The control point of a process that runs. -/
def Proc.points : Proc → List Local
  | .running l => [l]
  | _ => []

/-- The system after a label. -/
def Label.next (cfg : Config) (s : Sys) : Label → Sys
  | .part p a =>
    { s with
      state := a.write p s.state
      part := Function.update s.part p ((s.part p).after p a)
      occupied :=
        Function.update s.occupied p (((s.part p).after p a).points ++ s.occupied p) }
  | .car a =>
    { state := a.write s.car.tv s.state
      car := a.move cfg s.car
      part := a.spawn s.part
      occupied := a.record s.occupied }

/-- The system when `main` calls `Car::Run`: `Car::Init` has set the State up, no part is
forked. -/
def Sys.init (cfg : Config) : Sys where
  state := initState
  car := ⟨.start, ⟨0, 0⟩, cfg.faulted⟩
  part := fun _ => .unborn
  occupied := fun _ => []

/-- **The recoverybase program.** -/
def system (cfg : Config) : Lts Sys Label where
  init s := s = Sys.init cfg
  step s a := if a.Enabled s then some (a.next cfg s) else none

theorem step_iff {cfg : Config} {s t : Sys} {a : Label} :
    (system cfg).step s a = some t ↔ a.Enabled s ∧ t = a.next cfg s := by
  simp [system, eq_comm]

end Vehicle.Recoverybase
