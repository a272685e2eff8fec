import Vehicle.Recoverybase.Placement

/-!
# recoverybase: turns

Which label a process executes next is fixed by the state, up to a clock reading, the part forked,
killed or restored next and the point it is restored at. `Sys.label` picks one, so that a run is
given by the list of the processes taking turns (`none` is the manager), and so that a process with
a statement to execute has a step (`Proc.act_enables`, `Sys.carAct_enabled`).
-/

namespace Vehicle.Recoverybase

open Vehicle.Trace

/-- The act of a part at a statement, with the value the State and its locals give; clocks read
zero. -/
def Instr.act (p : PartType) (s : State) (l : Local) : Instr → Act
  | .clockStart => .clockStart ⟨0, 0⟩
  | .run => .run
  | .loadTimes => .loadTimes s.times
  | .storeTimes => .storeTimes (l.reg + 1)
  | .whileOld d => .testNew d (s.isNewData d)
  | .storeNew d b => .storeNew d b
  | .storeNeed => .storeNeed
  | .whileNeed => .testNeed (s.needCompulsiveCheckpoint p)
  | .loadStage => .loadStage (s.stage p)
  | .storeStage => .storeStage (toBool ((l.reg + 1).tmod 3))
  | .clockEnd => .clockEnd ⟨0, 0⟩
  | .loadAverage => .loadAverage (s.averageTimePerCycle p)
  | .storeAverage => .storeAverage (nextAverage l.reg l.tvStart l.tvEnd)
  | .exitTest => .testTimes (decide (s.times > maxTimes))

theorem Instr.act_instr (p : PartType) (s : State) (l : Local) (i : Instr) :
    (i.act p s l).instr = i := by cases i <;> rfl

theorem Instr.act_agrees (p : PartType) (s : State) (l : Local) (i : Instr) :
    (i.act p s l).Agrees p s l := by cases i <;> first | rfl | trivial

/-- The act of a part that runs. -/
def Proc.act (p : PartType) (s : State) : Proc → Option Act
  | .running l => l.rest.head?.map (Instr.act p s l)
  | _ => none

theorem Proc.act_enables {p : PartType} {s : State} {q : Proc} {a : Act}
    (h : q.act p s = some a) : q.Enables p s a := by
  cases q with
  | running l =>
    obtain ⟨i, hi, rfl⟩ := Option.map_eq_some_iff.mp h
    exact ⟨by rw [hi, Instr.act_instr], Instr.act_agrees p s l i⟩
  | _ => cases h

/-- A part that runs has a step. -/
theorem exists_act {s : Sys} {p : PartType} {l : Local} (hw : Wf s) (hl : s.part p = .running l) :
    ∃ a k, (Label.part p a).Enabled s ∧ l.rest = a.instr :: k := by
  have hpl := hw.placedAt hl
  obtain ⟨i, k, hk⟩ := List.exists_cons_of_ne_nil hpl.1
  have hact : (s.part p).act p s.state = some (i.act p s.state l) := by
    simp [hl, Proc.act, hk]
  exact ⟨_, k, Proc.act_enables hact, by rw [Instr.act_instr, hk]⟩

/-- The act of the manager; a clock reads zero, the parts are forked and killed in the order of the
list, and a part is restored where it stood last. -/
def Sys.carAct (s : Sys) : Option CarAct :=
  match s.car.pc with
  | .start => some (.start ⟨0, 0⟩)
  | .forkPart [] => some .createStateDir
  | .forkPart (p :: _) => some (.fork p)
  | .initNew i => some (.initNew i)
  | .initNeed i => some (.initNeed i)
  | .initUnit i => some (.initUnit i)
  | .lastTime => some (.loadTimes s.state.times)
  | .whileTimes => some (.testLoop (decide (s.state.times ≤ maxTimes)))
  | .clock => some (.clock ⟨0, 0⟩)
  | .test .unit i => some (.testUnit i (unitDue s.state s.car.tv i))
  | .test .compulsive i => some (.testNeed i (s.state.needCompulsiveCheckpoint i))
  | .stage c i => some (.testStage c i (stageIs s.state i))
  | .save c i => some (.saveBegin c i)
  | .dump c i => some (.saveEnd c i)
  | .store .unit i => some (.storeUnit i)
  | .store .compulsive i => some (.clearNeed i)
  | .faultTest => some (.testFault (decide (s.state.times > faultStep) && !s.car.faluted))
  | .simulateFalut todo => todo.head?.map .kill
  | .clearNew i => some (.clearNew i)
  | .restore p => if s.part p = .killed then (s.occupied p).head?.map (.restore p) else none
  | .finished => none

theorem Sys.carAct_enabled {s : Sys} {a : CarAct} (h : s.carAct = some a) : a.Enabled s := by
  unfold Sys.carAct at h
  split at h
  case h_3 p todo hpc =>
    obtain rfl := Option.some.inj h
    simp [CarAct.Enabled, hpc, CarPc.toFork]
  case h_18 todo hpc =>
    obtain ⟨p, hp, rfl⟩ := Option.map_eq_some_iff.mp h
    simp only [CarAct.Enabled, hpc, CarPc.toKill]
    exact List.mem_of_head? hp
  case h_20 p hpc =>
    split at h
    · obtain ⟨l, hl, rfl⟩ := Option.map_eq_some_iff.mp h
      exact ⟨hpc, ‹_›, List.mem_of_head? hl⟩
    · cases h
  case h_21 => cases h
  all_goals
    rename_i hpc
    obtain rfl := Option.some.inj h
    first | exact hpc | exact ⟨hpc, rfl⟩

/-- The label of the process whose turn it is. -/
def Sys.label (s : Sys) : Option PartType → Option Label
  | some p => ((s.part p).act p s.state).map (.part p)
  | none => s.carAct.map .car

theorem Sys.label_enabled {s : Sys} {w : Option PartType} {a : Label} (h : s.label w = some a) :
    a.Enabled s := by
  cases w with
  | some p =>
    obtain ⟨b, hb, rfl⟩ := Option.map_eq_some_iff.mp h
    exact Proc.act_enables hb
  | none =>
    obtain ⟨b, hb, rfl⟩ := Option.map_eq_some_iff.mp h
    exact Sys.carAct_enabled hb

/-- The run in which the processes take the given turns: its labels, and the state it ends in. -/
def play (cfg : Config) : Sys → List (Option PartType) → Option (List Label × Sys)
  | s, [] => some ([], s)
  | s, w :: ws =>
    (s.label w).bind fun a => (play cfg (a.next cfg s) ws).map fun r => (a :: r.1, r.2)

theorem run_of_play {cfg : Config} {s : Sys} {ws : List (Option PartType)}
    {r : List Label × Sys} (h : play cfg s ws = some r) : (system cfg).Run s r.1 r.2 := by
  induction ws generalizing s r with
  | nil => cases h; exact .nil
  | cons w ws ih =>
    obtain ⟨a, ha, h⟩ := Option.bind_eq_some_iff.mp h
    obtain ⟨r', hr, rfl⟩ := Option.map_eq_some_iff.mp h
    exact (Lts.Run.single (step_iff.mpr ⟨Sys.label_enabled ha, rfl⟩)).trans (ih hr)

/-- A run from `Car::Run`'s start by turns, with a property that can be computed. -/
theorem exists_run (cfg : Config) (ws : List (Option PartType)) {P : List Label → Sys → Prop}
    [∀ tr s, Decidable (P tr s)]
    (h : ((play cfg (Sys.init cfg) ws).any fun r => decide (P r.1 r.2)) = true) :
    ∃ tr s, (system cfg).Run (Sys.init cfg) tr s ∧ P tr s := by
  obtain ⟨r, hr, hP⟩ := (Option.any_eq_true _ _).mp h
  exact ⟨r.1, r.2, run_of_play hr, of_decide_eq_true hP⟩

/-- The process that goes on under the eager schedule: the first part that has something to do but
to wait, and the manager when all wait. -/
def Sys.eager (s : Sys) : Option PartType :=
  addPart.find? fun p => ((s.part p).act p s.state).any fun a => !a.spins

/-- The first turns of the eager schedule. -/
def eagerTurns (cfg : Config) : ℕ → Sys → List (Option PartType)
  | 0, _ => []
  | n + 1, s =>
    match s.label s.eager with
    | some a => s.eager :: eagerTurns cfg n (a.next cfg s)
    | none => []

end Vehicle.Recoverybase
