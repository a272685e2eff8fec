import Mathlib.Algebra.Order.Group.Unbundled.Int
import Vehicle.Recoverybase.Placement

/-!
# recoverybase: the timer of the unit checkpoints

`Car::CheckUnitCheckpoint` as a function of the clock reading and of the State it finds. A part is
due when the reading lies further from its `last_unit_checkpoint` than half its average cycle, in
either direction, and then the reading is stored, whether or not the part is dumped. So after a call
no part is overdue, and a dump is never early (`unit_timer`). The statements of the manager do what
the function does (`exists_pass`).
-/

namespace Vehicle.Recoverybase

open Vehicle.Trace

/-! ### A call -/

/-- An iteration of `CheckUnitCheckpoint`; the list collects the parts `SaveState` is called for. -/
def unitStep (method : Method) (tv : Timeval) (r : State × List PartType) (i : PartType) :
    State × List PartType :=
  if unitDue r.1 tv i then
    ((CarAct.storeUnit i).write tv r.1,
      if method.saves .unit && stageIs r.1 i then r.2 ++ [i] else r.2)
  else r

/-- **`Car::CheckUnitCheckpoint`**, when the clock reads `tv`. -/
def checkUnitCheckpoint (method : Method) (tv : Timeval) (s : State) : State × List PartType :=
  addPart.foldl (unitStep method tv) (s, [])

section Call

variable {method : Method} {tv : Timeval} {s : State} {i j : PartType} {ps acc : List PartType}

/-- An iteration stores the reading for the part that is due. -/
theorem last_unitStep (r : State × List PartType) (i j : PartType) :
    (unitStep method tv r i).1.lastUnitCheckpoint j =
      if j = i ∧ unitDue r.1 tv j then tv else r.1.lastUnitCheckpoint j := by
  unfold unitStep
  by_cases hj : j = i
  · subst hj
    by_cases hdue : unitDue r.1 tv j
    · simp [hdue, CarAct.write]
    · simp [hdue]
  · split <;> simp [hj, CarAct.write]

/-- It does not concern the other parts. -/
theorem unitDue_unitStep (r : State × List PartType) (h : j ≠ i) :
    unitDue (unitStep method tv r i).1 tv j = unitDue r.1 tv j := by
  unfold unitStep
  split
  · simp [unitDue, CarAct.write, h]
  · rfl

theorem stageIs_unitStep (r : State × List PartType) :
    stageIs (unitStep method tv r i).1 j = stageIs r.1 j := by
  unfold unitStep
  split <;> rfl

theorem mem_saved_unitStep (r : State × List PartType) :
    j ∈ (unitStep method tv r i).2 ↔
      j ∈ r.2 ∨ j = i ∧ unitDue r.1 tv j ∧ method.saves .unit ∧ stageIs r.1 j := by
  unfold unitStep
  by_cases hdue : unitDue r.1 tv i
  · rw [if_pos hdue]
    split
    case isTrue hs =>
      simp only [Bool.and_eq_true] at hs
      constructor
      · intro h
        rcases List.mem_append.mp h with h | h
        · exact Or.inl h
        · obtain rfl := List.mem_singleton.mp h
          exact Or.inr ⟨rfl, hdue, hs⟩
      · rintro (h | ⟨rfl, -⟩)
        · exact List.mem_append_left _ h
        · exact List.mem_append_right _ (List.mem_singleton_self _)
    case isFalse hs =>
      refine ⟨Or.inl, ?_⟩
      rintro (h | ⟨rfl, -, h⟩)
      · exact h
      · exact absurd (by simpa using h) hs
  · rw [if_neg hdue]
    refine ⟨Or.inl, ?_⟩
    rintro (h | ⟨rfl, h, -⟩)
    · exact h
    · exact absurd h hdue

/-- **The loop over the parts.** -/
theorem last_foldl (r : State × List PartType) (hps : ps.Nodup) (j : PartType) :
    (ps.foldl (unitStep method tv) r).1.lastUnitCheckpoint j =
      if j ∈ ps ∧ unitDue r.1 tv j then tv else r.1.lastUnitCheckpoint j := by
  induction ps generalizing r with
  | nil => simp
  | cons p ps ih =>
    obtain ⟨hp, hps⟩ := List.nodup_cons.mp hps
    rw [List.foldl_cons, ih _ hps, last_unitStep]
    by_cases hj : j = p
    · subst hj
      simp [hp]
    · simp [hj, unitDue_unitStep r hj]

theorem mem_saved_foldl (r : State × List PartType) (hps : ps.Nodup) :
    j ∈ (ps.foldl (unitStep method tv) r).2 ↔
      j ∈ r.2 ∨ j ∈ ps ∧ unitDue r.1 tv j ∧ method.saves .unit ∧ stageIs r.1 j := by
  induction ps generalizing r with
  | nil => simp
  | cons p ps ih =>
    obtain ⟨hp, hps⟩ := List.nodup_cons.mp hps
    rw [List.foldl_cons, ih _ hps, mem_saved_unitStep, stageIs_unitStep]
    by_cases hj : j = p
    · subst hj
      simp [hp]
    · simp [hj, unitDue_unitStep r hj]

/-- **What a call does to the timer of a part.** -/
theorem last_checkUnitCheckpoint (method : Method) (tv : Timeval) (s : State) (i : PartType) :
    (checkUnitCheckpoint method tv s).1.lastUnitCheckpoint i =
      if unitDue s tv i then tv else s.lastUnitCheckpoint i := by
  have hmem : i ∈ addPart := by cases i <;> decide
  rw [checkUnitCheckpoint, last_foldl _ (by decide)]
  simp [hmem]

/-- **Which parts a call dumps.** -/
theorem mem_saved_checkUnitCheckpoint (method : Method) (tv : Timeval) (s : State) (i : PartType) :
    i ∈ (checkUnitCheckpoint method tv s).2 ↔
      unitDue s tv i ∧ method.saves .unit ∧ stageIs s i := by
  have hmem : i ∈ addPart := by cases i <;> decide
  rw [checkUnitCheckpoint, mem_saved_foldl _ (by decide)]
  simp [hmem]

end Call

/-! ### A series of calls -/

/-- A clock reading in microseconds. -/
def micros (tv : Timeval) : ℤ := 1000000 * tv.tvSec + tv.tvUsec

theorem diffus_eq_abs (a b : Timeval) : diffus a b = |micros b - micros a| := by
  unfold diffus micros
  dsimp only
  split
  · rw [abs_of_pos (by omega)]
  · rw [abs_of_nonpos (by omega)]
    omega

/-- The threshold of a part. -/
def State.threshold (s : State) (i : PartType) : ℤ := (s.averageTimePerCycle i).tdiv interval

theorem unitDue_iff {s : State} {tv : Timeval} {i : PartType} :
    unitDue s tv i ↔ s.threshold i < |micros tv - micros (s.lastUnitCheckpoint i)| := by
  rw [← diffus_eq_abs]
  exact decide_eq_true_iff

/-- A call: what the clock reads, and the State it finds, up to `last_unit_checkpoint`, which only
the manager stores to. -/
structure UnitCall where
  tv : Timeval
  found : State

/-- The call, when the calls before have left `last`. -/
def UnitCall.run (method : Method) (last : PartType → Timeval) (c : UnitCall) :
    State × List PartType :=
  checkUnitCheckpoint method c.tv { c.found with lastUnitCheckpoint := last }

/-- `last_unit_checkpoint` after a series of calls; `Car::Run` has stored `tv` for every part. -/
def lastAfter (method : Method) (tv : Timeval) (calls : List UnitCall) : PartType → Timeval :=
  calls.foldl (fun last c => (c.run method last).1.lastUnitCheckpoint) fun _ => tv

theorem lastAfter_snoc (method : Method) (tv : Timeval) (calls : List UnitCall) (c : UnitCall) :
    lastAfter method tv (calls ++ [c]) =
      (c.run method (lastAfter method tv calls)).1.lastUnitCheckpoint := by
  rw [lastAfter, List.foldl_append]
  rfl

/-- Only readings of the clock are stored. -/
theorem lastAfter_mem (method : Method) (tv : Timeval) (calls : List UnitCall) (i : PartType) :
    lastAfter method tv calls i = tv ∨ ∃ c ∈ calls, lastAfter method tv calls i = c.tv := by
  induction calls using List.reverseRecOn with
  | nil => exact Or.inl rfl
  | append_singleton calls c ih =>
    rw [lastAfter_snoc, UnitCall.run, last_checkUnitCheckpoint]
    split
    · exact Or.inr ⟨c, by simp, rfl⟩
    · refine ih.imp_right ?_
      rintro ⟨c', hc', h⟩
      exact ⟨c', List.mem_append_left _ hc', h⟩

/-- **The timer of the unit checkpoints.** After every call of a series no part is overdue, and
every timer shows a reading of the clock; and a part is dumped at a reading that lies further from
its timer than half its average cycle. -/
theorem unit_timer (method : Method) (tv : Timeval) (calls : List UnitCall) (c : UnitCall)
    (havg : ∀ i, 0 ≤ c.found.averageTimePerCycle i) (i : PartType) :
    |micros c.tv - micros (lastAfter method tv (calls ++ [c]) i)| ≤ c.found.threshold i ∧
    (lastAfter method tv (calls ++ [c]) i = tv ∨
      ∃ c' ∈ calls ++ [c], lastAfter method tv (calls ++ [c]) i = c'.tv) ∧
    (i ∈ (c.run method (lastAfter method tv calls)).2 →
      c.found.threshold i < |micros c.tv - micros (lastAfter method tv calls i)|) := by
  refine ⟨?_, lastAfter_mem method tv (calls ++ [c]) i, ?_⟩
  · rw [lastAfter_snoc, UnitCall.run, last_checkUnitCheckpoint]
    split
    case isTrue hdue =>
      rw [sub_self, abs_zero]
      exact Int.tdiv_nonneg (havg i) (by decide)
    case isFalse hdue =>
      rw [unitDue_iff, not_lt] at hdue
      exact hdue
  · intro hi
    rw [UnitCall.run, mem_saved_checkUnitCheckpoint, unitDue_iff] at hi
    exact hi.1

/-- A State with averages of a second. -/
def seconds : State := { initState with averageTimePerCycle := fun _ => 1000000 }

/-- The clock steps back by two seconds after a call. -/
theorem unit_timer_back :
    (∀ i, 0 ≤ seconds.averageTimePerCycle i) ∧
    |micros ⟨8, 0⟩ -
        micros (lastAfter .both ⟨9, 0⟩ [⟨⟨10, 0⟩, seconds⟩, ⟨⟨8, 0⟩, seconds⟩] .speed)| ≤
      seconds.threshold .speed := by
  have havg : ∀ i, 0 ≤ seconds.averageTimePerCycle i := fun _ => show (0 : ℤ) ≤ 1000000 by decide
  exact ⟨havg, (unit_timer .both ⟨9, 0⟩ [⟨⟨10, 0⟩, seconds⟩] ⟨⟨8, 0⟩, seconds⟩ havg .speed).1⟩

/-! ### The statements of the manager -/

section Pass

variable {s : Sys} {i : PartType}

/-- The part a statement of the unit pass dumps. -/
def CarAct.saved : CarAct → Option PartType
  | .saveBegin .unit i => some i
  | _ => none

/-- The system after the manager has worked on the State and stands at `pc`. -/
def Sys.worked (s : Sys) (state : State) (pc : CarPc) : Sys :=
  { s with state := state, car := { s.car with pc := pc } }

/-- The statements of `SaveState` behind the guard. -/
theorem exists_save (cfg : Config) (hpc : s.car.pc = .stage .unit i) :
    ∃ acts : List CarAct, (system cfg).Run s (acts.map .car) (s.worked s.state (.store .unit i)) ∧
      acts.filterMap CarAct.saved = if stageIs s.state i then [i] else [] := by
  have htest : (system cfg).step s (.car (.testStage .unit i (stageIs s.state i))) =
      some (s.worked s.state (if stageIs s.state i then .save .unit i else .store .unit i)) :=
    step_iff.mpr ⟨⟨hpc, rfl⟩, rfl⟩
  by_cases hstage : stageIs s.state i
  · rw [if_pos hstage] at htest ⊢
    have hbegin : (system cfg).step (s.worked s.state (.save .unit i)) (.car (.saveBegin .unit i)) =
        some (s.worked s.state (.dump .unit i)) := step_iff.mpr ⟨rfl, rfl⟩
    have hend : (system cfg).step (s.worked s.state (.dump .unit i)) (.car (.saveEnd .unit i)) =
        some (s.worked s.state (.store .unit i)) := step_iff.mpr ⟨rfl, rfl⟩
    exact ⟨[_, _, _], ((Lts.Run.single htest).trans (.single hbegin)).trans (.single hend), rfl⟩
  · rw [if_neg hstage] at htest ⊢
    exact ⟨[_], .single htest, rfl⟩

/-- **An iteration of the unit pass**, with nobody else moving. -/
theorem exists_iteration (cfg : Config) (hpc : s.car.pc = .test .unit i) (acc : List PartType) :
    ∃ acts : List CarAct, (system cfg).Run s (acts.map .car)
        (s.worked (unitStep cfg.method s.car.tv (s.state, acc) i).1 (.afterPass .unit i)) ∧
      (unitStep cfg.method s.car.tv (s.state, acc) i).2 = acc ++ acts.filterMap CarAct.saved := by
  have htest : (system cfg).step s (.car (.testUnit i (unitDue s.state s.car.tv i))) =
      some (s.worked s.state (.afterTest cfg .unit i (unitDue s.state s.car.tv i))) :=
    step_iff.mpr ⟨⟨hpc, rfl⟩, rfl⟩
  unfold unitStep
  by_cases hdue : unitDue s.state s.car.tv i
  · have hstore : (system cfg).step (s.worked s.state (.store .unit i)) (.car (.storeUnit i)) =
        some (s.worked ((CarAct.storeUnit i).write s.car.tv s.state) (.afterPass .unit i)) :=
      step_iff.mpr ⟨rfl, rfl⟩
    rw [if_pos hdue]
    rw [hdue] at htest
    by_cases hsaves : cfg.method.saves .unit
    · have hpc' : CarPc.afterTest cfg .unit i true = .stage .unit i := by
        simp [CarPc.afterTest, hsaves]
      rw [hpc'] at htest
      obtain ⟨acts, hr, hsaved⟩ := exists_save cfg (s := s.worked s.state (.stage .unit i)) rfl
      refine ⟨.testUnit i true :: (acts ++ [.storeUnit i]), ?_, ?_⟩
      · rw [List.map_cons, List.map_append]
        exact (Lts.Run.single htest).trans (hr.trans (.single hstore))
      · have hsaved' : acts.filterMap CarAct.saved = if stageIs s.state i then [i] else [] := hsaved
        simp only [List.filterMap_cons, List.filterMap_append, hsaved', hsaves, CarAct.saved,
          Bool.true_and, List.filterMap_nil, List.append_nil]
        split <;> simp
    · have hpc' : CarPc.afterTest cfg .unit i true = .store .unit i := by
        simp [CarPc.afterTest, hsaves]
      rw [hpc'] at htest
      refine ⟨[_, _], (Lts.Run.single htest).trans (.single hstore), ?_⟩
      simp [hsaves, CarAct.saved]
  · have hpc' : CarPc.afterTest cfg .unit i false = .afterPass .unit i := rfl
    rw [if_neg hdue]
    rw [Bool.eq_false_of_not_eq_true hdue, hpc'] at htest
    refine ⟨[_], .single htest, ?_⟩
    simp [CarAct.saved]

/-- **The unit pass of the manager is `checkUnitCheckpoint`**, with nobody else moving: it dumps the
same parts in the same order and leaves the same State. -/
theorem exists_pass (cfg : Config) (hpc : s.car.pc = .test .unit .camera) :
    ∃ acts : List CarAct, (system cfg).Run s (acts.map .car)
        (s.worked (checkUnitCheckpoint cfg.method s.car.tv s.state).1 (.test .compulsive .camera)) ∧
      acts.filterMap CarAct.saved = (checkUnitCheckpoint cfg.method s.car.tv s.state).2 := by
  obtain ⟨acts₁, hr₁, hs₁⟩ := exists_iteration cfg hpc []
  let r₁ := unitStep cfg.method s.car.tv (s.state, []) .camera
  obtain ⟨acts₂, hr₂, hs₂⟩ :=
    exists_iteration cfg (s := s.worked r₁.1 (.test .unit .speed)) rfl r₁.2
  let r₂ := unitStep cfg.method s.car.tv r₁ .speed
  obtain ⟨acts₃, hr₃, hs₃⟩ :=
    exists_iteration cfg (s := s.worked r₂.1 (.test .unit .servoPID)) rfl r₂.2
  refine ⟨acts₁ ++ acts₂ ++ acts₃, ?_, ?_⟩
  · rw [List.map_append, List.map_append]
    exact (hr₁.trans hr₂).trans hr₃
  · calc (acts₁ ++ acts₂ ++ acts₃).filterMap CarAct.saved
        = ([] ++ acts₁.filterMap CarAct.saved ++ acts₂.filterMap CarAct.saved) ++
            acts₃.filterMap CarAct.saved := by simp
      _ = (r₁.2 ++ acts₂.filterMap CarAct.saved) ++ acts₃.filterMap CarAct.saved := by rw [← hs₁]
      _ = r₂.2 ++ acts₃.filterMap CarAct.saved := congrArg (· ++ _) hs₂.symm
      _ = (checkUnitCheckpoint cfg.method s.car.tv s.state).2 := hs₃.symm

end Pass

end Vehicle.Recoverybase
