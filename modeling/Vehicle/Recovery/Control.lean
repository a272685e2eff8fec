import Vehicle.Recovery.System

/-!
# recovery: where the parts stand

Which control points follow one another (`targets`), read off the statements alone, so that a fact
about all of them is settled by looking at the tails of `runALL` (`Point.of_mem_targets`). In
particular the `while(1)` of `Remote::Run` is never left. A step of the system moves one part along
its `targets` and leaves the others where they are (`running_cases`).
-/

namespace Vehicle.Recovery

open Vehicle.Trace Vehicle.Trace.Cyclic

/-! ### Control points -/

/-- The control points that may follow a control point. -/
def targets (p : PartType) : List Instr → List (List Instr)
  | [] => []
  | i :: k =>
    match i with
    | .ifNew _ n => [advance (runALL p) k, advance (runALL p) (k.drop n)]
    | .whileOldAnd _ | .ifError => [advance (runALL p) k, advance (runALL p) (k.drop 1)]
    | .clearResults => [advance (runALL p) (k.drop 1)]
    | .select => [advance (runALL p) k, advance (runALL p) (k.drop Remote.apply.length)]
    | .andOld d _ => [advance (runALL p) k, .whileOldAnd d :: i :: k]
    | .again => [Remote.serve ++ i :: k]
    | .sample | .setPID _ _ _ | .getOutput _ _ | .whileOld _ | .whileNeed =>
      [i :: k, advance (runALL p) k]
    | _ => [advance (runALL p) k]

/-- A call has arguments. -/
theorem Instr.eq_call {call : Instr} {d : Datum} (h : d ∈ call.args) :
    (∃ x y z, call = .setPID x y z) ∨ ∃ actual setpoint, call = .getOutput actual setpoint := by
  cases call with
  | setPID x y z => exact Or.inl ⟨x, y, z, rfl⟩
  | getOutput actual setpoint => exact Or.inr ⟨actual, setpoint, rfl⟩
  | _ => simp [Instr.args] at h

/-- The acts at a statement; while the arguments of a call are evaluated there are others than the
call. -/
def Instr.Runs : Instr → Act → Prop
  | .clearError, a => ∃ r, a = .clearError r
  | .sample, a => ∃ r1 r2 us, a = .sample r1 r2 us
  | .calcSpeed, a => a = .calcSpeed
  | .ifError, a => ∃ b, a = .testError b
  | .storeSpeed, a => ∃ x, a = .storeSpeed x
  | .storeNeed, a => a = .storeNeed
  | .whileNeed, a => ∃ b, a = .testNeed b
  | _, _ => True

theorem Act.Agrees.runs {p : PartType} {s : State} {l : Local} {a : Act} {i : Instr}
    (ha : a.Agrees p s l) (hi : a.instr = i) : i.Runs a := by
  subst hi
  cases a with
  | load call d x =>
    obtain ⟨hd, -⟩ := ha
    rcases Instr.eq_call hd with ⟨x, y, z, rfl⟩ | ⟨actual, setpoint, rfl⟩ <;> trivial
  | _ => simp [Act.instr, Instr.Runs]

/-- **An act moves its part to one of the targets.** -/
theorem move_mem_targets {p : PartType} {s : State} {l : Local} {a : Act} {k : List Instr}
    (hk : l.rest = a.instr :: k) (ha : a.Agrees p s l) :
    (a.move p l).rest ∈ targets p (a.instr :: k) := by
  have hnext : (l.next p).rest = advance (runALL p) k := by
    simp [Local.next, Local.skip, hk]
  have hskip : ∀ n, (l.skip p n).rest = advance (runALL p) (k.drop n) := by
    intro n
    simp [Local.skip, hk]
  cases a with
  | sample r1 r2 us =>
    simp only [Act.move, Act.instr, targets]
    split <;> simp_all [Act.instr]
  | testError b | testIf d n b | testOld d b | testOldAnd d b | testAndOld d e b | testNeed b =>
    cases b <;> simp_all [Act.move, Act.instr, targets]
  | load call d x =>
    obtain ⟨hd, -⟩ := ha
    rcases Instr.eq_call hd with ⟨x, y, z, rfl⟩ | ⟨actual, setpoint, rfl⟩
    · simp_all [Act.move, Act.instr, targets]
    · simp_all [Act.move, Act.instr, targets]
  | _ => simp_all [Act.move, Act.instr, targets]

/-- A control point of a part: a tail of the body of `RunALL`, for the remote one inside the
`while(1)` of `Remote::Run` or before it. -/
structure Point (p : PartType) (k : List Instr) : Prop where
  placed : Placed (runALL p) k
  serving : p = .remote → .again ∈ k

theorem Point.start (p : PartType) : Point p (runALL p) := by
  refine ⟨Placed.start ?_, ?_⟩ <;> cases p <;> decide

/-- So what holds of every tail of a body holds at every control point. -/
theorem Point.mem_tails {p : PartType} {k : List Instr} (h : Point p k) : k ∈ (runALL p).tails :=
  (List.mem_tails _ _).mpr h.placed.2

/-- The statement at a control point. -/
theorem Point.head_mem {p : PartType} {i : Instr} {k : List Instr} (h : Point p (i :: k)) :
    i ∈ runALL p :=
  h.placed.2.subset (List.mem_cons_self ..)

/-- **Control points are followed by control points.** -/
theorem Point.of_mem_targets {p : PartType} {k k' : List Instr} (h : Point p k)
    (hk : k' ∈ targets p k) : Point p k' := by
  have hall : ∀ p, ∀ k ∈ (runALL p).tails, (p = .remote → .again ∈ k) →
      ∀ k' ∈ targets p k,
        k' ≠ [] ∧ k' ∈ (runALL p).tails ∧ (p = .remote → .again ∈ k') := by
    decide +kernel
  obtain ⟨hne, htail, hserve⟩ := hall p k h.mem_tails h.serving k' hk
  exact ⟨⟨hne, (List.mem_tails _ _).mp htail⟩, hserve⟩

/-! ### Steps of the system -/

section Step

variable {handled : Bool} {s t : Sys} {a : Label} {p : PartType} {l : Local}

/-- What a step does to part `p`. -/
inductive PartStep (p : PartType) (s t : Sys) (a : Label) : Prop
  | still (other : ∀ b, a ≠ .part p b) (part : t.part p = s.part p)
  | act (b : Act) (l : Local) (k : List Instr) (label : a = .part p b) (hl : s.part p = .running l)
      (hk : l.rest = b.instr :: k) (agrees : b.Agrees p s.state l) (part : t.part p = b.after p l)
  | construct (ok : Bool) (label : a = .construct p ok) (before : s.part p = .constructing)
      (hok : ok = true ∨ p = .remote)
      (part : t.part p = if ok then .running (.start p) else .exited)
  | fork (label : a = .car (.fork p true)) (mem : p ∈ s.car.toFork)
      (part : t.part p = .constructing)

/-- **Every step does one of these to every part.** -/
theorem part_cases (p : PartType) (h : (system handled).step s a = some t) : PartStep p s t a := by
  cases a with
  | part q b =>
    obtain ⟨l, k, hl, hk, hag, -, -, ht⟩ := part_step h
    by_cases hpq : p = q
    · subst hpq
      exact .act b l k rfl hl hk hag (by rw [ht, Function.update_self])
    · refine .still (fun c hc => hpq (Label.part.inj hc).1.symm) ?_
      rw [ht, Function.update_of_ne hpq]
  | construct q ok =>
    obtain ⟨⟨hq, hok⟩, rfl⟩ := step_iff.mp h
    by_cases hpq : p = q
    · subst hpq
      have hcon : s.part p = .constructing := by
        cases hsp : s.part p <;> simp_all [Proc.isConstructing]
      exact .construct ok rfl hcon hok (by simp [Label.next])
    · exact .still (by simp) (by simp only [Label.next, Function.update_of_ne hpq])
  | car b =>
    obtain ⟨hen, rfl⟩ := step_iff.mp h
    cases b with
    | fork q ok =>
      cases ok
      · exact .still (by simp) rfl
      · by_cases hpq : p = q
        · subst hpq
          exact .fork rfl hen (by simp [Label.next, CarAct.spawn])
        · refine .still (by simp) ?_
          simp only [Label.next, CarAct.spawn, Function.update_of_ne hpq]
    | _ => exact .still (by simp) rfl
  | acknowledge i =>
    obtain ⟨-, rfl⟩ := step_iff.mp h
    exact .still (by simp) rfl

/-- What a step does to the parts still to be forked. -/
theorem toFork_cases (h : (system handled).step s a = some t) :
    t.car.toFork = s.car.toFork ∨
      ∃ q ok, a = .car (.fork q ok) ∧ t.car.toFork = s.car.toFork.erase q := by
  cases a with
  | part q b =>
    obtain ⟨-, -, -, -, -, -, hcar, -⟩ := part_step h
    exact Or.inl (by rw [hcar])
  | car b =>
    obtain ⟨hen, rfl⟩ := step_iff.mp h
    cases b with
    | fork q ok => exact Or.inr ⟨q, ok, rfl, rfl⟩
    | initFinished | loop | sleep =>
      left
      rw [show s.car = _ from hen]
      rfl
  | construct q ok | acknowledge i =>
    obtain ⟨-, rfl⟩ := step_iff.mp h
    exact Or.inl rfl

theorem toFork_subset (h : (system handled).step s a = some t) (hp : p ∈ t.car.toFork) :
    p ∈ s.car.toFork := by
  rcases toFork_cases h with he | ⟨q, ok, -, he⟩
  · exact he ▸ hp
  · exact List.mem_of_mem_erase (he ▸ hp)

/-- **How a part comes to stand where it stands**: it has not moved, it has just been constructed,
or it has executed an act. -/
theorem running_cases (h : (system handled).step s a = some t) (hl : t.part p = .running l) :
    (s.part p = .running l ∧ ∀ b, a ≠ .part p b) ∨ (l = .start p ∧ a = .construct p true) ∨
      ∃ b l₀ k, a = .part p b ∧ s.part p = .running l₀ ∧ l₀.rest = b.instr :: k ∧
        b.Agrees p s.state l₀ ∧ l = b.move p l₀ := by
  cases part_cases p h with
  | still other part =>
    left
    exact ⟨part ▸ hl, other⟩
  | act b l₀ k label hl₀ hk hag part =>
    right; right
    rw [part, Act.after] at hl
    split at hl
    · cases hl
    · exact ⟨b, l₀, k, label, hl₀, hk, hag, by simpa using hl.symm⟩
  | construct ok label before hok part =>
    right; left
    cases ok
    · rw [part] at hl
      cases hl
    · rw [part] at hl
      exact ⟨(Proc.running.inj hl).symm, label⟩
  | fork label mem part =>
    rw [part] at hl
    cases hl

/-- The system is well-formed: every part that runs stands at a control point, and the parts still
to fork are not born. -/
structure Wf (s : Sys) : Prop where
  point : ∀ p l, s.part p = .running l → Point p l.rest
  unborn : ∀ p ∈ s.car.toFork, s.part p = .unborn
  nodup : s.car.toFork.Nodup

theorem Wf.init : Wf Sys.init where
  point p l hl := by cases hl
  unborn _ _ := rfl
  nodup := by decide

/-- The control point of a part about to execute a statement. -/
theorem Wf.pointAt {i : Instr} {k : List Instr} (h : Wf s) (hl : s.part p = .running l)
    (hk : l.rest = i :: k) : Point p (i :: k) := by
  rw [← hk]
  exact h.point p l hl

theorem Wf.step (h : Wf s) (hs : (system handled).step s a = some t) : Wf t := by
  have hpoint : ∀ p l, t.part p = .running l → Point p l.rest := by
    intro p l hl
    rcases running_cases hs hl with ⟨hl, -⟩ | ⟨rfl, -⟩ | ⟨b, l₀, k, -, hl₀, hk, hag, rfl⟩
    · exact h.point p l hl
    · exact Point.start p
    · exact (h.pointAt hl₀ hk).of_mem_targets (move_mem_targets hk hag)
  have hunborn : ∀ p ∈ t.car.toFork, t.part p = .unborn := by
    intro p hp
    have hun := h.unborn p (toFork_subset hs hp)
    cases part_cases p hs with
    | still other part => rw [part, hun]
    | act b l k label hl hk hag part => cases hun.symm.trans hl
    | construct ok label before hok part => cases hun.symm.trans before
    | fork label mem part =>
      -- it is not to be forked again
      subst label
      obtain ⟨-, rfl⟩ := step_iff.mp hs
      exact absurd rfl (h.nodup.mem_erase_iff.mp hp).1
  refine ⟨hpoint, hunborn, ?_⟩
  rcases toFork_cases hs with he | ⟨q, ok, -, he⟩
  · rw [he]
    exact h.nodup
  · rw [he]
    exact h.nodup.erase q

theorem Wf.reachable (h : (system handled).Reachable s) : Wf s :=
  h.inv (by rintro s rfl; exact Wf.init) fun _ _ _ hI hs => Wf.step hI hs

/-- **What a part keeps for itself**: a property of a part that has just been constructed that every
act keeps holds of the part wherever it runs. -/
theorem local_inv {J : Local → Prop} (h₀ : J (.start p))
    (hmove : ∀ (s : State) (l : Local) (a : Act) (k : List Instr), J l →
      Point p (a.instr :: k) → l.rest = a.instr :: k → a.Agrees p s l → J (a.move p l))
    (h : (system handled).Reachable s) : ∀ l, s.part p = .running l → J l := by
  have hinv : Wf s ∧ ∀ l, s.part p = .running l → J l := by
    refine h.inv (I := fun s => Wf s ∧ ∀ l, s.part p = .running l → J l) ?_ ?_
    · rintro s rfl
      refine ⟨Wf.init, ?_⟩
      intro l hl
      cases hl
    · rintro s a t ⟨hwf, hJ⟩ hs
      refine ⟨hwf.step hs, ?_⟩
      intro l hl
      rcases running_cases hs hl with ⟨hl, -⟩ | ⟨rfl, -⟩ | ⟨b, l₀, k, -, hl₀, hk, hag, rfl⟩
      · exact hJ l hl
      · exact h₀
      · exact hmove s.state l₀ b k (hJ l₀ hl₀) (hwf.pointAt hl₀ hk) hk hag
  exact hinv.2

/-- A part executes statements of its own. -/
theorem instr_mem {tr : List Label} {n : ℕ} {b : Act} (h : (system handled).Run Sys.init tr s)
    (hn : tr[n]? = some (.part p b)) : b.instr ∈ runALL p := by
  obtain ⟨u, v, hr, hs⟩ := h.at_event hn
  obtain ⟨l, k, hl, hk, -⟩ := part_step hs
  have hpt := (Wf.reachable ⟨_, _, rfl, hr⟩).pointAt hl hk
  exact hpt.head_mem

end Step

/-! ### A first lap -/

/-- `ForkPart`, with the parts constructed. -/
def forkAll : List Label :=
  (addPart.flatMap fun p => [.car (.fork p true), .construct p true]) ++ [.car .initFinished]

/-- The end of a cycle of `p`, up to `WaitCompulsiveCheckpoint`, when the clock reads zero. -/
def requestCheckpoint (p : PartType) : List Label :=
  [.part p (.clockEnd ⟨0, 0⟩), .part p (.loadAverage 0), .part p (.storeAverage 0),
    .part p .storeNeed]

/-- The first cycles of the camera and of the speed sensor, which measures no motion. -/
def firstMeasurements : List Label :=
  [.part .camera (.clockStart ⟨0, 0⟩), .part .camera .run, .part .camera (.storeNew 1 true),
    .part .camera (.storeNew 2 true)] ++ requestCheckpoint .camera ++
  [.part .speed (.clockStart ⟨0, 0⟩), .part .speed (.clearError 0)] ++
    List.replicate 8 (.part .speed (.sample 0 0 1000)) ++
  [.part .speed .calcSpeed, .part .speed (.testError false), .part .speed (.storeSpeed 0),
    .part .speed (.storeNew 0 true)] ++ requestCheckpoint .speed

/-- The first cycles of the two controllers after that. -/
def firstControls : List Label :=
  [.part .servoPID (.testOld 1 true), .part .servoPID (.testIf 3 1 false),
    .part .servoPID (.clockStart ⟨0, 0⟩), .part .servoPID (.testIf 4 2 false),
    .part .servoPID (.load (.getOutput .direction none) .direction 0),
    .part .servoPID (.getOutput .direction none 0), .part .servoPID (.setDirect 1.5),
    .part .servoPID (.storeDirection 1.5)] ++ requestCheckpoint .servoPID ++
  [.part .throttlePID (.testOldAnd 0 true), .part .throttlePID (.storeNew 0 false),
    .part .throttlePID (.storeNew 2 false), .part .throttlePID (.clockStart ⟨0, 0⟩),
    .part .throttlePID (.testIf 5 2 false),
    .part .throttlePID (.load (.getOutput .speed (some .targetSpeed)) .speed 0),
    .part .throttlePID (.load (.getOutput .speed (some .targetSpeed)) .targetSpeed 0),
    .part .throttlePID (.getOutput .speed (some .targetSpeed) 0),
    .part .throttlePID (.setSpeed 1.5)] ++ requestCheckpoint .throttlePID

/-- The first cycles of all parts but the remote one. -/
def firstLap : List Label := forkAll ++ firstMeasurements ++ firstControls

end Vehicle.Recovery
