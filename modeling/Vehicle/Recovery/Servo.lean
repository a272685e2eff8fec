import Vehicle.Recovery.Gains

/-!
# recovery: one announcement, many cycles

`ServoPID::WaitNeededNewData` clears the flag it has waited for only under an `if` on a flag of the
remote part, which is never raised (`Unarmed`). So once the camera has announced a direction,
`ServoPID` runs on it again and again: the law that it runs once for each announcement at most can
be broken in every run, unless the fork of one of the two has failed (`oncePerAnnouncement_iff`).

That it can be broken is shown by letting `ServoPID` go on alone (`progress`), with its requests for
checkpoints acknowledged.
-/

namespace Vehicle.Recovery

open Vehicle.Trace Vehicle.Trace.Cyclic

/-! ### A part goes on -/

/-- An act of a part at a statement, where the clock, the sensor and the network answer 0. -/
def Instr.act (p : PartType) (s : State) (l : Local) : Instr → Act
  | .clockStart => .clockStart ⟨0, 0⟩
  | .run => .run
  | .clearError => .clearError 0
  | .sample => .sample 0 0 0
  | .calcSpeed => .calcSpeed
  | .ifError => .testError (decide (l.speed.result1 = -1) || decide (l.speed.result2 = -1))
  | .clearResults => .clearResults 0
  | .storeSpeed => .storeSpeed l.speed.speed
  | .ifNew d n => .testIf d n (s.isNewData d)
  | .whileOld d => .testOld d (s.isNewData d)
  | .whileOldAnd d => .testOldAnd d (s.isNewData d)
  | .andOld d e => .testAndOld d e (s.isNewData e)
  | .storeNew d b => .storeNew d b
  | .setPID x y z =>
    match [x, y, z].find? fun d => (l.args d).isNone with
    | some d => .load (.setPID x y z) d (s.data d)
    | none => .setPID x y z
  | .getOutput actual setpoint =>
    match (actual :: setpoint.toList).find? fun d => (l.args d).isNone with
    | some d => .load (.getOutput actual setpoint) d (s.data d)
    | none => .getOutput actual setpoint (l.getOutput actual setpoint).1
  | .setDirect => .setDirect (l.output / 2 + 1.5)
  | .storeDirection => .storeDirection (l.output / 2 + 1.5)
  | .setSpeed => .setSpeed (l.output / 2 + 1.5)
  | .select => .selectIdle
  | .storeAuto => .storeAuto l.root.auto
  | .storeRoot d => .storeRoot d (l.root.data d)
  | .again => .again
  | .clockEnd => .clockEnd ⟨0, 0⟩
  | .loadAverage => .loadAverage ((p.cell.map s.averageTimePerCycle).getD 0)
  | .storeAverage => .storeAverage (nextAverage l.average l.tvStart l.tvEnd)
  | .storeNeed => .storeNeed
  | .whileNeed => .testNeed ((p.cell.map s.needCompulsiveCheckpoint).getD false)

section Act

variable {p : PartType} {s : State} {l : Local}

/-- An argument is loaded as long as one is missing. -/
theorem Instr.act_call (call : Instr)
    (hcall : call.args.find? (fun d => (l.args d).isNone) = none) :
    l.Ready call := by
  intro d hd hnone
  have := List.find?_eq_none.mp hcall d hd
  simp [hnone] at this

theorem Instr.act_load (call : Instr) {d : Datum}
    (hcall : call.args.find? (fun d => (l.args d).isNone) = some d) :
    (Act.load call d (s.data d)).Agrees p s l := by
  have hnone := List.find?_some hcall
  exact ⟨List.mem_of_find?_eq_some hcall, by simpa using hnone, rfl⟩

theorem Instr.act_instr (i : Instr) : (i.act p s l).instr = i := by
  cases i with
  | setPID x y z =>
    simp only [Instr.act]
    split <;> rfl
  | getOutput actual setpoint =>
    simp only [Instr.act]
    split <;> rfl
  | _ => rfl

/-- **No part is stuck**: at every statement it can execute an act, if it has a cell in the arrays
of the State. -/
theorem Instr.act_agrees (hp : p.cell.isSome = true) (i : Instr) : (i.act p s l).Agrees p s l := by
  obtain ⟨c, hc⟩ := Option.isSome_iff_exists.mp hp
  cases i with
  | setPID x y z =>
    simp only [Instr.act]
    split
    · rename_i d hd
      exact Instr.act_load (.setPID x y z) hd
    · rename_i hno
      exact Instr.act_call (.setPID x y z) hno
  | getOutput actual setpoint =>
    simp only [Instr.act]
    split
    · rename_i d hd
      exact Instr.act_load (.getOutput actual setpoint) hd
    · rename_i hno
      exact ⟨Instr.act_call (.getOutput actual setpoint) hno, rfl⟩
  | loadAverage | whileNeed => simp [Instr.act, Act.Agrees, hc]
  | storeAverage => exact ⟨hp, rfl⟩
  | storeNeed => exact hp
  | ifError | storeSpeed | ifNew d n | whileOld d | whileOldAnd d | andOld d e | setDirect |
    storeDirection | setSpeed | storeAuto | storeRoot d => rfl
  | _ => trivial

end Act

/-- Where the two parts are driven: the camera to its announcement, `ServoPID` to its evaluation. -/
def goal : PartType → Instr
  | .camera => .storeNew 1 true
  | _ => .getOutput .direction none

/-- The two parts. -/
def driven : List PartType := [.camera, .servoPID]

/-- How far a part is from its goal. -/
def Sys.toGoal (p : PartType) (s : Sys) : ℕ :=
  match s.part p with
  | .running l => distance (runALL p) (goal p) l.rest
  | _ => 0

theorem toGoal_eq {s : Sys} {p : PartType} {l : Local} (hl : s.part p = .running l) :
    s.toGoal p = distance (runALL p) (goal p) l.rest := by
  rw [Sys.toGoal, hl]

/-- A step on which a part is driven: an act of its own, or an acknowledgement. -/
def Label.Drives (p : PartType) (b : Label) : Prop :=
  (∃ c, b = .part p c) ∨ ∃ i, b = .acknowledge i

section Progress

variable {handled : Bool} {s t : Sys} {p : PartType} {l : Local} {i : Instr} {k : List Instr}

/-- A statement that neither waits nor is guarded brings a part nearer to its goal. -/
theorem Point.nearer {k' : List Instr} (h : Point p (i :: k)) (hp : p ∈ driven)
    (hk : k' ∈ targets p (i :: k)) (hne : i ≠ goal p) (hg : i.guarded = false)
    (hwait : i ≠ .whileNeed ∧ i ≠ .whileOld 1) :
    distance (runALL p) (goal p) k' < distance (runALL p) (goal p) (i :: k) := by
  have hall : ∀ p ∈ driven, ∀ k ∈ (runALL p).tails, ∀ k' ∈ targets p k, ∀ i ∈ k.head?,
      i ≠ goal p → i.guarded = false → i ≠ .whileNeed ∧ i ≠ .whileOld 1 →
      distance (runALL p) (goal p) k' < distance (runALL p) (goal p) k := by
    decide +kernel
  exact hall p hp (i :: k) h.mem_tails k' hk i rfl hne hg hwait

/-- A part that runs executes the act at its statement. -/
theorem exists_act (hp : p ≠ .remote) (hr : (system handled).Reachable s)
    (hl : s.part p = .running l) (hk : l.rest = i :: k) :
    ∃ t, (system handled).step s (.part p (i.act p s.state l)) = some t ∧
      t.part p = .running ((i.act p s.state l).move p l) := by
  have hcell : p.cell.isSome = true := by
    cases p <;> first | rfl | exact absurd rfl hp
  have hag : (i.act p s.state l).Agrees p s.state l := Instr.act_agrees hcell i
  have hs : (system handled).step s (.part p (i.act p s.state l)) =
      some (Label.next s (.part p (i.act p s.state l))) := by
    refine step_iff.mpr ⟨?_, rfl⟩
    show (s.part p).Enables p s.state _
    rw [hl]
    refine ⟨?_, hag⟩
    rw [hk, Instr.act_instr]
    rfl
  refine ⟨_, hs, ?_⟩
  rcases running_step hp hr hl hs with ⟨-, hother⟩ | ⟨b, k', hb, -, -, ht⟩
  · exact absurd rfl (hother _)
  · rw [← (Label.part.inj hb).2] at ht
    exact ht

theorem Reachable.snoc {a : Label} (hr : (system handled).Reachable s)
    (hs : (system handled).step s a = some t) : (system handled).Reachable t := by
  obtain ⟨s₀, tr, h₀, hrun⟩ := hr
  exact ⟨s₀, _, h₀, hrun.snoc hs⟩

theorem Reachable.run {tr : List Label} (hr : (system handled).Reachable s)
    (hrun : (system handled).Run s tr t) : (system handled).Reachable t := by
  obtain ⟨s₀, tr₀, h₀, hrun₀⟩ := hr
  exact ⟨s₀, _, h₀, hrun₀.trans hrun⟩

/-- The two parts do not stand at a guarded statement. -/
theorem guarded_eq_false (hp : p ∈ driven) (hr : (system handled).Reachable s)
    (hl : s.part p = .running l) (hk : l.rest = i :: k) : i.guarded = false := by
  by_cases hc : p ∈ controllers
  · have := (Unarmed.reachable hr).skipped p hc l hl
    rwa [hk] at this
  · have hall : ∀ p ∈ driven, p ∉ controllers → ∀ i ∈ runALL p, i.guarded = false := by
      decide
    exact hall p hp hc i
      ((Wf.reachable hr).pointAt hl hk).head_mem

theorem goal_mem (hp : p ∈ driven) : goal p ∈ runALL p := by
  have hall : ∀ p ∈ driven, goal p ∈ runALL p := by decide
  exact hall p hp

/-- At the request for a compulsive dump the part goes on once the request is acknowledged. -/
theorem progress_need (hp : p ∈ driven) (hr : (system true).Reachable s)
    (hl : s.part p = .running l) (hk : l.rest = .whileNeed :: k) (hne : .whileNeed ≠ goal p) :
    ∃ tr t l', (system true).Run s tr t ∧ (∀ b ∈ tr, b.Drives p) ∧ t.part p = .running l' ∧
      distance (runALL p) (goal p) l'.rest < distance (runALL p) (goal p) (.whileNeed :: k) := by
  have hpr : p ≠ .remote := by
    rintro rfl
    simp [driven] at hp
  obtain ⟨c, hc⟩ : ∃ c, p.cell = some c := by
    cases p <;> first | exact ⟨_, rfl⟩ | exact absurd rfl hpr
  have hack : (system true).step s (.acknowledge c) =
      some { s with state := s.state.setNeed c false } := step_iff.mpr ⟨rfl, rfl⟩
  obtain ⟨u, hs', hu⟩ := exists_act (s := { s with state := s.state.setNeed c false }) hpr
    (Reachable.snoc hr hack) hl hk
  refine ⟨[.acknowledge c, .part p _], u, _, (Lts.Run.single hack).trans (Lts.Run.single hs'),
    ?_, hu, ?_⟩
  · intro b hb
    rcases List.mem_pair.mp hb with rfl | rfl
    · exact Or.inr ⟨c, rfl⟩
    · exact Or.inl ⟨_, rfl⟩
  · have hact : Instr.act p (s.state.setNeed c false) l .whileNeed = .testNeed false := by
      simp [Instr.act, hc, State.setNeed]
    have hrest : (Act.move p (.testNeed false) l).rest = advance (runALL p) k := by
      simp [Act.move, Local.next, Local.skip, hk]
    rw [hact, hrest]
    exact distance_advance (goal_mem hp) hne

/-- **A part that is driven comes nearer to its goal**, if it does not wait for the flag 1. -/
theorem progress (hp : p ∈ driven) (hr : (system true).Reachable s)
    (hl : s.part p = .running l) (hk : l.rest = i :: k) (hne : i ≠ goal p)
    (hflag : i = .whileOld 1 → s.state.isNewData 1 = true) :
    ∃ tr t l', (system true).Run s tr t ∧ (∀ b ∈ tr, b.Drives p) ∧ t.part p = .running l' ∧
      distance (runALL p) (goal p) l'.rest < distance (runALL p) (goal p) (i :: k) := by
  have hpt := (Wf.reachable hr).pointAt hl hk
  have hpr : p ≠ .remote := by
    rintro rfl
    simp [driven] at hp
  obtain ⟨t, hs, ht⟩ := exists_act hpr hr hl hk
  by_cases hneed : i = .whileNeed
  · subst hneed
    exact progress_need hp hr hl hk hne
  · refine ⟨[.part p _], t, _, Lts.Run.single hs, ?_, ht, ?_⟩
    · intro b hb
      obtain rfl := List.mem_singleton.mp hb
      exact Or.inl ⟨_, rfl⟩
    · by_cases hold : i = .whileOld 1
      · subst hold
        have hact : Instr.act p s.state l (.whileOld 1) = .testOld 1 true := by
          simp [Instr.act, hflag rfl]
        have hrest : (Act.move p (.testOld 1 true) l).rest = advance (runALL p) k := by
          simp [Act.move, Local.next, Local.skip, hk]
        rw [hact, hrest]
        exact distance_advance (goal_mem hp) hne
      · have hag : (i.act p s.state l).Agrees p s.state l :=
          Instr.act_agrees (by cases p <;> first | rfl | exact absurd rfl hpr) i
        have hmem : ((i.act p s.state l).move p l).rest ∈ targets p (i :: k) := by
          have := move_mem_targets (a := i.act p s.state l) (by rw [hk, Instr.act_instr]) hag
          rwa [Instr.act_instr] at this
        exact hpt.nearer hp hmem hne (guarded_eq_false hp hr hl hk) ⟨hneed, hold⟩

end Progress

/-! ### `ServoPID` runs again and again -/

section Servo

variable {handled : Bool} {s t : Sys} {a : Label} {l : Local} {k : List Instr} {tr : List Label}

/-- **The flag stays raised**: nobody comes to the statement that clears it. -/
theorem flag_stays (hr : (system handled).Reachable s)
    (hs : (system handled).step s a = some t) (h : s.state.isNewData 1 = true) :
    t.state.isNewData 1 = true := by
  by_cases hother : ∀ b, a ≠ .part .servoPID b
  · exact raised_of_frame (c := .direction) hr hs hother h
  · rw [not_forall] at hother
    obtain ⟨b, hb⟩ := hother
    obtain rfl := not_not.mp hb
    obtain ⟨l, k, hl, hk, hag, -⟩ := part_step hs
    have hg := (Unarmed.reachable hr).skipped .servoPID (by decide) l hl
    rw [hk] at hg
    have hg : b.instr.guarded = false := hg
    rw [isNewData_step hs, leaves_eq hag, h]
    cases hi : b.instr with
    | storeNew e v =>
      cases v with
      | true =>
        simp only [Instr.leaves]
        split <;> rfl
      | false =>
        have hne : e ≠ 1 := by
          rintro rfl
          rw [hi] at hg
          cases hg
        simp [Instr.leaves, hne]
    | _ => rfl

/-- The part is in `RunALL`. -/
def Running (p : PartType) (s : Sys) : Prop := ∃ l, s.part p = .running l

theorem Running.step {p : PartType} (h : Running p s) (hp : p ≠ .remote)
    (hr : (system handled).Reachable s) (hs : (system handled).step s a = some t) :
    Running p t := by
  obtain ⟨l, hl⟩ := h
  rcases running_step hp hr hl hs with ⟨hl', -⟩ | ⟨b, k, -, -, -, hl'⟩
  · exact ⟨l, hl'⟩
  · exact ⟨_, hl'⟩

theorem Running.run {p : PartType} (h : Running p s) (hp : p ≠ .remote)
    (hr : (system handled).Reachable s) (hrun : (system handled).Run s tr t) : Running p t := by
  refine hrun.inv (I := fun _ => Running p) h ?_
  intro tr u a v hru hI hs
  exact hI.step hp (Reachable.run hr hru) hs

/-- `ServoPID` runs, and the camera has announced a direction. -/
structure Repeating (s : Sys) : Prop where
  reachable : (system true).Reachable s
  running : Running .servoPID s
  raised : s.state.isNewData 1 = true

theorem Repeating.step (h : Repeating s) (hs : (system true).step s a = some t) : Repeating t := by
  exact ⟨Reachable.snoc h.reachable hs, h.running.step (by decide) h.reachable hs,
    flag_stays h.reachable hs h.raised⟩

theorem Repeating.run (h : Repeating s) (hr : (system true).Run s tr t) : Repeating t :=
  hr.inv (I := fun _ => Repeating) h fun _ _ _ _ _ hI hs => hI.step hs

/-- With the direction loaded, the act at the call is the call. -/
theorem act_loaded {x : ℚ} {u : State} (hx : l.args .direction = some x) :
    Instr.act .servoPID u l (.getOutput .direction none) =
      .getOutput .direction none (l.getOutput .direction none).1 := by
  simp [Instr.act, hx]

/-- `ServoPID` evaluates its PID, where it stands at the call. -/
theorem evaluate_at_call (hr : (system handled).Reachable s) (hl : s.part .servoPID = .running l)
    (hk : l.rest = .getOutput .direction none :: k) :
    ∃ tr t, (system handled).Run s tr t ∧ (∀ b ∈ tr, b.Drives .servoPID) ∧
      0 < tr.countP (Label.evaluates .servoPID) := by
  obtain ⟨t, hs, ht⟩ := exists_act (by decide) hr hl hk
  cases hx : l.args .direction with
  | some x =>
    refine ⟨[.part .servoPID _], t, Lts.Run.single hs, ?_, ?_⟩
    · intro b hb
      obtain rfl := List.mem_singleton.mp hb
      exact Or.inl ⟨_, rfl⟩
    · rw [act_loaded hx]
      simp [Label.evaluates]
  | none =>
    -- the direction is loaded first
    have hact : Instr.act .servoPID s.state l (.getOutput .direction none) =
        .load (.getOutput .direction none) .direction (s.state.data .direction) := by
      simp [Instr.act, hx]
    rw [hact] at hs ht
    obtain ⟨u, hs', -⟩ := exists_act (by decide) (Reachable.snoc hr hs) ht
      (i := .getOutput .direction none) (k := k) hk
    refine ⟨[.part .servoPID _, .part .servoPID _], u,
      (Lts.Run.single hs).trans (Lts.Run.single hs'), ?_, ?_⟩
    · intro b hb
      rcases List.mem_pair.mp hb with rfl | rfl
      · exact Or.inl ⟨_, rfl⟩
      · exact Or.inl ⟨_, rfl⟩
    · have hx' : (Act.move .servoPID
          (.load (.getOutput .direction none) .direction (s.state.data .direction)) l).args
            .direction = some (s.state.data .direction) := by
        simp [Act.move]
      rw [act_loaded hx']
      simp [Label.evaluates]

/-- What drives `ServoPID` announces nothing. -/
theorem announces_of_drives {b : Label} (h : b.Drives .servoPID) :
    b.announces .direction = false := by
  rcases h with ⟨c, rfl⟩ | ⟨i, rfl⟩
  · cases c <;> simp [Label.announces, Announcement.announcer]
  · rfl

/-- **`ServoPID` can run any number of times** without a new announcement. -/
theorem Repeating.exists_evaluations (h : Repeating s) (n : ℕ) :
    ∃ tr t, (system true).Run s tr t ∧ tr.countP (Label.announces .direction) = 0 ∧
      n ≤ tr.countP (Label.evaluates .servoPID) := by
  have hmove : ∀ s, Repeating s → ∃ tr t, (system true).Run s tr t ∧ Repeating t ∧
      (∀ b ∈ tr, b.Drives .servoPID) ∧
      (0 < tr.countP (Label.evaluates .servoPID) ∨ t.toGoal .servoPID < s.toGoal .servoPID) := by
    intro s hs
    obtain ⟨l, hl⟩ := hs.running
    have hpt := (Wf.reachable hs.reachable).point .servoPID l hl
    obtain ⟨i, k, hk⟩ := List.exists_cons_of_ne_nil hpt.placed.1
    by_cases hi : i = goal .servoPID
    · subst hi
      obtain ⟨tr, t, hr, hd, hpos⟩ := evaluate_at_call hs.reachable hl hk
      exact ⟨tr, t, hr, hs.run hr, hd, Or.inl hpos⟩
    · obtain ⟨tr, t, l', hr, hd, hl', hlt⟩ :=
        progress (by decide) hs.reachable hl hk hi fun _ => hs.raised
      refine ⟨tr, t, hr, hs.run hr, hd, Or.inr ?_⟩
      rw [toGoal_eq hl', toGoal_eq hl, hk]
      exact hlt
  obtain ⟨tr, t, hr, -, hd, hn⟩ := Lts.exists_events _ hmove n h
  refine ⟨tr, t, hr, ?_, hn⟩
  rw [List.countP_eq_zero]
  intro b hb
  rw [announces_of_drives (hd b hb)]
  simp

/-! ### How it comes to that -/

/-- The camera comes to announce a direction. -/
theorem canReach_repeating (hr : (system true).Reachable s) (hservo : Running .servoPID s)
    (hcamera : Running .camera s) : (system true).CanReach Repeating s := by
  refine Lts.CanReach.of_measure (I := fun s => (system true).Reachable s ∧ Running .servoPID s ∧
    Running .camera s) (Sys.toGoal .camera) ?_ ⟨hr, hservo, hcamera⟩
  rintro s ⟨hr, hservo, l, hl⟩
  have hpt := (Wf.reachable hr).point .camera l hl
  obtain ⟨i, k, hk⟩ := List.exists_cons_of_ne_nil hpt.placed.1
  by_cases hi : i = .storeNew 1 true
  · -- the announcement
    subst hi
    obtain ⟨t, hs, -⟩ := exists_act (by decide) hr hl hk
    refine ⟨_, t, Lts.Run.single hs, Or.inl ⟨Reachable.snoc hr hs, ?_, ?_⟩⟩
    · exact hservo.step (by decide) hr hs
    · rw [isNewData_step hs]
      rfl
  · have hwait : i ≠ .whileOld 1 := by
      rintro rfl
      rw [hk] at hpt
      have hall : Instr.whileOld 1 ∉ runALL .camera := by decide
      exact hall hpt.head_mem
    obtain ⟨tr, t, l', hrun, -, hl', hlt⟩ :=
      progress (by decide) hr hl hk hi fun h => absurd h hwait
    refine ⟨tr, t, hrun, Or.inr ⟨⟨Reachable.run hr hrun, ?_, l', hl'⟩, ?_⟩⟩
    · exact hservo.run (by decide) hr hrun
    · rw [toGoal_eq hl', toGoal_eq hl, hk]
      exact hlt

/-- The part is still to be forked, or has been. -/
def Able (p : PartType) (s : Sys) : Prop :=
  p ∈ s.car.toFork ∨ s.part p = .constructing ∨ Running p s

/-- The part constructs itself. -/
theorem construct_running (handled : Bool) {p : PartType} (h : s.part p = .constructing) :
    ∃ t, (system handled).step s (.construct p true) = some t ∧ Running p t ∧
      ∀ q ≠ p, Able q s → Able q t := by
  refine ⟨_, step_iff.mpr ⟨⟨by rw [h]; rfl, Or.inl rfl⟩, rfl⟩, ⟨.start p, by simp [Label.next]⟩, ?_⟩
  intro q hq hable
  simpa [Able, Running, Label.next, Function.update_of_ne hq] using hable

/-- **A part whose fork has not failed can come to run**, and stands in the way of no other. -/
theorem Able.canReach (handled : Bool) {p : PartType} (h : Able p s) :
    (system handled).CanReach (fun t => Running p t ∧ ∀ q ≠ p, Able q s → Able q t) s := by
  rcases h with hfork | hcon | hrun
  · have hs : (system handled).step s (.car (.fork p true)) =
        some (Label.next s (.car (.fork p true))) := step_iff.mpr ⟨hfork, rfl⟩
    obtain ⟨t, hs', hrun, hable⟩ :=
      construct_running handled (s := Label.next s (.car (.fork p true))) (p := p)
        (by simp [Label.next, CarAct.spawn])
    refine ⟨_, t, (Lts.Run.single hs).trans (Lts.Run.single hs'), hrun, ?_⟩
    intro q hq hq'
    refine hable q hq ?_
    rcases hq' with hfork' | hpart
    · exact Or.inl ((List.mem_erase_of_ne hq).mpr hfork')
    · right
      simpa [Running, Label.next, CarAct.spawn, Function.update_of_ne hq] using hpart
  · obtain ⟨t, hs, hrun, hable⟩ := construct_running handled hcon
    exact ⟨_, t, Lts.Run.single hs, hrun, hable⟩
  · exact Lts.CanReach.refl ⟨hrun, fun q _ hq => hq⟩

end Servo

/-! ### Forks that fail -/

section Fork

variable {handled : Bool} {s t : Sys} {a : Label} {p : PartType} {tr : List Label}

/-- A part that is still to be forked. -/
theorem able_of_toFork (hfork : p ∈ s.car.toFork) (hs : (system handled).step s a = some t)
    (hno : a ≠ .car (.fork p false)) : Able p t := by
  rcases toFork_cases hs with he | ⟨q, ok, rfl, he⟩
  · exact Or.inl (by rw [he]; exact hfork)
  · by_cases hpq : p = q
    · subst hpq
      obtain ⟨-, rfl⟩ := step_iff.mp hs
      cases ok
      · exact absurd rfl hno
      · exact Or.inr (Or.inl (by simp [Label.next, CarAct.spawn]))
    · exact Or.inl (by rw [he]; exact (List.mem_erase_of_ne hpq).mpr hfork)

/-- A part that constructs itself. -/
theorem able_of_constructing (hcon : s.part p = .constructing) (hp : p ≠ .remote)
    (hs : (system handled).step s a = some t) : Able p t := by
  cases part_cases p hs with
  | still other part => exact Or.inr (Or.inl (part.trans hcon))
  | act b l k label hl hk hag part => cases hcon.symm.trans hl
  | construct ok label before hok part =>
    obtain rfl := hok.resolve_right hp
    exact Or.inr (Or.inr ⟨.start p, part⟩)
  | fork label mem part => exact Or.inr (Or.inl part)

theorem Able.step (h : Able p s) (hp : p ≠ .remote) (hr : (system handled).Reachable s)
    (hs : (system handled).step s a = some t) (hno : a ≠ .car (.fork p false)) : Able p t := by
  rcases h with hfork | hcon | hrun
  · exact able_of_toFork hfork hs hno
  · exact able_of_constructing hcon hp hs
  · exact Or.inr (Or.inr (hrun.step hp hr hs))

/-- A part is able to run as long as its fork has not failed. -/
theorem able_of_run (hp : p ≠ .remote) (h : (system handled).Run Sys.init tr s)
    (hno : .car (.fork p false) ∉ tr) : Able p s := by
  refine h.inv (I := fun tr s => .car (.fork p false) ∉ tr → Able p s) ?_ ?_ hno
  · intro _
    exact Or.inl (by cases p <;> decide)
  · intro tr s a t hr hI hs hno
    refine (hI fun hmem => hno (List.mem_append_left _ hmem)).step hp ⟨_, tr, rfl, hr⟩ hs ?_
    rintro rfl
    exact hno (by simp)

/-- The part has executed nothing, and never will. -/
structure Dead (p : PartType) (tr : List Label) (s : Sys) : Prop where
  unborn : s.part p = .unborn
  forked : p ∉ s.car.toFork
  silent : ∀ b, .part p b ∉ tr

theorem Dead.step (h : Dead p tr s) (hs : (system handled).step s a = some t) :
    Dead p (tr ++ [a]) t := by
  have hforked : p ∉ t.car.toFork := fun hmem => h.forked (toFork_subset hs hmem)
  cases part_cases p hs with
  | still other part =>
    refine ⟨part.trans h.unborn, hforked, fun b hmem => ?_⟩
    rcases List.mem_append.mp hmem with hmem | hmem
    · exact h.silent b hmem
    · exact other b (List.mem_singleton.mp hmem).symm
  | act b l k label hl hk hag part => cases h.unborn.symm.trans hl
  | construct ok label before hok part => cases h.unborn.symm.trans before
  | fork label mem part => exact absurd mem h.forked

/-- A part that has not been forked has executed nothing. -/
theorem silent_of_unborn (h : (system handled).Run Sys.init tr s) :
    s.part p = .unborn → ∀ b, .part p b ∉ tr := by
  refine h.inv (I := fun tr s => s.part p = .unborn → ∀ b, .part p b ∉ tr) (by simp) ?_
  intro tr s a t hr hI hs hun b hmem
  cases part_cases p hs with
  | still other part =>
    rcases List.mem_append.mp hmem with hmem | hmem
    · exact hI (part.symm.trans hun) b hmem
    · exact other b (List.mem_singleton.mp hmem).symm
  | act c l k label hl hk hag part =>
    rw [part, Act.after] at hun
    split at hun <;> cases hun
  | construct ok label before hok part =>
    rw [part] at hun
    cases ok <;> cases hun
  | fork label mem part => cases hun.symm.trans part

/-- **A part whose fork fails is dead.** -/
theorem dead_of_run (h : (system handled).Run Sys.init tr s)
    (hfail : .car (.fork p false) ∈ tr) : Dead p tr s := by
  refine h.inv (I := fun tr s => .car (.fork p false) ∈ tr → Dead p tr s) (by simp) ?_ hfail
  intro tr s a t hr hI hs hmem
  rcases List.mem_append.mp hmem with hmem | hmem
  · exact (hI hmem).step hs
  · obtain rfl := List.mem_singleton.mp hmem
    have hwf := Wf.reachable ⟨_, tr, rfl, hr⟩
    obtain ⟨hen, rfl⟩ := step_iff.mp hs
    have hun := hwf.unborn p hen
    refine ⟨hun, fun hbad => (hwf.nodup.mem_erase_iff.mp hbad).1 rfl, ?_⟩
    intro b hb
    rcases List.mem_append.mp hb with hb | hb
    · exact silent_of_unborn hr hun b hb
    · simp at hb

end Fork

/-! ### The law -/

/-- **`ServoPID` evaluates its PID once for each announcement of the camera at most.** -/
def OncePerAnnouncement (tr : List Label) : Prop :=
  tr.countP (Label.evaluates .servoPID) ≤ tr.countP (Label.announces .direction)

section Law

variable {handled : Bool} {s t : Sys} {tr : List Label}

/-- Without `ServoPID` nothing is evaluated. -/
theorem Dead.oncePerAnnouncement (h : Dead .servoPID tr s) : OncePerAnnouncement tr := by
  have hzero : tr.countP (Label.evaluates .servoPID) = 0 := by
    rw [List.countP_eq_zero]
    intro b hb
    have hother : ∀ c, b ≠ .part .servoPID c := by
      rintro c rfl
      exact h.silent c hb
    simp [evaluates_eq_false hother]
  rw [OncePerAnnouncement, hzero]
  exact Nat.zero_le _

/-- Without the camera `ServoPID` does not leave its loop. -/
theorem oncePerAnnouncement_of_camera (hr : (system handled).Run Sys.init tr s)
    (h : Dead .camera tr s) : OncePerAnnouncement tr := by
  have hzero : tr.countP (Label.evaluates .servoPID) = 0 := by
    rw [List.countP_eq_zero]
    intro b hb he
    obtain ⟨m, hm⟩ := List.mem_iff_getElem?.mp hb
    have hown : ∃ actual setpoint y, b = .part .servoPID (.getOutput actual setpoint y) := by
      unfold Label.evaluates at he
      split at he
      · rename_i q actual setpoint y
        obtain rfl : q = .servoPID := by simpa using he
        exact ⟨actual, setpoint, y, rfl⟩
      · cases he
    obtain ⟨actual, setpoint, y, rfl⟩ := hown
    obtain ⟨c, k, n, x, hreader, heval⟩ := exists_evaluation hr hm
    obtain ⟨a, ha, hsee⟩ := heval.sees
    obtain ⟨w, hw⟩ := exists_announced hr ha hsee
    obtain ⟨e, he, hstore⟩ := hw.stored
    obtain ⟨q, rfl⟩ := storesNew_eq_some hstore
    -- the flag seen has been raised by the camera
    have howner : (Instr.storeNew c.flag true).owner = some .camera := by
      cases c <;> first | rfl | cases hreader
    obtain rfl := owner_eq hr he howner
    exact h.silent _ (List.mem_of_getElem? he)
  rw [OncePerAnnouncement, hzero]
  exact Nat.zero_le _

/-- With both of them able to run, the law can be broken. -/
theorem exists_broken (h : (system true).Run Sys.init tr s) (hservo : Able .servoPID s)
    (hcamera : Able .camera s) :
    ∃ tr' t, (system true).Run s tr' t ∧ ¬ OncePerAnnouncement (tr ++ tr') := by
  have hreach : (system true).Reachable s := ⟨_, tr, rfl, h⟩
  have hrep : (system true).CanReach Repeating s := by
    obtain ⟨tr₁, u, hu, hrun, hable⟩ := hservo.canReach true
    have hreach₁ := Reachable.run hreach hu
    obtain ⟨tr₂, v, hv, hrun₂, -⟩ := (hable .camera (by decide) hcamera).canReach true
    have hreach₂ := Reachable.run hreach₁ hv
    have hrun' : Running .servoPID v := hrun.run (by decide) hreach₁ hv
    obtain ⟨tr₃, w, hw, hrep⟩ := canReach_repeating hreach₂ hrun' hrun₂
    exact ⟨_, w, (hu.trans hv).trans hw, hrep⟩
  obtain ⟨tr₁, u, hu, hrep⟩ := hrep
  obtain ⟨tr₂, v, hv, hzero, hmany⟩ :=
    hrep.exists_evaluations ((tr ++ tr₁).countP (Label.announces .direction) + 1)
  refine ⟨tr₁ ++ tr₂, v, hu.trans hv, ?_⟩
  unfold OncePerAnnouncement
  simp only [List.countP_append] at hmany ⊢
  omega

/-- **When the law holds for ever**: when the fork of one of the two has failed. In every other run
it can be broken. -/
theorem oncePerAnnouncement_iff (h : (system true).Run Sys.init tr s) :
    (∀ tr' t, (system true).Run s tr' t → OncePerAnnouncement (tr ++ tr')) ↔
      .car (.fork .servoPID false) ∈ tr ∨ .car (.fork .camera false) ∈ tr := by
  constructor
  · intro hlaw
    by_contra hno
    rw [not_or] at hno
    obtain ⟨tr', t, hr, hbroken⟩ := exists_broken h (able_of_run (by decide) h hno.1)
      (able_of_run (by decide) h hno.2)
    exact hbroken (hlaw tr' t hr)
  · intro hfail tr' t hr
    have hrun := h.trans hr
    rcases hfail with hfail | hfail
    · exact (dead_of_run hrun (List.mem_append_left _ hfail)).oncePerAnnouncement
    · exact oncePerAnnouncement_of_camera hrun
        (dead_of_run hrun (List.mem_append_left _ hfail))

end Law

/-- The fork of `ServoPID` fails first. -/
theorem oncePerAnnouncement_unforked :
    ∃ s, (system true).Run Sys.init [.car (.fork .servoPID false)] s ∧
      ∀ tr' t, (system true).Run s tr' t →
        OncePerAnnouncement ([.car (.fork .servoPID false)] ++ tr') := by
  obtain ⟨s, hr, -⟩ := (system true).exists_run (s := Sys.init) [.car (.fork .servoPID false)]
    (P := fun _ => True) (by decide +kernel)
  exact ⟨s, hr, (oncePerAnnouncement_iff hr).mpr (Or.inl (by simp))⟩

/-- After the first lap the request of `ServoPID` is acknowledged, and it runs a second time. -/
def secondCycle : List Label :=
  [.acknowledge 1, .part .servoPID (.testNeed false), .part .servoPID (.testOld 1 true),
    .part .servoPID (.testIf 3 1 false), .part .servoPID (.clockStart ⟨0, 0⟩),
    .part .servoPID (.testIf 4 2 false),
    .part .servoPID (.load (.getOutput .direction none) .direction 1.5),
    .part .servoPID (.getOutput .direction none (-0.0031763774490248175))]

/-- In the first lap and after it `ServoPID` evaluates its PID twice, on one announcement. -/
theorem second_cycle_unannounced : ∃ s, (system true).Run Sys.init (firstLap ++ secondCycle) s ∧
    ¬ OncePerAnnouncement (firstLap ++ secondCycle) := by
  obtain ⟨s, hr, -⟩ := (system true).exists_run (s := Sys.init) (firstLap ++ secondCycle)
    (P := fun _ => True) (by decide +kernel)
  refine ⟨s, hr, ?_⟩
  unfold OncePerAnnouncement
  decide

end Vehicle.Recovery
