import Vehicle.Recovery.Control

/-!
# recovery: requests for checkpoints that nobody answers

A part raises its flag and waits until it is lowered. Nobody lowers it: a part raises its own flag
only, and `Car::Run` makes no access to the State. So a part inside `WaitCompulsiveCheckpoint` finds
its flag raised (`Raised`), and is there for ever (`wedged`). With an acknowledgement it could go on
(`released`).
-/

namespace Vehicle.Recovery

open Vehicle.Trace Vehicle.Trace.Cyclic

/-- Whether a part is inside `WaitCompulsiveCheckpoint`. -/
def Proc.waits : Proc → Bool
  | .running l => decide (l.rest.head? = some .whileNeed)
  | _ => false

/-- Part `p` is inside `WaitCompulsiveCheckpoint`. -/
def Sys.InWait (p : PartType) (s : Sys) : Prop := (s.part p).waits = true

instance (p : PartType) (s : Sys) : Decidable (s.InWait p) :=
  inferInstanceAs (Decidable ((s.part p).waits = true))

theorem Sys.InWait.of_running {p : PartType} {s : Sys} {l : Local} (hl : s.part p = .running l)
    (hh : l.rest.head? = some .whileNeed) : s.InWait p := by
  rw [Sys.InWait, hl]
  exact decide_eq_true hh

theorem Sys.InWait.running {p : PartType} {s : Sys} (h : s.InWait p) :
    ∃ l, s.part p = .running l ∧ l.rest.head? = some .whileNeed := by
  unfold Sys.InWait at h
  cases hq : s.part p with
  | running l =>
    rw [hq] at h
    exact ⟨l, rfl, of_decide_eq_true h⟩
  | _ => rw [hq] at h; cases h

/-- The flag of part `p` is raised. -/
def State.Needs (s : State) (p : PartType) : Prop :=
  p.cell.map s.needCompulsiveCheckpoint = some true

instance (s : State) (p : PartType) : Decidable (s.Needs p) :=
  inferInstanceAs (Decidable (p.cell.map s.needCompulsiveCheckpoint = some true))

/-! ### The flag of a waiting part is raised -/

/-- A part that comes to `WaitCompulsiveCheckpoint` has just raised its flag. -/
theorem Point.arrival {p : PartType} {k k' : List Instr} (h : Point p k) (hk : k' ∈ targets p k)
    (hh : k'.head? = some .whileNeed) :
    k.head? = some .whileNeed ∨ k.head? = some .storeNeed := by
  have hall : ∀ p, ∀ k ∈ (runALL p).tails, ∀ k' ∈ targets p k,
      k'.head? = some .whileNeed → k.head? = some .whileNeed ∨ k.head? = some .storeNeed := by
    decide +kernel
  exact hall p k h.mem_tails k' hk hh

/-- A part lowers no flag. -/
theorem needs_write {p q : PartType} {s : State} {a : Act} (h : s.Needs p) :
    (a.write q s).Needs p := by
  cases a with
  | storeNeed =>
    cases hq : q.cell with
    | none => simpa [Act.write, hq] using h
    | some i =>
      cases hp : p.cell with
      | none => simp [State.Needs, hp] at h
      | some j =>
        simp only [State.Needs, hp, Option.map_some, Act.write, hq, Option.elim_some,
          State.setNeed] at h ⊢
        by_cases hij : j = i
        · rw [hij, Function.update_self]
        · rw [Function.update_of_ne hij]
          exact h
  | storeAverage x =>
    cases hq : q.cell <;> simpa [Act.write, hq, State.Needs, State.setAverage] using h
  | _ => exact h

theorem needs_storeNeed {p : PartType} {s : State} (h : p.cell.isSome) :
    (Act.write p .storeNeed s).Needs p := by
  obtain ⟨i, hi⟩ := Option.isSome_iff_exists.mp h
  simp [State.Needs, hi, Act.write, State.setNeed]

section Step

variable {s t : Sys} {a : Label} {p : PartType}

/-- Without acknowledgements a flag stays raised. -/
theorem needs_step (hs : (system false).step s a = some t) (h : s.state.Needs p) :
    t.state.Needs p := by
  cases a with
  | part q b =>
    obtain ⟨l, k, -, -, -, hst, -, -⟩ := part_step hs
    rw [hst]
    exact needs_write h
  | acknowledge i =>
    obtain ⟨hen, -⟩ := step_iff.mp hs
    cases hen
  | construct q ok | car b =>
    obtain ⟨-, rfl⟩ := step_iff.mp hs
    exact h

/-- The state of a run without acknowledgements: well-formed, and every waiting part's flag is
raised. -/
structure Raised (s : Sys) : Prop where
  wf : Wf s
  needs : ∀ p, s.InWait p → s.state.Needs p

theorem Raised.init : Raised Sys.init where
  wf := Wf.init
  needs p h := by cases h

theorem Raised.step (h : Raised s) (hs : (system false).step s a = some t) : Raised t := by
  refine ⟨h.wf.step hs, fun p hp => ?_⟩
  obtain ⟨l, hl, hh⟩ := hp.running
  rcases running_cases hs hl with ⟨hl, -⟩ | ⟨rfl, -⟩ | ⟨b, l₀, k, rfl, hl₀, hk, hag, rfl⟩
  · exact needs_step hs (h.needs p (.of_running hl hh))
  · -- the body of `RunALL` does not begin with the wait
    have hno : ∀ p, (runALL p).head? ≠ some .whileNeed := by
      intro p
      cases p <;> decide
    exact absurd hh (hno p)
  · rcases (h.wf.pointAt hl₀ hk).arrival (move_mem_targets hk hag) hh with hw | hw
    · rw [← hk] at hw
      exact needs_step hs (h.needs p (.of_running hl₀ hw))
    · have hi : b.instr = .storeNeed := by simpa using hw
      obtain rfl : b = .storeNeed := hag.runs hi
      obtain ⟨l, k, -, -, -, hst, -, -⟩ := part_step hs
      rw [hst]
      exact needs_storeNeed hag

/-! ### A waiting part waits for ever -/

/-- **A step keeps a waiting part waiting.** -/
theorem Raised.inWait_step (h : Raised s) (hs : (system false).step s a = some t)
    (hp : s.InWait p) : t.InWait p := by
  obtain ⟨l, hl, hh⟩ := hp.running
  cases part_cases p hs with
  | still other part => exact .of_running (part.trans hl) hh
  | act b l' k label hl' hk hag part =>
    obtain rfl : l = l' := Proc.running.inj (hl.symm.trans hl')
    rw [hk, List.head?_cons, Option.some.injEq] at hh
    obtain ⟨b, rfl⟩ : ∃ c, b = .testNeed c := hag.runs hh
    -- the test finds the flag raised
    have hb : b = true := by
      have hn := h.needs p hp
      rw [State.Needs, show p.cell.map _ = some b from hag] at hn
      exact Option.some.inj hn
    subst hb
    refine .of_running (l := l) (by rw [part]; rfl) ?_
    rw [hk]
    rfl
  | construct ok label before hok part => cases hl.symm.trans before
  | fork label mem part => cases hl.symm.trans (h.wf.unborn p mem)

theorem Raised.reachable (h : (system false).Reachable s) : Raised s :=
  h.inv (by rintro s rfl; exact Raised.init) fun _ _ _ hI hs => Raised.step hI hs

/-- In a state with raised flags a waiting part cannot leave its wait. -/
theorem Raised.not_canReach (h : Raised s) (hp : s.InWait p) :
    ¬ (system false).CanReach (fun t => ¬ t.InWait p) s := by
  refine Lts.CanReach.not_of_inv (I := fun t => Raised t ∧ t.InWait p) ?_ ?_ ⟨h, hp⟩
  · intro s a t hI hs
    exact ⟨hI.1.step hs, hI.1.inWait_step hs hI.2⟩
  · intro s hI hn
    exact hn hI.2

end Step

/-- **A part inside `WaitCompulsiveCheckpoint` never leaves it**, whatever the processes do: in no
reachable state is there a continuation in which it starts another cycle. -/
theorem wedged {s : Sys} {p : PartType} (h : (system false).Reachable s) (hp : s.InWait p) :
    ¬ (system false).CanReach (fun t => ¬ t.InWait p) s :=
  (Raised.reachable h).not_canReach hp

/-! ### All parts at once -/

/-- After its first cycle every part but the remote one waits on its own flag. -/
theorem exists_all_wait : ∃ s, (system false).Reachable s ∧
    ∀ p, p ≠ .remote → s.InWait p ∧ s.state.Needs p := by
  obtain ⟨s, hr, hs⟩ := (system false).exists_run (s := Sys.init) firstLap
    (P := fun s => ∀ p, p ≠ .remote → s.InWait p ∧ s.state.Needs p) (by decide +kernel)
  exact ⟨s, ⟨_, _, rfl, hr⟩, hs⟩

/-- The speed sensor waits for ever after its first cycle. -/
theorem wedged_speed : ∃ s, (system false).Reachable s ∧ s.InWait .speed ∧
    ¬ (system false).CanReach (fun t => ¬ t.InWait .speed) s := by
  obtain ⟨s, hs, hw⟩ := exists_all_wait
  have hp := (hw .speed (by decide)).1
  exact ⟨s, hs, hp, wedged hs hp⟩

/-- **All parts are stuck at once**: a reachable state in which every part that has finished its
first `Run` waits on its own flag, and none of them can go on. -/
theorem all_wedged : ∃ s, (system false).Reachable s ∧ ∀ p, p ≠ .remote →
    s.InWait p ∧ s.state.Needs p ∧ ¬ (system false).CanReach (fun t => ¬ t.InWait p) s := by
  obtain ⟨s, hs, hw⟩ := exists_all_wait
  refine ⟨s, hs, fun p hp => ?_⟩
  obtain ⟨hwait, hneeds⟩ := hw p hp
  exact ⟨hwait, hneeds, (Raised.reachable hs).not_canReach hwait⟩

/-! ### What an acknowledgement would do -/

/-- Behind the wait there is nothing, and the remote part never gets there. -/
theorem Point.wait {p : PartType} {k : List Instr} (h : Point p k)
    (hh : k.head? = some .whileNeed) : k = [.whileNeed] ∧ p.cell.isSome := by
  have hall : ∀ p, ∀ k ∈ (runALL p).tails, k.head? = some .whileNeed → k = [.whileNeed] := by
    decide +kernel
  have hk := hall p k h.mem_tails hh
  refine ⟨hk, ?_⟩
  cases p with
  | remote =>
    have hserve := h.serving rfl
    rw [hk] at hserve
    simp at hserve
  | _ => rfl

/-- **With an acknowledgement a waiting part starts another cycle.** -/
theorem released {s : Sys} {p : PartType} (h : (system true).Reachable s) (hp : s.InWait p) :
    (system true).CanReach (fun t => ∃ l, t.part p = .running l ∧ l.rest = runALL p) s := by
  obtain ⟨l, hl, hh⟩ := hp.running
  obtain ⟨hk, hcell⟩ := ((Wf.reachable h).point p l hl).wait hh
  obtain ⟨i, hi⟩ := Option.isSome_iff_exists.mp hcell
  have hack : (system true).step s (.acknowledge i) = some ((Label.acknowledge i).next s) :=
    step_iff.mpr ⟨rfl, rfl⟩
  have hret : (Label.part p (.testNeed false)).Enabled true ((Label.acknowledge i).next s) := by
    simp [Label.Enabled, Label.next, hl, Proc.Enables, hk, Act.instr, Act.Agrees, hi, State.setNeed]
  refine .step hack (.step (step_iff.mpr ⟨hret, rfl⟩) (.refl ⟨l.next p, ?_, ?_⟩))
  · simp [Label.next, hl, Proc.after, Act.after, Act.exits, Act.move]
  · simp [Local.next, Local.skip, hk, advance]

end Vehicle.Recovery
