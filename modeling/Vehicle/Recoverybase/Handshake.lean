import Vehicle.Recoverybase.Placement
import Vehicle.Recoverybase.Schedule

/-!
# recoverybase: the checkpoint handshake

A part raises its flag in `SetCompulsiveCheckpoint` and spins on it in `WaitCompulsiveCheckpoint`;
only the manager lowers it. The invariant `Quiet` of the runs without a fault says that a raised
flag finds its part inside `WaitCompulsiveCheckpoint`, and that the flag of the part the compulsive
pass is busy with is raised. So a compulsive dump is taken of a part that does nothing but test its
flag.
-/

namespace Vehicle.Recoverybase

open Vehicle.Trace Vehicle.Trace.Cyclic

/-- Part `p` is inside `WaitCompulsiveCheckpoint`. -/
def InWait (s : Sys) (p : PartType) : Prop :=
  ∃ l, s.part p = .running l ∧ l.rest.head? = some .whileNeed

/-- No part is killed in the run. -/
def FaultFree (tr : List Label) : Prop := ∀ p, Label.car (.kill p) ∉ tr

instance (tr : List Label) : Decidable (FaultFree tr) :=
  inferInstanceAs (Decidable (∀ p, Label.car (.kill p) ∉ tr))

theorem FaultFree.append {tr tr' : List Label} (h : FaultFree (tr ++ tr')) :
    FaultFree tr ∧ FaultFree tr' :=
  ⟨fun p hp => h p (List.mem_append_left _ hp), fun p hp => h p (List.mem_append_right _ hp)⟩

theorem FaultFree.tail {tr : List Label} {a : Label} (h : FaultFree (a :: tr)) : FaultFree tr :=
  fun p hp => h p (List.mem_cons_of_mem _ hp)

theorem FaultFree.ne {tr : List Label} (h : FaultFree tr) {a : Label} (ha : a ∈ tr)
    (p : PartType) : a ≠ .car (.kill p) := fun he => h p (he ▸ ha)

/-! ### Entering and leaving the wait -/

/-- `WaitCompulsiveCheckpoint` is entered from `SetCompulsiveCheckpoint` only. -/
theorem next_whileNeed_iff {p : PartType} {i : Instr} {k : List Instr}
    (h : Placed (runALL p) (i :: k)) :
    (advance (runALL p) k).head? = some .whileNeed ↔ i = .storeNeed := by
  refine h.head_advance_iff ?_
  cases p <;> decide

/-- **What a part's act does to its waiting**: it waits afterwards exactly when it has just raised
its flag or found it still raised. -/
theorem inWait_next_part (cfg : Config) {s : Sys} {p : PartType} {a : Act} (hw : Wf s)
    (he : (Label.part p a).Enabled s) :
    InWait ((Label.part p a).next cfg s) p ↔ a = .storeNeed ∨ a = .testNeed true := by
  obtain ⟨l, k, hp, hk, -, hl⟩ := hw.stands he
  have hspin : a.spins = true → (l.rest.head? = some .whileNeed ↔ a = .testNeed true) := by
    intro hs
    rw [hk]
    cases a <;> simp_all [Act.spins, Act.instr]
  unfold InWait
  rw [next_part_self hp]
  constructor
  · rintro ⟨l', hl', hwn⟩
    obtain ⟨-, rfl⟩ := after_eq_running hl'
    rw [Act.move_rest, hk] at hwn
    split at hwn
    · rename_i hs
      exact Or.inr ((hspin hs).mp (by rw [hk]; exact hwn))
    · have := (next_whileNeed_iff hl).mp hwn
      cases a <;> simp_all [Act.instr]
  · intro ha
    have hx : a ≠ .testTimes true := by rcases ha with rfl | rfl <;> simp
    refine ⟨a.move p l, after_of_ne hx, ?_⟩
    rw [Act.move_rest]
    rcases ha with rfl | rfl
    · rw [hk]
      exact (next_whileNeed_iff hl).mpr rfl
    · exact (hspin rfl).mpr rfl

theorem inWait_next_other {cfg : Config} {s : Sys} {p q : PartType} {a : Act} (h : q ≠ p) :
    InWait ((Label.part p a).next cfg s) q ↔ InWait s q := by
  unfold InWait
  rw [next_part_other h]

/-- A part that waits can only test its flag. -/
theorem act_of_inWait {s : Sys} {p : PartType} {a : Act} (h : InWait s p)
    (he : (Label.part p a).Enabled s) : a = .testNeed (s.state.needCompulsiveCheckpoint p) := by
  obtain ⟨l, hp, hl⟩ := h
  obtain ⟨⟨k, hk⟩, ha⟩ := agrees_of_enabled hp he
  rw [hk] at hl
  cases a with
  | testNeed b => exact congrArg Act.testNeed ha
  | _ => simp [Act.instr] at hl

/-! ### The invariant -/

/-- The program points at which the compulsive pass is busy with part `p`. -/
def CarPc.handles (p : PartType) : CarPc → Bool
  | .stage .compulsive i | .save .compulsive i | .dump .compulsive i | .store .compulsive i =>
    decide (i = p)
  | _ => false

theorem handles_afterPass (c : Check) (i p : PartType) :
    (CarPc.afterPass c i).handles p = false := by
  cases c <;> cases i <;> rfl

/-- What holds as long as no part is killed. -/
structure Quiet (s : Sys) : Prop where
  /-- No part is killed. -/
  alive : ∀ p, s.part p ≠ .killed
  /-- A raised flag is waited on by its part. -/
  wait : ∀ p, s.state.needCompulsiveCheckpoint p = true → InWait s p
  /-- The flag of the part the compulsive pass is busy with is raised. -/
  handling : ∀ p, s.car.pc.handles p = true → s.state.needCompulsiveCheckpoint p = true

theorem Quiet.init (cfg : Config) : Quiet (Sys.init cfg) where
  alive := by simp [Sys.init]
  wait := by simp [Sys.init, initState]
  handling := by simp [Sys.init, CarPc.handles]

/-- Whom the manager handles after an act: it goes on with the same part, or has just read its
raised flag. -/
theorem handles_move {cfg : Config} {s : Sys} {a : CarAct} {p : PartType} (he : a.Enabled s)
    (h : (a.move cfg s.car).pc.handles p = true) :
    a.clears p = false ∧ (s.car.pc.handles p = true ∨ a = .testNeed p true) := by
  obtain ⟨σ, ⟨pc, tv, f⟩, part, occ⟩ := s
  cases a with
  | testNeed i b =>
    refine ⟨rfl, Or.inr ?_⟩
    simp only [CarAct.move, CarPc.afterTest] at h
    split at h
    · rename_i hb
      split at h <;> simp only [CarPc.handles, decide_eq_true_eq] at h <;> rw [h, hb]
    · simp [handles_afterPass] at h
  | testUnit i b =>
    simp only [CarAct.move, CarPc.afterTest] at h
    split at h
    · split at h <;> simp [CarPc.handles] at h
    · simp [handles_afterPass] at h
  | testStage c i b =>
    obtain ⟨rfl, -⟩ := he
    cases c <;> cases b <;> simp_all [CarAct.move, CarPc.handles, CarAct.clears]
  | saveBegin c i | saveEnd c i =>
    obtain rfl := he
    cases c <;> simp_all [CarAct.move, CarPc.handles, CarAct.clears]
  | storeUnit i | clearNeed i => simp [CarAct.move, handles_afterPass] at h
  | initUnit i => cases i <;> simp [CarAct.move, CarPc.afterInit, PartType.succ, CarPc.handles] at h
  | testLoop b | testFault b => cases b <;> simp [CarAct.move, CarPc.handles] at h
  | kill q =>
    simp only [CarAct.move] at h
    cases hk : pc.toKill.erase q <;> simp [hk, CarPc.killing, CarPc.handles] at h
  | clearNew i =>
    cases i <;> simp [CarAct.move, CarPc.afterClear, PartType.succ, CarPc.handles] at h
  | restore i l =>
    cases i <;> simp [CarAct.move, CarPc.afterRestore, PartType.succ, CarPc.handles] at h
  | _ => simp [CarAct.move, CarPc.handles] at h

theorem Quiet.step_part (cfg : Config) {s : Sys} {p : PartType} {a : Act} (hq : Quiet s) (hw : Wf s)
    (he : (Label.part p a).Enabled s) : Quiet ((Label.part p a).next cfg s) := by
  refine ⟨?_, ?_, ?_⟩
  · intro q
    by_cases hqp : q = p
    · subst hqp
      obtain ⟨l, k, hp, -, -⟩ := enabled_part.mp he
      rw [next_part_self hp]
      unfold Act.after
      split <;> simp
    · rw [next_part_other hqp]
      exact hq.alive q
  · intro q hn
    by_cases hqp : q = p
    · subst hqp
      rw [inWait_next_part cfg hw he]
      by_cases hs : a = .storeNeed
      · exact Or.inl hs
      · -- the flag was raised before, so the part was waiting and has tested it
        have hn' : s.state.needCompulsiveCheckpoint q = true := by
          simpa [need_next_part, hs] using hn
        exact Or.inr (hn' ▸ act_of_inWait (hq.wait q hn') he)
    · rw [inWait_next_other hqp]
      exact hq.wait q (by simpa [need_next_part, hqp] using hn)
  · intro q hh
    rw [need_next_part, hq.handling q hh]
    rfl

/-- Where no part is killed the manager only forks. -/
theorem Quiet.spawn {s : Sys} {a : CarAct} (hq : Quiet s) (hw : Wf s) (he : a.Enabled s)
    (hkill : ∀ p, a ≠ .kill p) (q : PartType) :
    a.spawn s.part q = s.part q ∨
      s.part q = .unborn ∧ a.spawn s.part q = .running (.start q) := by
  rcases hw.spawn he q with h | h | ⟨h, -⟩ | ⟨l, -, -, h, -⟩
  · exact Or.inl h
  · exact Or.inr h
  · exact absurd h (hkill q)
  · exact absurd h (hq.alive q)

theorem Quiet.step_car (cfg : Config) {s : Sys} {a : CarAct} (hq : Quiet s) (hw : Wf s)
    (he : a.Enabled s) (hkill : ∀ p, a ≠ .kill p) : Quiet ((Label.car a).next cfg s) := by
  have hpart : ∀ q, ((Label.car a).next cfg s).part q = s.part q ∨
      s.part q = .unborn ∧ ((Label.car a).next cfg s).part q = .running (.start q) :=
    hq.spawn hw he hkill
  refine ⟨?_, ?_, ?_⟩
  · intro q
    rcases hpart q with h | ⟨-, h⟩
    · rw [h]; exact hq.alive q
    · rw [h]; simp
  · intro q hn
    have hn' : s.state.needCompulsiveCheckpoint q = true := by
      rw [need_next_car] at hn
      exact (Bool.and_eq_true_iff.mp hn).1
    obtain ⟨l, hl, hwn⟩ := hq.wait q hn'
    rcases hpart q with h | ⟨h, -⟩
    · exact ⟨l, h.trans hl, hwn⟩
    · rw [h] at hl; cases hl
  · intro q hh
    obtain ⟨hc, h⟩ := handles_move he hh
    rw [need_next_car, hc]
    rcases h with h | rfl
    · simp [hq.handling q h]
    · simp [← he.2]

theorem Quiet.step {cfg : Config} {s t : Sys} {a : Label} (hq : Quiet s) (hw : Wf s)
    (ha : ∀ p, a ≠ .car (.kill p)) (h : (system cfg).step s a = some t) : Quiet t := by
  obtain ⟨he, rfl⟩ := step_iff.mp h
  cases a with
  | part p a => exact hq.step_part cfg hw he
  | car a => exact hq.step_car cfg hw he fun p hp => ha p (by rw [hp])

theorem Quiet.of_run {cfg : Config} {tr : List Label} {s : Sys}
    (h : (system cfg).Run (Sys.init cfg) tr s) (hf : FaultFree tr) : Quiet s ∧ Wf s :=
  h.inv_forall (I := fun _ s => Quiet s ∧ Wf s) (P := fun a => ∀ p, a ≠ .car (.kill p))
    ⟨Quiet.init cfg, Wf.init cfg⟩
    (fun _ _ _ _ hI ha hs => ⟨hI.1.step hI.2 ha hs, hI.2.step hs⟩) fun _ ha => hf.ne ha

/-! ### Compulsive dumps -/

/-- From the call of a compulsive `SaveState(p)` to the store that lowers the flag of `p`. -/
def CarPc.dumping (p : PartType) (c : CarPc) : Prop :=
  c = .dump .compulsive p ∨ c = .store .compulsive p

/-- The manager leaves this stretch by lowering the flag only. -/
theorem dumping_move {cfg : Config} {s : Sys} {a : CarAct} {p : PartType} (he : a.Enabled s)
    (h : s.car.pc.dumping p) (ha : a ≠ .clearNeed p) : (a.move cfg s.car).pc.dumping p := by
  obtain ⟨σ, ⟨pc, tv, f⟩, part, occ⟩ := s
  change pc.dumping p at h
  rcases h with rfl | rfl
  · cases a <;> simp_all [CarAct.Enabled, CarPc.toFork, CarPc.toKill, CarAct.move, CarPc.dumping]
  · cases a <;> simp_all [CarAct.Enabled, CarPc.toFork, CarPc.toKill]

theorem handles_of_dumping {c : CarPc} {p : PartType} (h : c.dumping p) : c.handles p = true := by
  rcases h with rfl | rfl <;> simp [CarPc.handles]

/-- **While the dump of `p` lasts** `p` stays inside `WaitCompulsiveCheckpoint` and only finds its
flag raised. -/
theorem quiescent_of_dumping {cfg : Config} {p : PartType} {v s : Sys} {mid : List Label}
    (hr : (system cfg).Run v mid s) (hq : Quiet v) (hw : Wf v) (hd : v.car.pc.dumping p)
    (hf : FaultFree mid) (hmid : .car (.clearNeed p) ∉ mid) :
    InWait s p ∧ ∀ a, .part p a ∈ mid → a = .testNeed true := by
  have key : (Quiet s ∧ Wf s ∧ s.car.pc.dumping p) ∧
      ∀ a, Label.part p a ∈ mid → a = .testNeed true := by
    refine hr.inv_forall (P := fun a => (∀ q, a ≠ .car (.kill q)) ∧ a ≠ .car (.clearNeed p))
      (I := fun mid s => (Quiet s ∧ Wf s ∧ s.car.pc.dumping p) ∧
        ∀ a, Label.part p a ∈ mid → a = .testNeed true) ⟨⟨hq, hw, hd⟩, by simp⟩ ?_ ?_
    · rintro mid s b t ⟨⟨hq, hw, hd⟩, hacts⟩ ⟨hk, hc⟩ hs
      have hneed := hq.handling p (handles_of_dumping hd)
      have hq' := hq.step hw hk hs
      have hw' := hw.step hs
      obtain ⟨he, rfl⟩ := step_iff.mp hs
      refine ⟨⟨hq', hw', ?_⟩, fun a ha => ?_⟩
      · cases b with
        | part q b => exact hd
        | car b => exact dumping_move he hd fun h => hc (by rw [h])
      · rcases List.mem_append.mp ha with ha | ha
        · exact hacts a ha
        · obtain rfl : Label.part p a = b := by simpa using ha
          exact hneed ▸ act_of_inWait (hq.wait p hneed) he
    · intro a ha
      exact ⟨fun q => hf.ne ha q, fun h => hmid (h ▸ ha)⟩
  obtain ⟨⟨hq, -, hd⟩, hacts⟩ := key
  exact ⟨hq.wait p (hq.handling p (handles_of_dumping hd)), hacts⟩

/-- **Compulsive dumps are taken of quiescent parts.** In every run without a fault a raised flag
finds its part inside `WaitCompulsiveCheckpoint`; and from the call of a `SaveState(p)` of the
compulsive pass until the flag of `p` is lowered, `p` stays inside it, doing nothing but finding its
flag raised. -/
theorem compulsive_dump_quiescent (cfg : Config) {tr : List Label} {s : Sys}
    (hr : (system cfg).Run (Sys.init cfg) tr s) (hf : FaultFree tr) :
    (∀ p, s.state.needCompulsiveCheckpoint p = true → InWait s p) ∧
      ∀ p pre mid, tr = pre ++ .car (.saveBegin .compulsive p) :: mid →
        .car (.clearNeed p) ∉ mid → InWait s p ∧ ∀ a, .part p a ∈ mid → a = .testNeed true := by
  refine ⟨fun p hp => (Quiet.of_run hr hf).1.wait p hp, ?_⟩
  rintro p pre mid rfl hmid
  obtain ⟨u, hu, hr'⟩ := hr.append_inv
  obtain ⟨v, hs, hr''⟩ := hr'.cons_inv
  obtain ⟨hpre, hpost⟩ := hf.append
  obtain ⟨hq, hw⟩ := Quiet.of_run hu hpre
  have hd : v.car.pc.dumping p := by
    obtain ⟨-, rfl⟩ := step_iff.mp hs
    exact Or.inl rfl
  exact quiescent_of_dumping hr'' (hq.step hw (by simp) hs) (hw.step hs) hd hpost.tail hmid

/-- A run with `METHOD` 2 into the middle of a compulsive dump of speed. -/
theorem compulsive_dump_quiescent_speed :
    ∃ pre mid s, (system ⟨.compulsiveOnly, false⟩).Run (Sys.init ⟨.compulsiveOnly, false⟩)
      (pre ++ .car (.saveBegin .compulsive .speed) :: mid) s ∧
      Label.part .speed (.testNeed true) ∈ mid ∧ InWait s .speed := by
  obtain ⟨tr, s, hr, htr, hmem, hmid, hf⟩ := exists_run ⟨.compulsiveOnly, false⟩
    (List.replicate 15 none ++ List.replicate 3 (some .speed) ++ List.replicate 9 none ++
      [some .speed, none])
    (P := fun tr _ => tr = tr.take 26 ++ .car (.saveBegin .compulsive .speed) :: tr.drop 27 ∧
      Label.part .speed (.testNeed true) ∈ tr.drop 27 ∧
      Label.car (.clearNeed .speed) ∉ tr.drop 27 ∧ FaultFree tr) (by decide +kernel)
  have h := (compulsive_dump_quiescent _ hr hf).2 .speed _ _ htr hmid
  exact ⟨_, _, s, htr ▸ hr, hmem, h.1⟩

end Vehicle.Recoverybase
