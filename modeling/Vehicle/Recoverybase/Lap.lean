import Vehicle.Recoverybase.Fault
import Vehicle.Recoverybase.Schedule

/-!
# recoverybase: the manager on its own

What the manager can do while no part moves. In a lap of its main loop it comes to the test of the
fault (`to_faultTest`), and round the loop it lowers every flag (`acknowledge`). From the fault
branch, or where a fault is due, it kills and restores the parts and comes back to its loop
(`settle`). Throughout `times` stays as it is.
-/

namespace Vehicle.Recoverybase

open Vehicle.Trace Vehicle.Trace.Cyclic

/-! ### The manager's lap -/

/-- Program points of the main loop outside the fault branch. -/
def CarPc.inLap : CarPc → Bool
  | .whileTimes | .clock | .test _ _ | .stage _ _ | .save _ _ | .dump _ _ | .store _ _
  | .faultTest => true
  | _ => false

/-- Program points of the main loop. -/
def CarPc.inLoop (c : CarPc) : Bool := c.inLap || c.faulting

/-- The iterations of the two passes that follow iteration `i` of pass `c`. -/
def iterationsAfter (c : Check) (i : PartType) : ℕ :=
  (match i with | .camera => 2 | .speed => 1 | .servoPID => 0) +
    match c with | .unit => 3 | .compulsive => 0

/-- Steps of the manager before it tests for the fault, at most. -/
def CarPc.lapPos : CarPc → ℕ
  | .whileTimes => 32
  | .clock => 31
  | .test c i => 5 * iterationsAfter c i + 5
  | .stage c i => 5 * iterationsAfter c i + 4
  | .save c i => 5 * iterationsAfter c i + 3
  | .dump c i => 5 * iterationsAfter c i + 2
  | .store c i => 5 * iterationsAfter c i + 1
  | _ => 0

/-- The compulsive pass of the current lap is past part `q`. -/
def CarPc.passed (q : PartType) : CarPc → Bool
  | .test .compulsive i | .stage .compulsive i | .save .compulsive i | .dump .compulsive i
  | .store .compulsive i => decide (q.toInt < i.toInt)
  | .faultTest => true
  | _ => false

theorem lapPos_afterPass (c : Check) (i : PartType) :
    (CarPc.afterPass c i).lapPos ≤ 5 * iterationsAfter c i := by
  cases c <;> cases i <;> decide

theorem inLap_afterPass (c : Check) (i : PartType) : (CarPc.afterPass c i).inLap = true := by
  cases c <;> cases i <;> rfl

theorem afterTest_inLap (cfg : Config) (c : Check) (i : PartType) (b : Bool) :
    (CarPc.afterTest cfg c i b).inLap = true ∧
      (CarPc.afterTest cfg c i b).lapPos < 5 * iterationsAfter c i + 5 := by
  have hpos := lapPos_afterPass c i
  rcases afterTest_cases cfg c i b with h | h | h
  · rw [h]
    exact ⟨rfl, by simp [CarPc.lapPos]⟩
  · rw [h]
    exact ⟨rfl, by simp [CarPc.lapPos]⟩
  · rw [h]
    exact ⟨inLap_afterPass c i, by omega⟩

/-- Behind its iteration for `i` the compulsive pass is past `i`, and the parts it was past
before. -/
theorem passed_afterPass {q : PartType} {c : Check} {i : PartType}
    (h : (CarPc.afterPass c i).passed q = true) :
    c = .compulsive ∧ (q = i ∨ q.toInt < i.toInt) := by
  revert h
  cases c <;> cases i <;> cases q <;> decide

/-- What a step of the manager inside a lap leaves alone. -/
structure SameWork (s t : Sys) : Prop where
  part : t.part = s.part
  times : t.state.times = s.state.times
  new : t.state.isNewData = s.state.isNewData
  faluted : t.car.faluted = s.car.faluted

theorem SameWork.refl (s : Sys) : SameWork s s := ⟨rfl, rfl, rfl, rfl⟩

theorem SameWork.trans {s t u : Sys} (h : SameWork s t) (h' : SameWork t u) : SameWork s u :=
  ⟨h'.part.trans h.part, h'.times.trans h.times, h'.new.trans h.new, h'.faluted.trans h.faluted⟩

/-- The flags of the parts the compulsive pass of this lap is past are down. -/
def Swept (s : Sys) : Prop :=
  ∀ q, s.car.pc.passed q = true → s.state.needCompulsiveCheckpoint q = false

/-- A step of the manager in a lap: it comes nearer to the test of the fault, and keeps what it has
swept. -/
structure LapStep (cfg : Config) (s : Sys) (a : CarAct) : Prop where
  enabled : a.Enabled s
  lap : (a.move cfg s.car).pc.inLap = true
  nearer : (a.move cfg s.car).pc.lapPos < s.car.pc.lapPos
  same : SameWork s ((Label.car a).next cfg s)
  swept : Swept s → Swept ((Label.car a).next cfg s)

section LapStep

variable (cfg : Config) {s : Sys} {c : Check} {i : PartType}

theorem lapStep_testUnit (hpc : s.car.pc = .test .unit i) :
    LapStep cfg s (.testUnit i (unitDue s.state s.car.tv i)) := by
  obtain ⟨hlap, hpos⟩ := afterTest_inLap cfg .unit i (unitDue s.state s.car.tv i)
  refine ⟨⟨hpc, rfl⟩, hlap, by rw [hpc]; exact hpos, ⟨rfl, rfl, rfl, rfl⟩, ?_⟩
  intro _ q hq
  change (CarPc.afterTest cfg .unit i _).passed q = true at hq
  rcases afterTest_cases cfg .unit i (unitDue s.state s.car.tv i) with h | h | h
  · rw [h] at hq
    cases hq
  · rw [h] at hq
    cases hq
  · rw [h] at hq
    cases (passed_afterPass hq).1

theorem lapStep_testNeed (hpc : s.car.pc = .test .compulsive i) :
    LapStep cfg s (.testNeed i (s.state.needCompulsiveCheckpoint i)) := by
  obtain ⟨hlap, hpos⟩ := afterTest_inLap cfg .compulsive i (s.state.needCompulsiveCheckpoint i)
  refine ⟨⟨hpc, rfl⟩, hlap, by rw [hpc]; exact hpos, ⟨rfl, rfl, rfl, rfl⟩, ?_⟩
  intro hsw q hq
  change (CarPc.afterTest cfg .compulsive i _).passed q = true at hq
  change s.state.needCompulsiveCheckpoint q = false
  have hbefore : q.toInt < i.toInt → s.state.needCompulsiveCheckpoint q = false := by
    intro hlt
    exact hsw q (by rw [hpc]; simpa [CarPc.passed] using hlt)
  unfold CarPc.afterTest at hq
  split_ifs at hq with hb hm
  · exact hbefore (by simpa [CarPc.passed] using hq)
  · exact hbefore (by simpa [CarPc.passed] using hq)
  · -- the flag of `i` itself is down as well
    rcases (passed_afterPass hq).2 with rfl | hlt
    · simpa using hb
    · exact hbefore hlt

theorem lapStep_storeUnit (hpc : s.car.pc = .store .unit i) : LapStep cfg s (.storeUnit i) := by
  have hpos := lapPos_afterPass .unit i
  refine ⟨hpc, inLap_afterPass .unit i, ?_, ⟨rfl, rfl, rfl, rfl⟩, ?_⟩
  · rw [hpc]
    exact Nat.lt_succ_of_le hpos
  · intro _ q hq
    cases (passed_afterPass (show (CarPc.afterPass .unit i).passed q = true from hq)).1

theorem lapStep_clearNeed (hpc : s.car.pc = .store .compulsive i) :
    LapStep cfg s (.clearNeed i) := by
  have hpos := lapPos_afterPass .compulsive i
  refine ⟨hpc, inLap_afterPass .compulsive i, ?_, ⟨rfl, rfl, rfl, rfl⟩, ?_⟩
  · rw [hpc]
    exact Nat.lt_succ_of_le hpos
  · intro hsw q hq
    rw [need_next_car]
    rcases (passed_afterPass (show (CarPc.afterPass .compulsive i).passed q = true from hq)).2 with
      rfl | hlt
    · simp [CarAct.clears]
    · rw [hsw q (by rw [hpc]; simpa [CarPc.passed] using hlt)]
      rfl

/-- **The manager has a step** in a lap, short of the test of the fault. -/
theorem exists_lapStep (hlap : s.car.pc.inLap = true) (hne : s.car.pc ≠ .faultTest)
    (hle : s.state.times ≤ maxTimes) : ∃ a, LapStep cfg s a := by
  cases hpc : s.car.pc with
  | whileTimes =>
    refine ⟨.testLoop true, ⟨hpc, by simpa using hle⟩, rfl, ?_, ⟨rfl, rfl, rfl, rfl⟩, ?_⟩
    · rw [hpc]
      simp [CarAct.move, CarPc.lapPos]
    · intro _ q hq
      cases hq
  | clock =>
    refine ⟨.clock ⟨0, 0⟩, hpc, rfl, ?_, ⟨rfl, rfl, rfl, rfl⟩, ?_⟩
    · rw [hpc]
      simp [CarAct.move, CarPc.lapPos, iterationsAfter]
    · intro _ q hq
      cases hq
  | test c i =>
    cases c with
    | unit => exact ⟨_, lapStep_testUnit cfg hpc⟩
    | compulsive => exact ⟨_, lapStep_testNeed cfg hpc⟩
  | stage c i =>
    refine ⟨.testStage c i (stageIs s.state i), ⟨hpc, rfl⟩, ?_, ?_, ⟨rfl, rfl, rfl, rfl⟩, ?_⟩
    · cases stageIs s.state i <;> rfl
    · rw [hpc]
      cases stageIs s.state i <;> simp [CarAct.move, CarPc.lapPos]
    · intro hsw q hq
      refine hsw q ?_
      rw [hpc]
      revert hq
      cases c <;> cases stageIs s.state i <;> simp [Label.next, CarAct.move, CarPc.passed]
  | save c i =>
    refine ⟨.saveBegin c i, hpc, rfl, ?_, ⟨rfl, rfl, rfl, rfl⟩, ?_⟩
    · rw [hpc]
      simp [CarAct.move, CarPc.lapPos]
    · intro hsw q hq
      refine hsw q ?_
      rw [hpc]
      cases c <;> exact hq
  | dump c i =>
    refine ⟨.saveEnd c i, hpc, rfl, ?_, ⟨rfl, rfl, rfl, rfl⟩, ?_⟩
    · rw [hpc]
      simp [CarAct.move, CarPc.lapPos]
    · intro hsw q hq
      refine hsw q ?_
      rw [hpc]
      cases c <;> exact hq
  | store c i =>
    cases c with
    | unit => exact ⟨_, lapStep_storeUnit cfg hpc⟩
    | compulsive => exact ⟨_, lapStep_clearNeed cfg hpc⟩
  | faultTest => exact absurd hpc hne
  | _ => rw [hpc] at hlap; cases hlap

end LapStep

/-! ### Calm states -/

/-- The manager is in a lap and no fault is due: it goes round its loop as long as `times` stays
where it is. -/
structure Calm (s : Sys) : Prop where
  timely : Timely s
  lap : s.car.pc.inLap = true
  noFault : s.car.faluted = true ∨ s.state.times ≤ faultStep
  fresh : Fresh s
  below : s.state.times ≤ maxTimes

section Calm

variable {cfg : Config} {s t : Sys}

theorem Calm.of_sameWork (h : Calm s) (ht : Timely t) (hlap : t.car.pc.inLap = true)
    (hw : SameWork s t) : Calm t where
  timely := ht
  lap := hlap
  noFault := by rw [hw.faluted, hw.times]; exact h.noFault
  fresh := by
    intro l hl hst
    rw [hw.times]
    exact h.fresh l (hw.part ▸ hl) hst
  below := by rw [hw.times]; exact h.below

/-- In a lap every part runs. -/
theorem running_of_inLap (ht : Timely s) (hlap : s.car.pc.inLap = true)
    (hle : s.state.times ≤ maxTimes) (p : PartType) : ∃ l, s.part p = .running l := by
  cases hp : s.part p with
  | running l => exact ⟨l, rfl⟩
  | unborn =>
    have h := (ht.wf.unborn p).mp hp
    cases hpc : s.car.pc <;> simp_all [CarPc.inLap, CarPc.unforked]
  | killed =>
    have h := (ht.wf.killed p).mp hp
    cases hpc : s.car.pc <;> simp_all [CarPc.inLap, CarPc.dead]
  | exited =>
    have := ht.overrun (Or.inr ⟨p, hp⟩)
    omega

theorem Calm.running (h : Calm s) (p : PartType) : ∃ l, s.part p = .running l :=
  running_of_inLap h.timely h.lap h.below p

/-- The manager alone comes to the test of the fault. -/
theorem to_faultTest (swept : Bool) (h : Calm s) (hsw : swept = true → Swept s) :
    (system cfg).CanReach
      (fun t => Calm t ∧ SameWork s t ∧ t.car.pc = .faultTest ∧ (swept = true → Swept t)) s := by
  refine Lts.CanReach.of_measure (I := fun t => Calm t ∧ SameWork s t ∧ (swept = true → Swept t))
    (fun t => t.car.pc.lapPos) ?_ ⟨h, SameWork.refl s, hsw⟩
  rintro t ⟨ht, hw, hsw⟩
  by_cases hpc : t.car.pc = .faultTest
  · exact Lts.CanReach.refl (Or.inl ⟨ht, hw, hpc, hsw⟩)
  · obtain ⟨a, he, hlap, hpos, hsame, hswept⟩ := exists_lapStep cfg ht.lap hpc ht.below
    have hs : (system cfg).step t (.car a) = some ((Label.car a).next cfg t) :=
      step_iff.mpr ⟨he, rfl⟩
    have ht' : Calm ((Label.car a).next cfg t) :=
      ht.of_sameWork (ht.timely.step_car hs) hlap hsame
    exact Lts.CanReach.step hs
      (Lts.CanReach.refl (Or.inr ⟨⟨ht', hw.trans hsame, fun hb => hswept (hsw hb)⟩, hpos⟩))

/-- **Acknowledgement.** Round its loop the manager lowers every flag, and leaves the rest as it
is. -/
theorem acknowledge (h : Calm s) :
    (system cfg).CanReach
      (fun t => Calm t ∧ SameWork s t ∧ ∀ q, t.state.needCompulsiveCheckpoint q = false) s := by
  refine (to_faultTest false h (by simp)).bind fun t ⟨ht, hw, hpc, _⟩ => ?_
  -- no fault is due, so the next lap begins
  have hb : false = (decide (t.state.times > faultStep) && !t.car.faluted) := by
    rcases ht.noFault with hf | hle
    · simp [hf]
    · simp [hle]
  have hs : (system cfg).step t (.car (.testFault false)) =
      some ((Label.car (.testFault false)).next cfg t) := step_iff.mpr ⟨⟨hpc, hb⟩, rfl⟩
  have hsame : SameWork t ((Label.car (.testFault false)).next cfg t) := ⟨rfl, rfl, rfl, rfl⟩
  have hu := ht.of_sameWork (ht.timely.step_car hs) rfl hsame
  refine Lts.CanReach.step hs ((to_faultTest true hu ?_).mono ?_)
  · intro _ q hq
    cases hq
  · rintro v ⟨hv, hwv, hpcv, hsw⟩
    exact ⟨hv, (hw.trans hsame).trans hwv, fun q => hsw rfl q (by rw [hpcv]; rfl)⟩

end Calm

/-! ### Through the fault branch -/

/-- Steps of the manager before it is in a lap with no fault due, at most. -/
def CarPc.branchPos : CarPc → ℕ
  | .simulateFalut todo => 7 + todo.length
  | .clearNew i => 4 + iterationsAfter .compulsive i
  | .restore i => 1 + iterationsAfter .compulsive i
  | c => 20 + c.lapPos

theorem branchPos_of_inLap {c : CarPc} (h : c.inLap = true) : c.branchPos = 20 + c.lapPos := by
  cases c <;> first | rfl | cases h

section Settle

variable {cfg : Config} {s : Sys}

/-- **The manager has a step in the fault branch**, which brings it nearer to its loop. -/
theorem branch_step (cfg : Config) {s : Sys} (hw : Wf s) (hpc : s.car.pc.faulting = true) :
    ∃ a : CarAct, a.Enabled s ∧ (a.move cfg s.car).pc.inLoop = true ∧
      (a.move cfg s.car).faluted = s.car.faluted ∧
      ((a.move cfg s.car).pc.inLap = true ∨
        (a.move cfg s.car).pc.branchPos < s.car.pc.branchPos) := by
  cases hc : s.car.pc with
  | simulateFalut todo =>
    cases todo with
    | nil => exact absurd hc hw.killing
    | cons p todo =>
      refine ⟨.kill p, by simp [CarAct.Enabled, hc, CarPc.toKill], ?_⟩
      have hmove : (CarAct.move cfg s.car (.kill p)).pc = .killing todo := by
        simp [CarAct.move, hc, CarPc.toKill]
      rw [hmove]
      refine ⟨?_, rfl, Or.inr ?_⟩
      · cases todo <;> rfl
      · cases todo <;> simp [CarPc.killing, CarPc.branchPos, iterationsAfter]
  | clearNew i =>
    refine ⟨.clearNew i, hc, ?_, rfl, Or.inr ?_⟩
    · cases i <;> rfl
    · change (CarPc.afterClear i).branchPos < (CarPc.clearNew i).branchPos
      cases i <;> decide
  | restore i =>
    have hkilled : s.part i = .killed := (hw.killed i).mpr (by simp [hc, CarPc.dead])
    obtain ⟨l, hl⟩ := List.exists_mem_of_ne_nil _ (hw.forked i (by simp [hkilled]))
    refine ⟨.restore i l, ⟨hc, hkilled, hl⟩, ?_, rfl, ?_⟩
    · cases i <;> rfl
    · change (CarPc.afterRestore i).inLap = true ∨
        (CarPc.afterRestore i).branchPos < (CarPc.restore i).branchPos
      cases i <;> decide
  | _ => rw [hc] at hpc; cases hpc

/-- **The manager alone comes to a lap with no fault due**, through the fault branch if it has
to. -/
theorem settle (ht : Timely s) (hloop : s.car.pc.inLoop = true) (hle : s.state.times ≤ maxTimes) :
    (system cfg).CanReach (fun t => Timely t ∧ t.car.pc.inLap = true ∧
      t.state.times = s.state.times ∧ (t.car.faluted = true ∨ t.state.times ≤ faultStep)) s := by
  refine Lts.CanReach.of_measure
    (I := fun t => Timely t ∧ t.car.pc.inLoop = true ∧ t.state.times = s.state.times)
    (fun t => t.car.pc.branchPos) ?_ ⟨ht, hloop, rfl⟩
  rintro t ⟨ht, hloop, htimes⟩
  have take : ∀ a : CarAct, a.Enabled t → (a.move cfg t.car).pc.inLoop = true →
      ((a.move cfg t.car).pc.inLap = true ∧
          ((a.move cfg t.car).faluted = true ∨ t.state.times ≤ faultStep) ∨
        (a.move cfg t.car).pc.branchPos < t.car.pc.branchPos) →
      (system cfg).CanReach (fun u => (Timely u ∧ u.car.pc.inLap = true ∧
          u.state.times = s.state.times ∧ (u.car.faluted = true ∨ u.state.times ≤ faultStep)) ∨
        (Timely u ∧ u.car.pc.inLoop = true ∧ u.state.times = s.state.times) ∧
          u.car.pc.branchPos < t.car.pc.branchPos) t := by
    intro a he hin hpos
    have hs : (system cfg).step t (.car a) = some ((Label.car a).next cfg t) :=
      step_iff.mpr ⟨he, rfl⟩
    have htimes' : ((Label.car a).next cfg t).state.times = t.state.times := times_car
    refine Lts.CanReach.step hs (Lts.CanReach.refl ?_)
    rcases hpos with ⟨hlap, hq⟩ | hpos
    · exact Or.inl ⟨ht.step_car hs, hlap, htimes'.trans htimes, by rw [htimes']; exact hq⟩
    · exact Or.inr ⟨⟨ht.step_car hs, hin, htimes'.trans htimes⟩, hpos⟩
  rcases Bool.or_eq_true_iff.mp hloop with hlap | hbranch
  · by_cases hq : t.car.faluted = true ∨ t.state.times ≤ faultStep
    · exact Lts.CanReach.refl (Or.inl ⟨ht, hlap, htimes, hq⟩)
    obtain ⟨hnf, hlt⟩ := not_or.mp hq
    by_cases hpc : t.car.pc = .faultTest
    · -- the fault is due
      have hb : true = (decide (t.state.times > faultStep) && !t.car.faluted) := by
        simp only [not_le] at hlt
        simp [hlt, hnf]
      refine take (.testFault true) ⟨hpc, hb⟩ rfl (Or.inr ?_)
      rw [hpc]
      simp [CarAct.move, CarPc.branchPos, CarPc.lapPos, addPart]
    · obtain ⟨a, he, hlap', hpos, -, -⟩ := exists_lapStep cfg hlap hpc (by omega)
      refine take a he (by simp [CarPc.inLoop, hlap']) (Or.inr ?_)
      rw [branchPos_of_inLap hlap, branchPos_of_inLap hlap']
      omega
  · obtain ⟨a, he, hin, hfal, hpos⟩ := branch_step cfg ht.wf hbranch
    have hmarked : t.car.faluted = true := (ht.branch hbranch).1
    exact take a he hin (hpos.imp_left fun h => ⟨h, Or.inl (hfal.trans hmarked)⟩)

end Settle

end Vehicle.Recoverybase
