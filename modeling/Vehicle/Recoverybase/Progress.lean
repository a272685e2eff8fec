import Vehicle.Recoverybase.Lap

/-!
# recoverybase: the work gets done

From every state with the manager in its main loop some run brings `times` past `MAX_TIMES`. A part
alone, acknowledged by the manager where it waits for it, reaches any statement of its cycle if
somebody sets the data flag it waits for (`reach_of_feed`); the part before it in the pipeline,
which does not wait for it in turn, reaches the statement that sets the flag (`feed_of_reach`). So
servoPID reaches its store of `times` (`progress`), and one addition follows another. Only the fault
comes between, once, and costs at most one store of an old value.
-/

namespace Vehicle.Recoverybase

open Vehicle.Trace Vehicle.Trace.Cyclic

/-! ### Steps of one part -/

/-- Only the parts with `φ` may have moved, and neither `times` nor the mark of the fault has. -/
structure Moved (φ : PartType → Prop) (s t : Sys) : Prop where
  times : t.state.times = s.state.times
  faluted : t.car.faluted = s.car.faluted
  part : ∀ q, ¬ φ q → t.part q = s.part q

section Moved

variable {φ ψ : PartType → Prop} {s t u : Sys}

theorem Moved.refl : Moved φ s s := ⟨rfl, rfl, fun _ _ => rfl⟩

theorem Moved.trans (h : Moved φ s t) (h' : Moved φ t u) : Moved φ s u :=
  ⟨h'.times.trans h.times, h'.faluted.trans h.faluted, fun q hq =>
    (h'.part q hq).trans (h.part q hq)⟩

theorem Moved.mono (h : Moved φ s t) (hφ : ∀ q, φ q → ψ q) : Moved ψ s t :=
  ⟨h.times, h.faluted, fun q hq => h.part q fun h => hq (hφ q h)⟩

theorem SameWork.moved (h : SameWork s t) : Moved φ s t :=
  ⟨h.times, h.faluted, fun q _ => congrFun h.part q⟩

end Moved

section Reach

variable {cfg : Config} {s : Sys} {p : PartType}

/-- A part moves, and all stays calm, unless it stores `times`. -/
theorem Calm.step_part (cfg : Config) {a : Act} (h : Calm s) (he : (Label.part p a).Enabled s)
    (ha : ∀ x, a ≠ .storeTimes x) :
    Calm ((Label.part p a).next cfg s) ∧ Moved (· = p) s ((Label.part p a).next cfg s) := by
  have htimes : ((Label.part p a).next cfg s).state.times = s.state.times :=
    Act.write_times p a s.state ha
  refine ⟨⟨h.timely.step_part he, h.lap, ?_, h.fresh.step h.timely.wf he (by simp), ?_⟩,
    htimes, rfl, fun q hq => next_part_other hq⟩
  · rw [htimes]
    exact h.noFault
  · rw [htimes]
    exact h.below

/-- **One statement nearer** to `j`: a part that stands before `j`, and does not spin, executes a
statement. -/
theorem near_step {l : Local} {k : List Instr} {a : Act} {j : Instr} (h : Calm s)
    (hl : s.part p = .running l) (hk : l.rest = a.instr :: k) (hag : a.Agrees p s.state l)
    (hspin : a.spins = false) (hj : j ∈ runALL p) (hp : p = .servoPID → j = .storeTimes)
    (hne : a.instr ≠ j) :
    (system cfg).CanReach (fun t => Calm t ∧ Moved (· = p) s t ∧
      distance (runALL p) j (t.part p).rest < distance (runALL p) j (s.part p).rest) s := by
  have he : (Label.part p a).Enabled s := enabled_part.mpr ⟨l, k, hl, hk, hag⟩
  have hpl : Placed (runALL p) (a.instr :: k) := hk ▸ h.timely.wf.placedAt hl
  have hst : ∀ x, a ≠ .storeTimes x := by
    rintro x rfl
    exact hne (hp (storeTimes_servoPID hpl)).symm
  have hx : a ≠ .testTimes true := by
    rintro rfl
    have hb : true = decide (s.state.times > maxTimes) := hag
    have := h.below
    simp at hb
    omega
  obtain ⟨hcalm, hmoved⟩ := h.step_part cfg he hst
  refine Lts.CanReach.step (step_iff.mpr ⟨he, rfl⟩) (Lts.CanReach.refl ⟨hcalm, hmoved, ?_⟩)
  have hrest : (((Label.part p a).next cfg s).part p).rest = advance (runALL p) k := by
    rw [next_part_self hl, after_of_ne hx]
    simp [Proc.rest, Act.move_rest, hspin, hk]
  have hrest' : (s.part p).rest = a.instr :: k := by
    rw [hl]
    exact hk
  rw [hrest, hrest']
  exact distance_advance hj hne

/-- **A part reaches any statement** of its cycle while the manager acknowledges it, if the flags it
waits for get set without it. servoPID is asked for its store of `times` only, so that it stores
nothing on the way. -/
theorem reach_of_feed
    (hfeed : ∀ t d, Calm t → Instr.whileOld d ∈ runALL p →
      (system cfg).CanReach (fun u => Calm u ∧ Moved (fun q => q.toInt < p.toInt) t u ∧
        u.state.isNewData d = true) t)
    {j : Instr} (hj : j ∈ runALL p) (hp : p = .servoPID → j = .storeTimes) (h : Calm s) :
    (system cfg).CanReach (fun t => Calm t ∧ Moved (fun q => q.toInt ≤ p.toInt) s t ∧
      (t.part p).at j = true) s := by
  refine Lts.CanReach.of_measure
    (I := fun t => Calm t ∧ Moved (fun q => q.toInt ≤ p.toInt) s t)
    (fun t => distance (runALL p) j (t.part p).rest) ?_ ⟨h, Moved.refl⟩
  rintro t ⟨ht, hm⟩
  obtain ⟨l, hl⟩ := ht.running p
  obtain ⟨a, k, he, hk⟩ := exists_act ht.timely.wf hl
  have hpl : Placed (runALL p) (a.instr :: k) := hk ▸ ht.timely.wf.placedAt hl
  by_cases hij : a.instr = j
  · refine Lts.CanReach.refl (Or.inl ⟨ht, hm, ?_⟩)
    rw [hl]
    simpa [Proc.at, hk] using hij
  have hnear : ∀ (u : Sys) (b : Act), Calm u → Moved (fun q => q.toInt < p.toInt) t u →
      b.instr = a.instr → b.Agrees p u.state l → b.spins = false →
      (system cfg).CanReach (fun v => (Calm v ∧ Moved (fun q => q.toInt ≤ p.toInt) s v ∧
          (v.part p).at j = true) ∨
        (Calm v ∧ Moved (fun q => q.toInt ≤ p.toInt) s v) ∧
          distance (runALL p) j (v.part p).rest < distance (runALL p) j (t.part p).rest) u := by
    intro u b hu htu hb hag hspin
    have hpart : u.part p = t.part p := htu.part p (lt_irrefl _)
    refine (near_step hu (hpart.trans hl) (hk.trans (by rw [hb])) hag hspin hj hp
      (by rwa [hb])).mono ?_
    rintro v ⟨hv, huv, hlt⟩
    rw [hpart] at hlt
    have huv' : Moved (fun q => q.toInt ≤ p.toInt) u v := huv.mono fun q hq => by rw [hq]
    exact Or.inr ⟨⟨hv, (hm.trans (htu.mono fun q hq => hq.le)).trans huv'⟩, hlt⟩
  obtain ⟨-, hag⟩ := agrees_of_enabled hl he
  cases hw : a.instr with
  | whileNeed =>
    -- the manager goes round its loop and acknowledges the part
    refine (acknowledge ht).bind fun u ⟨hu, hsame, hneed⟩ => ?_
    exact hnear u (.testNeed false) hu hsame.moved hw.symm (hneed p).symm rfl
  | whileOld d =>
    -- the part before it in the pipeline sets the flag
    refine (hfeed t d ht (hpl.2.subset (by simp [hw]))).bind fun u ⟨hu, htu, hnew⟩ => ?_
    exact hnear u (.testNew d true) hu htu hw.symm hnew.symm rfl
  | _ =>
    refine hnear t a ht Moved.refl rfl hag ?_
    cases a <;> first | rfl | cases hw

/-- **A part that reaches any statement feeds the next one**: it sets its flag. -/
theorem feed_of_reach (hp : p ≠ .servoPID)
    (hreach : ∀ {t : Sys} {j : Instr}, j ∈ runALL p → (p = .servoPID → j = .storeTimes) → Calm t →
      (system cfg).CanReach (fun u => Calm u ∧ Moved (fun q => q.toInt ≤ p.toInt) t u ∧
        (u.part p).at j = true) t) (h : Calm s) :
    (system cfg).CanReach (fun t => Calm t ∧ Moved (fun q => q.toInt ≤ p.toInt) s t ∧
      t.state.isNewData p.idx = true) s := by
  have hmem : Instr.storeNew p.idx true ∈ runALL p := by cases p <;> decide
  refine (hreach hmem (fun h => absurd h hp) h).bind fun t ⟨ht, hm, hat⟩ => ?_
  obtain ⟨l, hl⟩ := ht.running p
  obtain ⟨k, hk⟩ : ∃ k, l.rest = .storeNew p.idx true :: k := by
    rw [hl] at hat
    exact List.head?_eq_some_iff.mp (of_decide_eq_true hat)
  have he : (Label.part p (.storeNew p.idx true)).Enabled t :=
    enabled_part.mpr ⟨l, k, hl, hk, trivial⟩
  obtain ⟨hcalm, hmoved⟩ := ht.step_part cfg he (by simp)
  refine Lts.CanReach.step (step_iff.mpr ⟨he, rfl⟩) (Lts.CanReach.refl ⟨hcalm, ?_, ?_⟩)
  · exact hm.trans (hmoved.mono fun q hq => by rw [hq])
  · exact Function.update_self ..

theorem reach_camera {j : Instr} (hj : j ∈ runALL .camera)
    (hp : PartType.camera = .servoPID → j = .storeTimes) (h : Calm s) :
    (system cfg).CanReach (fun t => Calm t ∧
      Moved (fun q => q.toInt ≤ PartType.camera.toInt) s t ∧ (t.part .camera).at j = true) s := by
  refine reach_of_feed (fun t d _ hd => ?_) hj hp h
  have hno : ∀ d : Fin 3, Instr.whileOld d ∉ runALL .camera := by decide
  exact absurd hd (hno d)

theorem reach_speed {j : Instr} (hj : j ∈ runALL .speed)
    (hp : PartType.speed = .servoPID → j = .storeTimes) (h : Calm s) :
    (system cfg).CanReach (fun t => Calm t ∧
      Moved (fun q => q.toInt ≤ PartType.speed.toInt) s t ∧ (t.part .speed).at j = true) s := by
  refine reach_of_feed (fun t d ht hd => ?_) hj hp h
  have hd' : ∀ d : Fin 3, Instr.whileOld d ∈ runALL .speed → d = PartType.camera.idx := by decide
  obtain rfl := hd' d hd
  refine (feed_of_reach (by decide) reach_camera ht).mono ?_
  rintro u ⟨hu, hm, hnew⟩
  exact ⟨hu, hm.mono fun q => by cases q <;> decide, hnew⟩

theorem reach_servoPID (h : Calm s) :
    (system cfg).CanReach (fun t => Calm t ∧
      Moved (fun q => q.toInt ≤ PartType.servoPID.toInt) s t ∧
        (t.part .servoPID).at .storeTimes = true) s := by
  refine reach_of_feed (fun t d ht hd => ?_) (by decide) (fun _ => rfl) h
  have hd' : ∀ d : Fin 3, Instr.whileOld d ∈ runALL .servoPID → d = PartType.speed.idx := by decide
  obtain rfl := hd' d hd
  refine (feed_of_reach (by decide) reach_speed ht).mono ?_
  rintro u ⟨hu, hm, hnew⟩
  exact ⟨hu, hm.mono fun q => by cases q <;> decide, hnew⟩

end Reach

/-! ### One addition after another -/

section Progress

variable {cfg : Config} {s : Sys}

/-- **From a calm state** `times` grows by 1. -/
theorem progress (h : Calm s) :
    (system cfg).CanReach (fun t => Timely t ∧ t.car.pc.inLap = true ∧ Fresh t ∧
      t.state.times = s.state.times + 1 ∧ t.car.faluted = s.car.faluted) s := by
  refine (reach_servoPID h).bind fun t ⟨ht, hm, hat⟩ => ?_
  obtain ⟨l, hl⟩ := ht.running .servoPID
  obtain ⟨k, hk⟩ : ∃ k, l.rest = .storeTimes :: k := by
    rw [hl] at hat
    exact List.head?_eq_some_iff.mp (of_decide_eq_true hat)
  have he : (Label.part .servoPID (.storeTimes (l.reg + 1))).Enabled t :=
    enabled_part.mpr ⟨l, k, hl, hk, rfl⟩
  refine Lts.CanReach.step (step_iff.mpr ⟨he, rfl⟩) (Lts.CanReach.refl
    ⟨ht.timely.step_part he, ht.lap, fresh_of_servoPID ht.timely.wf he, ?_, hm.faluted⟩)
  rw [times_next_part ht.fresh ht.timely.wf he, hm.times]
  simp [Act.instr]

/-- What is left of the work. -/
def remaining (s : Sys) : ℕ := (maxTimes + 1 - s.state.times).toNat

theorem remaining_lt {t : Sys} (hle : s.state.times ≤ maxTimes)
    (ht : t.state.times = s.state.times + 1) : remaining t < remaining s := by
  unfold remaining
  omega

/-- After the fault, or without one to come, the work gets done. -/
theorem done_of_faluted (h : Calm s) (hf : s.car.faluted = true) :
    (system cfg).CanReach (fun t => maxTimes < t.state.times) s := by
  refine Lts.CanReach.of_measure (I := fun t => Calm t ∧ t.car.faluted = true) remaining ?_ ⟨h, hf⟩
  rintro t ⟨ht, hf⟩
  refine (progress ht).mono ?_
  rintro u ⟨hu, hlap, hfresh, htimes, hfal⟩
  have hf' : u.car.faluted = true := hfal.trans hf
  by_cases hlt : maxTimes < u.state.times
  · exact Or.inl hlt
  · exact Or.inr ⟨⟨⟨hu, hlap, Or.inl hf', hfresh, by omega⟩, hf'⟩,
      remaining_lt ht.below htimes⟩

/-- A settled state becomes calm: a servoPID that holds an old value stores it first. -/
theorem calm_or_done (ht : Timely s) (hlap : s.car.pc.inLap = true)
    (hq : s.car.faluted = true ∨ s.state.times ≤ faultStep) (hle : s.state.times ≤ maxTimes) :
    (system cfg).CanReach
      (fun t => maxTimes < t.state.times ∨ Calm t ∧ t.car.faluted = s.car.faluted) s := by
  by_cases hfresh : Fresh s
  · exact Lts.CanReach.refl (Or.inr ⟨⟨ht, hlap, hq, hfresh, hle⟩, rfl⟩)
  · -- the old value can only stem from a restore, so the fault has been
    have hf : s.car.faluted = true := by
      by_contra hf
      exact hfresh (ht.before (by simpa using hf)).1
    obtain ⟨l, hl, hst⟩ : ∃ l, s.part .servoPID = .running l ∧ l.rest.head? = some .storeTimes := by
      unfold Fresh at hfresh
      push Not at hfresh
      obtain ⟨l, hl, hst, -⟩ := hfresh
      exact ⟨l, hl, hst⟩
    obtain ⟨k, hk⟩ := List.head?_eq_some_iff.mp hst
    have he : (Label.part .servoPID (.storeTimes (l.reg + 1))).Enabled s :=
      enabled_part.mpr ⟨l, k, hl, hk, rfl⟩
    refine Lts.CanReach.step (step_iff.mpr ⟨he, rfl⟩) (Lts.CanReach.refl ?_)
    by_cases hlt : maxTimes <
        ((Label.part .servoPID (.storeTimes (l.reg + 1))).next cfg s).state.times
    · exact Or.inl hlt
    · exact Or.inr ⟨⟨ht.step_part he, hlap, Or.inl hf, fresh_of_servoPID ht.wf he, by omega⟩, rfl⟩

/-- A calm state before the fault: the work gets done, through the fault if it comes. -/
theorem done_of_calm (h : Calm s) :
    (system cfg).CanReach (fun t => maxTimes < t.state.times) s := by
  refine Lts.CanReach.of_measure (I := Calm) remaining ?_ h
  intro t ht
  refine (progress ht).bind fun u ⟨hu, hlap, hfresh, htimes, hfal⟩ => ?_
  by_cases hlt : maxTimes < u.state.times
  · exact Lts.CanReach.refl (Or.inl hlt)
  by_cases hq : u.car.faluted = true ∨ u.state.times ≤ faultStep
  · exact Lts.CanReach.refl
      (Or.inr ⟨⟨hu, hlap, hq, hfresh, by omega⟩, remaining_lt ht.below htimes⟩)
  · -- the fault is due: through its branch into a state after it
    obtain ⟨-, hstep⟩ := not_or.mp hq
    refine (settle hu (by simp [CarPc.inLoop, hlap]) (by omega)).bind
      fun v ⟨hv, hlapv, htv, hqv⟩ => ?_
    have hfv : v.car.faluted = true := hqv.resolve_right (by rw [htv]; exact hstep)
    refine (calm_or_done hv hlapv hqv (by omega)).bind fun w hw => ?_
    rcases hw with hlt' | ⟨hw, hfw⟩
    · exact Lts.CanReach.refl (Or.inl hlt')
    · exact (done_of_faluted hw (hfw.trans hfv)).mono fun _ => Or.inl

end Progress

/-- **No deadlock before the work is done.** From every reachable state, with or without a fault,
with the manager in its main loop and `times ≤ MAX_TIMES`, some run brings `times` past the
limit. -/
theorem work_gets_done (cfg : Config) {s : Sys} (hr : (system cfg).Reachable s)
    (hloop : s.car.pc.inLoop = true) (hle : s.state.times ≤ maxTimes) :
    (system cfg).CanReach (fun t => maxTimes < t.state.times) s := by
  refine (settle (Timely.of_reachable hr) hloop hle).bind fun t ⟨ht, hlap, htimes, hq⟩ => ?_
  refine (calm_or_done ht hlap hq (by omega)).bind fun u hu => ?_
  rcases hu with hlt | ⟨hu, -⟩
  · exact Lts.CanReach.refl hlt
  · exact done_of_calm hu

/-- A state in the middle of the fault branch, with all parts killed and none restored yet. -/
theorem work_gets_done_after_kill :
    ∃ s, (system Config.default).Reachable s ∧ (∀ p, s.part p = .killed) ∧
      (system Config.default).CanReach (fun t => maxTimes < t.state.times) s := by
  obtain ⟨tr, s, hr, hloop, hle, hkilled⟩ := exists_run Config.default
    (eagerTurns Config.default 202 (Sys.init Config.default))
    (P := fun _ s => s.car.pc.inLoop = true ∧ s.state.times ≤ maxTimes ∧
      ∀ p, s.part p = .killed) (by decide +kernel)
  have hr' : (system Config.default).Reachable s := ⟨_, tr, rfl, hr⟩
  exact ⟨s, hr', hkilled, work_gets_done _ hr' hloop hle⟩

end Vehicle.Recoverybase
