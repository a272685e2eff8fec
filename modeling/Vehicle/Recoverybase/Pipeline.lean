import Mathlib.Data.Rat.Floor
import Vehicle.Recoverybase.LockStep

/-!
# recoverybase: the pipeline

camera, speed and servoPID hand data on by the flags `is_new_data`. Two accounts are kept along a
run without a fault. A set flag, or a consumer that has seen it and not cleared it yet, is one
token: the clears never exceed the sets (`clears_le_sets`). And a part executes the statements of
its cycle in the proportion they stand in it (`laps`): speed clears before it sets, servoPID clears
once in three additions to `times`. Chained, they bound `times` by the outputs of camera.
-/

namespace Vehicle.Recoverybase

open Vehicle.Trace Vehicle.Trace.Cyclic

/-! ### Tokens -/

/-- The data of part `p` is new, or its consumer `c` is about to clear it. -/
def pending (p c : PartType) (s : Sys) : ℕ :=
  if s.state.isNewData p.idx || (s.part c).at (.storeNew p.idx false) then 1 else 0

theorem pending_le_one (p c : PartType) (s : Sys) : pending p c s ≤ 1 := by
  unfold pending
  split <;> omega

/-- A flag is cleared from the loop that waits for it only. -/
theorem next_clear_iff {p : PartType} {d : Fin 3} {i : Instr} {k : List Instr}
    (h : Placed (runALL p) (i :: k)) :
    (advance (runALL p) k).head? = some (.storeNew d false) ↔ i = .whileOld d := by
  refine h.head_advance_iff ?_
  revert d
  cases p <;> decide

/-- A part sets its own flag only. -/
theorem set_idx {p q : PartType} {k : List Instr}
    (h : Placed (runALL q) (.storeNew p.idx true :: k)) : q = p := by
  have hmem : Instr.storeNew p.idx true ∈ runALL q := h.2.subset (List.mem_cons_self ..)
  revert hmem
  cases p <;> cases q <;> decide

theorem Act.write_new (p : PartType) (a : Act) (s : State) (d : Fin 3) :
    (a.write p s).isNewData d =
      if a.instr = .storeNew d true then true
      else if a.instr = .storeNew d false then false else s.isNewData d := by
  cases a with
  | storeNew e b =>
    by_cases h : d = e
    · subst h
      cases b <;> simp [Act.write, Act.instr]
    · have h' : e ≠ d := Ne.symm h
      simp [Act.write, Act.instr, h, h']
  | _ => simp [Act.write, Act.instr]

theorem CarAct.write_new (tv : Timeval) (a : CarAct) (s : State) (d : Fin 3)
    (h : (a.write tv s).isNewData d = true) : s.isNewData d = true := by
  cases a with
  | initNew i | clearNew i =>
    by_cases hd : d = i.idx
    · simp [CarAct.write, hd] at h
    · simpa [CarAct.write, Function.update_of_ne hd] using h
  | _ => exact h

section Tokens

variable {cfg : Config} {s : Sys} {p c : PartType}

/-- A part comes to clear a flag only when it has just seen it set. -/
theorem set_of_at_clear {q : PartType} {a : Act} {d : Fin 3} (hw : Wf s)
    (he : (Label.part q a).Enabled s)
    (h : (((Label.part q a).next cfg s).part q).at (.storeNew d false) = true) :
    a.instr = .whileOld d ∧ s.state.isNewData d = true := by
  obtain ⟨l, k, hl, hk, hag, hpl⟩ := hw.stands he
  rw [next_part_self hl] at h
  cases hx : a.after q l with
  | running l' =>
    obtain ⟨-, rfl⟩ := after_eq_running hx
    rw [hx] at h
    have hh : (a.move q l).rest.head? = some (.storeNew d false) := of_decide_eq_true h
    obtain ⟨hs, hhead⟩ := head_of_move hk rfl hh
    have hi := (next_clear_iff hpl).mp hhead
    refine ⟨hi, ?_⟩
    cases a with
    | testNew e b =>
      obtain rfl : e = d := by simpa [Act.instr] using hi
      have hb : b = s.state.isNewData e := hag
      rw [← hb]
      simpa [Act.spins] using hs
    | _ => simp [Act.instr] at hi
  | _ => rw [hx] at h; cases h

/-- **A step of a part**: clearing takes the token, seeing the flag keeps it, and only setting it
makes one. -/
theorem pending_part (cfg : Config) {q : PartType} {a : Act} (hw : Wf s)
    (he : (Label.part q a).Enabled s) :
    (if q = c ∧ a.instr = .storeNew p.idx false then 1 else 0) +
        pending p c ((Label.part q a).next cfg s) ≤
      pending p c s + if q = p ∧ a.instr = .storeNew p.idx true then 1 else 0 := by
  obtain ⟨l, k, hl, hk, -, hpl⟩ := hw.stands he
  have hnew : ((Label.part q a).next cfg s).state.isNewData p.idx =
      if a.instr = .storeNew p.idx true then true
      else if a.instr = .storeNew p.idx false then false else s.state.isNewData p.idx :=
    Act.write_new q a s.state p.idx
  by_cases hset : a.instr = .storeNew p.idx true
  · -- the producer sets the flag
    obtain rfl : q = p := set_idx (hset ▸ hpl)
    have := pending_le_one q c ((Label.part q a).next cfg s)
    simp [hset]
    omega
  rw [if_neg hset] at hnew
  have hgrant : ¬ (q = p ∧ a.instr = .storeNew p.idx true) := fun h => hset h.2
  rw [if_neg hgrant, Nat.add_zero]
  by_cases hq : q = c
  · subst hq
    have hat : (s.part q).at (.storeNew p.idx false) =
        decide (a.instr = .storeNew p.idx false) := by
      simp [hl, Proc.at, hk]
    unfold pending
    rw [hnew, hat]
    by_cases hclear : a.instr = .storeNew p.idx false
    · have hno : (((Label.part q a).next cfg s).part q).at (.storeNew p.idx false) = false := by
        by_contra h
        have := (set_of_at_clear hw he (by simpa using h)).1
        simp [hclear] at this
      simp [hclear, hno]
    · by_cases h : (((Label.part q a).next cfg s).part q).at (.storeNew p.idx false) = true
      · simp [hclear, (set_of_at_clear hw he h).2]
      · simp [hclear, h]
  · have hother : ((Label.part q a).next cfg s).part c = s.part c := next_part_other (Ne.symm hq)
    unfold pending
    have hclears : ¬ (q = c ∧ a.instr = .storeNew p.idx false) := fun h => hq h.1
    rw [hnew, hother, if_neg hclears, Nat.zero_add]
    by_cases hclear : a.instr = .storeNew p.idx false
    · simp only [hclear, if_true, Bool.false_or]
      split_ifs with h₁ h₂ <;> simp_all
    · simp [hclear]

/-- The manager only clears. -/
theorem pending_car (cfg : Config) {a : CarAct} (hw : Wf s) (he : a.Enabled s)
    (ha : ∀ l, a ≠ .restore c l) :
    pending p c ((Label.car a).next cfg s) ≤ pending p c s := by
  have hat : (((Label.car a).next cfg s).part c).at (.storeNew p.idx false) = true →
      (s.part c).at (.storeNew p.idx false) = true := by
    intro h
    rcases hw.spawn he c with hp | ⟨-, hp⟩ | ⟨-, hp⟩ | ⟨l, hl, -⟩
    · exact hp ▸ h
    · have hc : (((Label.car a).next cfg s).part c) = .running (.start c) := hp
      rw [hc] at h
      cases c <;> cases h
    · have hc : (((Label.car a).next cfg s).part c) = .killed := hp
      rw [hc] at h
      cases h
    · exact absurd hl (ha l)
  have hnew : ((Label.car a).next cfg s).state.isNewData p.idx = true →
      s.state.isNewData p.idx = true := CarAct.write_new s.car.tv a s.state p.idx
  unfold pending
  split_ifs with h h' <;> simp_all

end Tokens

/-! ### Laps -/

/-- The label is the execution of statement `j` by part `p`. -/
def Label.does (p : PartType) (j : Instr) : Label → Bool
  | .part q a => decide (q = p ∧ a.instr = j)
  | .car _ => false

section Laps

variable {cfg : Config} {s : Sys} {tr : List Label}

/-- **Clears against sets.** The consumer never clears a flag more often than its producer has set
it. -/
theorem clears_le_sets (hr : (system cfg).Run (Sys.init cfg) tr s) (hf : FaultFree tr)
    (p c : PartType) :
    tr.countP (Label.does c (.storeNew p.idx false)) ≤
      tr.countP (Label.does p (.storeNew p.idx true)) := by
  have hb := Steady.budget (A := Label.does c (.storeNew p.idx false))
    (B := Label.does p (.storeNew p.idx true)) (pending p c) ?_ hr hf
  · have h₀ : pending p c (Sys.init cfg) = 0 := rfl
    omega
  · intro s a hs he
    cases a with
    | part q a =>
      have h := pending_part cfg (p := p) (c := c) hs.wf he
      simpa only [Label.does, decide_eq_true_eq] using h
    | car a =>
      have h := pending_car cfg (p := p) (c := c) hs.wf he fun l h =>
        hs.no_restore he c l (congrArg Label.car h)
      simpa [Label.does] using h

/-- Executed and remaining statements fill whole cycles, except for the loops that wait. -/
def Laps (p : PartType) (tr : List Label) (s : Sys) (n : ℕ) : Prop :=
  ∀ j : Instr, j.waits = false →
    tr.countP (Label.does p j) + (s.part p).rest.count j = n * (runALL p).count j

theorem Laps.step_part {p q : PartType} {a : Act} {n : ℕ} (h : Laps p tr s n) (hw : Wf s)
    (he : (Label.part q a).Enabled s) :
    ∃ m, Laps p (tr ++ [.part q a]) ((Label.part q a).next cfg s) m := by
  by_cases hq : q = p
  · subst hq
    obtain ⟨l, k, hl, hk, -, hpl⟩ := hw.stands he
    have hcount : ∀ j, (tr ++ [Label.part q a]).countP (Label.does q j) =
        tr.countP (Label.does q j) + if a.instr = j then 1 else 0 := by
      intro j
      simp [List.countP_append, Label.does]
    have hrest : (s.part q).rest = a.instr :: k := by rw [hl, ← hk]; rfl
    by_cases hs : a.spins = true
    · refine ⟨n, fun j hj => ?_⟩
      have hne : a.instr ≠ j := by
        rintro rfl
        rw [Act.waits_of_spins hs] at hj
        cases hj
      have hx : a ≠ .testTimes true := by rintro rfl; cases hs
      have := h j hj
      rw [hrest] at this
      rw [hcount, if_neg hne, next_part_self hl, after_of_ne hx]
      simpa [Proc.rest, Act.move_rest, hs, hk] using this
    · by_cases hx : a = .testTimes true
      · -- the last statement of the last cycle
        subst hx
        obtain rfl := exitTest_last hpl
        refine ⟨n, fun j hj => ?_⟩
        have := h j hj
        rw [hrest] at this
        rw [hcount, next_part_self hl]
        by_cases hj' : (Act.testTimes true).instr = j
        · simpa [Act.after, Proc.rest, hj'] using this
        · simpa [Act.after, Proc.rest, hj'] using this
      · refine ⟨n + if k = [] then 1 else 0, fun j hj => ?_⟩
        have := h j hj
        rw [hrest] at this
        rw [hcount, next_part_self hl, after_of_ne hx]
        have hmove : (Proc.running (a.move q l)).rest = advance (runALL q) k := by
          simp [Proc.rest, Act.move_rest, hs, hk]
        rw [hmove]
        exact lap_count this
  · refine ⟨n, fun j hj => ?_⟩
    rw [next_part_other (Ne.symm hq)]
    simpa [List.countP_append, Label.does, hq] using h j hj

theorem Laps.step_car {p : PartType} {a : CarAct} {n : ℕ} (h : Laps p tr s n) (hw : Wf s)
    (he : a.Enabled s) (hk : a ≠ .kill p) (hr : ∀ l, a ≠ .restore p l) :
    ∃ m, Laps p (tr ++ [.car a]) ((Label.car a).next cfg s) m := by
  have hcount : ∀ j, (tr ++ [Label.car a]).countP (Label.does p j) =
      tr.countP (Label.does p j) := by
    intro j
    simp [List.countP_append, Label.does]
  rcases hw.spawn he p with hp | ⟨hu, hp⟩ | ⟨h', -⟩ | ⟨l, h', -⟩
  · refine ⟨n, fun j hj => ?_⟩
    have hp' : ((Label.car a).next cfg s).part p = s.part p := hp
    rw [hcount, hp']
    exact h j hj
  · refine ⟨n + 1, fun j hj => ?_⟩
    have hp' : ((Label.car a).next cfg s).part p = .running (.start p) := hp
    have := h j hj
    rw [hu] at this
    rw [hcount, hp', Nat.add_mul, ← this]
    simp [Proc.rest, Local.start]
  · exact absurd h' hk
  · exact absurd h' (hr l)

/-- **Proportions.** Along a run without a fault every part executes its statements lap by lap. -/
theorem laps (hr : (system cfg).Run (Sys.init cfg) tr s) (hf : FaultFree tr) (p : PartType) :
    ∃ n, Laps p tr s n := by
  have key : Steady s ∧ ∃ n, Laps p tr s n := by
    refine (Steady.init cfg).inv (I := fun tr s => ∃ n, Laps p tr s n)
      ⟨0, fun j _ => by simp [Sys.init, Proc.rest]⟩ ?_ hr hf
    rintro tr s a hst ⟨n, hn⟩ hk he
    cases a with
    | part q a => exact hn.step_part hst.wf he
    | car a =>
      exact hn.step_car hst.wf he (fun h => hk p (congrArg Label.car h)) fun l h =>
        hst.no_restore he p l (congrArg Label.car h)
  exact key.2

/-- Where a part that runs, or does not, stands in its cycle. -/
theorem rest_mem_tails (hw : Wf s) (p : PartType) : (s.part p).rest ∈ (runALL p).tails := by
  cases hp : s.part p with
  | running l => exact (List.mem_tails _ _).mpr (hw.placedAt hp).2
  | _ => exact (List.mem_tails _ _).mpr (List.nil_suffix)

/-- **The counter is the number of its stores.** -/
theorem times_eq_count (hr : (system cfg).Run (Sys.init cfg) tr s) (hf : FaultFree tr) :
    s.state.times = tr.countP (Label.does .servoPID .storeTimes) := by
  have key : Steady s ∧ s.state.times = tr.countP (Label.does .servoPID .storeTimes) := by
    refine (Steady.init cfg).inv
      (I := fun tr s => s.state.times = tr.countP (Label.does .servoPID .storeTimes)) rfl ?_ hr hf
    intro tr s a hst hn _ he
    cases a with
    | part q a =>
      rw [times_next_part hst.fresh hst.wf he, hn, List.countP_append]
      by_cases h : q = .servoPID ∧ a.instr = .storeTimes <;> simp [Label.does, h]
    | car a =>
      rw [times_car, hn, List.countP_append]
      simp [Label.does]
  exact key.2

/-- **Three additions a datum.** servoPID clears its flag once in three additions to `times`. -/
theorem times_le_clears (hr : (system cfg).Run (Sys.init cfg) tr s) (hf : FaultFree tr) :
    tr.countP (Label.does .servoPID .storeTimes) ≤
      3 * tr.countP (Label.does .servoPID (.storeNew 1 false)) + 2 := by
  obtain ⟨n, hn⟩ := laps hr hf .servoPID
  have htail : ∀ r ∈ (runALL .servoPID).tails,
      3 * r.count (.storeNew 1 false) ≤ 1 * r.count .storeTimes + 2 := by decide
  have := lap_le (hn .storeTimes rfl) (hn (.storeNew 1 false) rfl) (a := 1) (b := 3) (by decide)
    (htail _ (rest_mem_tails (Steady.of_run hr hf).wf .servoPID))
  omega

/-- speed clears its input before it announces its output. -/
theorem sets_le_clears (hr : (system cfg).Run (Sys.init cfg) tr s) (hf : FaultFree tr) :
    tr.countP (Label.does .speed (.storeNew 1 true)) ≤
      tr.countP (Label.does .speed (.storeNew 0 false)) := by
  obtain ⟨n, hn⟩ := laps hr hf .speed
  have htail : ∀ r ∈ (runALL .speed).tails,
      1 * r.count (.storeNew 0 false) ≤ 1 * r.count (.storeNew 1 true) + 0 := by decide
  have := lap_le (hn (.storeNew 1 true) rfl) (hn (.storeNew 0 false) rfl) (a := 1) (b := 1)
    (by decide) (htail _ (rest_mem_tails (Steady.of_run hr hf).wf .speed))
  omega

theorem overrun_of_run (hr : (system cfg).Run (Sys.init cfg) tr s) (hf : FaultFree tr) :
    Overrun s := by
  have key : Steady s ∧ Overrun s := by
    refine (Steady.init cfg).inv (I := fun _ s => Overrun s) (Overrun.init cfg) ?_ hr hf
    intro _ s a hst ho _ he
    exact ho.step (fun _ => hst.fresh) hst.wf he
  exact key.2

end Laps

/-- **The pipeline's accounts.** In every run without a fault speed has cleared `is_new_data[0]` at
most as often as camera has set it, servoPID has cleared `is_new_data[1]` at most as often as speed
has set it, and `times` is at most three times camera's sets plus 2; so the manager has not finished
before camera has set its flag `(MAX_TIMES - 1) / 3` times, rounded up. -/
theorem pipeline_accounts (cfg : Config) {tr : List Label} {s : Sys}
    (hr : (system cfg).Run (Sys.init cfg) tr s) (hf : FaultFree tr) :
    tr.countP (Label.does .speed (.storeNew 0 false)) ≤
        tr.countP (Label.does .camera (.storeNew 0 true)) ∧
      tr.countP (Label.does .servoPID (.storeNew 1 false)) ≤
        tr.countP (Label.does .speed (.storeNew 1 true)) ∧
      s.state.times ≤ 3 * tr.countP (Label.does .camera (.storeNew 0 true)) + 2 ∧
      (maxTimes < s.state.times ∨ s.car.pc = .finished →
        ⌈((maxTimes - 1 : ℤ) : ℚ) / 3⌉ ≤ tr.countP (Label.does .camera (.storeNew 0 true))) := by
  have h₀ := clears_le_sets hr hf .camera .speed
  have h₁ := clears_le_sets hr hf .speed .servoPID
  simp only [PartType.idx] at h₀ h₁
  have htimes : s.state.times ≤ 3 * tr.countP (Label.does .camera (.storeNew 0 true)) + 2 := by
    have hthree := times_le_clears hr hf
    have hspeed := sets_le_clears hr hf
    rw [times_eq_count hr hf]
    omega
  refine ⟨h₀, h₁, htimes, fun hdone => ?_⟩
  have hover : maxTimes < s.state.times := hdone.elim id fun h => overrun_of_run hr hf (Or.inl h)
  have hle : maxTimes - 1 ≤ 3 * (tr.countP (Label.does .camera (.storeNew 0 true)) : ℤ) := by omega
  rw [Int.ceil_le, div_le_iff₀ (by norm_num), mul_comm]
  exact_mod_cast hle

/-- The eager run to the end of the main loop, in which camera has set its flag 11 times. -/
theorem pipeline_accounts_finished :
    ∃ tr s, (system ⟨.unitOnly, true⟩).Run (Sys.init ⟨.unitOnly, true⟩) tr s ∧
      s.car.pc = .finished ∧ tr.countP (Label.does .camera (.storeNew 0 true)) = 11 ∧
      s.state.times ≤ 3 * tr.countP (Label.does .camera (.storeNew 0 true)) + 2 ∧
      ⌈((maxTimes - 1 : ℤ) : ℚ) / 3⌉ ≤ tr.countP (Label.does .camera (.storeNew 0 true)) := by
  obtain ⟨tr, s, hr, hpc, hsets, hf⟩ := exists_run ⟨.unitOnly, true⟩
    (eagerTurns ⟨.unitOnly, true⟩ 975 (Sys.init ⟨.unitOnly, true⟩))
    (P := fun tr s => s.car.pc = .finished ∧
      tr.countP (Label.does .camera (.storeNew 0 true)) = 11 ∧ FaultFree tr) (by decide +kernel)
  have h := pipeline_accounts _ hr hf
  exact ⟨tr, s, hr, hpc, hsets, h.2.2.1, h.2.2.2 (Or.inr hpc)⟩

end Vehicle.Recoverybase
