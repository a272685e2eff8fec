import Vehicle.Recoverybase.Fault
import Vehicle.Recoverybase.Schedule

/-!
# recoverybase: shutdown

A part leaves by the test of `times` at the end of its cycle. Once the manager has left its main
loop nobody lowers a flag any more, so a part that raises one waits for ever (`stuck_step`); a part
that has its last handshake behind it runs through to the test and exits (`exit_of_not_stuck`). The
two together say exactly which parts still exit.
-/

namespace Vehicle.Recoverybase

open Vehicle.Trace Vehicle.Trace.Cyclic

/-- The process cannot come to the end of its cycle without an acknowledgement: it has a flag still
to raise, or waits on a raised one. -/
def Proc.stuck (b : Bool) : Proc → Prop
  | .running l => .storeNeed ∈ l.rest ∨ .whileNeed ∈ l.rest ∧ b = true
  | _ => False

instance (b : Bool) : ∀ q : Proc, Decidable (q.stuck b)
  | .running l => inferInstanceAs (Decidable (.storeNeed ∈ l.rest ∨ .whileNeed ∈ l.rest ∧ b = true))
  | .unborn | .killed | .exited => isFalse id

/-- Part `p` cannot finish its cycle without the manager. -/
def Stuck (p : PartType) (s : Sys) : Prop :=
  (s.part p).stuck (s.state.needCompulsiveCheckpoint p)

instance (p : PartType) (s : Sys) : Decidable (Stuck p s) :=
  inferInstanceAs (Decidable ((s.part p).stuck _))

/-- Behind its last `SetCompulsiveCheckpoint` a part waits at once or not at all. -/
theorem head_of_whileNeed_mem {p : PartType} {r : List Instr} (h : Placed (runALL p) r)
    (hs : Instr.storeNeed ∉ r) (hw : Instr.whileNeed ∈ r) : r.head? = some .whileNeed := by
  have key : ∀ r ∈ (runALL p).tails, Instr.storeNeed ∉ r → Instr.whileNeed ∈ r →
      r.head? = some .whileNeed := by
    cases p <;> decide
  exact h.of_tails key hs hw

/-- And waits for no data. -/
theorem whileOld_notMem {p : PartType} {r : List Instr} (h : Placed (runALL p) r)
    (hs : Instr.storeNeed ∉ r) (d : Fin 3) : Instr.whileOld d ∉ r := by
  have key : ∀ d : Fin 3, ∀ r ∈ (runALL p).tails, Instr.storeNeed ∉ r → Instr.whileOld d ∉ r := by
    cases p <;> decide
  exact h.of_tails (key d) hs

/-- The last statement of a cycle is the test of `times`. -/
theorem exitTest_of_last {p : PartType} {i : Instr} (h : Placed (runALL p) [i]) :
    i = .exitTest := by
  have key : ∀ r ∈ (runALL p).tails, r.length = 1 → r.head? = some .exitTest := by
    cases p <;> decide
  simpa using h.of_tails key rfl

section Finished

variable {cfg : Config} {s : Sys} {p : PartType}

/-- After the main loop only the parts take steps. -/
theorem part_of_finished {a : Label} (hpc : s.car.pc = .finished) (he : a.Enabled s) :
    ∃ q b, a = .part q b := by
  cases a with
  | part q b => exact ⟨q, b, rfl⟩
  | car b =>
    change b.Enabled s at he
    cases b <;> simp_all [CarAct.Enabled, CarPc.toFork, CarPc.toKill]

theorem stuck_iff {l : Local} (hl : s.part p = .running l) :
    Stuck p s ↔ .storeNeed ∈ l.rest ∨
      .whileNeed ∈ l.rest ∧ s.state.needCompulsiveCheckpoint p = true := by
  unfold Stuck
  rw [hl]
  exact Iff.rfl

/-- **A stuck part stays stuck** by its own steps. -/
theorem stuck_step_self {a : Act} (hw : Wf s) (h : Stuck p s) (he : (Label.part p a).Enabled s) :
    Stuck p ((Label.part p a).next cfg s) := by
  obtain ⟨l, k, hl, hk, hag, hpl⟩ := hw.stands he
  rw [stuck_iff hl, hk] at h
  have hx : a ≠ .testTimes true := by
    rintro rfl
    obtain rfl := exitTest_last hpl
    simp [Act.instr] at h
  have hnext : ((Label.part p a).next cfg s).part p = .running (a.move p l) := by
    rw [next_part_self hl, after_of_ne hx]
  rw [stuck_iff hnext, need_next_part, Act.move_rest, hk]
  by_cases hsn : a = .storeNeed
  · -- it raises its flag and waits on it
    subst hsn
    have hhead := (next_whileNeed_iff hpl).mpr rfl
    exact Or.inr ⟨List.mem_of_head? hhead, by simp⟩
  have hne : a.instr ≠ .storeNeed := by cases a <;> simp_all [Act.instr]
  by_cases hmem : Instr.storeNeed ∈ k
  · left
    split
    · exact List.mem_cons_of_mem _ hmem
    · cases k with
      | nil => cases hmem
      | cons i k => exact hmem
  · -- only the last wait is left, and its flag is up: it spins
    right
    have hno : Instr.storeNeed ∉ a.instr :: k := by simp [Ne.symm hne, hmem]
    obtain ⟨hmem', hn⟩ := h.resolve_left hno
    have hhead : a.instr = .whileNeed := by
      simpa using head_of_whileNeed_mem hpl hno hmem'
    have ha : a = .testNeed true := by
      cases a with
      | testNeed b =>
        have hb : b = s.state.needCompulsiveCheckpoint p := hag
        rw [hb, hn]
      | _ => cases hhead
    subst ha
    exact ⟨List.mem_cons_self .., by simp [hn]⟩

/-- **A stuck part stays stuck** once the manager has finished. -/
theorem stuck_step {t : Sys} {a : Label} (hw : Wf s) (hpc : s.car.pc = .finished)
    (h : Stuck p s) (hs : (system cfg).step s a = some t) : Stuck p t := by
  obtain ⟨he, rfl⟩ := step_iff.mp hs
  obtain ⟨q, a, rfl⟩ := part_of_finished hpc he
  by_cases hq : p = q
  · subst hq
    exact stuck_step_self hw h he
  · have hno : decide (a = .storeNeed ∧ p = q) = false := by simp [hq]
    unfold Stuck
    rw [need_next_part, next_part_other hq, hno, Bool.or_false]
    exact h

theorem not_exit_of_stuck (hr : (system cfg).Reachable s) (hpc : s.car.pc = .finished)
    (h : Stuck p s) : ¬ (system cfg).CanReach (fun t => t.part p = .exited) s := by
  refine Lts.CanReach.not_of_inv (I := fun t => Wf t ∧ t.car.pc = .finished ∧ Stuck p t) ?_ ?_
    ⟨Wf.of_reachable hr, hpc, h⟩
  · rintro s a t ⟨hw, hpc, h⟩ hs
    refine ⟨hw.step hs, ?_, stuck_step hw hpc h hs⟩
    obtain ⟨he, rfl⟩ := step_iff.mp hs
    obtain ⟨q, b, rfl⟩ := part_of_finished hpc he
    exact hpc
  · rintro s ⟨-, -, h⟩ hx
    unfold Stuck at h
    rw [hx] at h
    exact h

/-- A part that is not stuck does not spin. -/
theorem not_spins_of_not_stuck {l : Local} {a : Act} {k : List Instr}
    (hpl : Placed (runALL p) (a.instr :: k)) (hl : s.part p = .running l)
    (hk : l.rest = a.instr :: k) (hag : a.Agrees p s.state l) (h : ¬ Stuck p s) :
    a.spins = false := by
  rw [stuck_iff hl, hk, not_or] at h
  cases a with
  | testNew d b => exact absurd (List.mem_cons_self ..) (whileOld_notMem hpl h.1 d)
  | testNeed b =>
    have hb : b = s.state.needCompulsiveCheckpoint p := hag
    rw [hb]
    simpa [Act.instr, Act.spins] using h.2
  | _ => rfl

/-- **A step of a part that is not stuck**: it exits, or comes nearer to the end of its cycle and is
not stuck. -/
theorem not_stuck_step {a : Act} {l : Local} (cfg : Config) (ht : Timely s)
    (hpc : s.car.pc = .finished) (he : (Label.part p a).Enabled s) (hl : s.part p = .running l)
    (h : ¬ Stuck p s) :
    ((Label.part p a).next cfg s).part p = .exited ∨
      ¬ Stuck p ((Label.part p a).next cfg s) ∧
        ∃ m, ((Label.part p a).next cfg s).part p = .running m ∧
          m.rest.length < l.rest.length := by
  obtain ⟨⟨k, hk⟩, hag⟩ := agrees_of_enabled hl he
  have hpl : Placed (runALL p) (a.instr :: k) := hk ▸ ht.wf.placedAt hl
  by_cases hx : a = .testTimes true
  · left
    rw [next_part_self hl, hx]
    rfl
  right
  have hspin := not_spins_of_not_stuck hpl hl hk hag h
  have hne : k ≠ [] := by
    rintro rfl
    have hi := exitTest_of_last hpl
    cases a with
    | testTimes b =>
      have hb : b = decide (s.state.times > maxTimes) := hag
      have hlt : maxTimes < s.state.times := ht.overrun (Or.inl hpc)
      refine hx ?_
      rw [hb]
      simpa using hlt
    | _ => cases hi
  have hnext : ((Label.part p a).next cfg s).part p = .running (a.move p l) := by
    rw [next_part_self hl, after_of_ne hx]
  have hrest : (a.move p l).rest = k := by
    rw [Act.move_rest, hspin, hk]
    cases k with
    | nil => exact absurd rfl hne
    | cons i k => rfl
  rw [stuck_iff hl, hk, not_or] at h
  have hns : a ≠ .storeNeed := by
    rintro rfl
    exact h.1 (List.mem_cons_self ..)
  refine ⟨?_, _, hnext, ?_⟩
  · rw [stuck_iff hnext, need_next_part, hrest]
    rintro (hmem | ⟨hmem, hn⟩)
    · exact h.1 (List.mem_cons_of_mem _ hmem)
    · exact h.2 ⟨List.mem_cons_of_mem _ hmem, by simpa [hns] using hn⟩
  · rw [hrest, hk]
    simp

/-- **A part that is not stuck runs through** to the test of `times`, and exits. -/
theorem exit_of_not_stuck {l : Local} (hr : (system cfg).Reachable s)
    (hpc : s.car.pc = .finished) (hl : s.part p = .running l) (h : ¬ Stuck p s) :
    (system cfg).CanReach (fun t => t.part p = .exited) s := by
  refine Lts.CanReach.of_measure
    (I := fun t => Timely t ∧ t.car.pc = .finished ∧ ¬ Stuck p t ∧ ∃ l, t.part p = .running l)
    (fun t => (t.part p).rest.length) ?_ ⟨Timely.of_reachable hr, hpc, h, l, hl⟩
  rintro s ⟨ht, hpc, h, l, hl⟩
  obtain ⟨a, k, he, -⟩ := exists_act ht.wf hl
  refine Lts.CanReach.step (step_iff.mpr ⟨he, rfl⟩) (Lts.CanReach.refl ?_)
  rcases not_stuck_step cfg ht hpc he hl h with hx | ⟨h', m, hm, hlt⟩
  · exact Or.inl hx
  · refine Or.inr ⟨⟨ht.step_part he, hpc, h', m, hm⟩, ?_⟩
    rw [hm, hl]
    exact hlt

end Finished

/-- The eager run to the end of the main loop leaves servoPID waiting on a raised flag. -/
theorem exists_stuck :
    ∃ s, (system ⟨.unitOnly, true⟩).Reachable s ∧ s.car.pc = .finished ∧ Stuck .servoPID s := by
  obtain ⟨tr, s, hr, hpc, hst⟩ := exists_run ⟨.unitOnly, true⟩
    (eagerTurns ⟨.unitOnly, true⟩ 975 (Sys.init ⟨.unitOnly, true⟩))
    (P := fun _ s => s.car.pc = .finished ∧ Stuck .servoPID s) (by decide +kernel)
  exact ⟨s, ⟨_, tr, rfl, hr⟩, hpc, hst⟩

/-- **Which parts shut down.** After the manager has left its main loop, with or without a fault
before, a part can still come to exit exactly if it is not stuck: it has exited, or has no flag left
to raise in its cycle and waits on no raised one. -/
theorem exits_iff (cfg : Config) (p : PartType) {s : Sys} (hr : (system cfg).Reachable s)
    (hpc : s.car.pc = .finished) :
    (system cfg).CanReach (fun t => t.part p = .exited) s ↔ ¬ Stuck p s := by
  refine ⟨fun h hst => not_exit_of_stuck hr hpc hst h, fun h => ?_⟩
  have hw := Wf.of_reachable hr
  cases hp : s.part p with
  | running l => exact exit_of_not_stuck hr hpc hp h
  | exited => exact Lts.CanReach.refl hp
  | unborn =>
    have := (hw.unborn p).mp hp
    rw [hpc] at this
    cases this
  | killed =>
    have := (hw.killed p).mp hp
    rw [hpc] at this
    cases this

theorem exits_iff_servoPID :
    ∃ s, (system ⟨.unitOnly, true⟩).Reachable s ∧ s.car.pc = .finished ∧
      ¬ (system ⟨.unitOnly, true⟩).CanReach (fun t => t.part .servoPID = .exited) s := by
  obtain ⟨s, hr, hpc, hst⟩ := exists_stuck
  exact ⟨s, hr, hpc, fun h => (exits_iff _ .servoPID hr hpc).mp h hst⟩

/-- Not every part can exit after the main loop. -/
theorem no_clean_shutdown :
    ¬ ∀ (cfg : Config) (s : Sys), (system cfg).Reachable s → s.car.pc = .finished →
      ∀ p, (system cfg).CanReach (fun t => t.part p = .exited) s := by
  intro h
  obtain ⟨s, hr, hpc, hst⟩ := exists_stuck
  exact not_exit_of_stuck hr hpc hst (h _ s hr hpc .servoPID)

end Vehicle.Recoverybase
