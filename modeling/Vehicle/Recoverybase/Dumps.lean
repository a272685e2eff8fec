import Vehicle.Recoverybase.Pipeline

/-!
# recoverybase: which parts are dumped

`stage` counts the cycles of a part modulo 3, but its cells are of type `bool`: the sum is converted
back, and `true + 1` is 2, which is true again. So every cell stays true (`Staged`), the guard
`stage[i] == i` of both passes holds for speed alone, and no other part is ever dumped.
-/

namespace Vehicle.Recoverybase

open Vehicle.Trace Vehicle.Trace.Cyclic

/-- The invariant of every reachable state. -/
structure Staged (s : Sys) : Prop where
  /-- Every cell of `stage` is true. -/
  stage : ∀ p, s.state.stage p = true
  /-- A part about to store its cell has loaded a true one, at every point it may be restored at. -/
  loaded : ∀ p, ∀ l ∈ s.occupied p, l.rest.head? = some .storeStage → l.reg = 1
  /-- A `SaveState` is called for speed only. -/
  saving : ∀ c i, s.car.pc = .save c i → i = .speed

theorem Staged.init (cfg : Config) : Staged (Sys.init cfg) where
  stage _ := rfl
  loaded := by simp [Sys.init]
  saving := by simp [Sys.init]

/-- The store of `stage` is reached from its load only. -/
theorem next_storeStage_iff {p : PartType} {i : Instr} {k : List Instr}
    (h : Placed (runALL p) (i :: k)) :
    (advance (runALL p) k).head? = some .storeStage ↔ i = .loadStage := by
  refine h.head_advance_iff ?_
  cases p <;> decide

/-- The guard of `SaveState` holds for speed alone. -/
theorem stageIs_of_true {s : State} {i : PartType} (hs : s.stage i = true)
    (h : stageIs s i = true) : i = .speed := by
  have h' : ofBool (s.stage i) = i.toInt := of_decide_eq_true h
  rw [hs] at h'
  revert h'
  cases i <;> decide

section Staged

variable {cfg : Config} {s : Sys}

theorem Staged.step_part {p : PartType} {a : Act} (hst : Staged s) (hw : Wf s)
    (he : (Label.part p a).Enabled s) : Staged ((Label.part p a).next cfg s) := by
  obtain ⟨l, k, hl, hk, hag, hpl⟩ := hw.stands he
  have hocc : l ∈ s.occupied p := hw.current p l hl
  refine ⟨?_, ?_, hst.saving⟩
  · intro q
    cases a with
    | storeStage b =>
      have hreg : l.reg = 1 := hst.loaded p l hocc (by rw [hk]; rfl)
      have hb : b = true := by
        have hb : b = toBool ((l.reg + 1).tmod 3) := hag
        rw [hb, hreg]
        rfl
      by_cases hq : q = p
      · subst hq
        simp [Label.next, Act.write, hb]
      · simpa [Label.next, Act.write, hq] using hst.stage q
    | _ => exact hst.stage q
  · intro q l' hl' hh
    by_cases hq : q = p
    · subst hq
      rcases mem_occupied_next hl hl' with hold | rfl
      · exact hst.loaded q l' hold hh
      · -- the new point: it is reached by loading a true cell
        obtain ⟨-, hhead⟩ := head_of_move hk rfl hh
        have hi := (next_storeStage_iff hpl).mp hhead
        cases a with
        | loadStage b =>
          have hb : b = s.state.stage q := hag
          rw [hst.stage q] at hb
          subst hb
          rfl
        | _ => cases hi
    · exact hst.loaded q l' (occupied_next_other hq ▸ hl') hh

theorem ne_save_afterPass (d : Check) (j : PartType) {c : Check} {i : PartType} :
    CarPc.afterPass d j ≠ .save c i := by
  rcases afterPass_cases d j with ⟨e, k, h⟩ | h
  · rw [h]; simp
  · rw [h]; simp

theorem ne_save_afterTest (cfg : Config) (d : Check) (j : PartType) (b : Bool) {c : Check}
    {i : PartType} : CarPc.afterTest cfg d j b ≠ .save c i := by
  rcases afterTest_cases cfg d j b with h | h | h
  · rw [h]; simp
  · rw [h]; simp
  · rw [h]; exact ne_save_afterPass d j

/-- The call of a `SaveState` is reached from its guard only. -/
theorem saving_move {a : CarAct} (hst : Staged s) (he : a.Enabled s) {c : Check} {i : PartType}
    (h : (a.move cfg s.car).pc = .save c i) : i = .speed := by
  cases a with
  | testStage k j b =>
    obtain ⟨-, hb⟩ := he
    cases b with
    | false => cases h
    | true =>
      obtain ⟨-, rfl⟩ : k = c ∧ j = i := by simpa [CarAct.move] using h
      exact stageIs_of_true (hst.stage j) hb.symm
  | initUnit j => cases j <;> cases h
  | testUnit j b => exact absurd h (ne_save_afterTest cfg .unit j b)
  | testNeed j b => exact absurd h (ne_save_afterTest cfg .compulsive j b)
  | storeUnit j => exact absurd h (ne_save_afterPass .unit j)
  | clearNeed j => exact absurd h (ne_save_afterPass .compulsive j)
  | testLoop b | testFault b => cases b <;> cases h
  | kill p =>
    simp only [CarAct.move] at h
    cases hk : s.car.pc.toKill.erase p <;> simp [hk, CarPc.killing] at h
  | clearNew j => cases j <;> cases h
  | restore j l => cases j <;> cases h
  | _ => cases h

theorem Staged.step_car {a : CarAct} (hst : Staged s) (he : a.Enabled s) :
    Staged ((Label.car a).next cfg s) := by
  refine ⟨?_, ?_, fun c i h => saving_move hst he h⟩
  · intro p
    have : ((Label.car a).next cfg s).state.stage = s.state.stage :=
      CarAct.write_stage s.car.tv a s.state
    rw [this]
    exact hst.stage p
  · intro p l hl hh
    rcases mem_occupied_next_car hl with hold | rfl
    · exact hst.loaded p l hold hh
    · cases p <;> cases hh

theorem Staged.step {t : Sys} {a : Label} (hst : Staged s) (hw : Wf s)
    (h : (system cfg).step s a = some t) : Staged t := by
  obtain ⟨he, rfl⟩ := step_iff.mp h
  cases a with
  | part p a => exact hst.step_part hw he
  | car a => exact hst.step_car he

theorem Staged.of_run {tr : List Label}
    (hr : (system cfg).Run (Sys.init cfg) tr s) : Staged s := by
  have key : Staged s ∧ Wf s := by
    refine hr.inv (I := fun _ s => Staged s ∧ Wf s) ⟨Staged.init cfg, Wf.init cfg⟩ ?_
    rintro tr s a t - ⟨hst, hw⟩ hs
    exact ⟨hst.step hw hs, hw.step hs⟩
  exact key.1

end Staged

/-- **Only speed is ever dumped**, with or without a fault. -/
theorem eq_speed_of_saveBegin {cfg : Config} {tr : List Label} {s : Sys} {c : Check} {p : PartType}
    (hr : (system cfg).Run (Sys.init cfg) tr s) (h : Label.car (.saveBegin c p) ∈ tr) :
    p = .speed := by
  obtain ⟨n, hn⟩ := List.mem_iff_getElem?.mp h
  obtain ⟨t, v, ht, hs⟩ := hr.at_event hn
  exact (Staged.of_run ht).saving c p (step_iff.mp hs).1

/-- `SaveState` has been called for each part that `Car::Run` restores. -/
def AllSaved (tr : List Label) : Prop := ∀ p, ∃ c, Label.car (.saveBegin c p) ∈ tr

/-- The eager run with `METHOD` 3 up to the fault branch, in which camera is not dumped. -/
theorem exists_run_to_fault :
    ∃ tr s, (system ⟨.both, false⟩).Run (Sys.init ⟨.both, false⟩)
        (tr ++ [.car (.testFault true)]) s ∧
      FaultFree tr ∧ ∀ c, Label.car (.saveBegin c .camera) ∉ tr := by
  obtain ⟨tr, s, hr, htr, hf, hu, hc⟩ := exists_run ⟨.both, false⟩
    (eagerTurns ⟨.both, false⟩ 220 (Sys.init ⟨.both, false⟩))
    (P := fun tr _ => tr = tr.dropLast ++ [.car (.testFault true)] ∧ FaultFree tr.dropLast ∧
      Label.car (.saveBegin .unit .camera) ∉ tr.dropLast ∧
      Label.car (.saveBegin .compulsive .camera) ∉ tr.dropLast) (by decide +kernel)
  refine ⟨_, s, htr ▸ hr, hf, fun c => ?_⟩
  cases c with
  | unit => exact hu
  | compulsive => exact hc

/-- **The fault finds parts without a dump.** With every `METHOD`, every run that enters the fault
branch enters it before all parts have been dumped. -/
theorem not_allSaved_at_fault (cfg : Config) {tr : List Label} {s : Sys}
    (hr : (system cfg).Run (Sys.init cfg) (tr ++ [.car (.testFault true)]) s) : ¬ AllSaved tr := by
  intro h
  obtain ⟨c, hc⟩ := h .camera
  cases eq_speed_of_saveBegin hr (List.mem_append_left _ hc)

theorem not_allSaved_both :
    ∃ tr s, (system ⟨.both, false⟩).Run (Sys.init ⟨.both, false⟩)
        (tr ++ [.car (.testFault true)]) s ∧
      ¬ AllSaved tr := by
  obtain ⟨tr, s, hr, -, -⟩ := exists_run_to_fault
  exact ⟨tr, s, hr, not_allSaved_at_fault _ hr⟩

/-- Not every part is recoverable when the fault comes. -/
theorem unrecoverable_at_fault :
    ¬ ∀ (cfg : Config) (tr : List Label) (s : Sys),
      (system cfg).Run (Sys.init cfg) (tr ++ [.car (.testFault true)]) s → FaultFree tr →
        AllSaved tr := by
  intro h
  obtain ⟨tr, s, hr, hf, hc⟩ := exists_run_to_fault
  obtain ⟨c, hmem⟩ := h _ tr s hr hf .camera
  exact hc c hmem

end Vehicle.Recoverybase
