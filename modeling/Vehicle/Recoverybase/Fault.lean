import Vehicle.Recoverybase.LockStep

/-!
# recoverybase: the fault comes in time

A restored servoPID may hold an old value of `times` and store it over a newer one. That this
happens only while `times` is small is the invariant `Timely` of all reachable states: before the
fault the counter is at most one acknowledgement past `FAULT_STEP` when the fault is tested for, so
the parts are killed and restored with `times` at most `FAULT_STEP + 2`, and any later store of
servoPID is one of a value it has just loaded. Hence past `MAX_TIMES` the counter never falls.
-/

namespace Vehicle.Recoverybase

open Vehicle.Trace Vehicle.Trace.Cyclic

/-- Program points of the fault branch. -/
def CarPc.faulting : CarPc → Bool
  | .simulateFalut _ | .clearNew _ | .restore _ => true
  | _ => false

/-- The invariant of every reachable state. -/
structure Timely (s : Sys) : Prop where
  wf : Wf s
  /-- servoPID can store an old value only while `times` is small. -/
  stale : Fresh s ∨ s.state.times ≤ faultStep + 2
  /-- Before the fault servoPID has the present value, and `times` cannot run away. -/
  before : s.car.faluted = false →
    Fresh s ∧ horizon s + s.car.pc.acks 1 ≤ faultStep + 2
  /-- Nor can it in the fault branch, where the fault is marked as done. -/
  branch : s.car.pc.faulting = true →
    s.car.faluted = true ∧ Fresh s ∧ horizon s ≤ faultStep + 2
  overrun : Overrun s

theorem Timely.init (cfg : Config) : Timely (Sys.init cfg) where
  wf := Wf.init cfg
  stale := Or.inl (Fresh.init cfg)
  before _ := by
    refine ⟨Fresh.init cfg, ?_⟩
    have h : horizon (Sys.init cfg) + (Sys.init cfg).car.pc.acks 1 = 3 := rfl
    rw [h]
    decide
  branch h := by cases h
  overrun := Overrun.init cfg

/-- Only the test of the fault marks it as done. -/
theorem faluted_move {cfg : Config} {c : Car} {a : CarAct} (ha : a ≠ .testFault true) :
    (a.move cfg c).faluted = c.faluted := by
  cases a with
  | testFault b =>
    cases b with
    | false => rfl
    | true => exact absurd rfl ha
  | _ => rfl

theorem faulting_of_plain {c : CarPc} (h : c.plain = true) : c.faulting = false := by
  cases c <;> first | rfl | cases h

/-- The fault branch is entered by its test, and left after the last part is restored. -/
theorem faulting_move {cfg : Config} {s : Sys} {a : CarAct} (he : a.Enabled s)
    (h : (a.move cfg s.car).pc.faulting = true) :
    a = .testFault true ∨ s.car.pc.faulting = true ∧ ∀ l, a ≠ .restore .servoPID l := by
  by_cases ha : a = .testFault true
  · exact Or.inl ha
  refine Or.inr ⟨?_, ?_⟩
  · by_contra hn
    have hplain : s.car.pc.plain = true → False := fun hp => by
      rw [faulting_of_plain (plain_move he hp ha)] at h
      cases h
    cases hpc : s.car.pc with
    | start =>
      cases a <;> simp_all [CarAct.Enabled, CarPc.toFork, CarPc.toKill, CarAct.move, CarPc.faulting]
    | forkPart todo =>
      cases a <;> simp_all [CarAct.Enabled, CarPc.toFork, CarPc.toKill, CarAct.move, CarPc.faulting]
    | simulateFalut todo | clearNew i | restore i => exact hn (by rw [hpc]; rfl)
    | _ => exact hplain (by rw [hpc]; rfl)
  · rintro l rfl
    cases h

section Timely

variable {cfg : Config} {s : Sys}

theorem Timely.fresh_of_overrun (h : Timely s) (hlt : maxTimes < s.state.times) : Fresh s := by
  refine h.stale.resolve_right fun hle => ?_
  have : faultStep + 2 ≤ maxTimes := by decide
  omega

theorem Timely.step_part {q : PartType} {a : Act} (h : Timely s)
    (he : (Label.part q a).Enabled s) : Timely ((Label.part q a).next cfg s) := by
  have hfresh : Fresh s → Fresh ((Label.part q a).next cfg s) := fun hf =>
    hf.step h.wf he (by simp)
  refine ⟨h.wf.step_part he, ?_, ?_, ?_, h.overrun.step h.fresh_of_overrun h.wf he⟩
  · rcases times_part cfg h.wf he with ht | ⟨rfl, -⟩
    · rw [ht]
      exact h.stale.imp_left hfresh
    · exact Or.inl (fresh_of_servoPID h.wf he)
  · intro hn
    obtain ⟨hf, hle⟩ := h.before hn
    have := horizon_part cfg hf h.wf he
    refine ⟨hfresh hf, ?_⟩
    rw [next_part_car]
    omega
  · intro hb
    obtain ⟨hn, hf, hle⟩ := h.branch hb
    have := horizon_part cfg hf h.wf he
    exact ⟨hn, hfresh hf, by omega⟩

/-- The fault is tested for with `times` under control. -/
theorem Timely.testFault (h : Timely s) (he : (CarAct.testFault true).Enabled s) :
    s.car.faluted = false ∧ Fresh s ∧ horizon s ≤ faultStep + 2 := by
  have hb : true = (decide (s.state.times > faultStep) && !s.car.faluted) := he.2
  have hn : s.car.faluted = false := by
    have := (Bool.and_eq_true_iff.mp hb.symm).2
    simpa using this
  obtain ⟨hf, hle⟩ := h.before hn
  have : s.car.pc.acks 1 = 0 := by rw [he.1]; rfl
  exact ⟨hn, hf, by omega⟩

theorem fresh_next_car {a : CarAct} (hw : Wf s) (he : a.Enabled s) (hf : Fresh s)
    (hr : ∀ l, a ≠ .restore .servoPID l) : Fresh ((Label.car a).next cfg s) :=
  hf.step hw he fun l hl => hr l (Label.car.inj hl)

theorem Timely.stale_car {a : CarAct} (h : Timely s) (he : a.Enabled s) :
    Fresh ((Label.car a).next cfg s) ∨
      ((Label.car a).next cfg s).state.times ≤ faultStep + 2 := by
  rw [times_car]
  by_cases hr : ∃ l, a = .restore .servoPID l
  · -- the restore itself: `times` is still small
    right
    obtain ⟨l, rfl⟩ := hr
    obtain ⟨-, -, hle⟩ := h.branch (by rw [he.1]; rfl)
    have := times_le_horizon s
    omega
  · refine h.stale.imp_left fun hf => fresh_next_car h.wf he hf ?_
    intro l hl
    exact hr ⟨l, hl⟩

/-- Before the fault the manager restores nobody. -/
theorem Timely.no_restore {a : CarAct} (h : Timely s) (he : a.Enabled s)
    (hn : s.car.faluted = false) (l : Local) : a ≠ .restore .servoPID l := by
  rintro rfl
  have := (h.branch (by rw [he.1]; rfl)).1
  rw [hn] at this
  cases this

theorem Timely.before_car {a : CarAct} (h : Timely s) (he : a.Enabled s)
    (hn : ((Label.car a).next cfg s).car.faluted = false) :
    Fresh ((Label.car a).next cfg s) ∧ horizon ((Label.car a).next cfg s) +
      ((Label.car a).next cfg s).car.pc.acks 1 ≤ faultStep + 2 := by
  by_cases ht : a = .testFault true
  · subst ht
    cases hn
  have hn' : s.car.faluted = false := (faluted_move ht).symm.trans hn
  obtain ⟨hf, hle⟩ := h.before hn'
  have hr := h.no_restore he hn'
  refine ⟨fresh_next_car h.wf he hf hr, ?_⟩
  by_cases ht' : a = .testFault false
  · -- no fault yet: the counter is at most at its threshold
    subst ht'
    have hb : false = (decide (s.state.times > faultStep) && !s.car.faluted) := he.2
    have htimes : s.state.times ≤ faultStep := by simpa [hn'] using hb.symm
    have hh := horizon_le ((Label.car (.testFault false)).next cfg s)
    rw [times_car] at hh
    have hacks : ((Label.car (.testFault false)).next cfg s).car.pc.acks 1 = 1 := rfl
    omega
  · have hfault : ∀ b, Label.car a ≠ .car (.testFault b) := by
      intro b hb
      cases b with
      | false => exact ht' (Label.car.inj hb)
      | true => exact ht (Label.car.inj hb)
    have := reserve_step cfg (w := 1) hf h.wf (a := .car a) he
      (fun l hl => hr l (Label.car.inj hl)) (Or.inl le_rfl) (Or.inr hfault)
    omega

theorem Timely.branch_car {a : CarAct} (h : Timely s) (he : a.Enabled s)
    (hb : ((Label.car a).next cfg s).car.pc.faulting = true) :
    ((Label.car a).next cfg s).car.faluted = true ∧ Fresh ((Label.car a).next cfg s) ∧
      horizon ((Label.car a).next cfg s) ≤ faultStep + 2 := by
  rcases faulting_move he hb with rfl | ⟨hb', hr⟩
  · obtain ⟨-, hf, hle⟩ := h.testFault he
    have := horizon_car cfg (a := .testFault true) h.wf he (by simp)
    refine ⟨rfl, fresh_next_car h.wf he hf (by simp), ?_⟩
    simp only [CarAct.clears, Bool.false_eq_true, if_false] at this
    omega
  · obtain ⟨hn, hf, hle⟩ := h.branch hb'
    have ht : a ≠ .testFault true := by
      rintro rfl
      rw [he.1] at hb'
      cases hb'
    have hc : a.clears .servoPID = false := by
      cases a with
      | initNeed i | clearNeed i =>
        have hpc : s.car.pc = _ := he
        rw [hpc] at hb'
        cases hb'
      | _ => rfl
    have := horizon_car cfg h.wf he hr
    rw [hc] at this
    refine ⟨(faluted_move ht).trans hn, fresh_next_car h.wf he hf hr, ?_⟩
    simpa using this.trans (by simpa using hle)

theorem Timely.step_car {a : CarAct} (h : Timely s)
    (hs : (system cfg).step s (.car a) = some ((Label.car a).next cfg s)) :
    Timely ((Label.car a).next cfg s) := by
  have he : a.Enabled s := (step_iff.mp hs).1
  exact ⟨h.wf.step hs, h.stale_car he, h.before_car he, h.branch_car he,
    h.overrun.step h.fresh_of_overrun h.wf he⟩

theorem Timely.of_reachable (h : (system cfg).Reachable s) : Timely s := by
  refine h.inv (fun s hs => hs ▸ Timely.init cfg) fun s a t hI hs => ?_
  obtain ⟨he, rfl⟩ := step_iff.mp hs
  cases a with
  | part q a => exact hI.step_part he
  | car a => exact hI.step_car hs

end Timely

end Vehicle.Recoverybase
