import Vehicle.Trace.Retry
import Vehicle.Recoverybase.Placement

/-!
# recoverybase: what a restore reports

`Car::RestoreState` on the outcomes of `criu_restore`, and the three calls of it behind the kill.
The loop calls `criu_restore` up to eleven times, and success is judged by the counter. So a restore
that succeeds in the eleventh call is reported as failed, and the program exits; every other outcome
is reported as it is (`truthful_iff`). The parts are restored in the order in which the program
points of the manager follow one another (`exists_restores`).
-/

namespace Vehicle.Recoverybase

open Vehicle.Trace

/-! ### The calls -/

/-- `criu_restore() < 0` in call `k`. -/
def restoreFails (o : ℕ → ℤ) (k : ℕ) : Bool := decide (o k < 0)

/-- A call of `RestoreState`: the outcomes of its calls of `criu_restore`, and whether it returns
(otherwise it calls `exit(0)`). -/
structure Attempt where
  part : PartType
  outcomes : List ℤ
  returned : Bool
  deriving DecidableEq, Repr

/-- **`Car::RestoreState`**, when the calls of `criu_restore` from here on answer `o`. -/
def restoreState (part : PartType) (o : ℕ → ℤ) : Attempt :=
  let count := retry (restoreFails o) 10 0
  ⟨part, (List.range (count + 1)).map o, decide (count < 10)⟩

/-- The calls of `RestoreState` in the fault branch, and whether the manager goes on. -/
def restoreAll : List PartType → (ℕ → ℤ) → List Attempt × Bool
  | [], _ => ([], true)
  | p :: ps, o =>
    let a := restoreState p o
    if a.returned then
      let r := restoreAll ps fun k => o (a.outcomes.length + k)
      (a :: r.1, r.2)
    else ([a], false)

/-- The part is restored. -/
def Attempt.Succeeded (a : Attempt) : Prop := ∃ x ∈ a.outcomes, 0 ≤ x

/-- **A call reports the truth**: it returns when the last `criu_restore` has succeeded, it has
stopped at the first one that does, and it does not exit behind one that has. -/
structure Attempt.Truthful (a : Attempt) : Prop where
  returned : a.returned ↔ ∃ x, a.outcomes.getLast? = some x ∧ 0 ≤ x
  first : ∀ x ∈ a.outcomes.dropLast, x < 0
  exits : a.returned = false → ∀ x, a.outcomes.getLast? = some x → x < 0

/-- **The restore sequence reports the truth**, and the manager goes on when all `ps` have been
restored. -/
structure Truthful (ps : List PartType) (r : List Attempt × Bool) : Prop where
  attempts : ∀ a ∈ r.1, a.Truthful
  goesOn : r.2 ↔ ∀ p ∈ ps, ∃ a ∈ r.1, a.part = p ∧ a.Succeeded

/-- The eleventh call is the first to succeed. -/
def Late (o : ℕ → ℤ) : Prop := (∀ k < 10, o k < 0) ∧ 0 ≤ o 10

/-- **None of the next `n` calls of `RestoreState` succeeds in the eleventh call**, where each
begins behind the first success of the one before. -/
def NeverLate : ℕ → (ℕ → ℤ) → Prop
  | 0, _ => True
  | n + 1, o => ¬ Late o ∧
      ∀ g < 10, (∀ k < g, o k < 0) → 0 ≤ o g → NeverLate n fun k => o (g + 1 + k)

/-! ### A call -/

section Call

variable {o : ℕ → ℤ} {p : PartType} {ps : List PartType} {n g : ℕ}

/-- A call that succeeds before the eleventh `criu_restore`. -/
theorem restoreState_of_success (hg : g < 10) (hfails : ∀ k < g, o k < 0) (hok : 0 ≤ o g) :
    restoreState p o = ⟨p, (List.range (g + 1)).map o, true⟩ := by
  have hcount : retry (restoreFails o) 10 0 = g :=
    retry_eq (Nat.zero_le g) (by omega) (fun j _ hj => decide_eq_true (hfails j hj))
      (decide_eq_false (by omega))
  rw [restoreState, hcount, decide_eq_true hg]

/-- A call whose first ten calls of `criu_restore` fail. -/
theorem restoreState_of_fails (hfails : ∀ k < 10, o k < 0) :
    restoreState p o = ⟨p, (List.range 11).map o, false⟩ := by
  have hcount : retry (restoreFails o) 10 0 = 10 :=
    retry_eq_bound.mpr fun k _ hk => decide_eq_true (hfails k (by omega))
  rw [restoreState, hcount]
  rfl

/-- Either the first ten calls fail, or one of them is the first to succeed. -/
theorem fails_or_success (o : ℕ → ℤ) :
    (∀ k < 10, o k < 0) ∨ ∃ g < 10, (∀ k < g, o k < 0) ∧ 0 ≤ o g := by
  by_cases h : retry (restoreFails o) 10 0 < 0 + 10
  · refine Or.inr ⟨_, by omega, fun k hk => ?_, ?_⟩
    · exact of_decide_eq_true (fails_of_lt_retry (Nat.zero_le k) hk)
    · exact not_lt.mp (of_decide_eq_false (not_fails_retry h))
  · refine Or.inl fun k hk => ?_
    have hlt : k < retry (restoreFails o) 10 0 := by omega
    exact of_decide_eq_true (fails_of_lt_retry (Nat.zero_le k) hlt)

theorem getLast?_outcomes (o : ℕ → ℤ) (g : ℕ) :
    ((List.range (g + 1)).map o).getLast? = some (o g) := by
  rw [List.range_succ, List.map_append]
  simp

theorem dropLast_outcomes (o : ℕ → ℤ) (g : ℕ) :
    ((List.range (g + 1)).map o).dropLast = (List.range g).map o := by
  rw [List.range_succ, List.map_append]
  simp

theorem truthful_of_success (hfails : ∀ k < g, o k < 0) (hok : 0 ≤ o g) :
    Attempt.Truthful ⟨p, (List.range (g + 1)).map o, true⟩ := by
  refine ⟨?_, ?_, by simp⟩
  · exact iff_of_true rfl ⟨o g, getLast?_outcomes o g, hok⟩
  · intro x hx
    rw [dropLast_outcomes] at hx
    obtain ⟨k, hk, rfl⟩ := List.mem_map.mp hx
    exact hfails k (List.mem_range.mp hk)

/-- **A call that fails ten times** reports the truth when it fails once more. -/
theorem truthful_iff_of_fails (hfails : ∀ k < 10, o k < 0) :
    Attempt.Truthful ⟨p, (List.range 11).map o, false⟩ ↔ o 10 < 0 := by
  constructor
  · intro h
    exact h.exits rfl (o 10) (getLast?_outcomes o 10)
  · intro hlast
    have hno : ∀ x, ((List.range 11).map o).getLast? = some x → x < 0 := by
      intro x hx
      rw [getLast?_outcomes, Option.some.injEq] at hx
      rwa [← hx]
    refine ⟨?_, ?_, fun _ => hno⟩
    · refine iff_of_false (by simp) ?_
      rintro ⟨x, hx, hpos⟩
      exact absurd (hno x hx) (not_lt.mpr hpos)
    · intro x hx
      rw [dropLast_outcomes] at hx
      obtain ⟨k, hk, rfl⟩ := List.mem_map.mp hx
      exact hfails k (List.mem_range.mp hk)

/-! ### The sequence -/

theorem restoreAll_of_success (hg : g < 10) (hfails : ∀ k < g, o k < 0) (hok : 0 ≤ o g) :
    restoreAll (p :: ps) o =
      (⟨p, (List.range (g + 1)).map o, true⟩ :: (restoreAll ps fun k => o (g + 1 + k)).1,
        (restoreAll ps fun k => o (g + 1 + k)).2) := by
  rw [restoreAll, restoreState_of_success hg hfails hok]
  simp

theorem restoreAll_of_fails (hfails : ∀ k < 10, o k < 0) :
    restoreAll (p :: ps) o = ([⟨p, (List.range 11).map o, false⟩], false) := by
  rw [restoreAll, restoreState_of_fails hfails]
  rfl

/-- The first success is where it is. -/
theorem neverLate_of_success (hg : g < 10) (hfails : ∀ k < g, o k < 0) (hok : 0 ≤ o g) :
    NeverLate (n + 1) o ↔ NeverLate n fun k => o (g + 1 + k) := by
  constructor
  · intro h
    exact h.2 g hg hfails hok
  · intro h
    refine ⟨fun hlate => absurd (hlate.1 g hg) (not_lt.mpr hok), fun g' hg' hfails' hok' => ?_⟩
    rcases Nat.lt_trichotomy g' g with hlt | rfl | hlt
    · exact absurd (hfails g' hlt) (not_lt.mpr hok')
    · exact h
    · exact absurd (hfails' g hlt) (not_lt.mpr hok)

theorem neverLate_of_fails (hfails : ∀ k < 10, o k < 0) : NeverLate (n + 1) o ↔ o 10 < 0 := by
  constructor
  · intro h
    exact not_le.mp fun hok => h.1 ⟨hfails, hok⟩
  · intro h
    refine ⟨fun hlate => absurd hlate.2 (not_le.mpr h), fun g hg _ hok => ?_⟩
    exact absurd (hfails g hg) (not_lt.mpr hok)

/-- A part restored in front of the others. -/
theorem truthful_cons {a : Attempt} {r : List Attempt × Bool} (ha : a.Truthful)
    (hsucc : a.Succeeded) (hnot : a.part ∉ ps) :
    Truthful (a.part :: ps) (a :: r.1, r.2) ↔ Truthful ps r := by
  have hgoes : (∀ p ∈ a.part :: ps, ∃ b ∈ a :: r.1, b.part = p ∧ b.Succeeded) ↔
      ∀ p ∈ ps, ∃ b ∈ r.1, b.part = p ∧ b.Succeeded := by
    constructor
    · intro h p hp
      obtain ⟨b, hb, rfl, hs⟩ := h p (List.mem_cons_of_mem _ hp)
      rcases List.mem_cons.mp hb with rfl | hb
      · exact absurd hp hnot
      · exact ⟨b, hb, rfl, hs⟩
    · intro h p hp
      rcases List.mem_cons.mp hp with rfl | hp
      · exact ⟨a, List.mem_cons_self .., rfl, hsucc⟩
      · obtain ⟨b, hb, hpart⟩ := h p hp
        exact ⟨b, List.mem_cons_of_mem _ hb, hpart⟩
  constructor
  · intro h
    exact ⟨fun b hb => h.attempts b (List.mem_cons_of_mem _ hb), h.goesOn.trans hgoes⟩
  · intro h
    refine ⟨fun b hb => ?_, h.goesOn.trans hgoes.symm⟩
    rcases List.mem_cons.mp hb with rfl | hb
    · exact ha
    · exact h.attempts b hb

/-- A part that cannot be restored ends the program. -/
theorem truthful_of_fails (hfails : ∀ k < 10, o k < 0) :
    Truthful (p :: ps) ([⟨p, (List.range 11).map o, false⟩], false) ↔ o 10 < 0 := by
  rw [← truthful_iff_of_fails (p := p) hfails]
  constructor
  · intro h
    exact h.attempts _ (List.mem_singleton_self _)
  · intro h
    refine ⟨fun a ha => by rwa [List.mem_singleton.mp ha], iff_of_false (by simp) ?_⟩
    intro hall
    obtain ⟨a, ha, -, x, hx, hpos⟩ := hall p (List.mem_cons_self ..)
    rw [List.mem_singleton.mp ha] at hx
    obtain ⟨k, hk, rfl⟩ := List.mem_map.mp hx
    have hlast := (truthful_iff_of_fails hfails).mp h
    have hlt : k < 10 ∨ k = 10 := by
      have := List.mem_range.mp hk
      omega
    rcases hlt with hlt | rfl
    · exact absurd (hfails k hlt) (not_lt.mpr hpos)
    · exact absurd hlast (not_lt.mpr hpos)

/-- **When the restore sequence reports the truth**: when no call of `RestoreState` succeeds in its
eleventh call of `criu_restore`. -/
theorem truthful_restoreAll_iff (hps : ps.Nodup) :
    Truthful ps (restoreAll ps o) ↔ NeverLate ps.length o := by
  induction ps generalizing o with
  | nil =>
    refine iff_of_true ⟨?_, ?_⟩ trivial
    · simp [restoreAll]
    · simp [restoreAll]
  | cons p ps ih =>
    obtain ⟨hp, hps⟩ := List.nodup_cons.mp hps
    rw [List.length_cons]
    rcases fails_or_success o with hfails | ⟨g, hg, hfails, hok⟩
    · rw [restoreAll_of_fails hfails, neverLate_of_fails hfails]
      exact truthful_of_fails hfails
    · rw [restoreAll_of_success hg hfails hok, neverLate_of_success hg hfails hok, ← ih hps]
      refine truthful_cons (truthful_of_success hfails hok) ⟨o g, ?_, hok⟩ hp
      exact List.mem_map.mpr ⟨g, List.mem_range.mpr (by omega), rfl⟩

end Call

/-- **The restore sequence of the manager.** -/
theorem truthful_iff (o : ℕ → ℤ) : Truthful addPart (restoreAll addPart o) ↔ NeverLate 3 o :=
  truthful_restoreAll_iff (by decide)

/-- Ten failures and a success: the program exits behind a restore that has succeeded. -/
theorem late_success_exits : ¬ ∀ o : ℕ → ℤ, Truthful addPart (restoreAll addPart o) := by
  intro h
  have hcamera := (h fun k => if k < 10 then -1 else 0).attempts
    ⟨.camera, (List.range 11).map fun k => if k < 10 then -1 else 0, false⟩ (by decide)
  exact absurd (hcamera.exits rfl 0 (by decide)) (by decide)

/-! ### The statements of the manager -/

/-- When the manager goes on, it has called `RestoreState` for every part. -/
theorem parts_of_goesOn {ps : List PartType} {o : ℕ → ℤ} (h : (restoreAll ps o).2 = true) :
    (restoreAll ps o).1.map Attempt.part = ps := by
  induction ps generalizing o with
  | nil => rfl
  | cons p ps ih =>
    rcases fails_or_success o with hfails | ⟨g, hg, hfails, hok⟩
    · rw [restoreAll_of_fails hfails] at h
      cases h
    · rw [restoreAll_of_success hg hfails hok] at h ⊢
      exact congrArg (p :: ·) (ih h)

/-- **The labels of the restores** are enabled in the order in which `restoreAll` goes through the
parts, and lead back into the main loop; each part is put at a point it has occupied. -/
theorem exists_restores (cfg : Config) {s : Sys} (hpc : s.car.pc = .restore .camera)
    (hdead : ∀ p, s.part p = .killed) (l : PartType → Local) (hl : ∀ p, l p ∈ s.occupied p)
    {o : ℕ → ℤ} (h : (restoreAll addPart o).2 = true) :
    ∃ t, (system cfg).Run s
        ((restoreAll addPart o).1.map fun a => .car (.restore a.part (l a.part))) t ∧
      t.car.pc = .whileTimes ∧ ∀ p, t.part p = .running (l p) := by
  have hlabels : (restoreAll addPart o).1.map (fun a => Label.car (.restore a.part (l a.part))) =
      [.car (.restore .camera (l .camera)), .car (.restore .speed (l .speed)),
        .car (.restore .servoPID (l .servoPID))] := by
    have hparts := congrArg (List.map fun p => Label.car (.restore p (l p))) (parts_of_goesOn h)
    rw [List.map_map] at hparts
    exact hparts
  rw [hlabels]
  let s₁ := (Label.car (.restore .camera (l .camera))).next cfg s
  let s₂ := (Label.car (.restore .speed (l .speed))).next cfg s₁
  let s₃ := (Label.car (.restore .servoPID (l .servoPID))).next cfg s₂
  have h₁ : (system cfg).step s (.car (.restore .camera (l .camera))) = some s₁ :=
    step_iff.mpr ⟨⟨hpc, hdead _, hl _⟩, rfl⟩
  have h₂ : (system cfg).step s₁ (.car (.restore .speed (l .speed))) = some s₂ :=
    step_iff.mpr ⟨⟨rfl, hdead .speed, hl _⟩, rfl⟩
  have h₃ : (system cfg).step s₂ (.car (.restore .servoPID (l .servoPID))) = some s₃ :=
    step_iff.mpr ⟨⟨rfl, hdead .servoPID, hl _⟩, rfl⟩
  refine ⟨s₃, ((Lts.Run.single h₁).trans (.single h₂)).trans (.single h₃), rfl, ?_⟩
  intro p
  cases p <;> rfl

end Vehicle.Recoverybase
