import Vehicle.Trace.Refine
import Vehicle.Recoverybase.Dumps
import Vehicle.Recoverybase.Restore

/-!
# recoverybase: restores need an image

`system` lets `RestoreState` put a part back at any point it has occupied. Here the images
`criu_dump` leaves are part of the state: `SaveState` takes one of a part that runs, a restore goes
on from the image there is, and without an image every call of `criu_restore` fails, so that
`RestoreState` gives up and the manager exits. This system refines `system` (`imaged_refines`).
Since no image of camera is ever taken, the fault is the end of the program: no part is ever
restored (`fault_is_final`).
-/

namespace Vehicle.Recoverybase

open Vehicle.Trace

/-! ### The system with images -/

/-- The whole system, with the images of the parts, and whether the manager has called `exit`. -/
structure ImageSys where
  sys : Sys
  image : PartType → Option Local
  exited : Bool

/-- A step of the program, or one of `criu`. -/
inductive ImageLabel
  | step (a : Label)
  /-- `criu_dump` takes an image, inside `SaveState` -/
  | dump (c : Check) (p : PartType) (l : Local)
  /-- `RestoreState` returns; its calls of `criu_restore` answer `o`, and fail after that -/
  | restored (p : PartType) (l : Local) (o : List ℤ)
  /-- `RestoreState` calls `exit(0)` -/
  | gaveUp (p : PartType) (o : List ℤ)
  deriving DecidableEq

/-- The answers of `criu_restore`. -/
def answers (o : List ℤ) (k : ℕ) : ℤ := o.getD k (-1)

/-- The manager restores a part. -/
def Label.isRestore : Label → Bool
  | .car (.restore _ _) => true
  | _ => false

/-- The manager takes the step. -/
def Label.isCar : Label → Bool
  | .car _ => true
  | .part _ _ => false

/-- When a label can be executed. -/
def ImageLabel.Enabled (s : ImageSys) : ImageLabel → Prop
  | .step a => a.Enabled s.sys ∧ a.isRestore = false ∧ (a.isCar = true → s.exited = false)
  | .dump c p l => s.exited = false ∧ s.sys.car.pc = .dump c p ∧ s.sys.part p = .running l
  | .restored p l o =>
    s.exited = false ∧ s.sys.car.pc = .restore p ∧ s.image p = some l ∧
      (restoreState p (answers o)).returned = true
  | .gaveUp p o =>
    s.exited = false ∧ s.sys.car.pc = .restore p ∧ (s.image p = none → ∀ x ∈ o, x < 0) ∧
      (restoreState p (answers o)).returned = false

instance (s : ImageSys) : ∀ a : ImageLabel, Decidable (a.Enabled s)
  | .step a =>
    inferInstanceAs (Decidable
      (a.Enabled s.sys ∧ a.isRestore = false ∧ (a.isCar = true → s.exited = false)))
  | .dump c p l =>
    inferInstanceAs (Decidable
      (s.exited = false ∧ s.sys.car.pc = .dump c p ∧ s.sys.part p = .running l))
  | .restored p l o =>
    inferInstanceAs (Decidable
      (s.exited = false ∧ s.sys.car.pc = .restore p ∧ s.image p = some l ∧
        (restoreState p (answers o)).returned = true))
  | .gaveUp p o =>
    inferInstanceAs (Decidable
      (s.exited = false ∧ s.sys.car.pc = .restore p ∧ (s.image p = none → ∀ x ∈ o, x < 0) ∧
        (restoreState p (answers o)).returned = false))

/-- The system after a label. -/
def ImageLabel.next (cfg : Config) (s : ImageSys) : ImageLabel → ImageSys
  | .step a => { s with sys := a.next cfg s.sys }
  | .dump _ p l => { s with image := Function.update s.image p (some l) }
  | .restored p l _ => { s with sys := (Label.car (.restore p l)).next cfg s.sys }
  | .gaveUp _ _ => { s with exited := true }

/-- When `main` calls `Car::Run` there is no image. -/
def ImageSys.init (cfg : Config) : ImageSys := ⟨Sys.init cfg, fun _ => none, false⟩

/-- **The recoverybase program, with the images it keeps.** -/
def imaged (cfg : Config) : Lts ImageSys ImageLabel where
  init s := s = ImageSys.init cfg
  step s a := if a.Enabled s then some (a.next cfg s) else none

theorem imaged_step_iff {cfg : Config} {s t : ImageSys} {a : ImageLabel} :
    (imaged cfg).step s a = some t ↔ a.Enabled s ∧ t = a.next cfg s := by
  simp [imaged, eq_comm]

/-! ### Refinement -/

/-- What a label is in `system`. -/
def ImageLabel.toBase : ImageLabel → List Label
  | .step a => [a]
  | .restored p l _ => [.car (.restore p l)]
  | .dump _ _ _ | .gaveUp _ _ => []

/-- The base system stands where the system with images stands, and every image is one of speed, at
a point it has occupied. -/
structure ImageSim (s : ImageSys) (b : Sys) : Prop where
  sys : s.sys = b
  wf : Wf b
  staged : Staged b
  dumping : ∀ c p, b.car.pc = .dump c p → p = .speed
  image : ∀ p l, s.image p = some l → p = .speed ∧ b.part p ≠ .unborn ∧ l ∈ b.occupied p

section Refinement

variable {cfg : Config} {s t : ImageSys} {b : Sys}

theorem ImageSim.init (cfg : Config) : ImageSim (ImageSys.init cfg) (Sys.init cfg) where
  sys := rfl
  wf := Wf.init cfg
  staged := Staged.init cfg
  dumping c p h := by cases h
  image p l h := by cases h

/-- A part that is born stays so, and the points it has occupied are not forgotten. -/
theorem born_step {a : Label} {p : PartType} (hw : Wf b) (he : a.Enabled b)
    (hp : b.part p ≠ .unborn) :
    (a.next cfg b).part p ≠ .unborn ∧ ∀ l ∈ b.occupied p, l ∈ (a.next cfg b).occupied p := by
  cases a with
  | part q a =>
    by_cases hq : p = q
    · subst hq
      obtain ⟨l, k, hl, -⟩ := enabled_part.mp he
      rw [next_part_self hl, occupied_next_self hl]
      refine ⟨?_, fun m hm => List.mem_append_right _ hm⟩
      unfold Act.after
      split <;> exact Proc.noConfusion
    · rw [next_part_other hq, occupied_next_other hq]
      exact ⟨hp, fun m hm => hm⟩
  | car a =>
    constructor
    · rcases hw.spawn he p with h | ⟨-, h⟩ | ⟨-, h⟩ | ⟨l, -, h, -⟩
      · exact ne_of_eq_of_ne h hp
      · exact ne_of_eq_of_ne h Proc.noConfusion
      · exact ne_of_eq_of_ne h Proc.noConfusion
      · exact ne_of_eq_of_ne h Proc.noConfusion
    · intro m hm
      cases a with
      | fork q =>
        have hq : p ≠ q := by
          rintro rfl
          refine hp ((hw.unborn p).mpr ?_)
          have hmem : p ∈ b.car.pc.toFork := he
          cases hpc : b.car.pc <;> simp_all [CarPc.toFork, CarPc.unforked]
        simpa [Label.next, CarAct.record, hq] using hm
      | _ => exact hm

theorem ne_dump_afterPass (d : Check) (j : PartType) {c : Check} {i : PartType} :
    CarPc.afterPass d j ≠ .dump c i := by
  rcases afterPass_cases d j with ⟨e, k, h⟩ | h
  · rw [h]; simp
  · rw [h]; simp

theorem ne_dump_afterTest (cfg : Config) (d : Check) (j : PartType) (b : Bool) {c : Check}
    {i : PartType} : CarPc.afterTest cfg d j b ≠ .dump c i := by
  rcases afterTest_cases cfg d j b with h | h | h
  · rw [h]; simp
  · rw [h]; simp
  · rw [h]; exact ne_dump_afterPass d j

/-- The manager enters `SaveState` by its call only. -/
theorem dump_move {a : CarAct} {c : Check} {p : PartType} (he : a.Enabled b)
    (h : (a.move cfg b.car).pc = .dump c p) : b.car.pc = .save c p := by
  cases a with
  | saveBegin k j =>
    obtain ⟨rfl, rfl⟩ : k = c ∧ j = p := by simpa [CarAct.move] using h
    exact he
  | initUnit j => cases j <;> cases h
  | testUnit j x => exact absurd h (ne_dump_afterTest cfg .unit j x)
  | testNeed j x => exact absurd h (ne_dump_afterTest cfg .compulsive j x)
  | storeUnit j => exact absurd h (ne_dump_afterPass .unit j)
  | clearNeed j => exact absurd h (ne_dump_afterPass .compulsive j)
  | testLoop x | testFault x | testStage _ _ x => cases x <;> cases h
  | kill q =>
    simp only [CarAct.move] at h
    cases hk : b.car.pc.toKill.erase q <;> simp [hk, CarPc.killing] at h
  | clearNew j => cases j <;> cases h
  | restore j l => cases j <;> cases h
  | _ => cases h

/-- A label of `system` keeps the relation. -/
theorem ImageSim.next {a : Label} (h : ImageSim s b) (he : a.Enabled b) :
    ImageSim { s with sys := a.next cfg b } (a.next cfg b) := by
  have hstep : (system cfg).step b a = some (a.next cfg b) := step_iff.mpr ⟨he, rfl⟩
  refine ⟨rfl, h.wf.step hstep, h.staged.step h.wf hstep, ?_, ?_⟩
  · intro c p hpc
    cases a with
    | part q a => exact h.dumping c p hpc
    | car a => exact h.staged.saving c p (dump_move he hpc)
  · intro p l hl
    obtain ⟨hp, hborn, hocc⟩ := h.image p l hl
    obtain ⟨hborn', hocc'⟩ := born_step h.wf he hborn
    exact ⟨hp, hborn', hocc' l hocc⟩

/-- One label of the system with images, in `system`. -/
theorem ImageSim.step {a : ImageLabel} (h : ImageSim s b)
    (hs : (imaged cfg).step s a = some t) :
    ∃ b', (system cfg).Run b a.toBase b' ∧ ImageSim t b' := by
  obtain ⟨he, rfl⟩ := imaged_step_iff.mp hs
  obtain rfl := h.sys
  cases a with
  | step a => exact ⟨_, .single (step_iff.mpr ⟨he.1, rfl⟩), h.next he.1⟩
  | dump c p l =>
    obtain ⟨-, hpc, hl⟩ := he
    refine ⟨s.sys, .nil, rfl, h.wf, h.staged, h.dumping, fun q m hm => ?_⟩
    by_cases hq : q = p
    · subst hq
      obtain rfl : l = m := by simpa [ImageLabel.next] using hm
      exact ⟨h.dumping c q hpc, by rw [hl]; exact Proc.noConfusion, h.wf.current q l hl⟩
    · exact h.image q m (by simpa [ImageLabel.next, hq] using hm)
  | restored p l o =>
    obtain ⟨-, hpc, hl, -⟩ := he
    have hkilled : s.sys.part p = .killed := (h.wf.killed p).mpr (by simp [hpc, CarPc.dead])
    have hen : (Label.car (.restore p l)).Enabled s.sys := ⟨hpc, hkilled, (h.image p l hl).2.2⟩
    exact ⟨_, .single (step_iff.mpr ⟨hen, rfl⟩), h.next hen⟩
  | gaveUp p o => exact ⟨s.sys, .nil, rfl, h.wf, h.staged, h.dumping, h.image⟩

/-- A run of the system with images stands where a run of `system` does. -/
theorem ImageSim.of_run {tr : List ImageLabel} (h : (imaged cfg).Run (ImageSys.init cfg) tr s) :
    (system cfg).Run (Sys.init cfg) (tr.flatMap ImageLabel.toBase) s.sys ∧ ImageSim s s.sys := by
  obtain ⟨b, hr, hsim⟩ := h.refine (M := system cfg) (R := ImageSim) (ImageSim.init cfg)
    fun s b a t hsim hs => hsim.step hs
  obtain rfl := hsim.sys
  exact ⟨hr, hsim⟩

end Refinement

/-- **The system with images refines `system`**: each of its runs is one of `system`, which restores
a part at any point it has occupied; and the only images there are, are those of speed. -/
theorem imaged_refines (cfg : Config) {tr : List ImageLabel} {s : ImageSys}
    (h : (imaged cfg).Run (ImageSys.init cfg) tr s) :
    (system cfg).Run (Sys.init cfg) (tr.flatMap ImageLabel.toBase) s.sys ∧
      ∀ p l, s.image p = some l → p = .speed ∧ l ∈ s.sys.occupied p := by
  obtain ⟨hr, hsim⟩ := ImageSim.of_run h
  refine ⟨hr, fun p l hl => ?_⟩
  obtain ⟨hp, -, hocc⟩ := hsim.image p l hl
  exact ⟨hp, hocc⟩

/-! ### Runs without a restore -/

/-- A run of `system` without a restore is one of the system with images, in which `criu_dump` never
takes one. -/
theorem lift_run {cfg : Config} {tr : List Label} {b : Sys}
    (h : (system cfg).Run (Sys.init cfg) tr b) (hno : ∀ a ∈ tr, a.isRestore = false) :
    (imaged cfg).Run (ImageSys.init cfg) (tr.map .step) ⟨b, fun _ => none, false⟩ := by
  refine h.inv_forall (P := fun a => a.isRestore = false)
    (I := fun tr b => (imaged cfg).Run (ImageSys.init cfg) (tr.map .step) ⟨b, fun _ => none, false⟩)
    .nil ?_ hno
  intro tr b a b' hr ha hs
  obtain ⟨he, rfl⟩ := step_iff.mp hs
  rw [List.map_append]
  exact hr.snoc (imaged_step_iff.mpr ⟨⟨he, ha, fun _ => rfl⟩, rfl⟩)

/-- The eager run with `METHOD` 3 up to the first `SaveState`, which takes an image. -/
theorem imaged_refines_both : ∃ tr s l,
    (imaged ⟨.both, false⟩).Run (ImageSys.init ⟨.both, false⟩) tr s ∧
      s.image .speed = some l ∧ l ∈ s.sys.occupied .speed := by
  obtain ⟨tr, b, hr, hno, c, -, hpc, l, -, hl⟩ := exists_run ⟨.both, false⟩
    (eagerTurns ⟨.both, false⟩ 87 (Sys.init ⟨.both, false⟩))
    (P := fun tr b => (∀ a ∈ tr, a.isRestore = false) ∧ ∃ c ∈ [Check.unit, .compulsive],
      b.car.pc = .dump c .speed ∧ ∃ l ∈ (b.part .speed).points, b.part .speed = .running l)
    (by decide +kernel)
  let s : ImageSys := ⟨b, fun _ => none, false⟩
  have hen : (ImageLabel.dump c .speed l).Enabled s := ⟨rfl, hpc, hl⟩
  have hrun := (lift_run hr hno).snoc (imaged_step_iff.mpr ⟨hen, rfl⟩)
  have himage : (ImageLabel.next ⟨.both, false⟩ s (.dump c .speed l)).image .speed = some l := by
    simp [ImageLabel.next]
  exact ⟨_, _, l, hrun, himage, ((imaged_refines _ hrun).2 .speed l himage).2⟩

/-! ### Behind the fault -/

/-- The program points of the fault branch up to the first restore. -/
def CarPc.final : CarPc → Bool
  | .simulateFalut _ | .clearNew _ | .restore .camera => true
  | _ => false

/-- The steps the manager has left there. -/
def CarPc.left : CarPc → ℕ
  | .simulateFalut todo => 4 + todo.length
  | .clearNew .camera => 4
  | .clearNew .speed => 3
  | .clearNew .servoPID => 2
  | _ => 1

def ImageSys.left (s : ImageSys) : ℕ := if s.exited then 0 else s.sys.car.pc.left

/-- The manager, or `criu` on its behalf, takes the step. -/
def ImageLabel.isManager : ImageLabel → Bool
  | .step a => a.isCar
  | _ => true

section Final

variable {cfg : Config} {s t : ImageSys}

theorem final_killing (todo : List PartType) :
    (CarPc.killing todo).final = true ∧ (CarPc.killing todo).left = 4 + todo.length := by
  cases todo with
  | nil => exact ⟨rfl, rfl⟩
  | cons p todo => exact ⟨rfl, rfl⟩

/-- What a step of the manager does at these points: it brings it nearer to their end. -/
theorem final_car {b : Sys} {a : CarAct} (he : a.Enabled b)
    (hno : (Label.car a).isRestore = false) (hf : b.car.pc.final = true) :
    (a.move cfg b.car).pc.final = true ∧ (a.move cfg b.car).pc.left < b.car.pc.left := by
  cases a with
  | kill p =>
    have hmem : p ∈ b.car.pc.toKill := he
    obtain ⟨hfinal, hleft⟩ := final_killing (b.car.pc.toKill.erase p)
    refine ⟨hfinal, ?_⟩
    rw [show (CarAct.move cfg b.car (.kill p)).pc = .killing (b.car.pc.toKill.erase p) from rfl,
      hleft, List.length_erase_of_mem hmem]
    have hpos := List.length_pos_of_mem hmem
    cases hpc : b.car.pc with
    | simulateFalut todo =>
      rw [hpc] at hpos
      simp only [CarPc.toKill] at hpos ⊢
      simp only [CarPc.left]
      omega
    | _ =>
      rw [hpc] at hmem
      cases hmem
  | clearNew i =>
    have hpc : b.car.pc = .clearNew i := he
    rw [hpc]
    show (CarPc.afterClear i).final = true ∧ (CarPc.afterClear i).left < (CarPc.clearNew i).left
    cases i <;> decide
  | restore p l => cases hno
  | fork p =>
    have hmem : p ∈ b.car.pc.toFork := he
    cases hpc : b.car.pc with
    | forkPart todo =>
      rw [hpc] at hf
      cases hf
    | _ =>
      rw [hpc] at hmem
      cases hmem
  | start tv | createStateDir | initNew i | initNeed i | initUnit i | clock tv | saveBegin c i
  | saveEnd c i | storeUnit i | clearNeed i =>
    rw [show b.car.pc = _ from he] at hf
    cases hf
  | loadTimes x | testLoop x | testUnit i x | testNeed i x | testStage c i x | testFault x =>
    rw [he.1] at hf
    cases hf

/-- **No step leaves these points**, and each of the manager uses up one that is left. -/
theorem final_step {a : ImageLabel} (hsim : ImageSim s s.sys) (hf : s.sys.car.pc.final = true)
    (hs : (imaged cfg).step s a = some t) :
    (∀ p l o, a ≠ .restored p l o) ∧ t.sys.car.pc.final = true ∧
      (if a.isManager then 1 else 0) + t.left ≤ s.left := by
  obtain ⟨he, rfl⟩ := imaged_step_iff.mp hs
  cases a with
  | step a =>
    obtain ⟨hen, hno, hex⟩ := he
    refine ⟨by simp, ?_⟩
    cases a with
    | part p a => exact ⟨hf, (Nat.zero_add _).le⟩
    | car a =>
      obtain ⟨hf', hlt⟩ := final_car hen hno hf
      have hexited : s.exited = false := hex rfl
      have hleft : ImageSys.left (ImageLabel.next cfg s (.step (.car a))) =
          (a.move cfg s.sys.car).pc.left := by
        simp [ImageSys.left, ImageLabel.next, Label.next, hexited]
      refine ⟨hf', ?_⟩
      rw [hleft, show s.left = s.sys.car.pc.left by simp [ImageSys.left, hexited]]
      show 1 + _ ≤ _
      omega
  | dump c p l =>
    rw [he.2.1] at hf
    cases hf
  | restored p l o =>
    obtain ⟨-, hpc, hl, -⟩ := he
    -- the only image there can be is one of speed
    obtain ⟨rfl, -⟩ := hsim.image p l hl
    rw [hpc] at hf
    cases hf
  | gaveUp p o =>
    obtain ⟨hex, hpc, -⟩ := he
    refine ⟨by simp, hf, ?_⟩
    simp [ImageSys.left, ImageLabel.next, ImageLabel.isManager, hex, hpc, CarPc.left]

/-- Until it has called `exit`, the manager has a step there. -/
theorem final_enabled (hw : Wf s.sys) (hf : s.sys.car.pc.final = true) (hex : s.exited = false) :
    ∃ a : ImageLabel, a.isManager = true ∧ a.Enabled s := by
  cases hpc : s.sys.car.pc with
  | simulateFalut todo =>
    cases todo with
    | nil => exact absurd hpc hw.killing
    | cons p todo =>
      have hen : (CarAct.kill p).Enabled s.sys := by simp [CarAct.Enabled, hpc, CarPc.toKill]
      exact ⟨.step (.car (.kill p)), rfl, hen, rfl, fun _ => hex⟩
  | clearNew i => exact ⟨.step (.car (.clearNew i)), rfl, hpc, rfl, fun _ => hex⟩
  | restore i =>
    have hfails : (restoreState i (answers [])).returned = false := by
      rw [restoreState_of_fails fun k _ => by simp [answers]]
    exact ⟨.gaveUp i [], rfl, hex, hpc, by simp, hfails⟩
  | _ =>
    rw [hpc] at hf
    cases hf

/-- Behind the exit nothing is left: the manager is gone, and so are the parts. -/
theorem dead_of_exited (hw : Wf s.sys) (hpc : s.sys.car.pc = .restore .camera)
    (hex : s.exited = true) (a : ImageLabel) : (imaged cfg).step s a = none := by
  refine if_neg fun he => ?_
  have hne : s.exited ≠ false := by simp [hex]
  cases a with
  | step a =>
    cases a with
    | part p a =>
      obtain ⟨l, k, hl, -⟩ := enabled_part.mp he.1
      have hdead : s.sys.part p = .killed := (hw.killed p).mpr (by rw [hpc]; cases p <;> rfl)
      cases hl.symm.trans hdead
    | car a => exact hne (he.2.2 rfl)
  | dump c p l | restored p l o | gaveUp p o => exact hne he.1

/-- What holds behind the fault. -/
structure Lost (s : ImageSys) : Prop where
  sim : ImageSim s s.sys
  final : s.sys.car.pc.final = true
  exited : s.exited = true → s.sys.car.pc = .restore .camera

theorem Lost.step {a : ImageLabel} (h : Lost s) (hs : (imaged cfg).step s a = some t) : Lost t := by
  obtain ⟨b, -, hsim⟩ := h.sim.step hs
  obtain rfl := hsim.sys
  refine ⟨hsim, (final_step h.sim h.final hs).2.1, fun hex => ?_⟩
  obtain ⟨he, rfl⟩ := imaged_step_iff.mp hs
  cases a with
  | step a =>
    cases a with
    | part p a => exact h.exited hex
    | car a => cases (he.2.2 rfl).symm.trans hex
  | dump c p l | restored p l o => cases he.1.symm.trans hex
  | gaveUp p o =>
    have hpc : s.sys.car.pc = .restore p := he.2.1
    have hf := h.final
    rw [hpc] at hf
    cases p with
    | camera => exact hpc
    | speed | servoPID => cases hf

end Final

/-- The fault leads to these points. -/
theorem Lost.fault {cfg : Config} {s t : ImageSys} (hsim : ImageSim s s.sys)
    (hs : (imaged cfg).step s (.step (.car (.testFault true))) = some t) :
    Lost t ∧ t.left = 7 := by
  obtain ⟨b, -, hsim'⟩ := hsim.step hs
  obtain rfl := hsim'.sys
  obtain ⟨⟨-, -, hex⟩, rfl⟩ := imaged_step_iff.mp hs
  have hexited : s.exited = false := hex rfl
  have hpc : ((Label.car (.testFault true)).next cfg s.sys).car.pc = .simulateFalut addPart := rfl
  refine ⟨⟨hsim', ?_, fun h => ?_⟩, ?_⟩
  · exact congrArg CarPc.final hpc
  · cases hexited.symm.trans h
  · simp [ImageSys.left, ImageLabel.next, hexited, hpc, CarPc.left, addPart]

/-- **The fault is the end of the program**: with every `METHOD`, behind the fault no part is ever
restored. The manager never comes back to its loop; it has at most seven steps left, always one
until it calls `exit` in the restore of camera, and then nothing runs any more. -/
theorem fault_is_final (cfg : Config) {pre post : List ImageLabel} {s : ImageSys}
    (h : (imaged cfg).Run (ImageSys.init cfg) (pre ++ .step (.car (.testFault true)) :: post) s) :
    (∀ p l o, .restored p l o ∉ post) ∧ s.sys.car.pc.final = true ∧
      post.countP ImageLabel.isManager ≤ 7 ∧
      (s.exited = false → ∃ a : ImageLabel, a.isManager = true ∧ a.Enabled s) ∧
      (s.exited = true → ∀ a, (imaged cfg).step s a = none) := by
  obtain ⟨u, hu, hrest⟩ := h.append_inv
  obtain ⟨v, hv, hpost⟩ := hrest.cons_inv
  obtain ⟨hlost, hseven⟩ := Lost.fault (ImageSim.of_run hu).2 hv
  have key : Lost s ∧ (∀ p l o, .restored p l o ∉ post) ∧
      post.countP ImageLabel.isManager + s.left ≤ 7 := by
    refine hpost.inv (I := fun post s => Lost s ∧ (∀ p l o, .restored p l o ∉ post) ∧
      post.countP ImageLabel.isManager + s.left ≤ 7) ⟨hlost, by simp, by simp [hseven]⟩ ?_
    rintro post s a t - ⟨hs, hno, hle⟩ hst
    obtain ⟨hne, -, hleft⟩ := final_step hs.sim hs.final hst
    refine ⟨hs.step hst, fun p l o hmem => ?_, ?_⟩
    · rcases List.mem_append.mp hmem with hmem | hmem
      · exact hno p l o hmem
      · exact hne p l o (List.mem_singleton.mp hmem).symm
    · rw [List.countP_append, List.countP_singleton]
      omega
  obtain ⟨hs, hno, hle⟩ := key
  exact ⟨hno, hs.final, by omega, final_enabled hs.sim.wf hs.final,
    fun hex => dead_of_exited hs.sim.wf (hs.exited hex) hex⟩

/-- The eager run with `METHOD` 3 up to the fault. -/
theorem fault_is_final_both : ∃ pre s,
    (imaged ⟨.both, false⟩).Run (ImageSys.init ⟨.both, false⟩)
      (pre ++ [.step (.car (.testFault true))]) s ∧
    s.sys.car.pc.final = true ∧ ∃ a : ImageLabel, a.isManager = true ∧ a.Enabled s := by
  obtain ⟨tr, b, hr, htr, hno⟩ := exists_run ⟨.both, false⟩
    (eagerTurns ⟨.both, false⟩ 220 (Sys.init ⟨.both, false⟩))
    (P := fun tr _ => tr = tr.dropLast ++ [.car (.testFault true)] ∧
      ∀ a ∈ tr, a.isRestore = false) (by decide +kernel)
  have hrun := lift_run hr hno
  rw [htr, List.map_append] at hrun
  obtain ⟨-, hfinal, -, hen, -⟩ := fault_is_final _ hrun
  exact ⟨_, _, hrun, hfinal, hen rfl⟩

end Vehicle.Recoverybase
