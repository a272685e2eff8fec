import Vehicle.Recoverybase.System

/-!
# recoverybase: where the processes stand

What a label does to the fields the proofs speak about, each said once, and the invariant `Wf` of
every reachable state, faults included: each part that runs stands at a control point of its
`runALL`, and the program point of the manager says which parts are unborn and which are killed.
-/

namespace Vehicle.Recoverybase

open Vehicle.Trace Vehicle.Trace.Cyclic

/-! ### What an act does -/

/-- The act is a failed test of one of the two waiting loops. -/
def Act.spins : Act → Bool
  | .testNew _ b => !b
  | .testNeed b => b
  | _ => false

/-- The manager's act stores false in `need_compulsive_checkpoint[p]`. -/
def CarAct.clears (p : PartType) : CarAct → Bool
  | .initNeed i => decide (i = p)
  | .clearNeed i => decide (i = p)
  | _ => false

theorem Act.move_rest (p : PartType) (a : Act) (l : Local) :
    (a.move p l).rest = if a.spins then l.rest else advance (runALL p) l.rest.tail := by
  cases a with
  | testNew d b => cases b <;> rfl
  | testNeed b => cases b <;> rfl
  | _ => rfl

theorem Act.write_need (p : PartType) (a : Act) (s : State) (q : PartType) :
    (a.write p s).needCompulsiveCheckpoint q =
      (s.needCompulsiveCheckpoint q || decide (a = .storeNeed ∧ q = p)) := by
  cases a with
  | storeNeed =>
    by_cases h : q = p
    · subst h; simp [Act.write]
    · simp [Act.write, h]
  | _ => simp [Act.write]

theorem CarAct.write_need (tv : Timeval) (a : CarAct) (s : State) (q : PartType) :
    (a.write tv s).needCompulsiveCheckpoint q = (s.needCompulsiveCheckpoint q && !a.clears q) := by
  cases a with
  | initNeed i | clearNeed i =>
    by_cases h : i = q
    · subst h; simp [CarAct.write, CarAct.clears]
    · simp [CarAct.write, CarAct.clears, h, Function.update_of_ne (Ne.symm h)]
  | _ => simp [CarAct.write, CarAct.clears]

theorem CarAct.write_times (tv : Timeval) (a : CarAct) (s : State) :
    (a.write tv s).times = s.times := by cases a <;> rfl

theorem CarAct.write_stage (tv : Timeval) (a : CarAct) (s : State) :
    (a.write tv s).stage = s.stage := by cases a <;> rfl

theorem Act.write_times (p : PartType) (a : Act) (s : State) (h : ∀ x, a ≠ .storeTimes x) :
    (a.write p s).times = s.times := by
  cases a with
  | storeTimes x => exact absurd rfl (h x)
  | _ => rfl

/-- The process stands at statement `i`. -/
def Proc.at (i : Instr) : Proc → Bool
  | .running l => decide (l.rest.head? = some i)
  | _ => false

/-- The statements a process has still to execute in its current cycle. -/
def Proc.rest : Proc → List Instr
  | .running l => l.rest
  | _ => []

/-! ### What a label does -/

/-- A part's label is enabled when the part runs, stands at the statement, and the value is
right. -/
theorem enabled_part {s : Sys} {p : PartType} {a : Act} :
    (Label.part p a).Enabled s ↔
      ∃ l k, s.part p = .running l ∧ l.rest = a.instr :: k ∧ a.Agrees p s.state l := by
  constructor
  · intro h
    change (s.part p).Enables p s.state a at h
    cases hp : s.part p with
    | running l =>
      rw [hp] at h
      obtain ⟨k, hk⟩ := List.head?_eq_some_iff.mp h.1
      exact ⟨l, k, rfl, hk, h.2⟩
    | _ => rw [hp] at h; exact h.elim
  · rintro ⟨l, k, hp, hk, ha⟩
    change (s.part p).Enables p s.state a
    rw [hp]
    exact ⟨by rw [hk]; rfl, ha⟩

theorem agrees_of_enabled {s : Sys} {p : PartType} {a : Act} {l : Local}
    (hl : s.part p = .running l) (he : (Label.part p a).Enabled s) :
    (∃ k, l.rest = a.instr :: k) ∧ a.Agrees p s.state l := by
  obtain ⟨l', k, hl', hk, hag⟩ := enabled_part.mp he
  obtain rfl := Proc.running.inj (hl.symm.trans hl')
  exact ⟨⟨k, hk⟩, hag⟩

theorem next_part_other {cfg : Config} {s : Sys} {p q : PartType} {a : Act} (h : q ≠ p) :
    ((Label.part p a).next cfg s).part q = s.part q :=
  Function.update_of_ne h _ _

theorem next_part_self {cfg : Config} {s : Sys} {p : PartType} {a : Act} {l : Local}
    (h : s.part p = .running l) : ((Label.part p a).next cfg s).part p = a.after p l := by
  simp [Label.next, h, Proc.after]

theorem next_part_car {cfg : Config} {s : Sys} {p : PartType} {a : Act} :
    ((Label.part p a).next cfg s).car = s.car := rfl

/-- A part raises its own flag only, and lowers none. -/
theorem need_next_part {cfg : Config} {s : Sys} {p : PartType} {a : Act} (q : PartType) :
    ((Label.part p a).next cfg s).state.needCompulsiveCheckpoint q =
      (s.state.needCompulsiveCheckpoint q || decide (a = .storeNeed ∧ q = p)) :=
  Act.write_need p a s.state q

/-- The manager raises no flag. -/
theorem need_next_car {cfg : Config} {s : Sys} {a : CarAct} (q : PartType) :
    ((Label.car a).next cfg s).state.needCompulsiveCheckpoint q =
      (s.state.needCompulsiveCheckpoint q && !a.clears q) :=
  CarAct.write_need s.car.tv a s.state q

/-- A process that runs after its act did not exit, and stands where the act moves it. -/
theorem after_eq_running {p : PartType} {a : Act} {l l' : Local} (h : a.after p l = .running l') :
    a ≠ .testTimes true ∧ l' = a.move p l := by
  unfold Act.after at h
  split at h
  · cases h
  · exact ⟨‹_›, (Proc.running.inj h).symm⟩

theorem after_of_ne {p : PartType} {a : Act} {l : Local} (h : a ≠ .testTimes true) :
    a.after p l = .running (a.move p l) := if_neg h

theorem occupied_next_other {cfg : Config} {s : Sys} {p q : PartType} {a : Act} (h : q ≠ p) :
    ((Label.part p a).next cfg s).occupied q = s.occupied q :=
  Function.update_of_ne h _ _

theorem occupied_next_self {cfg : Config} {s : Sys} {p : PartType} {a : Act} {l : Local}
    (h : s.part p = .running l) :
    ((Label.part p a).next cfg s).occupied p = (a.after p l).points ++ s.occupied p := by
  simp [Label.next, h, Proc.after]

/-- A point a part has occupied after its act is an old one, or the one the act moves it to. -/
theorem mem_occupied_next {cfg : Config} {s : Sys} {p : PartType} {a : Act} {l l' : Local}
    (hl : s.part p = .running l) (h : l' ∈ ((Label.part p a).next cfg s).occupied p) :
    l' ∈ s.occupied p ∨ l' = a.move p l := by
  rw [occupied_next_self hl] at h
  rcases List.mem_append.mp h with hnew | hold
  · right
    cases hr : a.after p l with
    | running m =>
      rw [hr] at hnew
      obtain rfl : l' = m := List.mem_singleton.mp hnew
      exact (after_eq_running hr).2
    | _ =>
      rw [hr] at hnew
      cases hnew
  · exact Or.inl hold

/-- The manager adds the point a part is forked at. -/
theorem mem_occupied_next_car {cfg : Config} {s : Sys} {p : PartType} {a : CarAct} {l : Local}
    (h : l ∈ ((Label.car a).next cfg s).occupied p) : l ∈ s.occupied p ∨ l = .start p := by
  cases a with
  | fork q =>
    by_cases hq : p = q
    · subst hq
      exact Or.inr (by simpa [Label.next, CarAct.record] using h)
    · exact Or.inl (by simpa [Label.next, CarAct.record, hq] using h)
  | _ => exact Or.inl h

/-- An act of the manager that neither forks, kills nor restores leaves the parts alone. -/
theorem spawn_eq {part : PartType → Proc} {a : CarAct} (h₁ : ∀ p, a ≠ .fork p)
    (h₂ : ∀ p, a ≠ .kill p) (h₃ : ∀ p l, a ≠ .restore p l) : a.spawn part = part := by
  cases a with
  | fork p => exact absurd rfl (h₁ p)
  | kill p => exact absurd rfl (h₂ p)
  | restore p l => exact absurd rfl (h₃ p l)
  | _ => rfl

/-! ### Program points and the life of the parts -/

/-- The parts not forked at a program point of the manager. -/
def CarPc.unforked : CarPc → List PartType
  | .start => addPart
  | .forkPart todo => todo
  | _ => []

/-- The parts killed and not restored at a program point of the manager. -/
def CarPc.dead : CarPc → PartType → Bool
  | .simulateFalut todo, p => decide (p ∉ todo)
  | .clearNew _, _ => true
  | .restore i, p => decide (i.toInt ≤ p.toInt)
  | _, _ => false

/-- The invariant of every reachable state. -/
structure Wf (s : Sys) : Prop where
  /-- The points a part has occupied are control points of its cycle. -/
  placed : ∀ p, ∀ l ∈ s.occupied p, Placed (runALL p) l.rest
  /-- The point a part stands at is one of them. -/
  current : ∀ p l, s.part p = .running l → l ∈ s.occupied p
  /-- A part that was forked has occupied some point. -/
  forked : ∀ p, s.part p ≠ .unborn → s.occupied p ≠ []
  /-- The unborn parts are those the manager has not forked. -/
  unborn : ∀ p, s.part p = .unborn ↔ p ∈ s.car.pc.unforked
  /-- The killed parts are those the manager has killed and not restored. -/
  killed : ∀ p, s.part p = .killed ↔ s.car.pc.dead p = true
  /-- No part is forked twice. -/
  nodupFork : s.car.pc.unforked.Nodup
  /-- No part is killed twice. -/
  nodupKill : s.car.pc.toKill.Nodup
  /-- The loop of `SimulateFalut` ends after its last part. -/
  killing : s.car.pc ≠ .simulateFalut []

theorem Wf.init (cfg : Config) : Wf (Sys.init cfg) where
  placed := by simp [Sys.init]
  current := by simp [Sys.init]
  forked := by simp [Sys.init]
  unborn := by intro p; cases p <;> simp [Sys.init, CarPc.unforked, addPart]
  killed := by simp [Sys.init, CarPc.dead]
  nodupFork := by simp [Sys.init, CarPc.unforked, addPart]
  nodupKill := by simp [Sys.init, CarPc.toKill]
  killing := by simp [Sys.init]

/-- The point after an act is a control point again. -/
theorem placed_move {p : PartType} {a : Act} {l : Local} {k : List Instr}
    (h : Placed (runALL p) l.rest) (hk : l.rest = a.instr :: k) :
    Placed (runALL p) (a.move p l).rest := by
  rw [Act.move_rest]
  split
  · exact h
  · rw [hk] at h ⊢
    exact h.advance

theorem Wf.step_part {cfg : Config} {s : Sys} {p : PartType} {a : Act} (hw : Wf s)
    (he : (Label.part p a).Enabled s) : Wf ((Label.part p a).next cfg s) := by
  obtain ⟨l, k, hp, hk, -⟩ := enabled_part.mp he
  have hl : Placed (runALL p) l.rest := hw.placed p l (hw.current p l hp)
  have hne : a.after p l ≠ .unborn ∧ a.after p l ≠ .killed := by
    unfold Act.after; split <;> simp
  refine ⟨?_, ?_, ?_, ?_, ?_, hw.nodupFork, hw.nodupKill, hw.killing⟩
  · intro q l' hl'
    by_cases hq : q = p
    · subst hq
      rcases mem_occupied_next hp hl' with hold | rfl
      · exact hw.placed q l' hold
      · exact placed_move hl hk
    · rw [occupied_next_other hq] at hl'
      exact hw.placed q l' hl'
  · intro q l' hl'
    by_cases hq : q = p
    · subst hq
      rw [next_part_self hp] at hl'
      rw [occupied_next_self hp, hl']
      exact List.mem_cons_self
    · rw [next_part_other hq] at hl'
      rw [occupied_next_other hq]
      exact hw.current q l' hl'
  · intro q hq'
    by_cases hq : q = p
    · subst hq
      rw [occupied_next_self hp]
      exact List.append_ne_nil_of_right_ne_nil _ (hw.forked q (by simp [hp]))
    · rw [next_part_other hq] at hq'
      rw [occupied_next_other hq]
      exact hw.forked q hq'
  · intro q
    by_cases hq : q = p
    · subst hq
      have h := hw.unborn q
      rw [hp] at h
      rw [next_part_self hp, next_part_car, ← h]
      simp [hne.1]
    · rw [next_part_other hq]
      exact hw.unborn q
  · intro q
    by_cases hq : q = p
    · subst hq
      have h := hw.killed q
      rw [hp] at h
      rw [next_part_self hp, next_part_car, ← h]
      simp [hne.2]
    · rw [next_part_other hq]
      exact hw.killed q

/-! ### Steps of the manager -/

/-- The program points at which every part has been forked and none is killed. -/
def CarPc.plain : CarPc → Bool
  | .start | .forkPart _ | .simulateFalut _ | .clearNew _ | .restore _ => false
  | _ => true

theorem afterPass_cases (c : Check) (i : PartType) :
    (∃ d j, CarPc.afterPass c i = .test d j) ∨ CarPc.afterPass c i = .faultTest := by
  unfold CarPc.afterPass
  split
  · exact Or.inl ⟨_, _, rfl⟩
  · exact Or.inl ⟨_, _, rfl⟩
  · exact Or.inr rfl

theorem afterTest_cases (cfg : Config) (c : Check) (i : PartType) (b : Bool) :
    CarPc.afterTest cfg c i b = .stage c i ∨ CarPc.afterTest cfg c i b = .store c i ∨
      CarPc.afterTest cfg c i b = .afterPass c i := by
  unfold CarPc.afterTest
  split_ifs
  · exact Or.inl rfl
  · exact Or.inr (Or.inl rfl)
  · exact Or.inr (Or.inr rfl)

theorem plain_afterPass (c : Check) (i : PartType) : (CarPc.afterPass c i).plain = true := by
  rcases afterPass_cases c i with ⟨d, j, h⟩ | h
  · rw [h]; rfl
  · rw [h]; rfl

theorem plain_afterTest (cfg : Config) (c : Check) (i : PartType) (b : Bool) :
    (CarPc.afterTest cfg c i b).plain = true := by
  rcases afterTest_cases cfg c i b with h | h | h
  · rw [h]; rfl
  · rw [h]; rfl
  · rw [h]; exact plain_afterPass c i

theorem plain_afterInit (i : PartType) : (CarPc.afterInit i).plain = true := by cases i <;> rfl

/-- The manager stays among the plain points unless it enters the fault branch. -/
theorem plain_move {cfg : Config} {s : Sys} {a : CarAct} (he : a.Enabled s)
    (hpc : s.car.pc.plain = true) (ha : a ≠ .testFault true) :
    (a.move cfg s.car).pc.plain = true := by
  obtain ⟨σ, ⟨pc, tv, f⟩, part, occ⟩ := s
  cases a with
  | fork p | kill p =>
    cases pc <;> simp_all [CarAct.Enabled, CarPc.toFork, CarPc.toKill, CarPc.plain]
  | start _ | createStateDir | clearNew _ => obtain rfl := he; cases hpc
  | restore p l => obtain ⟨rfl, -⟩ := he; cases hpc
  | initUnit i => exact plain_afterInit i
  | testUnit i b => exact plain_afterTest cfg .unit i b
  | testNeed i b => exact plain_afterTest cfg .compulsive i b
  | storeUnit i => exact plain_afterPass .unit i
  | clearNeed i => exact plain_afterPass .compulsive i
  | testLoop b | testStage _ _ b => cases b <;> rfl
  | testFault b =>
    cases b with
    | false => rfl
    | true => exact absurd rfl ha
  | _ => rfl

/-- The facts about a program point that `Wf` rests on are the same at another one. -/
structure SameLife (c c' : CarPc) : Prop where
  unforked : c'.unforked = c.unforked
  dead : ∀ p, c'.dead p = c.dead p
  nodup : c'.toKill.Nodup
  killing : c' ≠ .simulateFalut []

theorem SameLife.of_plain {c c' : CarPc} (h : c.plain = true) (h' : c'.plain = true) :
    SameLife c c' := by
  have key : ∀ d : CarPc, d.plain = true → d.unforked = [] ∧ (∀ p, d.dead p = false) ∧
      d.toKill = [] ∧ d ≠ .simulateFalut [] := by
    intro d hd
    cases d <;> simp_all [CarPc.plain, CarPc.unforked, CarPc.dead, CarPc.toKill]
  obtain ⟨hu, hd, -, -⟩ := key c h
  obtain ⟨hu', hd', hk', hn'⟩ := key c' h'
  exact ⟨hu'.trans hu.symm, fun p => (hd' p).trans (hd p).symm, hk' ▸ List.nodup_nil, hn'⟩

/-- An act that neither forks, kills nor restores moves the manager between points with the same
unborn and killed parts. -/
theorem sameLife_move {cfg : Config} {s : Sys} {a : CarAct} (he : a.Enabled s)
    (h₁ : ∀ p, a ≠ .fork p) (h₂ : ∀ p, a ≠ .kill p) (h₃ : ∀ p l, a ≠ .restore p l) :
    SameLife s.car.pc (a.move cfg s.car).pc := by
  by_cases hpl : s.car.pc.plain = true ∧ a ≠ .testFault true
  · exact SameLife.of_plain hpl.1 (plain_move he hpl.1 hpl.2)
  obtain ⟨σ, ⟨pc, tv, f⟩, part, occ⟩ := s
  cases a with
  | fork p => exact absurd rfl (h₁ p)
  | kill p => exact absurd rfl (h₂ p)
  | restore p l => exact absurd rfl (h₃ p l)
  | start _ | createStateDir =>
    obtain rfl := he
    exact ⟨rfl, fun _ => rfl, List.nodup_nil, by simp [CarAct.move]⟩
  | clearNew i =>
    obtain rfl := he
    refine ⟨?_, fun p => ?_, ?_, ?_⟩
    · cases i <;> rfl
    · cases i <;> cases p <;> rfl
    · cases i <;> exact List.nodup_nil
    · cases i <;> simp [CarAct.move, CarPc.afterClear, PartType.succ]
  | testFault b =>
    obtain ⟨rfl, -⟩ := he
    obtain rfl : b = true := by
      by_contra hb
      exact hpl ⟨rfl, by simpa using hb⟩
    exact ⟨rfl, fun p => by cases p <;> rfl, (by decide : addPart.Nodup),
      by simp [CarAct.move, addPart]⟩
  | initNew i | initNeed i | initUnit i | clock _ | saveBegin _ i | saveEnd _ i | storeUnit i
  | clearNeed i =>
    obtain rfl := he
    exact absurd ⟨rfl, by simp⟩ hpl
  | loadTimes _ | testLoop _ | testUnit _ _ | testNeed _ _ | testStage _ _ _ =>
    obtain ⟨rfl, -⟩ := he
    exact absurd ⟨rfl, by simp⟩ hpl

theorem Wf.fork {s : Sys} {p : PartType} {todo : List PartType} {cfg : Config} (hw : Wf s)
    (hpc : s.car.pc = .forkPart todo) (hp : p ∈ todo) :
    Wf ((Label.car (.fork p)).next cfg s) := by
  have hnd : todo.Nodup := by simpa [hpc, CarPc.unforked] using hw.nodupFork
  refine ⟨?_, ?_, ?_, ?_, ?_, ?_, ?_, ?_⟩
  · intro q l hl
    rcases mem_occupied_next_car hl with hold | rfl
    · exact hw.placed q l hold
    · exact Placed.start (by cases q <;> decide)
  · intro q l hl
    by_cases hq : q = p
    · subst hq
      obtain rfl : Local.start q = l := by simpa [Label.next, CarAct.spawn] using hl
      simp [Label.next, CarAct.record]
    · have := hw.current q l (by simpa [Label.next, CarAct.spawn, hq] using hl)
      simpa [Label.next, CarAct.record, hq] using this
  · intro q hq'
    by_cases hq : q = p
    · subst hq; simp [Label.next, CarAct.record]
    · have := hw.forked q (by simpa [Label.next, CarAct.spawn, hq] using hq')
      simpa [Label.next, CarAct.record, hq] using this
  · intro q
    have h := hw.unborn q
    rw [hpc] at h
    by_cases hq : q = p
    · subst hq
      simp [Label.next, CarAct.spawn, CarAct.move, hpc, CarPc.toFork, CarPc.unforked,
        hnd.mem_erase_iff]
    · simpa [Label.next, CarAct.spawn, CarAct.move, hpc, CarPc.toFork, CarPc.unforked,
        hnd.mem_erase_iff, hq] using h
  · intro q
    have h := hw.killed q
    rw [hpc] at h
    by_cases hq : q = p
    · subst hq; simp [Label.next, CarAct.spawn, CarAct.move, CarPc.dead]
    · simpa [Label.next, CarAct.spawn, CarAct.move, CarPc.dead, hq] using h
  · simpa [Label.next, CarAct.move, hpc, CarPc.toFork, CarPc.unforked] using hnd.erase p
  · simp [Label.next, CarAct.move, CarPc.toKill]
  · simp [Label.next, CarAct.move]

theorem unforked_killing (todo : List PartType) : (CarPc.killing todo).unforked = [] := by
  cases todo <;> rfl

theorem dead_killing (todo : List PartType) (p : PartType) :
    (CarPc.killing todo).dead p = decide (p ∉ todo) := by
  cases todo <;> simp [CarPc.killing, CarPc.dead]

theorem toKill_killing (todo : List PartType) : (CarPc.killing todo).toKill = todo := by
  cases todo <;> rfl

theorem killing_ne (todo : List PartType) : CarPc.killing todo ≠ .simulateFalut [] := by
  cases todo <;> simp [CarPc.killing]

theorem update_ne_unborn {part : PartType → Proc} {p : PartType} {x : Proc} (hx : x ≠ .unborn)
    (hun : ∀ q, part q ≠ .unborn) (q : PartType) : Function.update part p x q ≠ .unborn := by
  by_cases hq : q = p
  · rw [hq, Function.update_self]
    exact hx
  · rw [Function.update_of_ne hq]
    exact hun q

theorem Wf.kill {s : Sys} {p : PartType} {todo : List PartType} {cfg : Config} (hw : Wf s)
    (hpc : s.car.pc = .simulateFalut todo) (hp : p ∈ todo) :
    Wf ((Label.car (.kill p)).next cfg s) := by
  have hnd : todo.Nodup := by simpa [hpc, CarPc.toKill] using hw.nodupKill
  have hpc' : ((Label.car (.kill p)).next cfg s).car.pc = .killing (todo.erase p) := by
    simp [Label.next, CarAct.move, hpc, CarPc.toKill]
  have hun : ∀ q, s.part q ≠ .unborn := fun q => by
    rw [Ne, hw.unborn q, hpc]
    simp [CarPc.unforked]
  refine ⟨hw.placed, ?_, ?_, ?_, ?_, ?_, ?_, ?_⟩
  · intro q l hl
    by_cases hq : q = p
    · subst hq; simp [Label.next, CarAct.spawn] at hl
    · exact hw.current q l (by simpa [Label.next, CarAct.spawn, hq] using hl)
  · exact fun q _ => hw.forked q (hun q)
  · intro q
    rw [hpc', unforked_killing]
    exact iff_of_false (update_ne_unborn Proc.noConfusion hun q) List.not_mem_nil
  · intro q
    have h := hw.killed q
    rw [hpc] at h
    rw [hpc', dead_killing]
    by_cases hq : q = p
    · subst hq; simp [Label.next, CarAct.spawn, hnd.mem_erase_iff]
    · simpa [Label.next, CarAct.spawn, CarPc.dead, hnd.mem_erase_iff, hq] using h
  · rw [hpc', unforked_killing]; exact List.nodup_nil
  · rw [hpc', toKill_killing]; exact hnd.erase p
  · rw [hpc']; exact killing_ne _

theorem unforked_afterRestore (i : PartType) : (CarPc.afterRestore i).unforked = [] := by
  cases i <;> rfl

theorem dead_afterRestore (i p : PartType) :
    (CarPc.afterRestore i).dead p = (CarPc.dead (.restore i) p && decide (p ≠ i)) := by
  cases i <;> cases p <;> rfl

theorem Wf.restore {s : Sys} {p : PartType} {l : Local} {cfg : Config} (hw : Wf s)
    (hpc : s.car.pc = .restore p) (hl : l ∈ s.occupied p) :
    Wf ((Label.car (.restore p l)).next cfg s) := by
  have hpc' : ((Label.car (.restore p l)).next cfg s).car.pc = .afterRestore p := rfl
  have hun : ∀ q, s.part q ≠ .unborn := fun q => by
    rw [Ne, hw.unborn q, hpc]
    simp [CarPc.unforked]
  refine ⟨hw.placed, ?_, ?_, ?_, ?_, ?_, ?_, ?_⟩
  · intro q m hm
    by_cases hq : q = p
    · subst hq
      obtain rfl : l = m := by simpa [Label.next, CarAct.spawn] using hm
      exact hl
    · exact hw.current q m (by simpa [Label.next, CarAct.spawn, hq] using hm)
  · exact fun q _ => hw.forked q (hun q)
  · intro q
    rw [hpc', unforked_afterRestore]
    exact iff_of_false (update_ne_unborn Proc.noConfusion hun q) List.not_mem_nil
  · intro q
    have h := hw.killed q
    rw [hpc] at h
    rw [hpc', dead_afterRestore]
    by_cases hq : q = p
    · subst hq; simp [Label.next, CarAct.spawn]
    · simpa [Label.next, CarAct.spawn, hq] using h
  · rw [hpc', unforked_afterRestore]; exact List.nodup_nil
  · rw [hpc']; cases p <;> exact List.nodup_nil
  · rw [hpc']; cases p <;> simp [CarPc.afterRestore, PartType.succ]

theorem Wf.step {cfg : Config} {s t : Sys} {a : Label} (hw : Wf s)
    (h : (system cfg).step s a = some t) : Wf t := by
  obtain ⟨he, rfl⟩ := step_iff.mp h
  cases a with
  | part p a => exact hw.step_part he
  | car a =>
    change a.Enabled s at he
    by_cases hlife : (∀ p, a ≠ .fork p) ∧ (∀ p, a ≠ .kill p) ∧ ∀ p l, a ≠ .restore p l
    · obtain ⟨h₁, h₂, h₃⟩ := hlife
      have hsame : SameLife s.car.pc (a.move cfg s.car).pc := sameLife_move he h₁ h₂ h₃
      have hspawn : a.spawn s.part = s.part := spawn_eq h₁ h₂ h₃
      have hrecord : a.record s.occupied = s.occupied := by
        cases a with
        | fork p => exact absurd rfl (h₁ p)
        | _ => rfl
      refine ⟨?_, ?_, ?_, ?_, ?_, ?_, hsame.nodup, hsame.killing⟩
      · simpa only [Label.next, hrecord] using hw.placed
      · simpa only [Label.next, hspawn, hrecord] using hw.current
      · simpa only [Label.next, hspawn, hrecord] using hw.forked
      · simpa only [Label.next, hspawn, hsame.unforked] using hw.unborn
      · simpa only [Label.next, hspawn, hsame.dead] using hw.killed
      · simpa only [Label.next, hsame.unforked] using hw.nodupFork
    · cases a with
      | fork p =>
        cases hpc : s.car.pc with
        | forkPart todo => exact hw.fork hpc (by simpa [CarAct.Enabled, hpc, CarPc.toFork] using he)
        | _ => simp [CarAct.Enabled, hpc, CarPc.toFork] at he
      | kill p =>
        cases hpc : s.car.pc with
        | simulateFalut todo =>
          exact hw.kill hpc (by simpa [CarAct.Enabled, hpc, CarPc.toKill] using he)
        | _ => simp [CarAct.Enabled, hpc, CarPc.toKill] at he
      | restore p l => exact hw.restore he.1 he.2.2
      | _ => simp at hlife

/-- **Every reachable state is well formed**, with or without a fault. -/
theorem Wf.of_reachable {cfg : Config} {s : Sys} (h : (system cfg).Reachable s) : Wf s :=
  h.inv (fun _ hs => hs ▸ Wf.init cfg) fun _ _ _ hw hs => hw.step hs

/-- Where a part of a well-formed state stands. -/
theorem Wf.placedAt {s : Sys} (hw : Wf s) {p : PartType} {l : Local}
    (hl : s.part p = .running l) : Placed (runALL p) l.rest :=
  hw.placed p l (hw.current p l hl)

/-- A part about to execute an act stands at its statement, in its cycle. -/
theorem Wf.stands {s : Sys} (hw : Wf s) {p : PartType} {a : Act}
    (he : (Label.part p a).Enabled s) :
    ∃ l k, s.part p = .running l ∧ l.rest = a.instr :: k ∧ a.Agrees p s.state l ∧
      Placed (runALL p) (a.instr :: k) := by
  obtain ⟨l, k, hl, hk, hag⟩ := enabled_part.mp he
  have hpl := hw.placedAt hl
  rw [hk] at hpl
  exact ⟨l, k, hl, hk, hag, hpl⟩

/-- The test of `times` stands last. -/
theorem exitTest_last {p : PartType} {k : List Instr} (h : Placed (runALL p) (.exitTest :: k)) :
    k = [] := by
  have key : ∀ r ∈ (runALL p).tails, r.head? = some .exitTest → r.tail = [] := by
    cases p <;> decide
  simpa using h.of_tails key

/-- **What an act of the manager does to a part**: nothing, or it forks, kills or restores it. -/
theorem Wf.spawn {s : Sys} {a : CarAct} (hw : Wf s) (he : a.Enabled s) (p : PartType) :
    a.spawn s.part p = s.part p ∨
      (s.part p = .unborn ∧ a.spawn s.part p = .running (.start p)) ∨
      (a = .kill p ∧ a.spawn s.part p = .killed) ∨
      ∃ l, a = .restore p l ∧ a.spawn s.part p = .running l ∧ s.part p = .killed ∧
        l ∈ s.occupied p := by
  cases a with
  | fork q =>
    by_cases hq : p = q
    · subst hq
      refine Or.inr (Or.inl ⟨(hw.unborn p).mpr ?_, Function.update_self ..⟩)
      cases hpc : s.car.pc <;> simp_all [CarAct.Enabled, CarPc.toFork, CarPc.unforked]
    · exact Or.inl (Function.update_of_ne hq ..)
  | kill q =>
    by_cases hq : p = q
    · subst hq
      exact Or.inr (Or.inr (Or.inl ⟨rfl, Function.update_self ..⟩))
    · exact Or.inl (Function.update_of_ne hq ..)
  | restore q l =>
    by_cases hq : p = q
    · subst hq
      exact Or.inr (Or.inr (Or.inr ⟨l, rfl, Function.update_self .., he.2.1, he.2.2⟩))
    · exact Or.inl (Function.update_of_ne hq ..)
  | _ => exact Or.inl rfl

end Vehicle.Recoverybase
