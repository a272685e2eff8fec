import Vehicle.Recoverybase.Handshake

/-!
# recoverybase: the parts keep step with the manager

Between two handshakes a part calls `Run` once, and servoPID adds 1 to `times` once. So what a part
may still do before it needs an acknowledgement is one call or none (`room`), and an acknowledgement
gives it back at most one. Counting calls against acknowledgements gives the first part of
`lock_step`.

For `times` the same argument runs on the `horizon`, the value `times` can grow to without another
acknowledgement of servoPID: at a test of the main loop it is at most `times + 1`, and a turn of the
loop acknowledges servoPID at most once (`CarPc.acks`).
-/

namespace Vehicle.Recoverybase

open Vehicle.Trace Vehicle.Trace.Cyclic

/-! ### Room before the next acknowledgement -/

/-- A statement that waits for another process. -/
def Instr.waits : Instr → Bool
  | .whileOld _ | .whileNeed => true
  | _ => false

/-- How often `j` is executed before the next `SetCompulsiveCheckpoint`, for a `j` that stands once
before each of them. -/
def ahead (j : Instr) : List Instr → ℕ
  | [] => 1
  | i :: k => if i = j then 1 else if i = .storeNeed ∨ i = .whileNeed then 0 else ahead j k

/-- How often `j` can be executed from a control point without an acknowledgement; `b` is the flag
of the part. -/
def room (j : Instr) (b : Bool) (rest : List Instr) : ℕ :=
  if rest.head? = some .whileNeed then if b then 0 else 1 else ahead j rest

/-- The same for a process: an unborn part can execute `j` once, one that does not run never. -/
def Proc.room (j : Instr) (b : Bool) : Proc → ℕ
  | .unborn => 1
  | .running l => Recoverybase.room j b l.rest
  | .killed | .exited => 0

/-- `j` stands once before every handshake of part `p`: executing it uses up the room, and only
leaving the wait gives room back. -/
def Paced (p : PartType) (j : Instr) : Prop :=
  j.waits = false ∧ ∀ b : Bool, ∀ r ∈ (runALL p).tails,
    (r.head? = some .whileNeed → b = false) →
      (if r.head? = some j then 1 else 0) +
        room j (b || decide (r.head? = some .storeNeed)) (advance (runALL p) r.tail) ≤ room j b r

instance (p : PartType) (j : Instr) : Decidable (Paced p j) := by
  unfold Paced; infer_instance

theorem paced_run (p : PartType) : Paced p .run := by cases p <;> decide

theorem paced_storeTimes : Paced .servoPID .storeTimes := by decide

theorem ahead_le_one (j : Instr) (r : List Instr) : ahead j r ≤ 1 := by
  induction r with
  | nil => exact le_rfl
  | cons i k ih =>
    unfold ahead
    split_ifs
    · exact le_rfl
    · omega
    · exact ih

theorem room_le_one (j : Instr) (b : Bool) (r : List Instr) : room j b r ≤ 1 := by
  unfold room
  split_ifs
  · omega
  · exact le_rfl
  · exact ahead_le_one j r

theorem Proc.room_le_one (j : Instr) (b : Bool) (q : Proc) : q.room j b ≤ 1 := by
  cases q with
  | running l => exact Recoverybase.room_le_one j b l.rest
  | unborn => exact le_rfl
  | killed | exited => exact Nat.zero_le 1

/-- Lowering the flag gives back at most one execution. -/
theorem Proc.room_clear (j : Instr) (b c : Bool) (q : Proc) :
    q.room j (b && !c) ≤ q.room j b + if c then 1 else 0 := by
  cases c with
  | false => simp
  | true =>
    have := q.room_le_one j (b && !true)
    simp only [if_true]
    omega

section Room

variable {cfg : Config} {s : Sys} {j : Instr}

theorem Act.waits_of_spins {a : Act} (h : a.spins = true) : a.instr.waits = true := by
  cases a <;> first | rfl | cases h

/-- A part comes to a statement that does not wait from the statement before it. -/
theorem head_of_move {p : PartType} {a : Act} {l : Local} {k : List Instr}
    (hk : l.rest = a.instr :: k) (hj : j.waits = false) (h : (a.move p l).rest.head? = some j) :
    a.spins = false ∧ (advance (runALL p) k).head? = some j := by
  rw [Act.move_rest, hk] at h
  split at h
  · rename_i hs
    obtain rfl : a.instr = j := by simpa using h
    rw [Act.waits_of_spins hs] at hj
    cases hj
  · rename_i hs
    exact ⟨by simpa using hs, h⟩

/-- **A step of a part** uses up the room of `j` by executing it, and gives none back. -/
theorem room_part (cfg : Config) {p q : PartType} {a : Act} (hp : Paced p j) (hw : Wf s)
    (he : (Label.part q a).Enabled s) :
    (if q = p ∧ a.instr = j then 1 else 0) +
      (((Label.part q a).next cfg s).part p).room j
        (((Label.part q a).next cfg s).state.needCompulsiveCheckpoint p) ≤
      (s.part p).room j (s.state.needCompulsiveCheckpoint p) := by
  by_cases hq : q = p
  · subst hq
    obtain ⟨l, k, hl, hk, ha, hpl⟩ := hw.stands he
    rw [need_next_part, next_part_self hl, hl]
    by_cases hs : a.spins = true
    · -- a part that spins stays where it is, and `j` is no loop that waits
      have hj : a.instr ≠ j := by
        intro h
        have := hp.1
        rw [← h, Act.waits_of_spins hs] at this
        cases this
      have hx : a ≠ .testTimes true := by rintro rfl; cases hs
      have hn : a ≠ .storeNeed := by rintro rfl; cases hs
      simp [hj, hn, after_of_ne hx, Proc.room, Act.move_rest, hs]
    · have hb : a.instr = .whileNeed → s.state.needCompulsiveCheckpoint q = false := by
        intro h
        cases a with
        | testNeed b =>
          obtain rfl : b = s.state.needCompulsiveCheckpoint q := ha
          simpa [Act.spins] using hs
        | _ => cases h
      have hset : a.instr = .storeNeed ↔ a = .storeNeed := by cases a <;> simp [Act.instr]
      have key := hp.2 (s.state.needCompulsiveCheckpoint q) (a.instr :: k)
        ((List.mem_tails _ _).mpr hpl.2) (by simpa using hb)
      simp only [List.head?_cons, Option.some.injEq, List.tail_cons, hset] at key
      have hroom : ∀ b, (a.after q l).room j b ≤ room j b (advance (runALL q) k) := by
        intro b
        unfold Act.after
        split
        · exact Nat.zero_le _
        · simp [Proc.room, Act.move_rest, hs, hk]
      have hroom' : (Proc.running l).room j (s.state.needCompulsiveCheckpoint q) =
          room j (s.state.needCompulsiveCheckpoint q) (a.instr :: k) := by
        rw [← hk]; rfl
      have := hroom (s.state.needCompulsiveCheckpoint q || decide (a = .storeNeed))
      rw [hroom']
      simp only [true_and, and_true]
      omega
  · rw [need_next_part, next_part_other (Ne.symm hq)]
    simp [hq, Ne.symm hq]

/-- **A step of the manager** gives room for one execution by lowering the flag, and none
otherwise. -/
theorem room_car (cfg : Config) {p : PartType} {a : CarAct} (hw : Wf s) (he : a.Enabled s)
    (ha : ∀ l, a ≠ .restore p l) :
    (((Label.car a).next cfg s).part p).room j
        (((Label.car a).next cfg s).state.needCompulsiveCheckpoint p) ≤
      (s.part p).room j (s.state.needCompulsiveCheckpoint p) + if a.clears p then 1 else 0 := by
  have hle : (a.spawn s.part p).room j (s.state.needCompulsiveCheckpoint p && !a.clears p) ≤
      (s.part p).room j (s.state.needCompulsiveCheckpoint p && !a.clears p) := by
    rcases hw.spawn he p with h | ⟨h, -⟩ | ⟨-, h⟩ | ⟨l, h, -⟩
    · rw [h]
    · rw [h]
      exact Proc.room_le_one _ _ _
    · rw [h]
      exact Nat.zero_le _
    · exact absurd h (ha l)
  rw [need_next_car]
  exact hle.trans (Proc.room_clear j _ _ _)

end Room

/-! ### The counter -/

/-- servoPID, about to store `times`, has loaded the value it still has. -/
def Fresh (s : Sys) : Prop :=
  ∀ l, s.part .servoPID = .running l → l.rest.head? = some .storeTimes → l.reg = s.state.times

/-- The store of `times += 1` is reached from its load only. -/
theorem next_storeTimes_iff {p : PartType} {i : Instr} {k : List Instr}
    (h : Placed (runALL p) (i :: k)) :
    (advance (runALL p) k).head? = some .storeTimes ↔ i = .loadTimes := by
  refine h.head_advance_iff ?_
  cases p <;> decide

/-- Only servoPID stores `times`. -/
theorem storeTimes_servoPID {p : PartType} {k : List Instr}
    (h : Placed (runALL p) (.storeTimes :: k)) : p = .servoPID := by
  have hmem : Instr.storeTimes ∈ runALL p := h.2.subset (List.mem_cons_self ..)
  revert hmem
  cases p <;> decide

section Counter

variable {cfg : Config} {s : Sys}

/-- A step of a part leaves `times` alone or is servoPID's store of it. -/
theorem times_part (cfg : Config) {q : PartType} {a : Act} (hw : Wf s)
    (he : (Label.part q a).Enabled s) :
    ((Label.part q a).next cfg s).state.times = s.state.times ∨
      q = .servoPID ∧ ∃ x, a = .storeTimes x := by
  by_cases ha : ∃ x, a = .storeTimes x
  · obtain ⟨l, k, -, -, -, hpl⟩ := hw.stands he
    obtain ⟨x, rfl⟩ := ha
    exact Or.inr ⟨storeTimes_servoPID hpl, x, rfl⟩
  · exact Or.inl (Act.write_times q a s.state fun x hx => ha ⟨x, hx⟩)

theorem times_car {a : CarAct} : ((Label.car a).next cfg s).state.times = s.state.times :=
  CarAct.write_times s.car.tv a s.state

theorem Fresh.init (cfg : Config) : Fresh (Sys.init cfg) := by
  intro l hl
  cases hl

/-- Any step of servoPID leaves it with the present value: it reaches the store from the load. -/
theorem fresh_of_servoPID {a : Act} (hw : Wf s) (he : (Label.part .servoPID a).Enabled s) :
    Fresh ((Label.part .servoPID a).next cfg s) := by
  intro l' hl' hst
  obtain ⟨l, k, hl, hk, hag, hpl⟩ := hw.stands he
  rw [next_part_self hl] at hl'
  obtain ⟨-, rfl⟩ := after_eq_running hl'
  obtain ⟨-, hhead⟩ := head_of_move hk rfl hst
  have hload := (next_storeTimes_iff hpl).mp hhead
  cases a with
  | loadTimes x => exact hag
  | _ => cases hload

/-- **Only a restore can leave servoPID with an old value of `times`.** -/
theorem Fresh.step {a : Label} (hf : Fresh s) (hw : Wf s) (he : a.Enabled s)
    (ha : ∀ l, a ≠ .car (.restore .servoPID l)) : Fresh (a.next cfg s) := by
  cases a with
  | part q a =>
    by_cases hq : q = .servoPID
    · subst hq
      exact fresh_of_servoPID hw he
    · intro l' hl' hst
      have hother : ((Label.part q a).next cfg s).part .servoPID = s.part .servoPID :=
        next_part_other (Ne.symm hq)
      rw [hother] at hl'
      rcases times_part cfg hw he with h | ⟨h, -⟩
      · rw [h]
        exact hf l' hl' hst
      · exact absurd h hq
  | car a =>
    intro l' hl' hst
    rw [times_car]
    rcases hw.spawn he .servoPID with h | ⟨-, h⟩ | ⟨-, h⟩ | ⟨l, h, -⟩
    · exact hf l' (h.symm.trans hl') hst
    · obtain rfl := Proc.running.inj (h.symm.trans hl')
      cases hst
    · exact absurd (h.symm.trans hl') (by simp)
    · exact absurd (congrArg Label.car h) (ha l)

/-- The value `times` can grow to before servoPID is acknowledged again. -/
def horizon (s : Sys) : ℤ :=
  s.state.times +
    (s.part .servoPID).room .storeTimes (s.state.needCompulsiveCheckpoint .servoPID)

theorem times_le_horizon (s : Sys) : s.state.times ≤ horizon s := by
  unfold horizon
  omega

theorem horizon_le (s : Sys) : horizon s ≤ s.state.times + 1 := by
  have := Proc.room_le_one .storeTimes (s.state.needCompulsiveCheckpoint .servoPID)
    (s.part .servoPID)
  unfold horizon
  omega

/-- Where no restore has left an old value behind, a step of a part adds 1 to `times` or leaves it
alone. -/
theorem times_next_part {q : PartType} {a : Act} (hf : Fresh s) (hw : Wf s)
    (he : (Label.part q a).Enabled s) :
    ((Label.part q a).next cfg s).state.times =
      s.state.times + if q = .servoPID ∧ a.instr = .storeTimes then 1 else 0 := by
  by_cases ha : q = .servoPID ∧ a.instr = .storeTimes
  · rw [if_pos ha]
    obtain ⟨l, k, hl, hk, hag⟩ := enabled_part.mp he
    obtain ⟨rfl, hi⟩ := ha
    cases a with
    | storeTimes x =>
      have hreg := hf l hl (by rw [hk]; rfl)
      rw [← hreg]
      exact hag
    | _ => cases hi
  · rw [if_neg ha, Int.add_zero]
    rcases times_part cfg hw he with h | ⟨hq, x, rfl⟩
    · exact h
    · exact absurd ⟨hq, rfl⟩ ha

theorem horizon_part (cfg : Config) {q : PartType} {a : Act} (hf : Fresh s) (hw : Wf s)
    (he : (Label.part q a).Enabled s) : horizon ((Label.part q a).next cfg s) ≤ horizon s := by
  have hroom := room_part cfg paced_storeTimes hw he
  unfold horizon
  rw [times_next_part hf hw he]
  split_ifs at hroom ⊢ <;> omega

theorem horizon_car (cfg : Config) {a : CarAct} (hw : Wf s) (he : a.Enabled s)
    (ha : ∀ l, a ≠ .restore .servoPID l) :
    horizon ((Label.car a).next cfg s) ≤ horizon s + if a.clears .servoPID then 1 else 0 := by
  have hroom := room_car cfg (j := .storeTimes) hw he ha
  unfold horizon
  rw [times_car]
  split_ifs at hroom ⊢ <;> omega

end Counter

/-! ### Leaving the main loop -/

theorem ne_finished_afterPass (c : Check) (i : PartType) : CarPc.afterPass c i ≠ .finished := by
  rcases afterPass_cases c i with ⟨d, j, h⟩ | h
  · rw [h]; simp
  · rw [h]; simp

theorem ne_finished_afterTest (cfg : Config) (c : Check) (i : PartType) (b : Bool) :
    CarPc.afterTest cfg c i b ≠ .finished := by
  rcases afterTest_cases cfg c i b with h | h | h
  · rw [h]; simp
  · rw [h]; simp
  · rw [h]; exact ne_finished_afterPass c i

/-- The main loop is left by its test only. -/
theorem testLoop_of_finished {cfg : Config} {s : Sys} {a : CarAct} (he : a.Enabled s)
    (h : (a.move cfg s.car).pc = .finished) : a = .testLoop false := by
  cases a with
  | testLoop b =>
    cases b with
    | false => rfl
    | true => cases h
  | initUnit i => cases i <;> cases h
  | testUnit i b => exact absurd h (ne_finished_afterTest cfg .unit i b)
  | testNeed i b => exact absurd h (ne_finished_afterTest cfg .compulsive i b)
  | testStage c i b => cases b <;> cases h
  | storeUnit i => exact absurd h (ne_finished_afterPass .unit i)
  | clearNeed i => exact absurd h (ne_finished_afterPass .compulsive i)
  | testFault b => cases b <;> cases h
  | kill p =>
    simp only [CarAct.move] at h
    cases hk : s.car.pc.toKill.erase p <;> simp [hk, CarPc.killing] at h
  | clearNew i => cases i <;> cases h
  | restore i l => cases i <;> cases h
  | _ => cases h

/-- After the main loop, and after the exit of a part, `times` has passed the limit. -/
def Overrun (s : Sys) : Prop :=
  (s.car.pc = .finished ∨ ∃ p, s.part p = .exited) → maxTimes < s.state.times

theorem Overrun.init (cfg : Config) : Overrun (Sys.init cfg) := by
  rintro (h | ⟨p, h⟩)
  · cases h
  · cases h

/-- A part exits only where it finds `times` past the limit. -/
theorem times_of_exited {cfg : Config} {s : Sys} {q : PartType} {a : Act}
    (he : (Label.part q a).Enabled s) (h : ((Label.part q a).next cfg s).part q = .exited) :
    maxTimes < s.state.times := by
  obtain ⟨l, k, hl, hk, hag⟩ := enabled_part.mp he
  rw [next_part_self hl] at h
  unfold Act.after at h
  split at h
  · rename_i ha
    subst ha
    have hb : true = decide (s.state.times > maxTimes) := hag
    simpa using hb.symm
  · cases h

theorem Overrun.step {cfg : Config} {s : Sys} {a : Label} (h : Overrun s)
    (hf : maxTimes < s.state.times → Fresh s) (hw : Wf s) (he : a.Enabled s) :
    Overrun (a.next cfg s) := by
  -- past the limit servoPID has the present value, so `times` does not fall
  have hstay : maxTimes < s.state.times → maxTimes < (a.next cfg s).state.times := by
    intro hlt
    cases a with
    | part q a =>
      rw [times_next_part (hf hlt) hw he]
      split_ifs <;> omega
    | car a => rwa [times_car]
  rintro (hpc | ⟨p, hp⟩)
  · cases a with
    | part q a => exact hstay (h (Or.inl hpc))
    | car a =>
      obtain rfl := testLoop_of_finished he hpc
      have hb : false = decide (s.state.times ≤ maxTimes) := he.2
      rw [times_car]
      simpa using hb.symm
  · cases a with
    | part q a =>
      by_cases hq : p = q
      · subst hq
        exact hstay (times_of_exited he hp)
      · rw [next_part_other hq] at hp
        exact hstay (h (Or.inr ⟨p, hp⟩))
    | car a =>
      refine hstay (h (Or.inr ⟨p, ?_⟩))
      rcases hw.spawn he p with h' | ⟨-, h'⟩ | ⟨-, h'⟩ | ⟨l, -, h', -⟩
      · exact h'.symm.trans hp
      · cases h'.symm.trans hp
      · cases h'.symm.trans hp
      · cases h'.symm.trans hp

/-! ### Acknowledgements still to come -/

/-- How often the manager can lower the flag of servoPID before it next tests the condition of the
main loop (with `w = 0`) or the one of the fault (with `w = 1`). -/
def CarPc.acks (w : ℕ) : CarPc → ℕ
  | .start | .forkPart _ | .initNew _ | .initNeed _ => w + 1
  | .initUnit .servoPID => w
  | .initUnit _ => w + 1
  | .lastTime | .whileTimes => w
  | .clock | .test _ _ | .stage _ _ | .save _ _ | .dump _ _ | .store _ _ => 1
  | .simulateFalut _ | .clearNew _ | .restore _ => w
  | .faultTest | .finished => 0

theorem acks_afterPass {w : ℕ} (c : Check) (i : PartType) :
    (if c = .compulsive ∧ i = .servoPID then 1 else 0) + (CarPc.afterPass c i).acks w ≤ 1 := by
  cases c <;> cases i <;> simp [CarPc.afterPass, PartType.succ, CarPc.acks]

theorem acks_killing {w : ℕ} (todo : List PartType) : (CarPc.killing todo).acks w = w := by
  cases todo <;> rfl

theorem acks_afterTest {w : ℕ} (cfg : Config) (c : Check) (i : PartType) (b : Bool) :
    (CarPc.afterTest cfg c i b).acks w ≤ 1 := by
  have := acks_afterPass (w := w) c i
  unfold CarPc.afterTest
  split
  · split <;> exact le_rfl
  · omega

/-- **A lap of the manager acknowledges servoPID once.** -/
theorem acks_move (cfg : Config) {s : Sys} {a : CarAct} {w : ℕ} (he : a.Enabled s)
    (hl : 1 ≤ w ∨ a ≠ .testLoop true) (hf : w = 0 ∨ ∀ b, a ≠ .testFault b) :
    (if a.clears .servoPID then 1 else 0) + (a.move cfg s.car).pc.acks w ≤ s.car.pc.acks w := by
  obtain ⟨σ, ⟨pc, tv, f⟩, part, occ⟩ := s
  cases a with
  | fork p =>
    cases pc <;> simp_all [CarAct.Enabled, CarPc.toFork, CarAct.move, CarAct.clears]
    exact le_rfl
  | kill p =>
    cases pc <;> simp_all [CarAct.Enabled, CarPc.toKill, CarAct.move, CarAct.clears]
    exact (acks_killing _).le
  | initNeed i =>
    obtain rfl := he
    cases i <;> simp [CarAct.move, CarPc.acks, CarAct.clears]
    omega
  | initUnit i =>
    obtain rfl := he
    cases i <;> simp [CarAct.move, CarPc.acks, CarAct.clears, CarPc.afterInit, PartType.succ]
  | testLoop b =>
    obtain ⟨rfl, -⟩ := he
    cases b <;> simp_all [CarAct.move, CarPc.acks, CarAct.clears]
  | testUnit i b =>
    obtain ⟨rfl, -⟩ := he
    have h := acks_afterTest (w := w) cfg .unit i b
    simpa [CarAct.clears, CarAct.move, CarPc.acks] using h
  | testNeed i b =>
    obtain ⟨rfl, -⟩ := he
    have h := acks_afterTest (w := w) cfg .compulsive i b
    simpa [CarAct.clears, CarAct.move, CarPc.acks] using h
  | testStage c i b =>
    obtain ⟨rfl, -⟩ := he
    cases b <;> simp [CarAct.move, CarPc.acks, CarAct.clears]
  | storeUnit i =>
    obtain rfl := he
    have h := acks_afterPass (w := w) .unit i
    simpa [CarAct.clears, CarAct.move, CarPc.acks] using h
  | clearNeed i =>
    obtain rfl := he
    have h := acks_afterPass (w := w) .compulsive i
    simpa [CarAct.clears, CarAct.move, CarPc.acks] using h
  | testFault b =>
    obtain ⟨rfl, -⟩ := he
    obtain rfl : w = 0 := hf.resolve_right fun h => h b rfl
    cases b <;> simp [CarAct.move, CarPc.acks, CarAct.clears]
  | clearNew i =>
    obtain rfl := he
    cases i <;> simp [CarAct.move, CarPc.acks, CarAct.clears, CarPc.afterClear, PartType.succ]
  | restore i l =>
    obtain ⟨rfl, -⟩ := he
    cases i <;> simp [CarAct.move, CarPc.acks, CarAct.clears, CarPc.afterRestore, PartType.succ]
  | loadTimes x =>
    obtain ⟨rfl, -⟩ := he
    simp [CarAct.move, CarPc.acks, CarAct.clears]
  | _ =>
    obtain rfl := he
    simp [CarAct.move, CarPc.acks, CarAct.clears]

/-- **What `times` can grow to** before the next test of the main loop, respectively of the fault,
no step but that test raises. -/
theorem reserve_step (cfg : Config) {s : Sys} {a : Label} {w : ℕ} (hfresh : Fresh s) (hw : Wf s)
    (he : a.Enabled s) (hr : ∀ l, a ≠ .car (.restore .servoPID l))
    (hl : 1 ≤ w ∨ a ≠ .car (.testLoop true)) (hf : w = 0 ∨ ∀ b, a ≠ .car (.testFault b)) :
    horizon (a.next cfg s) + (a.next cfg s).car.pc.acks w ≤ horizon s + s.car.pc.acks w := by
  cases a with
  | part q a =>
    have := horizon_part cfg hfresh hw he
    rw [next_part_car]
    omega
  | car a =>
    have hh := horizon_car cfg hw he fun l h => hr l (congrArg Label.car h)
    have ha := acks_move cfg (w := w) he (hl.imp_right fun h h' => h (congrArg Label.car h'))
      (hf.imp_right fun h b h' => h b (congrArg Label.car h'))
    have hpc : ((Label.car a).next cfg s).car.pc = (a.move cfg s.car).pc := rfl
    rw [hpc]
    split_ifs at hh ha <;> omega

/-! ### Lock-step -/

/-- The label stores false in `need_compulsive_checkpoint[p]`. -/
def Label.clears (p : PartType) : Label → Bool
  | .car a => a.clears p
  | .part _ _ => false

/-- What holds as long as no part is killed: the handshake is kept, and `times` is up to date where
servoPID stores it. -/
structure Steady (s : Sys) : Prop where
  quiet : Quiet s
  wf : Wf s
  fresh : Fresh s

section Steady

variable {cfg : Config} {s t : Sys} {tr : List Label}

theorem Steady.no_restore (h : Steady s) {a : Label} (he : a.Enabled s) (p : PartType) (l : Local) :
    a ≠ .car (.restore p l) := by
  rintro rfl
  exact h.quiet.alive p he.2.1

theorem Steady.step {a : Label} (h : Steady s) (ha : ∀ p, a ≠ .car (.kill p))
    (hs : (system cfg).step s a = some t) : Steady t := by
  obtain ⟨he, rfl⟩ := step_iff.mp hs
  exact ⟨h.quiet.step h.wf ha hs, h.wf.step hs, h.fresh.step h.wf he (h.no_restore he .servoPID)⟩

theorem Steady.init (cfg : Config) : Steady (Sys.init cfg) where
  quiet := Quiet.init cfg
  wf := Wf.init cfg
  fresh := Fresh.init cfg

/-- **Invariants of the runs without a fault**: a step need only be followed from a steady state. -/
theorem Steady.inv {u : Sys} {I : List Label → Sys → Prop} (hu : Steady u) (h₀ : I [] u)
    (hstep : ∀ tr s a, Steady s → I tr s → (∀ p, a ≠ .car (.kill p)) → a.Enabled s →
      I (tr ++ [a]) (a.next cfg s))
    (hr : (system cfg).Run u tr s) (hf : FaultFree tr) : Steady s ∧ I tr s := by
  refine hr.inv_forall (I := fun tr s => Steady s ∧ I tr s) (P := fun a => ∀ p, a ≠ .car (.kill p))
    ⟨hu, h₀⟩ ?_ fun a ha => hf.ne ha
  rintro tr s a t ⟨hst, hI⟩ hk hs
  refine ⟨hst.step hk hs, ?_⟩
  obtain ⟨he, rfl⟩ := step_iff.mp hs
  exact hstep tr s a hst hI hk he

theorem Steady.of_run (hr : (system cfg).Run (Sys.init cfg) tr s) (hf : FaultFree tr) :
    Steady s :=
  ((Steady.init cfg).inv (I := fun _ _ => True) trivial (by simp) hr hf).1

/-- **Budgets of the runs without a fault.** -/
theorem Steady.budget {A B : Label → Bool} (left : Sys → ℕ)
    (hstep : ∀ s a, Steady s → a.Enabled s →
      (if A a then 1 else 0) + left (a.next cfg s) ≤ left s + if B a then 1 else 0)
    (hr : (system cfg).Run (Sys.init cfg) tr s) (hf : FaultFree tr) :
    tr.countP A + left s ≤ left (Sys.init cfg) + tr.countP B := by
  refine hr.budget (P := fun a => ∀ p, a ≠ .car (.kill p)) (J := Steady) left (Steady.init cfg)
    (fun _ _ _ hs ha => hs.step ha) ?_ fun a ha => hf.ne ha
  intro s a t hst _ hs
  obtain ⟨he, rfl⟩ := step_iff.mp hs
  exact hstep s a hst he

/-- **`Run` calls against acknowledgements.** -/
theorem run_count_le (hr : (system cfg).Run (Sys.init cfg) tr s) (hf : FaultFree tr)
    (p : PartType) : tr.count (.part p .run) ≤ 1 + tr.countP (Label.clears p) := by
  have hb := Steady.budget (A := fun a => a == Label.part p .run) (B := Label.clears p)
    (fun s => (s.part p).room .run (s.state.needCompulsiveCheckpoint p)) ?_ hr hf
  · have h₀ : ((Sys.init cfg).part p).room .run
        ((Sys.init cfg).state.needCompulsiveCheckpoint p) = 1 := rfl
    rw [h₀] at hb
    have : tr.count (.part p .run) = tr.countP (fun a => a == Label.part p .run) := rfl
    omega
  · intro s a hs he
    cases a with
    | part q a =>
      have hroom := room_part cfg (p := p) (paced_run p) hs.wf he
      have hiff : (Label.part q a == Label.part p .run) = decide (q = p ∧ a.instr = .run) := by
        cases a <;> simp [Act.instr, beq_eq_decide]
      simp only [hiff, decide_eq_true_eq, Label.clears, Bool.false_eq_true, if_false]
      exact hroom
    | car a =>
      have hroom := room_car cfg (j := .run) (p := p) hs.wf he fun l h =>
        hs.no_restore he p l (congrArg Label.car h)
      have hA : (Label.car a == Label.part p .run) = false := by simp
      simp only [hA, Bool.false_eq_true, if_false, Nat.zero_add]
      exact hroom

/-- **Between two tests of the main loop** `times` grows by 2 at most. -/
theorem times_le_of_lap {u : Sys} {mid : List Label} {b : Bool} (hu : Steady u)
    (hr : (system cfg).Run u (.car (.testLoop b) :: mid) s)
    (hf : FaultFree mid) (hmid : ∀ c, Label.car (.testLoop c) ∉ mid)
    (hpc : s.car.pc = .whileTimes) : s.state.times ≤ u.state.times + 2 := by
  obtain ⟨v, hs, hr'⟩ := hr.cons_inv
  have hv' : Steady v := hu.step (by simp) hs
  have key : Steady s ∧ horizon s + s.car.pc.acks 0 ≤ u.state.times + 2 := by
    refine hr'.inv_forall
      (I := fun _ s => Steady s ∧ horizon s + s.car.pc.acks 0 ≤ u.state.times + 2)
      (P := fun a => (∀ p, a ≠ .car (.kill p)) ∧ ∀ c, a ≠ .car (.testLoop c)) ⟨hv', ?_⟩ ?_ ?_
    · obtain ⟨-, rfl⟩ := step_iff.mp hs
      have hle := horizon_le ((Label.car (.testLoop b)).next cfg u)
      rw [times_car] at hle
      have hacks : ((Label.car (.testLoop b)).next cfg u).car.pc.acks 0 ≤ 1 := by
        cases b <;> simp [Label.next, CarAct.move, CarPc.acks]
      omega
    · rintro _ s a t ⟨hst, hle⟩ ⟨hk, hl⟩ hs
      refine ⟨hst.step hk hs, ?_⟩
      obtain ⟨he, rfl⟩ := step_iff.mp hs
      have := reserve_step cfg (w := 0) hst.fresh hst.wf he (hst.no_restore he _)
        (Or.inr (hl true)) (Or.inl rfl)
      omega
    · exact fun a ha => ⟨fun p => hf.ne ha p, fun c h => hmid c (h ▸ ha)⟩
  have := times_le_horizon s
  have h0 : s.car.pc.acks 0 = 0 := by rw [hpc]; rfl
  omega

/-- **The overshoot** is 2 at most. -/
theorem times_le_maxTimes (hr : (system cfg).Run (Sys.init cfg) tr s) (hf : FaultFree tr) :
    s.state.times ≤ maxTimes + 2 := by
  have key : Steady s ∧ horizon s + s.car.pc.acks 0 ≤ maxTimes + 2 := by
    refine (Steady.init cfg).inv (I := fun _ s => horizon s + s.car.pc.acks 0 ≤ maxTimes + 2)
      ?_ ?_ hr hf
    · have h₀ : horizon (Sys.init cfg) + (Sys.init cfg).car.pc.acks 0 = 2 := rfl
      rw [h₀]
      decide
    · intro _ s a hst hle _ he
      by_cases hl : a = .car (.testLoop true)
      · -- the test has just read a value up to the limit
        subst hl
        have htimes : s.state.times ≤ maxTimes := of_decide_eq_true he.2.symm
        have hh := horizon_le ((Label.car (.testLoop true)).next cfg s)
        rw [times_car] at hh
        have hacks : ((Label.car (.testLoop true)).next cfg s).car.pc.acks 0 = 1 := rfl
        omega
      · have := reserve_step cfg (w := 0) hst.fresh hst.wf he (hst.no_restore he _)
          (Or.inr hl) (Or.inl rfl)
        omega
  have := times_le_horizon s
  omega

end Steady

/-- **Lock-step.** In every run without a fault a part has started at most one `Run` more than the
manager has stored false in its flag; between two consecutive tests of the main loop `times` grows
by 2 at most; and `times` never exceeds `MAX_TIMES + 2`. -/
theorem lock_step (cfg : Config) {tr : List Label} {s : Sys}
    (hr : (system cfg).Run (Sys.init cfg) tr s) (hf : FaultFree tr) :
    (∀ p, tr.count (.part p .run) ≤ 1 + tr.countP (Label.clears p)) ∧
      (∀ pre mid u b c, (system cfg).Run (Sys.init cfg) pre u →
        tr = pre ++ .car (.testLoop b) :: (mid ++ [.car (.testLoop c)]) →
        (∀ d, .car (.testLoop d) ∉ mid) → s.state.times ≤ u.state.times + 2) ∧
      s.state.times ≤ maxTimes + 2 := by
  refine ⟨run_count_le hr hf, ?_, times_le_maxTimes hr hf⟩
  rintro pre mid u b c hu rfl hmid
  obtain ⟨hpre, hpost⟩ := hf.append
  have hu' : Steady u := Steady.of_run hu hpre
  obtain ⟨v, hv, hr'⟩ := hr.append_inv
  obtain rfl := hu.det hv
  obtain ⟨w, hw, hs⟩ := (show (system cfg).Run u ((_ :: mid) ++ [_]) s from hr').snoc_inv
  obtain ⟨he, rfl⟩ := step_iff.mp hs
  rw [times_car]
  exact times_le_of_lap hu' hw hpost.tail.append.1 hmid he.1

/-- A run in which servoPID adds 1 before and 1 after it is acknowledged, both between the first two
tests of the main loop. -/
theorem lock_step_lap :
    ∃ pre mid u s, (system ⟨.unitOnly, true⟩).Run (Sys.init ⟨.unitOnly, true⟩) pre u ∧
      (system ⟨.unitOnly, true⟩).Run u
        (.car (.testLoop true) :: (mid ++ [.car (.testLoop true)])) s ∧
      mid.count (.part .servoPID .run) = 2 ∧ s.state.times = 2 ∧
      s.state.times ≤ u.state.times + 2 := by
  obtain ⟨tr, s, hr, htr, hmid, hrun, hs, hf⟩ := exists_run ⟨.unitOnly, true⟩
    (List.replicate 16 none ++ List.replicate 5 (some .servoPID) ++ List.replicate 8 none ++
      List.replicate 4 (some .servoPID) ++ List.replicate 2 none)
    (P := fun tr s => tr = tr.take 15 ++ .car (.testLoop true) ::
        ((tr.drop 16).take 18 ++ [.car (.testLoop true)]) ∧
      (∀ d, Label.car (.testLoop d) ∉ (tr.drop 16).take 18) ∧
      ((tr.drop 16).take 18).count (.part .servoPID .run) = 2 ∧ s.state.times = 2 ∧ FaultFree tr)
    (by decide +kernel)
  have h := lock_step _ hr hf
  rw [htr] at hr
  obtain ⟨u, hu, hr'⟩ := hr.append_inv
  exact ⟨_, _, u, s, hu, hr', hrun, hs, h.2.1 _ _ u _ _ hu htr hmid⟩

end Vehicle.Recoverybase
