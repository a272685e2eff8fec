import Vehicle.Trace.History
import Vehicle.Recovery.Control

/-!
# recovery: the speed sensor measures before it announces

The loop of `Speed::Run` ends with a sample that counts, whose results are not negative, so the
branch behind it that would skip the store of the speed is never taken (`Sampling`). Therefore the
sensor has stored a speed in every cycle in which it announces one (`Measured`, `announces_stored`).
-/

namespace Vehicle.Recovery

open Vehicle.Trace Vehicle.Trace.Cyclic

/-! ### Cycles -/

/-- Part `p` returns from `WaitCompulsiveCheckpoint`, and begins another cycle. -/
def Label.returns (p : PartType) : Label → Bool
  | .part q (.testNeed false) => decide (q = p)
  | _ => false

/-- The number of cycles part `p` has finished before position `n`. -/
def cycle (p : PartType) (tr : List Label) (n : ℕ) : ℕ := (tr.take n).countP (Label.returns p)

section Cycle

variable {p : PartType} {tr : List Label} {a : Label} {i j n : ℕ}

theorem cycle_mono (h : i ≤ j) : cycle p tr i ≤ cycle p tr j :=
  (List.take_sublist_take_left h).countP_le

theorem cycle_take (h : i ≤ n) : cycle p (tr.take n) i = cycle p tr i := by
  rw [cycle, cycle, List.take_take, Nat.min_eq_left h]

theorem cycle_snoc (h : i ≤ tr.length) : cycle p (tr ++ [a]) i = cycle p tr i := by
  rw [cycle, cycle, List.take_append_of_le_length h]

theorem cycle_length_snoc (h : a.returns p = false) :
    cycle p (tr ++ [a]) (tr ++ [a]).length = cycle p tr tr.length := by
  rw [cycle, cycle, List.take_length, List.take_length, List.countP_append, List.countP_singleton,
    h]
  rfl

end Cycle

/-! ### The loop of `Speed::Run` -/

theorem Speed.Members.sample_results (m : Speed.Members) (r1 r2 us : ℤ) :
    (m.sample r1 r2 us).result1 = r1 ∧ (m.sample r1 r2 us).result2 = r2 := by
  unfold sample
  dsimp only
  constructor <;> (repeat' split) <;> rfl

/-- A sample that counts has no negative result. -/
theorem Speed.Members.sample_counts {m : Speed.Members} {r1 r2 us : ℤ}
    (h : (m.sample r1 r2 us).i ≠ m.i) : 0 ≤ r1 ∧ 0 ≤ r2 := by
  unfold sample at h
  by_contra hneg
  rw [if_pos (by omega)] at h
  exact h rfl

/-- How the statements of `Speed::Run` follow one another around its loop. -/
theorem Point.speed_order {k k' : List Instr} (h : Point .speed k) (hk : k' ∈ targets .speed k) :
    (k'.head? = some .sample → k.head? = some .clearError ∨ k.head? = some .sample) ∧
    (k'.head? = some .calcSpeed → k.head? = some .sample) ∧
    (k'.head? = some .ifError → k.head? = some .calcSpeed) ∧
    (k'.head? = some .clearResults → k.head? = some .ifError) := by
  have hall : ∀ k ∈ (runALL .speed).tails, ∀ k' ∈ targets .speed k,
      (k'.head? = some .sample → k.head? = some .clearError ∨ k.head? = some .sample) ∧
      (k'.head? = some .calcSpeed → k.head? = some .sample) ∧
      (k'.head? = some .ifError → k.head? = some .calcSpeed) ∧
      (k'.head? = some .clearResults → k.head? = some .ifError) := by
    decide +kernel
  exact hall k h.mem_tails k' hk

/-- The statements behind the loop and behind the test of `Speed::Run`. -/
theorem Point.speed_behind {i : Instr} {k : List Instr} (h : Point .speed (i :: k)) :
    (i = .sample → (advance (runALL .speed) k).head? = some .calcSpeed) ∧
    (i = .ifError → (advance (runALL .speed) (k.drop 1)).head? = some .storeSpeed) := by
  have hall : ∀ k ∈ (runALL .speed).tails,
      (k.head? = some .sample →
        (advance (runALL .speed) k.tail).head? = some .calcSpeed) ∧
      (k.head? = some .ifError →
        (advance (runALL .speed) (k.tail.drop 1)).head? = some .storeSpeed) := by
    decide +kernel
  have hk := hall (i :: k) h.mem_tails
  simpa using hk

/-- **The loop of `Speed::Run`**: it goes on up to the eighth sample that counts, and it has ended
with one that counts. -/
structure Sampling (l : Local) : Prop where
  counter : l.rest.head? = some .sample → l.speed.i ≤ 8
  sound : l.rest.head? = some .calcSpeed ∨ l.rest.head? = some .ifError →
    0 ≤ l.speed.result1 ∧ 0 ≤ l.speed.result2
  unskipped : l.rest.head? ≠ some .clearResults

theorem Sampling.start : Sampling (.start .speed) := by
  refine ⟨?_, ?_, ?_⟩ <;> decide

section Sampling

variable {s : State} {l : Local} {a : Act} {k : List Instr}

/-- An iteration of the loop. -/
theorem Sampling.sample (h : Sampling l) {r1 r2 us : ℤ} (hpt : Point .speed (.sample :: k))
    (hk : l.rest = .sample :: k) : Sampling (Act.move .speed (.sample r1 r2 us) l) := by
  have hle : l.speed.i ≤ 8 := h.counter (by rw [hk]; rfl)
  obtain ⟨hr1, hr2⟩ := l.speed.sample_results r1 r2 us
  simp only [Act.move]
  split
  case isTrue hi =>
    -- the loop goes on
    refine ⟨fun _ => hi, ?_, ?_⟩ <;> simp [hk]
  case isFalse hi =>
    -- it has just counted the eighth sample
    have hhead : (l.next .speed).rest.head? = some .calcSpeed := by
      simpa [Local.next, Local.skip, hk] using hpt.speed_behind.1 rfl
    have hpos : 0 ≤ r1 ∧ 0 ≤ r2 := by
      refine Speed.Members.sample_counts (show (l.speed.sample r1 r2 us).i ≠ l.speed.i from ?_)
      omega
    refine ⟨?_, fun _ => ?_, ?_⟩
    · simp [hhead]
    · rw [hr1, hr2]
      exact hpos
    · simp [hhead]

theorem Sampling.move (h : Sampling l) (hpt : Point .speed (a.instr :: k))
    (hk : l.rest = a.instr :: k) (ha : a.Agrees .speed s l) : Sampling (a.move .speed l) := by
  obtain ⟨hsample, hcalc, herror, hclear⟩ := hpt.speed_order (move_mem_targets hk ha)
  simp only [List.head?_cons, Option.some.injEq] at hsample hcalc herror hclear
  have hiter : a.instr = .sample → Sampling (a.move .speed l) := by
    intro hi
    obtain ⟨r1, r2, us, rfl⟩ : ∃ r1 r2 us, a = .sample r1 r2 us := ha.runs hi
    exact h.sample hpt hk
  refine ⟨?_, ?_, ?_⟩
  · intro hh
    rcases hsample hh with hi | hi
    · -- the loop starts at 1
      obtain ⟨r, rfl⟩ : ∃ r, a = .clearError r := ha.runs hi
      show (l.speed.start r).i ≤ 8
      simp [Speed.Members.start]
    · exact (hiter hi).counter hh
  · intro hh
    rcases hh with hh | hh
    · exact (hiter (hcalc hh)).sound (Or.inl hh)
    · obtain rfl : a = .calcSpeed := ha.runs (herror hh)
      exact h.sound (Or.inl (by rw [hk]; rfl))
  · intro hh
    obtain ⟨b, rfl⟩ : ∃ b, a = .testError b := ha.runs (hclear hh)
    -- the test is false, so the next statement is the store
    obtain ⟨h1, h2⟩ := h.sound (Or.inr (by rw [hk]; rfl))
    have hb : b = false := by
      rw [show b = _ from ha]
      simp only [Bool.or_eq_false_iff, decide_eq_false_iff_not]
      omega
    subst hb
    have hstore : (l.skip .speed 1).rest.head? = some .storeSpeed := by
      simpa [Local.skip, hk] using hpt.speed_behind.2 rfl
    rw [show (Act.move .speed (.testError false) l) = l.skip .speed 1 from rfl, hstore] at hh
    cases hh

end Sampling

/-! ### The store comes before the announcement -/

/-- A control point from which the store of the speed does not lie ahead in the cycle follows the
store or another such point; behind `WaitCompulsiveCheckpoint` it lies ahead again. -/
theorem Point.speed_store {k k' : List Instr} (h : Point .speed k) (hk : k' ∈ targets .speed k)
    (hc : k.head? ≠ some .clearResults) (hno : .storeSpeed ∉ k') :
    k.head? = some .storeSpeed ∨ .storeSpeed ∉ k ∧
      (k.head? = some .whileNeed → .storeSpeed ∈ advance (runALL .speed) k.tail) := by
  have hall : ∀ k ∈ (runALL .speed).tails, ∀ k' ∈ targets .speed k,
      k.head? ≠ some .clearResults → .storeSpeed ∉ k' →
      k.head? = some .storeSpeed ∨ .storeSpeed ∉ k ∧
        (k.head? = some .whileNeed → .storeSpeed ∈ advance (runALL .speed) k.tail) := by
    decide +kernel
  exact hall k h.mem_tails k' hk hc hno

/-- **The speed sensor has measured in this cycle** once the store of the speed is behind it. -/
structure Measured (tr : List Label) (s : Sys) : Prop where
  wf : Wf s
  sampling : ∀ l, s.part .speed = .running l → Sampling l
  stored : ∀ l, s.part .speed = .running l → .storeSpeed ∉ l.rest →
    ∃ w y, tr[w]? = some (.part .speed (.storeSpeed y)) ∧
      cycle .speed tr w = cycle .speed tr tr.length

theorem Measured.init : Measured [] Sys.init where
  wf := Wf.init
  sampling l hl := by cases hl
  stored l hl := by cases hl

section Step

variable {handled : Bool} {tr : List Label} {s t : Sys} {a : Label}

/-- A store in the present cycle stays in it. -/
theorem stored_snoc (ha : a.returns .speed = false)
    (h : ∃ w y, tr[w]? = some (.part .speed (.storeSpeed y)) ∧
      cycle .speed tr w = cycle .speed tr tr.length) :
    ∃ w y, (tr ++ [a])[w]? = some (.part .speed (.storeSpeed y)) ∧
      cycle .speed (tr ++ [a]) w = cycle .speed (tr ++ [a]) (tr ++ [a]).length := by
  obtain ⟨w, y, hw, hcyc⟩ := h
  refine ⟨w, y, getElem?_snoc_of hw, ?_⟩
  rw [cycle_snoc (lt_length hw).le, cycle_length_snoc ha, hcyc]

theorem Measured.step (h : Measured tr s) (hs : (system handled).step s a = some t) :
    Measured (tr ++ [a]) t := by
  refine ⟨h.wf.step hs, ?_, ?_⟩
  · intro l hl
    rcases running_cases hs hl with ⟨hl, -⟩ | ⟨rfl, -⟩ | ⟨b, l₀, k, -, hl₀, hk, hag, rfl⟩
    · exact h.sampling l hl
    · exact Sampling.start
    · exact (h.sampling l₀ hl₀).move (h.wf.pointAt hl₀ hk) hk hag
  · intro l hl hno
    rcases running_cases hs hl with ⟨hl, hother⟩ | ⟨rfl, -⟩ | ⟨b, l₀, k, rfl, hl₀, hk, hag, rfl⟩
    · refine stored_snoc ?_ (h.stored l hl hno)
      -- another process moves
      unfold Label.returns
      split
      · rename_i q
        have hq : q ≠ .speed := by
          rintro rfl
          exact hother _ rfl
        simp [hq]
      · rfl
    · exact absurd (show Instr.storeSpeed ∈ runALL .speed by decide) hno
    · have hmem := move_mem_targets hk hag
      rw [← hk] at hmem
      have hcases := (h.wf.point .speed l₀ hl₀).speed_store hmem (h.sampling l₀ hl₀).unskipped hno
      rcases hcases with hstore | ⟨hold, hwait⟩
      · -- the store itself
        have hi : b.instr = .storeSpeed := by simpa [hk] using hstore
        obtain ⟨y, rfl⟩ : ∃ y, b = .storeSpeed y := hag.runs hi
        refine ⟨tr.length, y, by simp, ?_⟩
        rw [cycle_snoc le_rfl, cycle_length_snoc rfl]
      · refine stored_snoc ?_ (h.stored l₀ hl₀ hold)
        -- a return would be at the top of the next cycle
        by_contra hret
        obtain rfl : b = .testNeed false := by
          unfold Label.returns at hret
          split at hret
          · rename_i he
            obtain ⟨rfl, rfl⟩ := Label.part.inj he
            rfl
          · exact absurd rfl hret
        exact hno (hwait (by rw [hk]; rfl))

theorem Measured.run (h : (system handled).Run Sys.init tr s) : Measured tr s :=
  h.inv (I := Measured) Measured.init fun _ _ _ _ _ hI hs => hI.step hs

/-- **The speed sensor announces a speed it has stored in the same cycle.** -/
theorem announces_stored {n : ℕ} (h : (system handled).Run Sys.init tr s)
    (hn : tr[n]? = some (.part .speed (.storeNew 0 true))) :
    ∃ w y, w < n ∧ tr[w]? = some (.part .speed (.storeSpeed y)) ∧
      cycle .speed tr w = cycle .speed tr n := by
  obtain ⟨u, v, hr, hs⟩ := h.at_event hn
  obtain ⟨l, k, hl, hk, -⟩ := part_step hs
  have hm := Measured.run hr
  have hall : ∀ k ∈ (runALL .speed).tails, k.head? = some (.storeNew 0 true) →
      .storeSpeed ∉ k := by
    decide +kernel
  have hno : .storeSpeed ∉ l.rest :=
    hall l.rest (hm.wf.point .speed l hl).mem_tails (by rw [hk]; rfl)
  obtain ⟨w, y, hw, hcyc⟩ := hm.stored l hl hno
  obtain ⟨hlt, hw⟩ := of_getElem?_take hw
  rw [List.length_take_of_le (lt_length hn).le, cycle_take hlt.le, cycle_take le_rfl] at hcyc
  exact ⟨w, y, hlt, hw, hcyc⟩

end Step

end Vehicle.Recovery
