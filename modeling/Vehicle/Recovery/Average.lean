import Vehicle.Numeric.Mean
import Vehicle.Recovery.Control

/-!
# recovery: the average cycle time

`Part::UpdateAverageCycleTime` takes the microseconds of two clock readings from one another and
leaves their seconds out. The average of a part is the running mean of these differences over the
cycles it has executed (`Averaged`), so it lies within the true times while no cycle goes over the
end of a second.
-/

namespace Vehicle.Recovery

open Vehicle.Trace Vehicle.Trace.Cyclic Vehicle.Numeric

/-! ### Cycles by the clock -/

/-- The clock readings of a cycle. -/
structure Cycle where
  tvStart : Timeval
  tvEnd : Timeval
  deriving DecidableEq

/-- The true duration in microseconds. -/
def Cycle.elapsed (c : Cycle) : ℤ :=
  (c.tvEnd.tvSec - c.tvStart.tvSec) * 1000000 + (c.tvEnd.tvUsec - c.tvStart.tvUsec)

/-- The clock has not gone back. -/
structure Cycle.Timed (c : Cycle) : Prop where
  tvStart : c.tvStart.Normal
  tvEnd : c.tvEnd.Normal
  le : 0 ≤ c.elapsed

/-- The cycle ends in the second in which it starts. -/
def Cycle.SameSecond (c : Cycle) : Prop := c.tvEnd.tvSec = c.tvStart.tvSec

/-- The difference `UpdateAverageCycleTime` computes. -/
def Cycle.difference (c : Cycle) : ℤ := c.tvEnd.tvUsec - c.tvStart.tvUsec

theorem Cycle.difference_eq (c : Cycle) :
    c.difference = c.elapsed - (c.tvEnd.tvSec - c.tvStart.tvSec) * 1000000 := by
  unfold difference elapsed
  omega

theorem Cycle.difference_eq_iff (c : Cycle) : c.difference = c.elapsed ↔ c.SameSecond := by
  rw [c.difference_eq]
  unfold SameSecond
  omega

theorem nextAverage_eq (avg : ℤ) (c : Cycle) :
    nextAverage avg c.tvStart c.tvEnd = runningMean avg c.difference := rfl

/-- What the clock has shown to a part so far. -/
structure Ledger where
  tvStart : Timeval
  tvEnd : Timeval
  cycles : List Cycle

/-- The ledger of part `p` after a label; a cycle is complete when its average is stored. -/
def Ledger.record (p : PartType) (g : Ledger) : Label → Ledger
  | .part q (.clockStart tv) => if q = p then { g with tvStart := tv } else g
  | .part q (.clockEnd tv) => if q = p then { g with tvEnd := tv } else g
  | .part q (.storeAverage _) =>
    if q = p then { g with cycles := g.cycles ++ [⟨g.tvStart, g.tvEnd⟩] } else g
  | _ => g

/-- The ledger of part `p` after a run. -/
def ledger (p : PartType) (tr : List Label) : Ledger :=
  tr.foldl (Ledger.record p) ⟨⟨0, 0⟩, ⟨0, 0⟩, []⟩

/-- **The cycles part `p` has executed**, up to the store of the average. -/
def cycles (p : PartType) (tr : List Label) : List Cycle := (ledger p tr).cycles

section Ledger

variable {p : PartType} {tr : List Label} {a : Label}

theorem ledger_snoc : ledger p (tr ++ [a]) = (ledger p tr).record p a := by
  rw [ledger, List.foldl_append]
  rfl

/-- Other processes leave no mark. -/
theorem Ledger.record_of_ne (g : Ledger) (h : ∀ b, a ≠ .part p b) : g.record p a = g := by
  unfold record
  split
  · rename_i q tv
    exact if_neg fun hq => h _ (by rw [hq])
  · rename_i q tv
    exact if_neg fun hq => h _ (by rw [hq])
  · rename_i q x
    exact if_neg fun hq => h _ (by rw [hq])
  · rfl

/-- A cycle is complete when its average is stored. -/
theorem cycles_snoc_of_ne {b : Act} (hb : ∀ x, b ≠ .storeAverage x) :
    cycles p (tr ++ [.part p b]) = cycles p tr := by
  rw [cycles, ledger_snoc]
  cases b with
  | storeAverage x => exact absurd rfl (hb x)
  | clockStart tv | clockEnd tv =>
    rw [Ledger.record, if_pos rfl]
    rfl
  | _ => rfl

/-- The ledger shows the clock readings that the part has at hand. -/
theorem Ledger.clock_move {g : Ledger} {l : Local} (b : Act)
    (h : l.tvStart = g.tvStart ∧ l.tvEnd = g.tvEnd) :
    (b.move p l).tvStart = (g.record p (.part p b)).tvStart ∧
      (b.move p l).tvEnd = (g.record p (.part p b)).tvEnd := by
  obtain ⟨hstart, hend⟩ := h
  cases b with
  | clockStart tv =>
    rw [record, if_pos rfl]
    exact ⟨rfl, hend⟩
  | clockEnd tv =>
    rw [record, if_pos rfl]
    exact ⟨hstart, rfl⟩
  | storeAverage x =>
    rw [record, if_pos rfl]
    exact ⟨hstart, hend⟩
  | sample r1 r2 us =>
    simp only [Act.move]
    split <;> exact ⟨hstart, hend⟩
  | testError b | testIf d n b | testOld d b | testOldAnd d b | testAndOld d e b | testNeed b =>
    cases b <;> exact ⟨hstart, hend⟩
  | _ => exact ⟨hstart, hend⟩

end Ledger

/-! ### The average is a running mean -/

theorem PartType.cell_inj {p q : PartType} {i : Fin 4} (hp : p.cell = some i)
    (hq : q.cell = some i) : p = q := by
  revert hp hq
  revert i
  revert p q
  decide

/-- Only the part itself stores to its cell. -/
theorem average_write {p q : PartType} {i : Fin 4} {b : Act} {s : State} (hp : p.cell = some i)
    (h : q ≠ p ∨ ∀ x, b ≠ .storeAverage x) :
    (b.write q s).averageTimePerCycle i = s.averageTimePerCycle i := by
  cases b with
  | storeAverage x =>
    have hq : q ≠ p := h.resolve_right fun hx => hx x rfl
    cases hc : q.cell with
    | none => simp [Act.write, hc]
    | some j =>
      have hij : i ≠ j := by
        rintro rfl
        exact hq (PartType.cell_inj hc hp)
      simp [Act.write, hc, State.setAverage, Function.update_of_ne hij]
  | storeNeed => cases hc : q.cell <;> simp [Act.write, hc, State.setNeed]
  | _ => rfl

/-- The store of the average follows its load. -/
theorem Point.average_order {p : PartType} {k k' : List Instr} (h : Point p k)
    (hk : k' ∈ targets p k) (hh : k'.head? = some .storeAverage) : k.head? = some .loadAverage := by
  have hall : ∀ p, ∀ k ∈ (runALL p).tails, ∀ k' ∈ targets p k,
      k'.head? = some .storeAverage → k.head? = some .loadAverage := by
    decide +kernel
  exact hall p k h.mem_tails k' hk hh

/-- **The average of part `p`** is the running mean over its cycles, and what the part has at hand
is what the ledger says. -/
structure Averaged (p : PartType) (i : Fin 4) (tr : List Label) (s : Sys) : Prop where
  wf : Wf s
  average : s.state.averageTimePerCycle i = ((cycles p tr).map Cycle.difference).foldl runningMean 0
  unborn : s.part p = .unborn ∨ s.part p = .constructing → ledger p tr = ⟨⟨0, 0⟩, ⟨0, 0⟩, []⟩
  clock : ∀ l, s.part p = .running l →
    l.tvStart = (ledger p tr).tvStart ∧ l.tvEnd = (ledger p tr).tvEnd
  loaded : ∀ l, s.part p = .running l → l.rest.head? = some .storeAverage →
    l.average = s.state.averageTimePerCycle i

theorem Averaged.init (p : PartType) (i : Fin 4) : Averaged p i [] Sys.init where
  wf := Wf.init
  average := rfl
  unborn _ := rfl
  clock l hl := by cases hl
  loaded l hl := by cases hl

section Step

variable {handled : Bool} {p : PartType} {i : Fin 4} {tr : List Label} {s t : Sys} {a : Label}

/-- Another process moves. -/
theorem average_step_other (hp : p.cell = some i) (ha : ∀ b, a ≠ .part p b)
    (hs : (system handled).step s a = some t) :
    t.state.averageTimePerCycle i = s.state.averageTimePerCycle i := by
  obtain ⟨-, rfl⟩ := step_iff.mp hs
  cases a with
  | part q b =>
    refine average_write hp (Or.inl ?_)
    rintro rfl
    exact ha b rfl
  | _ => rfl

/-- A part that is not running has not been running. -/
theorem unborn_step_other (hwf : Wf s) (ha : ∀ b, a ≠ .part p b)
    (hs : (system handled).step s a = some t)
    (ht : t.part p = .unborn ∨ t.part p = .constructing) :
    s.part p = .unborn ∨ s.part p = .constructing := by
  cases part_cases p hs with
  | still other part => rwa [part] at ht
  | act b l k label hl hk hag part => exact absurd label (ha b)
  | construct ok label before hok part => exact Or.inr before
  | fork label mem part => exact Or.inl (hwf.unborn p mem)

theorem Averaged.step_other (h : Averaged p i tr s) (hp : p.cell = some i)
    (ha : ∀ b, a ≠ .part p b) (hs : (system handled).step s a = some t) :
    Averaged p i (tr ++ [a]) t := by
  have hledger : ledger p (tr ++ [a]) = ledger p tr := by
    rw [ledger_snoc, Ledger.record_of_ne _ ha]
  have havg := average_step_other hp ha hs
  refine ⟨h.wf.step hs, ?_, ?_, ?_, ?_⟩
  · rw [havg, cycles, hledger]
    exact h.average
  · intro ht
    rw [hledger]
    exact h.unborn (unborn_step_other h.wf ha hs ht)
  · intro l hl
    rw [hledger]
    rcases running_cases hs hl with ⟨hl, -⟩ | ⟨rfl, rfl⟩ | ⟨b, -, -, rfl, -⟩
    · exact h.clock l hl
    · -- the part has just been constructed
      have hcon : s.part p = .constructing := by
        obtain ⟨⟨hq, -⟩, -⟩ := step_iff.mp hs
        cases hsp : s.part p <;> simp_all [Proc.isConstructing]
      rw [h.unborn (Or.inr hcon)]
      exact ⟨rfl, rfl⟩
    · exact absurd rfl (ha b)
  · intro l hl hh
    rw [havg]
    rcases running_cases hs hl with ⟨hl, -⟩ | ⟨rfl, rfl⟩ | ⟨b, -, -, rfl, -⟩
    · exact h.loaded l hl hh
    · cases p <;> cases hh
    · exact absurd rfl (ha b)

/-- The store of the average. -/
theorem Averaged.step_store {x : ℤ} (h : Averaged p i tr s) (hp : p.cell = some i)
    (hs : (system handled).step s (.part p (.storeAverage x)) = some t) :
    t.state.averageTimePerCycle i = ((cycles p (tr ++ [.part p (.storeAverage x)])).map
      Cycle.difference).foldl runningMean 0 := by
  obtain ⟨l, k, hl, hk, hag, hstate, -⟩ := part_step hs
  obtain ⟨hstart, hend⟩ := h.clock l hl
  obtain ⟨-, hx⟩ : p.cell.isSome ∧ x = nextAverage l.average l.tvStart l.tvEnd := hag
  have hcycles : cycles p (tr ++ [.part p (.storeAverage x)]) =
      cycles p tr ++ [⟨l.tvStart, l.tvEnd⟩] := by
    rw [cycles, ledger_snoc, Ledger.record, if_pos rfl, hstart, hend]
    rfl
  have hload := h.loaded l hl (by rw [hk]; rfl)
  rw [hcycles, List.map_append, List.foldl_append, ← h.average, ← hload]
  have hcell : t.state.averageTimePerCycle i = x := by
    rw [hstate]
    simp [Act.write, hp, State.setAverage]
  rw [hcell, hx]
  rfl

theorem running_of_after {b : Act} {l l' : Local}
    (hpart : t.part = Function.update s.part p (b.after p l)) (hl' : t.part p = .running l') :
    l' = b.move p l := by
  rw [hpart, Function.update_self, Act.after] at hl'
  split at hl'
  · cases hl'
  · simpa using hl'.symm

theorem Averaged.step_self {b : Act} (h : Averaged p i tr s) (hp : p.cell = some i)
    (hs : (system handled).step s (.part p b) = some t) :
    Averaged p i (tr ++ [.part p b]) t := by
  obtain ⟨l, k, hl, hk, hag, hstate, -, hpart⟩ := part_step hs
  refine ⟨h.wf.step hs, ?_, ?_, ?_, ?_⟩
  · by_cases hb : ∃ x, b = .storeAverage x
    · obtain ⟨x, rfl⟩ := hb
      exact h.step_store hp hs
    · have hne : ∀ x, b ≠ .storeAverage x := fun x hx => hb ⟨x, hx⟩
      rw [cycles_snoc_of_ne hne, hstate, average_write hp (Or.inr hne)]
      exact h.average
  · intro ht
    rw [hpart, Function.update_self, Act.after] at ht
    split at ht <;> simp at ht
  · intro l' hl'
    obtain rfl := running_of_after hpart hl'
    rw [ledger_snoc]
    exact Ledger.clock_move b (h.clock l hl)
  · intro l' hl' hh
    obtain rfl := running_of_after hpart hl'
    have hload := (h.wf.pointAt hl hk).average_order (move_mem_targets hk hag) hh
    have hi : b.instr = .loadAverage := by simpa using hload
    cases b with
    | loadAverage x =>
      have hx : p.cell.map s.state.averageTimePerCycle = some x := hag
      rw [hp, Option.map_some, Option.some.injEq] at hx
      rw [hstate]
      exact hx.symm
    | load call d x =>
      obtain rfl : call = .loadAverage := hi
      exact absurd hag.1 (by simp [Instr.args])
    | _ => cases hi

theorem Averaged.run (hp : p.cell = some i) (h : (system handled).Run Sys.init tr s) :
    Averaged p i tr s := by
  refine h.inv (I := Averaged p i) (Averaged.init p i) ?_
  intro tr s a t _ hI hs
  by_cases ha : ∃ b, a = .part p b
  · obtain ⟨b, rfl⟩ := ha
    exact hI.step_self hp hs
  · exact hI.step_other hp (fun b hb => ha ⟨b, hb⟩) hs

end Step

/-! ### The average and the true durations -/

section Run

variable {handled : Bool} {p : PartType} {i : Fin 4} {tr : List Label} {s : Sys}

/-- **The average of a part none of whose cycles goes over the end of a second** lies between the
shortest and the longest of them, after every cycle. -/
theorem average_within (h : (system handled).Run Sys.init tr s) (hp : p.cell = some i)
    (hne : cycles p tr ≠ []) (htimed : ∀ c ∈ cycles p tr, c.Timed)
    (hsame : ∀ c ∈ cycles p tr, c.SameSecond) :
    Within ((cycles p tr).map Cycle.elapsed) (s.state.averageTimePerCycle i) ∧
      0 ≤ s.state.averageTimePerCycle i := by
  have hmap : (cycles p tr).map Cycle.difference = (cycles p tr).map Cycle.elapsed :=
    List.map_congr_left fun c hc => c.difference_eq_iff.mpr (hsame c hc)
  have hwithin : Within ((cycles p tr).map Cycle.elapsed) (s.state.averageTimePerCycle i) := by
    rw [(Averaged.run hp h).average, hmap]
    exact foldl_runningMean (by simpa using hne)
  refine ⟨hwithin, ?_⟩
  obtain ⟨lo, hlo, hle⟩ := hwithin.lower
  obtain ⟨c, hc, rfl⟩ := List.mem_map.mp hlo
  exact (htimed c hc).le.trans hle

/-- A first cycle that goes over the end of a second leaves an average below its duration, by a
second for each end of one it goes over. -/
theorem average_first (h : (system handled).Run Sys.init tr s) (hp : p.cell = some i) {c : Cycle}
    (hc : cycles p tr = [c]) :
    s.state.averageTimePerCycle i =
      c.elapsed - (c.tvEnd.tvSec - c.tvStart.tvSec) * 1000000 := by
  rw [(Averaged.run hp h).average, hc, ← c.difference_eq]
  rfl

end Run

/-- A cycle of the camera from `tvStart` to `tvEnd`. -/
def cameraCycle (tvStart tvEnd : Timeval) : List Label :=
  [.car (.fork .camera true), .construct .camera true, .part .camera (.clockStart tvStart),
    .part .camera .run, .part .camera (.storeNew 1 true), .part .camera (.storeNew 2 true),
    .part .camera (.clockEnd tvEnd), .part .camera (.loadAverage 0),
    .part .camera (.storeAverage (nextAverage 0 tvStart tvEnd))]

theorem average_within_camera :
    ∃ s, (system true).Run Sys.init (cameraCycle ⟨0, 100⟩ ⟨0, 300⟩) s ∧
      Within ((cycles .camera (cameraCycle ⟨0, 100⟩ ⟨0, 300⟩)).map Cycle.elapsed)
        (s.state.averageTimePerCycle 0) ∧ 0 ≤ s.state.averageTimePerCycle 0 := by
  obtain ⟨s, hr, -⟩ := Lts.exists_run (M := system true) (s := Sys.init)
    (cameraCycle ⟨0, 100⟩ ⟨0, 300⟩) (P := fun _ => True) (by decide +kernel)
  refine ⟨s, hr, average_within (p := .camera) hr rfl (by decide) ?_ ?_⟩
  · intro c hc
    obtain rfl : c = ⟨⟨0, 100⟩, ⟨0, 300⟩⟩ := List.mem_singleton.mp hc
    exact ⟨by decide, by decide, by decide⟩
  · intro c hc
    obtain rfl : c = ⟨⟨0, 100⟩, ⟨0, 300⟩⟩ := List.mem_singleton.mp hc
    rfl

/-- A cycle of two microseconds over the end of a second. -/
theorem average_negative : ¬ ∀ (handled : Bool) (p : PartType) (i : Fin 4) (tr : List Label)
    (s : Sys), (system handled).Run Sys.init tr s → p.cell = some i → cycles p tr ≠ [] →
      (∀ c ∈ cycles p tr, c.Timed) →
      Within ((cycles p tr).map Cycle.elapsed) (s.state.averageTimePerCycle i) ∧
        0 ≤ s.state.averageTimePerCycle i := by
  intro h
  obtain ⟨s, hr, hneg⟩ := Lts.exists_run (M := system true) (s := Sys.init)
    (cameraCycle ⟨0, 999999⟩ ⟨1, 1⟩) (P := fun s => s.state.averageTimePerCycle 0 < 0)
    (by decide +kernel)
  have htimed : ∀ c ∈ cycles .camera (cameraCycle ⟨0, 999999⟩ ⟨1, 1⟩), c.Timed := by
    intro c hc
    obtain rfl : c = ⟨⟨0, 999999⟩, ⟨1, 1⟩⟩ := List.mem_singleton.mp hc
    exact ⟨by decide, by decide, by decide⟩
  exact absurd (h true .camera 0 _ s hr rfl (by decide) htimed).2 (by omega)

end Vehicle.Recovery
