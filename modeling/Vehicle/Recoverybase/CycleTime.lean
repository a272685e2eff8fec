import Vehicle.Numeric.Mean
import Vehicle.Recoverybase.LockStep
import Vehicle.Recoverybase.UnitCheckpoint

/-!
# recoverybase: the average cycle time

`Part::UpdateAverageCycleTime` keeps a running mean of a quarter of the time of each cycle, cut to
an integer at every step, and starts anew when the mean is zero. It never leaves the range of the
cycles so far (`average_bounded`): over any sequence of calls, and in every run of the program,
where a part that has been killed and restored may go on from a value it has loaded long ago
(`Observed`).
-/

namespace Vehicle.Recoverybase

open Vehicle.Trace Vehicle.Trace.Cyclic Vehicle.Numeric

/-! ### Cycles by the clock -/

/-- The clock readings of a cycle. -/
structure Cycle where
  tvStart : Timeval
  tvEnd : Timeval
  deriving DecidableEq

/-- The time of the cycle. -/
def Cycle.elapsed (c : Cycle) : ℤ := diffus c.tvStart c.tvEnd

/-- `t` of `UpdateAverageCycleTime`. -/
def Cycle.t (c : Cycle) : ℤ := c.elapsed.tdiv 4

/-- **`Part::UpdateAverageCycleTime`**, when nobody else stores to the cell. -/
def State.updateAverageCycleTime (p : PartType) (s : State) (c : Cycle) : State :=
  { s with
    averageTimePerCycle := Function.update s.averageTimePerCycle p
      (nextAverage (s.averageTimePerCycle p) c.tvStart c.tvEnd) }

/-- The average of part `p` lies between the shortest and the longest `t`, and the threshold of the
unit pass is not negative and at most an eighth of the longest cycle. -/
structure Bounded (p : PartType) (cs : List Cycle) (s : State) : Prop where
  average : Within (cs.map Cycle.t) (s.averageTimePerCycle p)
  nonneg : 0 ≤ s.threshold p
  eighth : ∃ c ∈ cs, 8 * s.threshold p ≤ c.elapsed

theorem nextAverage_eq (avg : ℤ) (c : Cycle) :
    nextAverage avg c.tvStart c.tvEnd = runningMean avg c.t := rfl

theorem Cycle.elapsed_nonneg (c : Cycle) : 0 ≤ c.elapsed := by
  unfold elapsed
  rw [diffus_eq_abs]
  exact abs_nonneg _

theorem Cycle.t_nonneg (c : Cycle) : 0 ≤ c.t := Int.tdiv_nonneg c.elapsed_nonneg (by decide)

/-- What the range of the average says about the threshold. -/
theorem Bounded.of_within {p : PartType} {cs : List Cycle} {s : State}
    (h : Within (cs.map Cycle.t) (s.averageTimePerCycle p)) : Bounded p cs s := by
  obtain ⟨lo, hlo, hle⟩ := h.lower
  obtain ⟨hi, hhi, hge⟩ := h.upper
  obtain ⟨c, -, rfl⟩ := List.mem_map.mp hlo
  obtain ⟨d, hd, rfl⟩ := List.mem_map.mp hhi
  have havg : 0 ≤ s.averageTimePerCycle p := c.t_nonneg.trans hle
  have ht : d.t * 4 ≤ d.elapsed := by
    rw [Cycle.t, Int.tdiv_eq_ediv_of_nonneg d.elapsed_nonneg]
    exact Int.ediv_mul_le _ (by decide)
  have hthreshold : s.threshold p * 2 ≤ s.averageTimePerCycle p := by
    rw [State.threshold, interval, Int.tdiv_eq_ediv_of_nonneg havg]
    exact Int.ediv_mul_le _ (by decide)
  exact ⟨h, Int.tdiv_nonneg havg (by decide), d, hd, by omega⟩

/-! ### A sequence of calls -/

/-- The calls take the running mean. -/
theorem average_foldl (p : PartType) (s : State) (cs : List Cycle) :
    (cs.foldl (State.updateAverageCycleTime p) s).averageTimePerCycle p =
      (cs.map Cycle.t).foldl runningMean (s.averageTimePerCycle p) := by
  induction cs generalizing s with
  | nil => rfl
  | cons c cs ih =>
    have hc : (s.updateAverageCycleTime p c).averageTimePerCycle p =
        runningMean (s.averageTimePerCycle p) c.t := Function.update_self ..
    rw [List.foldl_cons, ih, hc, List.map_cons, List.foldl_cons]

theorem bounded_foldl {p : PartType} {s : State} {cs : List Cycle}
    (h : s.averageTimePerCycle p = 0) (hne : cs ≠ []) :
    Bounded p cs (cs.foldl (State.updateAverageCycleTime p) s) := by
  refine Bounded.of_within ?_
  rw [average_foldl, h]
  exact foldl_runningMean (by simpa using hne)

/-! ### The cycles of a run -/

/-- What the clock has shown to a part so far. -/
structure Ledger where
  tvStart : Timeval
  tvEnd : Timeval
  cycles : List Cycle

/-- The ledger of part `p` after a label. A cycle is complete when its average is stored; a part
that is restored has the readings of its dump again. -/
def Ledger.record (p : PartType) (g : Ledger) : Label → Ledger
  | .part q (.clockStart tv) => if q = p then { g with tvStart := tv } else g
  | .part q (.clockEnd tv) => if q = p then { g with tvEnd := tv } else g
  | .part q (.storeAverage _) =>
    if q = p then { g with cycles := g.cycles ++ [⟨g.tvStart, g.tvEnd⟩] } else g
  | .car (.restore q l) =>
    if q = p then { g with tvStart := l.tvStart, tvEnd := l.tvEnd } else g
  | _ => g

/-- The ledger of part `p` after a run. -/
def ledger (p : PartType) (tr : List Label) : Ledger :=
  tr.foldl (Ledger.record p) ⟨⟨0, 0⟩, ⟨0, 0⟩, []⟩

/-- **The cycles part `p` has executed**, up to the store of the average. -/
def timedCycles (p : PartType) (tr : List Label) : List Cycle := (ledger p tr).cycles

section Ledger

variable {p : PartType} {tr : List Label} {a : Label}

theorem ledger_snoc : ledger p (tr ++ [a]) = (ledger p tr).record p a := by
  rw [ledger, List.foldl_append]
  rfl

/-- Other parts leave no mark, nor does the manager but by a restore. -/
theorem Ledger.record_of_ne (g : Ledger) (hact : ∀ b, a ≠ .part p b)
    (hres : ∀ l, a ≠ .car (.restore p l)) : g.record p a = g := by
  unfold record
  split
  · exact if_neg fun hq => hact _ (by rw [hq])
  · exact if_neg fun hq => hact _ (by rw [hq])
  · exact if_neg fun hq => hact _ (by rw [hq])
  · exact if_neg fun hq => hres _ (by rw [hq])
  · rfl

/-- A cycle is complete when its average is stored. -/
theorem timedCycles_snoc (ha : ∀ x, a ≠ .part p (.storeAverage x)) :
    timedCycles p (tr ++ [a]) = timedCycles p tr := by
  rw [timedCycles, ledger_snoc]
  unfold Ledger.record
  split
  · split <;> rfl
  · split <;> rfl
  · rw [if_neg fun hq => ha _ (by rw [hq])]
    rfl
  · split <;> rfl
  · rfl

theorem timedCycles_snoc_store {x : ℤ} :
    timedCycles p (tr ++ [.part p (.storeAverage x)]) =
      timedCycles p tr ++ [⟨(ledger p tr).tvStart, (ledger p tr).tvEnd⟩] := by
  rw [timedCycles, ledger_snoc, Ledger.record, if_pos rfl]
  rfl

theorem timedCycles_subset : timedCycles p tr ⊆ timedCycles p (tr ++ [a]) := by
  by_cases ha : ∃ x, a = .part p (.storeAverage x)
  · obtain ⟨x, rfl⟩ := ha
    rw [timedCycles_snoc_store]
    exact List.subset_append_left _ _
  · rw [timedCycles_snoc fun x hx => ha ⟨x, hx⟩]
    exact List.Subset.refl _

/-- The ledger shows the clock readings that the part has at hand. -/
theorem Ledger.clock_move {g : Ledger} {l : Local} (b : Act)
    (h : l.tvStart = g.tvStart ∧ l.tvEnd = g.tvEnd) :
    (b.move p l).tvStart = (g.record p (.part p b)).tvStart ∧
      (b.move p l).tvEnd = (g.record p (.part p b)).tvEnd := by
  obtain ⟨hstart, hend⟩ := h
  cases b with
  | clockStart tv =>
    rw [record, if_pos rfl]
    exact ⟨rfl, hend⟩
  | clockEnd tv =>
    rw [record, if_pos rfl]
    exact ⟨hstart, rfl⟩
  | storeAverage x =>
    rw [record, if_pos rfl]
    exact ⟨hstart, hend⟩
  | testNew d b | testNeed b => cases b <;> exact ⟨hstart, hend⟩
  | _ => exact ⟨hstart, hend⟩

end Ledger

/-! ### The average of a run -/

/-- A value of the average after the cycles `cs`: within their range, or the zero with which it
starts. -/
def Meant (cs : List Cycle) (x : ℤ) : Prop := x = 0 ∨ Within (cs.map Cycle.t) x

theorem Meant.mono {cs cs' : List Cycle} {x : ℤ} (h : Meant cs x) (hsub : cs ⊆ cs') : Meant cs' x :=
  h.imp_right fun hw => hw.mono (List.map_subset _ hsub)

/-- **One cycle more**, with the average that has been loaded. -/
theorem Meant.next {cs : List Cycle} {x : ℤ} (h : Meant cs x) (c : Cycle) :
    Within ((cs ++ [c]).map Cycle.t) (nextAverage x c.tvStart c.tvEnd) := by
  have hc : Within ((cs ++ [c]).map Cycle.t) c.t := .of_mem (List.mem_map_of_mem (by simp))
  rw [nextAverage_eq]
  rcases h with rfl | hx
  · exact hc
  · exact (hx.mono (List.map_subset _ (List.subset_append_left cs [c]))).runningMean hc

/-- **What the parts may store to the average**: at every point part `p` may be restored at, what it
has loaded is an average of some time before, and what it has at hand is what the ledger says. -/
structure Observed (p : PartType) (tr : List Label) (s : Sys) : Prop where
  wf : Wf s
  average : timedCycles p tr ≠ [] →
    Within ((timedCycles p tr).map Cycle.t) (s.state.averageTimePerCycle p)
  start : timedCycles p tr = [] → s.state.averageTimePerCycle p = 0
  loaded : ∀ l ∈ s.occupied p, l.rest.head? = some .storeAverage → Meant (timedCycles p tr) l.reg
  unborn : s.part p = .unborn → ledger p tr = ⟨⟨0, 0⟩, ⟨0, 0⟩, []⟩
  clock : ∀ l, s.part p = .running l →
    l.tvStart = (ledger p tr).tvStart ∧ l.tvEnd = (ledger p tr).tvEnd

theorem Observed.init (cfg : Config) (p : PartType) : Observed p [] (Sys.init cfg) where
  wf := Wf.init cfg
  average h := absurd rfl h
  start _ := rfl
  loaded := by simp [Sys.init]
  unborn _ := rfl
  clock l hl := by cases hl

/-- The store of the average is reached from its load only. -/
theorem next_storeAverage_iff {p : PartType} {i : Instr} {k : List Instr}
    (h : Placed (runALL p) (i :: k)) :
    (advance (runALL p) k).head? = some .storeAverage ↔ i = .loadAverage := by
  refine h.head_advance_iff ?_
  cases p <;> decide

section Observed

variable {cfg : Config} {p : PartType} {tr : List Label} {s : Sys}

theorem Observed.meant (h : Observed p tr s) :
    Meant (timedCycles p tr) (s.state.averageTimePerCycle p) := by
  by_cases hne : timedCycles p tr = []
  · exact Or.inl (h.start hne)
  · exact Or.inr (h.average hne)

/-- An act stores to the average of its part, by `storeAverage`. -/
theorem average_write {q : PartType} {a : Act} (h : q ≠ p ∨ ∀ x, a ≠ .storeAverage x) :
    (a.write q s.state).averageTimePerCycle p = s.state.averageTimePerCycle p := by
  cases a with
  | storeAverage x =>
    have hq : p ≠ q := (h.resolve_right fun hx => hx x rfl).symm
    simp [Act.write, Function.update_of_ne hq]
  | _ => rfl

theorem average_next_car (a : CarAct) :
    ((Label.car a).next cfg s).state.averageTimePerCycle = s.state.averageTimePerCycle := by
  cases a <;> rfl

/-- An act of the part completes a cycle, or leaves the cycles and the average alone. -/
theorem Observed.average_self (cfg : Config) {a : Act} (h : Observed p tr s)
    (he : (Label.part p a).Enabled s) :
    Within ((timedCycles p (tr ++ [.part p a])).map Cycle.t)
        (((Label.part p a).next cfg s).state.averageTimePerCycle p) ∨
      timedCycles p (tr ++ [.part p a]) = timedCycles p tr ∧
        ((Label.part p a).next cfg s).state.averageTimePerCycle p =
          s.state.averageTimePerCycle p := by
  obtain ⟨l, k, hl, hk, hag, -⟩ := h.wf.stands he
  by_cases ha : ∃ x, a = .storeAverage x
  · obtain ⟨x, rfl⟩ := ha
    left
    have hx : x = nextAverage l.reg l.tvStart l.tvEnd := hag
    obtain ⟨hstart, hend⟩ := h.clock l hl
    have hstore : ((Label.part p (.storeAverage x)).next cfg s).state.averageTimePerCycle p =
        nextAverage l.reg l.tvStart l.tvEnd := by
      simp [Label.next, Act.write, hx]
    rw [hstore, timedCycles_snoc_store, ← hstart, ← hend]
    exact (h.loaded l (h.wf.current p l hl) (by rw [hk]; rfl)).next ⟨l.tvStart, l.tvEnd⟩
  · have hne : ∀ x, a ≠ .storeAverage x := fun x hx => ha ⟨x, hx⟩
    exact Or.inr ⟨timedCycles_snoc fun x hx => hne x (Label.part.inj hx).2,
      average_write (Or.inr hne)⟩

/-- The part itself moves. -/
theorem Observed.step_self {a : Act} (h : Observed p tr s) (he : (Label.part p a).Enabled s) :
    Observed p (tr ++ [.part p a]) ((Label.part p a).next cfg s) := by
  obtain ⟨l, k, hl, hk, hag, hpl⟩ := h.wf.stands he
  have havg := h.average_self cfg he
  refine ⟨h.wf.step_part he, ?_, ?_, ?_, ?_, ?_⟩
  · intro hne
    rcases havg with havg | ⟨hcycles, havg⟩
    · exact havg
    · rw [hcycles] at hne ⊢
      rw [havg]
      exact h.average hne
  · intro hnil
    rcases havg with havg | ⟨hcycles, havg⟩
    · rw [hnil] at havg
      obtain ⟨lo, hlo, -⟩ := havg.lower
      cases hlo
    · rw [havg]
      exact h.start (hcycles.symm.trans hnil)
  · intro l' hl' hh
    rcases mem_occupied_next hl hl' with hold | rfl
    · exact (h.loaded l' hold hh).mono timedCycles_subset
    · -- the new point: it is reached by loading the average
      obtain ⟨-, hhead⟩ := head_of_move hk rfl hh
      have hi := (next_storeAverage_iff hpl).mp hhead
      cases a with
      | loadAverage x =>
        have hx : x = s.state.averageTimePerCycle p := hag
        rw [timedCycles_snoc (by simp)]
        change Meant (timedCycles p tr) x
        rw [hx]
        exact h.meant
      | _ => cases hi
  · intro hun
    rw [next_part_self hl, Act.after] at hun
    split at hun <;> cases hun
  · intro l' hl'
    rw [next_part_self hl] at hl'
    obtain ⟨-, rfl⟩ := after_eq_running hl'
    rw [ledger_snoc]
    exact Ledger.clock_move a (h.clock l hl)

/-- A label that leaves no mark in the ledger. -/
theorem Observed.unmarked {a : Label} {t : Sys} (h : Observed p tr s) (hw : Wf t)
    (hact : ∀ b, a ≠ .part p b) (hres : ∀ l, a ≠ .car (.restore p l))
    (havg : t.state.averageTimePerCycle p = s.state.averageTimePerCycle p)
    (hocc : ∀ l ∈ t.occupied p, l ∈ s.occupied p ∨ l = .start p)
    (hpart : t.part p = s.part p ∨ s.part p = .unborn ∧ t.part p = .running (.start p) ∨
      t.part p = .killed) : Observed p (tr ++ [a]) t := by
  have hledger : ledger p (tr ++ [a]) = ledger p tr := by
    rw [ledger_snoc, Ledger.record_of_ne _ hact hres]
  have hcycles : timedCycles p (tr ++ [a]) = timedCycles p tr := congrArg Ledger.cycles hledger
  refine ⟨hw, ?_, ?_, ?_, ?_, ?_⟩
  · rw [hcycles, havg]
    exact h.average
  · rw [hcycles, havg]
    exact h.start
  · intro l hl hh
    rw [hcycles]
    rcases hocc l hl with hold | rfl
    · exact h.loaded l hold hh
    · cases p <;> cases hh
  · intro hun
    rw [hledger]
    rcases hpart with hsame | ⟨-, hnew⟩ | hkilled
    · exact h.unborn (hsame.symm.trans hun)
    · cases hnew.symm.trans hun
    · cases hkilled.symm.trans hun
  · intro l hl
    rw [hledger]
    rcases hpart with hsame | ⟨hun, hnew⟩ | hkilled
    · exact h.clock l (hsame.symm.trans hl)
    · -- the part has just been forked
      obtain rfl := Proc.running.inj (hnew.symm.trans hl)
      rw [h.unborn hun]
      exact ⟨rfl, rfl⟩
    · cases hkilled.symm.trans hl

/-- Another part moves. -/
theorem Observed.step_other {q : PartType} {a : Act} (h : Observed p tr s) (hq : q ≠ p)
    (he : (Label.part q a).Enabled s) :
    Observed p (tr ++ [.part q a]) ((Label.part q a).next cfg s) := by
  refine h.unmarked (h.wf.step_part he) (fun b hb => hq (Label.part.inj hb).1) (by simp)
    (average_write (Or.inl hq)) ?_ (Or.inl (next_part_other hq.symm))
  intro l hl
  exact Or.inl (occupied_next_other hq.symm ▸ hl)

/-- The part is restored: it goes on at a point it has occupied. -/
theorem Observed.step_restore {l : Local} (h : Observed p tr s)
    (he : (CarAct.restore p l).Enabled s) :
    Observed p (tr ++ [.car (.restore p l)]) ((Label.car (.restore p l)).next cfg s) := by
  have hcycles : timedCycles p (tr ++ [.car (.restore p l)]) = timedCycles p tr :=
    timedCycles_snoc (by simp)
  have hpart : ((Label.car (.restore p l)).next cfg s).part p = .running l :=
    Function.update_self ..
  refine ⟨h.wf.restore he.1 he.2.2, ?_, ?_, ?_, ?_, ?_⟩
  · rw [hcycles]
    exact h.average
  · rw [hcycles]
    exact h.start
  · rw [hcycles]
    exact h.loaded
  · intro hun
    cases hpart.symm.trans hun
  · intro l' hl'
    obtain rfl := Proc.running.inj (hpart.symm.trans hl')
    rw [ledger_snoc, Ledger.record, if_pos rfl]
    exact ⟨rfl, rfl⟩

/-- The manager moves, but restores another part or none. -/
theorem Observed.step_car {a : CarAct} (h : Observed p tr s) (hres : ∀ l, a ≠ .restore p l)
    (hs : (system cfg).step s (.car a) = some ((Label.car a).next cfg s)) :
    Observed p (tr ++ [.car a]) ((Label.car a).next cfg s) := by
  have he : a.Enabled s := (step_iff.mp hs).1
  refine h.unmarked (h.wf.step hs) (by simp) (fun l hl => hres l (Label.car.inj hl))
    (congrFun (average_next_car a) p) (fun _ => mem_occupied_next_car) ?_
  rcases h.wf.spawn he p with hsame | hfork | ⟨-, hkill⟩ | ⟨l, rfl, -⟩
  · exact Or.inl hsame
  · exact Or.inr (Or.inl hfork)
  · exact Or.inr (Or.inr hkill)
  · exact absurd rfl (hres l)

theorem Observed.step {t : Sys} {a : Label} (h : Observed p tr s)
    (hs : (system cfg).step s a = some t) : Observed p (tr ++ [a]) t := by
  obtain ⟨he, rfl⟩ := step_iff.mp hs
  cases a with
  | part q a =>
    by_cases hq : q = p
    · subst hq
      exact h.step_self he
    · exact h.step_other hq he
  | car a =>
    by_cases hres : ∃ l, a = .restore p l
    · obtain ⟨l, rfl⟩ := hres
      exact h.step_restore he
    · exact h.step_car (fun l hl => hres ⟨l, hl⟩) hs

theorem Observed.of_run (h : (system cfg).Run (Sys.init cfg) tr s) : Observed p tr s :=
  h.inv (I := Observed p) (Observed.init cfg p) fun _ _ _ _ _ hI hs => hI.step hs

/-- **The average cycle time stays within the cycles so far**, and the threshold of the unit pass
with it: after every sequence of calls that starts with an average of zero, and after every run. -/
theorem average_bounded (p : PartType) :
    (∀ (s : State) (cs : List Cycle), s.averageTimePerCycle p = 0 → cs ≠ [] →
      Bounded p cs (cs.foldl (State.updateAverageCycleTime p) s)) ∧
    ∀ (cfg : Config) (tr : List Label) (s : Sys), (system cfg).Run (Sys.init cfg) tr s →
      timedCycles p tr ≠ [] → Bounded p (timedCycles p tr) s.state :=
  ⟨fun _ _ h hne => bounded_foldl h hne,
    fun _ _ _ h hne => Bounded.of_within ((Observed.of_run h).average hne)⟩

/-- A short cycle cuts the average to zero, and the one after it starts it anew; and camera after
its first cycle. -/
theorem average_bounded_camera :
    Bounded .camera [⟨⟨0, 0⟩, ⟨0, 7⟩⟩, ⟨⟨1, 0⟩, ⟨1, 2⟩⟩, ⟨⟨2, 0⟩, ⟨3, 0⟩⟩]
      ([⟨⟨0, 0⟩, ⟨0, 7⟩⟩, ⟨⟨1, 0⟩, ⟨1, 2⟩⟩, ⟨⟨2, 0⟩, ⟨3, 0⟩⟩].foldl
        (State.updateAverageCycleTime .camera) initState) ∧
    ∃ tr s, (system .default).Run (Sys.init .default) tr s ∧ timedCycles .camera tr ≠ [] ∧
      Bounded .camera (timedCycles .camera tr) s.state := by
  obtain ⟨tr, s, hr, hne⟩ := exists_run .default (eagerTurns .default 70 (Sys.init .default))
    (P := fun tr _ => timedCycles .camera tr ≠ []) (by decide +kernel)
  exact ⟨(average_bounded .camera).1 initState _ rfl (by simp),
    tr, s, hr, hne, (average_bounded .camera).2 _ tr s hr hne⟩

end Observed

end Vehicle.Recoverybase
