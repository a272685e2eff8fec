import Mathlib.Algebra.BigOperators.Group.List.Basic
import Mathlib.Algebra.Order.Field.Basic
import Mathlib.Algebra.Order.Group.Int
import Mathlib.Algebra.Order.Group.Abs
import Mathlib.Data.Int.ModEq
import Mathlib.Tactic.NormNum
import Vehicle.Recovery.Measure

/-!
# recovery: what the speed sensor adds up

The loop of `Speed::Run` over everything the encoder may answer. The encoder has 16384 positions,
the correction for the passing of the zero position is 16383, so every sample that passes it is
wrong by one (`unwrap_eq`), the others are exact (`exact_iff`). The members of a running `Speed` are
those the loop computes (`Sampled`).
-/

namespace Vehicle.Recovery

open Vehicle.Trace Vehicle.Trace.Cyclic

/-! ### The loop of `Speed::Run` -/

/-- An iteration of the loop of `Speed::Run`: the two results, the microseconds between them, and by
how many positions the wheel has turned, which the program does not see. -/
structure Reading where
  result1 : ℤ
  result2 : ℤ
  us : ℤ
  displacement : ℤ
  deriving DecidableEq, Repr

/-- The loop counts the sample. -/
def Reading.Accepted (r : Reading) : Prop :=
  (0 ≤ r.result1 ∧ 0 ≤ r.result2) ∧ 0 ≤ r.us ∧ r.us ≤ 2500

instance (r : Reading) : Decidable r.Accepted :=
  inferInstanceAs (Decidable ((0 ≤ r.result1 ∧ 0 ≤ r.result2) ∧ 0 ≤ r.us ∧ r.us ≤ 2500))

/-- The samples the loop counts. -/
def accepted (rs : List Reading) : List Reading := rs.filter fun r => decide r.Accepted

section Accepted

variable {r : Reading} {rs pre post : List Reading}

theorem mem_accepted : r ∈ accepted rs ↔ r ∈ rs ∧ r.Accepted := by
  simp [accepted]

theorem accepted_append : accepted (pre ++ post) = accepted pre ++ accepted post := by
  simp [accepted]

theorem accepted_cons (h : r.Accepted) : accepted (r :: rs) = r :: accepted rs :=
  List.filter_cons_of_pos (by simpa using h)

theorem accepted_cons_of_not (h : ¬ r.Accepted) : accepted (r :: rs) = accepted rs :=
  List.filter_cons_of_neg (by simpa using h)

end Accepted

/-- The iterations `rs` of the loop of `Speed::Run`. -/
def Speed.Members.samples (m : Speed.Members) (rs : List Reading) : Speed.Members :=
  rs.foldl (fun m r => m.sample r.result1 r.result2 r.us) m

/-- A sample of a 14-bit encoder that turns slowly enough: `5916 = 16383 - 10467`. -/
structure Reading.Sound (r : Reading) : Prop where
  result1 : 0 ≤ r.result1 ∧ r.result1 < 16384
  result2 : 0 ≤ r.result2 ∧ r.result2 < 16384
  slow : |r.displacement| ≤ 5916
  turned : r.result2 ≡ r.result1 + r.displacement [ZMOD 16384]

/-- How often the zero position is passed between the two results, with the direction. -/
def Reading.crossing (r : Reading) : ℤ := (r.displacement - (r.result2 - r.result1)) / 16384

theorem Reading.Sound.turns {r : Reading} (h : r.Sound) :
    r.result2 - r.result1 = r.displacement - 16384 * r.crossing := by
  have := h.turned
  unfold Int.ModEq at this
  unfold crossing
  omega

/-- **The corrected difference is short of the true one by one for every passing of the zero
position.** -/
theorem Reading.Sound.unwrap_eq {r : Reading} (h : r.Sound) :
    Speed.unwrap r.result1 r.result2 = -r.displacement + r.crossing := by
  have hturns := h.turns
  have h1 := h.result1
  have h2 := h.result2
  have hslow := abs_le.mp h.slow
  unfold Speed.unwrap
  dsimp only
  split
  · omega
  · split <;> omega

/-! ### What an iteration does -/

theorem timeTaken_filtered {us : ℤ} :
    ((us : ℚ) / 1000000 > 0.0025 ∨ (us : ℚ) / 1000000 < 0) ↔ ¬ (0 ≤ us ∧ us ≤ 2500) := by
  have hlate : (us : ℚ) / 1000000 > 0.0025 ↔ 2500 < us := by
    rw [gt_iff_lt, lt_div_iff₀ (by norm_num)]
    norm_num
    exact_mod_cast Iff.rfl
  have hneg : (us : ℚ) / 1000000 < 0 ↔ us < 0 := by
    rw [div_lt_iff₀ (by norm_num), zero_mul]
    exact_mod_cast Iff.rfl
  rw [hlate, hneg]
  omega

namespace Speed.Members

variable {m : Speed.Members} {r : Reading} {rs : List Reading}

/-- A sample that counts. -/
theorem sample_of_accepted (h : r.Accepted) :
    (m.sample r.result1 r.result2 r.us).difference = unwrap r.result1 r.result2 ∧
    (m.sample r.result1 r.result2 r.us).differenceTotal =
      m.differenceTotal + unwrap r.result1 r.result2 ∧
    (m.sample r.result1 r.result2 r.us).i = m.i + 1 := by
  obtain ⟨hpos, hus⟩ := h
  unfold sample
  dsimp only
  rw [if_neg (by omega), if_neg (by rw [timeTaken_filtered]; exact not_not_intro hus)]
  exact ⟨rfl, rfl, rfl⟩

/-- A sample that is filtered. -/
theorem sample_of_not_accepted (h : ¬ r.Accepted) :
    (m.sample r.result1 r.result2 r.us).differenceTotal = m.differenceTotal ∧
    (m.sample r.result1 r.result2 r.us).i = m.i := by
  unfold sample
  dsimp only
  split
  · exact ⟨rfl, rfl⟩
  · rename_i hpos
    have hus : ¬ (0 ≤ r.us ∧ r.us ≤ 2500) := fun hus => h ⟨by omega, hus⟩
    rw [if_pos (timeTaken_filtered.mpr hus)]
    exact ⟨rfl, rfl⟩

@[simp] theorem samples_nil : m.samples [] = m := rfl

@[simp] theorem samples_cons :
    m.samples (r :: rs) = (m.sample r.result1 r.result2 r.us).samples rs := rfl

theorem samples_snoc :
    m.samples (rs ++ [r]) = (m.samples rs).sample r.result1 r.result2 r.us := by
  simp [samples]

/-- The loop counts the samples it accepts. -/
theorem samples_i (m : Speed.Members) (rs : List Reading) :
    (m.samples rs).i = m.i + (accepted rs).length := by
  induction rs generalizing m with
  | nil => rfl
  | cons r rs ih =>
    rw [samples_cons, ih]
    by_cases h : r.Accepted
    · rw [(sample_of_accepted h).2.2, accepted_cons h, List.length_cons]
      omega
    · rw [(sample_of_not_accepted h).2, accepted_cons_of_not h]

/-- **The loop adds up the corrected differences of the samples it accepts.** -/
theorem samples_differenceTotal (m : Speed.Members) (rs : List Reading) :
    (m.samples rs).differenceTotal =
      m.differenceTotal + ((accepted rs).map fun r => unwrap r.result1 r.result2).sum := by
  induction rs generalizing m with
  | nil => simp [accepted]
  | cons r rs ih =>
    rw [samples_cons, ih]
    by_cases h : r.Accepted
    · rw [(sample_of_accepted h).2.1, accepted_cons h, List.map_cons, List.sum_cons, add_assoc]
    · rw [(sample_of_not_accepted h).1, accepted_cons_of_not h]

/-- The values of type `int` an iteration computes for a sample that counts. -/
def intermediates (m : Speed.Members) (r : Reading) : List ℤ :=
  [r.result2 - r.result1, (r.result2 - r.result1) * -1, unwrap r.result1 r.result2,
    m.differenceTotal + unwrap r.result1 r.result2, m.i + 1]

end Speed.Members

/-- The value fits into an `int`. -/
def FitsInt (x : ℤ) : Prop := -2 ^ 31 ≤ x ∧ x < 2 ^ 31

/-! ### Exactness -/

/-- **The loop of `Speed::Run` is exact on the iterations `rs`**: what it adds for a sample is the
displacement the other way round, the sum is that of the displacements, and nothing overflows. -/
structure Exact (m : Speed.Members) (rs : List Reading) : Prop where
  difference : ∀ pre r post, rs = pre ++ r :: post → r.Accepted →
    (m.samples (pre ++ [r])).difference = -r.displacement
  total : (m.samples rs).differenceTotal = -((accepted rs).map Reading.displacement).sum
  fits : ∀ pre r post, rs = pre ++ r :: post → r.Accepted →
    ∀ x ∈ (m.samples pre).intermediates r, FitsInt x

section Exact

variable {m : Speed.Members} {r : Reading} {rs pre post : List Reading}

theorem Reading.Sound.unwrap_eq_neg_iff (h : r.Sound) :
    Speed.unwrap r.result1 r.result2 = -r.displacement ↔
      r.result2 - r.result1 = r.displacement := by
  rw [h.unwrap_eq, h.turns]
  omega

theorem Reading.Sound.abs_unwrap_le (h : r.Sound) :
    |Speed.unwrap r.result1 r.result2| ≤ 5917 := by
  have hturns := h.turns
  have h1 := h.result1
  have h2 := h.result2
  have hslow := abs_le.mp h.slow
  rw [h.unwrap_eq, abs_le]
  omega

/-- The sum of the differences grows by 5917 a sample at most. -/
theorem abs_sum_unwrap_le (hs : ∀ r ∈ rs, r.Sound) :
    |(rs.map fun r => Speed.unwrap r.result1 r.result2).sum| ≤ 5917 * rs.length := by
  induction rs with
  | nil => simp
  | cons r rs ih =>
    have hr := abs_le.mp (hs r (by simp)).abs_unwrap_le
    have hrs := abs_le.mp (ih fun q hq => hs q (by simp [hq]))
    rw [List.map_cons, List.sum_cons, List.length_cons, abs_le]
    push_cast
    omega

/-- Nothing overflows in the eight samples of a `Run`. -/
theorem fits_of_sound (hm : m.differenceTotal = 0) (hi : m.i = 1) (hr : r.Accepted)
    (hs : ∀ q ∈ accepted (pre ++ r :: post), q.Sound)
    (hlen : (accepted (pre ++ r :: post)).length ≤ 8) :
    ∀ x ∈ (m.samples pre).intermediates r, FitsInt x := by
  have hsplit : accepted (pre ++ r :: post) = accepted pre ++ r :: accepted post := by
    rw [accepted_append, accepted_cons hr]
  rw [hsplit] at hs hlen
  have hsound : r.Sound := hs r (by simp)
  have hunwrap := abs_le.mp hsound.abs_unwrap_le
  have hsum := abs_le.mp (abs_sum_unwrap_le fun q hq => hs q (List.mem_append_left _ hq))
  have h1 := hsound.result1
  have h2 := hsound.result2
  rw [List.length_append, List.length_cons] at hlen
  intro x hx
  simp only [Speed.Members.intermediates, Speed.Members.samples_differenceTotal,
    Speed.Members.samples_i, hm, hi, List.mem_cons, List.not_mem_nil, or_false] at hx
  unfold FitsInt
  rcases hx with rfl | rfl | rfl | rfl | rfl
  · omega
  · omega
  · omega
  · omega
  · push_cast
    omega

/-- **Which runs of the loop are exact**: those in which no sample that counts passes the zero
position. -/
theorem exact_iff (m : Speed.Members) (r₀ : ℤ) (rs : List Reading)
    (hlen : (accepted rs).length ≤ 8) (hs : ∀ r ∈ accepted rs, r.Sound) :
    Exact (m.start r₀) rs ↔ ∀ r ∈ accepted rs, r.result2 - r.result1 = r.displacement := by
  constructor
  · intro h r hr
    obtain ⟨hmem, hacc⟩ := mem_accepted.mp hr
    obtain ⟨pre, post, rfl⟩ := List.append_of_mem hmem
    have hdiff := h.difference pre r post rfl hacc
    rw [Speed.Members.samples_snoc, (Speed.Members.sample_of_accepted hacc).1] at hdiff
    exact (hs r hr).unwrap_eq_neg_iff.mp hdiff
  · intro h
    have hunwrap : ∀ r ∈ accepted rs, Speed.unwrap r.result1 r.result2 = -r.displacement :=
      fun r hr => (hs r hr).unwrap_eq_neg_iff.mpr (h r hr)
    refine ⟨?_, ?_, ?_⟩
    · rintro pre r post rfl hacc
      rw [Speed.Members.samples_snoc, (Speed.Members.sample_of_accepted hacc).1]
      exact hunwrap r (mem_accepted.mpr ⟨by simp, hacc⟩)
    · rw [Speed.Members.samples_differenceTotal, List.map_congr_left hunwrap, List.sum_neg,
        List.map_map]
      exact zero_add _
    · rintro pre r post rfl hacc
      exact fits_of_sound rfl rfl hacc hs hlen

end Exact

/-- A wheel that turns, but not over the zero position. -/
theorem exact_iff_turning :
    Exact (Speed.Members.new.start 0) (List.replicate 8 ⟨96, 128, 1000, 32⟩) ↔
      ∀ r ∈ accepted (List.replicate 8 ⟨96, 128, 1000, 32⟩),
        r.result2 - r.result1 = r.displacement :=
  exact_iff _ _ _ (by decide) fun r hr => by
    obtain ⟨hmem, -⟩ := mem_accepted.mp hr
    obtain rfl := List.eq_of_mem_replicate hmem
    exact ⟨by decide, by decide, by decide, by decide⟩

/-- A wheel that turns by 32 positions in every sample, in the last one from 16352 to 0. -/
theorem zero_crossing_inexact : ∃ rs : List Reading, (accepted rs).length = 8 ∧
    (∀ r ∈ accepted rs, r.Sound) ∧ ¬ Exact (Speed.Members.new.start 0) rs := by
  refine ⟨List.replicate 7 ⟨96, 128, 1000, 32⟩ ++ [⟨16352, 0, 1000, 32⟩], by decide, ?_, ?_⟩
  · intro r hr
    obtain ⟨hmem, -⟩ := mem_accepted.mp hr
    rcases List.mem_append.mp hmem with hmem | hmem
    · obtain rfl := List.eq_of_mem_replicate hmem
      exact ⟨by decide, by decide, by decide, by decide⟩
    · obtain rfl := List.mem_singleton.mp hmem
      exact ⟨by decide, by decide, by decide, by decide⟩
  · intro h
    have htotal := h.total
    rw [Speed.Members.samples_differenceTotal] at htotal
    revert htotal
    decide

/-! ### The members of a running `Speed` -/

/-- The members are those the loop of `Speed::Run` has computed from the iterations so far. -/
def Speed.Members.Computed (m : Speed.Members) (n : ℕ) : Prop :=
  ∃ (m₀ : Speed.Members) (r : ℤ) (rs : List Reading),
    m = (m₀.start r).samples rs ∧ (accepted rs).length = n

/-- **In the loop of `Speed::Run`** up to seven samples have been accepted, behind it eight. -/
structure Sampled (l : Local) : Prop where
  inside : l.rest.head? = some .sample → ∃ n ≤ 7, l.speed.Computed n
  behind : l.rest.head? = some .calcSpeed → l.speed.Computed 8

theorem Sampled.start : Sampled (.start .speed) := by
  constructor <;> intro h <;> cases h

theorem Speed.Members.Computed.sample {m : Speed.Members} {n : ℕ} (h : m.Computed n)
    (r1 r2 us : ℤ) :
    ((m.sample r1 r2 us).i ≤ 8 → n ≤ 7 → ∃ k ≤ 7, (m.sample r1 r2 us).Computed k) ∧
    (¬ (m.sample r1 r2 us).i ≤ 8 → n ≤ 7 → (m.sample r1 r2 us).Computed 8) := by
  obtain ⟨m₀, r, rs, rfl, rfl⟩ := h
  have hnew : ((m₀.start r).samples rs).sample r1 r2 us =
      (m₀.start r).samples (rs ++ [⟨r1, r2, us, 0⟩]) := by
    rw [samples_snoc]
  have hi : (((m₀.start r).samples rs).sample r1 r2 us).i =
      1 + (accepted (rs ++ [⟨r1, r2, us, 0⟩])).length := by
    rw [hnew, samples_i]
    rfl
  have hle : (accepted (rs ++ [⟨r1, r2, us, 0⟩])).length ≤ (accepted rs).length + 1 := by
    rw [accepted_append, List.length_append]
    have := List.length_filter_le (fun r : Reading => decide r.Accepted) [⟨r1, r2, us, 0⟩]
    exact Nat.add_le_add_left this _
  constructor
  · intro h8 _
    exact ⟨_, by omega, m₀, r, _, hnew, rfl⟩
  · intro h8 h7
    exact ⟨m₀, r, _, hnew, by omega⟩

theorem Sampled.move {s : State} {l : Local} {a : Act} {k : List Instr} (h : Sampled l)
    (hpt : Point .speed (a.instr :: k)) (hk : l.rest = a.instr :: k) (ha : a.Agrees .speed s l) :
    Sampled (a.move .speed l) := by
  obtain ⟨hsample, hcalc, -, -⟩ := hpt.speed_order (move_mem_targets hk ha)
  simp only [List.head?_cons, Option.some.injEq] at hsample hcalc
  have hbehind : a.instr = .sample → (a.move .speed l).rest.head? = some .sample ∧
      (∃ n ≤ 7, (a.move .speed l).speed.Computed n) ∨
      (a.move .speed l).rest.head? = some .calcSpeed ∧ (a.move .speed l).speed.Computed 8 := by
    intro hi
    obtain ⟨r1, r2, us, rfl⟩ : ∃ r1 r2 us, a = .sample r1 r2 us := ha.runs hi
    obtain ⟨n, hn, hcomp⟩ := h.inside (by rw [hk]; rfl)
    obtain ⟨hgo, hend⟩ := hcomp.sample r1 r2 us
    simp only [Act.move]
    split
    case isTrue h8 =>
      exact Or.inl ⟨by rw [hk]; rfl, hgo h8 hn⟩
    case isFalse h8 =>
      refine Or.inr ⟨?_, hend h8 hn⟩
      simpa [Local.next, Local.skip, hk] using hpt.speed_behind.1 rfl
  constructor
  · intro hh
    rcases hsample hh with hi | hi
    · -- the loop starts
      obtain ⟨r, rfl⟩ : ∃ r, a = .clearError r := ha.runs hi
      exact ⟨0, by omega, l.speed, r, [], rfl, rfl⟩
    · rcases hbehind hi with ⟨-, hc⟩ | ⟨hhead, -⟩
      · exact hc
      · rw [hhead] at hh
        cases hh
  · intro hh
    rcases hbehind (hcalc hh) with ⟨hhead, -⟩ | ⟨-, hc⟩
    · rw [hhead] at hh
      cases hh
    · exact hc

/-- **Behind the loop, every run of the program has added up eight samples** as `exact_iff` says. -/
theorem sampled_of_reachable {handled : Bool} {s : Sys} (h : (system handled).Reachable s) :
    ∀ l, s.part .speed = .running l → Sampled l :=
  local_inv Sampled.start (fun _ _ _ _ hl hpt hk ha => hl.move hpt hk ha) h

end Vehicle.Recovery
