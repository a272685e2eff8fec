import Vehicle.Numeric.Ramp
import Vehicle.Recovery.Actuator

/-!
# recovery: the controller at a steady measurement

`getOutput` computed again and again for one measured value and one setpoint, by a controller with
the limits 0 and `hi`. An output that is not inside of its limits makes the sum of the errors start
again, so below the setpoint the outputs go round (`exists_sawtooth`) instead of coming to rest, and
above it they end at 0 (`exists_closed`).
-/

namespace Vehicle.Recovery.MiniPID

open Vehicle.Numeric

/-- The members that `getOutput` reads and does not change, for the limits 0 and `hi`. -/
structure Integrating (p i hi : ℚ) (pid : MiniPID) : Prop where
  P : pid.P = p
  I : pid.I = i
  F : pid.F = 0
  maxIOutput : pid.maxIOutput = hi
  maxError : pid.maxError = hi / i
  minOutput : pid.minOutput = 0
  maxOutput : pid.maxOutput = hi
  outputRampRate : pid.outputRampRate = 0
  outputFilter : pid.outputFilter = 0
  setpointRange : pid.setpointRange = 0

variable {p i d hi actual setpoint : ℚ} {pid : MiniPID}

theorem Integrating.new (hhi : 0 < hi) (hI : i ≠ 0) :
    ((MiniPID.new p i d).setOutputLimits 0 hi).Integrating p i hi := by
  have hset : (MiniPID.new p i d).setOutputLimits 0 hi =
      { MiniPID.new p i d with
        maxOutput := hi, minOutput := 0, maxIOutput := hi, maxError := hi / i } := by
    unfold setOutputLimits setMaxIOutput
    rw [if_neg hhi.not_gt]
    dsimp only
    rw [if_pos (.inl rfl), sub_zero]
    simp [MiniPID.new, hI]
  rw [hset]
  exact ⟨rfl, rfl, rfl, rfl, rfl, rfl, rfl, rfl, rfl, rfl⟩

theorem Integrating.getOutput (h : pid.Integrating p i hi) (actual setpoint : ℚ) :
    (pid.getOutput actual setpoint).2.Integrating p i hi :=
  ⟨h.P, h.I, h.F, h.maxIOutput, h.maxError, h.minOutput, h.maxOutput, h.outputRampRate,
    h.outputFilter, h.setpointRange⟩

/-- The output of such a controller before it is restricted. -/
def unrestricted (pid : MiniPID) (actual setpoint : ℚ) : ℚ :=
  pid.P * (setpoint - actual) + clamp (pid.I * pid.errorSum) (-pid.maxIOutput) pid.maxIOutput +
    -pid.D * (actual - if pid.firstRun = true then actual else pid.lastActual)

/-- **What such a controller computes.** -/
theorem Integrating.getOutput_eq (h : pid.Integrating p i hi) (hhi : 0 < hi) (actual setpoint : ℚ) :
    (pid.getOutput actual setpoint).1 = clamp (pid.unrestricted actual setpoint) 0 hi ∧
      (pid.getOutput actual setpoint).2.errorSum =
        if 0 < pid.unrestricted actual setpoint ∧ pid.unrestricted actual setpoint < hi
        then clamp (pid.errorSum + (setpoint - actual)) (-(hi / i)) (hi / i)
        else setpoint - actual := by
  have hne : ∀ x : ℚ, bounded x 0 hi = false ↔ ¬ (0 < x ∧ x < hi) := by
    intro x
    simp [bounded]
  unfold MiniPID.getOutput unrestricted
  simp only [h.F, h.maxIOutput, h.maxError, h.minOutput, h.maxOutput, h.outputRampRate,
    h.outputFilter, h.setpointRange, ne_eq, hhi.ne', hhi.ne, not_true_eq_false, not_false_eq_true,
    if_true, if_false, false_and, true_and, zero_mul, zero_add, hne, ite_not]

theorem clamp_of_le {x lo hi : ℚ} (h : lo ≤ x) : clamp x lo hi = min x hi := by
  unfold clamp
  split
  · rename_i hgt
    exact (min_eq_right (le_of_lt hgt)).symm
  · rename_i hle
    rw [if_neg h.not_gt]
    exact (min_eq_left (not_lt.mp hle)).symm

theorem clamp_nonpos {x hi : ℚ} (hhi : 0 ≤ hi) (h : x ≤ 0) : clamp x 0 hi = 0 := by
  unfold clamp
  rw [if_neg (by linarith)]
  split
  · rfl
  · linarith

/-! ### Settled controllers -/

/-- The controller has measured `actual` before. -/
structure Settled (i hi actual setpoint : ℚ) (pid : MiniPID) : Prop where
  firstRun : pid.firstRun = false
  lastActual : pid.lastActual = actual
  errorSum : pid.errorSum = setpoint - actual ∨ -(hi / i) ≤ pid.errorSum ∧ pid.errorSum ≤ hi / i

theorem Integrating.settled (h : pid.Integrating p i hi) (hhi : 0 < hi) (hI : 0 < i)
    (actual setpoint : ℚ) : (pid.getOutput actual setpoint).2.Settled i hi actual setpoint := by
  have hpos := div_pos hhi hI
  refine ⟨rfl, rfl, ?_⟩
  rw [(h.getOutput_eq hhi actual setpoint).2]
  split
  · exact .inr (clamp_mem (by linarith))
  · exact .inl rfl

/-- The members while outputs are computed for the same arguments. -/
structure Repeating (p i hi actual setpoint : ℚ) (pid : MiniPID) : Prop where
  members : pid.Integrating p i hi
  settled : pid.Settled i hi actual setpoint

theorem Repeating.next (h : pid.Repeating p i hi actual setpoint) (hhi : 0 < hi) (hI : 0 < i) :
    (pid.getOutput actual setpoint).2.Repeating p i hi actual setpoint :=
  ⟨h.members.getOutput actual setpoint, h.members.settled hhi hI actual setpoint⟩

theorem Repeating.unrestricted_eq (h : pid.Repeating p i hi actual setpoint) :
    pid.unrestricted actual setpoint =
      p * (setpoint - actual) + clamp (i * pid.errorSum) (-hi) hi := by
  rw [unrestricted, h.members.P, h.members.I, h.members.maxIOutput, h.settled.firstRun,
    h.settled.lastActual, if_neg Bool.false_ne_true, sub_self, mul_zero, add_zero]

/-! ### Below the setpoint -/

/-- The sum of errors at which the output reaches the limit. -/
def fullSum (p i hi error : ℚ) : ℚ := (hi - p * error) / i

/-- The output when the sum is `j` errors. -/
def level (p i hi error : ℚ) (j : ℕ) : ℚ := min hi ((p + i * j) * error)

section Below

theorem Repeating.neg_le (h : pid.Repeating p i hi actual setpoint) (hhi : 0 < hi) (hI : 0 < i)
    (hlt : actual < setpoint) : -(hi / i) ≤ pid.errorSum := by
  have hpos := div_pos hhi hI
  rcases h.settled.errorSum with he | ⟨he, -⟩
  · rw [he]
    linarith
  · exact he

theorem Repeating.unrestricted_below (h : pid.Repeating p i hi actual setpoint) (hhi : 0 < hi)
    (hI : 0 < i) (hlt : actual < setpoint) : pid.unrestricted actual setpoint =
      p * (setpoint - actual) + min (i * pid.errorSum) hi := by
  have hneg := h.neg_le hhi hI hlt
  rw [← neg_div, div_le_iff₀' hI] at hneg
  rw [h.unrestricted_eq, clamp_of_le hneg]

/-- The sum of the errors goes round. -/
theorem Repeating.refills (h : pid.Repeating p i hi actual setpoint) (hhi : 0 < hi) (hI : 0 < i)
    (hp : 0 ≤ p) (hlt : actual < setpoint) :
    Refills (setpoint - actual) (fullSum p i hi (setpoint - actual)) pid.errorSum
      (pid.getOutput actual setpoint).2.errorSum := by
  have hu := h.unrestricted_below hhi hI hlt
  have hsum := (h.members.getOutput_eq hhi actual setpoint).2
  have hneg := h.neg_le hhi hI hlt
  have he : 0 < setpoint - actual := sub_pos.mpr hlt
  generalize setpoint - actual = e at *
  have hpe : 0 ≤ p * e := mul_nonneg hp he.le
  rw [hsum, fullSum]
  constructor
  · intro hfull
    rw [div_le_iff₀' hI] at hfull
    have hle : hi - p * e ≤ min (i * pid.errorSum) hi := le_min hfull (by linarith)
    rw [if_neg]
    rintro ⟨-, h2⟩
    linarith
  · intro hnot
    rw [lt_div_iff₀' hI] at hnot
    rw [min_eq_left (by linarith)] at hu
    split
    · -- the sum grows, up to its own limit
      rw [clamp_of_le (by linarith)]
      rcases le_total (pid.errorSum + e) (hi / i) with hle | hge
      · exact .inl (min_eq_left hle)
      · rw [min_eq_right hge]
        exact .inr (.inl ⟨div_le_div_of_nonneg_right (by linarith) hI.le, hge⟩)
    · -- the output is not positive
      rename_i hout
      refine .inr (.inr ⟨?_, rfl⟩)
      by_contra hpos
      have := mul_pos hI (not_le.mp hpos)
      exact hout ⟨by linarith, by linarith⟩

/-- The output at a stage. -/
theorem Repeating.output_stage (h : pid.Repeating p i hi actual setpoint) (hhi : 0 < hi)
    (hI : 0 < i) (hp : 0 ≤ p) (hlt : actual < setpoint) {j : ℕ}
    (hj : Stage (setpoint - actual) (fullSum p i hi (setpoint - actual)) j pid.errorSum) :
    (pid.getOutput actual setpoint).1 = level p i hi (setpoint - actual) j := by
  have hu := h.unrestricted_below hhi hI hlt
  have hout := (h.members.getOutput_eq hhi actual setpoint).1
  have he : 0 < setpoint - actual := sub_pos.mpr hlt
  generalize setpoint - actual = e at *
  have hpe : 0 ≤ p * e := mul_nonneg hp he.le
  have hlevel : (p + i * j) * e = p * e + i * (j * e) := by ring
  rw [hout, hu, level, hlevel]
  by_cases hfull : fullSum p i hi e ≤ pid.errorSum
  · -- the last stage
    have hmul := (le_mul_iff_teeth_le he hj.pos).mpr ((hj.full_iff he).mp hfull).ge
    rw [fullSum, div_le_iff₀' hI] at hfull hmul
    have hle : hi - p * e ≤ min (i * pid.errorSum) hi := le_min hfull (by linarith)
    rw [clamp_of_le (by linarith), min_eq_right (by linarith), min_eq_left (by linarith)]
  · have hsum : pid.errorSum = j * e := hj.eq.resolve_right fun hlast => hfull hlast.2
    have hpos : 0 < i * (j * e) :=
      mul_pos hI (mul_pos (Nat.cast_pos.mpr hj.pos) he)
    rw [fullSum, div_le_iff₀' hI, hsum, not_le] at hfull
    rw [hsum, min_eq_left (by linarith), clamp_of_le (by linarith), min_comm]

end Below

/-! ### Above the setpoint -/

section Above

/-- Where the sum of the errors is not positive the output is 0, and the sum stays so. -/
theorem Repeating.closed (h : pid.Repeating p i hi actual setpoint) (hhi : 0 < hi) (hI : 0 < i)
    (hp : 0 ≤ p) (hlt : setpoint < actual) (hS : pid.errorSum ≤ 0) :
    (pid.getOutput actual setpoint).1 = 0 ∧ (pid.getOutput actual setpoint).2.errorSum ≤ 0 := by
  have hpe : p * (setpoint - actual) ≤ 0 :=
    mul_nonpos_of_nonneg_of_nonpos hp (by linarith)
  have hiS : i * pid.errorSum ≤ 0 := mul_nonpos_of_nonneg_of_nonpos hI.le hS
  have hclamp : clamp (i * pid.errorSum) (-hi) hi ≤ 0 := by
    unfold clamp
    rw [if_neg (by linarith)]
    split <;> linarith
  have hu : pid.unrestricted actual setpoint ≤ 0 := by
    rw [h.unrestricted_eq]
    linarith
  obtain ⟨hout, hsum⟩ := h.members.getOutput_eq hhi actual setpoint
  rw [hout, hsum, if_neg fun hin => absurd hin.1 hu.not_gt]
  exact ⟨clamp_nonpos hhi.le hu, by linarith⟩

/-- Otherwise the sum loses the error. -/
theorem Repeating.descends (h : pid.Repeating p i hi actual setpoint) (hhi : 0 < hi) (hI : 0 < i)
    (hlt : setpoint < actual) (hS : 0 < pid.errorSum) :
    (pid.getOutput actual setpoint).2.errorSum ≤ max 0 (pid.errorSum + (setpoint - actual)) := by
  have hpos := div_pos hhi hI
  have hle : pid.errorSum ≤ hi / i := by
    rcases h.settled.errorSum with he | ⟨-, he⟩
    · linarith
    · exact he
  rw [(h.members.getOutput_eq hhi actual setpoint).2]
  split
  · unfold clamp
    rw [if_neg (by linarith)]
    split
    · exact le_max_of_le_left (by linarith)
    · exact le_max_right _ _
  · exact le_max_of_le_left (by linarith)

end Above

/-! ### The outputs -/

/-- The controller behind `n` outputs for the same arguments. -/
def again (actual setpoint : ℚ) (n : ℕ) (pid : MiniPID) : MiniPID :=
  (fun pid => (pid.getOutput actual setpoint).2)^[n] pid

/-- Output `n` of them. -/
def outputAgain (actual setpoint : ℚ) (pid : MiniPID) (n : ℕ) : ℚ :=
  ((pid.again actual setpoint n).getOutput actual setpoint).1

theorem again_succ (actual setpoint : ℚ) (n : ℕ) (pid : MiniPID) :
    pid.again actual setpoint (n + 1) =
      ((pid.again actual setpoint n).getOutput actual setpoint).2 :=
  Function.iterate_succ_apply' _ _ _

theorem Integrating.again (h : pid.Integrating p i hi) (hhi : 0 < hi) (hI : 0 < i) (n : ℕ) :
    (pid.again actual setpoint (n + 1)).Repeating p i hi actual setpoint := by
  induction n with
  | zero => exact ⟨h.getOutput actual setpoint, h.settled hhi hI actual setpoint⟩
  | succ n ih =>
    rw [again_succ]
    exact ih.next hhi hI

/-- **Below the setpoint the outputs never come to rest**: after a while they go through the same
levels again and again, from that of a single error up to the limit. -/
theorem exists_sawtooth (h : pid.Integrating p i hi) (hhi : 0 < hi) (hI : 0 < i) (hp : 0 ≤ p)
    (hlt : actual < setpoint) : ∃ k ≤ ⌈2 * hi / (i * (setpoint - actual))⌉₊ + 1, ∀ n,
      pid.outputAgain actual setpoint (k + n) = level p i hi (setpoint - actual)
        (tooth (teeth (setpoint - actual) (fullSum p i hi (setpoint - actual))) n) := by
  have he : 0 < setpoint - actual := sub_pos.mpr hlt
  have hrep : ∀ n, (pid.again actual setpoint (n + 1)).Repeating p i hi actual setpoint :=
    h.again hhi hI
  obtain ⟨k, hk, hstages⟩ := exists_stages
    (x := fun n => (pid.again actual setpoint (n + 1)).errorSum) he fun n => by
      rw [again_succ _ _ (n + 1)]
      exact (hrep n).refills hhi hI hp hlt
  refine ⟨k + 1, Nat.add_le_add_right (hk.trans (Nat.ceil_mono ?_)) 1, fun n => ?_⟩
  · have hneg := (hrep 0).neg_le hhi hI hlt
    have hpe : 0 ≤ p * (setpoint - actual) := mul_nonneg hp he.le
    have hfull : fullSum p i hi (setpoint - actual) ≤ hi / i :=
      div_le_div_of_nonneg_right (by linarith) hI.le
    rw [← div_div, mul_div_assoc]
    exact div_le_div_of_nonneg_right (by linarith) he.le
  · rw [show k + 1 + n = k + n + 1 by omega]
    exact (hrep (k + n)).output_stage hhi hI hp hlt (hstages n)

/-- **Above the setpoint they end at 0.** -/
theorem exists_closed (h : pid.Integrating p i hi) (hhi : 0 < hi) (hI : 0 < i) (hp : 0 ≤ p)
    (hlt : setpoint < actual) : ∀ n, ⌈hi / (i * (actual - setpoint))⌉₊ + 1 ≤ n →
      pid.outputAgain actual setpoint n = 0 := by
  have hrep : ∀ n, (pid.again actual setpoint (n + 1)).Repeating p i hi actual setpoint :=
    h.again hhi hI
  have hsum : ∀ n : ℕ, (pid.again actual setpoint (n + 1)).errorSum ≤
      max 0 (hi / i - n * (actual - setpoint)) := by
    intro n
    induction n with
    | zero =>
      rcases (hrep 0).settled.errorSum with he | ⟨-, he⟩
      · exact le_max_of_le_left (by linarith)
      · exact le_max_of_le_right (by simpa using he)
    | succ n ih =>
      rw [again_succ]
      rcases le_or_gt (pid.again actual setpoint (n + 1)).errorSum 0 with hneg | hpos
      · exact le_max_of_le_left ((hrep n).closed hhi hI hp hlt hneg).2
      · refine ((hrep n).descends hhi hI hlt hpos).trans (max_le_max le_rfl ?_)
        have := (le_max_iff.mp ih).resolve_left hpos.not_ge
        push_cast
        linarith
  intro n hn
  obtain ⟨n, rfl⟩ := Nat.exists_eq_add_of_le' ((Nat.le_add_left 1 _).trans hn)
  have hle : hi / i - n * (actual - setpoint) ≤ 0 := by
    have hceil := (Nat.le_ceil (hi / (i * (actual - setpoint)))).trans
      (Nat.cast_le.mpr (Nat.le_of_add_le_add_right hn))
    rw [← div_div, div_le_iff₀ (sub_pos.mpr hlt)] at hceil
    linarith
  exact ((hrep n).closed hhi hI hp hlt ((hsum n).trans (max_le le_rfl hle))).1

/-- At the setpoint the sum of the errors stays, or is 0. -/
theorem Repeating.errorSum_at (h : pid.Repeating p i hi actual actual) (hhi : 0 < hi)
    (hI : 0 < i) :
    (pid.getOutput actual actual).2.errorSum =
      if 0 < clamp (i * pid.errorSum) (-hi) hi ∧ clamp (i * pid.errorSum) (-hi) hi < hi
      then pid.errorSum else 0 := by
  have hpos := div_pos hhi hI
  have hbounds : -(hi / i) ≤ pid.errorSum ∧ pid.errorSum ≤ hi / i := by
    rcases h.settled.errorSum with he | he
    · constructor <;> linarith
    · exact he
  rw [(h.members.getOutput_eq hhi actual actual).2, h.unrestricted_eq, sub_self, mul_zero, zero_add,
    add_zero, clamp_of_le hbounds.1, min_eq_left hbounds.2]

/-- **At the setpoint** the third output is the last new one. -/
theorem outputAgain_at (h : pid.Integrating p i hi) (hhi : 0 < hi) (hI : 0 < i) (n : ℕ) :
    pid.outputAgain actual actual (n + 2) = pid.outputAgain actual actual 2 := by
  have hrep : ∀ n, (pid.again actual actual (n + 1)).Repeating p i hi actual actual :=
    h.again hhi hI
  have hout : ∀ n, pid.outputAgain actual actual (n + 1) =
      clamp (clamp (i * (pid.again actual actual (n + 1)).errorSum) (-hi) hi) 0 hi := by
    intro n
    rw [outputAgain, ((hrep n).members.getOutput_eq hhi actual actual).1, (hrep n).unrestricted_eq,
      sub_self, mul_zero, zero_add]
  have hsum : ∀ n, (pid.again actual actual (n + 2)).errorSum =
      (pid.again actual actual 2).errorSum := by
    intro n
    induction n with
    | zero => rfl
    | succ n ih =>
      rw [again_succ, (hrep (n + 1)).errorSum_at hhi hI, ih]
      have h1 := (hrep 0).errorSum_at hhi hI
      rw [← again_succ] at h1
      by_cases hin : 0 < clamp (i * (pid.again actual actual 1).errorSum) (-hi) hi ∧
          clamp (i * (pid.again actual actual 1).errorSum) (-hi) hi < hi
      · rw [if_pos hin] at h1
        rw [h1, if_pos hin]
      · rw [if_neg hin] at h1
        rw [h1, ite_self]
  rw [hout, hsum, ← hout]

end Vehicle.Recovery.MiniPID
