import Vehicle.Numeric.Mean
import Vehicle.Recovery.Driver

/-!
# recovery: the frequency of the PWM chip

`pca9685PWMFreq` and `pca9685Setup`. The prescaler is the one whose cycle comes closest to the
frequency asked for, within the limits the driver sets, up to what `float` makes of the quotient.
The chip is awake behind it.
-/

namespace Vehicle.Recovery.Pca9685

open Vehicle.Numeric

variable {σ : Type} {B : Bus σ}

/-! ### The frequency -/

/-- What is asked for, capped. -/
def capped (freq : ℚ) : ℚ := if freq > 1000 then 1000 else if freq < 40 then 40 else freq

/-- The milliseconds of a cycle of 4096 ticks of the oscillator of 25 MHz, with a prescaler. -/
def cycleMs (v : BitVec 8) : ℚ := 4096 * (v.toNat + 1) / 25000

theorem capped_mem (freq : ℚ) : 40 ≤ capped freq ∧ capped freq ≤ 1000 := by
  unfold capped
  split
  · norm_num
  · split
    · norm_num
    · constructor <;> linarith

/-- The clocks of the oscillator for a tick, at a frequency. -/
def clocks (freq : ℚ) : ℚ := 25000000 / (4096 * freq)

theorem clocks_mem {freq : ℚ} (h : 40 ≤ freq ∧ freq ≤ 1000) :
    6 ≤ clocks freq ∧ clocks freq ≤ 153 := by
  unfold clocks
  constructor
  · rw [le_div_iff₀ (by linarith)]
    linarith
  · rw [div_le_iff₀ (by linarith)]
    linarith

/-- The value for the prescaler before its fraction is dropped. -/
def quotient (freq : ℚ) : ℚ := single (single (25000000 / single (4096 * capped freq)) - 0.5)

theorem abs_single_sub_le (x : ℚ) : |single x - x| ≤ |x| / 2 ^ 24 := abs_roundBits_sub_le 24 x

/-- The quotient of the rounded product, not yet rounded itself. -/
theorem abs_div_single_sub_le {freq : ℚ} (h : 40 ≤ freq ∧ freq ≤ 1000) :
    |25000000 / single (4096 * freq) - clocks freq| ≤ 1 / 100000 := by
  obtain ⟨hlo, hhi⟩ := clocks_mem h
  have hpos : 0 < 4096 * freq := by linarith
  have hproduct := abs_single_sub_le (4096 * freq)
  rw [abs_of_pos hpos] at hproduct
  have hzero : |(25000000 : ℚ) - 25000000| ≤ 0 := by simp
  have hclocks : |clocks freq| * (4096 * freq / 2 ^ 24) ≤ 153 * (4096 * freq / 2 ^ 24) := by
    rw [abs_of_nonneg (by linarith)]
    gcongr
  refine (abs_div_sub_div_le hzero hproduct (by linarith)).trans ?_
  rw [zero_add, div_le_iff₀ (by linarith)]
  refine hclocks.trans ?_
  linarith

/-- **What `float` makes of the quotient.** -/
theorem abs_quotient_sub_le (freq : ℚ) :
    |quotient freq + 0.5 - clocks (capped freq)| ≤ 3 / 100000 := by
  obtain ⟨hlo, hhi⟩ := clocks_mem (capped_mem freq)
  have h1 := abs_le.mp (abs_div_single_sub_le (capped_mem freq))
  unfold quotient
  set x := 25000000 / single (4096 * capped freq)
  have h2 : |single x - x| ≤ 1 / 100000 := by
    refine (abs_single_sub_le x).trans ?_
    rw [abs_of_nonneg (by linarith)]
    linarith
  have h3 : |single (single x - 0.5) - (single x - 0.5)| ≤ 1 / 100000 := by
    refine (abs_single_sub_le _).trans ?_
    rw [abs_of_nonneg (by linarith [abs_le.mp h2])]
    linarith [abs_le.mp h2]
  rw [abs_le]
  constructor <;> linarith [abs_le.mp h2, abs_le.mp h3]

/-- Dropping the fraction rounds, as the formula of the data sheet has it. -/
theorem truncate_quotient (freq : ℚ) :
    truncate (quotient freq) = round (quotient freq + 0.5) - 1 := by
  have hlo := (clocks_mem (capped_mem freq)).1
  have hoff := abs_le.mp (abs_quotient_sub_le freq)
  rw [truncate_eq_floor (by linarith), round_eq, ← Int.floor_sub_one]
  congr 1
  ring

section Setup

variable {s : σ}

/-- What is written to the other registers does not reach the channels. -/
theorem channel_writeSetup (hB : B.Lawful) {a : ℤ} (ha : a = mode1 ∨ a = prescale) (v : BitVec 8)
    {c : ℕ} (hc : c < 16) : channel B (B.writeReg8 s a v) c = channel B s c := by
  have hread : ∀ k < 4, B.readReg8 (B.writeReg8 s a v) (led c k) = B.readReg8 s (led c k) := by
    intro k hk
    unfold mode1 prescale at ha
    rw [hB.led_write s a v c k (by omega) (by omega) hc hk, if_neg]
    unfold led ledAll led0OnL ledallOnL
    omega
  unfold channel half
  rw [hread 0 (by omega), hread 1 (by omega), hread 2 (by omega), hread 3 (by omega)]

/-- The bits `pca9685PWMFreq` writes: asleep, awake again, and the auto-increment as it was. -/
theorem settings_bits (m : BitVec 8) :
    ((m &&& 0x7F) ||| 0x10).getLsbD 4 = true ∧
      (((m &&& 0x7F) &&& 0xEF) ||| 0x80).getLsbD 4 = false ∧
      (((m &&& 0x7F) &&& 0xEF) ||| 0x80).getLsbD 5 = m.getLsbD 5 := by
  refine ⟨by simp, by simp, by simp⟩

/-- The value for the prescaler fits its register. -/
theorem toNat_prescale (freq : ℚ) :
    ((BitVec.ofInt 8 (truncate (quotient freq))).toNat : ℤ) = round (quotient freq + 0.5) - 1 ∧
      6 ≤ round (quotient freq + 0.5) := by
  obtain ⟨hlo, hhi⟩ := clocks_mem (capped_mem freq)
  have hoff := abs_le.mp (abs_quotient_sub_le freq)
  have h6 : 6 ≤ round (quotient freq + 0.5) := by
    rw [round_eq, Int.le_floor]
    push_cast
    linarith
  have h154 : round (quotient freq + 0.5) < 154 := by
    rw [round_eq, Int.floor_lt]
    push_cast
    linarith
  rw [truncate_quotient, BitVec.toNat_ofInt]
  refine ⟨?_, h6⟩
  rw [Int.emod_eq_of_lt (by omega) (by omega)]
  exact Int.toNat_of_nonneg (by omega)

/-- **What `pca9685PWMFreq` does**: the prescaler is set, since the chip sleeps while it is written,
and the chip is awake again. -/
theorem pwmFreq_spec (hB : B.Lawful) (s : σ) (freq : ℚ) :
    ((B.readReg8 (pca9685PWMFreq B s freq) prescale).toNat : ℤ) =
      round (quotient freq + 0.5) - 1 ∧
    ¬ B.Asleep (pca9685PWMFreq B s freq) ∧
    (B.AutoIncrement (pca9685PWMFreq B s freq) ↔ B.AutoIncrement s) ∧
    ∀ c < 16, channel B (pca9685PWMFreq B s freq) c = channel B s c := by
  obtain ⟨hsleep, hwake, hinc⟩ := settings_bits (B.readReg8 s mode1)
  obtain ⟨hvalue, h6⟩ := toNat_prescale freq
  set settings := B.readReg8 s mode1 &&& 0x7F with hsettings
  set pre := BitVec.ofInt 8 (truncate (quotient freq)) with hpre
  -- the four writes, one after the other
  set s1 := B.writeReg8 s mode1 (settings ||| 0x10) with hs1
  set s2 := B.writeReg8 s1 prescale pre with hs2
  set s3 := B.writeReg8 s2 mode1 (settings &&& 0xEF) with hs3
  have hresult : pca9685PWMFreq B s freq =
      B.writeReg8 s3 mode1 ((settings &&& 0xEF) ||| 0x80) := rfl
  have hasleep : B.Asleep s1 := (hB.mode1_write s _ 4 (Or.inl rfl)).trans hsleep
  have hmode : (0 : ℤ) ≤ mode1 ∧ mode1 < 256 ∧ mode1 ≠ prescale := by decide
  rw [hresult]
  refine ⟨?_, ?_, ?_, fun c hc => ?_⟩
  · rw [hB.prescale_other s3 mode1 _ hmode.1 hmode.2.1 hmode.2.2, hs3,
      hB.prescale_other s2 mode1 _ hmode.1 hmode.2.1 hmode.2.2, hs2,
      hB.prescale_write s1 pre hasleep (by omega)]
    exact hvalue
  · unfold Bus.Asleep
    rw [hB.mode1_write s3 _ 4 (Or.inl rfl), hwake]
    simp
  · unfold Bus.AutoIncrement
    rw [hB.mode1_write s3 _ 5 (Or.inr rfl), hinc]
  · rw [channel_writeSetup hB (Or.inl rfl) _ hc, hs3, channel_writeSetup hB (Or.inl rfl) _ hc, hs2,
      channel_writeSetup hB (Or.inr rfl) _ hc, hs1, channel_writeSetup hB (Or.inl rfl) _ hc]

/-- How far the cycle is off, in clocks for each tick. -/
theorem cycleMs_sub (freq : ℚ) (v : BitVec 8) :
    |cycleMs v - 1000 / capped freq| =
      4096 / 25000 * |clocks (capped freq) - (v.toNat + 1 : ℤ)| := by
  have hpos : 0 < capped freq := lt_of_lt_of_le (by norm_num) (capped_mem freq).1
  have hsub : cycleMs v - 1000 / capped freq =
      -(4096 / 25000 * (clocks (capped freq) - (v.toNat + 1 : ℤ))) := by
    unfold cycleMs clocks
    push_cast
    field_simp
    ring
  rw [hsub, abs_neg, abs_mul, abs_of_pos (by norm_num : (0 : ℚ) < 4096 / 25000)]

/-- No other value brings the cycle closer by more than `float` is off. -/
theorem pwmFreq_near (hB : B.Lawful) (s : σ) (freq : ℚ) (v : BitVec 8) :
    |cycleMs (B.readReg8 (pca9685PWMFreq B s freq) prescale) - 1000 / capped freq| ≤
      |cycleMs v - 1000 / capped freq| + 1 / 100000 := by
  rw [cycleMs_sub, cycleMs_sub, (pwmFreq_spec hB s freq).1, sub_add_cancel]
  have hnear := abs_sub_round_le (abs_quotient_sub_le freq) (v.toNat + 1)
  linarith

/-- A quotient between two values, so that `float` decides which of them is taken. -/
def Between (freq : ℚ) : Prop := ∃ k : ℤ, |clocks (capped freq) - (k + 1 / 2)| ≤ 3 / 100000

/-- Elsewhere none does. -/
theorem pwmFreq_best (hB : B.Lawful) (s : σ) {freq : ℚ} (h : ¬ Between freq) (v : BitVec 8) :
    |cycleMs (B.readReg8 (pca9685PWMFreq B s freq) prescale) - 1000 / capped freq| ≤
      |cycleMs v - 1000 / capped freq| := by
  have hfar : ∀ k : ℤ, 3 / 100000 < |clocks (capped freq) - (k + 1 / 2)| := fun k =>
    lt_of_not_ge fun hk => h ⟨k, hk⟩
  rw [cycleMs_sub, cycleMs_sub, (pwmFreq_spec hB s freq).1, sub_add_cancel,
    round_eq_round (abs_quotient_sub_le freq) hfar]
  exact mul_le_mul_of_nonneg_left (round_le _ _) (by norm_num)

/-- The chip with the auto-increment turned on, as the setup does it first. -/
def turnOnIncrement (B : Bus σ) (s : σ) : σ :=
  B.writeReg8 s mode1 ((B.readReg8 s mode1 &&& 0x7F) ||| 0x20)

theorem turnOnIncrement_spec (hB : B.Lawful) (s : σ) :
    B.AutoIncrement (turnOnIncrement B s) ∧
      ∀ c < 16, channel B (turnOnIncrement B s) c = channel B s c :=
  ⟨(hB.mode1_write s _ 5 (Or.inr rfl)).trans (by simp),
    fun _ hc => channel_writeSetup hB (Or.inl rfl) _ hc⟩

/-- The setup where it succeeds. -/
theorem setup_eq {fd : ℤ} (hfd : 0 ≤ fd) (s : σ) (freq : ℚ) :
    pca9685Setup B true fd s freq =
      (fd, if freq > 0 then pca9685PWMFreq B (turnOnIncrement B s) freq
        else turnOnIncrement B s) := by
  unfold pca9685Setup
  rw [if_neg (by simp), if_neg (not_lt.mpr hfd)]
  rfl

/-- **The setup**: it fails with the code of what failed, and leaves the chip alone then; otherwise
the words go to two registers, the channels are as before, and with a frequency asked for the chip
is awake. No prescaler has a cycle that is closer to it by more than 10 ns, and none has one that is
closer at all where the quotient is not between two of them. -/
theorem pca9685Setup_spec (hB : B.Lawful) (node : Bool) (fd : ℤ) (s : σ) (freq : ℚ) :
    (pca9685Setup B node fd s freq).1 = (if node then fd else -1) ∧
    ((pca9685Setup B node fd s freq).1 < 0 → (pca9685Setup B node fd s freq).2 = s) ∧
    (0 ≤ (pca9685Setup B node fd s freq).1 →
      B.AutoIncrement (pca9685Setup B node fd s freq).2 ∧
      (∀ c < 16, channel B (pca9685Setup B node fd s freq).2 c = channel B s c) ∧
      (0 < freq → ¬ B.Asleep (pca9685Setup B node fd s freq).2 ∧
        (∀ v, |cycleMs (B.readReg8 (pca9685Setup B node fd s freq).2 prescale) -
          1000 / capped freq| ≤ |cycleMs v - 1000 / capped freq| + 1 / 100000) ∧
        (¬ Between freq → ∀ v, |cycleMs (B.readReg8 (pca9685Setup B node fd s freq).2 prescale) -
          1000 / capped freq| ≤ |cycleMs v - 1000 / capped freq|))) := by
  by_cases hnode : node = true
  · subst hnode
    by_cases hfd : 0 ≤ fd
    · obtain ⟨hinc, hsame⟩ := turnOnIncrement_spec hB s
      rw [setup_eq hfd]
      refine ⟨rfl, fun h => absurd hfd (not_le.mpr h), fun _ => ?_⟩
      by_cases hfreq : freq > 0
      · obtain ⟨-, hawake, hkeep, hchannel⟩ := pwmFreq_spec hB (turnOnIncrement B s) freq
        rw [if_pos hfreq]
        exact ⟨hkeep.mpr hinc, fun c hc => (hchannel c hc).trans (hsame c hc),
          fun _ => ⟨hawake, pwmFreq_near hB _ freq, fun h => pwmFreq_best hB _ h⟩⟩
      · rw [if_neg hfreq]
        exact ⟨hinc, hsame, fun h => absurd h hfreq⟩
    · unfold pca9685Setup
      rw [if_neg (by simp), if_pos (not_le.mp hfd)]
      exact ⟨rfl, fun _ => rfl, fun h => absurd h hfd⟩
  · unfold pca9685Setup
    rw [if_pos hnode]
    exact ⟨by simp [hnode], fun _ => rfl, fun h => absurd h (by norm_num)⟩

/-- A chip fresh from power-on, at 60 Hz. -/
theorem pca9685Setup_powerOn :
    Chip.bus.AutoIncrement (pca9685Setup Chip.bus true 3 Chip.powerOn 60).2 ∧
      ∀ v, |cycleMs (Chip.bus.readReg8 (pca9685Setup Chip.bus true 3 Chip.powerOn 60).2 prescale) -
        1000 / capped 60| ≤ |cycleMs v - 1000 / capped 60| := by
  obtain ⟨-, -, hok⟩ := pca9685Setup_spec Chip.bus_lawful true 3 Chip.powerOn 60
  have hret : (0 : ℤ) ≤ (pca9685Setup Chip.bus true 3 Chip.powerOn 60).1 := by
    rw [setup_eq (by norm_num)]
    norm_num
  have hbetween : ¬ Between 60 := by
    rintro ⟨k, hk⟩
    -- the quotient is between 101.7 and 101.8
    have hclocks : clocks (capped 60) = 390625 / 3840 := by norm_num [capped, clocks]
    rw [hclocks, abs_le] at hk
    have h1 : (101 : ℚ) < k := by linarith
    have h2 : (k : ℚ) < 102 := by linarith
    norm_cast at h1 h2
    omega
  obtain ⟨hinc, -, hbest⟩ := hok hret
  exact ⟨hinc, (hbest (by norm_num)).2.2 hbetween⟩

end Setup

end Vehicle.Recovery.Pca9685
