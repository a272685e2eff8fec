import Mathlib.Algebra.Order.Field.Basic
import Mathlib.Tactic.GCongr
import Mathlib.Tactic.Ring
import Vehicle.Recovery.Sensor

/-!
# recovery: how accurate the speed is

From the words of the sensor to the speed stored. `As5048a::Read` keeps nine of the fourteen bits of
the angle (`read_eq`), so what `Speed::Run` sees is the wheel moved from one block of 32 positions
to another; the correction for the passing of the zero position is off by one. Each of the eight
samples so adds an error of at most 32 positions (`Observation.abs_unwrap_add_le`), whatever the
rejected samples between them are, and a wheel that stays in its blocks has speed zero
(`speed_accuracy`).

`char` is taken as unsigned, as it is on the processors `bcm2835.c` is written for.
-/

namespace Vehicle.Recovery

/-! ### What a read keeps of the angle -/

/-- The angle in a response, bits 0 to 13. -/
def angle (w : BitVec 16) : ℤ := (w.setWidth 14).toNat

theorem angle_eq (w : BitVec 16) : angle w = w.toNat % 16384 := by
  simp [angle, BitVec.toNat_setWidth]

namespace As5048a

theorem value_unsigned (w : BitVec 16) : value false w = w.setWidth 32 := by
  unfold value promote
  ext i hi
  simp only [Bool.false_eq_true, if_false, BitVec.getElem_or, BitVec.getElem_shiftLeft,
    BitVec.getElem_setWidth, BitVec.getLsbD_setWidth, BitVec.getLsbD_extractLsb']
  by_cases h : i < 8
  · simp [h]
  · have h8 : i - 8 < 8 ↔ i < 16 := by omega
    have hle : 8 + (i - 8) = i := by omega
    by_cases h16 : i < 16
    · simp [h, h8, hle, h16]
    · simp [h, h8, h16, BitVec.getLsbD_of_ge w i (by omega)]

/-- The mask keeps the bits 5 to 13. -/
theorem and_mask (n : ℕ) : n &&& 0x3FE0 = n % 16384 / 32 * 32 := by
  have hmask : (0x3FE0 : ℕ) = (2 ^ 9 - 1) * 2 ^ 5 := by norm_num
  rw [hmask, show 16384 = 2 ^ 14 by norm_num, show 32 = 2 ^ 5 by norm_num]
  refine Nat.eq_of_testBit_eq fun i => ?_
  simp only [Nat.testBit_and, Nat.testBit_mul_two_pow, Nat.testBit_two_pow_sub_one,
    Nat.testBit_div_two_pow, Nat.testBit_mod_two_pow]
  by_cases h : 5 ≤ i
  · have hi : i - 5 + 5 = i := by omega
    have hlt : i - 5 < 9 ↔ i < 14 := by omega
    simp [h, hi, hlt, Bool.and_comm]
  · simp [h]

/-- **A read answers the angle, down to a multiple of 32.** -/
theorem read_eq (w : BitVec 16) : read false w = angle w / 32 * 32 := by
  have hnat : (value false w &&& 0x3FE0).toNat = w.toNat % 16384 / 32 * 32 := by
    rw [BitVec.toNat_and, value_unsigned, BitVec.toNat_setWidth, Nat.mod_eq_of_lt (by omega)]
    exact and_mask w.toNat
  have hlt : 2 * (value false w &&& 0x3FE0).toNat < 2 ^ 32 := by
    rw [hnat]
    omega
  rw [read, BitVec.toInt_eq_toNat_of_lt hlt, hnat, angle_eq]
  push_cast
  rfl

end As5048a

/-! ### One sample -/

/-- An iteration of the loop of `Speed::Run`, and the positions of the wheel, with its full turns,
in which the sensor is read. -/
structure Observation where
  exchange : Exchange
  position1 : ℤ
  position2 : ℤ

namespace Observation

/-- The responses used carry the positions. -/
def Faithful (x : Observation) : Prop :=
  angle x.exchange.word1.2 = x.position1 % 16384 ∧ angle x.exchange.word2.2 = x.position2 % 16384

instance (x : Observation) : Decidable x.Faithful :=
  inferInstanceAs (Decidable (_ ∧ _))

/-- By how many positions the wheel has turned. -/
def displacement (x : Observation) : ℤ := x.position2 - x.position1

/-- The start of the block of 32 positions around a position. -/
def block (p : ℤ) : ℤ := p / 32 * 32

/-- What the loop of `Speed::Run` sees: the wheel moves from block to block. -/
def reading (x : Observation) : Reading :=
  ⟨As5048a.read false x.exchange.word1.2, As5048a.read false x.exchange.word2.2, x.exchange.us,
    block x.position2 - block x.position1⟩

variable {x : Observation}

theorem block_mod (p : ℤ) : p % 16384 / 32 * 32 = block p % 16384 := by
  unfold block
  omega

theorem Faithful.result1_eq (h : x.Faithful) :
    x.reading.result1 = block x.position1 % 16384 := by
  show As5048a.read false _ = _
  rw [As5048a.read_eq, h.1, block_mod]

theorem Faithful.result2_eq (h : x.Faithful) :
    x.reading.result2 = block x.position2 % 16384 := by
  show As5048a.read false _ = _
  rw [As5048a.read_eq, h.2, block_mod]

/-- The blocks are what a slow enough encoder would report. -/
theorem sound (h : x.Faithful) (hslow : |x.displacement| ≤ 5885) : x.reading.Sound := by
  have h1 := h.result1_eq
  have h2 := h.result2_eq
  have hd : x.reading.displacement = block x.position2 - block x.position1 := rfl
  obtain ⟨hlo, hhi⟩ := abs_le.mp hslow
  unfold displacement at hlo hhi
  refine ⟨?_, ?_, ?_, ?_⟩
  · rw [h1]; omega
  · rw [h2]; omega
  · rw [hd, abs_le]
    unfold block
    omega
  · rw [h1, h2, hd]
    unfold Int.ModEq
    omega

/-- **A sample is off by 32 positions at most**: 31 for the blocks, and one when the zero position
is passed. -/
theorem abs_unwrap_add_le (h : x.Faithful) (hslow : |x.displacement| ≤ 5885) :
    |Speed.unwrap x.reading.result1 x.reading.result2 + x.displacement| ≤ 32 := by
  have hs := sound h hslow
  have hturns := hs.turns
  have h1 := hs.result1
  have h2 := hs.result2
  have hd : x.reading.displacement = block x.position2 - block x.position1 := rfl
  obtain ⟨hlo, hhi⟩ := abs_le.mp hslow
  rw [hs.unwrap_eq, abs_le]
  unfold displacement at hlo hhi ⊢
  unfold block at hd
  omega

/-- A wheel that stays in its block does not seem to move. -/
theorem unwrap_of_block (h : x.Faithful) (hblock : x.position1 / 32 = x.position2 / 32) :
    Speed.unwrap x.reading.result1 x.reading.result2 = 0 := by
  have heq : x.reading.result1 = x.reading.result2 := by
    rw [h.result1_eq, h.result2_eq, block, block, hblock]
  simp [Speed.unwrap, heq]

end Observation

/-! ### The mean of eight samples -/

/-- The iterations the loop counts: the first eight in time. -/
def counted (xs : List Observation) : List Observation :=
  (xs.filter fun x => decide x.exchange.InTime).take 8

/-- By how many positions the wheel has turned during them. -/
def turned (xs : List Observation) : ℤ := (xs.map Observation.displacement).sum

/-- The seconds measured during them. -/
def measured (xs : List Observation) : ℚ :=
  (xs.map fun x => (x.exchange.us : ℚ) / 1000000).sum

theorem accepted_reading (xs : List Observation) :
    accepted (xs.map Observation.reading) =
      (xs.filter fun x => decide x.exchange.InTime).map Observation.reading := by
  have hiff : ∀ x : Observation, x.reading.Accepted ↔ x.exchange.InTime :=
    fun x => and_iff_right ⟨As5048a.read_nonneg false _, As5048a.read_nonneg false _⟩
  rw [accepted, List.filter_map]
  simp only [Function.comp_def, hiff]

/-- The samples that count are those of the iterations that count. -/
theorem take_accepted_reading (xs : List Observation) :
    (accepted (xs.map Observation.reading)).take 8 = (counted xs).map Observation.reading := by
  rw [accepted_reading, counted, List.map_take]

theorem durations_reading (xs : List Observation) :
    durations (xs.map Observation.reading) = measured xs := by
  rw [durations, List.map_map]
  rfl

/-- The errors of the samples add up. -/
theorem abs_differences_add_le {xs : List Observation}
    (h : ∀ x ∈ xs, x.Faithful ∧ |x.displacement| ≤ 5885) :
    |differences (xs.map Observation.reading) + turned xs| ≤ 32 * xs.length := by
  induction xs with
  | nil => simp [differences, turned]
  | cons x xs ih =>
    have hx := abs_le.mp (Observation.abs_unwrap_add_le (h x (by simp)).1 (h x (by simp)).2)
    have hxs := abs_le.mp (ih fun y hy => h y (by simp [hy]))
    simp only [differences, turned, List.map_cons, List.sum_cons, List.length_cons] at hxs ⊢
    push_cast
    rw [abs_le]
    omega

theorem differences_of_block {xs : List Observation} (h : ∀ x ∈ xs, x.Faithful)
    (hblock : ∀ x ∈ xs, x.position1 / 32 = x.position2 / 32) :
    differences (xs.map Observation.reading) = 0 := by
  refine List.sum_eq_zero fun d hd => ?_
  simp only [List.map_map, List.mem_map, Function.comp_apply] at hd
  obtain ⟨x, hx, rfl⟩ := hd
  exact Observation.unwrap_of_block (h x hx) (hblock x hx)

/-- **The accuracy of the speed**, with the divisor of the program taken for a full turn: when the
sensor answers the positions of the wheel, which turns by 5885 positions at most in a sample, the
speed stored is that of the wheel during the first eight samples in time, with the sign turned, up
to 256 positions in the time measured. And it is zero when in none of them the wheel leaves the
block of 32 positions it is in. -/
theorem speed_accuracy (m : Speed.Members) (r r' : ℤ) (xs : List Observation)
    (hlen : (counted xs).length = 8) (htime : 0 < measured (counted xs))
    (h : ∀ x ∈ counted xs, x.Faithful ∧ |x.displacement| ≤ 5885) :
    ∃ v, (m.run r r' (xs.map Observation.reading)).map Speed.Outcome.stored = some [v] ∧
      |v - -(turned (counted xs) : ℚ) / 16383 / measured (counted xs)| ≤
        256 / 16383 / measured (counted xs) ∧
      ((∀ x ∈ counted xs, x.position1 / 32 = x.position2 / 32) → v = 0) := by
  have hacc : 8 ≤ (accepted (xs.map Observation.reading)).length := by
    have htake := congrArg List.length (take_accepted_reading xs)
    rw [List.length_take, List.length_map, hlen] at htake
    omega
  refine ⟨_, Speed.Members.stored_eq hacc, ?_, ?_⟩
  · rw [take_accepted_reading, meanSpeed, durations_reading]
    have hsum := abs_differences_add_le h
    rw [hlen] at hsum
    have hcast : |(differences ((counted xs).map Observation.reading) : ℚ) + turned (counted xs)| ≤
        256 := by exact_mod_cast hsum
    have hsplit : (differences ((counted xs).map Observation.reading) : ℚ) / 16383 /
        measured (counted xs) - -(turned (counted xs) : ℚ) / 16383 / measured (counted xs) =
          (differences ((counted xs).map Observation.reading) + turned (counted xs)) / 16383 /
            measured (counted xs) := by ring
    rw [hsplit, abs_div, abs_div, abs_of_pos htime, abs_of_pos (show (0 : ℚ) < 16383 by norm_num)]
    gcongr
  · intro hblock
    rw [take_accepted_reading, meanSpeed, differences_of_block (fun x hx => (h x hx).1) hblock]
    simp

/-- Eight samples in which the wheel turns by 31 positions: the speed stored is zero. -/
theorem speed_accuracy_slow :
    ∃ v, (Speed.Members.new.run 0 0 ((List.replicate 8
        (⟨⟨(0, 0), (0, 31), 1200⟩, 0, 31⟩ : Observation)).map Observation.reading)).map
        Speed.Outcome.stored = some [v] ∧
      |v - -(turned (counted (List.replicate 8 ⟨⟨(0, 0), (0, 31), 1200⟩, 0, 31⟩)) : ℚ) / 16383 /
          measured (counted (List.replicate 8 ⟨⟨(0, 0), (0, 31), 1200⟩, 0, 31⟩))| ≤
        256 / 16383 / measured (counted (List.replicate 8 ⟨⟨(0, 0), (0, 31), 1200⟩, 0, 31⟩)) ∧
      v = 0 := by
  obtain ⟨v, hv, hle, hzero⟩ := speed_accuracy .new 0 0
    (List.replicate 8 ⟨⟨(0, 0), (0, 31), 1200⟩, 0, 31⟩) (by decide +kernel) (by decide +kernel)
    (by decide +kernel)
  exact ⟨v, hv, hle, hzero (by decide +kernel)⟩

end Vehicle.Recovery
