import Vehicle.Numeric.Parity
import Vehicle.Recovery.Accuracy

/-!
# recovery: registers read over SPI

`As5048a::Read` against a device that answers a command with an even number of ones in the transfer
behind it. The words sent are such commands (`asks_command`), so a sequence of reads gives the
contents of the registers in their order, without the five lowest bits, where `char` is unsigned;
where it is signed, if and only if no content is spoilt by its low byte (`reads_iff`).
-/

namespace Vehicle.Recovery

open Vehicle.Numeric

/-- A device on the bus: while a word comes in another one goes out. -/
structure Device (σ : Type) where
  exchange : σ → BitVec 16 → BitVec 16 × σ

/-- The word is a command that reads the register at an address. -/
structure Asks (w : BitVec 16) (a : BitVec 14) : Prop where
  even : Even ((bits w).count true)
  read : w.getLsbD 14 = true
  address : w.setWidth 14 = a

/-- What is read when a command comes in goes out in the next transfer. -/
structure Device.Lawful {σ : Type} (D : Device σ) (content : σ → BitVec 14 → BitVec 14) : Prop where
  answers : ∀ {s w a}, Asks w a → ∀ w',
    (D.exchange (D.exchange s w).2 w').1.setWidth 14 = content s a

/-! ### The words sent -/

namespace As5048a

/-- The lower fifteen bits. -/
def lower (value : BitVec 32) : List Bool := (List.range 15).map value.getLsbD

theorem shiftRight_and_one (value : BitVec 32) (i : ℕ) :
    (value >>> i) &&& 1 = (BitVec.ofBool (value.getLsbD i)).setWidth 32 := by
  refine BitVec.eq_of_getLsbD_eq fun k hk => ?_
  rw [BitVec.getLsbD_and, BitVec.getLsbD_ushiftRight, BitVec.getLsbD_setWidth,
    BitVec.getLsbD_ofBool, show (1 : BitVec 32) = 1#32 from rfl, BitVec.getLsbD_one]
  by_cases h : k = 0
  · simp [h]
  · simp [h]

theorem foldl_parity (value : BitVec 32) (is : List ℕ) (b : Bool) :
    is.foldl (fun parity i => ((value >>> i) &&& 1) ^^^ parity) ((BitVec.ofBool b).setWidth 32) =
      (BitVec.ofBool ((is.map value.getLsbD).foldl (fun p b => b ^^ p) b)).setWidth 32 := by
  induction is generalizing b with
  | nil => rfl
  | cons i is ih =>
    rw [List.foldl_cons, List.map_cons, List.foldl_cons, ← ih, shiftRight_and_one]
    congr 1
    cases value.getLsbD i <;> cases b <;> decide

theorem evenParityCalc_eq (value : BitVec 32) :
    evenParityCalc value = (BitVec.ofBool (parity (lower value))).setWidth 32 :=
  foldl_parity value (List.range 15) false

/-- The bits of a word sent. -/
theorem getLsbD_command (reg : BitVec 32) {i : ℕ} (hi : i < 16) :
    ((command reg).setWidth 16).getLsbD i =
      if i = 15 then (reg.getLsbD 15 || parity (lower (reg ||| As5048.read)))
      else (reg ||| As5048.read).getLsbD i := by
  have hmask : ∀ i < 16, (0x8000 : BitVec 32).getLsbD i = decide (i = 15) := by decide
  rw [command, BitVec.getLsbD_setWidth, BitVec.getLsbD_or, evenParityCalc_eq, BitVec.getLsbD_and,
    BitVec.getLsbD_shiftLeft, hmask i hi]
  split
  · rename_i h15
    subst h15
    simp [As5048.read]
  · rename_i h15
    simp [h15, hi]

theorem read_getLsbD : ∀ i < 15, As5048.read.getLsbD i = decide (i = 14) := by decide

theorem bits_command {reg : BitVec 32} (h : reg.toNat < 2 ^ 15) :
    bits ((command reg).setWidth 16) =
      lower (reg ||| As5048.read) ++ [parity (lower (reg ||| As5048.read))] := by
  have h15 : reg.getLsbD 15 = false := Nat.testBit_lt_two_pow h
  rw [bits, List.range_succ, List.map_append, List.map_singleton, getLsbD_command reg (by decide),
    if_pos rfl, h15, Bool.false_or]
  congr 1
  refine List.map_congr_left fun i hi => ?_
  have hlt := List.mem_range.mp hi
  rw [getLsbD_command reg (by omega), if_neg (by omega)]

/-- **The words sent are commands.** -/
theorem asks_command {reg : BitVec 32} (h : reg.toNat < 2 ^ 15) :
    Asks ((command reg).setWidth 16) (reg.setWidth 14) where
  even := by
    rw [bits_command h]
    exact even_count_parity _
  read := by
    rw [getLsbD_command reg (by decide), if_neg (by decide), BitVec.getLsbD_or,
      read_getLsbD 14 (by decide)]
    exact Bool.or_true _
  address := by
    refine BitVec.eq_of_getLsbD_eq fun i hi => ?_
    rw [BitVec.getLsbD_setWidth, getLsbD_command reg (by omega), if_neg (by omega),
      BitVec.getLsbD_or, read_getLsbD i (by omega), BitVec.getLsbD_setWidth]
    simp [hi.ne]

end As5048a

/-! ### The words received -/

namespace As5048a

/-- The content of a register whose low byte does not change the high one when it is extended with
its sign. -/
def Unspoilt (v : BitVec 14) : Prop := v.getLsbD 7 = false ∨ v.extractLsb' 8 6 = BitVec.allOnes 6

instance (v : BitVec 14) : Decidable (Unspoilt v) :=
  inferInstanceAs (Decidable (v.getLsbD 7 = false ∨ v.extractLsb' 8 6 = BitVec.allOnes 6))

theorem getLsbD_promote (signed : Bool) (c : BitVec 8) {i : ℕ} (hi : i < 32) :
    (promote signed c).getLsbD i = if i < 8 then c.getLsbD i else signed && c.getLsbD 7 := by
  cases signed with
  | false =>
    rw [promote, if_neg Bool.false_ne_true, BitVec.getLsbD_setWidth, decide_eq_true hi]
    split
    · exact Bool.true_and _
    · exact BitVec.getLsbD_of_ge c i (by omega)
  | true =>
    rw [promote, if_pos rfl, BitVec.getLsbD_signExtend, decide_eq_true hi, Bool.true_and,
      BitVec.msb_eq_getLsbD_last]
    rfl

/-- The bits of the two bytes, put together. -/
theorem getLsbD_value (signed : Bool) (w : BitVec 16) {i : ℕ} (hi : i < 16) :
    (value signed w).getLsbD i =
      (w.getLsbD i || (signed && w.getLsbD 7 && decide (8 ≤ i))) := by
  rw [value, BitVec.getLsbD_or, BitVec.getLsbD_shiftLeft, getLsbD_promote signed _ (by omega),
    getLsbD_promote signed _ (by omega), BitVec.getLsbD_setWidth, BitVec.getLsbD_setWidth,
    BitVec.getLsbD_extractLsb']
  by_cases h8 : i < 8
  · simp [h8]
  · have h1 : i - 8 < 8 := by omega
    have h2 : 8 + (i - 8) = i := by omega
    simp [h8, h1, h2, show i < 32 by omega, show 8 ≤ i by omega]

theorem mask_getLsbD : ∀ i < 32, (0x3FE0 : BitVec 32).getLsbD i = decide (5 ≤ i ∧ i < 14) := by
  decide

theorem getLsbD_unspoilt {w : BitVec 16} {i : ℕ} (hi : i < 14) :
    (w.setWidth 14).getLsbD i = w.getLsbD i := by
  rw [BitVec.getLsbD_setWidth, decide_eq_true hi, Bool.true_and]

theorem unspoilt_iff (w : BitVec 16) : Unspoilt (w.setWidth 14) ↔
    ∀ i, 8 ≤ i → i < 14 → w.getLsbD 7 = true → w.getLsbD i = true := by
  rw [Unspoilt, getLsbD_unspoilt (by decide), BitVec.eq_of_getLsbD_eq_iff]
  constructor
  · rintro (h7 | hones) i h8 h14 hw
    · rw [h7] at hw
      cases hw
    · have hbit := hones (i - 8) (by omega)
      rw [BitVec.getLsbD_extractLsb', Nat.add_sub_cancel' h8, getLsbD_unspoilt h14,
        BitVec.getLsbD_allOnes] at hbit
      simpa [show i - 8 < 6 by omega] using hbit
  · intro h
    cases h7 : w.getLsbD 7 with
    | false => exact .inl rfl
    | true =>
      refine .inr fun j hj => ?_
      rw [BitVec.getLsbD_extractLsb', getLsbD_unspoilt (by omega), BitVec.getLsbD_allOnes,
        h (8 + j) (by omega) (by omega) h7, decide_eq_true hj]
      rfl

/-- Where `char` is signed, a read answers the same if and only if the content is not spoilt. -/
theorem read_signed_iff (w : BitVec 16) :
    read true w = read false w ↔ Unspoilt (w.setWidth 14) := by
  have hinj : read true w = read false w ↔ value true w &&& 0x3FE0 = value false w &&& 0x3FE0 :=
    BitVec.toInt_inj
  rw [hinj, BitVec.eq_of_getLsbD_eq_iff, unspoilt_iff]
  constructor
  · intro h i h8 h14 h7
    have hbit := h i (by omega)
    rw [BitVec.getLsbD_and, BitVec.getLsbD_and, mask_getLsbD i (by omega),
      getLsbD_value true w (by omega), getLsbD_value false w (by omega)] at hbit
    simpa [h7, h8, h14, show 5 ≤ i by omega] using hbit
  · intro h i hi
    rw [BitVec.getLsbD_and, BitVec.getLsbD_and, mask_getLsbD i hi]
    by_cases hin : 5 ≤ i ∧ i < 14
    · rw [getLsbD_value true w (by omega), getLsbD_value false w (by omega)]
      by_cases h8 : 8 ≤ i ∧ w.getLsbD 7 = true
      · simp [h i h8.1 hin.2 h8.2]
      · rcases not_and_or.mp h8 with h8 | h7
        · simp [h8]
        · rw [Bool.not_eq_true] at h7
          rw [h7]
          simp
    · simp only [hin, decide_false, Bool.and_false]

end As5048a

/-! ### Reading -/

section Device

variable {σ : Type} (D : Device σ) (signed : Bool)

/-- The two transfers of `As5048a::Read`: the response to the second one, and the device behind
it. -/
def Device.answer (reg : BitVec 32) (s : σ) : BitVec 16 × σ :=
  D.exchange (D.exchange s ((As5048a.command reg).setWidth 16)).2 (As5048.cmdNop.setWidth 16)

/-- `As5048a::Read`: what it returns, and the device behind it. -/
def Device.readRegister (reg : BitVec 32) (s : σ) : ℤ × σ :=
  (As5048a.read signed (D.answer reg s).1, (D.answer reg s).2)

/-- What a sequence of reads returns. -/
def Device.reads : List (BitVec 32) → σ → List ℤ
  | [], _ => []
  | reg :: regs, s =>
    (D.readRegister signed reg s).1 :: Device.reads regs (D.readRegister signed reg s).2

/-- What the registers contain when they are asked for. -/
def Device.asked (content : σ → BitVec 14 → BitVec 14) : List (BitVec 32) → σ → List (BitVec 14)
  | [], _ => []
  | reg :: regs, s =>
    content s (reg.setWidth 14) :: Device.asked content regs (D.answer reg s).2

variable {D signed} {content : σ → BitVec 14 → BitVec 14}

/-- A register read. -/
theorem Device.Lawful.readRegister_iff (hD : D.Lawful content) {reg : BitVec 32}
    (hreg : reg.toNat < 2 ^ 15) (s : σ) :
    (D.readRegister signed reg s).1 = ((content s (reg.setWidth 14)).toNat : ℤ) / 32 * 32 ↔
      signed = false ∨ As5048a.Unspoilt (content s (reg.setWidth 14)) := by
  have hans := hD.answers (s := s) (As5048a.asks_command hreg) (As5048.cmdNop.setWidth 16)
  have hread : ∀ w : BitVec 16, As5048a.read false w = ((w.setWidth 14).toNat : ℤ) / 32 * 32 :=
    As5048a.read_eq
  rw [← hans, ← hread]
  cases signed with
  | false => exact iff_of_true rfl (.inl rfl)
  | true =>
    rw [← As5048a.read_signed_iff]
    exact (or_iff_right (by decide)).symm

/-- **What reads return.** The reads of a sequence of registers answer what these contain when they
are asked for, one after the other and without the five lowest bits, if and only if `char` is
unsigned or no content is spoilt. -/
theorem reads_iff (hD : D.Lawful content) {regs : List (BitVec 32)}
    (hregs : ∀ reg ∈ regs, reg.toNat < 2 ^ 15) (s : σ) :
    D.reads signed regs s = (D.asked content regs s).map (fun v => (v.toNat : ℤ) / 32 * 32) ↔
      signed = false ∨ ∀ v ∈ D.asked content regs s, As5048a.Unspoilt v := by
  induction regs generalizing s with
  | nil => simp [Device.reads, Device.asked]
  | cons reg regs ih =>
    have hnext : (D.readRegister signed reg s).2 = (D.answer reg s).2 := rfl
    rw [Device.reads, Device.asked, List.map_cons, List.cons_eq_cons,
      hD.readRegister_iff (hregs reg List.mem_cons_self) s, hnext,
      ih (fun r hr => hregs r (List.mem_cons_of_mem _ hr)), List.forall_mem_cons]
    tauto

end Device

/-- A sensor whose angle is 2700 all the time. -/
def still : Device (BitVec 14) where
  exchange pending w := (pending.setWidth 16,
    if Even ((bits w).count true) ∧ w.getLsbD 14 = true then
      if w.setWidth 14 = (0x3FFF : BitVec 14) then 2700 else 0
    else 0)

theorem still_lawful : still.Lawful fun _ a => if a = 0x3FFF then 2700 else 0 where
  answers := by
    intro s w a h w'
    have hpending : (still.exchange s w).2 = if a = 0x3FFF then 2700 else 0 := by
      simp only [still, h.even, h.read, and_self, if_true, h.address]
    show ((still.exchange s w).2.setWidth 16).setWidth 14 = _
    rw [BitVec.setWidth_setWidth_of_le _ (by decide), BitVec.setWidth_eq, hpending]

/-- The error is cleared and the angle read, whose low byte is negative as a signed `char`. -/
theorem reads_iff_still :
    still.reads true [As5048.cmdClearError, As5048.cmdAngle] 0 =
        (still.asked (fun _ a => if a = 0x3FFF then 2700 else 0)
          [As5048.cmdClearError, As5048.cmdAngle] 0).map (fun v => (v.toNat : ℤ) / 32 * 32) ↔
      true = false ∨ ∀ v ∈ still.asked (fun _ a => if a = 0x3FFF then 2700 else 0)
        [As5048.cmdClearError, As5048.cmdAngle] 0, As5048a.Unspoilt v :=
  reads_iff still_lawful (by simp [As5048.cmdClearError, As5048.cmdAngle]) 0

end Vehicle.Recovery
