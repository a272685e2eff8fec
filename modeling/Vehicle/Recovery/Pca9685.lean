import Vehicle.Numeric.Rounding
import Vehicle.Recovery.Actuator

/-!
# recovery: the driver of the PWM chip

`pca9685.c`. The chip and the functions of wiringPi that reach it stand behind `Bus`; what the
driver relies on is what the chip is documented to do (`Bus.Lawful`): the registers of the channels,
the addresses at the end that write to all channels at once and read as zero, and the words, whose
second byte goes to the next register while the auto-increment is on.
-/

namespace Vehicle.Recovery

/-! ### The chip -/

/-- `wiringPiI2CReadReg8`, `wiringPiI2CWriteReg8` and those for words, on a chip in a state. -/
structure Bus (σ : Type) where
  readReg8 : σ → ℤ → BitVec 8
  writeReg8 : σ → ℤ → BitVec 8 → σ
  readReg16 : σ → ℤ → BitVec 16
  writeReg16 : σ → ℤ → BitVec 16 → σ

namespace Pca9685

/-- `PCA9685_MODE1`. -/
def mode1 : ℤ := 0x0

/-- `PCA9685_PRESCALE`. -/
def prescale : ℤ := 0xFE

/-- `LED0_ON_L`. -/
def led0OnL : ℤ := 0x6

/-- `LEDALL_ON_L`. -/
def ledallOnL : ℤ := 0xFA

/-- `PIN_ALL`. -/
def pinAll : ℤ := 16

/-- Register `k` of channel `c`: the low and the high byte of the on-count, and of the off-count. -/
def led (c k : ℕ) : ℤ := led0OnL + 4 * c + k

/-- The register that writes to register `k` of every channel. -/
def ledAll (k : ℕ) : ℤ := ledallOnL + k

/-- What register `k` of a channel keeps of a byte: the high ones have five bits. -/
def keep (k : ℕ) (v : BitVec 8) : BitVec 8 := if k % 2 = 1 then v &&& 0x1F else v

end Pca9685

open Pca9685

namespace Bus

variable {σ : Type}

/-- The auto-increment bit. -/
def AutoIncrement (B : Bus σ) (s : σ) : Prop := (B.readReg8 s mode1).getLsbD 5 = true

/-- The sleep bit. -/
def Asleep (B : Bus σ) (s : σ) : Prop := (B.readReg8 s mode1).getLsbD 4 = true

/-- **What the chip is documented to do.** -/
structure Lawful (B : Bus σ) : Prop where
  /-- A channel's register takes what is written to it or to the one of all channels. -/
  led_write : ∀ s (a : ℤ) v (c k : ℕ), 0 ≤ a → a < 256 → c < 16 → k < 4 →
    B.readReg8 (B.writeReg8 s a v) (led c k) =
      if a = led c k ∨ a = ledAll k then keep k v else B.readReg8 s (led c k)
  /-- The registers of all channels read as zero. -/
  all_read : ∀ s (k : ℕ), k < 4 → B.readReg8 s (ledAll k) = 0
  /-- The auto-increment and the sleep bit are as written. -/
  mode1_write : ∀ s v (i : ℕ), i = 4 ∨ i = 5 →
    (B.readReg8 (B.writeReg8 s mode1 v) mode1).getLsbD i = v.getLsbD i
  mode1_other : ∀ s (a : ℤ) v (i : ℕ), 0 ≤ a → a < 256 → a ≠ mode1 → i = 4 ∨ i = 5 →
    (B.readReg8 (B.writeReg8 s a v) mode1).getLsbD i = (B.readReg8 s mode1).getLsbD i
  /-- The prescaler takes a value from 3 on, while the chip sleeps. -/
  prescale_write : ∀ s v, B.Asleep s → 3 ≤ v.toNat →
    B.readReg8 (B.writeReg8 s prescale v) prescale = v
  prescale_other : ∀ s (a : ℤ) v, 0 ≤ a → a < 256 → a ≠ prescale →
    B.readReg8 (B.writeReg8 s a v) prescale = B.readReg8 s prescale
  /-- With the auto-increment on, the second byte of a word belongs to the next register. -/
  word_write : ∀ s a v, B.AutoIncrement s →
    B.writeReg16 s a v =
      B.writeReg8 (B.writeReg8 s a (v.setWidth 8)) (a + 1) (v.extractLsb' 8 8)
  word_read : ∀ s a, B.AutoIncrement s →
    B.readReg16 s a = B.readReg8 s (a + 1) ++ B.readReg8 s a

end Bus

/-! ### `pca9685.c` -/

namespace Pca9685

variable {σ : Type} (B : Bus σ)

/-- `baseReg`. -/
def baseReg (pin : ℤ) : ℤ := if pin ≥ pinAll then ledallOnL else led0OnL + 4 * pin

/-- `pca9685PWMReset`. -/
def pca9685PWMReset (s : σ) : σ :=
  let s := B.writeReg16 s ledallOnL 0x0
  B.writeReg16 s (ledallOnL + 2) 0x1000

/-- `pca9685PWMWrite`. -/
def pca9685PWMWrite (s : σ) (pin on off : ℤ) : σ :=
  let reg := baseReg pin
  let s := B.writeReg16 s reg (BitVec.ofInt 16 on &&& 0x0FFF)
  B.writeReg16 s (reg + 2) (BitVec.ofInt 16 off &&& 0x0FFF)

/-- `pca9685PWMRead`: the on- and the off-register. -/
def pca9685PWMRead (s : σ) (pin : ℤ) : BitVec 16 × BitVec 16 :=
  let reg := baseReg pin
  (B.readReg16 s reg, B.readReg16 s (reg + 2))

/-- `pca9685FullOff`. -/
def pca9685FullOff (s : σ) (pin : ℤ) (tf : Bool) : σ :=
  let reg := baseReg pin + 3
  let state := B.readReg8 s reg
  let state := if tf then state ||| 0x10 else state &&& 0xEF
  B.writeReg8 s reg state

/-- `pca9685FullOn`. -/
def pca9685FullOn (s : σ) (pin : ℤ) (tf : Bool) : σ :=
  let reg := baseReg pin + 1
  let state := B.readReg8 s reg
  let state := if tf then state ||| 0x10 else state &&& 0xEF
  let s := B.writeReg8 s reg state
  -- full-off has priority over full-on
  if tf then pca9685FullOff B s pin false else s

/-- `myPwmWrite`. -/
def myPwmWrite (pinBase : ℤ) (s : σ) (pin value : ℤ) : σ :=
  let ipin := pin - pinBase
  if value ≥ 4096 then pca9685FullOn B s ipin true
  else if value > 0 then pca9685PWMWrite B s ipin 0 value
  else pca9685FullOff B s ipin true

/-- `myOnOffWrite`. -/
def myOnOffWrite (pinBase : ℤ) (s : σ) (pin value : ℤ) : σ :=
  let ipin := pin - pinBase
  if value ≠ 0 then pca9685FullOn B s ipin true else pca9685FullOff B s ipin true

/-- `myOffRead`. -/
def myOffRead (pinBase : ℤ) (s : σ) (pin : ℤ) : BitVec 16 :=
  let ipin := pin - pinBase
  (pca9685PWMRead B s ipin).2

/-- `myOnRead`. -/
def myOnRead (pinBase : ℤ) (s : σ) (pin : ℤ) : BitVec 16 :=
  let ipin := pin - pinBase
  (pca9685PWMRead B s ipin).1

/-- What a `float` keeps of a number that is neither too large nor too small for it. -/
def single (x : ℚ) : ℚ := Numeric.roundBits 24 x

/-- `pca9685PWMFreq`. The products, quotients and differences of `float`s are `float`s. -/
def pca9685PWMFreq (s : σ) (freq : ℚ) : σ :=
  let freq := if freq > 1000 then 1000 else if freq < 40 then 40 else freq
  let pre := truncate (single (single (25000000 / single (4096 * freq)) - 0.5))
  let settings := B.readReg8 s mode1 &&& 0x7F
  let sleep := settings ||| 0x10
  let wake := settings &&& 0xEF
  let restart := wake ||| 0x80
  let s := B.writeReg8 s mode1 sleep
  let s := B.writeReg8 s prescale (BitVec.ofInt 8 pre)
  let s := B.writeReg8 s mode1 wake
  B.writeReg8 s mode1 restart

/-- `pca9685Setup`, with what `wiringPiNewNode` and `wiringPiI2CSetup` return: what it returns, and
the chip behind it. -/
def pca9685Setup (node : Bool) (fd : ℤ) (s : σ) (freq : ℚ) : ℤ × σ :=
  if ¬ node then (-1, s)
  else if fd < 0 then (fd, s)
  else
    let settings := B.readReg8 s mode1 &&& 0x7F
    let autoInc := settings ||| 0x20
    let s := B.writeReg8 s mode1 autoInc
    let s := if freq > 0 then pca9685PWMFreq B s freq else s
    (fd, s)

/-! ### Reads after writes -/

/-- A call on a pin addresses a channel: on its own, or with all others. -/
def Addresses (pin : ℤ) (c : ℕ) : Prop := pin = c ∨ pinAll ≤ pin

instance (pin : ℤ) (c : ℕ) : Decidable (Addresses pin c) :=
  inferInstanceAs (Decidable (pin = c ∨ pinAll ≤ pin))

variable {B}

section Bytes

variable {s : σ} {pin : ℤ} {c j k : ℕ} {v : BitVec 8}

theorem baseReg_add_mem (hpin : 0 ≤ pin) (hj : j < 4) :
    0 < baseReg pin + j ∧ baseReg pin + j < prescale := by
  unfold baseReg pinAll ledallOnL led0OnL prescale
  split <;> omega

theorem baseReg_add_eq_iff (hpin : 0 ≤ pin) (hj : j < 4) (hc : c < 16) (hk : k < 4) :
    (baseReg pin + j = led c k ∨ baseReg pin + j = ledAll k) ↔ Addresses pin c ∧ j = k := by
  unfold baseReg led ledAll Addresses pinAll ledallOnL led0OnL
  split <;> omega

/-- **A byte written to a pin's register**: the channels it addresses have it, the others are as
they were. -/
theorem read_write (hB : B.Lawful) (hpin : 0 ≤ pin) (hj : j < 4) (hc : c < 16) (hk : k < 4) :
    B.readReg8 (B.writeReg8 s (baseReg pin + j) v) (led c k) =
      if Addresses pin c ∧ j = k then keep k v else B.readReg8 s (led c k) := by
  obtain ⟨hlo, hhi⟩ := baseReg_add_mem hpin hj
  have h256 : baseReg pin + j < 256 := by
    unfold prescale at hhi
    omega
  rw [hB.led_write s _ v c k hlo.le h256 hc hk]
  exact if_congr (baseReg_add_eq_iff hpin hj hc hk) rfl rfl

theorem read_pin (hc : c < 16) : B.readReg8 s (baseReg c + k) = B.readReg8 s (led c k) := by
  unfold baseReg led pinAll
  rw [if_neg (by omega)]

theorem read_all (hB : B.Lawful) (hpin : pinAll ≤ pin) (hk : k < 4) :
    B.readReg8 s (baseReg pin + k) = 0 := by
  unfold baseReg
  rw [if_pos hpin]
  exact hB.all_read s k hk

/-- The auto-increment, the sleep bit and the prescaler are as before. -/
structure SameSetup (B : Bus σ) (s s' : σ) : Prop where
  mode1 : ∀ i, i = 4 ∨ i = 5 → (B.readReg8 s' mode1).getLsbD i = (B.readReg8 s mode1).getLsbD i
  prescale : B.readReg8 s' prescale = B.readReg8 s prescale

theorem SameSetup.trans {s s' s'' : σ} (h : SameSetup B s s') (h' : SameSetup B s' s'') :
    SameSetup B s s'' :=
  ⟨fun i hi => (h'.mode1 i hi).trans (h.mode1 i hi), h'.prescale.trans h.prescale⟩

theorem SameSetup.autoIncrement {s' : σ} (h : SameSetup B s s') (hs : B.AutoIncrement s) :
    B.AutoIncrement s' :=
  (h.mode1 5 (Or.inr rfl)).trans hs

theorem sameSetup_write (hB : B.Lawful) (hpin : 0 ≤ pin) (hj : j < 4) :
    SameSetup B s (B.writeReg8 s (baseReg pin + j) v) := by
  obtain ⟨hlo, hhi⟩ := baseReg_add_mem hpin hj
  have h256 : baseReg pin + j < 256 := by
    unfold Pca9685.prescale at hhi
    omega
  exact ⟨fun i hi => hB.mode1_other s _ v i hlo.le h256 hlo.ne' hi,
    hB.prescale_other s _ v hlo.le h256 hhi.ne⟩

theorem sameSetup_writeWord (hB : B.Lawful) (h : B.AutoIncrement s) (hpin : 0 ≤ pin)
    (hj : j + 1 < 4) (v : BitVec 16) :
    SameSetup B s (B.writeReg16 s (baseReg pin + j) v) := by
  have hnext : baseReg pin + (j : ℤ) + 1 = baseReg pin + (j + 1 : ℕ) := by
    push_cast
    ring
  rw [hB.word_write s _ v h, hnext]
  exact (sameSetup_write hB hpin (by omega)).trans (sameSetup_write hB hpin hj)

end Bytes

/-! ### The channels -/

/-- A count of a channel, with the bit that overrides the counts. -/
@[ext]
structure Half where
  count : BitVec 12
  full : Bool
  deriving DecidableEq

/-- What a channel is set to. -/
@[ext]
structure Channel where
  on : Half
  off : Half
  deriving DecidableEq

/-- The half of a channel that begins at register `j`: 0 for the on-count, 2 for the off-count. -/
def half (B : Bus σ) (s : σ) (c j : ℕ) : Half where
  count := (B.readReg8 s (led c (j + 1))).setWidth 4 ++ B.readReg8 s (led c j)
  full := (B.readReg8 s (led c (j + 1))).getLsbD 4

/-- A channel of the chip. -/
def channel (B : Bus σ) (s : σ) (c : ℕ) : Channel := ⟨half B s c 0, half B s c 2⟩

namespace Half

/-- The half a word sets. -/
def ofWord (v : BitVec 16) : Half := ⟨v.setWidth 12, v.getLsbD 12⟩

/-- The overriding bit is set. With all channels at once the high bits of the count are lost: the
driver writes back what it has read there, which is zero. -/
def setFull (all tf : Bool) (h : Half) : Half :=
  ⟨if all then h.count &&& 0xFF else h.count, tf⟩

end Half

section Halves

variable {s : σ} {pin : ℤ} {c i j : ℕ}

theorem keep_low {k : ℕ} (hk : k % 2 = 0) (v : BitVec 8) : keep k v = v := by
  rw [keep, if_neg (by omega)]

theorem keep_high {k : ℕ} (hk : k % 2 = 1) (v : BitVec 8) :
    (keep k v).setWidth 4 = v.setWidth 4 ∧ (keep k v).getLsbD 4 = v.getLsbD 4 := by
  have hbits : ∀ i < 5, (0x1F : BitVec 8).getLsbD i = true := by decide
  rw [show keep k v = v &&& 0x1F from if_pos hk]
  constructor
  · ext i hi
    simp only [BitVec.getElem_setWidth, BitVec.getLsbD_and, hbits i (by omega), Bool.and_true]
  · rw [BitVec.getLsbD_and, hbits 4 (by omega), Bool.and_true]

/-- The two bytes of a word. -/
theorem word_bytes (v : BitVec 16) :
    (v.extractLsb' 8 8).setWidth 4 ++ v.setWidth 8 = v.setWidth 12 ∧
      (v.extractLsb' 8 8).getLsbD 4 = v.getLsbD 12 := by
  constructor
  · ext i hi
    simp only [BitVec.getElem_append, BitVec.getElem_setWidth, BitVec.getLsbD_extractLsb']
    split
    · rfl
    · rw [show 8 + (i - 8) = i by omega, decide_eq_true (by omega : i - 8 < 8), Bool.true_and]
  · simp

/-- **A byte written to the high register of a half.** -/
theorem half_writeHigh (hB : B.Lawful) (hpin : 0 ≤ pin) (hc : c < 16) (hi : i = 0 ∨ i = 2)
    (hj : j = 0 ∨ j = 2) (v : BitVec 8) :
    half B (B.writeReg8 s (baseReg pin + (i + 1 : ℕ)) v) c j =
      if Addresses pin c ∧ i = j then
        ⟨v.setWidth 4 ++ B.readReg8 s (led c j), v.getLsbD 4⟩
      else half B s c j := by
  have hhigh : (Addresses pin c ∧ i + 1 = j + 1) ↔ Addresses pin c ∧ i = j := by
    rw [Nat.add_right_cancel_iff]
  have hlow : ¬ (Addresses pin c ∧ i + 1 = j) := by
    rintro ⟨-, h⟩
    omega
  unfold half
  rw [read_write hB hpin (by omega) hc (by omega : j + 1 < 4),
    read_write hB hpin (by omega) hc (by omega : j < 4), if_neg hlow, if_congr hhigh rfl rfl]
  split
  · rw [(keep_high (by omega) v).1, (keep_high (by omega) v).2]
  · rfl

/-- **A word written to a half**, the low byte first. -/
theorem half_writeWord (hB : B.Lawful) (h : B.AutoIncrement s) (hpin : 0 ≤ pin) (hc : c < 16)
    (hi : i = 0 ∨ i = 2) (hj : j = 0 ∨ j = 2) (v : BitVec 16) :
    half B (B.writeReg16 s (baseReg pin + i) v) c j =
      if Addresses pin c ∧ i = j then .ofWord v else half B s c j := by
  have hnext : baseReg pin + (i : ℤ) + 1 = baseReg pin + (i + 1 : ℕ) := by
    push_cast
    ring
  rw [hB.word_write s _ v h, hnext, half_writeHigh hB hpin hc hi hj]
  split
  · rename_i hij
    rw [read_write hB hpin (by omega) hc (by omega), if_pos hij, keep_low (by omega),
      (word_bytes v).1, (word_bytes v).2]
    rfl
  · rename_i hij
    have hhigh : ¬ (Addresses pin c ∧ i = j + 1) := by
      rintro ⟨-, h⟩
      omega
    unfold half
    rw [read_write hB hpin (by omega) hc (by omega), read_write hB hpin (by omega) hc (by omega),
      if_neg hhigh, if_neg hij]

/-- The bit is set and cleared without a change to the bits of the count. -/
theorem full_bits (tf : Bool) (v : BitVec 8) :
    (if tf then v ||| 0x10 else v &&& 0xEF).setWidth 4 = v.setWidth 4 ∧
      (if tf then v ||| 0x10 else v &&& 0xEF).getLsbD 4 = tf := by
  have hset : ∀ i < 4, (0x10 : BitVec 8).getLsbD i = false := by decide
  have hclear : ∀ i < 4, (0xEF : BitVec 8).getLsbD i = true := by decide
  cases tf with
  | true =>
    constructor
    · ext i hi
      simp only [if_true, BitVec.getElem_setWidth, BitVec.getLsbD_or, hset i hi, Bool.or_false]
    · simp
  | false =>
    constructor
    · ext i hi
      simp only [Bool.false_eq_true, if_false, BitVec.getElem_setWidth, BitVec.getLsbD_and,
        hclear i hi, Bool.and_true]
    · simp

theorem zero_append (u : BitVec 4) (v : BitVec 8) : (0 : BitVec 4) ++ v = (u ++ v) &&& 0xFF := by
  have hmask : ∀ i < 12, (0xFF : BitVec 12).getLsbD i = decide (i < 8) := by decide
  apply BitVec.eq_of_getLsbD_eq
  intro i hi
  rw [BitVec.getLsbD_and, hmask i hi, BitVec.getLsbD_append, BitVec.getLsbD_append]
  by_cases h : i < 8 <;> simp [h]

/-- **The bit of a half set or cleared**, as the driver does it. -/
theorem half_setFull (hB : B.Lawful) (hpin : 0 ≤ pin) (hc : c < 16) (hi : i = 0 ∨ i = 2)
    (hj : j = 0 ∨ j = 2) (tf : Bool) :
    half B (B.writeReg8 s (baseReg pin + (i + 1 : ℕ))
        (if tf then B.readReg8 s (baseReg pin + (i + 1 : ℕ)) ||| 0x10
          else B.readReg8 s (baseReg pin + (i + 1 : ℕ)) &&& 0xEF)) c j =
      if Addresses pin c ∧ i = j then (half B s c j).setFull (decide (pinAll ≤ pin)) tf
      else half B s c j := by
  rw [half_writeHigh hB hpin hc hi hj, (full_bits tf _).1, (full_bits tf _).2]
  split
  · rename_i hij
    obtain ⟨had, rfl⟩ := hij
    by_cases hall : pinAll ≤ pin
    · rw [read_all hB hall (by omega), decide_eq_true hall]
      exact Half.ext (zero_append _ _) rfl
    · rcases had with rfl | had
      · rw [read_pin hc, decide_eq_false hall]
        rfl
      · exact absurd had hall
  · rfl

end Halves

/-! ### The functions of the driver -/

namespace Channel

/-- Both counts are set, and nothing overrides them. -/
def pwm (on off : ℤ) : Channel := ⟨⟨BitVec.ofInt 12 on, false⟩, ⟨BitVec.ofInt 12 off, false⟩⟩

/-- The default values: full-off. -/
def reset : Channel := ⟨⟨0, false⟩, ⟨0, true⟩⟩

def setFullOff (all tf : Bool) (ch : Channel) : Channel := { ch with off := ch.off.setFull all tf }

def setFullOn (all tf : Bool) (ch : Channel) : Channel :=
  ⟨ch.on.setFull all tf, if tf then ch.off.setFull all false else ch.off⟩

end Channel

section Functions

variable {s : σ} {pin : ℤ} {c : ℕ}

/-- What a function of the driver does for a pin: the setup is as before, the channels the pin
addresses are changed, and the others are not. -/
structure Changes (B : Bus σ) (pin : ℤ) (f : Channel → Channel) (s s' : σ) : Prop where
  sameSetup : SameSetup B s s'
  channel : ∀ c < 16,
    channel B s' c = if Addresses pin c then f (channel B s c) else channel B s c

theorem Changes.comp {f g : Channel → Channel} {s' s'' : σ} (h : Changes B pin f s s')
    (h' : Changes B pin g s' s'') : Changes B pin (g ∘ f) s s'' := by
  refine ⟨h.sameSetup.trans h'.sameSetup, fun c hc => ?_⟩
  rw [h'.channel c hc, h.channel c hc]
  split <;> rfl

theorem changes_writeOn (hB : B.Lawful) (h : B.AutoIncrement s) (hpin : 0 ≤ pin)
    (v : BitVec 16) :
    Changes B pin (fun ch => { ch with on := .ofWord v }) s (B.writeReg16 s (baseReg pin) v) := by
  rw [show baseReg pin = baseReg pin + (0 : ℕ) by simp]
  refine ⟨sameSetup_writeWord hB h hpin (by omega) v, fun c hc => ?_⟩
  unfold channel
  rw [half_writeWord hB h hpin hc (Or.inl rfl) (Or.inl rfl),
    half_writeWord hB h hpin hc (Or.inl rfl) (Or.inr rfl)]
  by_cases had : Addresses pin c <;> simp [had]

theorem changes_writeOff (hB : B.Lawful) (h : B.AutoIncrement s) (hpin : 0 ≤ pin)
    (v : BitVec 16) :
    Changes B pin (fun ch => { ch with off := .ofWord v }) s
      (B.writeReg16 s (baseReg pin + 2) v) := by
  refine ⟨sameSetup_writeWord (j := 2) hB h hpin (by omega) v, fun c hc => ?_⟩
  have hhalf : ∀ j, j = 0 ∨ j = 2 → half B (B.writeReg16 s (baseReg pin + 2) v) c j =
      if Addresses pin c ∧ 2 = j then .ofWord v else half B s c j :=
    fun j hj => half_writeWord (i := 2) hB h hpin hc (Or.inr rfl) hj v
  unfold channel
  rw [hhalf 0 (Or.inl rfl), hhalf 2 (Or.inr rfl)]
  by_cases had : Addresses pin c <;> simp [had]

theorem changes_fullOff (hB : B.Lawful) (hpin : 0 ≤ pin) (tf : Bool) :
    Changes B pin (.setFullOff (decide (pinAll ≤ pin)) tf) s (pca9685FullOff B s pin tf) := by
  refine ⟨sameSetup_write (j := 3) hB hpin (by omega), fun c hc => ?_⟩
  have hhalf : ∀ j, j = 0 ∨ j = 2 → half B (pca9685FullOff B s pin tf) c j =
      if Addresses pin c ∧ 2 = j then (half B s c j).setFull (decide (pinAll ≤ pin)) tf
      else half B s c j :=
    fun j hj => half_setFull (i := 2) hB hpin hc (Or.inr rfl) hj tf
  unfold channel
  rw [hhalf 0 (Or.inl rfl), hhalf 2 (Or.inr rfl)]
  by_cases had : Addresses pin c <;> simp [had, Channel.setFullOff]

theorem changes_fullOn (hB : B.Lawful) (hpin : 0 ≤ pin) (tf : Bool) :
    Changes B pin (.setFullOn (decide (pinAll ≤ pin)) tf) s (pca9685FullOn B s pin tf) := by
  have hbit : Changes B pin
      (fun ch => { ch with on := ch.on.setFull (decide (pinAll ≤ pin)) tf }) s
      (B.writeReg8 s (baseReg pin + 1)
        (if tf then B.readReg8 s (baseReg pin + 1) ||| 0x10
          else B.readReg8 s (baseReg pin + 1) &&& 0xEF)) := by
    refine ⟨sameSetup_write (j := 1) hB hpin (by omega), fun c hc => ?_⟩
    have hhalf : ∀ j, j = 0 ∨ j = 2 → half B _ c j = _ :=
      fun j hj => half_setFull (s := s) (i := 0) hB hpin hc (Or.inl rfl) hj tf
    unfold channel
    rw [show (1 : ℤ) = (0 + 1 : ℕ) from rfl, hhalf 0 (Or.inl rfl), hhalf 2 (Or.inr rfl)]
    by_cases had : Addresses pin c <;> simp [had]
  cases tf with
  | true => exact hbit.comp (changes_fullOff hB hpin false)
  | false => exact hbit

theorem setWidth_ofInt (n : ℤ) : (BitVec.ofInt 16 n).setWidth 12 = BitVec.ofInt 12 n := by
  apply BitVec.eq_of_toNat_eq
  rw [BitVec.toNat_setWidth, BitVec.toNat_ofInt, BitVec.toNat_ofInt]
  omega

/-- The words the driver writes for the counts leave nothing that overrides them. -/
theorem ofWord_count (n : ℤ) :
    Half.ofWord (BitVec.ofInt 16 n &&& 0x0FFF) = ⟨BitVec.ofInt 12 n, false⟩ := by
  have hmask : (0x0FFF : BitVec 16).setWidth 12 = BitVec.allOnes 12 := by decide
  refine Half.ext ?_ ?_
  · rw [Half.ofWord, BitVec.setWidth_and, hmask, BitVec.and_allOnes, setWidth_ofInt]
  · simp [Half.ofWord]

theorem changes_pwmWrite (hB : B.Lawful) (h : B.AutoIncrement s) (hpin : 0 ≤ pin) (on off : ℤ) :
    Changes B pin (fun _ => .pwm on off) s (pca9685PWMWrite B s pin on off) := by
  have hon := changes_writeOn hB h hpin (BitVec.ofInt 16 on &&& 0x0FFF)
  have hoff := changes_writeOff hB (hon.sameSetup.autoIncrement h) hpin
    (BitVec.ofInt 16 off &&& 0x0FFF)
  have hboth := hon.comp hoff
  rw [ofWord_count, ofWord_count] at hboth
  exact hboth

theorem changes_reset (hB : B.Lawful) (h : B.AutoIncrement s) :
    Changes B pinAll (fun _ => .reset) s (pca9685PWMReset B s) := by
  have hpin : 0 ≤ pinAll := by decide
  have hon := changes_writeOn hB h hpin 0x0
  have hoff := changes_writeOff hB (hon.sameSetup.autoIncrement h) hpin 0x1000
  exact hon.comp hoff

end Functions

end Pca9685

end Vehicle.Recovery
