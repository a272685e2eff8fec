import Vehicle.Recovery.Pca9685
import Vehicle.Trace.View

/-!
# recovery: calls of the driver of the PWM chip

The functions of `pca9685.c` called any number of times in any order. On each channel a call acts by
itself (`Call.effect`), so the driver refines sixteen independent channels (`driver_refines`): a
call that sets an output has the last word until the next one (`last_call_wins`), and what is read
back is what was asked for (`read_back`). The calls that only clear a bit for all channels at once
do not keep the counts.
-/

namespace Vehicle.Recovery.Pca9685

open Vehicle.Trace

variable {σ : Type} {B : Bus σ}

/-! ### A chip -/

/-- A chip whose words go to two registers. -/
structure Ready (B : Bus σ) where
  chip : σ
  autoIncrement : B.AutoIncrement chip

/-- The registers of a chip. -/
structure Chip where
  mode1 : BitVec 8
  prescale : BitVec 8
  led : ℕ → ℕ → BitVec 8

namespace Chip

/-- As it is when it gets its power: asleep, with every channel at full-off. -/
def powerOn : Chip := ⟨0x11, 0x1E, fun _ k => if k = 3 then 0x10 else 0⟩

def readReg8 (s : Chip) (a : ℤ) : BitVec 8 :=
  if a = Pca9685.mode1 then s.mode1
  else if a = Pca9685.prescale then s.prescale
  else if led0OnL ≤ a ∧ a < led0OnL + 64 then
    s.led ((a - led0OnL) / 4).toNat ((a - led0OnL) % 4).toNat
  else 0

def writeReg8 (s : Chip) (a : ℤ) (v : BitVec 8) : Chip :=
  if a = Pca9685.mode1 then { s with mode1 := v &&& 0x7F }
  else if a = Pca9685.prescale then
    if s.mode1.getLsbD 4 then { s with prescale := if v.toNat < 3 then 3 else v } else s
  else
    { s with
      led := fun c k => if a = Pca9685.led c k ∨ a = ledAll k then keep k v else s.led c k }

/-- The chip behind the bus; without the auto-increment a word goes to one register. -/
def bus : Bus Chip where
  readReg8 := readReg8
  writeReg8 := writeReg8
  readReg16 s a :=
    let next := if s.mode1.getLsbD 5 then a + 1 else a
    readReg8 s next ++ readReg8 s a
  writeReg16 s a v :=
    let next := if s.mode1.getLsbD 5 then a + 1 else a
    writeReg8 (writeReg8 s a (v.setWidth 8)) next (v.extractLsb' 8 8)

theorem readReg8_led (s : Chip) {c k : ℕ} (hc : c < 16) (hk : k < 4) :
    readReg8 s (Pca9685.led c k) = s.led c k := by
  have hdiv : (Pca9685.led c k - led0OnL) / 4 = c := by
    unfold Pca9685.led
    omega
  have hmod : (Pca9685.led c k - led0OnL) % 4 = k := by
    unfold Pca9685.led
    omega
  unfold readReg8
  rw [hdiv, hmod, if_neg (by unfold Pca9685.led Pca9685.mode1 led0OnL; omega),
    if_neg (by unfold Pca9685.led Pca9685.prescale led0OnL; omega),
    if_pos (by unfold Pca9685.led led0OnL; omega), Int.toNat_natCast, Int.toNat_natCast]

theorem readReg8_mode1 (s : Chip) : readReg8 s Pca9685.mode1 = s.mode1 := if_pos rfl

theorem readReg8_prescale (s : Chip) : readReg8 s Pca9685.prescale = s.prescale := by
  rw [readReg8, if_neg (by decide), if_pos rfl]

theorem writeReg8_mode1 (s : Chip) {a : ℤ} (v : BitVec 8) (ha : a ≠ Pca9685.mode1) :
    (writeReg8 s a v).mode1 = s.mode1 := by
  unfold writeReg8
  rw [if_neg ha]
  split
  · split <;> rfl
  · rfl

theorem bus_lawful : bus.Lawful where
  led_write s a v c k h0 h1 hc hk := by
    show readReg8 (writeReg8 s a v) _ = ite _ _ (readReg8 s _)
    rw [readReg8_led _ hc hk, readReg8_led _ hc hk]
    have hmode : Pca9685.mode1 ≠ Pca9685.led c k ∧ Pca9685.mode1 ≠ ledAll k := by
      unfold Pca9685.mode1 Pca9685.led ledAll led0OnL ledallOnL
      omega
    have hpre : Pca9685.prescale ≠ Pca9685.led c k ∧ Pca9685.prescale ≠ ledAll k := by
      unfold Pca9685.prescale Pca9685.led ledAll led0OnL ledallOnL
      omega
    unfold writeReg8
    by_cases ha : a = Pca9685.mode1
    · rw [if_pos ha, if_neg (by rw [ha]; tauto)]
    · rw [if_neg ha]
      by_cases hp : a = Pca9685.prescale
      · have hno : ¬ (a = Pca9685.led c k ∨ a = ledAll k) := by
          rw [hp]
          tauto
        rw [if_pos hp, if_neg hno]
        split <;> rfl
      · rw [if_neg hp]
  all_read s k hk := by
    show readReg8 s _ = 0
    unfold readReg8 ledAll ledallOnL Pca9685.mode1 Pca9685.prescale led0OnL
    rw [if_neg (by omega), if_neg (by omega), if_neg (by omega)]
  mode1_write s v i hi := by
    show (readReg8 (writeReg8 s _ v) _).getLsbD i = _
    rw [readReg8_mode1, writeReg8, if_pos rfl]
    rcases hi with rfl | rfl
    · simp
    · simp
  mode1_other s a v i h0 h1 ha hi := by
    show (readReg8 (writeReg8 s a v) _).getLsbD i = (readReg8 s _).getLsbD i
    rw [readReg8_mode1, readReg8_mode1, writeReg8_mode1 s v ha]
  prescale_write s v hs hv := by
    show readReg8 (writeReg8 s Pca9685.prescale v) Pca9685.prescale = v
    have hs' : s.mode1.getLsbD 4 = true := hs
    rw [readReg8_prescale, writeReg8, if_neg (by decide), if_pos rfl, if_pos hs']
    exact if_neg (by omega)
  prescale_other s a v h0 h1 ha := by
    show readReg8 (writeReg8 s a v) Pca9685.prescale = readReg8 s Pca9685.prescale
    rw [readReg8_prescale, readReg8_prescale, writeReg8]
    split
    · rfl
    · rfl
  word_write s a v h := by
    have hs : s.mode1.getLsbD 5 = true := h
    simp only [bus, hs, if_true]
  word_read s a h := by
    have hs : s.mode1.getLsbD 5 = true := h
    simp only [bus, hs, if_true]

/-- Awake, with the auto-increment on. -/
def awake : Ready bus := ⟨{ powerOn with mode1 := 0x21 }, rfl⟩

end Chip

/-! ### Calls in any order -/

/-- A call of the driver, by way of wiringPi or directly. -/
inductive Call
  | pwmWrite (pin value : ℤ)
  | digitalWrite (pin value : ℤ)
  | pca9685PWMWrite (pin on off : ℤ)
  | pca9685FullOn (pin : ℤ) (tf : Bool)
  | pca9685FullOff (pin : ℤ) (tf : Bool)
  | pca9685PWMReset
  deriving DecidableEq

namespace Call

variable (pinBase : ℤ)

/-- The pin of the chip a call is for. -/
def pin : Call → ℤ
  | pwmWrite pin _ | digitalWrite pin _ => pin - pinBase
  | pca9685PWMWrite pin _ _ | pca9685FullOn pin _ | pca9685FullOff pin _ => pin
  | pca9685PWMReset => pinAll

/-- What a call does to the chip. -/
def run (B : Bus σ) (s : σ) : Call → σ
  | pwmWrite pin value => myPwmWrite B pinBase s pin value
  | digitalWrite pin value => myOnOffWrite B pinBase s pin value
  | pca9685PWMWrite pin on off => Pca9685.pca9685PWMWrite B s pin on off
  | pca9685FullOn pin tf => Pca9685.pca9685FullOn B s pin tf
  | pca9685FullOff pin tf => Pca9685.pca9685FullOff B s pin tf
  | pca9685PWMReset => Pca9685.pca9685PWMReset B s

/-- **What a call means for a channel it addresses.** -/
def effect (ch : Channel) (call : Call) : Channel :=
  let all := decide (pinAll ≤ call.pin pinBase)
  match call with
  | pwmWrite _ value =>
    if value ≥ 4096 then ch.setFullOn all true
    else if value > 0 then .pwm 0 value
    else ch.setFullOff all true
  | digitalWrite _ value => if value ≠ 0 then ch.setFullOn all true else ch.setFullOff all true
  | pca9685PWMWrite _ on off => .pwm on off
  | pca9685FullOn _ tf => ch.setFullOn all tf
  | pca9685FullOff _ tf => ch.setFullOff all tf
  | pca9685PWMReset => .reset

theorem changes {s : σ} {call : Call} (hB : B.Lawful) (h : B.AutoIncrement s)
    (hpin : 0 ≤ call.pin pinBase) :
    Changes B (call.pin pinBase) (call.effect pinBase) s (call.run pinBase B s) := by
  cases call with
  | pwmWrite pin value =>
    unfold effect run myPwmWrite
    dsimp only
    split
    · exact changes_fullOn hB hpin true
    · split
      · exact changes_pwmWrite hB h hpin 0 value
      · exact changes_fullOff hB hpin true
  | digitalWrite pin value =>
    unfold effect run myOnOffWrite
    dsimp only
    split
    · exact changes_fullOn hB hpin true
    · exact changes_fullOff hB hpin true
  | pca9685PWMWrite pin on off => exact changes_pwmWrite hB h hpin on off
  | pca9685FullOn pin tf => exact changes_fullOn hB hpin tf
  | pca9685FullOff pin tf => exact changes_fullOff hB hpin tf
  | pca9685PWMReset => exact changes_reset hB h

end Call

/-- **The driver**: calls for pins the chip has. -/
def driver (hB : B.Lawful) (pinBase : ℤ) : Lts (Ready B) Call where
  init _ := True
  step s call :=
    if hpin : 0 ≤ call.pin pinBase then
      some ⟨call.run pinBase B s.chip,
        (call.changes pinBase hB s.autoIncrement hpin).sameSetup.autoIncrement s.autoIncrement⟩
    else none

section Runs

variable {hB : B.Lawful} {pinBase : ℤ} {s t : Ready B} {tr : List Call} {c : ℕ}

theorem driver_step {call : Call} (h : (driver hB pinBase).step s call = some t) :
    Changes B (call.pin pinBase) (call.effect pinBase) s.chip t.chip := by
  simp only [driver, Option.dite_none_right_eq_some, Option.some.injEq] at h
  obtain ⟨hpin, rfl⟩ := h
  exact call.changes pinBase hB s.autoIncrement hpin

/-- A channel, on which the calls that address it act. -/
def channelView (hB : B.Lawful) (pinBase : ℤ) (hc : c < 16) : View (driver hB pinBase) Channel where
  get s := channel B s.chip c
  act call ch := if Addresses (call.pin pinBase) c then call.effect pinBase ch else ch
  get_step h := (driver_step h).channel c hc

theorem channelView_act (hc : c < 16) (call : Call) (ch : Channel)
    (h : ¬ Addresses (call.pin pinBase) c) : (channelView hB pinBase hc).act call ch = ch :=
  if_neg h

/-- The calls of a run that address a channel. -/
def addressing (pinBase : ℤ) (c : ℕ) (tr : List Call) : List Call :=
  tr.filter fun call => Addresses (call.pin pinBase) c

theorem sameSetup_run (h : (driver hB pinBase).Run s tr t) : SameSetup B s.chip t.chip := by
  refine h.inv (I := fun _ t => SameSetup B s.chip t.chip) ⟨fun _ _ => rfl, rfl⟩ ?_
  intro tr t call u _ ih hs
  exact ih.trans (driver_step hs).sameSetup

/-- **The driver does to every channel what its calls mean**: after any calls in any order, a
channel is set to what those that address it have made of it, one after the other, and the frequency
is as before. -/
theorem driver_refines (hB : B.Lawful) (pinBase : ℤ) {s t : Ready B} {tr : List Call}
    (h : (driver hB pinBase).Run s tr t) :
    (∀ c < 16, channel B t.chip c =
      (addressing pinBase c tr).foldl (Call.effect pinBase) (channel B s.chip c)) ∧
    SameSetup B s.chip t.chip := by
  refine ⟨fun c hc => ?_, sameSetup_run h⟩
  have hview := (channelView hB pinBase hc).get_run_filter h
    (fun call ch => channelView_act hc call ch)
  refine hview.trans (List.foldl_ext _ _ _ fun ch call hcall => ?_)
  have had : Addresses (call.pin pinBase) c := by simpa using (List.mem_filter.mp hcall).2
  exact if_pos had

end Runs

/-- A pulse of 368 ticks on channel 11, all channels off, and all on again. -/
def offAndOn : List Call :=
  [.pwmWrite 311 368, .pca9685FullOff pinAll true, .pca9685FullOff pinAll false]

/-- The pulse is shorter than before: the high bits of its count are lost. -/
theorem offAndOn_refines : ∃ t, (driver Chip.bus_lawful 300).Run Chip.awake offAndOn t ∧
    channel Chip.bus t.chip 11 = .pwm 0 112 := by
  obtain ⟨t, hr, -⟩ := (driver Chip.bus_lawful 300).exists_run (s := Chip.awake) offAndOn
    (P := fun _ => True) (by decide +kernel)
  have hchannel := (driver_refines Chip.bus_lawful 300 hr).1 11 (by decide)
  exact ⟨t, hr, hchannel.trans (by decide +kernel)⟩

section Outputs

variable {hB : B.Lawful} {pinBase : ℤ} {s t : Ready B} {tr : List Call} {c : ℕ}

/-! ### What a channel puts out -/

/-- The output at a tick of the cycle: full-off goes before full-on, and both before the counts. -/
def Channel.level (ch : Channel) (tick : Fin 4096) : Bool :=
  let t := tick.val
  let on := ch.on.count.toNat
  let off := ch.off.count.toNat
  !ch.off.full && (ch.on.full ||
    if on ≤ off then decide (on ≤ t ∧ t < off) else decide (t < off ∨ on ≤ t))

/-- High for the first ticks of the cycle. -/
def pulse (n : ℕ) (tick : Fin 4096) : Bool := decide (tick.val < n)

/-- The ticks a call asks for. `pca9685PWMWrite` sets two counts, so that its output need not begin
with the cycle, and a cleared bit brings back what was set before: these ask for none. -/
def Call.demand : Call → Option ℕ
  | pwmWrite _ value => some value.toNat
  | digitalWrite _ value => some (if value ≠ 0 then 4096 else 0)
  | pca9685FullOn _ true => some 4096
  | pca9685FullOff _ true => some 0
  | pca9685PWMReset => some 0
  | _ => none

/-- **How a channel is set to a number of ticks**: one of three ways. -/
inductive Channel.SetTo (ch : Channel) (n : ℕ) : Prop
  | fullOff (off : ch.off.full = true) (eq : n = 0)
  | fullOn (off : ch.off.full = false) (on : ch.on.full = true) (le : 4096 ≤ n)
  | counts (off : ch.off.full = false) (on : ch.on.full = false) (zero : ch.on.count = 0)
      (eq : ch.off.count.toNat = n)

/-- Behind a call a channel is set to what the call asks for, whatever it was set to. -/
theorem setTo_effect {call : Call} {n : ℕ} (hn : call.demand = some n) (ch : Channel) :
    (call.effect pinBase ch).SetTo n := by
  cases call with
  | pwmWrite pin value =>
    obtain rfl : value.toNat = n := Option.some.inj hn
    simp only [Call.effect]
    split
    · exact .fullOn rfl rfl (by omega)
    · split
      · refine .counts rfl rfl rfl ?_
        rw [Channel.pwm, BitVec.toNat_ofInt]
        omega
      · exact .fullOff rfl (by omega)
  | digitalWrite pin value =>
    obtain rfl : (if value ≠ 0 then 4096 else 0) = n := Option.some.inj hn
    simp only [Call.effect]
    split
    · exact .fullOn rfl rfl le_rfl
    · exact .fullOff rfl rfl
  | pca9685FullOn pin tf =>
    cases tf with
    | true => exact .fullOn rfl rfl (Option.some.inj hn).le
    | false => cases hn
  | pca9685FullOff pin tf =>
    cases tf with
    | true => exact .fullOff rfl (Option.some.inj hn).symm
    | false => cases hn
  | pca9685PWMReset => exact .fullOff rfl (Option.some.inj hn).symm
  | pca9685PWMWrite pin on off => cases hn

theorem Channel.SetTo.level {ch : Channel} {n : ℕ} (h : ch.SetTo n) : ch.level = pulse n := by
  funext tick
  cases h with
  | fullOff off eq => simp [Channel.level, pulse, off, eq]
  | fullOn off on le => simp [Channel.level, pulse, off, on, (by omega : tick.val < n)]
  | counts off on zero eq => simp [Channel.level, pulse, off, on, zero, eq]

theorem setTo_of_last (h : (driver hB pinBase).Run s tr t) (hc : c < 16) {call : Call} {n : ℕ}
    (hlast : (addressing pinBase c tr).getLast? = some call) (hn : call.demand = some n) :
    (channel B t.chip c).SetTo n := by
  obtain ⟨ch, hch⟩ := (channelView hB pinBase hc).get_of_last h
    (fun call ch => channelView_act hc call ch) hlast
  have had : Addresses (call.pin pinBase) c := by
    simpa using (List.mem_filter.mp (List.mem_of_getLast? hlast)).2
  have heff : channel B t.chip c = call.effect pinBase ch := hch.trans (if_pos had)
  rw [heff]
  exact setTo_effect hn ch

/-- **The last call has the last word**: whatever was called before it, the output of a channel is
what the last call that addresses it asks for, if it asks for ticks; a channel that none addresses
is as before. -/
theorem last_call_wins (hB : B.Lawful) (pinBase : ℤ) {s t : Ready B} {tr : List Call}
    (h : (driver hB pinBase).Run s tr t) (c : ℕ) (hc : c < 16) :
    (∀ call n, (addressing pinBase c tr).getLast? = some call → call.demand = some n →
      (channel B t.chip c).level = pulse n) ∧
    (addressing pinBase c tr = [] → channel B t.chip c = channel B s.chip c) := by
  refine ⟨fun call n hlast hn => (setTo_of_last h hc hlast hn).level, fun hnil => ?_⟩
  refine (channelView hB pinBase hc).get_of_none h (fun call ch => channelView_act hc call ch) ?_
  simpa [addressing] using hnil

/-- All channels on, and pulses on two of them. -/
def onThenPulses : List Call := [.digitalWrite 316 1, .pwmWrite 315 368, .pwmWrite 311 300]

theorem onThenPulses_outputs : ∃ t, (driver Chip.bus_lawful 300).Run Chip.awake onThenPulses t ∧
    (channel Chip.bus t.chip 15).level = pulse 368 ∧
    (channel Chip.bus t.chip 3).level = pulse 4096 := by
  obtain ⟨t, hr, -⟩ := (driver Chip.bus_lawful 300).exists_run (s := Chip.awake) onThenPulses
    (P := fun _ => True) (by decide +kernel)
  exact ⟨t, hr,
    (last_call_wins Chip.bus_lawful 300 hr 15 (by decide)).1 (.pwmWrite 315 368) 368 rfl rfl,
    (last_call_wins Chip.bus_lawful 300 hr 3 (by decide)).1 (.digitalWrite 316 1) 4096 rfl rfl⟩

/-! ### Reading back -/

/-- The ticks the two registers of a pin stand for: the bits are masked with `0x1000`, the count
with `0xFFF`. -/
def asked (on off : BitVec 16) : ℕ :=
  if off.getLsbD 12 then 0 else if on.getLsbD 12 then 4096 else (off &&& 0x0FFF).toNat

/-- The word of a half, as it is read. -/
theorem word_half (hi lo : BitVec 8) :
    (hi ++ lo).getLsbD 12 = hi.getLsbD 4 ∧
      ((hi ++ lo) &&& (0x0FFF : BitVec 16)).toNat = (hi.setWidth 4 ++ lo).toNat := by
  constructor
  · rw [BitVec.getLsbD_append]
    rfl
  · have hmask : (0x0FFF : BitVec 16).toNat = 2 ^ 12 - 1 := by decide
    have happend : ∀ {n : ℕ} (x : BitVec n), (x ++ lo).toNat = x.toNat * 256 + lo.toNat := by
      intro n x
      rw [BitVec.toNat_append, ← Nat.shiftLeft_add_eq_or_of_lt lo.isLt, Nat.shiftLeft_eq]
    rw [BitVec.toNat_and, hmask, Nat.and_two_pow_sub_one_eq_mod, happend, happend,
      BitVec.toNat_setWidth]
    have := lo.isLt
    omega

/-- The two words a pin is read as. -/
theorem pwmRead_eq (hB : B.Lawful) (s : Ready B) (pin : ℤ) :
    pca9685PWMRead B s.chip pin =
      (B.readReg8 s.chip (baseReg pin + (1 : ℕ)) ++ B.readReg8 s.chip (baseReg pin + (0 : ℕ)),
        B.readReg8 s.chip (baseReg pin + (3 : ℕ)) ++
          B.readReg8 s.chip (baseReg pin + (2 : ℕ))) := by
  have hword := fun a => hB.word_read s.chip a s.autoIncrement
  unfold pca9685PWMRead
  dsimp only
  rw [hword, hword, Nat.cast_zero, add_zero, add_assoc (baseReg pin) 2 1]
  rfl

theorem asked_of_setTo (hB : B.Lawful) {s : Ready B} {n : ℕ} (hc : c < 16)
    (h : (channel B s.chip c).SetTo n) :
    asked (myOnRead B pinBase s.chip (pinBase + c)) (myOffRead B pinBase s.chip (pinBase + c)) =
      min n 4096 := by
  have hread := pwmRead_eq hB s c
  rw [read_pin hc, read_pin hc, read_pin hc, read_pin hc] at hread
  have hpin : pinBase + (c : ℤ) - pinBase = c := by ring
  unfold myOnRead myOffRead asked
  simp only [hpin, hread, word_half]
  show (if (channel B s.chip c).off.full then 0
    else if (channel B s.chip c).on.full then 4096
    else (channel B s.chip c).off.count.toNat) = min n 4096
  cases h with
  | fullOff off eq => simp [off, eq]
  | fullOn off on le => simp [off, on, le]
  | counts off on zero eq =>
    have := (channel B s.chip c).off.count.isLt
    simp only [off, on, eq, Bool.false_eq_true, if_false]
    omega

/-- **What is read back is what was asked for last**; a pin of all channels reads as zero. -/
theorem read_back (hB : B.Lawful) (pinBase : ℤ) {s t : Ready B} {tr : List Call}
    (h : (driver hB pinBase).Run s tr t) :
    (∀ c < 16, ∀ call n, (addressing pinBase c tr).getLast? = some call → call.demand = some n →
      asked (myOnRead B pinBase t.chip (pinBase + c)) (myOffRead B pinBase t.chip (pinBase + c)) =
        min n 4096) ∧
    ∀ pin, pinBase + pinAll ≤ pin →
      myOnRead B pinBase t.chip pin = 0 ∧ myOffRead B pinBase t.chip pin = 0 := by
  refine ⟨fun c hc call n hlast hn => asked_of_setTo hB hc (setTo_of_last h hc hlast hn), ?_⟩
  intro pin hpin
  have hall : pinAll ≤ pin - pinBase := by omega
  unfold myOnRead myOffRead
  dsimp only
  rw [pwmRead_eq hB t, read_all hB hall (by omega), read_all hB hall (by omega),
    read_all hB hall (by omega), read_all hB hall (by omega)]
  exact ⟨rfl, rfl⟩

theorem onThenPulses_read : ∃ t, (driver Chip.bus_lawful 300).Run Chip.awake onThenPulses t ∧
    asked (myOnRead Chip.bus 300 t.chip 311) (myOffRead Chip.bus 300 t.chip 311) = 300 := by
  obtain ⟨t, hr, -⟩ := (driver Chip.bus_lawful 300).exists_run (s := Chip.awake) onThenPulses
    (P := fun _ => True) (by decide +kernel)
  exact ⟨t, hr, (read_back Chip.bus_lawful 300 hr).1 11 (by decide) (.pwmWrite 311 300) 300 rfl rfl⟩

end Outputs

end Vehicle.Recovery.Pca9685
