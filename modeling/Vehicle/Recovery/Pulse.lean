import Mathlib.Data.Fintype.Fin
import Vehicle.Recovery.Driver
import Vehicle.Recovery.Prescale

/-!
# recovery: the pulses on the pins

The two controllers run as processes of their own and share the PWM chip. A pulse is two words on
the bus, and between them words of the other process may pass. Behind every word of any such order a
pin puts out the last pulse that has come through whole, and its length is the one asked for, up to
what a tick and the prescaler make of it (`pulses_on_pins`).
-/

namespace Vehicle.Recovery

open Vehicle.Trace Pca9685

variable {σ : Type}

/-! ### `Pca::Pca` -/

/-- `pwmWrite`, with what `Pca::setSpeed` and `Pca::setDirect` give it. -/
def Pca.pwmWrite (B : Bus σ) (s : σ) (w : ℤ × ℤ) : σ := myPwmWrite B pinBase s w.1 w.2

/-- `Pca::Pca`, where the setup returns the descriptor `fd`. -/
def Pca.new (B : Bus σ) (fd : ℤ) (s : σ) : Option σ :=
  let s := (pca9685Setup B true fd s hertz).2
  let s := pca9685PWMReset B s
  (Pca.setSpeed 1.5).bind fun w =>
    let s := Pca.pwmWrite B s w
    (Pca.setDirect 1.5).map fun w => Pca.pwmWrite B s w

/-! ### Words on the bus -/

/-- A word for the on-count or, as the second one, for the off-count of a pin. -/
structure Word where
  pin : ℤ
  second : Bool
  value : BitVec 16
  deriving DecidableEq

namespace Word

/-- The word reaches the chip. -/
def send (B : Bus σ) (s : σ) (w : Word) : σ :=
  B.writeReg16 s (if w.second then baseReg w.pin + 2 else baseReg w.pin) w.value

/-- What a word does to a channel it is for. -/
def effect (w : Word) (ch : Channel) : Channel :=
  if w.second then { ch with off := .ofWord w.value } else { ch with on := .ofWord w.value }

theorem changes {B : Bus σ} {s : σ} (hB : B.Lawful) (h : B.AutoIncrement s) (w : Word)
    (hpin : 0 ≤ w.pin) : Changes B w.pin w.effect s (w.send B s) := by
  cases w with
  | mk pin second value =>
    cases second with
    | false => exact changes_writeOn hB h hpin value
    | true => exact changes_writeOff hB h hpin value

end Word

/-- The first word of a pulse, for a pin of wiringPi. -/
def onWord (pin : ℤ) : Word := ⟨pin - Pca.pinBase, false, BitVec.ofInt 16 0 &&& 0x0FFF⟩

/-- The second word of a pulse of `n` ticks. -/
def offWord (pin n : ℤ) : Word := ⟨pin - Pca.pinBase, true, BitVec.ofInt 16 n &&& 0x0FFF⟩

/-- The words of a pulse. -/
def pulseWords (w : ℤ × ℤ) : List Word := [onWord w.1, offWord w.1 w.2]

/-- The first word sets the on-count to what it is behind every pulse. -/
theorem effect_onWord (pin n : ℤ) : (onWord pin).effect (.pwm 0 n) = .pwm 0 n := by
  rw [onWord, Word.effect, if_neg (by simp), ofWord_count]
  rfl

theorem effect_offWord (pin m n : ℤ) : (offWord pin n).effect (.pwm 0 m) = .pwm 0 n := by
  rw [offWord, Word.effect, if_pos rfl, ofWord_count]
  rfl

/-- A pulse that is neither full-on nor full-off is its two words. -/
theorem pwmWrite_eq_words (B : Bus σ) (s : σ) {w : ℤ × ℤ} (h0 : 0 < w.2) (h1 : w.2 < 4096) :
    Pca.pwmWrite B s w = (pulseWords w).foldl (fun s w => w.send B s) s := by
  unfold Pca.pwmWrite myPwmWrite
  dsimp only
  rw [if_neg (not_le.mpr h1), if_pos h0]
  rfl

/-- The words of an act of a part. -/
def Act.words : Act → List Word
  | .setDirect x => ((Pca.setDirect x).map pulseWords).getD []
  | .setSpeed x => ((Pca.setSpeed x).map pulseWords).getD []
  | _ => []

/-- **The bus**: words, each with the part it comes from, in any order. -/
def i2c {B : Bus σ} (hB : B.Lawful) : Lts (Ready B) (PartType × Word) where
  init _ := True
  step s l :=
    if hpin : 0 ≤ l.2.pin then
      some ⟨l.2.send B s.chip,
        (l.2.changes hB s.autoIncrement hpin).sameSetup.autoIncrement s.autoIncrement⟩
    else none

/-- The words of the bus are those the parts send, each part's in its own order; the last ones may
still be missing. -/
def Carries (bus : List (PartType × Word)) (tr : List Access) : Prop :=
  ∀ p, (bus.filter fun l => l.1 = p).map Prod.snd <+:
    (tr.filter fun e => e.part = p).flatMap fun e => e.act.words

/-- The pulses of a part that have come through whole. -/
def complete (p : PartType) (bus : List (PartType × Word)) : ℕ :=
  bus.countP fun l => decide (l.1 = p) && l.2.second

/-- The last of the first `k` pulses, or the one of the constructor. -/
def currentPulse (k : ℕ) (asked : List ℚ) : ℚ := ((asked.take k).getLast?).getD 1.5

/-- What the steering is set to. -/
def Access.direct (e : Access) : Option ℚ :=
  match e.act with
  | .setDirect x => some x
  | _ => none

/-- What the throttle is set to. -/
def Access.speed (e : Access) : Option ℚ :=
  match e.act with
  | .setSpeed x => some x
  | _ => none

/-- The milliseconds a channel is high in a cycle. -/
def highMs (B : Bus σ) (s : σ) (c : ℕ) : ℚ :=
  (Finset.univ.filter fun tick => (channel B s c).level tick = true).card *
    cycleMs (B.readReg8 s prescale) / 4096

section Words

/-- The words of pulses of `ns` ticks, one after the other. -/
def wordsOf (pin : ℤ) (ns : List ℤ) : List Word := ns.flatMap fun n => pulseWords (pin, n)

/-- **What a part of these words leaves**: the last pulse that has come through whole. -/
theorem foldl_words (pin : ℤ) (ns : List ℤ) (n₀ : ℤ) (l : List Word) (h : l <+: wordsOf pin ns) :
    l.foldl (fun ch w => w.effect ch) (.pwm 0 n₀) =
      .pwm 0 (((ns.take (l.countP Word.second)).getLast?).getD n₀) := by
  induction ns generalizing n₀ l with
  | nil =>
    obtain rfl : l = [] := by simpa [wordsOf] using h
    rfl
  | cons n ns ih =>
    have hcons : wordsOf pin (n :: ns) = onWord pin :: offWord pin n :: wordsOf pin ns := rfl
    rw [hcons] at h
    cases l with
    | nil => rfl
    | cons a l =>
      obtain ⟨rfl, hl⟩ := List.cons_prefix_cons.mp h
      rw [List.foldl_cons, effect_onWord]
      cases l with
      | nil => rfl
      | cons b l =>
        obtain ⟨rfl, hrest⟩ := List.cons_prefix_cons.mp hl
        have hcount : (onWord pin :: offWord pin n :: l).countP Word.second =
            l.countP Word.second + 1 := by
          simp [onWord, offWord]
        rw [List.foldl_cons, effect_offWord, ih n l hrest, hcount, List.take_succ_cons,
          List.getLast?_cons, Option.getD_some]

end Words

/-! ### The chip after the constructor -/

section Construction

variable {B : Bus σ} {s : σ}

/-- The ticks of a pulse. -/
def ticks (x : ℚ) : ℤ := ⌊245.76 * x⌋

theorem setDirect_eq {x : ℚ} (h1 : 1 ≤ x) (h2 : x ≤ 2) :
    Pca.setDirect x = some (Pca.pinBase + 11, ticks x) := by
  rw [Pca.setDirect, Pca.calcTicks_eq h1 h2]
  rfl

theorem setSpeed_eq {x : ℚ} (h1 : 1 ≤ x) (h2 : x ≤ 2) :
    Pca.setSpeed x = some (Pca.pinBase + 15, ticks x) := by
  rw [Pca.setSpeed, Pca.calcTicks_eq h1 h2]
  rfl

theorem ticks_mem {x : ℚ} (h1 : 1 ≤ x) (h2 : x ≤ 2) : 245 ≤ ticks x ∧ ticks x ≤ 491 := by
  unfold ticks
  constructor
  · rw [Int.le_floor]
    push_cast
    linarith
  · have hlt : ⌊245.76 * x⌋ < 492 := by
      rw [Int.floor_lt]
      push_cast
      linarith
    omega

/-- What a pulse does to the chip. -/
theorem changes_pulse (hB : B.Lawful) (h : B.AutoIncrement s) {pin n : ℤ} (hpin : 0 ≤ pin)
    (h0 : 0 < n) (h1 : n < 4096) :
    Changes B pin (fun _ => .pwm 0 n) s (Pca.pwmWrite B s (Pca.pinBase + pin, n)) := by
  unfold Pca.pwmWrite myPwmWrite
  dsimp only
  rw [if_neg (not_le.mpr h1), if_pos h0, add_sub_cancel_left]
  exact changes_pwmWrite hB h hpin 0 n

/-- **The chip after the constructor**: both pins have a pulse of 1.5 ms, the others none. -/
structure Constructed (B : Bus σ) (s : σ) : Prop where
  autoIncrement : B.AutoIncrement s
  prescale : B.readReg8 s prescale = 101
  channel : ∀ c < 16, channel B s c = if c = 11 ∨ c = 15 then .pwm 0 (ticks 1.5) else .reset

theorem new_constructed (hB : B.Lawful) {fd : ℤ} (hfd : 0 ≤ fd) (s : σ) :
    ∃ s', Pca.new B fd s = some s' ∧ Constructed B s' := by
  have h1 : (1 : ℚ) ≤ 1.5 := by norm_num
  have h2 : (1.5 : ℚ) ≤ 2 := by norm_num
  obtain ⟨hlo, hhi⟩ := ticks_mem h1 h2
  obtain ⟨hinc, -⟩ := turnOnIncrement_spec hB s
  obtain ⟨hpre, -, hkeep, -⟩ := pwmFreq_spec hB (turnOnIncrement B s) Pca.hertz
  set s1 := pca9685PWMFreq B (turnOnIncrement B s) Pca.hertz with hs1
  have hsetup : (pca9685Setup B true fd s Pca.hertz).2 = s1 := by
    rw [setup_eq hfd, if_pos (by norm_num [Pca.hertz])]
  have hround : round (quotient Pca.hertz + 0.5) = 102 := by
    have hclocks : clocks (capped Pca.hertz) = 390625 / 3840 := by
      norm_num [capped, clocks, Pca.hertz]
    have hoff := abs_le.mp (abs_quotient_sub_le Pca.hertz)
    rw [hclocks] at hoff
    rw [round_eq, Int.floor_eq_iff]
    push_cast
    constructor <;> linarith
  have c1 := changes_reset hB (hkeep.mpr hinc)
  have i1 := c1.sameSetup.autoIncrement (hkeep.mpr hinc)
  have c2 := changes_pulse hB i1 (by norm_num : (0 : ℤ) ≤ 15) (by omega : 0 < ticks 1.5) (by omega)
  have i2 := c2.sameSetup.autoIncrement i1
  have c3 := changes_pulse hB i2 (by norm_num : (0 : ℤ) ≤ 11) (by omega : 0 < ticks 1.5) (by omega)
  have hnew : Pca.new B fd s = some (Pca.pwmWrite B
      (Pca.pwmWrite B (pca9685PWMReset B s1) (Pca.pinBase + 15, ticks 1.5))
      (Pca.pinBase + 11, ticks 1.5)) := by
    unfold Pca.new
    rw [hsetup, setSpeed_eq h1 h2, setDirect_eq h1 h2]
    rfl
  refine ⟨_, hnew, c3.sameSetup.autoIncrement i2, ?_, fun c hc => ?_⟩
  · rw [((c1.sameSetup.trans c2.sameSetup).trans c3.sameSetup).prescale]
    apply BitVec.eq_of_toNat_eq
    show _ = 101
    omega
  · have hall : Addresses pinAll c := Or.inr le_rfl
    have h11 : Addresses 11 c ↔ c = 11 := by
      unfold Addresses pinAll
      omega
    have h15 : Addresses 15 c ↔ c = 15 := by
      unfold Addresses pinAll
      omega
    rw [c3.channel c hc, c2.channel c hc, c1.channel c hc, if_pos hall, if_congr h11 rfl rfl,
      if_congr h15 rfl rfl]
    by_cases h : c = 11
    · rw [if_pos h, if_pos (Or.inl h)]
    · rw [if_neg h]
      exact if_congr (by tauto) rfl rfl

end Construction

/-! ### What the parts send -/

/-- An actuator: the part that sets it, its channel, and the pulses it is set to. -/
structure Actuator where
  part : PartType
  channel : ℕ
  pulse : Access → Option ℚ

def steering : Actuator := ⟨.servoPID, 11, Access.direct⟩

def throttle : Actuator := ⟨.throttlePID, 15, Access.speed⟩

/-- The actuators are set by the part they belong to alone, in the range the ticks are made for. -/
structure Access.Proper (e : Access) : Prop where
  direct : ∀ x, e.act = .setDirect x → e.part = .servoPID ∧ 1 ≤ x ∧ x ≤ 2
  speed : ∀ x, e.act = .setSpeed x → e.part = .throttlePID ∧ 1 ≤ x ∧ x ≤ 2

theorem proper_of_run {tr : List Access} {q : PartType → Proc}
    (h : exposedParts.Run constructed tr q) : ∀ e ∈ tr, e.Proper := by
  have hinv : Steady q ∧ ∀ e ∈ tr, e.Proper := by
    refine h.inv (I := fun tr q => Steady q ∧ ∀ e ∈ tr, e.Proper)
      ⟨Steady.constructed, by simp⟩ ?_
    rintro tr q e r - ⟨hq, htr⟩ hs
    refine ⟨hq.step hs, fun b hb => ?_⟩
    rcases List.mem_append.mp hb with hb | hb
    · exact htr b hb
    · obtain rfl := List.mem_singleton.mp hb
      obtain ⟨l, k, hl, hk, hag, -⟩ := access_step hs
      have hpt : Point b.part (b.act.instr :: k) := hk ▸ hq.point b.part l hl
      obtain ⟨hdirect, hspeed⟩ := setter_eq hpt.head_mem
      obtain ⟨hd, hsp⟩ := hq.inRange hs
      refine ⟨fun x hx => ⟨hdirect (by rw [hx]; rfl), hd x hx⟩, fun x hx => ?_⟩
      obtain ⟨h1, h2⟩ := hsp x hx
      exact ⟨hspeed (by rw [hx]; rfl), by linarith, h2⟩
  exact hinv.2

section Actuators

variable {A : Actuator} {e : Access} {tr : List Access}

/-- The words of an access are those of a pulse of its part's actuator, if any. -/
theorem words_eq (hA : A = steering ∨ A = throttle) (he : e.Proper) (hp : e.part = A.part) :
    e.act.words = ((A.pulse e).map fun x =>
      pulseWords (Pca.pinBase + A.channel, ticks x)).getD [] := by
  obtain ⟨s, p, a⟩ := e
  rcases hA with rfl | rfl
  · cases a with
    | setDirect x =>
      obtain ⟨-, h1, h2⟩ := he.direct x rfl
      simp only [Act.words, setDirect_eq h1 h2, steering, Access.direct]
      rfl
    | setSpeed x =>
      obtain ⟨hpart, -⟩ := he.speed x rfl
      cases hpart.symm.trans hp
    | _ => rfl
  · cases a with
    | setDirect x =>
      obtain ⟨hpart, -⟩ := he.direct x rfl
      cases hpart.symm.trans hp
    | setSpeed x =>
      obtain ⟨-, h1, h2⟩ := he.speed x rfl
      simp only [Act.words, setSpeed_eq h1 h2, throttle, Access.speed]
      rfl
    | _ => rfl

theorem pulse_eq_none (hA : A = steering ∨ A = throttle) (he : e.Proper) (hp : e.part ≠ A.part) :
    A.pulse e = none := by
  obtain ⟨s, p, a⟩ := e
  rcases hA with rfl | rfl
  · cases a with
    | setDirect x => exact absurd (he.direct x rfl).1 hp
    | _ => rfl
  · cases a with
    | setSpeed x => exact absurd (he.speed x rfl).1 hp
    | _ => rfl

/-- **What the part of an actuator sends**: the words of the pulses, one after the other. -/
theorem flatMap_words (hA : A = steering ∨ A = throttle) (htr : ∀ e ∈ tr, e.Proper) :
    ((tr.filter fun e => e.part = A.part).flatMap fun e => e.act.words) =
      wordsOf (Pca.pinBase + A.channel) ((tr.filterMap A.pulse).map ticks) := by
  induction tr with
  | nil => rfl
  | cons e tr ih =>
    have he := htr e (by simp)
    have ih := ih fun e he => htr e (List.mem_cons_of_mem _ he)
    by_cases hp : e.part = A.part
    · rw [List.filter_cons_of_pos (by simpa using hp), List.flatMap_cons, ih, words_eq hA he hp]
      cases hx : A.pulse e with
      | none => simp [hx]
      | some x =>
        rw [List.filterMap_cons_some hx]
        rfl
    · rw [List.filter_cons_of_neg (by simpa using hp), ih,
        List.filterMap_cons_none (pulse_eq_none hA he hp)]

end Actuators

/-! ### What the pins put out -/

section Bus

variable {B : Bus σ} {hB : B.Lawful} {s t : Ready B} {bus : List (PartType × Word)}
  {tr : List Access} {c : ℕ}

theorem i2c_step {l : PartType × Word} (h : (i2c hB).step s l = some t) :
    Changes B l.2.pin l.2.effect s.chip t.chip := by
  simp only [i2c, Option.dite_none_right_eq_some, Option.some.injEq] at h
  obtain ⟨hpin, rfl⟩ := h
  exact l.2.changes hB s.autoIncrement hpin

/-- A channel, on which the words for it act. -/
def wordView (hB : B.Lawful) (hc : c < 16) : View (i2c hB) Channel where
  get s := channel B s.chip c
  act l ch := if Addresses l.2.pin c then l.2.effect ch else ch
  get_step h := (i2c_step h).channel c hc

theorem sameSetup_bus (h : (i2c hB).Run s bus t) : SameSetup B s.chip t.chip := by
  refine h.inv (I := fun _ t => SameSetup B s.chip t.chip) ⟨fun _ _ => rfl, rfl⟩ ?_
  intro bus t l u _ ih hs
  exact ih.trans (i2c_step hs).sameSetup

/-- Each word on the bus is for the actuator of the part it comes from. -/
theorem Carries.owner (h : Carries bus tr) (htr : ∀ e ∈ tr, e.Proper) :
    ∀ l ∈ bus, l.1 = .servoPID ∧ l.2.pin = 11 ∨ l.1 = .throttlePID ∧ l.2.pin = 15 := by
  intro l hl
  have hmem : l.2 ∈ (bus.filter fun m => m.1 = l.1).map Prod.snd :=
    List.mem_map_of_mem (List.mem_filter.mpr ⟨hl, by simp⟩)
  obtain ⟨e, he, hw⟩ := List.mem_flatMap.mp ((h l.1).subset hmem)
  obtain ⟨hetr, hpart⟩ := List.mem_filter.mp he
  have hpart : e.part = l.1 := by simpa using hpart
  have hpulse : ∀ w : ℤ × ℤ, l.2 ∈ pulseWords w → l.2.pin = w.1 - Pca.pinBase := by
    intro w hw
    rcases List.mem_pair.mp hw with h | h <;> rw [h] <;> rfl
  cases hact : e.act with
  | setDirect x =>
    obtain ⟨hp, h1, h2⟩ := (htr e hetr).direct x hact
    rw [hact, Act.words, setDirect_eq h1 h2] at hw
    exact Or.inl ⟨hpart.symm.trans hp, (hpulse _ hw).trans (by norm_num)⟩
  | setSpeed x =>
    obtain ⟨hp, h1, h2⟩ := (htr e hetr).speed x hact
    rw [hact, Act.words, setSpeed_eq h1 h2] at hw
    exact Or.inr ⟨hpart.symm.trans hp, (hpulse _ hw).trans (by norm_num)⟩
  | _ =>
    rw [hact] at hw
    cases hw

/-- The words for an actuator are those of its part. -/
theorem filter_actuator {A : Actuator} (hA : A = steering ∨ A = throttle) (hbus : Carries bus tr)
    (htr : ∀ e ∈ tr, e.Proper) :
    (bus.filter fun l => Addresses l.2.pin A.channel) = bus.filter fun l => l.1 = A.part := by
  refine List.filter_congr fun l hl => decide_eq_decide.mpr ?_
  unfold Addresses pinAll
  rcases hbus.owner htr l hl with ⟨hp, hpin⟩ | ⟨hp, hpin⟩ <;>
    rcases hA with rfl | rfl <;> simp [hp, hpin, steering, throttle]

theorem ticks_currentPulse (k : ℕ) (xs : List ℚ) :
    ticks (currentPulse k xs) = ((((xs.map ticks).take k).getLast?).getD (ticks 1.5)) := by
  rw [currentPulse, ← List.map_take, List.getLast?_map, Option.getD_map]

/-- **A channel of an actuator** has the last pulse that has come through whole. -/
theorem channel_of_carries {A : Actuator} (hA : A = steering ∨ A = throttle)
    (hs : Constructed B s.chip) (h : (i2c hB).Run s bus t) (hbus : Carries bus tr)
    (htr : ∀ e ∈ tr, e.Proper) :
    channel B t.chip A.channel =
      .pwm 0 (ticks (currentPulse (complete A.part bus) (tr.filterMap A.pulse))) := by
  have hc : A.channel = 11 ∨ A.channel = 15 := by
    rcases hA with rfl | rfl
    · exact Or.inl rfl
    · exact Or.inr rfl
  have hc16 : A.channel < 16 := by omega
  have hstart : channel B s.chip A.channel = .pwm 0 (ticks 1.5) :=
    (hs.channel _ hc16).trans (if_pos hc)
  have hcount : (((bus.filter fun l => l.1 = A.part).map Prod.snd).countP Word.second) =
      complete A.part bus := by
    rw [List.countP_map, List.countP_filter]
    exact List.countP_congr fun l _ => by simp [and_comm]
  have hprefix := hbus A.part
  rw [flatMap_words hA htr] at hprefix
  calc channel B t.chip A.channel
      = (bus.filter fun l => Addresses l.2.pin A.channel).foldl
          (fun ch l => (wordView hB hc16).act l ch) (channel B s.chip A.channel) :=
        (wordView hB hc16).get_run_filter h fun l ch hno => if_neg hno
    _ = (bus.filter fun l => Addresses l.2.pin A.channel).foldl
          (fun ch l => l.2.effect ch) (channel B s.chip A.channel) := by
        refine List.foldl_ext _ _ _ fun ch l hl => if_pos ?_
        simpa using (List.mem_filter.mp hl).2
    _ = ((bus.filter fun l => l.1 = A.part).map Prod.snd).foldl
          (fun ch w => w.effect ch) (.pwm 0 (ticks 1.5)) := by
        rw [filter_actuator hA hbus htr, List.foldl_map, hstart]
    _ = .pwm 0 (ticks (currentPulse (complete A.part bus) (tr.filterMap A.pulse))) := by
        rw [foldl_words _ _ _ _ hprefix, hcount, ticks_currentPulse]

/-- The other channels are as they were. -/
theorem channel_other (hc : c < 16) (h11 : c ≠ 11) (h15 : c ≠ 15) (h : (i2c hB).Run s bus t)
    (hbus : Carries bus tr) (htr : ∀ e ∈ tr, e.Proper) :
    channel B t.chip c = channel B s.chip c := by
  refine (wordView hB hc).get_of_none (p := fun l => Addresses l.2.pin c) h
    (fun l ch hno => if_neg hno) fun l hl had => ?_
  unfold Addresses pinAll at had
  rcases hbus.owner htr l hl with ⟨-, hpin⟩ | ⟨-, hpin⟩ <;> omega

/-- The pulse of an actuator is one the ticks are made for. -/
theorem currentPulse_mem {A : Actuator} (hA : A = steering ∨ A = throttle)
    (htr : ∀ e ∈ tr, e.Proper) (k : ℕ) :
    1 ≤ currentPulse k (tr.filterMap A.pulse) ∧ currentPulse k (tr.filterMap A.pulse) ≤ 2 := by
  unfold currentPulse
  cases hlast : ((tr.filterMap A.pulse).take k).getLast? with
  | none => norm_num
  | some x =>
    obtain ⟨e, he, hx⟩ := List.mem_filterMap.mp (List.mem_of_mem_take (List.mem_of_getLast? hlast))
    obtain ⟨s, p, a⟩ := e
    have he := htr _ he
    rw [Option.getD_some]
    rcases hA with rfl | rfl
    · cases a with
      | setDirect y =>
        obtain rfl : y = x := Option.some.inj hx
        exact (he.direct y rfl).2
      | _ => cases hx
    · cases a with
      | setSpeed y =>
        obtain rfl : y = x := Option.some.inj hx
        exact (he.speed y rfl).2
      | _ => cases hx

/-- The milliseconds of a pulse, at the prescaler of the constructor. -/
theorem highMs_pwm {s : σ} (hpre : B.readReg8 s prescale = 101) {n : ℤ} (h0 : 0 < n)
    (h1 : n < 4096) (hch : channel B s c = .pwm 0 n) : highMs B s c = n * 0.00408 := by
  have hset : (channel B s c).SetTo n.toNat := by
    rw [hch]
    refine .counts rfl rfl rfl ?_
    rw [Channel.pwm, BitVec.toNat_ofInt]
    omega
  have hcard :
      (Finset.univ.filter fun tick => (channel B s c).level tick = true).card = n.toNat := by
    rw [hset.level]
    simp only [pulse, decide_eq_true_eq]
    rw [Fin.card_filter_val_lt]
    omega
  have hcast : ((n.toNat : ℕ) : ℚ) = n := by
    exact_mod_cast Int.toNat_of_nonneg h0.le
  unfold highMs cycleMs
  rw [hcard, hcast, hpre, show (101 : BitVec 8).toNat = 101 from rfl]
  push_cast
  ring

/-- A pulse is as long as it was asked for, up to what a tick and the prescaler make of it. -/
theorem abs_ticks_sub_le {x : ℚ} (h1 : 1 ≤ x) (h2 : x ≤ 2) :
    |(ticks x : ℚ) * 0.00408 - x| ≤ 0.0055 := by
  have hlo : (ticks x : ℚ) ≤ 245.76 * x := Int.floor_le _
  have hhi : 245.76 * x < ticks x + 1 := Int.lt_floor_add_one _
  rw [abs_le]
  constructor <;> linarith

/-- **The pulses on the pins**: whatever the controllers find, and however their words follow one
another on the bus, behind every word each pin is high for as long as the last pulse that has come
through whole was asked to be, up to 0.0055 ms; the other channels stay low. -/
theorem pulses_on_pins (hB : B.Lawful) {fd : ℤ} (hfd : 0 ≤ fd) {s₀ : σ}
    (hs : Pca.new B fd s₀ = some s.chip) {q : PartType → Proc}
    (hq : exposedParts.Run constructed tr q) (h : (i2c hB).Run s bus t) (hbus : Carries bus tr) :
    (∀ A, A = steering ∨ A = throttle → |highMs B t.chip A.channel -
      currentPulse (complete A.part bus) (tr.filterMap A.pulse)| ≤ 0.0055) ∧
    ∀ c < 16, c ≠ 11 → c ≠ 15 → highMs B t.chip c = 0 := by
  obtain ⟨s', hs', hcons⟩ := new_constructed hB hfd s₀
  obtain rfl : s' = s.chip := Option.some.inj (hs'.symm.trans hs)
  have htr := proper_of_run hq
  constructor
  · intro A hA
    obtain ⟨h1, h2⟩ := currentPulse_mem hA htr (complete A.part bus)
    obtain ⟨hlo, hhi⟩ := ticks_mem h1 h2
    have hpre := (sameSetup_bus h).prescale.trans hcons.prescale
    rw [highMs_pwm hpre (by omega) (by omega) (channel_of_carries hA hcons h hbus htr)]
    exact abs_ticks_sub_le h1 h2
  · intro c hc h11 h15
    have hch : channel B t.chip c = .reset :=
      (channel_other hc h11 h15 h hbus htr).trans ((hcons.channel c hc).trans (if_neg (by tauto)))
    have hlevel : (channel B t.chip c).level = pulse 0 := by
      rw [hch]
      exact Channel.SetTo.level (.fullOff rfl rfl)
    unfold highMs
    rw [hlevel]
    simp [pulse]

end Bus

/-- The words of a pulse of 1 ms for the steering. -/
def steerWords : List (PartType × Word) :=
  (pulseWords (Pca.pinBase + 11, 245)).map fun w => (.servoPID, w)

theorem steerFully_on_pins : ∃ s t, Pca.new Chip.bus 3 Chip.powerOn = some s.chip ∧
    (i2c Chip.bus_lawful).Run s steerWords t ∧ |highMs Chip.bus t.chip 11 - 1| ≤ 0.0055 := by
  obtain ⟨chip, hnew, hcons⟩ := new_constructed Chip.bus_lawful (by norm_num : (0 : ℤ) ≤ 3)
    Chip.powerOn
  obtain ⟨q, hq, -⟩ := exposedParts.exists_run (s := constructed) steerFully
    (P := fun _ => True) (by decide +kernel)
  have hbus : Carries steerWords steerFully := by
    intro p
    cases p <;> decide +kernel
  have hone : currentPulse (complete steering.part steerWords)
      (steerFully.filterMap steering.pulse) = 1 := by
    decide +kernel
  let s : Ready Chip.bus := ⟨chip, hcons.autoIncrement⟩
  obtain ⟨t, ht, -⟩ := (i2c Chip.bus_lawful).exists_run (s := s) steerWords
    (P := fun _ => True) rfl
  have hdirect := (pulses_on_pins (s := s) Chip.bus_lawful (by norm_num : (0 : ℤ) ≤ 3) hnew hq ht
    hbus).1 steering (Or.inl rfl)
  rw [hone] at hdirect
  exact ⟨s, t, hnew, ht, hdirect⟩

end Vehicle.Recovery
