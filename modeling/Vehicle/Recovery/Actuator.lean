import Mathlib.Algebra.Order.Field.Basic
import Mathlib.Data.Rat.Floor
import Mathlib.Tactic.Linarith
import Mathlib.Tactic.NormNum
import Vehicle.Recovery.Announce

/-!
# recovery: what reaches the actuators

`pca.cpp`, and the controllers in whatever State they find: `exposedParts` lets anybody change the
whole State between two accesses of a part, so the flags, the gains and the measured values are
arbitrary. The output of a controller stays within its limits (`Limited`), so the pulses stay within
the range `Pca::calcTicks` accepts.
-/

namespace Vehicle.Recovery

open Vehicle.Trace Vehicle.Trace.Cyclic

/-! ### `pca.cpp` -/

/-- The conversion to `int` drops the fraction. -/
def truncate (x : ℚ) : ℤ := x.num.tdiv x.den

namespace Pca

/-- `PIN_BASE`. -/
def pinBase : ℤ := 300

/-- `MAX_PWM`. -/
def maxPwm : ℚ := 4096

/-- `HERTZ`. -/
def hertz : ℚ := 60

/-- `Pca::calcTicks`; `none` is `exit(1)`. -/
def calcTicks (impulseMs hertz : ℚ) : Option ℤ :=
  if impulseMs > 2 ∨ impulseMs < 1 then none
  else
    let cycleMs := 1 / hertz
    some (truncate (maxPwm * impulseMs * 0.001 / cycleMs))

/-- `Pca::setSpeed`: what `pwmWrite` is given. -/
def setSpeed (pulse : ℚ) : Option (ℤ × ℤ) :=
  (calcTicks pulse hertz).map fun ticks => (pinBase + 15, ticks)

/-- `Pca::setDirect`. -/
def setDirect (pulse : ℚ) : Option (ℤ × ℤ) :=
  (calcTicks pulse hertz).map fun ticks => (pinBase + 11, ticks)

end Pca

/-- A part exits in `Pca::setDirect` and `Pca::setSpeed` where `calcTicks` does. -/
theorem exits_eq_calcTicks (x : ℚ) :
    (Act.setDirect x).exits = (Pca.setDirect x).isNone ∧
      (Act.setSpeed x).exits = (Pca.setSpeed x).isNone := by
  unfold Act.exits Pca.setDirect Pca.setSpeed Pca.calcTicks
  by_cases h : x > 2 ∨ x < 1
  · rw [if_pos h]
    simpa using h
  · rw [if_neg h]
    simpa using h

theorem truncate_eq_floor {x : ℚ} (h : 0 ≤ x) : truncate x = ⌊x⌋ := by
  rw [truncate, Rat.floor_def', Int.tdiv_eq_ediv_of_nonneg (Rat.num_nonneg.mpr h)]

/-- The ticks of a pulse `calcTicks` accepts: 245.76 a millisecond. -/
theorem Pca.calcTicks_eq {x : ℚ} (h1 : 1 ≤ x) (h2 : x ≤ 2) :
    Pca.calcTicks x Pca.hertz = some ⌊245.76 * x⌋ := by
  have hval : Pca.maxPwm * x * 0.001 / (1 / Pca.hertz) = 245.76 * x := by
    unfold Pca.maxPwm Pca.hertz
    ring
  unfold Pca.calcTicks
  rw [if_neg (by rintro (h | h) <;> linarith)]
  dsimp only
  rw [hval, truncate_eq_floor (by linarith)]

/-- The ticks do not fall when the pulse grows. -/
theorem Pca.calcTicks_mono {x y : ℚ} {m n : ℤ} (hm : Pca.calcTicks x Pca.hertz = some m)
    (hn : Pca.calcTicks y Pca.hertz = some n) (hxy : x ≤ y) : m ≤ n := by
  have hrange : ∀ {z : ℚ} {k : ℤ}, Pca.calcTicks z Pca.hertz = some k → 1 ≤ z ∧ z ≤ 2 := by
    intro z k hz
    unfold Pca.calcTicks at hz
    split at hz
    · cases hz
    · rename_i hno
      rw [not_or, not_lt, not_lt] at hno
      exact ⟨hno.2, hno.1⟩
  obtain ⟨hx1, hx2⟩ := hrange hm
  obtain ⟨hy1, hy2⟩ := hrange hn
  rw [Pca.calcTicks_eq hx1 hx2, Option.some.injEq] at hm
  rw [Pca.calcTicks_eq hy1 hy2, Option.some.injEq] at hn
  rw [← hm, ← hn]
  exact Int.floor_le_floor (by linarith)

/-- The ticks of the pulses from `lo` on. -/
theorem Pca.calcTicks_range {lo x : ℚ} {m : ℤ} (hlo : 1 ≤ lo) (hm : (m : ℚ) ≤ 245.76 * lo)
    (h1 : lo ≤ x) (h2 : x ≤ 2) :
    ∃ n, Pca.calcTicks x Pca.hertz = some n ∧ m ≤ n ∧ n ≤ 491 := by
  refine ⟨_, Pca.calcTicks_eq (by linarith) h2, ?_, ?_⟩
  · rw [Int.le_floor]
    linarith
  · have hlt : ⌊245.76 * x⌋ < 492 := by
      rw [Int.floor_lt]
      push_cast
      linarith
    omega

/-! ### The limits of the controllers -/

theorem MiniPID.clamp_mem {value min max : ℚ} (h : min ≤ max) :
    min ≤ clamp value min max ∧ clamp value min max ≤ max := by
  unfold clamp
  split
  · exact ⟨h, le_rfl⟩
  · rename_i hmax
    split
    · exact ⟨le_rfl, h⟩
    · rename_i hmin
      exact ⟨not_lt.mp hmin, not_lt.mp hmax⟩

/-- The controller restricts its output to a range, and nothing changes it behind that. -/
structure MiniPID.Limited (pid : MiniPID) (lo hi : ℚ) : Prop where
  minOutput : pid.minOutput = lo
  maxOutput : pid.maxOutput = hi
  outputFilter : pid.outputFilter = 0

namespace MiniPID.Limited

variable {pid : MiniPID} {lo hi : ℚ}

theorem new (p i d : ℚ) (h : lo ≤ hi) :
    ((MiniPID.new p i d).setOutputLimits lo hi).Limited lo hi := by
  unfold MiniPID.setOutputLimits
  rw [if_neg (not_lt.mpr h)]
  dsimp only
  split
  · exact ⟨rfl, rfl, rfl⟩
  · exact ⟨rfl, rfl, rfl⟩

theorem setPID (h : pid.Limited lo hi) (p i d : ℚ) : (pid.setPID p i d).Limited lo hi :=
  ⟨h.minOutput, h.maxOutput, h.outputFilter⟩

theorem getOutput (h : pid.Limited lo hi) (actual setpoint : ℚ) :
    (pid.getOutput actual setpoint).2.Limited lo hi :=
  ⟨h.minOutput, h.maxOutput, h.outputFilter⟩

/-- **The output of a controller stays within its limits**, whatever its gains, its history and its
arguments. -/
theorem output_mem (h : pid.Limited lo hi) (hlt : lo < hi) (actual setpoint : ℚ) :
    lo ≤ (pid.getOutput actual setpoint).1 ∧ (pid.getOutput actual setpoint).1 ≤ hi := by
  unfold MiniPID.getOutput
  simp only [h.minOutput, h.maxOutput, h.outputFilter, ne_eq, hlt.ne, not_true_eq_false,
    not_false_eq_true, if_true, if_false]
  exact clamp_mem hlt.le

end MiniPID.Limited

/-! ### The pulses -/

/-- The lower limit of a controller. -/
def minOutput : PartType → ℚ
  | .servoPID => -1
  | _ => 0

/-- **A controller within its limits**: those of its PID, and the last output. -/
structure Local.Limited (p : PartType) (l : Local) : Prop where
  pid : l.pid.Limited (minOutput p) 1
  output : minOutput p ≤ l.output ∧ l.output ≤ 1

theorem Local.Limited.start {p : PartType} (hp : p ∈ controllers) : (Local.start p).Limited p := by
  have hcases : p = .servoPID ∨ p = .throttlePID := by simpa [controllers] using hp
  rcases hcases with rfl | rfl
  · refine ⟨show (newPid .servoPID).Limited (-1) 1 from ?_, ?_⟩
    · exact MiniPID.Limited.new _ _ _ (by norm_num)
    · show (-1 : ℚ) ≤ 0 ∧ (0 : ℚ) ≤ 1
      norm_num
  · refine ⟨show (newPid .throttlePID).Limited 0 1 from ?_, ?_⟩
    · exact MiniPID.Limited.new _ _ _ (by norm_num)
    · show (0 : ℚ) ≤ 0 ∧ (0 : ℚ) ≤ 1
      norm_num

/-- What an act does to the PID and the output: they change in `setPID` and `getOutput` alone. -/
theorem pid_move (p : PartType) (l : Local) (a : Act) :
    (∃ x y z, a = .setPID x y z ∧
      (a.move p l).pid = l.pid.setPID (l.arg x) (l.arg y) (l.arg z) ∧
      (a.move p l).output = l.output) ∨
    (∃ actual setpoint x, a = .getOutput actual setpoint x ∧
      (a.move p l).pid = (l.getOutput actual setpoint).2 ∧ (a.move p l).output = x) ∨
    (a.move p l).pid = l.pid ∧ (a.move p l).output = l.output := by
  cases a with
  | setPID x y z => exact Or.inl ⟨x, y, z, rfl, rfl, rfl⟩
  | getOutput actual setpoint x => exact Or.inr (Or.inl ⟨actual, setpoint, x, rfl, rfl, rfl⟩)
  | sample r1 r2 us =>
    refine Or.inr (Or.inr ?_)
    simp only [Act.move]
    split
    · exact ⟨rfl, rfl⟩
    · exact ⟨rfl, rfl⟩
  | testError b | testIf d n b | testOld d b | testOldAnd d b | testAndOld d e b | testNeed b =>
    refine Or.inr (Or.inr ?_)
    cases b <;> exact ⟨rfl, rfl⟩
  | _ => exact Or.inr (Or.inr ⟨rfl, rfl⟩)

theorem Local.Limited.move {p : PartType} {s : State} {l : Local} {a : Act} (h : l.Limited p)
    (ha : a.Agrees p s l) : (a.move p l).Limited p := by
  rcases pid_move p l a with ⟨x, y, z, rfl, hpid, hout⟩ |
    ⟨actual, setpoint, x, rfl, hpid, hout⟩ | ⟨hpid, hout⟩
  · refine ⟨?_, ?_⟩
    · rw [hpid]
      exact h.pid.setPID _ _ _
    · rw [hout]
      exact h.output
  · have hlt : minOutput p < 1 := by
      cases p <;> norm_num [minOutput]
    obtain ⟨-, hx⟩ := ha
    refine ⟨?_, ?_⟩
    · rw [hpid]
      exact h.pid.getOutput _ _
    · rw [hout, hx]
      exact h.pid.output_mem hlt _ _
  · refine ⟨?_, ?_⟩
    · rw [hpid]
      exact h.pid
    · rw [hout]
      exact h.output

/-- The pulse of an output. -/
theorem Local.Limited.pulse {p : PartType} {l : Local} (h : l.Limited p) :
    minOutput p / 2 + 1.5 ≤ l.output / 2 + 1.5 ∧ l.output / 2 + 1.5 ≤ 2 := by
  obtain ⟨h1, h2⟩ := h.output
  constructor
  · linarith
  · linarith

/-- Who sets the actuators. -/
theorem setter_eq {p : PartType} {i : Instr} (hi : i ∈ runALL p) :
    (i = .setDirect → p = .servoPID) ∧ (i = .setSpeed → p = .throttlePID) := by
  have hall : ∀ p, ∀ i ∈ runALL p,
      (i = .setDirect → p = .servoPID) ∧ (i = .setSpeed → p = .throttlePID) := by
    decide +kernel
  exact hall p i hi

/-- The pulses a part within its limits passes on. -/
theorem Local.Limited.set_range {p : PartType} {s : State} {l : Local} {a : Act}
    (h : l.Limited p) (hi : a.instr ∈ runALL p) (ha : a.Agrees p s l) :
    (∀ x, a = .setDirect x → 1 ≤ x ∧ x ≤ 2) ∧ (∀ x, a = .setSpeed x → 1.5 ≤ x ∧ x ≤ 2) := by
  obtain ⟨hlo, hhi⟩ := h.pulse
  constructor
  · rintro x rfl
    obtain rfl : p = .servoPID := (setter_eq hi).1 rfl
    rw [show x = l.output / 2 + 1.5 from ha]
    refine ⟨le_trans ?_ hlo, hhi⟩
    norm_num [minOutput]
  · rintro x rfl
    obtain rfl : p = .throttlePID := (setter_eq hi).2 rfl
    rw [show x = l.output / 2 + 1.5 from ha]
    refine ⟨le_trans ?_ hlo, hhi⟩
    norm_num [minOutput]

/-- So a controller goes on. -/
theorem Local.Limited.exits_eq_false {p : PartType} {s : State} {l : Local} {a : Act}
    (h : l.Limited p) (hp : p ∈ controllers) (hi : a.instr ∈ runALL p) (ha : a.Agrees p s l) :
    a.exits = false := by
  obtain ⟨hdirect, hspeed⟩ := h.set_range hi ha
  cases a with
  | selectError =>
    have hall : ∀ p ∈ controllers, Instr.select ∉ runALL p := by decide +kernel
    exact absurd hi (hall p hp)
  | setDirect x =>
    obtain ⟨h1, h2⟩ := hdirect x rfl
    simpa [Act.exits] using ⟨h2, h1⟩
  | setSpeed x =>
    obtain ⟨h1, h2⟩ := hspeed x rfl
    have h1' : 1 ≤ x := le_trans (by norm_num) h1
    simpa [Act.exits] using ⟨h2, h1'⟩
  | _ => rfl

/-! ### The parts in any environment -/

/-- An act of a part, with the State it finds. -/
structure Access where
  state : State
  part : PartType
  act : Act

/-- The parts once they are constructed. -/
def constructed : PartType → Proc := fun p => .running (.start p)

/-- **The parts in any environment**: every access finds whatever State there is. -/
def exposedParts : Lts (PartType → Proc) Access where
  init q := q = constructed
  step q e :=
    if (q e.part).Enables e.part e.state e.act then
      some (Function.update q e.part ((q e.part).after e.part e.act))
    else none

/-- What a step of `exposedParts` finds and leaves. -/
theorem access_step {q r : PartType → Proc} {e : Access} (h : exposedParts.step q e = some r) :
    ∃ l k, q e.part = .running l ∧ l.rest = e.act.instr :: k ∧ e.act.Agrees e.part e.state l ∧
      r = Function.update q e.part (e.act.after e.part l) := by
  simp only [exposedParts, Option.ite_none_right_eq_some, Option.some.injEq] at h
  obtain ⟨hen, rfl⟩ := h
  cases hq : q e.part with
  | running l =>
    rw [hq] at hen
    obtain ⟨hhead, hag⟩ := hen
    obtain ⟨k, hk⟩ := List.head?_eq_some_iff.mp hhead
    exact ⟨l, k, rfl, hk, hag, rfl⟩
  | _ =>
    rw [hq] at hen
    cases hen

/-- The parts stand at control points, and the controllers run, within their limits. -/
structure Steady (q : PartType → Proc) : Prop where
  point : ∀ p l, q p = .running l → Point p l.rest
  limited : ∀ p ∈ controllers, ∃ l, q p = .running l ∧ l.Limited p

theorem Steady.constructed : Steady constructed where
  point p l hl := by
    cases hl
    exact Point.start p
  limited p hp := ⟨_, rfl, Local.Limited.start hp⟩

/-- The pulses of an access are those `calcTicks` accepts. -/
def Access.InRange (e : Access) : Prop :=
  (∀ x, e.act = .setDirect x → 1 ≤ x ∧ x ≤ 2) ∧ (∀ x, e.act = .setSpeed x → 1.5 ≤ x ∧ x ≤ 2)

section Step

variable {q r : PartType → Proc} {e : Access}

theorem Steady.inRange (h : Steady q) (hs : exposedParts.step q e = some r) : e.InRange := by
  obtain ⟨l, k, hl, hk, hag, -⟩ := access_step hs
  have hpt : Point e.part (e.act.instr :: k) := hk ▸ h.point e.part l hl
  have hi : e.act.instr ∈ runALL e.part := hpt.head_mem
  constructor
  · intro x hx
    have hp : e.part = .servoPID := (setter_eq hi).1 (by rw [hx]; rfl)
    obtain ⟨l', hl', hlim⟩ := h.limited e.part (by rw [hp]; decide)
    obtain rfl : l' = l := by simpa [hl] using hl'.symm
    exact (hlim.set_range hi hag).1 x hx
  · intro x hx
    have hp : e.part = .throttlePID := (setter_eq hi).2 (by rw [hx]; rfl)
    obtain ⟨l', hl', hlim⟩ := h.limited e.part (by rw [hp]; decide)
    obtain rfl : l' = l := by simpa [hl] using hl'.symm
    exact (hlim.set_range hi hag).2 x hx

theorem Steady.step (h : Steady q) (hs : exposedParts.step q e = some r) : Steady r := by
  obtain ⟨l, k, hl, hk, hag, rfl⟩ := access_step hs
  have hpt : Point e.part (e.act.instr :: k) := hk ▸ h.point e.part l hl
  have hi : e.act.instr ∈ runALL e.part := hpt.head_mem
  constructor
  · intro p m hm
    by_cases hp : p = e.part
    · subst hp
      rw [Function.update_self, Act.after] at hm
      split at hm
      · cases hm
      · obtain rfl : e.act.move e.part l = m := by simpa using hm
        exact hpt.of_mem_targets (move_mem_targets hk hag)
    · rw [Function.update_of_ne hp] at hm
      exact h.point p m hm
  · intro p hp
    obtain ⟨m, hm, hlim⟩ := h.limited p hp
    by_cases hpe : p = e.part
    · subst hpe
      obtain rfl : m = l := by simpa [hl] using hm.symm
      refine ⟨e.act.move e.part m, ?_, hlim.move hag⟩
      rw [Function.update_self, Act.after, hlim.exits_eq_false hp hi hag]
      rfl
    · exact ⟨m, by rw [Function.update_of_ne hpe]; exact hm, hlim⟩

end Step

/-- **Nothing a controller is given makes it abort**: whatever States it finds, its pulses and their
ticks are in range. -/
theorem actuators_in_range {tr : List Access} {q : PartType → Proc}
    (h : exposedParts.Run constructed tr q) :
    (∀ e ∈ tr, ∀ x, e.act = .setDirect x →
      (1 ≤ x ∧ x ≤ 2) ∧ ∃ n, Pca.calcTicks x Pca.hertz = some n ∧ 245 ≤ n ∧ n ≤ 491) ∧
    (∀ e ∈ tr, ∀ x, e.act = .setSpeed x →
      (1.5 ≤ x ∧ x ≤ 2) ∧ ∃ n, Pca.calcTicks x Pca.hertz = some n ∧ 368 ≤ n ∧ n ≤ 491) ∧
    (∀ p ∈ controllers, q p ≠ .exited) ∧
    ∀ x y m n, Pca.calcTicks x Pca.hertz = some m → Pca.calcTicks y Pca.hertz = some n →
      x ≤ y → m ≤ n := by
  have hinv : Steady q ∧ ∀ e ∈ tr, e.InRange := by
    refine h.inv (I := fun tr q => Steady q ∧ ∀ e ∈ tr, e.InRange)
      ⟨Steady.constructed, by simp⟩ ?_
    rintro tr q e r - ⟨hq, htr⟩ hs
    refine ⟨hq.step hs, ?_⟩
    intro b hb
    rcases List.mem_append.mp hb with hb | hb
    · exact htr b hb
    · rw [List.mem_singleton.mp hb]
      exact hq.inRange hs
  obtain ⟨hq, htr⟩ := hinv
  refine ⟨?_, ?_, ?_, fun x y m n => Pca.calcTicks_mono⟩
  · intro e he x hx
    obtain ⟨h1, h2⟩ := (htr e he).1 x hx
    exact ⟨⟨h1, h2⟩, Pca.calcTicks_range le_rfl (by norm_num) h1 h2⟩
  · intro e he x hx
    obtain ⟨h1, h2⟩ := (htr e he).2 x hx
    exact ⟨⟨h1, h2⟩, Pca.calcTicks_range (by norm_num) (by norm_num) h1 h2⟩
  · intro p hp
    obtain ⟨l, hl, -⟩ := hq.limited p hp
    rw [hl]
    simp

/-- A direction of 1000, with gains of 1, 2 and 3. -/
def farOff : State where
  auto := true
  data
    | .servoPID i => i.val + 1
    | _ => 1000
  isNewData := fun _ => true
  needCompulsiveCheckpoint := fun _ => false
  averageTimePerCycle := fun _ => 0

/-- `ServoPID` installs the gains, and steers as far as it can. -/
def steerFully : List Access :=
  [⟨farOff, .servoPID, .testOld 1 true⟩, ⟨farOff, .servoPID, .testIf 3 1 true⟩,
    ⟨farOff, .servoPID, .storeNew 1 false⟩, ⟨farOff, .servoPID, .clockStart ⟨0, 0⟩⟩,
    ⟨farOff, .servoPID, .testIf 4 2 true⟩] ++
  ([0, 1, 2].map fun i : Fin 3 => ⟨farOff, .servoPID,
    .load (.setPID (.servoPID 0) (.servoPID 1) (.servoPID 2)) (.servoPID i) (i.val + 1)⟩) ++
  [⟨farOff, .servoPID, .setPID (.servoPID 0) (.servoPID 1) (.servoPID 2)⟩,
    ⟨farOff, .servoPID, .storeNew 4 false⟩,
    ⟨farOff, .servoPID, .load (.getOutput .direction none) .direction 1000⟩,
    ⟨farOff, .servoPID, .getOutput .direction none (-1)⟩, ⟨farOff, .servoPID, .setDirect 1⟩]

theorem steerFully_in_range : ∃ q, exposedParts.Run constructed steerFully q ∧
    ⟨farOff, .servoPID, .setDirect 1⟩ ∈ steerFully ∧
    ∃ n, Pca.calcTicks 1 Pca.hertz = some n ∧ 245 ≤ n ∧ n ≤ 491 := by
  obtain ⟨q, hr, -⟩ := exposedParts.exists_run (s := constructed) steerFully
    (P := fun _ => True) (by decide +kernel)
  have hmem : ⟨farOff, .servoPID, .setDirect 1⟩ ∈ steerFully := by simp [steerFully]
  exact ⟨q, hr, hmem, ((actuators_in_range hr).1 _ hmem 1 rfl).2⟩

/-! ### In the program -/

section System

variable {handled : Bool} {s : Sys}

theorem limited_of_reachable {p : PartType} (hp : p ∈ controllers)
    (h : (system handled).Reachable s) : ∀ l, s.part p = .running l → l.Limited p :=
  local_inv (Local.Limited.start hp) (fun _ _ _ _ hl _ _ ha => hl.move ha) h

/-- No part but the remote one exits. -/
theorem exits_eq_false {p : PartType} {l : Local} {a : Act} {k : List Instr} (hp : p ≠ .remote)
    (h : (system handled).Reachable s) (hl : s.part p = .running l) (hk : l.rest = a.instr :: k)
    (ha : a.Agrees p s.state l) : a.exits = false := by
  have hi : a.instr ∈ runALL p := ((Wf.reachable h).pointAt hl hk).head_mem
  by_cases hc : p ∈ controllers
  · exact (limited_of_reachable hc h l hl).exits_eq_false hc hi ha
  · have hall : ∀ p, p ≠ .remote → p ∉ controllers →
        .select ∉ runALL p ∧ .setDirect ∉ runALL p ∧ .setSpeed ∉ runALL p := by
      decide +kernel
    obtain ⟨hselect, hdirect, hspeed⟩ := hall p hp hc
    cases a with
    | selectError => exact absurd hi hselect
    | setDirect x => exact absurd hi hdirect
    | setSpeed x => exact absurd hi hspeed
    | _ => rfl

/-- **What a step does to a part that runs**: it stands still, or it executes an act and goes on. -/
theorem running_step {p : PartType} {t : Sys} {a : Label} {l : Local} (hp : p ≠ .remote)
    (h : (system handled).Reachable s) (hl : s.part p = .running l)
    (hs : (system handled).step s a = some t) :
    (t.part p = .running l ∧ ∀ b, a ≠ .part p b) ∨
      ∃ b k, a = .part p b ∧ l.rest = b.instr :: k ∧ b.Agrees p s.state l ∧
        t.part p = .running (b.move p l) := by
  cases part_cases p hs with
  | still other part => exact Or.inl ⟨part.trans hl, other⟩
  | act b l' k label hl' hk hag part =>
    obtain rfl : l = l' := Proc.running.inj (hl.symm.trans hl')
    refine Or.inr ⟨b, k, label, hk, hag, ?_⟩
    rw [part, Act.after, exits_eq_false hp h hl hk hag]
    rfl
  | construct ok label before hok part => cases hl.symm.trans before
  | fork label mem part => cases hl.symm.trans ((Wf.reachable h).unborn p mem)

end System

end Vehicle.Recovery
