import Vehicle.Numeric.Excess
import Vehicle.Trace.View
import Vehicle.Recovery.Actuator

/-!
# recovery: the controller as a class

All public member functions of `MiniPID.cpp`, and a controller as the machine that executes calls
to them in any order. What is set (`Config`) depends on the calls that set it alone, so `reset`
makes a controller forget the rest (`reset_forgets`). Between the settings the outputs approach the
limits by the factor of the filter, and the ramp bounds their change (`outputs_approach`).

A division by 0 gives no number the members could go on with; the call is then no step.
-/

namespace Vehicle.Recovery

open Vehicle.Trace Vehicle.Numeric

namespace MiniPID

/-- The constructor `MiniPID(p, i, d, f)`. -/
def newF (p i d f : ℚ) : MiniPID := { init with P := p, I := i, D := d, F := f }

/-- `MiniPID::setP`. -/
def setP (pid : MiniPID) (p : ℚ) : MiniPID := { pid with P := p }.checkSigns

/-- `MiniPID::setI`. -/
def setI (pid : MiniPID) (i : ℚ) : Option MiniPID :=
  if i = 0 ∧ (pid.I ≠ 0 ∨ pid.maxIOutput ≠ 0) then none
  else some
    { pid with
      errorSum := if pid.I ≠ 0 then pid.errorSum * pid.I / i else pid.errorSum
      maxError := if pid.maxIOutput ≠ 0 then pid.maxIOutput / i else pid.maxError
      I := i }.checkSigns

/-- `MiniPID::setD`. -/
def setD (pid : MiniPID) (d : ℚ) : MiniPID := { pid with D := d }.checkSigns

/-- `MiniPID::setF`. -/
def setF (pid : MiniPID) (f : ℚ) : MiniPID := { pid with F := f }.checkSigns

/-- `MiniPID::setPID` with four arguments. -/
def setPIDF (pid : MiniPID) (p i d f : ℚ) : MiniPID :=
  { pid with P := p, I := i, D := d, F := f }.checkSigns

/-- `MiniPID::setOutputLimits` with one argument. -/
def setOutputLimit (pid : MiniPID) (output : ℚ) : MiniPID := pid.setOutputLimits (-output) output

/-- `MiniPID::setDirection`; the gains keep their signs. -/
def setDirection (pid : MiniPID) (reversed : Bool) : MiniPID := { pid with reversed := reversed }

/-- `MiniPID::setSetpoint`. -/
def setSetpoint (pid : MiniPID) (setpoint : ℚ) : MiniPID := { pid with setpoint := setpoint }

/-- `MiniPID::reset`. -/
def reset (pid : MiniPID) : MiniPID := { pid with firstRun := true, errorSum := 0 }

/-- `MiniPID::setOutputRampRate`. -/
def setOutputRampRate (pid : MiniPID) (rate : ℚ) : MiniPID := { pid with outputRampRate := rate }

/-- `MiniPID::setSetpointRange`. -/
def setSetpointRange (pid : MiniPID) (range : ℚ) : MiniPID := { pid with setpointRange := range }

/-- `MiniPID::setOutputFilter`. -/
def setOutputFilter (pid : MiniPID) (strength : ℚ) : MiniPID :=
  if strength = 0 ∨ bounded strength 0 1 = true then { pid with outputFilter := strength } else pid

/-- `MiniPID::getOutput` with one argument. -/
def getOutputAt (pid : MiniPID) (actual : ℚ) : ℚ × MiniPID := pid.getOutput actual pid.setpoint

/-- `MiniPID::getOutput` without arguments. -/
def getOutputAgain (pid : MiniPID) : ℚ × MiniPID := pid.getOutput pid.lastActual pid.setpoint

/-! ### Calls in any order -/

/-- A call of a public member function. -/
inductive Call
  | setP (p : ℚ)
  | setI (i : ℚ)
  | setD (d : ℚ)
  | setF (f : ℚ)
  | setPID (p i d : ℚ)
  | setPIDF (p i d f : ℚ)
  | setMaxIOutput (maximum : ℚ)
  | setOutputLimit (output : ℚ)
  | setOutputLimits (minimum maximum : ℚ)
  | setDirection (reversed : Bool)
  | setSetpoint (setpoint : ℚ)
  | reset
  | setOutputRampRate (rate : ℚ)
  | setSetpointRange (range : ℚ)
  | setOutputFilter (strength : ℚ)
  | getOutputAgain
  | getOutputAt (actual : ℚ)
  | getOutput (actual setpoint : ℚ)
  deriving DecidableEq

/-- The controller after a call; what `getOutput` returns is its `lastOutput` then. -/
def Call.apply (pid : MiniPID) : Call → Option MiniPID
  | .setP p => some (pid.setP p)
  | .setI i => pid.setI i
  | .setD d => some (pid.setD d)
  | .setF f => some (pid.setF f)
  | .setPID p i d => some (pid.setPID p i d)
  | .setPIDF p i d f => some (pid.setPIDF p i d f)
  | .setMaxIOutput maximum => some (pid.setMaxIOutput maximum)
  | .setOutputLimit output => some (pid.setOutputLimit output)
  | .setOutputLimits minimum maximum => some (pid.setOutputLimits minimum maximum)
  | .setDirection reversed => some (pid.setDirection reversed)
  | .setSetpoint setpoint => some (pid.setSetpoint setpoint)
  | .reset => some pid.reset
  | .setOutputRampRate rate => some (pid.setOutputRampRate rate)
  | .setSetpointRange range => some (pid.setSetpointRange range)
  | .setOutputFilter strength => some (pid.setOutputFilter strength)
  | .getOutputAgain => some pid.getOutputAgain.2
  | .getOutputAt actual => some (pid.getOutputAt actual).2
  | .getOutput actual setpoint => some (pid.getOutput actual setpoint).2

/-- **A controller**, constructed in one of two ways and then called in any order. -/
def controller : Lts MiniPID Call where
  init pid := (∃ p i d, pid = new p i d) ∨ ∃ p i d f, pid = newF p i d f
  step pid c := c.apply pid

/-! ### What is set -/

/-- A controller with the same settings that has not run yet. -/
def settings (pid : MiniPID) : MiniPID :=
  { pid with errorSum := 0, setpoint := 0, lastActual := 0, firstRun := true, lastOutput := 0 }

/-- The calls that set something for good. -/
def Call.configures : Call → Bool
  | .setSetpoint _ | .reset | .getOutputAgain | .getOutputAt _ | .getOutput _ _ => false
  | _ => true

/-- The calls that compute an output. -/
def Call.measures : Call → Bool
  | .getOutputAgain | .getOutputAt _ | .getOutput _ _ => true
  | _ => false

/-- What a call does to the settings. -/
def Call.configure (c : Call) (pid : MiniPID) : MiniPID :=
  if c.configures then ((c.apply pid).getD pid).settings else pid

theorem settings_ite {c : Prop} [Decidable c] {x y x' y' : MiniPID}
    (hx : x.settings = x'.settings) (hy : y.settings = y'.settings) :
    (if c then x else y).settings = (if c then x' else y').settings := by
  split
  · exact hx
  · exact hy

theorem settings_setOutputLimits (pid : MiniPID) (minimum maximum : ℚ) :
    (pid.setOutputLimits minimum maximum).settings =
      (pid.settings.setOutputLimits minimum maximum).settings :=
  settings_ite rfl (settings_ite rfl rfl)

theorem settings_setI {pid t : MiniPID} {i : ℚ} (h : pid.setI i = some t) :
    ∃ t', pid.settings.setI i = some t' ∧ t.settings = t'.settings := by
  unfold setI at h
  split at h
  · cases h
  · rename_i hi
    cases h
    exact ⟨_, if_neg hi, rfl⟩

/-- A call sets what it would set in a controller that has not run. -/
theorem settings_apply {pid t : MiniPID} {c : Call} (h : c.apply pid = some t) :
    t.settings = c.configure pid.settings := by
  cases c with
  | setI i =>
    obtain ⟨t', ht', he⟩ := settings_setI h
    show t.settings = ((pid.settings.setI i).getD pid.settings).settings
    rw [he, ht', Option.getD_some]
  | setOutputLimit output =>
    cases h
    exact settings_setOutputLimits pid (-output) output
  | setOutputLimits minimum maximum =>
    cases h
    exact settings_setOutputLimits pid minimum maximum
  | setOutputFilter strength =>
    cases h
    exact settings_ite rfl rfl
  | _ =>
    cases h
    rfl

/-- The settings of a controller, as its calls make them. -/
def settingsView : View controller MiniPID where
  get := settings
  act := Call.configure
  get_step := settings_apply

/-- **The settings depend on the calls that set something alone.** -/
theorem settings_run {c pid : MiniPID} {tr : List Call} (h : controller.Run c tr pid) :
    pid.settings =
      (tr.filter fun a => a.configures = true).foldl (fun v a => a.configure v) c.settings := by
  refine settingsView.get_run_filter (p := fun a => a.configures = true) h ?_
  intro a v ha
  exact if_neg ha

/-- The first output after `reset` is that of a controller that has not run. -/
theorem getOutput_reset (pid : MiniPID) (actual setpoint : ℚ) :
    pid.reset.getOutput actual setpoint = pid.settings.getOutput actual setpoint := rfl

/-- **`reset` makes a controller forget everything but its settings**: where the calls that set
something were the same in two histories, in the same order, whatever was measured between them, the
two controllers cannot be told apart from a `reset` on, where the first output is computed from a
measurement and a setpoint (the other overloads take values from before). A `setI` that divides by
zero is no call of a history. -/
theorem reset_forgets {c pid pid' x : MiniPID} {tr tr' rest : List Call} {actual setpoint : ℚ}
    (h : controller.Run c tr pid) (h' : controller.Run c tr' pid')
    (hsame : (tr.filter fun a => a.configures = true) = tr'.filter fun a => a.configures = true)
    (hx : controller.Run pid ([Call.reset, Call.getOutput actual setpoint] ++ rest) x) :
    controller.Run pid' ([Call.reset, Call.getOutput actual setpoint] ++ rest) x := by
  have hset : pid.settings = pid'.settings := by rw [settings_run h, settings_run h', hsame]
  have hout : ∀ p : MiniPID, controller.Run p [Call.reset, Call.getOutput actual setpoint]
      (p.settings.getOutput actual setpoint).2 := by
    intro p
    rw [← getOutput_reset]
    exact (Lts.Run.nil.snoc (t := p) (u := p.reset) (a := Call.reset) rfl).snoc rfl
  obtain ⟨y, hy, hrest⟩ := hx.append_inv
  have hy' := hout pid'
  rw [← hset] at hy'
  obtain rfl := hy.det (hout pid)
  exact hy'.trans hrest

/-- Two histories that set the same limits and measured different things. -/
theorem reset_forgets_measurements : ∃ pid x,
    controller.Run (new 1 1 0)
      [.setOutputLimits (-1) 1, .getOutput 5 1, .getOutputAt 6, .getOutputAgain] pid ∧
    controller.Run pid ([Call.reset, Call.getOutput 0 1] ++ [.getOutputAt 3]) x := by
  obtain ⟨x, hx, -⟩ := controller.exists_run (s := new 1 1 0)
    ([.getOutput 2 0, .setOutputLimits (-1) 1] ++
      ([Call.reset, Call.getOutput 0 1] ++ [.getOutputAt 3])) (P := fun _ => True)
    (by decide +kernel)
  obtain ⟨pid, h, hx⟩ := hx.append_inv
  obtain ⟨pid', h', -⟩ := controller.exists_run (s := new 1 1 0)
    [.setOutputLimits (-1) 1, .getOutput 5 1, .getOutputAt 6, .getOutputAgain] (P := fun _ => True)
    (by decide +kernel)
  exact ⟨pid', x, h', reset_forgets h h' rfl hx⟩

/-! ### The outputs between the settings -/

/-- What every controller has, however it was called: the filter is a proper factor, and the limits
are in order. -/
structure Sound (pid : MiniPID) : Prop where
  filter_nonneg : 0 ≤ pid.outputFilter
  filter_lt : pid.outputFilter < 1
  limits : pid.minOutput ≤ pid.maxOutput

theorem Sound.setOutputLimits {pid : MiniPID} (h : pid.Sound) (minimum maximum : ℚ) :
    (pid.setOutputLimits minimum maximum).Sound := by
  unfold MiniPID.setOutputLimits
  split
  · exact h
  · rename_i hlt
    dsimp only
    split
    · exact ⟨h.filter_nonneg, h.filter_lt, not_lt.mp hlt⟩
    · exact ⟨h.filter_nonneg, h.filter_lt, not_lt.mp hlt⟩

theorem Sound.apply {pid t : MiniPID} {c : Call} (h : pid.Sound) (hc : c.apply pid = some t) :
    t.Sound := by
  cases c with
  | setI i =>
    simp only [Call.apply, setI] at hc
    split at hc
    · cases hc
    · cases hc
      exact ⟨h.filter_nonneg, h.filter_lt, h.limits⟩
  | setOutputLimit output =>
    cases hc
    exact h.setOutputLimits (-output) output
  | setOutputLimits minimum maximum =>
    cases hc
    exact h.setOutputLimits minimum maximum
  | setOutputFilter strength =>
    cases hc
    unfold setOutputFilter
    split
    · rename_i hs
      rcases hs with rfl | hs
      · exact ⟨le_rfl, one_pos, h.limits⟩
      · simp only [bounded, Bool.and_eq_true, decide_eq_true_eq] at hs
        exact ⟨hs.1.le, hs.2, h.limits⟩
    · exact h
  | _ =>
    cases hc
    exact ⟨h.filter_nonneg, h.filter_lt, h.limits⟩

theorem sound_of_reachable {pid : MiniPID} (h : controller.Reachable pid) : pid.Sound := by
  refine h.inv ?_ fun s a t hs ha => hs.apply ha
  rintro pid (⟨p, i, d, rfl⟩ | ⟨p, i, d, f, rfl⟩)
  · exact ⟨le_rfl, one_pos, le_rfl⟩
  · exact ⟨le_rfl, one_pos, le_rfl⟩

/-- A value moved into the ramp around `x` and then into the limits is not further from `x` than the
ramp, or than `x` is from the limits. -/
theorem abs_clamp_sub_le {o x r lo hi : ℚ} (hr : 0 < r) :
    |clamp (clamp o (x - r) (x + r)) lo hi - x| ≤ max r (excess lo hi x) := by
  obtain ⟨h1, h2⟩ : x - r ≤ clamp o (x - r) (x + r) ∧ clamp o (x - r) (x + r) ≤ x + r :=
    clamp_mem (by linarith)
  have hlo := sub_le_excess lo hi x
  have hhi := sub_le_excess' lo hi x
  have hmr := le_max_left r (excess lo hi x)
  have hme := le_max_right r (excess lo hi x)
  generalize clamp o (x - r) (x + r) = w at h1 h2 ⊢
  rw [abs_le]
  unfold clamp
  split
  · constructor <;> linarith
  · split
    · constructor <;> linarith
    · constructor <;> linarith

/-- The output is a blend of the last one and of a value inside of the limits. -/
theorem getOutput_blend {pid : MiniPID} (hlim : pid.minOutput ≠ pid.maxOutput)
    (hrun : pid.firstRun = false) (actual setpoint : ℚ) :
    ∃ o, (pid.getOutput actual setpoint).1 = pid.lastOutput * pid.outputFilter +
      clamp (if pid.outputRampRate ≠ 0 then clamp o (pid.lastOutput - pid.outputRampRate)
        (pid.lastOutput + pid.outputRampRate) else o) pid.minOutput pid.maxOutput *
          (1 - pid.outputFilter) := by
  unfold getOutput
  dsimp only
  rw [hrun, if_pos hlim]
  by_cases hf : pid.outputFilter = 0
  · simp only [hf, ne_eq, not_true_eq_false, if_false, mul_zero, zero_add, sub_zero, mul_one]
    exact ⟨_, rfl⟩
  · rw [if_pos hf]
    exact ⟨_, rfl⟩

/-- A call between the settings: what it does to the last output. -/
theorem apply_between {pid t : MiniPID} {c : Call} (hc : c.apply pid = some t)
    (hset : c.configures = false) (hreset : c ≠ .reset) (hrun : pid.firstRun = false) :
    t.settings = pid.settings ∧ t.firstRun = false ∧
      ((c.measures = false ∧ t.lastOutput = pid.lastOutput) ∨
        c.measures = true ∧
          ∃ actual setpoint, t.lastOutput = (pid.getOutput actual setpoint).1) := by
  cases c with
  | setSetpoint setpoint =>
    cases hc
    exact ⟨rfl, hrun, .inl ⟨rfl, rfl⟩⟩
  | reset => exact absurd rfl hreset
  | getOutputAgain =>
    cases hc
    exact ⟨rfl, rfl, .inr ⟨rfl, pid.lastActual, pid.setpoint, rfl⟩⟩
  | getOutputAt actual =>
    cases hc
    exact ⟨rfl, rfl, .inr ⟨rfl, actual, pid.setpoint, rfl⟩⟩
  | getOutput actual setpoint =>
    cases hc
    exact ⟨rfl, rfl, .inr ⟨rfl, actual, setpoint, rfl⟩⟩
  | _ => cases hset

/-- **An output is nearer to the limits than the last one by the factor of the filter**, and the
ramp bounds how far it is from it. -/
theorem Sound.getOutput_spec {pid : MiniPID} (h : pid.Sound) (hlim : pid.minOutput ≠ pid.maxOutput)
    (hrun : pid.firstRun = false) (actual setpoint : ℚ) :
    excess pid.minOutput pid.maxOutput (pid.getOutput actual setpoint).1 ≤
        pid.outputFilter * excess pid.minOutput pid.maxOutput pid.lastOutput ∧
      (0 < pid.outputRampRate → |(pid.getOutput actual setpoint).1 - pid.lastOutput| ≤
        (1 - pid.outputFilter) *
          max pid.outputRampRate (excess pid.minOutput pid.maxOutput pid.lastOutput)) := by
  obtain ⟨o, ho⟩ := getOutput_blend hlim hrun actual setpoint
  rw [ho]
  constructor
  · obtain ⟨h1, h2⟩ := clamp_mem h.limits
    exact excess_blend_le h.filter_nonneg h.filter_lt.le h1 h2
  · intro hr
    rw [if_pos hr.ne']
    exact abs_blend_sub_le h.filter_lt.le (abs_clamp_sub_le hr)

theorem eq_of_settings {pid t : MiniPID} (h : t.settings = pid.settings) :
    t.minOutput = pid.minOutput ∧ t.maxOutput = pid.maxOutput ∧
      t.outputFilter = pid.outputFilter ∧ t.outputRampRate = pid.outputRampRate :=
  ⟨congrArg (·.minOutput) h, congrArg (·.maxOutput) h, congrArg (·.outputFilter) h,
    congrArg (·.outputRampRate) h⟩

/-- What a run between the settings keeps, when it has computed `n` outputs since `pid`. -/
structure Approaching (pid : MiniPID) (n : ℕ) (t : MiniPID) : Prop where
  settings : t.settings = pid.settings
  firstRun : t.firstRun = false
  sound : t.Sound
  near : excess pid.minOutput pid.maxOutput t.lastOutput ≤
    pid.outputFilter ^ n * excess pid.minOutput pid.maxOutput pid.lastOutput

section Approaching

variable {pid t u : MiniPID} {n : ℕ} {c : Call}

/-- What the next output is. -/
theorem Approaching.output (h : Approaching pid n t) (hlim : pid.minOutput ≠ pid.maxOutput)
    (actual setpoint : ℚ) :
    excess pid.minOutput pid.maxOutput (t.getOutput actual setpoint).1 ≤
        pid.outputFilter ^ (n + 1) * excess pid.minOutput pid.maxOutput pid.lastOutput ∧
      (0 < pid.outputRampRate → |(t.getOutput actual setpoint).1 - t.lastOutput| ≤
        (1 - pid.outputFilter) * max pid.outputRampRate
          (pid.outputFilter ^ n * excess pid.minOutput pid.maxOutput pid.lastOutput)) := by
  obtain ⟨hlo, hhi, hf, hr⟩ := eq_of_settings h.settings
  have hspec := h.sound.getOutput_spec (by rw [hlo, hhi]; exact hlim) h.firstRun actual setpoint
  rw [hlo, hhi, hf, hr] at hspec
  have hnonneg : 0 ≤ pid.outputFilter := hf ▸ h.sound.filter_nonneg
  have hlt : pid.outputFilter < 1 := hf ▸ h.sound.filter_lt
  refine ⟨hspec.1.trans ?_, fun hpos => (hspec.2 hpos).trans ?_⟩
  · rw [pow_succ', mul_assoc]
    exact mul_le_mul_of_nonneg_left h.near hnonneg
  · exact mul_le_mul_of_nonneg_left (max_le_max le_rfl h.near) (by linarith)

theorem Approaching.step (h : Approaching pid n t) (hlim : pid.minOutput ≠ pid.maxOutput)
    (hc : controller.step t c = some u) (hset : c.configures = false) (hreset : c ≠ .reset) :
    Approaching pid (n + if c.measures = true then 1 else 0) u := by
  obtain ⟨he, hrun, hout⟩ := apply_between hc hset hreset h.firstRun
  refine ⟨he.trans h.settings, hrun, h.sound.apply hc, ?_⟩
  rcases hout with ⟨hm, hlast⟩ | ⟨hm, actual, setpoint, hlast⟩
  · rw [hm, if_neg Bool.false_ne_true, add_zero, hlast]
    exact h.near
  · rw [if_pos hm, hlast]
    exact (h.output hlim actual setpoint).1

/-- **The outputs approach the limits, and the ramp bounds their change**: as long as a controller
that has computed its first output is neither set nor reset, what the last output lies outside of
its limits has shrunk with every output computed by the factor of the filter, whatever the gains and
the measurements; and with a ramp the next output differs from it by no more than the ramp, or what
is still outside, less the part of the filter. -/
theorem outputs_approach {tr : List Call} (hpid : controller.Reachable pid)
    (hlim : pid.minOutput ≠ pid.maxOutput) (hrun : pid.firstRun = false)
    (h : controller.Run pid tr t) (hbetween : ∀ c ∈ tr, c.configures = false ∧ c ≠ .reset) :
    excess pid.minOutput pid.maxOutput t.lastOutput ≤
        pid.outputFilter ^ tr.countP Call.measures *
          excess pid.minOutput pid.maxOutput pid.lastOutput ∧
      ∀ actual setpoint, 0 < pid.outputRampRate →
        |(t.getOutput actual setpoint).1 - t.lastOutput| ≤ (1 - pid.outputFilter) *
          max pid.outputRampRate (pid.outputFilter ^ tr.countP Call.measures *
            excess pid.minOutput pid.maxOutput pid.lastOutput) := by
  have key : Approaching pid (tr.countP Call.measures) t := by
    refine h.inv_forall (P := fun c => c.configures = false ∧ c ≠ .reset)
      (I := fun tr t => Approaching pid (tr.countP Call.measures) t) ?_ ?_ hbetween
    · exact ⟨rfl, hrun, sound_of_reachable hpid, by simp⟩
    · rintro tr t c u ht ⟨hset, hreset⟩ hc
      rw [List.countP_append, List.countP_singleton]
      exact ht.step hlim hc hset hreset
  exact ⟨key.near, fun actual setpoint => (key.output hlim actual setpoint).2⟩

end Approaching

/-- From an output of 4, limits of 1 and a filter of a half leave three quarters after two more. -/
theorem outputs_approach_half : ∃ pid t, controller.Reachable pid ∧
    controller.Run pid [.getOutput 0 1, .getOutput 0 1] t ∧ pid.lastOutput = 4 ∧
    excess pid.minOutput pid.maxOutput t.lastOutput ≤
        pid.outputFilter ^ [Call.getOutput 0 1, .getOutput 0 1].countP Call.measures *
          excess pid.minOutput pid.maxOutput pid.lastOutput ∧
      ∀ actual setpoint, 0 < pid.outputRampRate →
        |(t.getOutput actual setpoint).1 - t.lastOutput| ≤ (1 - pid.outputFilter) *
          max pid.outputRampRate
            (pid.outputFilter ^ [Call.getOutput 0 1, .getOutput 0 1].countP Call.measures *
              excess pid.minOutput pid.maxOutput pid.lastOutput) := by
  obtain ⟨pid, hr, hlim, hrun, hlast, hsome⟩ := controller.exists_run (s := new 4 0 0)
    [.getOutput 0 1, .setOutputLimits (-1) 1, .setOutputFilter (1 / 2), .setOutputRampRate 1]
    (P := fun pid => pid.minOutput ≠ pid.maxOutput ∧ pid.firstRun = false ∧ pid.lastOutput = 4 ∧
      (controller.exec pid [.getOutput 0 1, .getOutput 0 1]).isSome = true) (by decide +kernel)
  have hpid : controller.Reachable pid := ⟨_, _, .inl ⟨4, 0, 0, rfl⟩, hr⟩
  obtain ⟨t, ht⟩ := Option.isSome_iff_exists.mp hsome
  have ht' := Lts.run_of_exec ht
  exact ⟨pid, t, hpid, ht', hlast, outputs_approach hpid hlim hrun ht' (by decide)⟩

end MiniPID

end Vehicle.Recovery
