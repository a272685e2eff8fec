import Vehicle.Thread.Car

/-!
# The throttle at a steady speed

As long as the speed stored stays the same, the controller of the throttle computes its outputs from
that speed again and again, in whichever order the threads run (`Repeats`). So the pulses are what
`Vehicle.Recovery.Steady` says of these outputs (`throttle_steady`).
-/

namespace Vehicle.Thread

open Vehicle.Trace Vehicle.Recovery Vehicle.Numeric

/-- The pulse a statement sets at the throttle. -/
def Act.speedPulse : Act → Option ℚ
  | .setSpeed pulse => some pulse
  | _ => none

/-- The pulses set at the throttle. -/
def speedPulses (tr : List Act) : List ℚ := tr.filterMap Act.speedPulse

/-- The pulses made from the outputs of a controller that always measures `v`. -/
def repeated (v : ℚ) (pid : MiniPID) (n : ℕ) : List ℚ :=
  (List.range n).map fun k => pid.outputAgain v 50 k / 2 + 1.5

/-- The throttle has set the pulses `l`, and `n` pulses since it measures `v` alone, which it does
with the controller `pid`. -/
inductive Repeats (v : ℚ) (pid : MiniPID) (n : ℕ) (c : Controller) : Prop
  | measures : c.pid = pid.again v 50 n → c.place = .loop ∨ c.place = .read v → Repeats v pid n c
  | computed : c.pid = pid.again v 50 (n + 1) → c.place = .computed (pid.outputAgain v 50 n) →
      Repeats v pid n c

/-- What a run at the speed `v` keeps. -/
structure Steady (v : ℚ) (tr : List Act) (s : Process) : Prop where
  speed : s.car.speed = v
  targetSpeed : s.car.targetSpeed = 50
  throttle : (speedPulses tr = [] ∧ s.throttle.place ≠ .loop) ∨
    ∃ pre pid n, pre.length ≤ 1 ∧ pid.Integrating gainP gainI 1 ∧
      speedPulses tr = pre ++ repeated v pid n ∧ Repeats v pid n s.throttle

section Steady

variable {v : ℚ} {pid : MiniPID} {n : ℕ} {s t u : Process} {a : Act} {tr : List Act}

theorem speedPulses_snoc (tr : List Act) (a : Act) :
    speedPulses (tr ++ [a]) = speedPulses tr ++ a.speedPulse.toList := by
  rw [speedPulses, List.filterMap_append]
  cases h : a.speedPulse <;> simp [speedPulses, h]

theorem repeated_succ (v : ℚ) (pid : MiniPID) (n : ℕ) :
    repeated v pid (n + 1) = repeated v pid n ++ [pid.outputAgain v 50 n / 2 + 1.5] := by
  rw [repeated, List.range_succ, List.map_append]
  rfl

theorem speedPulses_snoc_of_none (tr : List Act) (ha : a.speedPulse = none) :
    speedPulses (tr ++ [a]) = speedPulses tr := by
  rw [speedPulses_snoc, ha]
  exact List.append_nil _

/-- A statement that concerns neither the throttle nor the speed. -/
theorem Steady.same (h : Steady v tr s) (ha : a.speedPulse = none) (hspeed : t.car.speed = v)
    (htarget : t.car.targetSpeed = 50) (hthrottle : t.throttle = s.throttle) :
    Steady v (tr ++ [a]) t := by
  refine ⟨hspeed, htarget, ?_⟩
  rw [speedPulses_snoc_of_none tr ha, hthrottle]
  exact h.throttle

theorem Steady.step (h : Steady v tr s) (hc : Centred s) (hs : threads.step s a = some t)
    (ha : ∀ x, a = .storesSpeed x → x = v) : Steady v (tr ++ [a]) t := by
  have hrunning := (hc.step hs).1.running
  obtain ⟨-, hm⟩ := moves_of_step hs
  cases hm with
  | storesSpeed speed => exact h.same rfl (ha speed rfl) h.targetSpeed rfl
  | throttleReads hloop =>
    refine ⟨h.speed, h.targetSpeed, .inr ?_⟩
    rw [speedPulses_snoc_of_none tr rfl]
    obtain ⟨-, hne⟩ | ⟨pre, pid, n, hpre, hpid, hl, hrep⟩ := h.throttle
    · exact absurd hloop hne
    · refine ⟨pre, pid, n, hpre, hpid, hl, ?_⟩
      cases hrep with
      | measures he hp => exact .measures he (.inr (congrArg Place.read h.speed))
      | computed he hp => rw [hloop] at hp; cases hp
  | throttleComputes actual hread =>
    refine ⟨h.speed, h.targetSpeed, ?_⟩
    rw [speedPulses_snoc_of_none tr rfl]
    obtain ⟨hnil, -⟩ | ⟨pre, pid, n, hpre, hpid, hl, hrep⟩ := h.throttle
    · exact .inl ⟨hnil, fun he => by cases he⟩
    · refine .inr ⟨pre, pid, n, hpre, hpid, hl, ?_⟩
      cases hrep with
      | measures he hp =>
        have hactual : actual = v := by
          rw [hread] at hp
          rcases hp with hp | hp
          · cases hp
          · exact Place.read.inj hp
        rw [h.targetSpeed, hactual, he]
        exact .computed (MiniPID.again_succ v 50 n pid).symm rfl
      | computed he hp => rw [hread] at hp; cases hp
  | setSpeed output hcomp hsome =>
    refine ⟨h.speed, h.targetSpeed, .inr ?_⟩
    rw [speedPulses_snoc]
    obtain ⟨hnil, -⟩ | ⟨pre, pid, n, hpre, hpid, hl, hrep⟩ := h.throttle
    · -- an output of an earlier speed
      refine ⟨[output / 2 + 1.5], s.throttle.pid, 0, le_rfl, hc.throttle, ?_, ?_⟩
      · rw [hnil]
        rfl
      · exact .measures rfl (.inl rfl)
    · cases hrep with
      | measures he hp => rw [hcomp] at hp; rcases hp with hp | hp <;> cases hp
      | computed he hp =>
        have hout : output = pid.outputAgain v 50 n := Place.computed.inj (hcomp.symm.trans hp)
        refine ⟨pre, pid, n + 1, hpre, hpid, ?_, .measures he (.inl rfl)⟩
        rw [hl, repeated_succ, ← hout, List.append_assoc]
        rfl
  | speedExits output hcomp hnone => cases hrunning
  | _ => exact h.same rfl h.speed h.targetSpeed rfl

theorem Steady.nil (hc : Centred s) (hv : s.car.speed = v) : Steady v [] s := by
  refine ⟨hv, hc.targetSpeed, ?_⟩
  by_cases hloop : s.throttle.place = .loop
  · exact .inr ⟨[], s.throttle.pid, 0, Nat.zero_le _, hc.throttle, rfl, .measures rfl (.inl hloop)⟩
  · exact .inl ⟨rfl, hloop⟩

theorem centred_of_reachable (h : threads.Reachable s) : Centred s := by
  refine h.inv ?_ fun s a t hs ha => (hs.step ha).1
  rintro s rfl
  exact .start

theorem Steady.run (hs : threads.Reachable s) (hv : s.car.speed = v) (h : threads.Run s tr t)
    (hsteady : ∀ x, .storesSpeed x ∈ tr → x = v) : Steady v tr t := by
  have key : Centred t ∧ Steady v tr t := by
    refine h.inv_forall (P := fun a => ∀ x, a = .storesSpeed x → x = v)
      (I := fun tr t => Centred t ∧ Steady v tr t) ?_ ?_ ?_
    · exact ⟨centred_of_reachable hs, .nil (centred_of_reachable hs) hv⟩
    · rintro tr u a w ⟨hc, hst⟩ ha hstep
      exact ⟨(hc.step hstep).1, hst.step hc hstep ha⟩
    · rintro a ha x rfl
      exact hsteady x ha
  exact key.2

/-- What the pulses are, but for one at first. -/
theorem Steady.pulses (h : Steady v tr s) : ∃ m ≤ 1, ∃ pid : MiniPID,
    pid.Integrating gainP gainI 1 ∧ ∀ n x, (speedPulses tr)[m + n]? = some x →
      x = pid.outputAgain v 50 n / 2 + 1.5 := by
  obtain ⟨hnil, -⟩ | ⟨pre, pid, n, hpre, hpid, hl, -⟩ := h.throttle
  · refine ⟨0, Nat.zero_le 1, (Controller.new 0 1).pid, .new one_pos gainI_pos.ne', ?_⟩
    intro n x hx
    rw [hnil] at hx
    cases hx
  · refine ⟨pre.length, hpre, pid, hpid, fun k x hx => ?_⟩
    rw [hl, List.getElem?_append_right (Nat.le_add_right _ _), Nat.add_sub_cancel_left, repeated,
      List.getElem?_map] at hx
    obtain ⟨k', hk', rfl⟩ := Option.map_eq_some_iff.mp hx
    obtain ⟨hlt, he⟩ := List.getElem?_eq_some_iff.mp hk'
    rw [← he, List.getElem_range]

/-- **The throttle at a steady speed.** As long as `Speed::Run` stores the same speed `v`, the
pulses of the throttle do not depend on the order in which the threads run, with exact arithmetic.
Below the target of 50 they go after a while again and again through the same levels, which end with
full throttle (and there may be only this one). Above the target they end at neutral, and at the
target they stay. -/
theorem throttle_steady (hs : threads.Reachable s) (hv : s.car.speed = v)
    (h : threads.Run s tr t) (hsteady : ∀ x, .storesSpeed x ∈ tr → x = v) :
    (v < 50 → ∃ k ≤ ⌈2 / (gainI * (50 - v))⌉₊ + 2, ∀ n x, (speedPulses tr)[k + n]? = some x →
      x = MiniPID.level gainP gainI 1 (50 - v)
        (tooth (teeth (50 - v) (MiniPID.fullSum gainP gainI 1 (50 - v))) n) / 2 + 1.5) ∧
    (50 < v → ∀ n x, ⌈1 / (gainI * (v - 50))⌉₊ + 2 ≤ n → (speedPulses tr)[n]? = some x →
      x = 1.5) ∧
    (v = 50 → ∀ n x y, 3 ≤ n → (speedPulses tr)[3]? = some x → (speedPulses tr)[n]? = some y →
      x = y) := by
  obtain ⟨m, hm, pid, hpid, hpulses⟩ := (Steady.run hs hv h hsteady).pulses
  have hfrom : ∀ n x, m ≤ n → (speedPulses tr)[n]? = some x →
      x = pid.outputAgain v 50 (n - m) / 2 + 1.5 := by
    intro n x hmn hx
    exact hpulses (n - m) x (by rwa [Nat.add_sub_cancel' hmn])
  refine ⟨fun hlt => ?_, fun hgt n x hn hx => ?_, ?_⟩
  · obtain ⟨k, hk, hout⟩ := MiniPID.exists_sawtooth hpid one_pos gainI_pos gainP_nonneg hlt
    rw [mul_one] at hk
    refine ⟨m + k, by omega, fun n x hx => ?_⟩
    rw [← hout n]
    exact hpulses (k + n) x (by rwa [← Nat.add_assoc])
  · have hclosed := MiniPID.exists_closed hpid one_pos gainI_pos gainP_nonneg hgt (n - m) (by omega)
    rw [hfrom n x (by omega) hx, hclosed]
    norm_num
  · rintro rfl n x y hn hx hy
    obtain ⟨k, hk⟩ : ∃ k, n - m = k + 2 := ⟨n - m - 2, by omega⟩
    obtain ⟨k', hk'⟩ : ∃ k', 3 - m = k' + 2 := ⟨3 - m - 2, by omega⟩
    rw [hfrom 3 x (by omega) hx, hfrom n y (by omega) hy, hk, hk',
      MiniPID.outputAgain_at hpid one_pos gainI_pos k,
      MiniPID.outputAgain_at hpid one_pos gainI_pos k']

end Steady

/-- The throttle alone, with a speed of 0: levels 0 to 7, and then 1 to 7. -/
def stuck : List Act :=
  (List.range 20).flatMap fun n => [.throttleReads, .throttleComputes,
    .setSpeed (MiniPID.level gainP gainI 1 50 (if n = 0 then 0 else tooth 7 n) / 2 + 1.5)]

theorem throttle_steady_stuck : ∃ s, threads.Run .start stuck s ∧
    ∃ k ≤ ⌈2 / (gainI * (50 - 0))⌉₊ + 2, ∀ n x, (speedPulses stuck)[k + n]? = some x →
      x = MiniPID.level gainP gainI 1 (50 - 0)
        (tooth (teeth (50 - 0) (MiniPID.fullSum gainP gainI 1 (50 - 0))) n) / 2 + 1.5 := by
  obtain ⟨s, hs, -⟩ := threads.exists_run (s := .start) stuck (P := fun _ => True)
    (by decide +kernel)
  have hreach : threads.Reachable .start := ⟨_, _, rfl, .nil⟩
  exact ⟨s, hs, (throttle_steady (v := 0) hreach rfl hs (by simp [stuck])).1 (by norm_num)⟩

end Vehicle.Thread
