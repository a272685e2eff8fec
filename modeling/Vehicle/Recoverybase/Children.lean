import Mathlib.Data.PNat.Notation
import Vehicle.Recoverybase.Requests
import Vehicle.Recoverybase.Dumps
import Vehicle.Recoverybase.Fault

/-!
# recoverybase: the children the manager signals and dumps

`Car::AddPart` enters -1 for every part in `part_pid_`, and `Car::ForkPart` replaces it by the pid
of the child, unless `fork` fails, which is only logged. The system with forks that may fail does
what the system of `System.lean` does with the parts that could not be forked standing still
(`exists_base`). Then `times` stays at two at most, the fault branch is never entered, and nobody is
killed (`kill_own`). But the unit pass dumps speed without its help, so where the fork of speed has
failed `SaveState` asks for a dump of the process -1 (`ownChildren_iff`).
-/

namespace Vehicle.Recoverybase

open Vehicle.Trace

/-! ### Forks that may fail -/

/-- What the calls of `fork` come to: the pid of the child, or a failure. -/
abbrev Forks := PartType → Option ℕ+

/-- What `fork` returns in the manager. -/
def pidOf : Option ℕ+ → ℤ
  | some pid => pid
  | none => -1

/-- The whole system with `part_pid_`. -/
structure ForkSys where
  sys : Sys
  partPid : PartType → ℤ

/-- A process that is sent `SIGINT`. -/
def Proc.interrupt : Proc → Proc
  | .running _ => .killed
  | q => q

/-- The system after a label. `kill` with the pid -1 reaches every process that the manager may
signal. -/
def Label.nextWith (cfg : Config) (forks : Forks) (s : ForkSys) : Label → ForkSys
  | .car (.fork p) =>
    match forks p with
    | some pid => ⟨(Label.car (.fork p)).next cfg s.sys, Function.update s.partPid p pid⟩
    | none => { s with sys := { s.sys with car := (CarAct.fork p).move cfg s.sys.car } }
  | .car (.kill p) =>
    if s.partPid p = -1 then
      { s with
        sys :=
          { (Label.car (.kill p)).next cfg s.sys with part := fun q => (s.sys.part q).interrupt } }
    else { s with sys := (Label.car (.kill p)).next cfg s.sys }
  | a => { s with sys := a.next cfg s.sys }

/-- When `main` calls `Car::Run`, `AddPart` has been executed. -/
def ForkSys.init (cfg : Config) : ForkSys := ⟨Sys.init cfg, fun _ => -1⟩

/-- **The recoverybase program, with forks that may fail.** -/
def forkSystem (cfg : Config) (forks : Forks) : Lts ForkSys Label where
  init s := s = ForkSys.init cfg
  step s a := if a.Enabled s.sys then some (a.nextWith cfg forks s) else none

theorem fork_step_iff {cfg : Config} {forks : Forks} {s t : ForkSys} {a : Label} :
    (forkSystem cfg forks).step s a = some t ↔ a.Enabled s.sys ∧ t = a.nextWith cfg forks s := by
  simp [forkSystem, eq_comm]

/-- A call with a pid. -/
inductive Call
  | kill (pid : ℤ)
  | waitpid (pid : ℤ)
  | criuSetPid (pid : ℤ)
  deriving DecidableEq, Repr

/-- The pid a call is given. -/
def Call.pid : Call → ℤ
  | .kill pid | .waitpid pid | .criuSetPid pid => pid

/-- The calls behind a label: those of `SimulateFalut`, where `waitpid` follows a `kill` that has
succeeded, and that of `SaveState`. -/
def ForkSys.calls (s : ForkSys) : Label → List Call
  | .car (.kill p) => [.kill (s.partPid p), .waitpid (s.partPid p)]
  | .car (.saveBegin _ i) => [.criuSetPid (s.partPid i)]
  | _ => []

/-- **Only own children are signalled and dumped**: every pid in the calls is one `fork` has
returned. -/
def OwnChildren (forks : Forks) (s : ForkSys) (a : Label) : Prop :=
  ∀ c ∈ s.calls a, ∃ p pid, forks p = some pid ∧ c.pid = pid

/-! ### The same run without failures -/

/-- The base system stands where the system with failing forks stands, but for the parts that could
not be forked. -/
structure Sim (forks : Forks) (s : ForkSys) (b : Sys) : Prop where
  state : b.state = s.sys.state
  car : b.car = s.sys.car
  part : ∀ p pid, forks p = some pid → b.part p = s.sys.part p
  occupied : ∀ p pid, forks p = some pid → b.occupied p = s.sys.occupied p
  /-- A part that could not be forked does not run. -/
  absent : ∀ p, forks p = none → s.sys.part p = .unborn
  /-- `part_pid_` holds what `fork` has returned. -/
  pid : ∀ p, s.partPid p = if p ∈ s.sys.car.pc.unforked then -1 else pidOf (forks p)

theorem Sim.init (cfg : Config) (forks : Forks) : Sim forks (ForkSys.init cfg) (Sys.init cfg) where
  state := rfl
  car := rfl
  part _ _ _ := rfl
  occupied _ _ _ := rfl
  absent _ _ := rfl
  pid p := by cases p <;> rfl

section Sim

variable {cfg : Config} {forks : Forks} {s : ForkSys} {b : Sys}

/-- A part that takes a step was forked. -/
theorem Sim.forked (h : Sim forks s b) {p : PartType} (hp : s.sys.part p ≠ .unborn) :
    ∃ pid, forks p = some pid :=
  Option.ne_none_iff_exists'.mp fun hn => hp (h.absent p hn)

theorem running_of_enabled {t : Sys} {p : PartType} {a : Act} (he : (Label.part p a).Enabled t) :
    t.part p ≠ .unborn := by
  obtain ⟨l, k, hl, -⟩ := enabled_part.mp he
  rw [hl]
  exact Proc.noConfusion

/-- The base system can follow. -/
theorem Sim.enabled (h : Sim forks s b) {a : Label} (he : a.Enabled s.sys) : a.Enabled b := by
  cases a with
  | part p a =>
    obtain ⟨pid, hpid⟩ := h.forked (running_of_enabled he)
    change (b.part p).Enables p b.state a
    rw [h.part p pid hpid, h.state]
    exact he
  | car a =>
    have hstate := h.state
    have hcar := h.car
    cases a with
    | restore p l =>
      obtain ⟨hpc, hk, hl⟩ : s.sys.car.pc = .restore p ∧ s.sys.part p = .killed ∧
        l ∈ s.sys.occupied p := he
      obtain ⟨pid, hpid⟩ := h.forked (p := p) (by rw [hk]; exact Proc.noConfusion)
      refine ⟨by rw [hcar, hpc], ?_, ?_⟩
      · rw [h.part p pid hpid, hk]
      · rw [h.occupied p pid hpid]
        exact hl
    | _ =>
      simp only [Label.Enabled, CarAct.Enabled, hstate, hcar] at he ⊢
      exact he

theorem Sim.step_part {p : PartType} {a : Act} (h : Sim forks s b)
    (he : (Label.part p a).Enabled s.sys) :
    Sim forks ((Label.part p a).nextWith cfg forks s) ((Label.part p a).next cfg b) := by
  obtain ⟨pid, hpid⟩ := h.forked (running_of_enabled he)
  refine ⟨?_, h.car, ?_, ?_, ?_, h.pid⟩
  · exact congrArg (a.write p) h.state
  · intro q pid' hq'
    by_cases hq : q = p
    · subst hq
      simp [Label.nextWith, Label.next, h.part q pid' hq']
    · simpa [Label.nextWith, Label.next, hq] using h.part q pid' hq'
  · intro q pid' hq'
    by_cases hq : q = p
    · subst hq
      simp [Label.nextWith, Label.next, h.part q pid' hq', h.occupied q pid' hq']
    · simpa [Label.nextWith, Label.next, hq] using h.occupied q pid' hq'
  · intro q hq'
    have hq : q ≠ p := by
      rintro rfl
      rw [hpid] at hq'
      cases hq'
    simpa [Label.nextWith, Label.next, hq] using h.absent q hq'

/-- What an act of the manager does to a part does not depend on the others. -/
theorem spawn_congr {part part' : PartType → Proc} {q : PartType} (a : CarAct)
    (h : part q = part' q) : a.spawn part q = a.spawn part' q := by
  cases a with
  | fork p | kill p | restore p l =>
    by_cases hq : q = p
    · subst hq
      simp [CarAct.spawn]
    · simpa [CarAct.spawn, hq] using h
  | _ => exact h

theorem record_congr {occ occ' : PartType → List Local} {q : PartType} (a : CarAct)
    (h : occ q = occ' q) : a.record occ q = a.record occ' q := by
  cases a with
  | fork p =>
    by_cases hq : q = p
    · subst hq
      simp [CarAct.record]
    · simpa [CarAct.record, hq] using h
  | _ => exact h

/-- An unborn part stays unborn until it is forked. -/
theorem spawn_unborn {t : Sys} {q : PartType} {a : CarAct} (he : a.Enabled t)
    (hq : t.part q = .unborn) (hf : a ≠ .fork q) (hk : a ≠ .kill q) :
    a.spawn t.part q = .unborn := by
  cases a with
  | fork p | kill p =>
    have hne : q ≠ p := by
      rintro rfl
      contradiction
    simpa [CarAct.spawn, hne] using hq
  | restore p l =>
    have hne : q ≠ p := by
      rintro rfl
      have hdead := he.2.1
      rw [hq] at hdead
      cases hdead
    simpa [CarAct.spawn, hne] using hq
  | _ => exact hq

theorem unforked_of_toKill {c : CarPc} {p : PartType} (h : p ∈ c.toKill) : c.unforked = [] := by
  cases c <;> simp_all [CarPc.toKill, CarPc.unforked]

/-- Only a fork changes which parts are still to be forked. -/
theorem unforked_move {t : Sys} {a : CarAct} (he : a.Enabled t) (hf : ∀ p, a ≠ .fork p) :
    (a.move cfg t.car).pc.unforked = t.car.pc.unforked := by
  cases a with
  | kill p =>
    rw [unforked_of_toKill he]
    exact unforked_killing _
  | restore p l =>
    obtain ⟨hpc, -⟩ := he
    rw [hpc]
    exact unforked_afterRestore p
  | _ => exact (sameLife_move he hf (fun _ => by simp) (fun _ _ => by simp)).unforked

/-- Where the system with failing forks executes an act as the base system does. -/
theorem Sim.step_same {a : CarAct} (h : Sim forks s b) (he : a.Enabled s.sys)
    (hf : ∀ p, forks p = none → a ≠ .fork p ∧ a ≠ .kill p) {pids : PartType → ℤ}
    (hpids : ∀ p, pids p =
      if p ∈ (a.move cfg s.sys.car).pc.unforked then -1 else pidOf (forks p)) :
    Sim forks ⟨(Label.car a).next cfg s.sys, pids⟩ ((Label.car a).next cfg b) where
  state := by
    simp only [Label.next, h.state, h.car]
  car := congrArg (CarAct.move cfg · a) h.car
  part q pid hq := spawn_congr a (h.part q pid hq)
  occupied q pid hq := record_congr a (h.occupied q pid hq)
  absent q hq := spawn_unborn he (h.absent q hq) (hf q hq).1 (hf q hq).2
  pid := hpids

theorem exists_of_toFork {c : CarPc} {p : PartType} (h : p ∈ c.toFork) :
    ∃ todo, c = .forkPart todo ∧ p ∈ todo := by
  cases c with
  | forkPart todo => exact ⟨todo, rfl, h⟩
  | _ => cases h

/-- `part_pid_` after a call of `fork`; a failure leaves the -1 of `AddPart`. -/
theorem Sim.pid_fork {p : PartType} (cfg : Config) (h : Sim forks s b) (hw : Wf b)
    (he : (CarAct.fork p).Enabled s.sys) :
    s.partPid p = -1 ∧ ∀ q, Function.update s.partPid p (pidOf (forks p)) q =
      if q ∈ ((CarAct.fork p).move cfg s.sys.car).pc.unforked then -1 else pidOf (forks q) := by
  obtain ⟨todo, hpc, hmem⟩ := exists_of_toFork he
  have hnodup : todo.Nodup := by
    have hnd := hw.nodupFork
    rw [h.car, hpc] at hnd
    exact hnd
  have hmove : ((CarAct.fork p).move cfg s.sys.car).pc.unforked = todo.erase p := by
    simp [CarAct.move, hpc, CarPc.toFork, CarPc.unforked]
  have hpid := h.pid
  simp only [hpc, CarPc.unforked] at hpid
  refine ⟨by rw [hpid p, if_pos hmem], fun q => ?_⟩
  rw [hmove]
  by_cases hq : q = p
  · subst hq
    rw [Function.update_self, if_neg hnodup.not_mem_erase]
  · rw [Function.update_of_ne hq, hpid q]
    simp [List.mem_erase_of_ne hq]

theorem Sim.step_fork {p : PartType} (h : Sim forks s b) (hw : Wf b)
    (he : (CarAct.fork p).Enabled s.sys) :
    Sim forks ((Label.car (.fork p)).nextWith cfg forks s) ((Label.car (.fork p)).next cfg b) := by
  obtain ⟨hunset, hpids⟩ := h.pid_fork cfg hw he
  cases hfork : forks p with
  | some pid =>
    have hnext : (Label.car (.fork p)).nextWith cfg forks s =
        ⟨(Label.car (.fork p)).next cfg s.sys, Function.update s.partPid p pid⟩ := by
      simp [Label.nextWith, hfork]
    rw [hfork] at hpids
    rw [hnext]
    refine h.step_same he (fun q hq => ⟨?_, by simp⟩) hpids
    rintro ⟨⟩
    rw [hfork] at hq
    cases hq
  | none =>
    -- the base system forks the part, which then stands still
    have hnext : (Label.car (.fork p)).nextWith cfg forks s =
        { s with sys := { s.sys with car := (CarAct.fork p).move cfg s.sys.car } } := by
      simp [Label.nextWith, hfork]
    have hne : ∀ q pid, forks q = some pid → q ≠ p := by
      rintro q pid hq rfl
      rw [hfork] at hq
      cases hq
    have hsame : Function.update s.partPid p (pidOf (forks p)) = s.partPid := by
      rw [hfork, Function.update_eq_self_iff]
      exact hunset.symm
    rw [hsame] at hpids
    rw [hnext]
    refine ⟨h.state, congrArg (CarAct.move cfg · (.fork p)) h.car, ?_, ?_, h.absent, hpids⟩
    · intro q pid hq
      simpa [Label.next, CarAct.spawn, hne q pid hq] using h.part q pid hq
    · intro q pid hq
      simpa [Label.next, CarAct.record, hne q pid hq] using h.occupied q pid hq

/-- Behind `ForkPart`, `part_pid_` holds what `fork` has returned for every part. -/
theorem Sim.partPid_eq (h : Sim forks s b) (hpc : s.sys.car.pc.unforked = []) (p : PartType) :
    s.partPid p = pidOf (forks p) := by
  rw [h.pid p, hpc]
  rfl

theorem pidOf_ne {f : Option ℕ+} (h : f ≠ none) : pidOf f ≠ -1 := by
  cases f with
  | none => exact absurd rfl h
  | some pid =>
    have hpos := pid.pos
    change ((pid : ℕ) : ℤ) ≠ -1
    omega

/-- **The base system follows**, as long as no part is killed that could not be forked. -/
theorem Sim.step {a : Label} (h : Sim forks s b) (hw : Wf b) (he : a.Enabled s.sys)
    (hk : ∀ p, forks p = none → a ≠ .car (.kill p)) :
    Sim forks (a.nextWith cfg forks s) (a.next cfg b) := by
  cases a with
  | part p a => exact h.step_part he
  | car a =>
    by_cases hf : ∃ p, a = .fork p
    · obtain ⟨p, rfl⟩ := hf
      exact h.step_fork hw he
    have hfork : ∀ p, a ≠ .fork p := fun p hp => hf ⟨p, hp⟩
    have hsame :
        Sim forks ⟨(Label.car a).next cfg s.sys, s.partPid⟩ ((Label.car a).next cfg b) := by
      refine h.step_same he (fun p hp => ⟨hfork p, fun ha => hk p hp (by rw [ha])⟩) fun p => ?_
      rw [unforked_move he hfork]
      exact h.pid p
    cases a with
    | fork p => exact absurd rfl (hfork p)
    | kill p =>
      have hne : s.partPid p ≠ -1 := by
        rw [h.partPid_eq (unforked_of_toKill he)]
        exact pidOf_ne fun hp => hk p hp rfl
      simpa [Label.nextWith, hne] using hsame
    | _ => exact hsame

end Sim

/-! ### No fault without all children -/

/-- The parts that could not be forked take no step in a run. -/
def Still (forks : Forks) (tr : List Label) : Prop :=
  ∀ p, forks p = none → ∀ a, Label.part p a ∉ tr

section Still

variable {cfg : Config} {forks : Forks} {tr : List Label} {s : ForkSys} {b : Sys} {p : PartType}

theorem Still.countP (h : Still forks tr) (hp : forks p = none) (j : Instr) :
    tr.countP (Label.does p j) = 0 := by
  rw [List.countP_eq_zero]
  intro a ha hdoes
  cases a with
  | part q a =>
    obtain ⟨rfl, -⟩ : q = p ∧ a.instr = j := by simpa [Label.does] using hdoes
    exact h q hp a ha
  | car a => cases hdoes

/-- **Without one of the parts** servoPID adds to `times` twice at most: it waits for data of speed,
which waits for data of camera. -/
theorem times_le_two (hr : (system cfg).Run (Sys.init cfg) tr b) (hf : FaultFree tr)
    (h : Still forks tr) (hp : forks p = none) : b.state.times ≤ 2 := by
  have hthree := times_le_clears hr hf
  have hservo := clears_le_sets hr hf .speed .servoPID
  have hspeed := (sets_le_clears hr hf).trans (clears_le_sets hr hf .camera .speed)
  have hzero := h.countP hp
  simp only [PartType.idx] at hservo hspeed
  rw [times_eq_count hr hf]
  cases p with
  | camera =>
    have := hzero (.storeNew 0 true)
    omega
  | speed =>
    have := hzero (.storeNew 1 true)
    omega
  | servoPID =>
    have := hzero (.storeNew 1 false)
    omega

/-- What a run of the system with failing forks has in common with the same run of the base
system. -/
structure Follows (forks : Forks) (tr : List Label) (s : ForkSys) (b : Sys) : Prop where
  sim : Sim forks s b
  still : Still forks tr
  /-- Without one of the parts the fault branch is not entered. -/
  noFault : (∃ p, forks p = none) → FaultFree tr ∧ s.sys.car.pc.faulting = false

theorem Follows.not_kill (h : Follows forks tr s b) (he : (CarAct.kill p).Enabled s.sys)
    (q : PartType) : forks q ≠ none := by
  intro hq
  have hmem : p ∈ s.sys.car.pc.toKill := he
  have hno := (h.noFault ⟨q, hq⟩).2
  cases hc : s.sys.car.pc <;> simp_all [CarPc.toKill, CarPc.faulting]

/-- The fault is tested for, but `times` is too small for it. -/
theorem Follows.not_faulting {a : Label} (hr : (system cfg).Run (Sys.init cfg) tr b)
    (h : Follows forks tr s b) (hp : forks p = none) (he : a.Enabled b) :
    (a.next cfg b).car.pc.faulting = false := by
  obtain ⟨hf, hbranch⟩ := h.noFault ⟨p, hp⟩
  rw [← h.sim.car] at hbranch
  by_contra hfault
  have hfault' : (a.next cfg b).car.pc.faulting = true := Bool.eq_true_of_not_eq_false hfault
  cases a with
  | part q a =>
    rw [next_part_car, hbranch] at hfault'
    cases hfault'
  | car a =>
    rcases faulting_move he hfault' with rfl | ⟨hb, -⟩
    · have htwo := times_le_two hr hf h.still hp
      have hb : true = (decide (b.state.times > faultStep) && !b.car.faluted) := he.2
      have hlt : faultStep < b.state.times :=
        of_decide_eq_true (Bool.and_eq_true_iff.mp hb.symm).1
      have hfive : faultStep = 5 := rfl
      omega
    · rw [hbranch] at hb
      cases hb

theorem Follows.step {a : Label} {t : ForkSys} (hr : (system cfg).Run (Sys.init cfg) tr b)
    (h : Follows forks tr s b) (hs : (forkSystem cfg forks).step s a = some t) :
    ∃ c, (system cfg).step b a = some c ∧ Follows forks (tr ++ [a]) t c := by
  obtain ⟨he, rfl⟩ := fork_step_iff.mp hs
  have hw : Wf b := Wf.of_reachable ⟨_, tr, rfl, hr⟩
  have hk : ∀ p, forks p = none → ∀ q, a ≠ .car (.kill q) := by
    rintro p hp q rfl
    exact h.not_kill he p hp
  have hsim : Sim forks (a.nextWith cfg forks s) (a.next cfg b) :=
    h.sim.step hw he fun p hp => hk p hp p
  refine ⟨_, step_iff.mpr ⟨h.sim.enabled he, rfl⟩, hsim, ?_, ?_⟩
  · intro p hp b hmem
    rcases List.mem_append.mp hmem with hmem | hmem
    · exact h.still p hp b hmem
    · obtain rfl : Label.part p b = a := by simpa using hmem
      exact running_of_enabled he (h.sim.absent p hp)
  · rintro ⟨p, hp⟩
    refine ⟨fun q hmem => ?_, ?_⟩
    · rcases List.mem_append.mp hmem with hmem | hmem
      · exact (h.noFault ⟨p, hp⟩).1 q hmem
      · exact hk p hp q (List.mem_singleton.mp hmem).symm
    · rw [← hsim.car]
      exact h.not_faulting hr hp (h.sim.enabled he)

/-- **The system with failing forks follows the base system**: its runs are runs of the base system,
in which the parts that could not be forked stand still. -/
theorem exists_base (hr : (forkSystem cfg forks).Run (ForkSys.init cfg) tr s) :
    ∃ b, (system cfg).Run (Sys.init cfg) tr b ∧ Follows forks tr s b := by
  have hinit : Follows forks [] (ForkSys.init cfg) (Sys.init cfg) :=
    ⟨Sim.init cfg forks, fun _ _ _ => List.not_mem_nil, fun _ => ⟨fun _ => List.not_mem_nil, rfl⟩⟩
  refine hr.simulate (R := Follows forks) hinit ?_
  intro tr s b a t hb h hs
  exact h.step hb hs

/-- When no fork fails the two systems are the same. -/
theorem run_of_forked (hforks : ∀ p, forks p ≠ none)
    (hr : (forkSystem cfg forks).Run (ForkSys.init cfg) tr s) :
    (system cfg).Run (Sys.init cfg) tr s.sys := by
  obtain ⟨b, hb, ⟨hsim, -, -⟩⟩ := exists_base hr
  have hpid := fun p => Option.ne_none_iff_exists'.mp (hforks p)
  obtain ⟨⟨state, car, part, occupied⟩, partPid⟩ := s
  obtain ⟨state', car', part', occupied'⟩ := b
  obtain rfl : state' = state := hsim.state
  obtain rfl : car' = car := hsim.car
  obtain rfl : part' = part := funext fun p => hsim.part p _ (hpid p).choose_spec
  obtain rfl : occupied' = occupied := funext fun p => hsim.occupied p _ (hpid p).choose_spec
  exact hb

end Still

/-! ### The calls -/

section Calls

variable {cfg : Config} {forks : Forks} {tr : List Label} {s : ForkSys} {p : PartType}

/-- **A failed fork never leads to a kill**: the parts are killed only when all have been forked. -/
theorem kill_own (hr : (forkSystem cfg forks).Run (ForkSys.init cfg) tr s)
    (he : (CarAct.kill p).Enabled s.sys) : OwnChildren forks s (.car (.kill p)) := by
  obtain ⟨b, hb, hfol⟩ := exists_base hr
  obtain ⟨pid, hpid⟩ := Option.ne_none_iff_exists'.mp (hfol.not_kill he p)
  have hval : s.partPid p = pid := by
    rw [hfol.sim.partPid_eq (unforked_of_toKill he), hpid]
    rfl
  intro c hc
  refine ⟨p, pid, hpid, ?_⟩
  rw [← hval]
  rcases List.mem_pair.mp hc with rfl | rfl <;> rfl

/-- A `SaveState`, or its guard, is ahead. -/
def CarPc.Saving (c : Check) (pc : CarPc) : Prop := ∃ i, pc = .stage c i ∨ pc = .save c i

theorem not_saving_afterPass {c d : Check} {j : PartType} : ¬ (CarPc.afterPass d j).Saving c := by
  rintro ⟨i, h⟩
  rcases afterPass_cases d j with ⟨e, k, he⟩ | he <;> simp [he] at h

theorem saves_afterTest {c d : Check} {j : PartType} {b : Bool}
    (h : (CarPc.afterTest cfg d j b).Saving c) : cfg.method.saves c = true := by
  unfold CarPc.afterTest at h
  split at h
  · split at h
    · rename_i hsaves
      obtain ⟨i, h⟩ := h
      simp only [CarPc.stage.injEq, reduceCtorEq, or_false] at h
      rw [← h.1]
      exact hsaves
    · obtain ⟨i, h⟩ := h
      simp at h
  · exact absurd h not_saving_afterPass

/-- A guard is reached in the cases of the `switch` that have one. -/
theorem saves_move {t : Sys} {a : CarAct} (he : a.Enabled t) {c : Check}
    (hI : ∀ c, t.car.pc.Saving c → cfg.method.saves c = true)
    (h : (a.move cfg t.car).pc.Saving c) : cfg.method.saves c = true := by
  cases a with
  | testUnit i b | testNeed i b => exact saves_afterTest h
  | storeUnit i | clearNeed i => exact absurd h not_saving_afterPass
  | testStage k i b =>
    obtain ⟨hpc, -⟩ := he
    obtain ⟨j, h⟩ := h
    cases b with
    | false => simp [CarAct.move] at h
    | true =>
      obtain ⟨rfl, -⟩ : k = c ∧ i = j := by simpa [CarAct.move] using h
      exact hI k ⟨i, Or.inl hpc⟩
  | kill p =>
    obtain ⟨j, h⟩ := h
    simp only [CarAct.move] at h
    cases hk : t.car.pc.toKill.erase p <;> simp [hk, CarPc.killing] at h
  | testLoop b | testFault b =>
    obtain ⟨j, h⟩ := h
    cases b <;> simp [CarAct.move] at h
  | initUnit i | clearNew i | restore i l =>
    obtain ⟨j, h⟩ := h
    cases i <;> simp [CarAct.move, CarPc.afterInit, CarPc.afterClear, CarPc.afterRestore,
      PartType.succ] at h
  | _ =>
    obtain ⟨j, h⟩ := h
    simp [CarAct.move] at h

theorem saves_of_save {b : Sys} (hr : (system cfg).Run (Sys.init cfg) tr b) {c : Check}
    {i : PartType} (hpc : b.car.pc = .save c i) : cfg.method.saves c = true := by
  refine hr.inv (I := fun _ t => ∀ c, t.car.pc.Saving c → cfg.method.saves c = true) ?_ ?_ c
    ⟨i, Or.inr hpc⟩
  · rintro c ⟨i, h⟩
    rcases h with h | h <;> cases h
  · intro tr t a u _ hI hs c h
    obtain ⟨he, rfl⟩ := step_iff.mp hs
    cases a with
    | part q a => exact hI c h
    | car a => exact saves_move he hI h

/-- **Whoever is dumped was forked**, when the unit pass dumps nobody or speed was forked. -/
theorem save_own (hcond : cfg.method = .compulsiveOnly ∨ forks .speed ≠ none)
    (hr : (forkSystem cfg forks).Run (ForkSys.init cfg) tr s) {c : Check}
    (he : (CarAct.saveBegin c p).Enabled s.sys) : OwnChildren forks s (.car (.saveBegin c p)) := by
  obtain ⟨b, hb, hfol⟩ := exists_base hr
  have hpc : s.sys.car.pc = .save c p := he
  have hpc' : b.car.pc = .save c p := by rw [hfol.sim.car, hpc]
  obtain rfl : p = .speed := (Staged.of_run hb).saving c p hpc'
  have hforked : forks .speed ≠ none := by
    rcases hcond with hm | hforked
    · -- speed asks for the dump itself, so it runs
      intro hnone
      have hsaves := saves_of_save hb hpc'
      rw [hm] at hsaves
      cases c with
      | unit => cases hsaves
      | compulsive =>
        have hq := (Quiet.of_run hb (hfol.noFault ⟨_, hnone⟩).1).1
        have hneed := hq.handling .speed (by rw [hpc']; rfl)
        exact hfol.still .speed hnone _ (set_of_need hb hneed)
    · exact hforked
  obtain ⟨pid, hpid⟩ := Option.ne_none_iff_exists'.mp hforked
  intro c' hc
  obtain rfl := List.mem_singleton.mp hc
  refine ⟨.speed, pid, hpid, ?_⟩
  change s.partPid .speed = pid
  rw [hfol.sim.partPid_eq (by rw [hpc]; rfl), hpid]
  rfl

/-- A fork that succeeds or fails takes the manager one part further. -/
theorem exists_fork (cfg : Config) (forks : Forks) {todo : List PartType}
    (hpc : s.sys.car.pc = .forkPart (p :: todo)) :
    ∃ t, (forkSystem cfg forks).Run s [.car (.fork p)] t ∧ t.sys.state = s.sys.state ∧
      t.sys.car = { s.sys.car with pc := .forkPart todo } := by
  have he : (Label.car (.fork p)).Enabled s.sys := by
    simp [Label.Enabled, CarAct.Enabled, hpc, CarPc.toFork]
  refine ⟨_, .single (fork_step_iff.mpr ⟨he, rfl⟩), ?_, ?_⟩
  · cases hf : forks p <;> simp [Label.nextWith, hf, Label.next, CarAct.write]
  · cases hf : forks p <;>
      simp [Label.nextWith, hf, Label.next, CarAct.move, hpc, CarPc.toFork]

/-- The statements of the manager from `CreateStateDir` to the dump of speed by the first unit pass,
one second after the start. -/
def toSave : List Label :=
  [.car .createStateDir,
    .car (.initNew .camera), .car (.initNeed .camera), .car (.initUnit .camera),
    .car (.initNew .speed), .car (.initNeed .speed), .car (.initUnit .speed),
    .car (.initNew .servoPID), .car (.initNeed .servoPID), .car (.initUnit .servoPID),
    .car (.loadTimes 0), .car (.testLoop true), .car (.clock ⟨1, 0⟩),
    .car (.testUnit .camera true), .car (.testStage .unit .camera false), .car (.storeUnit .camera),
    .car (.testUnit .speed true), .car (.testStage .unit .speed true)]

/-- **The unit pass dumps speed by itself**, whether it was forked or not. -/
theorem exists_save_speed (cfg : Config) (hm : cfg.method ≠ .compulsiveOnly) (forks : Forks) :
    ∃ tr s, (forkSystem cfg forks).Run (ForkSys.init cfg) tr s ∧
      s.sys.car.pc = .save .unit .speed := by
  have hstart : (forkSystem cfg forks).Run (ForkSys.init cfg) [.car (.start ⟨0, 0⟩)]
      ((Label.car (.start ⟨0, 0⟩)).nextWith cfg forks (ForkSys.init cfg)) :=
    .single (fork_step_iff.mpr ⟨rfl, rfl⟩)
  obtain ⟨t₁, hr₁, hs₁, hc₁⟩ := exists_fork cfg forks (p := .camera)
    (s := (Label.car (.start ⟨0, 0⟩)).nextWith cfg forks (ForkSys.init cfg)) rfl
  obtain ⟨t₂, hr₂, hs₂, hc₂⟩ := exists_fork cfg forks (s := t₁) (p := .speed) (by rw [hc₁])
  obtain ⟨t₃, hr₃, hs₃, hc₃⟩ := exists_fork cfg forks (s := t₂) (p := .servoPID) (by rw [hc₂])
  have hrun := ((hstart.trans hr₁).trans hr₂).trans hr₃
  rw [hs₂, hs₁] at hs₃
  rw [hc₂, hc₁] at hc₃
  obtain ⟨⟨state, car, part, occupied⟩, partPid⟩ := t₃
  change state = initState at hs₃
  change car = ⟨.forkPart [], ⟨0, 0⟩, cfg.faulted⟩ at hc₃
  subst hs₃ hc₃
  obtain ⟨method, faulted⟩ := cfg
  obtain ⟨s, hr, hpc⟩ : ∃ s, (forkSystem ⟨method, faulted⟩ forks).Run
      ⟨⟨initState, ⟨.forkPart [], ⟨0, 0⟩, faulted⟩, part, occupied⟩, partPid⟩ toSave s ∧
      s.sys.car.pc = .save .unit .speed := by
    refine Lts.exists_run _ (P := fun s : ForkSys => s.sys.car.pc = .save .unit .speed) ?_
    cases method with
    | compulsiveOnly => exact absurd rfl hm
    | unitOnly | both => rfl
  exact ⟨_, s, hrun.trans hr, hpc⟩

/-- Where speed could not be forked, that is a dump of the process -1. -/
theorem not_ownChildren (hr : (forkSystem cfg forks).Run (ForkSys.init cfg) tr s)
    (hpc : s.sys.car.pc = .save .unit .speed) (hnone : forks .speed = none) :
    ¬ OwnChildren forks s (.car (.saveBegin .unit .speed)) := by
  intro h
  obtain ⟨b, -, hfol⟩ := exists_base hr
  obtain ⟨p, pid, -, hpid⟩ := h _ (List.mem_singleton_self _)
  change s.partPid .speed = pid at hpid
  rw [hfol.sim.partPid_eq (by rw [hpc]; rfl), hnone] at hpid
  exact pidOf_ne (Option.some_ne_none pid) hpid.symm

/-- **When only own children are signalled and dumped**, in every run: when the unit pass dumps
nobody, or speed was forked. -/
theorem ownChildren_iff (cfg : Config) (forks : Forks) :
    (∀ tr s, (forkSystem cfg forks).Run (ForkSys.init cfg) tr s →
      (forkSystem cfg forks).Along (ForkSys.init cfg) (OwnChildren forks) tr) ↔
    cfg.method = .compulsiveOnly ∨ forks .speed ≠ none := by
  constructor
  · intro h
    by_contra hno
    obtain ⟨hm, hforked⟩ := not_or.mp hno
    obtain ⟨tr, s, hr, hpc⟩ := exists_save_speed cfg hm forks
    have hstep : (forkSystem cfg forks).step s (.car (.saveBegin .unit .speed)) = some _ :=
      fork_step_iff.mpr ⟨hpc, rfl⟩
    exact not_ownChildren hr hpc (not_not.mp hforked) (h _ _ (hr.snoc hstep) tr _ [] s rfl hr)
  · intro hcond tr s hr pre a post u htr hu
    obtain ⟨v, hv, -⟩ := Lts.Run.step_at (htr ▸ hr) hu
    have he : a.Enabled u.sys := (fork_step_iff.mp hv).1
    cases a with
    | part p a => exact fun c hc => absurd hc List.not_mem_nil
    | car a =>
      cases a with
      | kill p => exact kill_own hu he
      | saveBegin c p => exact save_own hcond hu he
      | _ => exact fun c hc => absurd hc List.not_mem_nil

/-- The fork of speed fails. -/
def speedUnforked : Forks
  | .camera => some 101
  | .speed => none
  | .servoPID => some 102

/-- With `METHOD` 1, as the header sets it, and a failure of speed's fork, the process -1 is
dumped. -/
theorem failed_fork_dumped :
    ¬ ∀ (cfg : Config) (forks : Forks) (tr : List Label) (s : ForkSys),
      (forkSystem cfg forks).Run (ForkSys.init cfg) tr s →
        (forkSystem cfg forks).Along (ForkSys.init cfg) (OwnChildren forks) tr := by
  intro h
  obtain ⟨tr, s, hr, hpc⟩ := exists_save_speed .default (by decide) speedUnforked
  have hstep : (forkSystem .default speedUnforked).step s (.car (.saveBegin .unit .speed)) =
      some _ := fork_step_iff.mpr ⟨hpc, rfl⟩
  exact not_ownChildren hr hpc rfl (h _ speedUnforked _ _ (hr.snoc hstep) tr _ [] s rfl hr)

end Calls

end Vehicle.Recoverybase
