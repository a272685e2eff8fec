import Mathlib.Data.Fin.VecNotation
import Vehicle.Recovery.Throttle

/-!
# recovery: gains sent by the remote part

`Remote::Run` never returns, so `Remote::UpdateIsNewData` never raises the flags 3, 4 and 5, and the
branches of the controllers on these flags are never taken (`Unarmed`). In particular no `setPID` is
ever executed: a controller evaluates its PID with the gains it was constructed with, whatever the
remote part has stored (`evaluatesWith_iff`).
-/

namespace Vehicle.Recovery

open Vehicle.Trace Vehicle.Trace.Cyclic

/-! ### The flags of the remote part -/

/-- The statements behind an `if` on a flag of the remote part. -/
def Instr.guarded : Instr → Bool
  | .setPID _ _ _ | .storeNew 1 false | .storeNew 4 false | .storeNew 5 false => true
  | _ => false

section Point

variable {p : PartType} {i : Instr} {k k' : List Instr}

/-- The remote part never comes to the statements behind `Remote::Run`. -/
theorem Point.silent {d : Fin 6} (h : Point p (.storeNew d true :: k)) : d < 3 := by
  have hall : ∀ p, ∀ k ∈ (runALL p).tails, (p = .remote → .again ∈ k) → ∀ d : Fin 6,
      k.head? = some (.storeNew d true) → d < 3 := by
    decide +kernel
  exact hall p _ h.mem_tails h.serving d rfl

/-- A guarded statement follows another one, or the `if`. -/
theorem Point.guarded (h : Point p (i :: k)) (hp : p ∈ controllers)
    (hk : k' ∈ targets p (i :: k)) (hg : k'.head?.any Instr.guarded = true) :
    i.guarded = true ∨ ∃ d n, 3 ≤ d ∧ i = .ifNew d n ∧
      (advance (runALL p) (k.drop n)).head?.any Instr.guarded = false := by
  have hall : ∀ p ∈ controllers, ∀ k ∈ (runALL p).tails, ∀ k' ∈ targets p k,
      k'.head?.any Instr.guarded = true → ∀ i ∈ k.head?,
      i.guarded = true ∨ ∃ d : Fin 6, ∃ n ∈ [1, 2], 3 ≤ d ∧ i = .ifNew d n ∧
        (advance (runALL p) (k.tail.drop n)).head?.any Instr.guarded = false := by
    decide +kernel
  rcases hall p hp (i :: k) h.mem_tails k' hk hg i rfl with hi | ⟨d, n, -, hd, hi, hno⟩
  · exact Or.inl hi
  · exact Or.inr ⟨d, n, hd, hi, hno⟩

end Point

/-- **The flags of the remote part are down**, and the controllers do not stand behind an `if` on
them. -/
structure Unarmed (s : Sys) : Prop where
  flags : ∀ d : Fin 6, 3 ≤ d → s.state.isNewData d = false
  skipped : ∀ p ∈ controllers, ∀ l, s.part p = .running l →
    l.rest.head?.any Instr.guarded = false

/-- The acts at an `if` on a flag. -/
theorem Act.Agrees.testIf {p : PartType} {s : State} {l : Local} {a : Act} {d : Fin 6} {n : ℕ}
    (ha : a.Agrees p s l) (hi : a.instr = .ifNew d n) : a = .testIf d n (s.isNewData d) := by
  cases a with
  | testIf e m b =>
    obtain ⟨rfl, rfl⟩ := Instr.ifNew.inj hi
    rw [show b = _ from ha]
  | load call e x =>
    obtain ⟨hd, -⟩ := ha
    rcases Instr.eq_call hd with ⟨x, y, z, rfl⟩ | ⟨actual, setpoint, rfl⟩ <;> cases hi
  | _ => cases hi

section Unarmed

variable {handled : Bool} {s t : Sys} {a : Label}

theorem Unarmed.init : Unarmed Sys.init where
  flags _ _ := rfl
  skipped p _ l hl := by cases hl

theorem Unarmed.step (h : Unarmed s) (hwf : Wf s) (hs : (system handled).step s a = some t) :
    Unarmed t := by
  refine ⟨?_, ?_⟩
  · intro d hd
    rw [isNewData_step hs, h.flags d hd]
    cases hv : a.storesNew d with
    | none => rfl
    | some v =>
      cases v with
      | false => rfl
      | true =>
        -- nobody raises the flag
        obtain ⟨p, rfl⟩ := storesNew_eq_some hv
        obtain ⟨l, k, hl, hk, -⟩ := part_step hs
        have := (hwf.pointAt hl hk).silent
        omega
  · intro p hp l hl
    rcases running_cases hs hl with ⟨hl, -⟩ | ⟨rfl, -⟩ | ⟨b, l₀, k, rfl, hl₀, hk, hag, rfl⟩
    · exact h.skipped p hp l hl
    · have hall : ∀ p ∈ controllers, (runALL p).head?.any Instr.guarded = false := by decide
      exact hall p hp
    · by_contra hg
      rw [Bool.not_eq_false] at hg
      have hpt := hwf.pointAt hl₀ hk
      rcases hpt.guarded hp (move_mem_targets hk hag) hg with hi | ⟨d, n, hd, hi, hno⟩
      · have := h.skipped p hp l₀ hl₀
        rw [hk] at this
        simp [hi] at this
      · -- the flag is down, so the branch is skipped
        obtain rfl := hag.testIf hi
        rw [h.flags d hd] at hg
        have hrest : (Act.move p (.testIf d n false) l₀).rest =
            advance (runALL p) (k.drop n) := by
          simp [Act.move, Local.skip, hk]
        rw [hrest, hno] at hg
        cases hg

theorem Unarmed.reachable (h : (system handled).Reachable s) : Unarmed s := by
  have hinv : Wf s ∧ Unarmed s := by
    refine h.inv (I := fun s => Wf s ∧ Unarmed s) ?_ ?_
    · rintro s rfl
      exact ⟨Wf.init, Unarmed.init⟩
    · rintro s a t ⟨hwf, hI⟩ hs
      exact ⟨hwf.step hs, hI.step hwf hs⟩
  exact hinv.2

end Unarmed

/-! ### The gains of an evaluation -/

/-- The two parts with a PID. -/
inductive Controller
  | servo | throttle
  deriving DecidableEq, Repr

namespace Controller

/-- The part. -/
def part : Controller → PartType
  | .servo => .servoPID
  | .throttle => .throttlePID

/-- The flag of the remote part for new gains. -/
def flag : Controller → Fin 6
  | .servo => 4
  | .throttle => 5

/-- The members of the State the remote part stores the gains to. -/
def gain : Controller → Fin 3 → Datum
  | .servo => .servoPID
  | .throttle => .throttlePID

theorem part_mem (q : Controller) : q.part ∈ controllers := by
  cases q <;> decide

end Controller

/-- A message arrives. -/
def Label.receives : Label → Bool
  | .part _ (.receive _) => true
  | _ => false

/-- `Run` of a controller begins, with the `if` on the flag. -/
def Label.beginsRun (q : Controller) : Label → Bool
  | .part p (.testIf d _ _) => decide (p = q.part ∧ d = q.flag)
  | _ => false

/-- **A `Run` with the gains of a message in the State**: the message `c` arrives at position `r`,
its triple is stored when `Run` begins at `k`, no other message has arrived by then, and `Run`
evaluates its PID at `m`. -/
structure Delivered (q : Controller) (tr : List Label) (c : Command) (r k m : ℕ) : Prop where
  receive : tr[r]? = some (.part .remote (.receive c))
  stored : ∀ i, ∃ w, r < w ∧ w < k ∧
    tr[w]? = some (.part .remote (.storeRoot (q.gain i) (c.data (q.gain i))))
  fresh : FreeBetween (fun b => b.receives = true) tr r k
  begins : ∃ a, tr[k]? = some a ∧ a.beginsRun q = true
  evaluate : k < m ∧ ∃ a, tr[m]? = some a ∧ a.evaluates q.part = true
  same : FreeBetween (fun b => b.beginsRun q = true) tr k m

/-- The evaluation at position `m` has the triple `P`, `I`, `D` installed. -/
def EvaluatesWith (handled : Bool) (q : Controller) (tr : List Label) (m : ℕ) (P I D : ℚ) : Prop :=
  ∃ u l, (system handled).Run Sys.init (tr.take m) u ∧ u.part q.part = .running l ∧
    l.pid.P = P ∧ l.pid.I = I ∧ l.pid.D = D

section Gains

variable {handled : Bool} {s t : Sys} {a : Label} {tr : List Label} {q : Controller} {m : ℕ}

theorem getOutput_gains (pid : MiniPID) (x y : ℚ) :
    (pid.getOutput x y).2.P = pid.P ∧ (pid.getOutput x y).2.I = pid.I ∧
      (pid.getOutput x y).2.D = pid.D :=
  ⟨rfl, rfl, rfl⟩

/-- The controller has the gains it was constructed with. -/
def Local.Constructed (q : Controller) (l : Local) : Prop :=
  l.pid.P = (newPid q.part).P ∧ l.pid.I = (newPid q.part).I ∧ l.pid.D = (newPid q.part).D

/-- **A controller keeps the gains it was constructed with.** -/
theorem constructed_of_reachable (h : (system handled).Reachable s) :
    ∀ l, s.part q.part = .running l → l.Constructed q := by
  have hinv : (system handled).Reachable s ∧ ∀ l, s.part q.part = .running l → l.Constructed q := by
    obtain ⟨s₀, tr, rfl, hr⟩ := h
    refine hr.inv (I := fun _ s => (system handled).Reachable s ∧
      ∀ l, s.part q.part = .running l → l.Constructed q) ⟨⟨_, [], rfl, Lts.Run.nil⟩, ?_⟩ ?_
    · intro l hl
      cases hl
    · rintro tr s a t hr ⟨hreach, hI⟩ hs
      refine ⟨⟨_, _, rfl, hr.snoc hs⟩, ?_⟩
      intro l hl
      rcases running_cases hs hl with ⟨hl, -⟩ | ⟨rfl, -⟩ | ⟨b, l₀, k, rfl, hl₀, hk, hag, rfl⟩
      · exact hI l hl
      · exact ⟨rfl, rfl, rfl⟩
      · rcases pid_move q.part l₀ b with ⟨x, y, z, rfl, -⟩ | ⟨actual, setpoint, x, rfl, hpid, -⟩ |
          ⟨hpid, -⟩
        · -- no `setPID` is executed
          have hno := (Unarmed.reachable hreach).skipped q.part q.part_mem l₀ hl₀
          rw [hk] at hno
          cases hno
        · rw [Local.Constructed, hpid]
          exact hI l₀ hl₀
        · rw [Local.Constructed, hpid]
          exact hI l₀ hl₀
  exact hinv.2

/-- **The gains of every evaluation.** -/
theorem evaluatesWith_eq (h : (system handled).Run Sys.init tr s)
    (hm : ∃ a, tr[m]? = some a ∧ a.evaluates q.part = true) (P I D : ℚ) :
    EvaluatesWith handled q tr m P I D ↔
      P = (newPid q.part).P ∧ I = (newPid q.part).I ∧ D = (newPid q.part).D := by
  obtain ⟨a, ha, he⟩ := hm
  obtain ⟨u, v, hr, hs⟩ := h.at_event ha
  have hp : ∃ b, a = .part q.part b := by
    by_contra hno
    have hall : ∀ b, a ≠ .part q.part b := fun b hb => hno ⟨b, hb⟩
    rw [evaluates_eq_false hall] at he
    cases he
  obtain ⟨b, rfl⟩ := hp
  obtain ⟨l, k, hl, -⟩ := part_step hs
  obtain ⟨hP, hI, hD⟩ := constructed_of_reachable (q := q) ⟨_, _, rfl, hr⟩ l hl
  constructor
  · rintro ⟨u', l', hr', hl', rfl, rfl, rfl⟩
    obtain rfl := hr.det hr'
    obtain rfl : l = l' := by simpa [hl] using hl'
    exact ⟨hP, hI, hD⟩
  · rintro ⟨rfl, rfl, rfl⟩
    exact ⟨u, l, hr, hl, hP, hI, hD⟩

/-- **Which messages take effect**: those that carry the gains `ThrottlePID` has anyway, up to the
sign of `P`. The constructor gives `ServoPID` a negative `D`, which `setPID` would never install. -/
theorem evaluatesWith_iff {c : Command} {r k : ℕ} (h : (system handled).Run Sys.init tr s)
    (hd : Delivered q tr c r k m) :
    EvaluatesWith handled q tr m (MiniPID.checkSign false (c.data (q.gain 0)))
        (MiniPID.checkSign false (c.data (q.gain 1)))
        (MiniPID.checkSign false (c.data (q.gain 2))) ↔
      q = .throttle ∧ |c.data (.throttlePID 0)| = 0.00228677780020377 ∧
        c.data (.throttlePID 1) = 0 ∧ c.data (.throttlePID 2) = 0 := by
  have habs : ∀ x : ℚ, MiniPID.checkSign false x = |x| := by
    intro x
    unfold MiniPID.checkSign
    by_cases hx : x < 0
    · simp [hx, abs_of_neg]
    · simp [hx, abs_of_nonneg (not_lt.mp hx)]
  rw [evaluatesWith_eq h hd.evaluate.2, habs, habs, habs]
  cases q with
  | servo =>
    constructor
    · rintro ⟨-, -, hD⟩
      have hneg : (newPid .servoPID).D < 0 := by decide +kernel
      have hpos := abs_nonneg (c.data (Controller.servo.gain 2))
      rw [hD] at hpos
      exact absurd hneg (not_lt.mpr hpos)
    · rintro ⟨hq, -⟩
      cases hq
  | throttle =>
    have hnew : (newPid .throttlePID).P = 0.00228677780020377 ∧ (newPid .throttlePID).I = 0 ∧
        (newPid .throttlePID).D = 0 := by
      decide +kernel
    simp only [Controller.part, Controller.gain, hnew.1, hnew.2.1, hnew.2.2, abs_eq_zero, true_and]

end Gains

/-! ### Two messages -/

/-- A message with the same gains for both controllers. -/
def gainsMessage (gains : Fin 3 → ℚ) : Command where
  auto := false
  data
    | .servoPID i | .throttlePID i => gains i
    | _ => 0

/-- The remote part receives the message and stores what it carries. -/
def receiveMessage (gains : Fin 3 → ℚ) : List Label :=
  [.part .remote (.clockStart ⟨0, 0⟩), .part .remote .run,
    .part .remote (.receive (gainsMessage gains)), .part .remote (.storeAuto false),
    .part .remote (.storeRoot .direction 0), .part .remote (.storeRoot .speed 0),
    .part .remote (.storeRoot (.servoPID 0) (gains 0)),
    .part .remote (.storeRoot (.servoPID 1) (gains 1)),
    .part .remote (.storeRoot (.servoPID 2) (gains 2)),
    .part .remote (.storeRoot (.throttlePID 0) (gains 0)),
    .part .remote (.storeRoot (.throttlePID 1) (gains 1)),
    .part .remote (.storeRoot (.throttlePID 2) (gains 2))]

/-- The first lap, with a message between the measurements and the controls. -/
def lapWithMessage (gains : Fin 3 → ℚ) : List Label :=
  forkAll ++ firstMeasurements ++ receiveMessage gains ++ firstControls

/-- `ThrottlePID` begins its `Run` with the gains of the message stored. -/
theorem delivered_throttle (gains : Fin 3 → ℚ) :
    Delivered .throttle (lapWithMessage gains) (gainsMessage gains) 39 65 68 where
  receive := rfl
  stored i := by
    match i with
    | 0 => exact ⟨46, by decide, by decide, rfl⟩
    | 1 => exact ⟨47, by decide, by decide, rfl⟩
    | 2 => exact ⟨48, by decide, by decide, rfl⟩
  fresh := FreeBetween.of_forall (by
    simp [lapWithMessage, forkAll, addPart, firstMeasurements, receiveMessage, firstControls,
      requestCheckpoint, Label.receives])
  begins := ⟨_, rfl, rfl⟩
  evaluate := ⟨by decide, _, rfl, rfl⟩
  same := FreeBetween.of_forall (by
    simp [lapWithMessage, forkAll, addPart, firstMeasurements, receiveMessage, firstControls,
      requestCheckpoint, Label.beginsRun])

/-- A message with the gains `ThrottlePID` has anyway. -/
theorem evaluatesWith_same : ∃ s, (system true).Run Sys.init
      (lapWithMessage ![-0.00228677780020377, 0, 0]) s ∧
    EvaluatesWith true .throttle (lapWithMessage ![-0.00228677780020377, 0, 0]) 68
      0.00228677780020377 0 0 := by
  obtain ⟨s, hr, -⟩ := (system true).exists_run (s := Sys.init)
    (lapWithMessage ![-0.00228677780020377, 0, 0]) (P := fun _ => True) (by decide +kernel)
  have hiff := evaluatesWith_iff hr (delivered_throttle _)
  obtain ⟨u, l, hu, hl, hP, hI, hD⟩ := hiff.mpr ⟨rfl, by decide +kernel, rfl, rfl⟩
  refine ⟨s, hr, u, l, hu, hl, hP.trans ?_, hI.trans ?_, hD.trans ?_⟩
  · decide +kernel
  · decide +kernel
  · decide +kernel

/-- A message with other gains, which `ThrottlePID` never installs. -/
theorem gains_not_installed : ∃ tr s c r k m, (system true).Run Sys.init tr s ∧
    Delivered .throttle tr c r k m ∧
    ¬ EvaluatesWith true .throttle tr m (MiniPID.checkSign false (c.data (.throttlePID 0)))
      (MiniPID.checkSign false (c.data (.throttlePID 1)))
      (MiniPID.checkSign false (c.data (.throttlePID 2))) := by
  obtain ⟨s, hr, -⟩ := (system true).exists_run (s := Sys.init) (lapWithMessage ![1, 2, 3])
    (P := fun _ => True) (by decide +kernel)
  have hd := delivered_throttle ![1, 2, 3]
  refine ⟨_, s, _, 39, 65, 68, hr, hd, ?_⟩
  rw [evaluatesWith_eq hr hd.evaluate.2]
  rintro ⟨hP, -⟩
  revert hP
  decide +kernel

end Vehicle.Recovery
