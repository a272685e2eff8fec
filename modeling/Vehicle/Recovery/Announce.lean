import Vehicle.Trace.History
import Vehicle.Recovery.Control

/-!
# recovery: announcements

A part that has new data announces it with a flag, and a controller that has seen the flag loads the
member of the State the flag is about and evaluates its PID (`Evaluation`). Every evaluation in a
run is such a one (`exists_evaluation`), by the invariant that a controller behind the loop of
`WaitNeededNewData` has left it in this cycle and has loaded its arguments since (`Known`).
-/

namespace Vehicle.Recovery

open Vehicle.Trace Vehicle.Trace.Cyclic

/-! ### Announcements -/

/-- What is announced: the members of the State the comments in `Camera::UpdateIsNewData` name, and
the speed. -/
inductive Announcement
  | direction | speed | targetSpeed
  deriving DecidableEq, Repr

namespace Announcement

/-- The cell of `is_new_data`. -/
def flag : Announcement → Fin 6
  | .direction => 1
  | .speed => 0
  | .targetSpeed => 2

/-- The member of the State. -/
def datum : Announcement → Datum
  | .direction => .direction
  | .speed => .speed
  | .targetSpeed => .targetSpeed

/-- The part that raises the flag. -/
def announcer : Announcement → PartType
  | .direction | .targetSpeed => .camera
  | .speed => .speed

/-- The part that waits for the flag. -/
def reader : Announcement → PartType
  | .direction => .servoPID
  | .speed | .targetSpeed => .throttlePID

/-- What the reader passes to `getOutput` as the actual value. -/
def actual : Announcement → Datum
  | .direction => .direction
  | .speed | .targetSpeed => .speed

/-- What the reader passes to `getOutput` as the setpoint. -/
def setpoint : Announcement → Option Datum
  | .direction => none
  | .speed | .targetSpeed => some .targetSpeed

end Announcement

/-- The flag an act sees raised as it leaves the loop of `WaitNeededNewData`. -/
def Act.sees : Act → Option (Fin 6)
  | .testOld d true => some d
  | .testOldAnd d true => some d
  | .testAndOld _ e true => some e
  | _ => none

/-- Part `p` leaves the loop of `WaitNeededNewData`. -/
def Label.leavesWait (p : PartType) : Label → Bool
  | .part q a => decide (q = p) && a.sees.isSome
  | _ => false

/-- **An evaluation of a PID after an announcement**: the reader sees the flag at position `k`,
loads the value `x` of the announced member at `n`, and evaluates its PID at `m`, all in one
cycle. -/
structure Evaluation (c : Announcement) (tr : List Label) (k n m : ℕ) (x : ℚ) : Prop where
  sees : ∃ a, tr[k]? = some (.part c.reader a) ∧ a.sees = some c.flag
  load : tr[n]? = some (.part c.reader (.load (.getOutput c.actual c.setpoint) c.datum x))
  evaluate : ∃ y, tr[m]? = some (.part c.reader (.getOutput c.actual c.setpoint y))
  order : k < n ∧ n < m
  same : FreeBetween (fun b => b.leavesWait c.reader = true) tr k m

/-! ### Every evaluation follows an announcement -/

/-- The flag a statement of the loop in `WaitNeededNewData` waits for. -/
def Instr.waitsFor : Instr → Option (Fin 6)
  | .whileOld d | .whileOldAnd d | .andOld _ d => some d
  | _ => none

/-- Whether a statement evaluates a PID. -/
def Instr.evaluates : Instr → Bool
  | .getOutput _ _ => true
  | _ => false

/-- The part has still to leave the loop of `WaitNeededNewData` in this cycle. -/
def Waiting (k : List Instr) : Prop := k.any (fun i => i.waitsFor.isSome) = true

/-- The arguments a part has evaluated are those of the call it stands at. -/
def Calling (l : Local) : Prop :=
  ∀ d, l.args d ≠ none → ∃ call, l.rest.head? = some call ∧ d ∈ call.args

/-- The controller has left the loop of `WaitNeededNewData` for the last time at position `k`, and
has loaded the arguments evaluated behind it. -/
structure Informed (p : PartType) (tr : List Label) (l : Local) (k : ℕ) : Prop where
  left : ∃ a, tr[k]? = some (.part p a) ∧ a.sees.isSome = true
  last : FreeBetween (fun b => b.leavesWait p = true) tr k tr.length
  loaded : ∀ d x, l.args d = some x → ∃ call n, l.rest.head? = some call ∧ k < n ∧
    tr[n]? = some (.part p (.load call d x))

section Informed

variable {p : PartType} {s : State} {l : Local} {a : Act} {k : List Instr} {tr : List Label}

/-- What an act does to the arguments evaluated. -/
theorem args_move (p : PartType) (l : Local) (a : Act) :
    (∃ call d x, a = .load call d x ∧ (a.move p l).args = Function.update l.args d (some x) ∧
      (a.move p l).rest = l.rest) ∨
    (a.move p l).args = (fun _ => none) ∨ (a.move p l).args = l.args ∧ a.instr.args = [] := by
  cases a with
  | load call d x => exact Or.inl ⟨call, d, x, rfl, rfl, rfl⟩
  | setPID x y z => exact Or.inr (Or.inl rfl)
  | getOutput actual setpoint x => exact Or.inr (Or.inl rfl)
  | sample r1 r2 us =>
    refine Or.inr (Or.inr ⟨?_, rfl⟩)
    simp only [Act.move]
    split <;> rfl
  | testError b | testIf d n b | testOld d b | testOldAnd d b | testAndOld d e b | testNeed b =>
    refine Or.inr (Or.inr ⟨?_, rfl⟩)
    cases b <;> rfl
  | _ => exact Or.inr (Or.inr ⟨rfl, rfl⟩)

/-- At a statement that is no call no argument is evaluated. -/
theorem Calling.eq_none (h : Calling l) (hk : l.rest = a.instr :: k) (hargs : a.instr.args = [])
    (d : Datum) : l.args d = none := by
  by_contra hd
  obtain ⟨call, hcall, hmem⟩ := h d hd
  rw [hk, List.head?_cons, Option.some.injEq] at hcall
  rw [← hcall, hargs] at hmem
  cases hmem

theorem Calling.move (h : Calling l) (hk : l.rest = a.instr :: k) (ha : a.Agrees p s l) :
    Calling (a.move p l) := by
  intro d hd
  rcases args_move p l a with ⟨call, e, x, rfl, hargs, hrest⟩ | hargs | ⟨hargs, hnone⟩
  · rw [hrest]
    by_cases hde : d = e
    · exact ⟨call, by rw [hk]; rfl, hde ▸ ha.1⟩
    · rw [hargs, Function.update_of_ne hde] at hd
      exact h d hd
  · rw [hargs] at hd
    exact absurd rfl hd
  · rw [hargs] at hd
    exact absurd (h.eq_none hk hnone d) hd

/-- The two parts that wait for new data. -/
def controllers : List PartType := [.servoPID, .throttlePID]

/-- A controller that has still to leave the loop stands in it. -/
theorem Point.head_waits {i : Instr} (h : Point p (i :: k)) (hp : p ∈ controllers)
    (hw : Waiting (i :: k)) : i.waitsFor.isSome = true := by
  have hall : ∀ p ∈ controllers, ∀ k ∈ (runALL p).tails, k.any (fun i => i.waitsFor.isSome) = true →
      (k.head?.any fun i => i.waitsFor.isSome) = true := by
    decide +kernel
  simpa using hall p hp (i :: k) h.mem_tails hw

/-- In the loop, only an act that sees a flag raised leaves it. -/
theorem waiting_move (h : Point p (a.instr :: k)) (hp : p ∈ controllers)
    (hk : l.rest = a.instr :: k) (hw : Waiting l.rest) (hsee : a.sees = none) :
    Waiting (a.move p l).rest := by
  have hwait := h.head_waits hp (hk ▸ hw)
  cases a with
  | testOld d b =>
    cases b with
    | true => cases hsee
    | false => exact hw
  | testOldAnd d b =>
    cases b with
    | true => cases hsee
    | false =>
      -- the right side comes next
      have hall : ∀ p ∈ controllers, ∀ d, ∀ k ∈ (runALL p).tails,
          k.head? = some (.whileOldAnd d) → Waiting (advance (runALL p) k.tail) := by
        unfold Waiting
        decide +kernel
      have := hall p hp d _ h.mem_tails rfl
      simpa [Act.move, Local.next, Local.skip, hk] using this
  | testAndOld d e b =>
    cases b with
    | true => cases hsee
    | false => simp [Act.move, Waiting, Instr.waitsFor]
  | load call d x => exact hw
  | _ => cases hwait

theorem Informed.frame {b : Label} {n : ℕ} (h : Informed p tr l n) (hb : b.leavesWait p = false) :
    Informed p (tr ++ [b]) l n := by
  obtain ⟨c, hc, hsee⟩ := h.left
  refine ⟨⟨c, getElem?_snoc_of hc, hsee⟩, h.last.extend (by simp [hb]), fun d x hd => ?_⟩
  obtain ⟨call, i, hcall, hlt, hi⟩ := h.loaded d x hd
  exact ⟨call, i, hcall, hlt, getElem?_snoc_of hi⟩

/-- A controller outside of the loop goes on. -/
theorem Informed.move {n : ℕ} (h : Informed p tr l n) (hc : Calling l) (hsee : a.sees = none)
    (hk : l.rest = a.instr :: k) :
    Informed p (tr ++ [.part p a]) (a.move p l) n := by
  have hleave : (Label.part p a).leavesWait p = false := by simp [Label.leavesWait, hsee]
  obtain ⟨hleft, hlast, hloaded⟩ := h.frame hleave
  refine ⟨hleft, hlast, fun d x hd => ?_⟩
  rcases args_move p l a with ⟨call, e, y, rfl, hargs, hrest⟩ | hargs | ⟨hargs, hnone⟩
  · rw [hrest]
    rw [hargs] at hd
    by_cases hde : d = e
    · -- the argument just loaded
      subst hde
      rw [Function.update_self] at hd
      obtain rfl := Option.some.inj hd
      obtain ⟨c, hn, -⟩ := h.left
      exact ⟨call, tr.length, by rw [hk]; rfl, lt_length hn, by simp⟩
    · rw [Function.update_of_ne hde] at hd
      exact hloaded d x hd
  · rw [hargs] at hd
    cases hd
  · rw [hargs, hc.eq_none hk hnone d] at hd
    cases hd

/-- The act that leaves the loop. -/
theorem Informed.leave (hc : Calling l) (hk : l.rest = a.instr :: k) (hsee : a.sees.isSome = true) :
    Informed p (tr ++ [.part p a]) (a.move p l) tr.length := by
  have hnone : a.instr.args = [] := by
    cases a with
    | testOld d b | testOldAnd d b | testAndOld d e b => rfl
    | _ => cases hsee
  refine ⟨⟨a, by simp, hsee⟩, FreeBetween.last, fun d x hd => ?_⟩
  have hargs : (a.move p l).args d = none := by
    rcases args_move p l a with ⟨call, e, y, rfl, -⟩ | hargs | ⟨hargs, -⟩
    · cases hsee
    · rw [hargs]
    · rw [hargs]
      exact hc.eq_none hk hnone d
  rw [hargs] at hd
  cases hd

end Informed

/-- **What the controllers know**: behind the loop of `WaitNeededNewData` they have seen a flag in
this cycle, and have loaded the arguments evaluated behind it. -/
structure Known (tr : List Label) (s : Sys) : Prop where
  wf : Wf s
  calling : ∀ p l, s.part p = .running l → Calling l
  informed : ∀ p ∈ controllers, ∀ l, s.part p = .running l → ¬ Waiting l.rest →
    ∃ k, Informed p tr l k

theorem Known.init : Known [] Sys.init where
  wf := Wf.init
  calling p l hl := by cases hl
  informed p _ l hl := by cases hl

section Step

variable {handled : Bool} {tr : List Label} {s t : Sys} {a : Label} {p : PartType}

theorem Known.step (h : Known tr s) (hs : (system handled).step s a = some t) :
    Known (tr ++ [a]) t := by
  refine ⟨h.wf.step hs, ?_, ?_⟩
  · intro p l hl
    rcases running_cases hs hl with ⟨hl, -⟩ | ⟨rfl, -⟩ | ⟨b, l₀, k, -, hl₀, hk, hag, rfl⟩
    · exact h.calling p l hl
    · exact fun d hd => absurd rfl hd
    · exact (h.calling p l₀ hl₀).move hk hag
  · intro p hp l hl hno
    rcases running_cases hs hl with ⟨hl, hother⟩ | ⟨rfl, -⟩ | ⟨b, l₀, k, rfl, hl₀, hk, hag, rfl⟩
    · obtain ⟨k, hk⟩ := h.informed p hp l hl hno
      refine ⟨k, hk.frame ?_⟩
      -- another process moves
      cases a with
      | part q b =>
        have hq : q ≠ p := by
          rintro rfl
          exact hother b rfl
        simp [Label.leavesWait, hq]
      | _ => rfl
    · -- a controller begins in the loop
      have hall : ∀ p ∈ controllers, Waiting (runALL p) := by
        unfold Waiting
        decide
      exact absurd (hall p hp) hno
    · have hc := h.calling p l₀ hl₀
      have hpt := h.wf.pointAt hl₀ hk
      cases hsee : b.sees with
      | some d => exact ⟨_, Informed.leave hc hk (by rw [hsee]; rfl)⟩
      | none =>
        by_cases hw : Waiting l₀.rest
        · exact absurd (waiting_move hpt hp hk hw hsee) hno
        · obtain ⟨n, hn⟩ := h.informed p hp l₀ hl₀ hw
          exact ⟨n, hn.move hc hsee hk⟩

theorem Known.run (h : (system handled).Run Sys.init tr s) : Known tr s :=
  h.inv (I := Known) Known.init fun _ _ _ _ _ hI hs => hI.step hs

/-- The flags seen and the PIDs evaluated are those of the announcements. -/
theorem exists_announcement {i j : Instr} {d : Fin 6} (hi : i ∈ runALL p)
    (hd : i.waitsFor = some d) (hj : j ∈ runALL p) (he : j.evaluates = true) :
    ∃ c : Announcement, c.reader = p ∧ c.flag = d ∧ j = .getOutput c.actual c.setpoint := by
  have hflag : ∀ p, ∀ i ∈ runALL p, ∀ d, i.waitsFor = some d →
      p = .servoPID ∧ d = 1 ∨ p = .throttlePID ∧ (d = 0 ∨ d = 2) := by
    decide +kernel
  have hcall : ∀ p, ∀ j ∈ runALL p, j.evaluates = true →
      (p = .servoPID → j = .getOutput .direction none) ∧
        (p = .throttlePID → j = .getOutput .speed (some .targetSpeed)) := by
    decide +kernel
  obtain ⟨hservo, hthrottle⟩ := hcall p j hj he
  rcases hflag p i hi d hd with ⟨rfl, rfl⟩ | ⟨rfl, rfl | rfl⟩
  · exact ⟨.direction, rfl, rfl, hservo rfl⟩
  · exact ⟨.speed, rfl, rfl, hthrottle rfl⟩
  · exact ⟨.targetSpeed, rfl, rfl, hthrottle rfl⟩

/-- **Every evaluation of a PID follows an announcement**, which its part has seen in the same cycle
before it loaded the member announced. -/
theorem exists_evaluation (h : (system handled).Run Sys.init tr s) {m : ℕ} {actual : Datum}
    {setpoint : Option Datum} {y : ℚ}
    (hm : tr[m]? = some (.part p (.getOutput actual setpoint y))) :
    ∃ c k n x, c.reader = p ∧ Evaluation c tr k n m x := by
  obtain ⟨u, v, hr, hs⟩ := h.at_event hm
  obtain ⟨l, j, hl, hk, ⟨hready, -⟩, -⟩ := part_step hs
  have hknown := Known.run hr
  have hpt := hknown.wf.pointAt hl hk
  have hcall : Instr.getOutput actual setpoint ∈ runALL p := instr_mem h hm
  have hp : p ∈ controllers := by
    have hall : ∀ p, ∀ i ∈ runALL p, i.evaluates = true → p ∈ controllers := by decide +kernel
    exact hall p _ hcall rfl
  have hno : ¬ Waiting l.rest := by
    intro hw
    rw [hk] at hw
    cases hpt.head_waits hp hw
  obtain ⟨k, hinf⟩ := hknown.informed p hp l hl hno
  obtain ⟨a, ha, hsee⟩ := hinf.left
  obtain ⟨-, hak⟩ := of_getElem?_take ha
  obtain ⟨d, hd⟩ := Option.isSome_iff_exists.mp hsee
  have hwaits : a.instr.waitsFor = some d := by
    cases a with
    | testOld e b | testOldAnd e b | testAndOld c e b =>
      cases b with
      | false => cases hd
      | true => exact hd
    | _ => cases hd
  obtain ⟨c, rfl, rfl, hget⟩ := exists_announcement (instr_mem h hak) hwaits hcall rfl
  obtain ⟨rfl, rfl⟩ := Instr.getOutput.inj hget
  have hdatum : c.datum ∈ (Instr.getOutput c.actual c.setpoint).args := by cases c <;> decide
  obtain ⟨x, hx⟩ := Option.ne_none_iff_exists'.mp (hready c.datum hdatum)
  obtain ⟨call, n, hhead, hkn, hn⟩ := hinf.loaded c.datum x hx
  rw [hk, List.head?_cons, Option.some.injEq] at hhead
  obtain rfl : Instr.getOutput c.actual c.setpoint = call := hhead
  obtain ⟨hnm, hload⟩ := of_getElem?_take hn
  refine ⟨c, k, n, x, rfl, ⟨a, hak, hd⟩, hload, ⟨y, hm⟩, ⟨hkn, hnm⟩, ?_⟩
  have hlast := hinf.last
  rw [List.length_take_of_le (lt_length hm).le] at hlast
  exact hlast.of_take le_rfl

end Step

end Vehicle.Recovery
