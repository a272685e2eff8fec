import Vehicle.Recovery.Actuator
import Vehicle.Recovery.Provenance

/-!
# recovery: no announcement is lost

A controller tests the flags, clears them and loads the members they are about, in separate steps,
while the announcers go on. Since the loads come behind the clears, an announcement made after the
last load is still raised, or its reader is on the way to the load (`no_lost_announcement`). And
`ThrottlePID` pays every evaluation with an announcement of its own (`evaluations_le`), by the
number of announcements its control point and the two flags stand for (`credit`).
-/

namespace Vehicle.Recovery

open Vehicle.Trace Vehicle.Trace.Cyclic

/-! ### What the labels do -/

/-- The announcer raises the flag. -/
def Label.announces (c : Announcement) : Label → Bool
  | .part p (.storeNew d b) => decide (p = c.announcer ∧ d = c.flag) && b
  | _ => false

/-- The reader loads the member announced. -/
def Label.loads (c : Announcement) : Label → Prop
  | .part p (.load _ d _) => p = c.reader ∧ d = c.datum
  | _ => False

/-- Part `p` evaluates its PID. -/
def Label.evaluates (p : PartType) : Label → Bool
  | .part q (.getOutput _ _ _) => decide (q = p)
  | _ => false

/-- **The reader has left the loop** of `WaitNeededNewData`, and has still to load the member
announced. -/
structure StillToLoad (c : Announcement) (l : Local) : Prop where
  left : ¬ Waiting l.rest
  ahead : .getOutput c.actual c.setpoint ∈ l.rest
  unloaded : l.args c.datum = none

section Point

variable {c : Announcement} {k k' : List Instr}

/-- Behind the loop the call lies ahead until it is executed. -/
theorem Point.ahead (h : Point c.reader k) (hk : k' ∈ targets c.reader k) (hw : ¬ Waiting k)
    (hmem : .getOutput c.actual c.setpoint ∈ k)
    (hhead : k.head? ≠ some (.getOutput c.actual c.setpoint)) :
    ¬ Waiting k' ∧ .getOutput c.actual c.setpoint ∈ k' := by
  have hall : ∀ k ∈ (runALL c.reader).tails, ∀ k' ∈ targets c.reader k,
      k.any (fun i => i.waitsFor.isSome) ≠ true → .getOutput c.actual c.setpoint ∈ k →
      k.head? ≠ some (.getOutput c.actual c.setpoint) →
      k'.any (fun i => i.waitsFor.isSome) ≠ true ∧ .getOutput c.actual c.setpoint ∈ k' := by
    cases c <;> decide +kernel
  exact hall k h.mem_tails k' hk hw hmem hhead

/-- The flags are cleared behind the loop, before the call. -/
theorem Point.cleared (h : Point c.reader (.storeNew c.flag false :: k)) :
    ¬ Waiting (.storeNew c.flag false :: k) ∧
      .getOutput c.actual c.setpoint ∈ Instr.storeNew c.flag false :: k := by
  have hall : ∀ k ∈ (runALL c.reader).tails, k.head? = some (.storeNew c.flag false) →
      k.any (fun i => i.waitsFor.isSome) ≠ true ∧ .getOutput c.actual c.setpoint ∈ k := by
    cases c <;> decide +kernel
  exact hall _ h.mem_tails rfl

/-- A flag is cleared by its reader alone. -/
theorem reader_of_clears {p : PartType} (h : .storeNew c.flag false ∈ runALL p) :
    p = c.reader := by
  have hall : ∀ p, .storeNew c.flag false ∈ runALL p → p = c.reader := by
    cases c <;> decide +kernel
  exact hall p h

end Point

/-! ### No announcement is lost -/

section StillToLoad

variable {c : Announcement} {s : State} {l : Local} {a : Act} {k : List Instr}

/-- The member announced is loaded for the evaluation. -/
theorem Announcement.datum_mem (c : Announcement) :
    c.datum ∈ (Instr.getOutput c.actual c.setpoint).args := by
  cases c <;> decide

/-- The reader goes on, until it loads the member. -/
theorem StillToLoad.move (h : StillToLoad c l) (hpt : Point c.reader (a.instr :: k))
    (hk : l.rest = a.instr :: k) (ha : a.Agrees c.reader s l)
    (hload : ¬ (Label.part c.reader a).loads c) : StillToLoad c (a.move c.reader l) := by
  have hargs : (a.move c.reader l).args c.datum = none := by
    rcases args_move c.reader l a with ⟨call, e, x, rfl, hargs, -⟩ | hargs | ⟨hargs, -⟩
    · have hne : c.datum ≠ e := fun he => hload ⟨rfl, he.symm⟩
      rw [hargs, Function.update_of_ne hne]
      exact h.unloaded
    · rw [hargs]
    · rw [hargs]
      exact h.unloaded
  by_cases hcall : a.instr = .getOutput c.actual c.setpoint
  · -- the call waits for its arguments
    have hrest : (a.move c.reader l).rest = l.rest := by
      cases a with
      | load call d x => rfl
      | getOutput actual setpoint x =>
        obtain ⟨rfl, rfl⟩ := Instr.getOutput.inj hcall
        exact absurd h.unloaded (ha.1 c.datum c.datum_mem)
      | _ => cases hcall
    refine ⟨?_, ?_, hargs⟩
    · rw [hrest]
      exact h.left
    · rw [hrest]
      exact h.ahead
  · have hhead : (a.instr :: k).head? ≠ some (.getOutput c.actual c.setpoint) := by
      simpa using hcall
    have hw := h.left
    have hmem := h.ahead
    rw [hk] at hw hmem
    obtain ⟨hw', hmem'⟩ := hpt.ahead (move_mem_targets hk ha) hw hmem hhead
    exact ⟨hw', hmem', hargs⟩

/-- A reader that has just cleared the flag has still to load the member. -/
theorem StillToLoad.clear (hpt : Point c.reader (.storeNew c.flag false :: k))
    (hk : l.rest = .storeNew c.flag false :: k) (hc : Calling l) :
    StillToLoad c (Act.move c.reader (.storeNew c.flag false) l) := by
  obtain ⟨hw, hmem⟩ := hpt.cleared
  have hl : StillToLoad c l := by
    refine ⟨?_, ?_, hc.eq_none (a := .storeNew c.flag false) hk rfl _⟩
    · rw [hk]
      exact hw
    · rw [hk]
      exact hmem
  exact hl.move (s := initState) hpt hk trivial (by simp [Label.loads])

end StillToLoad

/-- **An announcement made after the last load** is still raised, or its reader is on the way to the
load. -/
def Pending (c : Announcement) (tr : List Label) (s : Sys) : Prop :=
  ∀ m a, tr[m]? = some a → a.announces c = true → FreeBetween (Label.loads c) tr m tr.length →
    s.state.isNewData c.flag = true ∨
      ∃ l, s.part c.reader = .running l ∧ StillToLoad c l

section Step

variable {handled : Bool} {tr : List Label} {s t : Sys} {a : Label} {c : Announcement}

theorem isNewData_step {d : Fin 6} (hs : (system handled).step s a = some t) :
    t.state.isNewData d = (a.storesNew d).getD (s.state.isNewData d) :=
  (newRegister handled d).get_step hs

theorem storesNew_of_announces (h : a.announces c = true) : a.storesNew c.flag = some true := by
  unfold Label.announces at h
  split at h
  · simp only [Bool.and_eq_true, decide_eq_true_eq] at h
    obtain ⟨⟨-, rfl⟩, rfl⟩ := h
    simp [Label.storesNew]
  · cases h

theorem Announcement.reader_ne (c : Announcement) : c.reader ≠ .remote := by
  cases c <;> decide

theorem Pending.step (h : Pending c tr s) (hk : Known tr s) (hr : (system handled).Reachable s)
    (hs : (system handled).step s a = some t) : Pending c (tr ++ [a]) t := by
  intro m b hm hb hfree
  have hflag := isNewData_step (d := c.flag) hs
  rcases getElem?_snoc.mp hm with hm | ⟨-, rfl⟩
  · have hload : ¬ a.loads c := hfree tr.length a (lt_length hm) (by simp) (by simp)
    have hold : FreeBetween (Label.loads c) tr m tr.length := by
      intro i e hmi hi hie
      exact hfree i e hmi (by simp; omega) (getElem?_snoc_of hie)
    rcases h m b hm hb hold with hraised | ⟨l, hl, hstill⟩
    · cases hv : a.storesNew c.flag with
      | none =>
        left
        rw [hflag, hv]
        exact hraised
      | some v =>
        cases v with
        | true =>
          left
          rw [hflag, hv]
          rfl
        | false =>
          -- the reader clears the flag
          right
          obtain ⟨p, rfl⟩ := storesNew_eq_some hv
          obtain ⟨l, k, hl, hrest, -, -, -, hpart⟩ := part_step hs
          have hpt := hk.wf.pointAt hl hrest
          obtain rfl : p = c.reader := reader_of_clears hpt.head_mem
          refine ⟨_, ?_, StillToLoad.clear hpt hrest (hk.calling _ l hl)⟩
          rw [hpart, Function.update_self]
          rfl
    · right
      rcases running_step c.reader_ne hr hl hs with ⟨hl', -⟩ | ⟨e, k, rfl, hrest, hag, hl'⟩
      · exact ⟨l, hl', hstill⟩
      · exact ⟨_, hl', hstill.move (hk.wf.pointAt hl hrest) hrest hag hload⟩
  · left
    rw [hflag, storesNew_of_announces hb]
    rfl

theorem no_lost_announcement (h : (system handled).Run Sys.init tr s) (c : Announcement) :
    Pending c tr s := by
  refine h.inv (I := Pending c) (fun m a hm => by simp at hm) ?_
  intro tr s a t hr hI hs
  exact hI.step (Known.run hr) ⟨_, tr, rfl, hr⟩ hs

end Step

/-! ### Every evaluation has an announcement of its own -/

/-- The flag behind a statement. -/
def Instr.leaves (d : Fin 6) (f : Bool) : Instr → Bool
  | .storeNew e b => if e = d then b else f
  | _ => f

/-- **How many announcements `ThrottlePID` has still to spend**: those of the flags raised, and the
one it has left the loop with, until it evaluates its PID. It clears both flags on the way, but may
have seen one raised only. -/
def credit (k : List Instr) (f g : Bool) : ℕ :=
  if .storeNew 0 false ∈ k then f.toNat + g.toNat
  else if .storeNew 2 false ∈ k then 1 + f.toNat
  else if .getOutput .speed (some .targetSpeed) ∈ k then 1 + f.toNat + g.toNat
  else f.toNat + g.toNat

/-- A flag that is raised is worth one announcement. -/
theorem credit_le (k : List Instr) (f g f' g' : Bool) :
    credit k f' g' ≤ credit k f g + (!f && f').toNat + (!g && g').toNat := by
  unfold credit
  split
  · cases f <;> cases g <;> cases f' <;> cases g' <;> decide
  · split
    · cases f <;> cases g <;> cases f' <;> cases g' <;> decide
    · split
      · cases f <;> cases g <;> cases f' <;> cases g' <;> decide
      · cases f <;> cases g <;> cases f' <;> cases g' <;> decide

/-- **What a statement of `ThrottlePID` does to the credit**: the evaluation spends one, the others
none, as the first flag is cleared with one of the two raised. -/
theorem Point.credit {i : Instr} {k k' : List Instr} (h : Point .throttlePID (i :: k))
    (hk : k' ∈ targets .throttlePID (i :: k)) (f g : Bool)
    (hraised : i = .storeNew 0 false → (f || g) = true) :
    credit k' (i.leaves 0 f) (i.leaves 2 g) ≤ credit (i :: k) f g ∧
      (i.evaluates = true →
        credit (advance (runALL .throttlePID) k) f g + 1 ≤ credit (i :: k) f g) := by
  have hall : ∀ k ∈ (runALL .throttlePID).tails, ∀ k' ∈ targets .throttlePID k, ∀ f g : Bool,
      ∀ i ∈ k.head?, (i = .storeNew 0 false → (f || g) = true) →
      Recovery.credit k' (i.leaves 0 f) (i.leaves 2 g) ≤ Recovery.credit k f g ∧
      (i.evaluates = true →
        Recovery.credit (advance (runALL .throttlePID) k.tail) f g + 1 ≤
          Recovery.credit k f g) := by
    decide +kernel
  exact hall (i :: k) h.mem_tails k' hk f g i rfl hraised

/-- `ThrottlePID` comes to the first clear having seen a flag raised. -/
theorem Point.clears_first {k k' : List Instr} (h : Point .throttlePID k)
    (hk : k' ∈ targets .throttlePID k) (hhead : k'.head? = some (.storeNew 0 false)) :
    k.head? = some (.whileOldAnd 0) ∨ k.head? = some (.andOld 0 2) := by
  have hall : ∀ k ∈ (runALL .throttlePID).tails, ∀ k' ∈ targets .throttlePID k,
      k'.head? = some (.storeNew 0 false) →
      k.head? = some (.whileOldAnd 0) ∨ k.head? = some (.andOld 0 2) := by
    decide +kernel
  exact hall k h.mem_tails k' hk hhead

/-- Where `ThrottlePID` clears the first flag, one of the two is raised. -/
def SeenRaised (s : Sys) : Prop :=
  ∀ l, s.part .throttlePID = .running l → l.rest.head? = some (.storeNew 0 false) →
    (s.state.isNewData 0 || s.state.isNewData 2) = true

/-- The credit of a state. -/
def Sys.credit (s : Sys) : ℕ :=
  match s.part .throttlePID with
  | .running l => Recovery.credit l.rest (s.state.isNewData 0) (s.state.isNewData 2)
  | _ => (s.state.isNewData 0).toNat + (s.state.isNewData 2).toNat

section Credit

variable {handled : Bool} {tr : List Label} {s t : Sys} {a : Label}

theorem leaves_eq {p : PartType} {u : State} {l : Local} {b : Act} (hb : b.Agrees p u l)
    (d : Fin 6) (f : Bool) : ((Label.part p b).storesNew d).getD f = b.instr.leaves d f := by
  cases b with
  | storeNew e v =>
    simp only [Label.storesNew, Act.instr, Instr.leaves]
    split <;> rfl
  | load call e x =>
    obtain ⟨hd, -⟩ := hb
    rcases Instr.eq_call hd with ⟨x, y, z, rfl⟩ | ⟨actual, setpoint, rfl⟩ <;> rfl
  | _ => rfl

/-- A flag is raised by an announcement. -/
theorem raised_le (hr : (system handled).Reachable s) (hs : (system handled).step s a = some t)
    (c : Announcement) :
    (!s.state.isNewData c.flag && t.state.isNewData c.flag).toNat ≤ (a.announces c).toNat := by
  rw [isNewData_step hs]
  cases hv : a.storesNew c.flag with
  | none =>
    simp
  | some v =>
    cases v with
    | false => simp
    | true =>
      obtain ⟨p, rfl⟩ := storesNew_eq_some hv
      obtain ⟨l, k, hl, hk, -⟩ := part_step hs
      have hi : Instr.storeNew c.flag true ∈ runALL p :=
        ((Wf.reachable hr).pointAt hl hk).head_mem
      have hall : ∀ p, Instr.storeNew c.flag true ∈ runALL p → p = c.announcer := by
        cases c <;> decide +kernel
      have hann : (Label.part p (.storeNew c.flag true)).announces c = true := by
        simpa [Label.announces] using hall p hi
      rw [hann]
      exact Bool.toNat_le _

/-- A part that stands still spends nothing. -/
theorem credit_frame (hr : (system handled).Reachable s)
    (hs : (system handled).step s a = some t) (k : List Instr) :
    credit k (t.state.isNewData 0) (t.state.isNewData 2) ≤
      credit k (s.state.isNewData 0) (s.state.isNewData 2) + (a.announces .speed).toNat +
        (a.announces .targetSpeed).toNat := by
  have hle := credit_le k (s.state.isNewData 0) (s.state.isNewData 2) (t.state.isNewData 0)
    (t.state.isNewData 2)
  have h0 := raised_le hr hs .speed
  have h2 := raised_le hr hs .targetSpeed
  simp only [Announcement.flag] at h0 h2
  omega

/-- The credit of a `ThrottlePID` that does not run is that of its first control point. -/
theorem Sys.credit_eq (s : Sys)
    (h : ∀ l, s.part .throttlePID = .running l → l.rest = runALL .throttlePID) :
    s.credit =
      Recovery.credit (runALL .throttlePID) (s.state.isNewData 0) (s.state.isNewData 2) := by
  unfold Sys.credit
  split
  · rename_i l hl
    rw [h l hl]
  · rfl

/-- A flag stays raised while its reader stands still. -/
theorem raised_of_frame (hr : (system handled).Reachable s)
    (hs : (system handled).step s a = some t) {c : Announcement}
    (hother : ∀ b, a ≠ .part c.reader b) (hraised : s.state.isNewData c.flag = true) :
    t.state.isNewData c.flag = true := by
  rw [isNewData_step hs, hraised]
  cases hv : a.storesNew c.flag with
  | none => rfl
  | some v =>
    cases v with
    | true => rfl
    | false =>
      obtain ⟨p, rfl⟩ := storesNew_eq_some hv
      obtain ⟨l, k, hl, hk, -⟩ := part_step hs
      have hi : Instr.storeNew c.flag false ∈ runALL p :=
        ((Wf.reachable hr).pointAt hl hk).head_mem
      obtain rfl := reader_of_clears hi
      exact absurd rfl (hother _)

/-- The flag that ends the loop is raised. -/
theorem flag_of_sees {b : Act} {p : PartType} {s : State} {l : Local} {d : Fin 6}
    (hag : b.Agrees p s l) (hsee : b.sees = some d)
    (hloop : b.instr = .whileOldAnd 0 ∨ b.instr = .andOld 0 2) :
    s.isNewData 0 = true ∨ s.isNewData 2 = true := by
  cases b with
  | testOldAnd e v =>
    cases v with
    | false => cases hsee
    | true =>
      rcases hloop with hi | hi
      · obtain rfl := Instr.whileOldAnd.inj hi
        exact Or.inl (show true = _ from hag).symm
      · cases hi
  | testAndOld e e' v =>
    cases v with
    | false => cases hsee
    | true =>
      rcases hloop with hi | hi
      · cases hi
      · obtain ⟨-, rfl⟩ := Instr.andOld.inj hi
        exact Or.inr (show true = _ from hag).symm
  | testOld e v => rcases hloop with hi | hi <;> cases hi
  | _ => cases hsee

theorem SeenRaised.step (h : SeenRaised s) (hr : (system handled).Reachable s)
    (hs : (system handled).step s a = some t) : SeenRaised t := by
  intro l hl hhead
  rcases running_cases hs hl with ⟨hl, hother⟩ | ⟨rfl, -⟩ | ⟨b, l₀, k, rfl, hl₀, hk, hag, rfl⟩
  · rw [Bool.or_eq_true]
    rcases Bool.or_eq_true_iff.mp (h l hl hhead) with h0 | h2
    · exact Or.inl (raised_of_frame (c := .speed) hr hs hother h0)
    · exact Or.inr (raised_of_frame (c := .targetSpeed) hr hs hother h2)
  · cases hhead
  · have hpt := (Wf.reachable hr).pointAt hl₀ hk
    have hmem := move_mem_targets hk hag
    have hpt' := hpt.of_mem_targets hmem
    have hfirst := hpt.clears_first hmem hhead
    simp only [List.head?_cons, Option.some.injEq] at hfirst
    have hwait : Waiting l₀.rest := by
      rw [hk]
      rcases hfirst with hi | hi <;> simp [hi, Waiting, Instr.waitsFor]
    cases hsee : b.sees with
    | none =>
      -- still in the loop
      have hw := waiting_move hpt (by decide) hk hwait hsee
      obtain ⟨k', hk'⟩ := List.head?_eq_some_iff.mp hhead
      rw [hk'] at hw hpt'
      cases hpt'.head_waits (by decide) hw
    | some d =>
      -- the test stores nothing
      have hstate : ∀ d, t.state.isNewData d = s.state.isNewData d := by
        intro d
        rw [isNewData_step hs, leaves_eq hag]
        rcases hfirst with hi | hi <;> rw [hi] <;> rfl
      rw [hstate, hstate, Bool.or_eq_true]
      exact flag_of_sees hag hsee hfirst

/-- Only the part itself evaluates its PID. -/
theorem evaluates_eq_false {p : PartType} (h : ∀ b, a ≠ .part p b) : a.evaluates p = false := by
  unfold Label.evaluates
  split
  · rename_i q _ _ _
    have hq : q ≠ p := by
      rintro rfl
      exact h _ rfl
    simp [hq]
  · rfl

/-- A step of `ThrottlePID`. -/
theorem credit_move {l : Local} {b : Act} {k : List Instr} (h : SeenRaised s)
    (hr : (system handled).Reachable s)
    (hs : (system handled).step s (.part .throttlePID b) = some t)
    (hl : s.part .throttlePID = .running l) (hk : l.rest = b.instr :: k)
    (hag : b.Agrees .throttlePID s.state l)
    (hl' : t.part .throttlePID = .running (b.move .throttlePID l)) :
    ((Label.part .throttlePID b).evaluates .throttlePID).toNat + t.credit ≤ s.credit := by
  have hpt := (Wf.reachable hr).pointAt hl hk
  have hraised : b.instr = .storeNew 0 false →
      (s.state.isNewData 0 || s.state.isNewData 2) = true := by
    intro hi
    exact h l hl (by rw [hk, hi]; rfl)
  obtain ⟨hle, hspend⟩ := hpt.credit (move_mem_targets hk hag) (s.state.isNewData 0)
    (s.state.isNewData 2) hraised
  have hs' : s.credit = credit (b.instr :: k) (s.state.isNewData 0) (s.state.isNewData 2) := by
    rw [Sys.credit, hl, ← hk]
  have ht' : t.credit = credit (b.move .throttlePID l).rest
      (b.instr.leaves 0 (s.state.isNewData 0)) (b.instr.leaves 2 (s.state.isNewData 2)) := by
    rw [Sys.credit, hl', isNewData_step hs, isNewData_step hs, leaves_eq hag, leaves_eq hag]
  rw [hs', ht']
  cases b with
  | getOutput actual setpoint x =>
    have hrest : (Act.move .throttlePID (.getOutput actual setpoint x) l).rest =
        advance (runALL .throttlePID) k := by
      simp [Act.move, Local.next, Local.skip, hk]
    have hspend := hspend rfl
    rw [hrest]
    simp only [Act.instr, Instr.leaves, Label.evaluates, decide_true, Bool.toNat_true]
    simp only [Act.instr] at hspend
    omega
  | _ =>
    simp only [Label.evaluates, Bool.toNat_false, Nat.zero_add]
    exact hle

/-- **The credit of a step**: an evaluation spends one, an announcement grants one. -/
theorem credit_step (h : SeenRaised s) (hr : (system handled).Reachable s)
    (hs : (system handled).step s a = some t) :
    (a.evaluates .throttlePID).toNat + t.credit ≤
      s.credit + (a.announces .speed).toNat + (a.announces .targetSpeed).toNat := by
  have hframe := credit_frame hr hs
  by_cases hq : ∃ l, s.part .throttlePID = .running l
  · obtain ⟨l, hl⟩ := hq
    rcases running_step (by decide) hr hl hs with ⟨hl', hother⟩ | ⟨b, k, rfl, hk, hag, hl'⟩
    · rw [evaluates_eq_false hother, Sys.credit, Sys.credit, hl, hl']
      have := hframe l.rest
      simpa using this
    · have := credit_move h hr hs hl hk hag hl'
      omega
  · have hother : ∀ b, a ≠ .part .throttlePID b := by
      rintro b rfl
      obtain ⟨l, k, hl, -⟩ := part_step hs
      exact hq ⟨l, hl⟩
    have hfirst : ∀ l, t.part .throttlePID = .running l → l.rest = runALL .throttlePID := by
      intro l hl
      rcases running_cases hs hl with ⟨hl, -⟩ | ⟨rfl, -⟩ | ⟨b, l₀, k, rfl, -⟩
      · exact absurd ⟨l, hl⟩ hq
      · rfl
      · exact absurd rfl (hother b)
    rw [evaluates_eq_false hother, s.credit_eq fun l hl => absurd ⟨l, hl⟩ hq, t.credit_eq hfirst]
    have := hframe (runALL .throttlePID)
    simpa using this

/-- **`ThrottlePID` evaluates its PID on no announcement twice.** -/
theorem evaluations_le (h : (system handled).Run Sys.init tr s) :
    tr.countP (Label.evaluates .throttlePID) + s.credit ≤
      tr.countP (Label.announces .speed) + tr.countP (Label.announces .targetSpeed) := by
  have hinv : SeenRaised s ∧ tr.countP (Label.evaluates .throttlePID) + s.credit ≤
      tr.countP (Label.announces .speed) + tr.countP (Label.announces .targetSpeed) := by
    refine h.inv (I := fun tr s => SeenRaised s ∧
      tr.countP (Label.evaluates .throttlePID) + s.credit ≤
        tr.countP (Label.announces .speed) + tr.countP (Label.announces .targetSpeed)) ?_ ?_
    · refine ⟨?_, ?_⟩
      · intro l hl
        cases hl
      · decide
    · rintro tr s a t hr ⟨hraised, hle⟩ hs
      have hreach : (system handled).Reachable s := ⟨_, tr, rfl, hr⟩
      refine ⟨hraised.step hreach hs, ?_⟩
      have hstep := credit_step hraised hreach hs
      simp only [List.countP_append, List.countP_singleton]
      simp only [Bool.toNat] at hstep
      simp only [Bool.cond_eq_ite] at hstep
      omega
  exact hinv.2

/-- **`ThrottlePID` misses no announcement and runs on none twice.** -/
theorem throttle_serves (h : (system handled).Run Sys.init tr s) :
    (∀ c : Announcement, c.reader = .throttlePID → ∀ m a, tr[m]? = some a → a.announces c = true →
      FreeBetween (Label.loads c) tr m tr.length →
      s.state.isNewData c.flag = true ∨
        ∃ l, s.part .throttlePID = .running l ∧ StillToLoad c l) ∧
    tr.countP (Label.evaluates .throttlePID) ≤
      tr.countP (Label.announces .speed) + tr.countP (Label.announces .targetSpeed) := by
  refine ⟨?_, ?_⟩
  · intro c hc m a hm ha hfree
    rw [← hc]
    exact no_lost_announcement h c m a hm ha hfree
  · have := evaluations_le h
    omega

end Credit

/-- The first lap, in which `ThrottlePID` evaluates its PID once on two announcements. -/
theorem throttle_serves_firstLap : ∃ s, (system true).Run Sys.init firstLap s ∧
    firstLap.countP (Label.evaluates .throttlePID) = 1 ∧
    firstLap.countP (Label.evaluates .throttlePID) ≤ firstLap.countP (Label.announces .speed) +
      firstLap.countP (Label.announces .targetSpeed) := by
  obtain ⟨s, hr, -⟩ := (system true).exists_run (s := Sys.init) firstLap
    (P := fun _ => True) (by decide +kernel)
  exact ⟨s, hr, by decide, (throttle_serves hr).2⟩

end Vehicle.Recovery
