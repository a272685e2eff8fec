import Vehicle.Trace.History
import Vehicle.Recoverybase.Handshake

/-!
# recoverybase: requests and visits

Every return of a part from `WaitCompulsiveCheckpoint` should answer a request: the part has raised
its flag, `CheckCompulsiveCheckpoint` has then read it and lowered it, and no other return is
answered by the same visit (`NoneDropped`). The start-up loop of the manager, which runs when the
parts already do, lowers flags without a visit, and a part whose flag it finds raised returns
unanswered. `Orderly` excludes that store and the two ways in which a restored part can fall out of
step with its flag; where all steps of a run are orderly, no request is dropped.
-/

namespace Vehicle.Recoverybase

open Vehicle.Trace Vehicle.Trace.Cyclic

/-! ### Requests, visits and returns -/

/-- Part `p` raises its flag. -/
def Label.IsSet (p : PartType) (a : Label) : Prop := a = .part p .storeNeed

/-- `CheckCompulsiveCheckpoint` reads the flag of `p`. -/
def Label.IsVisit (p : PartType) (a : Label) : Prop := ∃ b, a = .car (.testNeed p b)

/-- Part `p` returns from `WaitCompulsiveCheckpoint`. -/
def Label.IsReturn (p : PartType) (a : Label) : Prop := a = .part p (.testNeed false)

/-- The request at position `j` has been read at `r` and handled at `m`, in this order, and is the
last request so far. -/
structure Granted (p : PartType) (tr : List Label) (j r m : ℕ) : Prop where
  request : tr[j]? = some (.part p .storeNeed)
  read : tr[r]? = some (.car (.testNeed p true))
  handled : tr[m]? = some (.car (.clearNeed p))
  order : j < r ∧ r < m
  last : FreeBetween (Label.IsSet p) tr j tr.length
  same : FreeBetween (Label.IsVisit p) tr r m

/-- The return at position `n` answers the request at `j`, the last one before it, by the visit that
reads the raised flag at `r` and lowers it at `m`. -/
structure Serves (p : PartType) (tr : List Label) (j r m n : ℕ) : Prop where
  request : tr[j]? = some (.part p .storeNeed)
  read : tr[r]? = some (.car (.testNeed p true))
  handled : tr[m]? = some (.car (.clearNeed p))
  order : j < r ∧ r < m ∧ m < n
  last : FreeBetween (Label.IsSet p) tr j n
  same : FreeBetween (Label.IsVisit p) tr r m

/-- **No request is dropped**: each return of `p` is served, and distinct returns by distinct
visits. -/
def NoneDropped (p : PartType) (tr : List Label) : Prop :=
  ∃ visit : ℕ → ℕ,
    (∀ n, tr[n]? = some (.part p (.testNeed false)) → ∃ j m, Serves p tr j (visit n) m n) ∧
      ∀ n n', tr[n]? = some (.part p (.testNeed false)) →
        tr[n']? = some (.part p (.testNeed false)) → visit n = visit n' → n = n'

section Growth

variable {p : PartType} {tr : List Label} {a : Label} {j r m n : ℕ}

theorem Serves.snoc (h : Serves p tr j r m n) (hn : n < tr.length) :
    Serves p (tr ++ [a]) j r m n where
  request := getElem?_snoc_of h.request
  read := getElem?_snoc_of h.read
  handled := getElem?_snoc_of h.handled
  order := h.order
  last := h.last.snoc hn.le
  same := h.same.snoc (lt_length h.handled).le

theorem Granted.snoc (h : Granted p tr j r m) (ha : ¬ a.IsSet p) :
    Granted p (tr ++ [a]) j r m where
  request := getElem?_snoc_of h.request
  read := getElem?_snoc_of h.read
  handled := getElem?_snoc_of h.handled
  order := h.order
  last := h.last.extend ha
  same := h.same.snoc (lt_length h.handled).le

/-- A return just executed answers the request that was granted. -/
theorem Granted.serves (h : Granted p tr j r m) : Serves p (tr ++ [a]) j r m tr.length where
  request := getElem?_snoc_of h.request
  read := getElem?_snoc_of h.read
  handled := getElem?_snoc_of h.handled
  order := ⟨h.order.1, h.order.2, lt_length h.handled⟩
  last := h.last.snoc le_rfl
  same := h.same.snoc (lt_length h.handled).le

theorem NoneDropped.nil : NoneDropped p [] := ⟨id, by simp, by simp⟩

theorem NoneDropped.snoc (h : NoneDropped p tr) (ha : ¬ a.IsReturn p) :
    NoneDropped p (tr ++ [a]) := by
  obtain ⟨visit, hserve, hinj⟩ := h
  have hold : ∀ n : ℕ, (tr ++ [a])[n]? = some (Label.part p (.testNeed false)) →
      tr[n]? = some (Label.part p (.testNeed false)) := by
    intro n hn
    rcases getElem?_snoc.mp hn with hn | ⟨-, rfl⟩
    · exact hn
    · exact absurd rfl ha
  refine ⟨visit, fun n hn => ?_, fun n n' hn hn' => hinj n n' (hold n hn) (hold n' hn')⟩
  obtain ⟨j, m, hs⟩ := hserve n (hold n hn)
  exact ⟨j, m, hs.snoc (lt_length (hold n hn))⟩

/-- **One more return**, for a visit that no earlier return has used. -/
theorem NoneDropped.answer (h : NoneDropped p tr) (hg : Granted p tr j r m)
    (hr : FreeBetween (Label.IsReturn p) tr r tr.length) :
    NoneDropped p (tr ++ [.part p (.testNeed false)]) := by
  obtain ⟨visit, hserve, hinj⟩ := h
  -- an earlier return stands before the visit, and its own visit before it
  have hlt : ∀ n : ℕ, tr[n]? = some (Label.part p (.testNeed false)) → visit n < r := by
    intro n hn
    obtain ⟨j', m', hs⟩ := hserve n hn
    have hnr : n ≤ r := hr.le hn rfl
    have := hs.order
    omega
  refine ⟨fun n => if n = tr.length then r else visit n, ?_, ?_⟩
  · intro n hn
    rcases getElem?_snoc.mp hn with hn | ⟨rfl, -⟩
    · obtain ⟨j', m', hs⟩ := hserve n hn
      have hne : n ≠ tr.length := (lt_length hn).ne
      exact ⟨j', m', by simpa [hne] using hs.snoc (lt_length hn)⟩
    · exact ⟨j, m, by simpa using hg.serves⟩
  · intro n n' hn hn' he
    rcases getElem?_snoc.mp hn with hn | ⟨rfl, -⟩ <;>
      rcases getElem?_snoc.mp hn' with hn' | ⟨rfl, -⟩
    · have hne : n ≠ tr.length := (lt_length hn).ne
      have hne' : n' ≠ tr.length := (lt_length hn').ne
      exact hinj n n' hn hn' (by simpa [hne, hne'] using he)
    · have hne : n ≠ tr.length := (lt_length hn).ne
      have := hlt n hn
      simp [hne] at he
      omega
    · have hne' : n' ≠ tr.length := (lt_length hn').ne
      have := hlt n' hn'
      simp [hne'] at he
      omega
    · rfl

end Growth

/-! ### Orderly steps -/

/-- The step keeps part `p` in step with its flag: the start-up store finds the flag down, the part
is restored inside `WaitCompulsiveCheckpoint` only with its flag raised, and it raises its flag only
while the compulsive pass is not busy with it. The last two never fail without a fault
(`orderly_of_faultFree`). -/
def Orderly (p : PartType) (s : Sys) : Label → Prop
  | .car (.initNeed q) => q = p → s.state.needCompulsiveCheckpoint p = false
  | .car (.restore q l) =>
    q = p → l.rest.head? = some .whileNeed → s.state.needCompulsiveCheckpoint p = true
  | .part q .storeNeed => q = p → s.car.pc.handles p = false
  | _ => True

/-- What the history says about the request of `p`. -/
structure Tracked (p : PartType) (tr : List Label) (s : Sys) : Prop where
  wf : Wf s
  served : NoneDropped p tr
  /-- A raised flag was raised by the part. -/
  requested : s.state.needCompulsiveCheckpoint p = true →
    ∃ j, tr[j]? = some (.part p .storeNeed) ∧ FreeBetween (Label.IsSet p) tr j tr.length
  /-- While the compulsive pass is busy with the part, nothing has happened to its flag since it was
  read. -/
  reading : s.car.pc.handles p = true → s.state.needCompulsiveCheckpoint p = true ∧
    ∃ r, tr[r]? = some (.car (.testNeed p true)) ∧
      FreeBetween (Label.IsSet p) tr r tr.length ∧
      FreeBetween (Label.IsVisit p) tr r tr.length ∧
      FreeBetween (Label.IsReturn p) tr r tr.length
  /-- A part that waits with its flag down has been visited, and has not returned since. -/
  granted : InWait s p → s.state.needCompulsiveCheckpoint p = false →
    ∃ j r m, Granted p tr j r m ∧ FreeBetween (Label.IsReturn p) tr r tr.length

theorem Tracked.init (cfg : Config) (p : PartType) : Tracked p [] (Sys.init cfg) where
  wf := Wf.init cfg
  served := NoneDropped.nil
  requested h := by cases h
  reading h := by cases h
  granted := by
    rintro ⟨l, hl, -⟩
    cases hl

section Tracked

variable {cfg : Config} {p : PartType} {tr : List Label} {s : Sys}

theorem requested_snoc {a : Label} (hset : ¬ a.IsSet p)
    (h : ∃ j : ℕ, tr[j]? = some (.part p .storeNeed) ∧
      FreeBetween (Label.IsSet p) tr j tr.length) :
    ∃ j : ℕ, (tr ++ [a])[j]? = some (.part p .storeNeed) ∧
      FreeBetween (Label.IsSet p) (tr ++ [a]) j (tr ++ [a]).length := by
  obtain ⟨j, hj, hlast⟩ := h
  exact ⟨j, getElem?_snoc_of hj, hlast.extend hset⟩

theorem reading_snoc {a : Label} (hset : ¬ a.IsSet p) (hvisit : ¬ a.IsVisit p)
    (hret : ¬ a.IsReturn p)
    (h : ∃ r : ℕ, tr[r]? = some (.car (.testNeed p true)) ∧
      FreeBetween (Label.IsSet p) tr r tr.length ∧
      FreeBetween (Label.IsVisit p) tr r tr.length ∧
      FreeBetween (Label.IsReturn p) tr r tr.length) :
    ∃ r : ℕ, (tr ++ [a])[r]? = some (.car (.testNeed p true)) ∧
      FreeBetween (Label.IsSet p) (tr ++ [a]) r (tr ++ [a]).length ∧
      FreeBetween (Label.IsVisit p) (tr ++ [a]) r (tr ++ [a]).length ∧
      FreeBetween (Label.IsReturn p) (tr ++ [a]) r (tr ++ [a]).length := by
  obtain ⟨r, hr, h₁, h₂, h₃⟩ := h
  exact ⟨r, getElem?_snoc_of hr, h₁.extend hset, h₂.extend hvisit, h₃.extend hret⟩

theorem granted_snoc {a : Label} (hset : ¬ a.IsSet p) (hret : ¬ a.IsReturn p)
    (h : ∃ j r m, Granted p tr j r m ∧ FreeBetween (Label.IsReturn p) tr r tr.length) :
    ∃ j r m, Granted p (tr ++ [a]) j r m ∧
      FreeBetween (Label.IsReturn p) (tr ++ [a]) r (tr ++ [a]).length := by
  obtain ⟨j, r, m, hg, hr⟩ := h
  exact ⟨j, r, m, hg.snoc hset, hr.extend hret⟩

/-- A step of a part that neither raises the flag nor returns, if it does not bring the part to wait
with its flag down. -/
theorem Tracked.step_unmarked {q : PartType} {a : Act} (h : Tracked p tr s)
    (he : (Label.part q a).Enabled s) (hset : ¬ (Label.part q a).IsSet p)
    (hret : ¬ (Label.part q a).IsReturn p)
    (hneed : ((Label.part q a).next cfg s).state.needCompulsiveCheckpoint p =
      s.state.needCompulsiveCheckpoint p)
    (hwait : InWait ((Label.part q a).next cfg s) p →
      s.state.needCompulsiveCheckpoint p = false → InWait s p) :
    Tracked p (tr ++ [.part q a]) ((Label.part q a).next cfg s) := by
  have hvisit : ¬ (Label.part q a).IsVisit p := by simp [Label.IsVisit]
  refine ⟨h.wf.step_part he, h.served.snoc hret, ?_, ?_, ?_⟩
  · intro hn
    exact requested_snoc hset (h.requested (hneed ▸ hn))
  · intro hh
    obtain ⟨hn, hread⟩ := h.reading hh
    exact ⟨hneed.trans hn, reading_snoc hset hvisit hret hread⟩
  · intro hw hn
    rw [hneed] at hn
    exact granted_snoc hset hret (h.granted (hwait hw hn) hn)

/-- A step of another part. -/
theorem Tracked.step_other {q : PartType} {a : Act} (h : Tracked p tr s) (hq : p ≠ q)
    (he : (Label.part q a).Enabled s) :
    Tracked p (tr ++ [.part q a]) ((Label.part q a).next cfg s) := by
  have hneed : ((Label.part q a).next cfg s).state.needCompulsiveCheckpoint p =
      s.state.needCompulsiveCheckpoint p := by
    simp [need_next_part, hq]
  have hset : ¬ (Label.part q a).IsSet p := by simp [Label.IsSet, Ne.symm hq]
  have hret : ¬ (Label.part q a).IsReturn p := by simp [Label.IsReturn, Ne.symm hq]
  exact h.step_unmarked he hset hret hneed fun hw _ => (inWait_next_other hq).mp hw

/-- A part that tests its flag is waiting, and reads it. -/
theorem inWait_of_testNeed {b : Bool} (he : (Label.part p (.testNeed b)).Enabled s) :
    InWait s p ∧ b = s.state.needCompulsiveCheckpoint p := by
  obtain ⟨l, k, hl, hk, hb⟩ := enabled_part.mp he
  exact ⟨⟨l, hl, by rw [hk]; rfl⟩, hb⟩

/-- **A new request**: it is the last one, and the pass is not busy with the part. -/
theorem Tracked.step_request (h : Tracked p tr s) (ho : Orderly p s (.part p .storeNeed))
    (he : (Label.part p .storeNeed).Enabled s) :
    Tracked p (tr ++ [.part p .storeNeed]) ((Label.part p .storeNeed).next cfg s) := by
  have hnb : s.car.pc.handles p = false := ho rfl
  refine ⟨h.wf.step_part he, h.served.snoc (by simp [Label.IsReturn]), ?_, ?_, ?_⟩
  · intro _
    exact ⟨tr.length, List.getElem?_concat_length, FreeBetween.last⟩
  · intro hh
    exact absurd hh (by simp [next_part_car, hnb])
  · intro _ hn
    exact absurd hn (by simp [need_next_part])

/-- **A return**: the flag is down, so the request has been granted. -/
theorem Tracked.step_return (h : Tracked p tr s)
    (he : (Label.part p (.testNeed false)).Enabled s) :
    Tracked p (tr ++ [.part p (.testNeed false)])
      ((Label.part p (.testNeed false)).next cfg s) := by
  obtain ⟨hin, hdown⟩ := inWait_of_testNeed he
  obtain ⟨j, r, m, hg, hret⟩ := h.granted hin hdown.symm
  refine ⟨h.wf.step_part he, h.served.answer hg hret, ?_, ?_, ?_⟩
  · intro hn
    refine requested_snoc (by simp [Label.IsSet]) (h.requested ?_)
    simpa [need_next_part] using hn
  · intro hh
    have := (h.reading hh).1
    rw [← hdown] at this
    cases this
  · intro hw _
    exact absurd ((inWait_next_part cfg h.wf he).mp hw) (by simp)

/-- A step of the part itself. -/
theorem Tracked.step_self {a : Act} (h : Tracked p tr s) (ho : Orderly p s (.part p a))
    (he : (Label.part p a).Enabled s) :
    Tracked p (tr ++ [.part p a]) ((Label.part p a).next cfg s) := by
  by_cases hs : a = .storeNeed
  · subst hs
    exact h.step_request ho he
  by_cases hr : a = .testNeed false
  · subst hr
    exact h.step_return he
  have hneed : ((Label.part p a).next cfg s).state.needCompulsiveCheckpoint p =
      s.state.needCompulsiveCheckpoint p := by
    simp [need_next_part, hs]
  have hset : ¬ (Label.part p a).IsSet p := by simpa [Label.IsSet] using hs
  have hret : ¬ (Label.part p a).IsReturn p := by simpa [Label.IsReturn] using hr
  refine h.step_unmarked he hset hret hneed fun hw hn => ?_
  -- it waits on: it has found its flag raised
  obtain rfl := ((inWait_next_part cfg h.wf he).mp hw).resolve_left hs
  have := (inWait_of_testNeed he).2
  rw [← this] at hn
  cases hn

/-- A part that waits after a step of the manager did so before, or has been restored with its flag
raised. -/
theorem inWait_of_next_car {a : CarAct} (hw : Wf s) (ho : Orderly p s (.car a)) (he : a.Enabled s)
    (h : InWait ((Label.car a).next cfg s) p) :
    InWait s p ∨ s.state.needCompulsiveCheckpoint p = true ∧ a.clears p = false := by
  obtain ⟨l, hl, hwn⟩ := h
  rcases hw.spawn he p with hp | ⟨-, hp⟩ | ⟨-, hp⟩ | ⟨m, rfl, hp, -⟩
  · exact Or.inl ⟨l, hp.symm.trans hl, hwn⟩
  · obtain rfl := Proc.running.inj (hp.symm.trans hl)
    cases p <;> cases hwn
  · cases hp.symm.trans hl
  · obtain rfl := Proc.running.inj (hp.symm.trans hl)
    exact Or.inr ⟨ho rfl hwn, rfl⟩

/-- An orderly step lowers a raised flag only at the end of a visit. -/
theorem eq_clearNeed {a : CarAct} (ho : Orderly p s (.car a)) (hc : a.clears p = true)
    (hn : s.state.needCompulsiveCheckpoint p = true) : a = .clearNeed p := by
  cases a with
  | initNeed i =>
    obtain rfl : i = p := by simpa [CarAct.clears] using hc
    exact absurd hn (by simp [ho rfl])
  | clearNeed i => exact congrArg CarAct.clearNeed (by simpa [CarAct.clears] using hc)
  | _ => cases hc

/-- **The visit ends**: the request before it is granted. -/
theorem Tracked.grant (h : Tracked p tr s) (he : (CarAct.clearNeed p).Enabled s)
    (hn : s.state.needCompulsiveCheckpoint p = true) :
    ∃ j r m, Granted p (tr ++ [.car (.clearNeed p)]) j r m ∧
      FreeBetween (Label.IsReturn p) (tr ++ [.car (.clearNeed p)]) r
        (tr ++ [Label.car (.clearNeed p)]).length := by
  have hbusy : s.car.pc.handles p = true := by
    have hpc : s.car.pc = .store .compulsive p := he
    simp [hpc, CarPc.handles]
  obtain ⟨-, r, hr, h₁, h₂, h₃⟩ := h.reading hbusy
  obtain ⟨j, hj, hlast⟩ := h.requested hn
  have hjr : j ≠ r := by
    rintro rfl
    rw [hj] at hr
    cases hr
  have hle : j ≤ r := h₁.le hj rfl
  have hset : ¬ (Label.car (.clearNeed p)).IsSet p := by simp [Label.IsSet]
  have hret : ¬ (Label.car (.clearNeed p)).IsReturn p := by simp [Label.IsReturn]
  refine ⟨j, r, tr.length, ?_, h₃.extend hret⟩
  exact ⟨getElem?_snoc_of hj, getElem?_snoc_of hr, List.getElem?_concat_length,
    ⟨by omega, lt_length hr⟩, hlast.extend hset, h₂.snoc le_rfl⟩

/-- A step of the manager. -/
theorem Tracked.step_car {a : CarAct} (h : Tracked p tr s) (ho : Orderly p s (.car a))
    (hs : (system cfg).step s (.car a) = some ((Label.car a).next cfg s)) :
    Tracked p (tr ++ [.car a]) ((Label.car a).next cfg s) := by
  have he : a.Enabled s := (step_iff.mp hs).1
  have hset : ¬ (Label.car a).IsSet p := by simp [Label.IsSet]
  have hret : ¬ (Label.car a).IsReturn p := by simp [Label.IsReturn]
  refine ⟨h.wf.step hs, h.served.snoc hret, ?_, ?_, ?_⟩
  · intro hn
    rw [need_next_car, Bool.and_eq_true] at hn
    exact requested_snoc hset (h.requested hn.1)
  · intro hh
    obtain ⟨hc, hold | rfl⟩ := handles_move he hh
    · obtain ⟨hn, hread⟩ := h.reading hold
      have hvisit : ¬ (Label.car a).IsVisit p := by
        rintro ⟨b, hb⟩
        obtain rfl := Label.car.inj hb
        rw [he.1] at hold
        cases hold
      refine ⟨?_, reading_snoc hset hvisit hret hread⟩
      rw [need_next_car, hn, hc]
      rfl
    · -- the flag has just been read
      refine ⟨?_, tr.length, List.getElem?_concat_length, FreeBetween.last, FreeBetween.last,
        FreeBetween.last⟩
      rw [need_next_car, ← he.2]
      rfl
  · intro hw hn
    rw [need_next_car] at hn
    cases hb : s.state.needCompulsiveCheckpoint p with
    | true =>
      have hc : a.clears p = true := by simpa [hb] using hn
      obtain rfl := eq_clearNeed ho hc hb
      exact h.grant he hb
    | false =>
      have hin : InWait s p :=
        (inWait_of_next_car h.wf ho he hw).resolve_right (by simp [hb])
      exact granted_snoc hset hret (h.granted hin hb)

theorem Tracked.step {t : Sys} {a : Label} (h : Tracked p tr s) (ho : Orderly p s a)
    (hs : (system cfg).step s a = some t) : Tracked p (tr ++ [a]) t := by
  obtain ⟨he, rfl⟩ := step_iff.mp hs
  cases a with
  | part q a =>
    by_cases hq : p = q
    · subst hq
      exact h.step_self ho he
    · exact h.step_other hq he
  | car a => exact h.step_car ho hs

end Tracked

/-- A raised flag was raised by its part. -/
theorem set_of_need {cfg : Config} {p : PartType} {tr : List Label} {s : Sys}
    (hr : (system cfg).Run (Sys.init cfg) tr s) (hn : s.state.needCompulsiveCheckpoint p = true) :
    Label.part p .storeNeed ∈ tr := by
  refine hr.inv (I := fun tr s => s.state.needCompulsiveCheckpoint p = true →
    Label.part p .storeNeed ∈ tr) (by intro h; cases h) ?_ hn
  intro tr s a t _ ih hs hn
  obtain ⟨-, rfl⟩ := step_iff.mp hs
  cases a with
  | part q a =>
    rw [need_next_part, Bool.or_eq_true, decide_eq_true_eq] at hn
    rcases hn with hn | ⟨rfl, rfl⟩
    · exact List.mem_append_left _ (ih hn)
    · simp
  | car a =>
    rw [need_next_car, Bool.and_eq_true] at hn
    exact List.mem_append_left _ (ih hn.1)

/-- **Without a fault** all steps are orderly when the part raises its flag only after the manager's
start-up store for it. -/
theorem orderly_of_faultFree {cfg : Config} {p : PartType} {tr : List Label} {s : Sys}
    (hr : (system cfg).Run (Sys.init cfg) tr s) (hf : FaultFree tr)
    (hset : ∀ i < tr.length, tr[i]? = some (.car (.initNeed p)) →
      Label.part p .storeNeed ∉ tr.take i) :
    (system cfg).Along (Sys.init cfg) (Orderly p) tr := by
  rintro pre a post u rfl hu
  obtain ⟨hq, hw⟩ := Quiet.of_run hu hf.append.1
  have he : a.Enabled u := by
    obtain ⟨v, hs, -⟩ := hr.step_at hu
    exact (step_iff.mp hs).1
  cases a with
  | part q a =>
    cases a with
    | storeNeed =>
      rintro rfl
      by_contra hh
      have hn := hq.handling q (by simpa using hh)
      cases act_of_inWait (hq.wait q hn) he
    | _ => trivial
  | car a =>
    cases a with
    | initNeed q =>
      rintro rfl
      by_contra hn
      have hmem := set_of_need (p := q) hu (by simpa using hn)
      exact hset pre.length (by simp) (by simp) (by simpa using hmem)
    | restore q l => exact absurd he.2.1 (hq.alive q)
    | _ => trivial

/-- **Where all steps are orderly, no request is dropped.** -/
theorem none_dropped (cfg : Config) (p : PartType) {tr : List Label} {s : Sys}
    (hr : (system cfg).Run (Sys.init cfg) tr s)
    (ho : (system cfg).Along (Sys.init cfg) (Orderly p) tr) : NoneDropped p tr := by
  have key : Tracked p tr s :=
    hr.inv_along (Tracked.init cfg p) (fun _ _ _ _ h ho hs => h.step ho hs) ho
  exact key.served

/-- A run in which camera is acknowledged after the start-up stores, and returns. -/
theorem none_dropped_camera :
    ∃ tr s, (system Config.default).Run (Sys.init Config.default) tr s ∧
      Label.part .camera (.testNeed false) ∈ tr ∧ NoneDropped .camera tr := by
  obtain ⟨tr, s, hr, hret, hf, hset⟩ := exists_run Config.default
    (List.replicate 15 none ++ List.replicate 4 (some .camera) ++ List.replicate 7 none ++
      [some .camera])
    (P := fun tr _ => Label.part .camera (.testNeed false) ∈ tr ∧ FaultFree tr ∧
      ∀ i < tr.length, tr[i]? = some (.car (.initNeed .camera)) →
        Label.part .camera .storeNeed ∉ tr.take i) (by decide +kernel)
  exact ⟨tr, s, hr, hret, none_dropped _ .camera hr (orderly_of_faultFree hr hf hset)⟩

/-- camera raises its flag before the manager's start-up store lowers it, and returns without a
visit. -/
theorem request_dropped :
    ¬ ∀ (cfg : Config) (tr : List Label) (s : Sys), (system cfg).Run (Sys.init cfg) tr s →
      ∀ p, NoneDropped p tr := by
  intro h
  obtain ⟨tr, s, hr, hret, hno⟩ := exists_run Config.default
    ([none, none] ++ List.replicate 4 (some .camera) ++ List.replicate 5 none ++ [some .camera])
    (P := fun tr _ => tr[11]? = some (.part .camera (.testNeed false)) ∧
      Label.car (.testNeed .camera true) ∉ tr) (by decide +kernel)
  obtain ⟨visit, hserve, -⟩ := h _ tr s hr .camera
  obtain ⟨j, m, hs⟩ := hserve 11 hret
  exact hno (List.mem_of_getElem? hs.read)

end Vehicle.Recoverybase
