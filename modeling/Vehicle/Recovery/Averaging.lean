import Vehicle.Recovery.Encoder

/-!
# recovery: the average of eight samples

`Speed::Run` as a function of what the sensor answers and of the samples that come. The counter of
its loop goes back for a sample that is rejected, so the loop ends with the eighth sample accepted
(`loop_eq`), however many are rejected before it, and what it adds up depends on the accepted ones
alone. The statements of `runALL` that make up `Speed::Run` do the same (`exists_run_loop`).
-/

namespace Vehicle.Recovery

open Vehicle.Trace Vehicle.Trace.Cyclic

namespace Speed.Members

/-- The loop of `Speed::Run`: the members behind it, and the samples it has not read; `none` when
it still waits for one. -/
def loop (m : Speed.Members) : List Reading → Option (Speed.Members × List Reading)
  | [] => if m.i ≤ 8 then none else some (m, [])
  | r :: rs =>
    if m.i ≤ 8 then (m.sample r.result1 r.result2 r.us).loop rs else some (m, r :: rs)

/-- `speed = double(difference_total) / 16383.0 / time_total`. -/
def calcSpeed (m : Speed.Members) : Speed.Members :=
  { m with speed := m.differenceTotal / 16383 / m.timeTotal }

end Speed.Members

/-- What a call of `Speed::Run` leaves: the members, the values stored in `speed_`, and the samples
that have not been read. -/
structure Speed.Outcome where
  members : Speed.Members
  stored : List ℚ
  unread : List Reading
  deriving DecidableEq

/-- **`Speed::Run`**; the first read answers `r`, the one behind the loop `r'`. -/
def Speed.Members.run (m : Speed.Members) (r r' : ℤ) (rs : List Reading) :
    Option Speed.Outcome :=
  ((m.start r).loop rs).map fun (m, rest) =>
    let m := m.calcSpeed
    if m.result1 = -1 ∨ m.result2 = -1 then
      ⟨{ m with result1 := r', result2 := r' }, [], rest⟩
    else ⟨m, [m.speed], rest⟩

/-! ### The sums -/

theorem accepted_cons_append (r : Reading) (rs : List Reading) :
    accepted (r :: rs) = accepted [r] ++ accepted rs := by
  rw [← accepted_append, List.singleton_append]

/-- `difference_total` over samples that count. -/
def differences (rs : List Reading) : ℤ := (rs.map fun r => Speed.unwrap r.result1 r.result2).sum

/-- `time_total` over samples that count. -/
def durations (rs : List Reading) : ℚ := (rs.map fun r => (r.us : ℚ) / 1000000).sum

namespace Speed.Members

variable {m m' : Speed.Members} {r q : Reading} {rs pre post : List Reading}

theorem sample_timeTotal (m : Speed.Members) (r : Reading) :
    (m.sample r.result1 r.result2 r.us).timeTotal =
      m.timeTotal + durations (accepted [r]) := by
  by_cases h : r.Accepted
  · obtain ⟨hpos, hus⟩ := h
    rw [accepted_cons ⟨hpos, hus⟩]
    unfold sample
    dsimp only
    rw [if_neg (by omega), if_neg (by rw [timeTaken_filtered]; exact not_not_intro hus)]
    simp [durations, accepted]
  · have hnil : durations (accepted [r]) = 0 := by
      rw [accepted_cons_of_not h]
      rfl
    rw [hnil, add_zero]
    unfold sample
    dsimp only
    split
    · rfl
    · rename_i hpos
      have hus : ¬ (0 ≤ r.us ∧ r.us ≤ 2500) := fun hus => h ⟨by omega, hus⟩
      rw [if_pos (timeTaken_filtered.mpr hus)]

/-- **The loop adds up the durations of the samples it accepts.** -/
theorem samples_timeTotal (m : Speed.Members) (rs : List Reading) :
    (m.samples rs).timeTotal = m.timeTotal + durations (accepted rs) := by
  induction rs generalizing m with
  | nil => simp [accepted, durations]
  | cons r rs ih =>
    rw [samples_cons, ih, sample_timeTotal, accepted_cons_append r rs]
    unfold durations
    rw [List.map_append, List.sum_append, add_assoc]

/-! ### Where the loop ends -/

/-- Samples that do not bring the counter past 8 are all read. -/
theorem loop_append (h : m.i + (accepted pre).length ≤ 8) :
    m.loop (pre ++ post) = (m.samples pre).loop post := by
  induction pre generalizing m with
  | nil => rfl
  | cons r pre ih =>
    have hi := samples_i m [r]
    rw [accepted_cons_append, List.length_append] at h
    rw [List.cons_append, loop, if_pos (by omega), samples_cons]
    apply ih
    rw [samples_cons, samples_nil] at hi
    omega

/-- **The loop ends with the sample that brings the counter past 8**, whatever comes behind it. -/
theorem loop_eq (hpre : m.i + (accepted pre).length = 8) (hq : q.Accepted) :
    m.loop (pre ++ q :: post) = some (m.samples (pre ++ [q]), post) := by
  have hi : ((m.samples pre).sample q.result1 q.result2 q.us).i = 9 := by
    rw [(sample_of_accepted hq).2.2, samples_i, hpre]
  rw [loop_append hpre.le, loop, if_pos (by rw [samples_i]; omega), samples_snoc]
  cases post with
  | nil => rw [loop, if_neg (by omega)]
  | cons r post => rw [loop, if_neg (by omega)]

/-- Up to then it waits. -/
theorem loop_eq_none (h : m.i + (accepted rs).length ≤ 8) : m.loop rs = none := by
  have happ : m.loop (rs ++ []) = (m.samples rs).loop [] := loop_append h
  rw [List.append_nil] at happ
  rw [happ, loop, if_pos (by rw [samples_i]; exact h)]

end Speed.Members

/-- The place of the `n + 1`-st accepted sample. -/
theorem exists_split_accepted {rs : List Reading} {n : ℕ} (h : n < (accepted rs).length) :
    ∃ pre q post, rs = pre ++ q :: post ∧ q.Accepted ∧ (accepted pre).length = n := by
  induction rs generalizing n with
  | nil => simp [accepted] at h
  | cons r rs ih =>
    by_cases hr : r.Accepted
    · cases n with
      | zero => exact ⟨[], r, rs, rfl, hr, rfl⟩
      | succ n =>
        rw [accepted_cons hr, List.length_cons] at h
        obtain ⟨pre, q, post, rfl, hq, hn⟩ := ih (Nat.lt_of_succ_lt_succ h)
        refine ⟨r :: pre, q, post, rfl, hq, ?_⟩
        rw [accepted_cons hr, List.length_cons, hn]
    · rw [accepted_cons_of_not hr] at h
      obtain ⟨pre, q, post, rfl, hq, hn⟩ := ih h
      refine ⟨r :: pre, q, post, rfl, hq, ?_⟩
      rw [accepted_cons_of_not hr, hn]

/-! ### A call of `Speed::Run` -/

/-- The speed `Speed::Run` computes from the samples that count. -/
def meanSpeed (rs : List Reading) : ℚ := (differences rs : ℚ) / 16383 / durations rs

namespace Speed.Members

variable {m : Speed.Members} {r r' : ℤ} {q : Reading} {rs pre post : List Reading}

/-- The sums of a call begin at zero. -/
theorem start_differenceTotal :
    ((m.start r).samples rs).differenceTotal = differences (accepted rs) := by
  rw [samples_differenceTotal]
  exact zero_add _

theorem start_timeTotal : ((m.start r).samples rs).timeTotal = durations (accepted rs) := by
  rw [samples_timeTotal]
  exact zero_add _

/-- **A call of `Speed::Run` whose eighth accepted sample is `q`** reads the samples up to it, and
stores the mean speed over the accepted ones. -/
theorem run_eq (hpre : (accepted pre).length = 7) (hq : q.Accepted) :
    m.run r r' (pre ++ q :: post) =
      some ⟨((m.start r).samples (pre ++ [q])).calcSpeed, [meanSpeed (accepted (pre ++ [q]))],
        post⟩ := by
  have hstart : (m.start r).i + (accepted pre).length = 8 := by
    rw [hpre]
    rfl
  have hspeed : ((m.start r).samples (pre ++ [q])).calcSpeed.speed =
      meanSpeed (accepted (pre ++ [q])) := by
    rw [calcSpeed, meanSpeed, start_differenceTotal, start_timeTotal]
  -- the last sample counts, so the test behind the loop is false
  obtain ⟨h1, h2⟩ := ((m.start r).samples pre).sample_results q.result1 q.result2 q.us
  have hcalc1 : ((m.start r).samples (pre ++ [q])).calcSpeed.result1 = q.result1 := by
    rw [samples_snoc]
    exact h1
  have hcalc2 : ((m.start r).samples (pre ++ [q])).calcSpeed.result2 = q.result2 := by
    rw [samples_snoc]
    exact h2
  have hpos := hq.1
  rw [run, loop_eq hstart hq, Option.map_some]
  dsimp only
  rw [if_neg (by rw [hcalc1, hcalc2]; omega), hspeed]

end Speed.Members

/-- The accepted samples up to `q` are the first ones of the stream. -/
theorem take_accepted {pre post : List Reading} {q : Reading} {n : ℕ}
    (hpre : (accepted pre).length = n) (hq : q.Accepted) :
    (accepted (pre ++ q :: post)).take (n + 1) = accepted (pre ++ [q]) := by
  have hlen : (accepted (pre ++ [q])).length = n + 1 := by
    rw [accepted_append, accepted_cons hq, List.length_append, hpre]
    rfl
  have hsplit : accepted (pre ++ q :: post) = accepted (pre ++ [q]) ++ accepted post := by
    rw [← accepted_append]
    simp
  rw [hsplit, ← hlen, List.take_left]

/-- The speed stored depends on the first eight accepted samples alone. -/
theorem Speed.Members.stored_eq {m : Speed.Members} {r r' : ℤ} {rs : List Reading}
    (h : 8 ≤ (accepted rs).length) :
    (m.run r r' rs).map Speed.Outcome.stored = some [meanSpeed ((accepted rs).take 8)] := by
  obtain ⟨pre, q, post, rfl, hq, hpre⟩ := exists_split_accepted (n := 7) h
  rw [run_eq hpre hq, take_accepted hpre hq]
  rfl

/-- **`Speed::Run` averages the first eight good samples.** When at least eight of the samples that
come are accepted, the loop ends with the eighth, whatever comes behind it; the sums are those of
the eight in their order, and their quotient is stored, once. The accepted samples alone decide what
is stored. -/
theorem run_averages (m : Speed.Members) (r r' : ℤ) (rs : List Reading)
    (h : 8 ≤ (accepted rs).length) :
    (∃ pre q post, rs = pre ++ q :: post ∧ q.Accepted ∧ (accepted pre).length = 7 ∧
      ∀ more, ∃ o, m.run r r' (pre ++ q :: more) = some o ∧ o.unread = more ∧
        o.members.differenceTotal = differences ((accepted rs).take 8) ∧
        o.members.timeTotal = durations ((accepted rs).take 8) ∧
        o.stored = [(o.members.differenceTotal : ℚ) / 16383 / o.members.timeTotal]) ∧
    ∀ (m' : Speed.Members) r₁ r₁' rs', accepted rs' = accepted rs →
      (m'.run r₁ r₁' rs').map Speed.Outcome.stored =
        (m.run r r' rs).map Speed.Outcome.stored := by
  constructor
  · obtain ⟨pre, q, post, rfl, hq, hpre⟩ := exists_split_accepted (n := 7) h
    refine ⟨pre, q, post, rfl, hq, hpre, fun more => ?_⟩
    rw [take_accepted hpre hq]
    have hdiff : ((m.start r).samples (pre ++ [q])).differenceTotal =
        differences (accepted (pre ++ [q])) := Speed.Members.start_differenceTotal
    have htime : ((m.start r).samples (pre ++ [q])).timeTotal =
        durations (accepted (pre ++ [q])) := Speed.Members.start_timeTotal
    refine ⟨_, Speed.Members.run_eq hpre hq, rfl, hdiff, htime, ?_⟩
    show [meanSpeed _] = [((m.start r).samples (pre ++ [q])).differenceTotal / 16383 /
      ((m.start r).samples (pre ++ [q])).timeTotal]
    rw [hdiff, htime, meanSpeed]
  · intro m' r₁ r₁' rs' hrs
    rw [Speed.Members.stored_eq h, Speed.Members.stored_eq (by rw [hrs]; exact h), hrs]

/-- Two rejected samples between eight good ones, and one more behind. -/
theorem run_averages_interleaved :
    8 ≤ (accepted (List.replicate 3 ⟨10, 20, 1000, 0⟩ ++ ⟨-1, 20, 1000, 0⟩ ::
      ⟨10, 20, 3000, 0⟩ :: List.replicate 6 ⟨10, 20, 1000, 0⟩)).length ∧
    (Speed.Members.new.run 0 0 (List.replicate 3 ⟨10, 20, 1000, 0⟩ ++ ⟨-1, 20, 1000, 0⟩ ::
      ⟨10, 20, 3000, 0⟩ :: List.replicate 6 ⟨10, 20, 1000, 0⟩)).map Speed.Outcome.stored =
      (Speed.Members.new.run 0 0 (List.replicate 9 ⟨10, 20, 1000, 0⟩)).map
        Speed.Outcome.stored := by
  refine ⟨by decide, ?_⟩
  refine (run_averages Speed.Members.new 0 0 (List.replicate 9 ⟨10, 20, 1000, 0⟩) (by decide)).2
    Speed.Members.new 0 0 _ ?_
  decide

/-! ### The statements of `Speed::Run` -/

/-- An iteration of the loop as a label of the program. -/
def Reading.label (r : Reading) : Label := .part .speed (.sample r.result1 r.result2 r.us)

section System

variable (handled : Bool) {s : Sys} {l : Local} {k : List Instr} {rs post : List Reading}

/-- A step of a part that stands at the statement. -/
theorem step_of_head {p : PartType} (a : Act) (hl : s.part p = .running l)
    (hk : l.rest = a.instr :: k) (ha : a.Agrees p s.state l) (hx : a.exits = false) :
    ∃ t, (system handled).step s (.part p a) = some t ∧ t.part p = .running (a.move p l) ∧
      t.state = a.write p s.state := by
  have hen : (Label.part p a).Enabled handled s := by
    simp only [Label.Enabled, hl, Proc.Enables]
    exact ⟨by rw [hk]; rfl, ha⟩
  refine ⟨_, step_iff.mpr ⟨hen, rfl⟩, ?_, rfl⟩
  simp [Label.next, hl, Proc.after, Act.after, hx]

/-- **The statement of the program is the loop of the function.** -/
theorem exists_run_loop {m : Speed.Members} (hl : s.part .speed = .running l)
    (hk : l.rest = .sample :: k) (hi : l.speed.i ≤ 8) (h : l.speed.loop rs = some (m, post)) :
    ∃ pre t, rs = pre ++ post ∧ (system handled).Run s (pre.map Reading.label) t ∧
      t.part .speed = .running { l.next .speed with speed := m } ∧ t.state = s.state := by
  induction rs generalizing s l with
  | nil =>
    rw [Speed.Members.loop, if_pos hi] at h
    cases h
  | cons r rs ih =>
    rw [Speed.Members.loop, if_pos hi] at h
    obtain ⟨t, hs, hpart, hstate⟩ := step_of_head handled
      (.sample r.result1 r.result2 r.us) hl hk trivial rfl
    by_cases hi' : (l.speed.sample r.result1 r.result2 r.us).i ≤ 8
    · -- the part stays at the statement
      simp only [Act.move, if_pos hi'] at hpart
      obtain ⟨pre, u, rfl, hr, hu, hstate'⟩ := ih hpart hk hi' h
      refine ⟨r :: pre, u, rfl, ?_, hu, hstate'.trans hstate⟩
      exact (Lts.Run.single hs).trans hr
    · simp only [Act.move, if_neg hi'] at hpart
      have hend : (l.speed.sample r.result1 r.result2 r.us).loop rs =
          some (l.speed.sample r.result1 r.result2 r.us, rs) := by
        cases rs with
        | nil => rw [Speed.Members.loop, if_neg hi']
        | cons q rs => rw [Speed.Members.loop, if_neg hi']
      rw [hend] at h
      obtain ⟨rfl, rfl⟩ := Prod.mk.inj (Option.some.inj h)
      exact ⟨[r], t, rfl, Lts.Run.single hs, hpart, hstate⟩

/-- The statement behind the head. -/
theorem rest_next {p : PartType} {i j : Instr} (hk : l.rest = i :: j :: k) :
    (l.next p).rest = j :: k := by
  simp [Local.next, Local.skip, hk, advance]

theorem rest_skip {p : PartType} {i i' j : Instr} (hk : l.rest = i :: i' :: j :: k) :
    (l.skip p 1).rest = j :: k := by
  simp [Local.skip, hk, advance]

/-- The statements of `Speed::Run` up to its test for an error. -/
theorem exists_run_average {r : ℤ} {m : Speed.Members} (hl : s.part .speed = .running l)
    (hk : l.rest = Speed.run ++ k) (hloop : (l.speed.start r).loop rs = some (m, post)) :
    ∃ tr t l', (system handled).Run s tr t ∧ t.part .speed = .running l' ∧
      l'.rest = Speed.run.drop 3 ++ k ∧ l' = { l with rest := l'.rest, speed := m.calcSpeed } ∧
      t.state = s.state := by
  obtain ⟨s₁, hs₁, hl₁, hst₁⟩ := step_of_head handled (.clearError r) hl hk trivial rfl
  have hk₁ : ((Act.clearError r).move .speed l).rest = Speed.run.drop 1 ++ k := rest_next hk
  obtain ⟨pre, s₂, -, hr₂, hl₂, hst₂⟩ :=
    exists_run_loop handled hl₁ hk₁ (show 1 ≤ 8 by omega) hloop
  have hk₂ : (((Act.clearError r).move .speed l).next .speed).rest = Speed.run.drop 2 ++ k :=
    rest_next hk₁
  obtain ⟨s₃, hs₃, hl₃, hst₃⟩ := step_of_head handled .calcSpeed hl₂ hk₂ trivial rfl
  refine ⟨_, s₃, _, ((Lts.Run.single hs₁).trans hr₂).trans (.single hs₃), hl₃,
    rest_next hk₂, rfl, ?_⟩
  rw [hst₃, show Act.write .speed .calcSpeed s₂.state = s₂.state from rfl, hst₂, hst₁]
  rfl

/-- **A cycle of the speed sensor executes `Speed::Run`**: what the statements leave in the members
and in the State is what the function does. -/
theorem exists_run_run {r r' : ℤ} {o : Speed.Outcome} (hl : s.part .speed = .running l)
    (hk : l.rest = Speed.run ++ k) (h : l.speed.run r r' rs = some o) :
    ∃ tr t, (system handled).Run s tr t ∧
      t.part .speed = .running { l with rest := advance (runALL .speed) k, speed := o.members } ∧
      t.state = o.stored.foldl (fun u x => u.setDatum .speed x) s.state := by
  obtain ⟨⟨m, rest⟩, hloop, rfl⟩ := Option.map_eq_some_iff.mp h
  obtain ⟨tr, s₃, l₃, hr₃, hl₃, hk₃, hl', hstate⟩ :=
    exists_run_average handled hl hk hloop
  have hspeed : l₃.speed = m.calcSpeed := by rw [hl']
  by_cases herr : m.result1 = -1 ∨ m.result2 = -1
  · -- the branch that reads once more
    have hbool : true = (decide (l₃.speed.result1 = -1) || decide (l₃.speed.result2 = -1)) := by
      rw [hspeed]
      change true = (decide (m.result1 = -1) || decide (m.result2 = -1))
      simpa using herr
    obtain ⟨s₄, hs₄, hl₄, hst₄⟩ :=
      step_of_head handled (.testError true) hl₃ hk₃ hbool rfl
    have hk₄ : ((Act.testError true).move .speed l₃).rest = Speed.run.drop 4 ++ k :=
      rest_next hk₃
    obtain ⟨s₅, hs₅, hl₅, hst₅⟩ :=
      step_of_head handled (.clearResults r') hl₄ hk₄ trivial rfl
    refine ⟨_, s₅, (hr₃.trans (.single hs₄)).trans (.single hs₅), ?_, ?_⟩
    · rw [hl₅, hl']
      simp [Act.move, Local.next, Local.skip, hk₃, Speed.run, advance, herr,
        Speed.Members.calcSpeed]
    · rw [hst₅, hst₄, ← hstate]
      simp [Act.write, Speed.Members.calcSpeed, herr]
  · have hbool :
        false = (decide (l₃.speed.result1 = -1) || decide (l₃.speed.result2 = -1)) := by
      rw [hspeed]
      change false = (decide (m.result1 = -1) || decide (m.result2 = -1))
      simpa using herr
    obtain ⟨s₄, hs₄, hl₄, hst₄⟩ :=
      step_of_head handled (.testError false) hl₃ hk₃ hbool rfl
    have hk₄ : ((Act.testError false).move .speed l₃).rest = Speed.run.drop 5 ++ k :=
      rest_skip hk₃
    obtain ⟨s₅, hs₅, hl₅, hst₅⟩ :=
      step_of_head handled (.storeSpeed l₃.speed.speed) hl₄ hk₄ rfl rfl
    refine ⟨_, s₅, (hr₃.trans (.single hs₄)).trans (.single hs₅), ?_, ?_⟩
    · rw [hl₅, hl']
      simp [Act.move, Local.next, Local.skip, hk₃, Speed.run, advance, herr,
        Speed.Members.calcSpeed]
    · rw [hst₅, hst₄, ← hstate, hspeed]
      simp [Act.write, Speed.Members.calcSpeed, herr]

end System

end Vehicle.Recovery
