import Vehicle.Recovery.Averaging

/-!
# recovery: errors of the speed sensor

`As5048a::Read` of `as5048a.cpp`, and the words it exchanges with the sensor during a call of
`Speed::Run`. Bit 14 of a response is the error flag; `Read` masks it out with the highest bit, so
its result is never negative (`read_nonneg`). Neither the filter in the loop of `Speed::Run` nor the
test behind it can see an error, and the error is cleared at the start of the next call only.
-/

namespace Vehicle.Recovery

/-! ### The driver -/

namespace As5048

/-- `AS5048_READ`. -/
def read : BitVec 32 := 0x4000

/-- `AS5048_CMD_ANGLE`. -/
def cmdAngle : BitVec 32 := 0x3FFF

/-- `AS5048_CMD_NOP`. -/
def cmdNop : BitVec 32 := 0x0000

/-- `AS5048_CMD_CLEAR_ERROR`. -/
def cmdClearError : BitVec 32 := 0x4001

end As5048

/-- The two bytes sent over SPI, and the two received meanwhile. -/
structure Transfer where
  sent : BitVec 16
  received : BitVec 16
  deriving DecidableEq, Repr

namespace As5048a

/-- `As5048a::EvenParityCalc`. -/
def evenParityCalc (value : BitVec 32) : BitVec 32 :=
  (List.range 15).foldl (fun parity i => ((value >>> i) &&& 1) ^^^ parity) 0

/-- A `char` promoted to `int`; whether `char` is signed is up to the platform. -/
def promote (signed : Bool) (c : BitVec 8) : BitVec 32 :=
  if signed then c.signExtend 32 else c.setWidth 32

/-- `send_over_spi(cmd, 2)`: the bytes of `cmd` go out with the high one first. -/
def sendOverSpi (cmd : BitVec 32) (w : BitVec 16) : Transfer := ⟨cmd.setWidth 16, w⟩

/-- What `send_over_spi` returns for the bytes received. -/
def value (signed : Bool) (w : BitVec 16) : BitVec 32 :=
  (promote signed (w.extractLsb' 8 8) <<< 8) ||| promote signed (w.setWidth 8)

/-- The command `As5048a::Read` sends for a register. -/
def command (regAddress : BitVec 32) : BitVec 32 :=
  let cmd := regAddress ||| As5048.read
  cmd ||| ((evenParityCalc cmd <<< 15) &&& 0x8000)

/-- The transfers of `As5048a::Read`, when the sensor answers `w₁` and then `w₂`. -/
def transfers (regAddress : BitVec 32) (w₁ w₂ : BitVec 16) : List Transfer :=
  [sendOverSpi (command regAddress) w₁, sendOverSpi As5048.cmdNop w₂]

/-- **The result of `As5048a::Read`**, when the second response is `w₂`. -/
def read (signed : Bool) (w₂ : BitVec 16) : ℤ := (value signed w₂ &&& 0x3FE0).toInt

/-- **The result is never negative.** -/
theorem read_nonneg (signed : Bool) (w₂ : BitVec 16) : 0 ≤ read signed w₂ := by
  have hle : (value signed w₂ &&& 0x3FE0).toNat ≤ 0x3FE0 := by
    rw [BitVec.toNat_and]
    exact Nat.and_le_right
  rw [read, BitVec.toInt_eq_toNat_of_lt (by omega)]
  exact Int.natCast_nonneg _

end As5048a

/-! ### What goes over the bus -/

/-- The responses during an iteration of the loop of `Speed::Run`, of each `Read` the second one is
used, and the microseconds between the two results. -/
structure Exchange where
  word1 : BitVec 16 × BitVec 16
  word2 : BitVec 16 × BitVec 16
  us : ℤ
  deriving DecidableEq, Repr

/-- The iteration as the loop sees it. -/
def Exchange.reading (signed : Bool) (x : Exchange) : Reading :=
  ⟨As5048a.read signed x.word1.2, As5048a.read signed x.word2.2, x.us, 0⟩

/-- The duration passes the filter. -/
def Exchange.InTime (x : Exchange) : Prop := 0 ≤ x.us ∧ x.us ≤ 2500

instance (x : Exchange) : Decidable x.InTime :=
  inferInstanceAs (Decidable (0 ≤ x.us ∧ x.us ≤ 2500))

/-- The sensor signals an error in a response that is used: its error flag is set, or, in the terms
of `Speed::Run`, the result is negative. -/
def Exchange.Error (signed : Bool) (x : Exchange) : Prop :=
  (x.word1.2.getLsbD 14 ∨ As5048a.read signed x.word1.2 < 0) ∨
    (x.word2.2.getLsbD 14 ∨ As5048a.read signed x.word2.2 < 0)

instance (signed : Bool) (x : Exchange) : Decidable (x.Error signed) :=
  inferInstanceAs (Decidable
    ((x.word1.2.getLsbD 14 = true ∨ As5048a.read signed x.word1.2 < 0) ∨
      (x.word2.2.getLsbD 14 = true ∨ As5048a.read signed x.word2.2 < 0)))

/-- **What happens in a call of `Speed::Run`**: the transfers, and the iterations, each with whether
the sums or the counter have changed. -/
inductive Event
  | transfer (t : Transfer)
  | iteration (x : Exchange) (counts : Bool)
  deriving DecidableEq

/-- `Read(AS5048_CMD_CLEAR_ERROR)`. -/
def clearError (w : BitVec 16 × BitVec 16) : List Event :=
  (As5048a.transfers As5048.cmdClearError w.1 w.2).map .transfer

/-- The events of an iteration that leads from `m` to `m'`. -/
def Exchange.events (x : Exchange) (m m' : Speed.Members) : List Event :=
  (As5048a.transfers As5048.cmdAngle x.word1.1 x.word1.2 ++
    As5048a.transfers As5048.cmdAngle x.word2.1 x.word2.2).map .transfer ++
  [.iteration x (decide (m'.differenceTotal ≠ m.differenceTotal) ||
    decide (m'.timeTotal ≠ m.timeTotal) || decide (m'.i ≠ m.i))]

namespace Speed.Members

/-- An iteration of the loop, with the results read from the sensor. -/
def exchange (signed : Bool) (m : Speed.Members) (x : Exchange) : Speed.Members :=
  m.sample (As5048a.read signed x.word1.2) (As5048a.read signed x.word2.2) x.us

/-- The events of the loop of `Speed::Run` and of the test behind it, when that reads `w`. -/
def loopEvents (signed : Bool) (w : BitVec 16 × BitVec 16) (m : Speed.Members) :
    List Exchange → List Event
  | [] => if m.i ≤ 8 then [] else behind w m
  | x :: xs =>
    if m.i ≤ 8 then x.events m (m.exchange signed x) ++ (m.exchange signed x).loopEvents signed w xs
    else behind w m
where
  /-- `if (result1 == -1 || result2 == -1)` -/
  behind (w : BitVec 16 × BitVec 16) (m : Speed.Members) : List Event :=
    if m.result1 = -1 ∨ m.result2 = -1 then clearError w else []

/-- **The events of a call of `Speed::Run`**; the first read is answered `w`, the one behind the
loop `w'`. -/
def events (signed : Bool) (m : Speed.Members) (w w' : BitVec 16 × BitVec 16)
    (xs : List Exchange) : List Event :=
  clearError w ++ (m.start (As5048a.read signed w.2)).loopEvents signed w' xs

end Speed.Members

/-- `AS5048_CMD_CLEAR_ERROR` is sent. -/
def Transfer.Clears (t : Transfer) : Prop :=
  t = As5048a.sendOverSpi (As5048a.command As5048.cmdClearError) t.received

/-- **Errors of the sensor are dealt with**: an iteration in which it signals one does not count,
and the error is cleared before a later iteration counts. -/
structure DealsWithErrors (signed : Bool) (es : List Event) : Prop where
  excluded : ∀ x counts, .iteration x counts ∈ es → x.Error signed → counts = false
  cleared : ∀ pre x counts mid y post,
    es = pre ++ .iteration x counts :: mid ++ .iteration y true :: post → x.Error signed →
      ∃ t, .transfer t ∈ mid ∧ t.Clears

/-! ### Which iterations count -/

section Counting

variable {signed : Bool} {m : Speed.Members} {w w' : BitVec 16 × BitVec 16} {x y : Exchange}
  {xs pre : List Exchange} {n : ℕ}

/-- The loop counts every iteration that is in time. -/
theorem Exchange.accepted_iff (signed : Bool) (x : Exchange) :
    (x.reading signed).Accepted ↔ x.InTime :=
  and_iff_right ⟨As5048a.read_nonneg signed _, As5048a.read_nonneg signed _⟩

/-- The events of an iteration, with whether it is in time. -/
def Exchange.log (x : Exchange) : List Event :=
  (As5048a.transfers As5048.cmdAngle x.word1.1 x.word1.2 ++
    As5048a.transfers As5048.cmdAngle x.word2.1 x.word2.2).map .transfer ++
  [.iteration x (decide x.InTime)]

theorem exchange_i (signed : Bool) (m : Speed.Members) (x : Exchange) :
    (m.exchange signed x).i = m.i + if x.InTime then 1 else 0 := by
  by_cases h : x.InTime
  · rw [if_pos h]
    exact (Speed.Members.sample_of_accepted ((x.accepted_iff signed).mpr h)).2.2
  · rw [if_neg h]
    have hacc : ¬ (x.reading signed).Accepted := mt (x.accepted_iff signed).mp h
    exact (Speed.Members.sample_of_not_accepted hacc).2

theorem Exchange.events_eq : x.events m (m.exchange signed x) = x.log := by
  have hi := exchange_i signed m x
  by_cases h : x.InTime
  · have hne : (m.exchange signed x).i ≠ m.i := by
      rw [hi, if_pos h]
      omega
    simp [events, log, h, hne]
  · have hacc : ¬ (x.reading signed).Accepted := mt (x.accepted_iff signed).mp h
    have htime : (m.exchange signed x).timeTotal = m.timeTotal := by
      have htotal := m.sample_timeTotal (x.reading signed)
      rw [accepted_cons_of_not hacc] at htotal
      exact htotal.trans (add_zero _)
    have hdiff : (m.exchange signed x).differenceTotal = m.differenceTotal :=
      (Speed.Members.sample_of_not_accepted hacc).1
    rw [if_neg h, Nat.add_zero] at hi
    simp [events, log, h, hi, htime, hdiff]

/-- The exchanges up to the `n`-th in time. -/
def upToInTime : ℕ → List Exchange → List Exchange
  | 0, _ => []
  | _ + 1, [] => []
  | n + 1, x :: xs => x :: upToInTime (if x.InTime then n else n + 1) xs

/-- How many of the exchanges are in time. -/
def countInTime (xs : List Exchange) : ℕ := xs.countP fun x => decide x.InTime

/-- **The loop reads up to the eighth exchange in time**, and the test behind it fails. -/
theorem loopEvents_eq (hi : m.i ≤ 8) :
    m.loopEvents signed w xs = (upToInTime (9 - m.i) xs).flatMap Exchange.log := by
  induction xs generalizing m with
  | nil =>
    obtain ⟨k, hk⟩ : ∃ k, 9 - m.i = k + 1 := ⟨8 - m.i, by omega⟩
    rw [Speed.Members.loopEvents, if_pos hi, hk]
    rfl
  | cons x xs ih =>
    obtain ⟨k, hk⟩ : ∃ k, 9 - m.i = k + 1 := ⟨8 - m.i, by omega⟩
    have hi' := exchange_i signed m x
    rw [Speed.Members.loopEvents, if_pos hi, Exchange.events_eq, hk, upToInTime, List.flatMap_cons]
    congr 1
    by_cases hlast : (m.exchange signed x).i ≤ 8
    · rw [ih hlast]
      congr 2
      split at hi' <;> rename_i h
      · rw [if_pos h]
        omega
      · rw [if_neg h]
        omega
    · -- the last iteration counts, so its results are not negative
      have h : x.InTime := by
        by_contra h
        rw [if_neg h] at hi'
        omega
      have hk0 : k = 0 := by
        rw [if_pos h] at hi'
        omega
      obtain ⟨h1, h2⟩ := m.sample_results (As5048a.read signed x.word1.2)
        (As5048a.read signed x.word2.2) x.us
      have hpos1 := As5048a.read_nonneg signed x.word1.2
      have hpos2 := As5048a.read_nonneg signed x.word2.2
      have hbehind : Speed.Members.loopEvents.behind w (m.exchange signed x) = [] := by
        rw [Speed.Members.loopEvents.behind, Speed.Members.exchange, h1, h2, if_neg (by omega)]
      rw [if_pos h, hk0, upToInTime]
      cases xs with
      | nil => rw [Speed.Members.loopEvents, if_neg hlast, hbehind]; rfl
      | cons z xs => rw [Speed.Members.loopEvents, if_neg hlast, hbehind]; rfl

theorem countInTime_cons :
    countInTime (x :: xs) = countInTime xs + if x.InTime then 1 else 0 := by
  simp [countInTime, List.countP_cons]

/-- An exchange is read when less than `n` before it are in time. -/
theorem upToInTime_split :
    (∃ post, upToInTime n xs = pre ++ y :: post) ↔
      (∃ post, xs = pre ++ y :: post) ∧ countInTime pre < n := by
  induction pre generalizing n xs with
  | nil => cases n <;> cases xs <;> simp [upToInTime, countInTime, eq_comm]
  | cons p pre ih =>
    cases n with
    | zero => simp [upToInTime]
    | succ n =>
      cases xs with
      | nil => simp [upToInTime]
      | cons x xs =>
        have hlt : ∀ k, countInTime (x :: k) < n + 1 ↔
            countInTime k < if x.InTime then n else n + 1 := by
          intro k
          rw [countInTime_cons]
          split <;> omega
        rw [upToInTime]
        constructor
        · rintro ⟨post, hpost⟩
          obtain ⟨rfl, htail⟩ := List.cons.inj hpost
          obtain ⟨⟨post', rfl⟩, hcount⟩ := ih.mp ⟨post, htail⟩
          exact ⟨⟨post', rfl⟩, (hlt pre).mpr hcount⟩
        · rintro ⟨⟨post, hpost⟩, hcount⟩
          obtain ⟨rfl, rfl⟩ := List.cons.inj hpost
          obtain ⟨post', htail⟩ := ih.mpr ⟨⟨post, rfl⟩, (hlt pre).mp hcount⟩
          exact ⟨post', congrArg (x :: ·) htail⟩

/-- Up to the exchange in time that is the last one read. -/
theorem upToInTime_eq {post : List Exchange} (hpre : countInTime pre = n) (hy : y.InTime) :
    upToInTime (n + 1) (pre ++ y :: post) = pre ++ [y] := by
  induction pre generalizing n with
  | nil =>
    obtain rfl : 0 = n := hpre
    rw [List.nil_append, upToInTime, if_pos hy, upToInTime]
    rfl
  | cons p pre ih =>
    rw [countInTime_cons] at hpre
    rw [List.cons_append, upToInTime, List.cons_append]
    congr 1
    by_cases hp : p.InTime
    · rw [if_pos hp] at hpre ⊢
      rw [← hpre]
      exact ih rfl
    · rw [if_neg hp] at hpre ⊢
      exact ih hpre

end Counting

/-! ### When errors are dealt with -/

section Deals

variable {signed : Bool} {w : BitVec 16 × BitVec 16} {x y : Exchange} {xs ys : List Exchange}

/-- The iteration an event is. -/
def Event.iteration? : Event → Option (Exchange × Bool)
  | .transfer _ => none
  | .iteration x counts => some (x, counts)

theorem filterMap_clearError : (clearError w).filterMap Event.iteration? = [] := rfl

theorem filterMap_log :
    (ys.flatMap Exchange.log).filterMap Event.iteration? =
      ys.map fun x => (x, decide x.InTime) := by
  induction ys with
  | nil => rfl
  | cons y ys ih =>
    rw [List.flatMap_cons, List.filterMap_append, ih]
    rfl

/-- In the loop nothing clears the error. -/
theorem not_clears {t : Transfer} (h : .transfer t ∈ ys.flatMap Exchange.log) : ¬ t.Clears := by
  obtain ⟨x, -, hx⟩ := List.mem_flatMap.mp h
  intro hclear
  have hsent := congrArg Transfer.sent hclear
  have hangle : (As5048a.command As5048.cmdAngle).setWidth 16 ≠
      (As5048a.command As5048.cmdClearError).setWidth 16 := by decide
  have hnop : As5048.cmdNop.setWidth 16 ≠
      (As5048a.command As5048.cmdClearError).setWidth 16 := by decide
  simp only [Exchange.log, As5048a.transfers, List.cons_append, List.nil_append, List.map_cons,
    List.map_nil, List.mem_cons, Event.transfer.injEq, reduceCtorEq, List.not_mem_nil,
    or_false] at hx
  rcases hx with rfl | rfl | rfl | rfl
  · exact hangle hsent
  · exact hnop hsent
  · exact hangle hsent
  · exact hnop hsent

/-- The iterations are the exchanges. -/
theorem mem_of_iteration_mem {counts : Bool}
    (h : .iteration x counts ∈ clearError w ++ ys.flatMap Exchange.log) :
    x ∈ ys ∧ counts = decide x.InTime := by
  have hmem : (x, counts) ∈ ys.map fun x => (x, decide x.InTime) := by
    rw [← filterMap_log]
    refine List.mem_filterMap.mpr ⟨.iteration x counts, ?_, rfl⟩
    exact (List.mem_append.mp h).resolve_left (by simp [clearError])
  obtain ⟨z, hz, he⟩ := List.mem_map.mp hmem
  obtain ⟨rfl, rfl⟩ := Prod.mk.inj he
  exact ⟨hz, rfl⟩

/-- An iteration before another is an exchange before another. -/
theorem exists_split_of_pair {counts : Bool} {pre mid post : List Event}
    (h : clearError w ++ ys.flatMap Exchange.log =
      pre ++ .iteration x counts :: mid ++ .iteration y true :: post) :
    ∃ a b c, ys = a ++ b ++ y :: c ∧ x ∈ a ∧ y.InTime := by
  have hsub : [(x, counts), (y, true)].Sublist (ys.map fun x => (x, decide x.InTime)) := by
    have hall := congrArg (List.filterMap Event.iteration?) h
    rw [List.filterMap_append, filterMap_clearError, filterMap_log, List.nil_append] at hall
    rw [hall]
    have hpair : [Event.iteration x counts, .iteration y true].Sublist
        (pre ++ .iteration x counts :: mid ++ .iteration y true :: post) :=
      List.Sublist.append (List.singleton_sublist.mpr (by simp))
        (List.singleton_sublist.mpr (by simp))
    exact hpair.filterMap Event.iteration?
  obtain ⟨zs, hzs, he⟩ := List.sublist_map_iff.mp hsub
  obtain ⟨x', y', rfl⟩ : ∃ x' y', zs = [x', y'] := by
    refine List.length_eq_two.mp ?_
    simpa using (congrArg List.length he).symm
  simp only [List.map_cons, List.map_nil, List.cons.injEq, Prod.mk.injEq, and_true] at he
  obtain ⟨⟨rfl, -⟩, rfl, hy⟩ := he
  obtain ⟨r₁, r₂, rfl, hx, hy'⟩ :=
    List.append_sublist_iff.mp (show ([x] ++ [y]).Sublist ys from hzs)
  obtain ⟨b, c, rfl⟩ := List.append_of_mem (List.singleton_sublist.mp hy')
  refine ⟨r₁, b, c, by simp, List.singleton_sublist.mp hx, of_decide_eq_true hy.symm⟩

/-- **When the errors in the exchanges of a call are dealt with**: when no exchange in time is, or
comes behind, one with an error. -/
theorem dealsWithErrors_iff_log :
    DealsWithErrors signed (clearError w ++ ys.flatMap Exchange.log) ↔
      ∀ pre y post, ys = pre ++ y :: post → y.InTime → ∀ x ∈ pre ++ [y], ¬ x.Error signed := by
  constructor
  · rintro h pre y post rfl hy x hx herr
    rcases List.mem_append.mp hx with hx | hx
    · -- the error comes first, and nothing clears it
      obtain ⟨a, b, rfl⟩ := List.append_of_mem hx
      obtain ⟨t, ht, hclears⟩ := h.cleared
        (clearError w ++ a.flatMap Exchange.log ++ x.log.dropLast) x (decide x.InTime)
        (b.flatMap Exchange.log ++ y.log.dropLast) y (post.flatMap Exchange.log)
        (by simp [Exchange.log, hy]) herr
      have hmem : .transfer t ∈ (b ++ [y]).flatMap Exchange.log := by
        rw [List.flatMap_append]
        rcases List.mem_append.mp ht with ht | ht
        · exact List.mem_append_left _ ht
        · refine List.mem_append_right _ ?_
          simpa using List.mem_of_mem_dropLast ht
      exact not_clears hmem hclears
    · obtain rfl := List.mem_singleton.mp hx
      have hno := h.excluded x (decide x.InTime) (by simp [Exchange.log]) herr
      exact of_decide_eq_false hno hy
  · intro h
    constructor
    · intro x counts hx herr
      obtain ⟨hmem, rfl⟩ := mem_of_iteration_mem hx
      obtain ⟨pre, post, rfl⟩ := List.append_of_mem hmem
      refine decide_eq_false fun hy => ?_
      exact h pre x post rfl hy x (by simp) herr
    · intro pre x counts mid y post hes herr
      -- such a pair would stand in the list of exchanges too
      exfalso
      obtain ⟨a, b, c, rfl, hx, hy⟩ := exists_split_of_pair hes
      exact h (a ++ b) y c rfl hy x (by simp [hx]) herr

theorem events_eq_log {w' : BitVec 16 × BitVec 16} {m : Speed.Members} :
    m.events signed w w' xs = clearError w ++ (upToInTime 8 xs).flatMap Exchange.log := by
  rw [Speed.Members.events, loopEvents_eq (show 1 ≤ 8 by omega)]
  rfl

/-- **When `Speed::Run` deals with the errors of the sensor**: when none of the first eight
exchanges in time is, or comes behind, an exchange with an error. -/
theorem dealsWithErrors_iff (signed : Bool) (m : Speed.Members) (w w' : BitVec 16 × BitVec 16)
    (xs : List Exchange) :
    DealsWithErrors signed (m.events signed w w' xs) ↔
      ∀ pre y post, xs = pre ++ y :: post → y.InTime → countInTime pre < 8 →
        ∀ x ∈ pre ++ [y], ¬ x.Error signed := by
  rw [events_eq_log, dealsWithErrors_iff_log]
  constructor
  · intro h pre y post hxs hy hcount
    obtain ⟨post', hread⟩ := upToInTime_split.mpr ⟨⟨post, hxs⟩, hcount⟩
    exact h pre y post' hread hy
  · intro h pre y post hread hy
    obtain ⟨⟨post', hxs⟩, hcount⟩ := upToInTime_split.mp ⟨post, hread⟩
    exact h pre y post' hxs hy hcount

/-- In a call that comes to its end no response with an error may be used at all. -/
theorem dealsWithErrors_iff_of_complete {m : Speed.Members} {w' : BitVec 16 × BitVec 16}
    {pre post : List Exchange} (hpre : countInTime pre = 7) (hy : y.InTime) :
    DealsWithErrors signed (m.events signed w w' (pre ++ y :: post)) ↔
      ∀ x ∈ pre ++ [y], ¬ x.Error signed := by
  rw [events_eq_log, upToInTime_eq hpre hy, dealsWithErrors_iff_log]
  constructor
  · intro h
    exact h pre y [] rfl hy
  · intro h a z b hsplit hz x hx
    refine h x ?_
    rw [hsplit]
    rcases List.mem_append.mp hx with hx | hx
    · exact List.mem_append_left _ hx
    · rw [List.mem_singleton.mp hx]
      exact List.mem_append_right _ (List.mem_cons_self ..)

/-- The error flag in the first response used, and 1.5 ms between the results of every sample: the
sample counts. -/
theorem error_counts : ¬ ∀ (signed : Bool) (m : Speed.Members) (w w' : BitVec 16 × BitVec 16)
    (xs : List Exchange), DealsWithErrors signed (m.events signed w w' xs) := by
  intro h
  have hlaw := h false .new (0, 0) (0, 0)
    (⟨(0, 0x4000), (0, 0), 1500⟩ :: List.replicate 7 ⟨(0, 0), (0, 0), 1500⟩)
  have hcounts := hlaw.excluded ⟨(0, 0x4000), (0, 0), 1500⟩ true (by decide +kernel) (by decide)
  cases hcounts

end Deals

end Vehicle.Recovery
