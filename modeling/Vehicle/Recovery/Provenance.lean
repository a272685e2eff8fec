import Vehicle.Trace.Register
import Vehicle.Recovery.Announce
import Vehicle.Recovery.Measure

/-!
# recovery: whose data the controllers act on

The value a controller evaluates its PID on should be one of the part that has announced it, of the
cycle of the announcement or a later one (`FromAnnouncer`). It is so for the speed as long as no
message of the remote part overwrites it (`fromAnnouncer_iff`), and never for the two members the
camera announces: the camera stores to neither of them.

Members and flags are registers, so the value loaded is that of the last store, and who may have
made it is read off the statements (`stores_owner`).
-/

namespace Vehicle.Recovery

open Vehicle.Trace Vehicle.Trace.Cyclic

/-! ### The value announced -/

/-- What a label stores in a `double` member. -/
def Label.storesDatum (d : Datum) : Label → Option ℚ
  | .part _ a => a.stores.bind fun x => if x.1 = d then some x.2 else none
  | _ => none

@[simp]
theorem storesDatum_storeSpeed (p : PartType) (x : ℚ) :
    (Label.part p (.storeSpeed x)).storesDatum .speed = some x := rfl

@[simp]
theorem storesDatum_storeRoot (p : PartType) (d : Datum) (x : ℚ) :
    (Label.part p (.storeRoot d x)).storesDatum d = some x := by
  simp [Label.storesDatum, Act.stores]

/-- What a label stores in `is_new_data[d]`. -/
def Label.storesNew (d : Fin 6) : Label → Option Bool
  | .part _ (.storeNew e b) => if e = d then some b else none
  | _ => none

/-- **The value is the announcer's**: the last store to the member before the load, at `w`, stores
the value loaded and is the announcer's, of the cycle of the announcement seen, at `a`, or of a
later one. -/
def FromAnnouncer (c : Announcement) (tr : List Label) (k n : ℕ) (x : ℚ) : Prop :=
  ∃ w a, LastStore (Label.storesDatum c.datum) tr w n x ∧
    (∃ b, tr[w]? = some (.part c.announcer b)) ∧
    LastStore (Label.storesNew c.flag) tr a k true ∧
    cycle c.announcer tr a ≤ cycle c.announcer tr w

/-- Every speed the remote part stores before position `n` has been replaced by one of the speed
sensor. -/
def Replaced (tr : List Label) (n : ℕ) : Prop :=
  ∀ r y, r < n → tr[r]? = some (.part .remote (.storeRoot .speed y)) →
    ∃ w z, r < w ∧ w < n ∧ tr[w]? = some (.part .speed (.storeSpeed z))

/-! ### Members and flags as registers -/

theorem data_write (p : PartType) (s : State) (a : Act) (d : Datum) :
    (a.write p s).data d = ((Label.part p a).storesDatum d).getD (s.data d) := by
  cases a with
  | storeSpeed x | storeDirection x | storeRoot e x =>
    simp only [Act.write, State.setDatum, Label.storesDatum, Act.stores, Option.bind_some,
      Function.update_apply, eq_comm (a := d)]
    split <;> rfl
  | storeNeed | storeAverage x => cases hp : p.cell <;> simp only [Act.write, hp] <;> rfl
  | _ => rfl

theorem isNewData_write (p : PartType) (s : State) (a : Act) (d : Fin 6) :
    (a.write p s).isNewData d = ((Label.part p a).storesNew d).getD (s.isNewData d) := by
  cases a with
  | storeNew e b =>
    simp only [Act.write, State.setNew, Label.storesNew, Function.update_apply, eq_comm (a := d)]
    split <;> rfl
  | storeNeed | storeAverage x => cases hp : p.cell <;> simp only [Act.write, hp] <;> rfl
  | _ => rfl

/-- A `double` member. -/
def datumRegister (handled : Bool) (d : Datum) : Register (system handled) ℚ where
  get s := s.state.data d
  store := Label.storesDatum d
  get_step := by
    intro s a t hs
    cases a with
    | part p b =>
      obtain ⟨l, k, -, -, -, hst, -, -⟩ := part_step hs
      rw [hst, data_write]
    | _ =>
      obtain ⟨-, rfl⟩ := step_iff.mp hs
      rfl

/-- A cell of `is_new_data`. -/
def newRegister (handled : Bool) (d : Fin 6) : Register (system handled) Bool where
  get s := s.state.isNewData d
  store := Label.storesNew d
  get_step := by
    intro s a t hs
    cases a with
    | part p b =>
      obtain ⟨l, k, -, -, -, hst, -, -⟩ := part_step hs
      rw [hst, isNewData_write]
    | _ =>
      obtain ⟨-, rfl⟩ := step_iff.mp hs
      rfl

/-! ### Who stores -/

/-- The part in whose member functions a store to a `double` member, or of `true` to a flag,
stands. -/
def Instr.owner : Instr → Option PartType
  | .storeSpeed => some .speed
  | .storeDirection => some .servoPID
  | .storeRoot _ => some .remote
  | .storeNew 0 true => some .speed
  | .storeNew 1 true | .storeNew 2 true => some .camera
  | .storeNew _ true => some .remote
  | _ => none

section Run

variable {handled : Bool} {s : Sys} {tr : List Label} {p : PartType} {a : Act} {n : ℕ}

/-- **Who stores**: a store that has an owner is made by it. -/
theorem owner_eq (h : (system handled).Run Sys.init tr s) (hn : tr[n]? = some (.part p a))
    {q : PartType} (ho : a.instr.owner = some q) : p = q := by
  have hall : ∀ p, ∀ i ∈ runALL p, ∀ q, i.owner = some q → p = q := by decide +kernel
  exact hall p a.instr (instr_mem h hn) q ho

/-- The stores to a `double` member. -/
theorem stores_owner (h : (system handled).Run Sys.init tr s) (hn : tr[n]? = some (.part p a))
    {d : Datum} {x : ℚ} (hs : a.stores = some (d, x)) :
    (p = .speed ∧ a = .storeSpeed x) ∨ (p = .servoPID ∧ d = .direction) ∨
      (p = .remote ∧ a = .storeRoot d x) := by
  cases a with
  | storeSpeed y =>
    obtain ⟨-, rfl⟩ := Prod.mk.inj (Option.some.inj hs)
    exact Or.inl ⟨owner_eq h hn rfl, rfl⟩
  | storeDirection y =>
    obtain ⟨rfl, -⟩ := Prod.mk.inj (Option.some.inj hs)
    exact Or.inr (Or.inl ⟨owner_eq h hn rfl, rfl⟩)
  | storeRoot e y =>
    obtain ⟨rfl, rfl⟩ := Prod.mk.inj (Option.some.inj hs)
    exact Or.inr (Or.inr ⟨owner_eq h hn rfl, rfl⟩)
  | _ => cases hs

theorem storesDatum_eq_some {b : Label} {d : Datum} {x : ℚ} (h : b.storesDatum d = some x) :
    ∃ p a, b = .part p a ∧ a.stores = some (d, x) := by
  cases b with
  | part p a =>
    refine ⟨p, a, rfl, ?_⟩
    obtain ⟨⟨e, y⟩, hs, hy⟩ := Option.bind_eq_some_iff.mp h
    split at hy
    case isTrue he => rw [hs, ← Option.some.inj hy, show e = d from he]
    case isFalse => cases hy
  | _ => cases h

theorem storesNew_eq_some {b : Label} {d : Fin 6} {v : Bool} (h : b.storesNew d = some v) :
    ∃ p, b = .part p (.storeNew d v) := by
  unfold Label.storesNew at h
  split at h
  case h_1 p e c =>
    split at h
    case isTrue he => exact ⟨p, by rw [← Option.some.inj h, he]⟩
    case isFalse => cases h
  case h_2 => cases h

/-- Who has stored the present value of a `double` member. -/
theorem lastStore_cases (h : (system handled).Run Sys.init tr s) {w : ℕ} {d : Datum} {x : ℚ}
    (hw : LastStore (Label.storesDatum d) tr w n x) :
    tr[w]? = some (.part .speed (.storeSpeed x)) ∨
      (d = .direction ∧ ∃ b, tr[w]? = some (.part .servoPID b)) ∨
      tr[w]? = some (.part .remote (.storeRoot d x)) := by
  obtain ⟨b, hb, hs⟩ := hw.stored
  obtain ⟨p, a, rfl, hstore⟩ := storesDatum_eq_some hs
  rcases stores_owner h hb hstore with ⟨rfl, rfl⟩ | ⟨rfl, hd⟩ | ⟨rfl, rfl⟩
  · exact Or.inl hb
  · exact Or.inr (Or.inl ⟨hd, a, hb⟩)
  · exact Or.inr (Or.inr hb)

/-- **The camera stores to no `double` member.** -/
theorem camera_stores (h : (system handled).Run Sys.init tr s) {w : ℕ} {d : Datum} {x : ℚ}
    (hw : LastStore (Label.storesDatum d) tr w n x) : ¬ ∃ b, tr[w]? = some (.part .camera b) := by
  rintro ⟨b, hb⟩
  rcases lastStore_cases h hw with hb' | ⟨-, b', hb'⟩ | hb'
  · cases hb.symm.trans hb'
  · cases hb.symm.trans hb'
  · cases hb.symm.trans hb'

/-- **The flag seen** has been raised by its announcer. -/
theorem exists_announced (h : (system handled).Run Sys.init tr s) {d : Fin 6}
    (hn : tr[n]? = some (.part p a)) (hsee : a.sees = some d) :
    ∃ m, LastStore (Label.storesNew d) tr m n true := by
  obtain ⟨u, v, hr, hs⟩ := h.at_event hn
  obtain ⟨l, k, -, -, hag, -⟩ := part_step hs
  have hflag : u.state.isNewData d = true := by
    cases a with
    | testOld e b | testOldAnd e b | testAndOld c e b =>
      cases b with
      | false => cases hsee
      | true =>
        obtain rfl := Option.some.inj hsee
        exact (show true = _ from hag).symm
    | _ => cases hsee
  rcases (newRegister handled d).content_take hr (lt_length hn).le with ⟨-, hinit⟩ | ⟨m, hm⟩
  · rw [show (newRegister handled d).get u = true from hflag] at hinit
    cases hinit
  · rw [show (newRegister handled d).get u = true from hflag] at hm
    exact ⟨m, hm⟩

end Run

/-! ### When the value is the announcer's -/

section Evaluation

variable {handled : Bool} {s : Sys} {tr : List Label} {k n m : ℕ} {x : ℚ}

/-- The value loaded is the one stored last, if any was. -/
theorem Evaluation.lastStore {c : Announcement} (h : (system handled).Run Sys.init tr s)
    (he : Evaluation c tr k n m x) {w : ℕ} {b : Label} (hw : tr[w]? = some b) (hlt : w < n)
    (hs : b.storesDatum c.datum ≠ none) :
    ∃ w, LastStore (Label.storesDatum c.datum) tr w n x := by
  obtain ⟨u, v, hr, hst⟩ := h.at_event he.load
  obtain ⟨l, j, -, -, ⟨-, -, hx⟩, -⟩ := part_step hst
  rcases (datumRegister handled c.datum).content_take hr (lt_length he.load).le with
    ⟨hno, -⟩ | ⟨w', hw'⟩
  · refine absurd (hno b ?_) hs
    rw [← List.getElem?_take_of_lt hlt] at hw
    exact List.mem_of_getElem? hw
  · rw [show (datumRegister handled c.datum).get u = x from hx.symm] at hw'
    exact ⟨w', hw'⟩

/-- **The speed is the announced one** when every speed the remote part has stored has been
replaced. -/
theorem Evaluation.fromAnnouncer (h : (system handled).Run Sys.init tr s)
    (he : Evaluation .speed tr k n m x) (hrep : Replaced tr n) : FromAnnouncer .speed tr k n x := by
  obtain ⟨b, hb, hsee⟩ := he.sees
  obtain ⟨a, ha⟩ := exists_announced h hb hsee
  -- the sensor has stored a speed in the cycle of the announcement
  obtain ⟨b', hb', hs⟩ := ha.stored
  obtain ⟨p, rfl⟩ := storesNew_eq_some hs
  obtain rfl : p = .speed := owner_eq h hb' rfl
  obtain ⟨w₀, y, hlt, hw₀, hcyc⟩ := announces_stored h hb'
  have hbefore := ha.before
  have horder := he.order
  obtain ⟨w, hw⟩ := he.lastStore h hw₀ (by omega) (by simp [Announcement.datum])
  have hle : w₀ ≤ w :=
    hw.le hw₀ (by simp [Announcement.datum]) (by omega)
  refine ⟨w, a, hw, ?_, ha, ?_⟩
  · -- the last store is not the remote part's
    rcases lastStore_cases h hw with hb | ⟨hd, -⟩ | hb
    · exact ⟨_, hb⟩
    · cases hd
    · obtain ⟨w', z, hlt', hn, hw'⟩ := hrep w x hw.before hb
      have hle' := hw.le hw' (by simp [Announcement.datum]) hn
      omega
  · calc cycle .speed tr a = cycle .speed tr w₀ := hcyc.symm
      _ ≤ cycle .speed tr w := cycle_mono hle

/-- What the speed sensor has stored replaces the speeds stored before. -/
theorem FromAnnouncer.replaced (h : (system handled).Run Sys.init tr s)
    (hf : FromAnnouncer .speed tr k n x) : Replaced tr n := by
  obtain ⟨w, a, hw, ⟨b, hb⟩, -, -⟩ := hf
  intro r y hr hremote
  have hle : r ≤ w := hw.le hremote (by simp [Announcement.datum]) hr
  rcases lastStore_cases h hw with hs | ⟨hd, -⟩ | hs
  · refine ⟨w, x, ?_, hw.before, hs⟩
    rcases hle.lt_or_eq with hlt | rfl
    · exact hlt
    · cases hs.symm.trans hremote
  · cases hd
  · cases hb.symm.trans hs

/-- **Which evaluations act on the data announced**: those of `ThrottlePID` after the announcement
of the speed, as long as every speed the remote part has stored before the load has been replaced by
one of the speed sensor. -/
theorem fromAnnouncer_iff {c : Announcement} (h : (system handled).Run Sys.init tr s)
    (he : Evaluation c tr k n m x) :
    FromAnnouncer c tr k n x ↔ c = .speed ∧ Replaced tr n := by
  constructor
  · intro hf
    cases c with
    | speed => exact ⟨rfl, hf.replaced h⟩
    | direction | targetSpeed =>
      obtain ⟨w, a, hw, hcam, -, -⟩ := hf
      exact absurd hcam (camera_stores h hw)
  · rintro ⟨rfl, hrep⟩
    exact he.fromAnnouncer h hrep

end Evaluation

/-- The remote part stores a member. -/
def Label.storesRoot : Label → Bool
  | .part .remote (.storeRoot _ _) => true
  | _ => false

/-- In the first lap `ThrottlePID` acts on the speed announced. -/
theorem fromAnnouncer_firstLap : ∃ tr s k n m x, (system true).Run Sys.init tr s ∧
    Evaluation .speed tr k n m x ∧ FromAnnouncer .speed tr k n x := by
  obtain ⟨s, hr, -⟩ := (system true).exists_run (s := Sys.init) firstLap
    (P := fun _ => True) (by decide +kernel)
  have he : Evaluation .speed firstLap 49 54 56 0 :=
    ⟨⟨_, rfl, rfl⟩, rfl, ⟨_, rfl⟩, by decide, FreeBetween.of_forall (by decide)⟩
  -- the remote part has executed nothing
  have hremote : Replaced firstLap 54 := by
    intro r y _ hr
    have hall : ∀ b ∈ firstLap, b.storesRoot = false := by decide
    cases hall _ (List.mem_of_getElem? hr)
  exact ⟨firstLap, s, 49, 54, 56, 0, hr, he, (fromAnnouncer_iff hr he).mpr ⟨rfl, hremote⟩⟩

/-- In the first lap `ServoPID` acts on a direction nobody has stored. -/
theorem unannounced_direction : ∃ tr s k n m x, (system true).Run Sys.init tr s ∧
    Evaluation .direction tr k n m x ∧ ¬ FromAnnouncer .direction tr k n x := by
  obtain ⟨s, hr, -⟩ := (system true).exists_run (s := Sys.init) firstLap
    (P := fun _ => True) (by decide +kernel)
  refine ⟨firstLap, s, 37, 41, 42, 0, hr, ?_, ?_⟩
  · exact ⟨⟨_, rfl, rfl⟩, rfl, ⟨_, rfl⟩, by decide, FreeBetween.of_forall (by decide)⟩
  · rintro ⟨w, a, hw, hcam, -, -⟩
    exact camera_stores hr hw hcam

end Vehicle.Recovery
