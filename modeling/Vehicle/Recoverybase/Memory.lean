import Mathlib.Tactic.FinCases
import Vehicle.Posix.Record
import Vehicle.Recoverybase.System
import Vehicle.Trace.Register

/-!
# recoverybase: the State in shared memory

`share.h`, `share.cpp` and `Car::InitState` of the recoverybase program, on the level of the shared
memory object. Here a part opens the object as it is, so every attach maps the whole of the State
that `Car::InitState` has set up, and no process can tell the bytes from a record of independent
members, whatever object an earlier run has left and whoever still writes to it (`memory_run_iff`).
-/

namespace Vehicle.Recoverybase

open Vehicle.Trace Vehicle.Posix

/-! ### The State in memory -/

/-- The types of the members of `State`, and the size of a page. -/
structure Abi where
  int : CType
  double : CType
  bool : CType
  suseconds : CType
  timeval : CType
  pageSize : ℕ
  pageSize_pos : 0 < pageSize

/-- The data members of the class `State`, arrays element by element. -/
inductive Field
  | times
  | speed
  | direction
  | targetSpeed
  | targetDirection
  | isNewData (d : Fin 3)
  | stage (p : PartType)
  | needCompulsiveCheckpoint (p : PartType)
  | averageTimePerCycle (p : PartType)
  | lastUnitCheckpoint (p : PartType)
  deriving DecidableEq

/-- The number of a member, in the order of declaration. -/
def Field.index : Field → ℕ
  | .times => 0
  | .speed => 1
  | .direction => 2
  | .targetSpeed => 3
  | .targetDirection => 4
  | .isNewData d => 5 + d
  | .stage p => 8 + p.idx
  | .needCompulsiveCheckpoint p => 11 + p.idx
  | .averageTimePerCycle p => 14 + p.idx
  | .lastUnitCheckpoint p => 17 + p.idx

/-- The type of a member. -/
def Abi.type (abi : Abi) : Field → CType
  | .times => abi.int
  | .speed | .direction | .targetSpeed | .targetDirection => abi.double
  | .isNewData _ | .stage _ | .needCompulsiveCheckpoint _ => abi.bool
  | .averageTimePerCycle _ => abi.suseconds
  | .lastUnitCheckpoint _ => abi.timeval

theorem PartType.idx_injective : Function.Injective PartType.idx := by
  intro p q h
  cases p <;> cases q <;> first | rfl | exact absurd h (by decide)

theorem Field.index_injective : Function.Injective Field.index := by
  intro f g h
  cases f <;> cases g <;> simp only [Field.index] at h <;> first
    | rfl
    | (exfalso; omega)
    | exact congrArg _ (Fin.ext (by omega))
    | exact congrArg _ (PartType.idx_injective (Fin.ext (by omega)))

/-- The class `State`. -/
def Abi.state (abi : Abi) : Record Field where
  members := [abi.int] ++ List.replicate 4 abi.double ++ List.replicate 3 abi.bool ++
    List.replicate 3 abi.bool ++ List.replicate 3 abi.bool ++ List.replicate 3 abi.suseconds ++
    List.replicate 3 abi.timeval
  type := abi.type
  index := Field.index
  getElem?_index f := by
    cases f with
    | isNewData d => fin_cases d <;> rfl
    | stage p | needCompulsiveCheckpoint p => cases p <;> rfl
    | averageTimePerCycle p | lastUnitCheckpoint p => cases p <;> rfl
    | _ => rfl
  index_injective := Field.index_injective

/-- How values are represented. `Car::InitState` leaves `last_unit_checkpoint` as the zeros it is
made of. -/
structure Encoding (abi : Abi) where
  int : ℤ → Vector UInt8 abi.int.size
  double : ℚ → Vector UInt8 abi.double.size
  bool : Bool → Vector UInt8 abi.bool.size
  suseconds : ℤ → Vector UInt8 abi.suseconds.size
  timeval : Timeval → Vector UInt8 abi.timeval.size
  timeval_zero : timeval ⟨0, 0⟩ = Vector.replicate abi.timeval.size 0

/-- The representation of a State. -/
def Encoding.state {abi : Abi} (E : Encoding abi) (s : State) : abi.state.Content
  | .times => E.int s.times
  | .speed => E.double s.speed
  | .direction => E.double s.direction
  | .targetSpeed => E.double s.targetSpeed
  | .targetDirection => E.double s.targetDirection
  | .isNewData d => E.bool (s.isNewData d)
  | .stage p => E.bool (s.stage p)
  | .needCompulsiveCheckpoint p => E.bool (s.needCompulsiveCheckpoint p)
  | .averageTimePerCycle p => E.suseconds (s.averageTimePerCycle p)
  | .lastUnitCheckpoint p => E.timeval (s.lastUnitCheckpoint p)

/-! ### The program -/

/-- The processes and the shared memory; the process `none` is the manager. What an attach has
returned is `none` for `MAP_FAILED`; `dead` lists the processes a fault has ended. -/
structure World where
  shm : Shm
  returned : Option PartType → Option (Option Mapping)
  dead : List (Option PartType)

/-- `State::ShareMemoryInit`: `mmap` of `st_size` bytes of the object, which must be there. -/
def State.shareMemoryInit (s : Shm) : Option Mapping × Shm :=
  match s.shmOpen ⟨false, false⟩ with
  | (some fd, s) => (mmap fd (s.fstatSize fd), s)
  | (none, s) => (none, s)

/-- `State::ShareMemoryInitCar`. -/
def State.shareMemoryInitCar (abi : Abi) (s : Shm) : Option Mapping × Shm :=
  match s.unlink.shmOpen ⟨true, true⟩ with
  | (some fd, s) => (mmap fd abi.state.size, s.ftruncate fd abi.state.size)
  | (none, s) => (none, s)

namespace World

/-- The process has attached, and runs. -/
def Attached (w : World) (q : Option PartType) : Prop :=
  (w.returned q).isSome = true ∧ q ∉ w.dead

instance (w : World) (q : Option PartType) : Decidable (w.Attached q) :=
  inferInstanceAs (Decidable ((w.returned q).isSome = true ∧ q ∉ w.dead))

/-- What process `q` loads from a member; `none` is a fault. -/
def load (abi : Abi) (w : World) (q : Option PartType) (f : Field) : Option (List UInt8) :=
  (w.returned q).join.bind fun m =>
    m.load abi.pageSize (abi.state.offset f) (abi.state.type f).size w.shm

/-- A store of process `q` to a member; a fault ends it. -/
def store (abi : Abi) (w : World) (q : Option PartType) (f : Field) (data : List UInt8) : World :=
  match (w.returned q).join.bind fun m => m.store abi.pageSize (abi.state.offset f) data w.shm with
  | some s => { w with shm := s }
  | none => { w with dead := q :: w.dead }

end World

section Program

variable {abi : Abi} (E : Encoding abi)

/-- The stores of `Car::InitState`. -/
def Car.initStores : List ((f : Field) × Vector UInt8 (abi.state.type f).size) :=
  [⟨.times, E.int 0⟩, ⟨.speed, E.double 0⟩, ⟨.direction, E.double 0⟩, ⟨.targetSpeed, E.double 0⟩,
    ⟨.targetDirection, E.double 0⟩, ⟨.isNewData 0, E.bool false⟩, ⟨.isNewData 1, E.bool false⟩,
    ⟨.isNewData 2, E.bool false⟩, ⟨.stage .camera, E.bool (toBool 1)⟩,
    ⟨.stage .speed, E.bool (toBool 1)⟩, ⟨.stage .servoPID, E.bool (toBool 1)⟩,
    ⟨.needCompulsiveCheckpoint .camera, E.bool false⟩,
    ⟨.needCompulsiveCheckpoint .speed, E.bool false⟩,
    ⟨.needCompulsiveCheckpoint .servoPID, E.bool false⟩,
    ⟨.averageTimePerCycle .camera, E.suseconds 0⟩, ⟨.averageTimePerCycle .speed, E.suseconds 0⟩,
    ⟨.averageTimePerCycle .servoPID, E.suseconds 0⟩]

/-- **`Car::InitState`**, from what an earlier run has left. -/
def Car.initState (prior : Shm) : World :=
  let r := State.shareMemoryInitCar abi prior
  (Car.initStores E).foldl (fun w x => w.store abi none x.1 x.2.toList)
    ⟨r.2, fun q => if q = none then some r.1 else none, []⟩

end Program

/-- What happens after `Car::InitState`. -/
inductive Op (abi : Abi)
  /-- the constructor of a part attaches -/
  | construct (p : PartType)
  | load (q : Option PartType) (f : Field) (v : Vector UInt8 (abi.state.type f).size)
  | store (q : Option PartType) (f : Field) (v : Vector UInt8 (abi.state.type f).size)
  /-- a process of an earlier run stores through a mapping it has -/
  | earlier (m : Mapping) (off : ℕ) (data : List UInt8)

/-- An operation, where the objects before `o` are those of earlier runs. -/
def World.step {abi : Abi} (o : ℕ) (w : World) : Op abi → Option World
  | .construct p =>
    let r := State.shareMemoryInit w.shm
    some ⟨r.2, Function.update w.returned (some p) (some r.1), w.dead⟩
  | .load q f v =>
    if w.Attached q then
      match w.load abi q f with
      | some b => if b = v.toList then some w else none
      | none => some { w with dead := q :: w.dead }
    else none
  | .store q f v => if w.Attached q then some (w.store abi q f v.toList) else none
  | .earlier m off data =>
    if m.object < o then some { w with shm := (m.store abi.pageSize off data w.shm).getD w.shm }
    else none

/-- **The processes on the shared memory object.** -/
def memory {abi : Abi} (E : Encoding abi) (prior : Shm) : Lts World (Op abi) where
  init w := w = Car.initState E prior
  step := World.step prior.next

/-! ### The record -/

/-- The members, and the processes that have attached. -/
structure Members (abi : Abi) where
  value : abi.state.Content
  attached : Option PartType → Bool

/-- An operation on the members. -/
def Members.step {abi : Abi} (o : ℕ) (r : Members abi) : Op abi → Option (Members abi)
  | .construct p => some { r with attached := Function.update r.attached (some p) true }
  | .load q f v => if r.attached q = true ∧ r.value f = v then some r else none
  | .store q f v =>
    if r.attached q = true then some { r with value := Function.update r.value f v } else none
  | .earlier m _ _ => if m.object < o then some r else none

/-- The members as `Car::InitState` sets them. -/
def Members.init {abi : Abi} (E : Encoding abi) : Members abi :=
  ⟨E.state initState, fun q => decide (q = none)⟩

/-- **The same processes on a record.** -/
def members {abi : Abi} (E : Encoding abi) (prior : Shm) : Lts (Members abi) (Op abi) where
  init r := r = Members.init E
  step := Members.step prior.next

/-! ### The object holds the members -/

/-- The object `o` holds the members, every attach has returned all of it, and no process has come
to a fault. -/
structure Whole {abi : Abi} (o : ℕ) (r : Members abi) (w : World) : Prop where
  named : w.shm.named = some o
  holds : Holds abi.state w.shm o r.value
  returned : ∀ q, w.returned q =
    if r.attached q = true then some (some ⟨o, abi.state.size⟩) else none
  dead : w.dead = []

theorem size_state_pos (abi : Abi) : 0 < abi.state.size := by
  have hle := abi.state.offset_add_size_le .times
  have hpos := (abi.state.type .times).size_pos
  omega

section Whole

variable {abi : Abi} {o : ℕ} {r : Members abi} {w : World} {q : Option PartType} {f : Field}

theorem Whole.attached_iff (h : Whole o r w) : w.Attached q ↔ r.attached q = true := by
  rw [World.Attached, h.returned, h.dead]
  by_cases hq : r.attached q = true
  · simp [hq]
  · simp [hq]

/-- A process finds in a member what is there. -/
theorem Whole.load (h : Whole o r w) (hq : r.attached q = true) (f : Field) :
    w.load abi q f = some (r.value f).toList := by
  rw [World.load, h.returned, if_pos hq]
  exact h.holds.load abi.pageSize_pos f

/-- A store changes its member. -/
theorem Whole.store (h : Whole o r w) (hq : r.attached q = true)
    (v : Vector UInt8 (abi.state.type f).size) :
    Whole o { r with value := Function.update r.value f v } (w.store abi q f v.toList) := by
  obtain ⟨t, ht, hnamed, -, hholds⟩ := h.holds.store abi.pageSize_pos f v
  have hst : ((w.returned q).join.bind fun m =>
      m.store abi.pageSize (abi.state.offset f) v.toList w.shm) = some t := by
    rw [h.returned, if_pos hq]
    exact ht
  have hw : w.store abi q f v.toList = { w with shm := t } := by
    unfold World.store
    rw [hst]
  rw [hw]
  exact ⟨hnamed.trans h.named, hholds, h.returned, h.dead⟩

/-- **An attach** maps all of the object, and leaves it as it is. -/
theorem Whole.construct (h : Whole o r w) (p : PartType) :
    Whole o { r with attached := Function.update r.attached (some p) true }
      ⟨(State.shareMemoryInit w.shm).2,
        Function.update w.returned (some p) (some (State.shareMemoryInit w.shm).1), w.dead⟩ := by
  have hopen : State.shareMemoryInit w.shm = (some ⟨o, abi.state.size⟩, w.shm) := by
    have hne : abi.state.size ≠ 0 := (size_state_pos abi).ne'
    simp [State.shareMemoryInit, Shm.shmOpen, h.named, Shm.fstatSize, h.holds.length, mmap, hne]
  rw [hopen]
  refine ⟨h.named, h.holds, fun q => ?_, h.dead⟩
  by_cases hq : q = some p
  · subst hq
    simp
  · simp [Function.update_of_ne hq, h.returned]

/-- What an earlier run maps is another object. -/
theorem Whole.earlier {m : Mapping} {off : ℕ} {data : List UInt8} (h : Whole o r w)
    (hm : m.object < o) :
    Whole o r { w with shm := (m.store abi.pageSize off data w.shm).getD w.shm } := by
  cases hst : m.store abi.pageSize off data w.shm with
  | none => exact h
  | some t =>
    unfold Mapping.store at hst
    split at hst
    · cases hst
      exact ⟨h.named, h.holds.setBytes (Nat.ne_of_gt hm) _, h.returned, h.dead⟩
    · cases hst

/-- **An operation** does to the object what it does to the members. -/
theorem Whole.step (h : Whole o r w) (op : Op abi) :
    (w.step o op = none ∧ r.step o op = none) ∨
      ∃ w' r', w.step o op = some w' ∧ r.step o op = some r' ∧ Whole o r' w' := by
  cases op with
  | construct p => exact Or.inr ⟨_, _, rfl, rfl, h.construct p⟩
  | load q f v =>
    by_cases hq : r.attached q = true
    · have hw : w.step o (.load q f v) =
          if (r.value f).toList = v.toList then some w else none := by
        simp only [World.step, if_pos (h.attached_iff.mpr hq), h.load hq]
      by_cases hv : r.value f = v
      · refine Or.inr ⟨w, r, ?_, if_pos ⟨hq, hv⟩, h⟩
        rw [hw, if_pos (by rw [hv])]
      · refine Or.inl ⟨?_, if_neg fun hr => hv hr.2⟩
        rw [hw, if_neg fun he => hv (Vector.toList_inj.mp he)]
    · exact Or.inl ⟨if_neg fun ha => hq (h.attached_iff.mp ha), if_neg fun hr => hq hr.1⟩
  | store q f v =>
    by_cases hq : r.attached q = true
    · exact Or.inr ⟨_, _, if_pos (h.attached_iff.mpr hq), if_pos hq, h.store hq v⟩
    · exact Or.inl ⟨if_neg fun ha => hq (h.attached_iff.mp ha), if_neg hq⟩
  | earlier m off data =>
    by_cases hm : m.object < o
    · exact Or.inr ⟨_, _, if_pos hm, if_pos hm, h.earlier hm⟩
    · exact Or.inl ⟨if_neg hm, if_neg hm⟩

/-- The manager's attach gives it a fresh object of zeros. -/
theorem whole_shareMemoryInitCar (abi : Abi) (prior : Shm) :
    Whole prior.next
      (⟨fun f => Vector.replicate (abi.state.type f).size 0, fun q => decide (q = none)⟩ :
        Members abi)
      ⟨(State.shareMemoryInitCar abi prior).2,
        fun q => if q = none then some (State.shareMemoryInitCar abi prior).1 else none, []⟩ := by
  have hpos := size_state_pos abi
  have hbytes : (State.shareMemoryInitCar abi prior).2.bytes prior.next =
      List.replicate abi.state.size 0 := by
    simp [State.shareMemoryInitCar, Shm.unlink, Shm.shmOpen, Shm.ftruncate, Shm.setBytes]
  refine ⟨?_, ⟨?_, fun f => ?_⟩, fun q => ?_, rfl⟩
  · simp [State.shareMemoryInitCar, Shm.unlink, Shm.shmOpen, Shm.ftruncate, Shm.setBytes]
  · rw [hbytes, List.length_replicate]
  · rw [hbytes, Record.read_replicate, Vector.toList_replicate]
  · simp [State.shareMemoryInitCar, Shm.unlink, Shm.shmOpen, mmap, hpos.ne']

/-- Stores one after the other. -/
theorem Whole.stores (h : Whole o r w) (hq : r.attached q = true)
    (l : List ((f : Field) × Vector UInt8 (abi.state.type f).size)) :
    Whole o { r with value := l.foldl (fun c x => Function.update c x.1 x.2) r.value }
      (l.foldl (fun w x => w.store abi q x.1 x.2.toList) w) := by
  induction l generalizing r w with
  | nil => exact h
  | cons x l ih => exact ih (h.store hq x.2) hq

end Whole

/-- What members hold after stores that all take their value from `v`. -/
theorem foldl_update {F : Type*} {β : F → Type*} [DecidableEq F] {v : (f : F) → β f}
    {l : List ((f : F) × β f)} (h : ∀ x ∈ l, x.2 = v x.1) (c : (f : F) → β f) (f : F) :
    l.foldl (fun c x => Function.update c x.1 x.2) c f =
      if f ∈ l.map Sigma.fst then v f else c f := by
  induction l generalizing c with
  | nil => simp
  | cons x l ih =>
    rw [List.foldl_cons, ih (fun y hy => h y (List.mem_cons_of_mem _ hy))]
    by_cases hx : f = x.1
    · subst hx
      simp [h x List.mem_cons_self]
    · have hmem : f ∈ (x :: l).map Sigma.fst ↔ f ∈ l.map Sigma.fst := by
        rw [List.map_cons, List.mem_cons, or_iff_right hx]
      simp only [hmem, Function.update_of_ne hx]

/-- **`Car::InitState`** leaves the initial values, whatever was there before. -/
theorem whole_initState {abi : Abi} (E : Encoding abi) (prior : Shm) :
    Whole prior.next (Members.init E) (Car.initState E prior) := by
  have h := (whole_shareMemoryInitCar abi prior).stores (q := none) rfl (Car.initStores E)
  have hvalue : (Car.initStores E).foldl (fun c x => Function.update c x.1 x.2)
      (fun f => Vector.replicate (abi.state.type f).size 0) = E.state initState := by
    funext f
    rw [foldl_update (v := E.state initState)]
    · split
      · rfl
      · rename_i hf
        -- only `last_unit_checkpoint` is not stored to
        cases f with
        | lastUnitCheckpoint p => exact E.timeval_zero.symm
        | isNewData d => fin_cases d <;> simp [Car.initStores] at hf
        | stage p => cases p <;> simp [Car.initStores] at hf
        | needCompulsiveCheckpoint p => cases p <;> simp [Car.initStores] at hf
        | averageTimePerCycle p => cases p <;> simp [Car.initStores] at hf
        | _ => simp [Car.initStores] at hf
    · simp only [Car.initStores, List.forall_mem_cons, List.not_mem_nil, IsEmpty.forall_iff,
        implies_true, and_true]
      and_intros <;> rfl
  rw [hvalue] at h
  exact h

section Runs

variable {abi : Abi} {E : Encoding abi} {prior : Shm} {r r' : Members abi} {w : World}

theorem Whole.exec {ops : List (Op abi)} (h : Whole prior.next r w)
    (he : (members E prior).exec r ops = some r') :
    ∃ w', (memory E prior).exec w ops = some w' ∧ Whole prior.next r' w' := by
  induction ops generalizing r w with
  | nil =>
    obtain rfl := Option.some.inj he
    exact ⟨w, rfl, h⟩
  | cons op ops ih =>
    obtain ⟨r₁, hr₁, hr'⟩ := Option.bind_eq_some_iff.mp he
    rcases h.step op with ⟨-, hnone⟩ | ⟨w₁, r₂, hw₁, hr₂, h₁⟩
    · cases hnone.symm.trans hr₁
    · obtain rfl := Option.some.inj (hr₂.symm.trans hr₁)
      obtain ⟨w', hw', h'⟩ := ih h₁ hr'
      exact ⟨w', Option.bind_eq_some_iff.mpr ⟨w₁, hw₁, hw'⟩, h'⟩

/-- A run on the object is one on the members. -/
theorem whole_run {tr : List (Op abi)}
    (h : (memory E prior).Run (Car.initState E prior) tr w) :
    ∃ r, (members E prior).Run (Members.init E) tr r ∧ Whole prior.next r w := by
  refine h.simulate (R := fun _ w r => Whole prior.next r w) (whole_initState E prior) ?_
  intro _ w r op w' _ hR hs
  rcases hR.step op with ⟨hnone, -⟩ | ⟨w₁, r', hw₁, hr', h'⟩
  · cases hnone.symm.trans hs
  · obtain rfl := Option.some.inj (hw₁.symm.trans hs)
    exact ⟨r', hr', h'⟩

/-- A run on the members is one on the object. -/
theorem run_whole {tr : List (Op abi)} (h : (members E prior).Run (Members.init E) tr r) :
    ∃ w, (memory E prior).Run (Car.initState E prior) tr w ∧ Whole prior.next r w := by
  refine h.simulate (R := fun _ r w => Whole prior.next r w) (whole_initState E prior) ?_
  intro _ r w op r' _ hR hs
  rcases hR.step op with ⟨-, hnone⟩ | ⟨w', r₁, hw', hr₁, h'⟩
  · cases hnone.symm.trans hs
  · obtain rfl := Option.some.inj (hr₁.symm.trans hs)
    exact ⟨w', hw', h'⟩

/-- What an operation stores to a member. -/
def Op.stored (f : Field) : Op abi → Option (Vector UInt8 (abi.state.type f).size)
  | .store _ g v => if h : g = f then some (h ▸ v) else none
  | _ => none

/-- A member of the record as a register. -/
def valueRegister (E : Encoding abi) (prior : Shm) (f : Field) :
    Register (members E prior) (Vector UInt8 (abi.state.type f).size) where
  get r := r.value f
  store := Op.stored f
  get_step {r op r'} h := by
    change r.step prior.next op = some r' at h
    cases op with
    | store q g v =>
      simp only [Members.step] at h
      split at h
      · cases h
        by_cases hg : g = f
        · subst hg
          simp [Op.stored]
        · simp [Op.stored, hg, Function.update_of_ne (Ne.symm hg)]
      · cases h
    | construct p =>
      cases h
      rfl
    | load q g v | earlier m off data =>
      simp only [Members.step] at h
      split at h
      · cases h
        rfl
      · cases h

/-- A load finds what was stored last. -/
theorem load_content {pre post : List (Op abi)} {q : Option PartType} {f : Field}
    {v : Vector UInt8 (abi.state.type f).size}
    (h : (members E prior).Run (Members.init E) (pre ++ .load q f v :: post) r) :
    ((∀ op ∈ pre, op.stored f = none) ∧ v = E.state initState f) ∨
      ∃ n, LastStore (Op.stored f) pre n pre.length v := by
  obtain ⟨r₁, hpre, hpost⟩ := h.append_inv
  obtain ⟨r₂, hstep, -⟩ := hpost.cons_inv
  have hv : r₁.value f = v := by
    change r₁.step prior.next (.load q f v) = some r₂ at hstep
    simp only [Members.step] at hstep
    split at hstep
    · rename_i hload
      exact hload.2
    · cases hstep
  rw [← hv]
  exact (valueRegister E prior f).content hpre

end Runs

/-- **No process can tell the shared memory object from a record**: attaches, loads and stores go
through in the orders and with the values in which they do on independent members, and in no others.
No process comes to a fault, every attach returns all of the object, and a load gives what was
stored last in its member, by whichever process, or the initial value. -/
theorem memory_run_iff {abi : Abi} (E : Encoding abi) (prior : Shm) (tr : List (Op abi)) :
    ((∃ w, (memory E prior).Run (Car.initState E prior) tr w) ↔
      ∃ r, (members E prior).Run (Members.init E) tr r) ∧
    ∀ w, (memory E prior).Run (Car.initState E prior) tr w →
      w.dead = [] ∧ (∀ q m, w.returned q = some m → m = some ⟨prior.next, abi.state.size⟩) ∧
        ∀ pre q f v post, tr = pre ++ .load q f v :: post →
          ((∀ op ∈ pre, op.stored f = none) ∧ v = E.state initState f) ∨
            ∃ n, LastStore (Op.stored f) pre n pre.length v := by
  refine ⟨⟨?_, ?_⟩, fun w h => ?_⟩
  · rintro ⟨w, h⟩
    obtain ⟨r, hr, -⟩ := whole_run h
    exact ⟨r, hr⟩
  · rintro ⟨r, h⟩
    obtain ⟨w, hw, -⟩ := run_whole h
    exact ⟨w, hw⟩
  · obtain ⟨r, hr, hwhole⟩ := whole_run h
    refine ⟨hwhole.dead, fun q m hm => ?_, fun pre q f v post htr => ?_⟩
    · rw [hwhole.returned] at hm
      split at hm
      · exact (Option.some.inj hm).symm
      · cases hm
    · subst htr
      exact load_content hr

end Vehicle.Recoverybase
