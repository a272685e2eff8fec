import Mathlib.Data.Fintype.Basic
import Mathlib.Data.List.FinRange
import Mathlib.Tactic.FinCases
import Vehicle.Posix.Shm

/-!
# recovery: attaching to the shared State

`share.h`, `share.cpp` and `Car::InitState` of the recovery program, on the level of the shared
memory object. `Car::InitState` replaces whatever object an earlier run has left by a zero-filled
one of the size of the State and stores its initial values (`whole_initState`), and from then on
stores keep the object whole. But a `Part` attaches by opening the object with `O_TRUNC`, which
empties it for everybody and leaves nothing to map (`construct_fails`).
-/

namespace Vehicle.Recovery

open Vehicle.Posix

/-! ### The State in memory -/

/-- The types of the members of `State`, and the size of a page. -/
structure Abi where
  int : CType
  double : CType
  bool : CType
  pointer : CType
  suseconds : CType
  pageSize : ℕ
  pageSize_pos : 0 < pageSize

/-- The data members of the class `State`, arrays element by element. -/
inductive Field
  | times
  | speed
  | direction
  | targetSpeed
  | auto
  | servoPID (i : Fin 3)
  | throttlePID (i : Fin 3)
  | pca
  | isNewData (i : Fin 6)
  | needCompulsiveCheckpoint (i : Fin 4)
  | averageTimePerCycle (i : Fin 4)
  deriving DecidableEq

/-- The number of a member, in the order of declaration. -/
def Field.index : Field → ℕ
  | .times => 0
  | .speed => 1
  | .direction => 2
  | .targetSpeed => 3
  | .auto => 4
  | .servoPID i => 5 + i
  | .throttlePID i => 8 + i
  | .pca => 11
  | .isNewData i => 12 + i
  | .needCompulsiveCheckpoint i => 18 + i
  | .averageTimePerCycle i => 22 + i

/-- The type of a member. -/
def Abi.type (abi : Abi) : Field → CType
  | .times => abi.int
  | .speed | .direction | .targetSpeed | .servoPID _ | .throttlePID _ => abi.double
  | .auto | .isNewData _ | .needCompulsiveCheckpoint _ => abi.bool
  | .pca => abi.pointer
  | .averageTimePerCycle _ => abi.suseconds

/-- The members of the class `State`. -/
def Abi.state (abi : Abi) : List CType :=
  [abi.int, abi.double, abi.double, abi.double, abi.bool] ++
    List.replicate 3 abi.double ++ List.replicate 3 abi.double ++ [abi.pointer] ++
    List.replicate 6 abi.bool ++ List.replicate 4 abi.bool ++ List.replicate 4 abi.suseconds

/-- `sizeof(State)`. -/
def Abi.sizeofState (abi : Abi) : ℕ := sizeof abi.state

/-- `offsetof(State, f)`. -/
def Abi.offsetof (abi : Abi) (f : Field) : ℕ := offset abi.state f.index

theorem Field.index_lt (abi : Abi) (f : Field) : f.index < abi.state.length := by
  have hlen : abi.state.length = 26 := rfl
  rw [hlen]
  cases f <;> simp only [Field.index] <;> omega

theorem sizeAt_index (abi : Abi) (f : Field) :
    sizeAt abi.state f.index = (abi.type f).size := by
  cases f with
  | servoPID i | throttlePID i => fin_cases i <;> rfl
  | isNewData i => fin_cases i <;> rfl
  | needCompulsiveCheckpoint i | averageTimePerCycle i => fin_cases i <;> rfl
  | _ => rfl

theorem Field.eq_pca_of_index {f : Field} (h : f.index = Field.pca.index) : f = .pca := by
  cases f <;> simp [Field.index] at h ⊢ <;> omega

/-- A member lies inside the State. -/
theorem offsetof_add_size_le (abi : Abi) (f : Field) :
    abi.offsetof f + (abi.type f).size ≤ abi.sizeofState := by
  rw [← sizeAt_index]
  exact offset_add_size_le_sizeof (f.index_lt abi)

/-- Another member does not touch `pca_`. -/
theorem offsetof_pca_disjoint (abi : Abi) {f : Field} (h : f ≠ .pca) :
    abi.offsetof f + (abi.type f).size ≤ abi.offsetof .pca ∨
      abi.offsetof .pca + abi.pointer.size ≤ abi.offsetof f := by
  have hne : f.index ≠ Field.pca.index := fun he => h (Field.eq_pca_of_index he)
  rcases Nat.lt_or_gt_of_ne hne with hlt | hlt
  · left
    rw [← sizeAt_index]
    exact offset_add_size_le_offset hlt (Field.pca.index_lt abi)
  · right
    have hsize : abi.pointer.size = sizeAt abi.state Field.pca.index := (sizeAt_index abi .pca).symm
    rw [hsize]
    exact offset_add_size_le_offset hlt (f.index_lt abi)

theorem sizeofState_pos (abi : Abi) : 0 < abi.sizeofState := by
  have h := offsetof_add_size_le abi .times
  have hpos := (abi.type .times).size_pos
  omega

/-- The address `new Pca()` returns, as bytes. -/
def Address (abi : Abi) : Type := { b : List UInt8 // b.length = abi.pointer.size }

/-- The bytes of `0.0`, `0` and `false` in a member. -/
def Abi.zero (abi : Abi) (f : Field) : List UInt8 := List.replicate (abi.type f).size 0

/-! ### The program -/

/-- The processes and the shared memory. `returned` lists what the attaches have returned, that of
the manager first; `dead` the processes a fault has ended. -/
structure World where
  shm : Shm
  returned : List (Option Mapping)
  dead : List ℕ

/-- `State::ShareMemoryInit`: `mmap` of `st_size` bytes of the object just opened. -/
def State.shareMemoryInit (s : Shm) : Option Mapping × Shm :=
  match s.shmOpen ⟨true, true⟩ with
  | (some fd, s) => (mmap fd (s.fstatSize fd), s)
  | (none, s) => (none, s)

/-- `State::ShareMemoryInitCar`. -/
def State.shareMemoryInitCar (abi : Abi) (s : Shm) : Option Mapping × Shm :=
  match s.unlink.shmOpen ⟨true, true⟩ with
  | (some fd, s) => (mmap fd abi.sizeofState, s.ftruncate fd abi.sizeofState)
  | (none, s) => (none, s)

/-- A store of process `k` through the mapping its attach has returned; a fault, or a store through
`MAP_FAILED`, ends it. -/
def World.store (abi : Abi) (k off : ℕ) (data : List UInt8) (w : World) : World :=
  match (w.returned.getD k none).bind fun m => m.store abi.pageSize off data w.shm with
  | some s => { w with shm := s }
  | none => { w with dead := k :: w.dead }

/-- A store to a member. -/
def World.set (abi : Abi) (k : ℕ) (f : Field) (data : List UInt8) (w : World) : World :=
  w.store abi k (abi.offsetof f) data

/-- The body of the loop of `Car::InitState`. -/
def Car.initLoop (abi : Abi) (w : World) (i : Fin 4) : World :=
  ((w.set abi 0 (.isNewData (i.castLE (by decide)))
      (abi.zero (.isNewData (i.castLE (by decide))))).set
    abi 0 (.needCompulsiveCheckpoint i) (abi.zero (.needCompulsiveCheckpoint i))).set
    abi 0 (.averageTimePerCycle i) (abi.zero (.averageTimePerCycle i))

/-- **`Car::InitState`**, from what an earlier run has left. -/
def Car.initState (abi : Abi) (pca : Address abi) (prior : Shm) : World :=
  let r := State.shareMemoryInitCar abi prior
  let w : World := ⟨r.2, [r.1], []⟩
  let w := w.set abi 0 .speed (abi.zero .speed)
  let w := w.set abi 0 .direction (abi.zero .direction)
  let w := w.set abi 0 .targetSpeed (abi.zero .targetSpeed)
  let w := w.set abi 0 .pca pca.1
  (List.finRange 4).foldl (Car.initLoop abi) w

/-- A store into the State. -/
structure Store (abi : Abi) where
  off : ℕ
  data : List UInt8
  inside : off + data.length ≤ abi.sizeofState

/-- What happens after `Car::InitState`: the construction of a `Part`, or a store by a process that
has attached (`0` is the manager, `k` the process of the `k`-th construction). -/
inductive Op (abi : Abi)
  | construct
  | write (k : ℕ) (st : Store abi)

/-- An operation; a process that has not attached, or has died, does not write. -/
def World.step {abi : Abi} (w : World) : Op abi → Option World
  | .construct =>
    let r := State.shareMemoryInit w.shm
    some { shm := r.2, returned := w.returned ++ [r.1], dead := w.dead }
  | .write k st =>
    if k < w.returned.length ∧ k ∉ w.dead then some (w.store abi k st.off st.data) else none

theorem World.step_write {abi : Abi} {w u : World} {k : ℕ} {st : Store abi} :
    w.step (.write k st) = some u ↔
      (k < w.returned.length ∧ k ∉ w.dead) ∧ w.store abi k st.off st.data = u := by
  simp [World.step]

/-- A sequence of operations. -/
def World.exec {abi : Abi} : World → List (Op abi) → Option World
  | w, [] => some w
  | w, op :: ops => (w.step op).bind fun v => v.exec ops

/-! ### What the object should hold -/

/-- The initial values: the address in `pca_`, zero everywhere else. -/
def initialImage (abi : Abi) (pca : Address abi) : List UInt8 :=
  patch (List.replicate abi.sizeofState 0) (abi.offsetof .pca) pca.1

/-- Contents updated by the writes of a sequence of operations. -/
def updated {abi : Abi} (image : List UInt8) : List (Op abi) → List UInt8
  | [] => image
  | .construct :: ops => updated image ops
  | .write _ st :: ops => updated (patch image st.off st.data) ops

/-- **The State is intact**: the object has the size of the State, it holds the initial values
updated by the writes, and every attach has returned a mapping of all of it. -/
def Intact {abi : Abi} (pca : Address abi) (ops : List (Op abi)) (w : World) : Prop :=
  ∃ o, w.shm.named = some o ∧ (w.shm.bytes o).length = abi.sizeofState ∧
    w.shm.bytes o = updated (initialImage abi pca) ops ∧
    ∀ r ∈ w.returned, r = some ⟨o, abi.sizeofState⟩

/-! ### The object stays whole under stores -/

/-- The manager is attached to an object of the size of the State that holds `image`, and no part
has attached. -/
structure Whole (abi : Abi) (image : List UInt8) (w : World) : Prop where
  object : ∃ o, w.shm.named = some o ∧ w.shm.bytes o = image ∧
    w.returned = [some ⟨o, abi.sizeofState⟩]
  size : image.length = abi.sizeofState
  dead : w.dead = []

section Whole

variable {abi : Abi} {image : List UInt8} {w : World}

theorem Whole.store {off : ℕ} {data : List UInt8} (h : Whole abi image w)
    (hin : off + data.length ≤ abi.sizeofState) :
    Whole abi (patch image off data) (w.store abi 0 off data) := by
  obtain ⟨⟨o, hname, hbytes, hret⟩, hsize, hdead⟩ := h
  have hst : (w.returned.getD 0 none).bind (fun m => m.store abi.pageSize off data w.shm) =
      some (w.shm.setBytes o (patch image off data)) := by
    rw [hret]
    have h := Mapping.store_eq abi.pageSize_pos (m := ⟨o, abi.sizeofState⟩) (s := w.shm) hin
      (by rw [hbytes, hsize]; exact hin)
    rw [hbytes] at h
    exact h
  have hw : w.store abi 0 off data = { w with shm := w.shm.setBytes o (patch image off data) } := by
    unfold World.store
    rw [hst]
  rw [hw]
  exact ⟨⟨o, hname, Function.update_self .., hret⟩, (length_patch ..).trans hsize, hdead⟩

theorem Whole.set {f : Field} {data : List UInt8} (h : Whole abi image w)
    (hlen : data.length = (abi.type f).size) :
    Whole abi (patch image (abi.offsetof f) data) (w.set abi 0 f data) := by
  refine h.store ?_
  rw [hlen]
  exact offsetof_add_size_le abi f

/-- Zero written over zero. -/
theorem patch_zero (n off k : ℕ) :
    patch (List.replicate n (0 : UInt8)) off (List.replicate k 0) = List.replicate n 0 := by
  refine patch_eq_self fun i b hb hlt => ?_
  obtain ⟨-, rfl⟩ : i < k ∧ 0 = b := by simpa [List.getElem?_replicate] using hb
  rw [List.getElem?_replicate, if_pos (by simpa using hlt)]

/-- Zero stored in a member other than `pca_` finds it zero. -/
theorem patch_initialImage (abi : Abi) (pca : Address abi) {f : Field} (h : f ≠ .pca) :
    patch (initialImage abi pca) (abi.offsetof f) (abi.zero f) = initialImage abi pca := by
  refine patch_eq_self fun i b hb hlt => ?_
  obtain ⟨hi, rfl⟩ : i < (abi.type f).size ∧ 0 = b := by
    simpa [Abi.zero, List.getElem?_replicate] using hb
  have hlt' : abi.offsetof f + i < abi.sizeofState := by
    simpa [initialImage, length_patch] using hlt
  have hpca : pca.1.length = abi.pointer.size := pca.2
  unfold initialImage
  rw [getElem?_patch_of_not_mem, List.getElem?_replicate, if_pos hlt']
  rcases offsetof_pca_disjoint abi h with hd | hd
  · exact Or.inl (by omega)
  · exact Or.inr (by omega)

theorem Whole.set_zero {pca : Address abi} {f : Field} (h : Whole abi (initialImage abi pca) w)
    (hf : f ≠ .pca) : Whole abi (initialImage abi pca) (w.set abi 0 f (abi.zero f)) := by
  have hset : Whole abi (patch (initialImage abi pca) (abi.offsetof f) (abi.zero f))
      (w.set abi 0 f (abi.zero f)) := h.set (by simp [Abi.zero])
  rwa [patch_initialImage abi pca hf] at hset

/-- **The manager's attach** gives it the whole of a fresh, zero-filled object. -/
theorem whole_shareMemoryInitCar (abi : Abi) (prior : Shm) :
    Whole abi (List.replicate abi.sizeofState 0)
      ⟨(State.shareMemoryInitCar abi prior).2, [(State.shareMemoryInitCar abi prior).1], []⟩ := by
  have hpos := sizeofState_pos abi
  refine ⟨⟨prior.next, ?_, ?_, ?_⟩, List.length_replicate .., rfl⟩
  · simp [State.shareMemoryInitCar, Shm.unlink, Shm.shmOpen, Shm.ftruncate, Shm.setBytes]
  · simp [State.shareMemoryInitCar, Shm.unlink, Shm.shmOpen, Shm.ftruncate, Shm.setBytes]
  · simp [State.shareMemoryInitCar, Shm.unlink, Shm.shmOpen, mmap, hpos.ne']

/-- **`Car::InitState`** leaves the initial values, whatever was there before. -/
theorem whole_initState (abi : Abi) (pca : Address abi) (prior : Shm) :
    Whole abi (initialImage abi pca) (Car.initState abi pca prior) := by
  have h₀ := whole_shareMemoryInitCar abi prior
  have hzero : ∀ (f : Field) (w : World), Whole abi (List.replicate abi.sizeofState 0) w →
      Whole abi (List.replicate abi.sizeofState 0) (w.set abi 0 f (abi.zero f)) := by
    intro f w h
    have hset : Whole abi (patch (List.replicate abi.sizeofState 0) (abi.offsetof f) (abi.zero f))
        (w.set abi 0 f (abi.zero f)) := h.set (by simp [Abi.zero])
    rwa [Abi.zero, patch_zero] at hset
  have h₁ := Whole.set (f := .pca) (hzero .targetSpeed _ (hzero .direction _ (hzero .speed _ h₀)))
    pca.2
  unfold Car.initState
  -- the loop stores zero in members that are zero
  have hloop : ∀ (l : List (Fin 4)) (w : World), Whole abi (initialImage abi pca) w →
      Whole abi (initialImage abi pca) (l.foldl (Car.initLoop abi) w) := by
    intro l
    induction l with
    | nil => exact fun w h => h
    | cons i l ih =>
      intro w h
      exact ih _ (((h.set_zero (by simp)).set_zero (by simp)).set_zero (by simp))
  exact hloop _ _ h₁

/-- **Without a construction the State stays whole** under any writes. -/
theorem Whole.exec {ops : List (Op abi)} {v : World} (h : Whole abi image w)
    (hops : Op.construct ∉ ops) (he : w.exec ops = some v) :
    Whole abi (updated image ops) v := by
  induction ops generalizing w image with
  | nil =>
    obtain rfl := Option.some.inj he
    exact h
  | cons op ops ih =>
    obtain ⟨u, hu, hv⟩ := Option.bind_eq_some_iff.mp he
    have hops' : Op.construct ∉ ops := fun hm => hops (List.mem_cons_of_mem _ hm)
    cases op with
    | construct => exact absurd (List.mem_cons_self ..) hops
    | write k st =>
      obtain ⟨o, -, -, hret⟩ := h.object
      obtain ⟨⟨hk, -⟩, rfl⟩ := World.step_write.mp hu
      -- only the manager has attached
      obtain rfl : k = 0 := by
        rw [hret, List.length_singleton] at hk
        omega
      exact ih (h.store st.inside) hops' hv

end Whole

/-! ### Attaching empties the object -/

/-- **The attach of a `Part` fails**: the object it opens is empty. -/
theorem construct_fails (s : Shm) : (State.shareMemoryInit s).1 = none := by
  unfold State.shareMemoryInit Shm.shmOpen
  cases s.named with
  | none => simp [Shm.fstatSize, mmap]
  | some o => simp [Shm.fstatSize, Shm.setBytes, mmap]

section Failed

variable {abi : Abi} {w v : World}

theorem failed_step {op : Op abi} (h : none ∈ w.returned ∨ op = .construct)
    (hs : w.step op = some v) : none ∈ v.returned := by
  cases op with
  | construct =>
    obtain rfl := Option.some.inj hs
    exact List.mem_append_right _ (by simp [construct_fails])
  | write k st =>
    have hold : none ∈ w.returned := h.resolve_right (by simp)
    obtain ⟨-, rfl⟩ := World.step_write.mp hs
    unfold World.store
    split <;> exact hold

/-- A failed attach is not undone. -/
theorem failed_exec {ops : List (Op abi)} (h : none ∈ w.returned ∨ Op.construct ∈ ops)
    (he : w.exec ops = some v) : none ∈ v.returned := by
  induction ops generalizing w with
  | nil =>
    obtain rfl := Option.some.inj he
    exact h.resolve_right (by simp)
  | cons op ops ih =>
    obtain ⟨u, hu, hv⟩ := Option.bind_eq_some_iff.mp he
    refine ih ?_ hv
    rcases h with h | h
    · exact Or.inl (failed_step (Or.inl h) hu)
    · rcases List.mem_cons.mp h with h | h
      · exact Or.inl (failed_step (Or.inr h.symm) hu)
      · exact Or.inr h

end Failed

/-- **When attaching leaves the State intact**: exactly if no `Part` is constructed. For every
object an earlier run has left, and every sequence of operations after `Car::InitState`. -/
theorem intact_iff (abi : Abi) (pca : Address abi) (prior : Shm) {ops : List (Op abi)} {w : World}
    (he : (Car.initState abi pca prior).exec ops = some w) :
    Intact pca ops w ↔ Op.construct ∉ ops := by
  constructor
  · rintro ⟨o, -, -, -, hall⟩ hmem
    cases hall none (failed_exec (Or.inr hmem) he)
  · intro hops
    obtain ⟨⟨o, hname, hbytes, hret⟩, hsize, -⟩ := (whole_initState abi pca prior).exec hops he
    refine ⟨o, hname, by rw [hbytes, hsize], hbytes, fun r hr => ?_⟩
    rw [hret] at hr
    simpa using hr

/-- Sizes and alignments on a 64-bit Linux. -/
def Abi.lp64 : Abi where
  int := ⟨4, 4, by decide, by decide⟩
  double := ⟨8, 8, by decide, by decide⟩
  bool := ⟨1, 1, by decide, by decide⟩
  pointer := ⟨8, 8, by decide, by decide⟩
  suseconds := ⟨8, 8, by decide, by decide⟩
  pageSize := 4096
  pageSize_pos := by decide

def Address.null : Address Abi.lp64 := ⟨List.replicate 8 0, rfl⟩

example : Abi.lp64.sizeofState = 144 := by decide

/-- A write of the manager is kept. -/
theorem intact_after_write :
    ∃ (ops : List (Op Abi.lp64)) (w : World),
      (Car.initState Abi.lp64 .null .empty).exec ops = some w ∧ ops ≠ [] ∧
        Intact Address.null ops w := by
  have hw := whole_initState Abi.lp64 .null .empty
  obtain ⟨o, -, -, hret⟩ := hw.object
  have hst : (Car.initState Abi.lp64 .null .empty).step
      (.write 0 ⟨0, [1], sizeofState_pos Abi.lp64⟩) = some _ :=
    World.step_write.mpr ⟨⟨by simp [hret], by simp [hw.dead]⟩, rfl⟩
  have he : (Car.initState Abi.lp64 .null .empty).exec
      [.write 0 ⟨0, [1], sizeofState_pos Abi.lp64⟩] = some _ :=
    Option.bind_eq_some_iff.mpr ⟨_, hst, rfl⟩
  exact ⟨_, _, he, by simp, (intact_iff _ _ _ he).mpr (by simp)⟩

/-- The first construction of a `Part` destroys the State. -/
theorem attach_destroys :
    ¬ ∀ (abi : Abi) (pca : Address abi) (prior : Shm) (ops : List (Op abi)) (w : World),
      (Car.initState abi pca prior).exec ops = some w → Intact pca ops w := by
  intro h
  obtain ⟨o, -, -, -, hall⟩ := h Abi.lp64 .null .empty [.construct] _ rfl
  have hmem : none ∈ (Car.initState Abi.lp64 .null .empty).returned ++
      [(State.shareMemoryInit (Car.initState Abi.lp64 .null .empty).shm).1] :=
    List.mem_append_right _ (by simp [construct_fails])
  cases hall none hmem

end Vehicle.Recovery
