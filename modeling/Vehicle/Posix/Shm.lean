import Vehicle.Posix.Layout

/-!
# POSIX shared memory objects

One name, and the objects it has referred to: an object stays after its name is removed, for those
who have it mapped. `shmOpen`, `ftruncate`, `fstatSize` and `mmap` have the effects the standard
gives them; the protection and the limits of the system are left out, so `shmOpen` fails only for a
missing object without `O_CREAT`. A store through a mapping faults when it touches a page outside
the mapping or beyond the present size of the object; what it stores between the end of the object
and the end of its last page is lost.
-/

namespace Vehicle.Posix

/-! ### Overwriting a part of a list -/

section Patch

variable {α : Type*}

/-- `l` with `data` written over it from position `off` on; what falls behind the end is lost. -/
def patch (l : List α) (off : ℕ) (data : List α) : List α :=
  l.mapIdx fun x b => if off ≤ x then data.getD (x - off) b else b

theorem length_patch (l : List α) (off : ℕ) (data : List α) :
    (patch l off data).length = l.length := by simp [patch]

theorem getElem?_patch (l : List α) (off : ℕ) (data : List α) (x : ℕ) :
    (patch l off data)[x]? =
      l[x]?.map fun b => if off ≤ x then data.getD (x - off) b else b := by
  simp [patch]

/-- Outside the data nothing changes. -/
theorem getElem?_patch_of_not_mem {l : List α} {off x : ℕ} {data : List α}
    (h : x < off ∨ off + data.length ≤ x) : (patch l off data)[x]? = l[x]? := by
  rw [getElem?_patch]
  rcases h with h | h
  · simp [Nat.not_le.mpr h]
  · have hle : data.length ≤ x - off := by omega
    simp [List.getElem?_eq_none hle]

/-- Writing what is there already. -/
theorem patch_eq_self {l : List α} {off : ℕ} {data : List α}
    (h : ∀ i b, data[i]? = some b → off + i < l.length → l[off + i]? = some b) :
    patch l off data = l := by
  refine List.ext_getElem? fun x => ?_
  rw [getElem?_patch]
  cases hx : l[x]? with
  | none => rfl
  | some c =>
    by_cases hoff : off ≤ x
    · cases hd : data[x - off]? with
      | none => simp [hoff, hd]
      | some b =>
        have hlen : x < l.length := (List.getElem?_eq_some_iff.mp hx).1
        have hb := h (x - off) b hd (by omega)
        rw [show off + (x - off) = x by omega, hx] at hb
        simp [hoff, hd, Option.some.inj hb]
    · simp [hoff]

end Patch

/-! ### Objects -/

/-- The objects of the system, by an identity, and the one the name refers to. -/
structure Shm where
  named : Option ℕ
  bytes : ℕ → List UInt8
  next : ℕ
  /-- An identity is not given twice. -/
  fresh : ∀ o ∈ named, o < next

/-- `O_CREAT` and `O_TRUNC`, besides `O_RDWR`. -/
structure OpenFlags where
  creat : Bool
  trunc : Bool

/-- A mapping of the first `length` bytes of an object. -/
structure Mapping where
  object : ℕ
  length : ℕ
  deriving DecidableEq

namespace Shm

/-- No object, and no name. -/
def empty : Shm := ⟨none, fun _ => [], 0, by simp⟩

/-- `shm_unlink`: the name is gone, the object stays. -/
def unlink (s : Shm) : Shm where
  named := none
  bytes := s.bytes
  next := s.next
  fresh := by simp

/-- The object an open file descriptor refers to gets other contents. -/
def setBytes (s : Shm) (o : ℕ) (b : List UInt8) : Shm where
  named := s.named
  bytes := Function.update s.bytes o b
  next := s.next
  fresh := s.fresh

/-- `shm_open`: the object the descriptor refers to, `none` for a failure. -/
def shmOpen (f : OpenFlags) (s : Shm) : Option ℕ × Shm :=
  match s.named with
  | some o => (some o, if f.trunc then s.setBytes o [] else s)
  | none =>
    if f.creat then
      (some s.next,
        { named := some s.next, bytes := Function.update s.bytes s.next [], next := s.next + 1,
          fresh := by simp })
    else (none, s)

/-- `ftruncate`: the first `n` bytes stay, the rest up to `n` is zero. -/
def ftruncate (o n : ℕ) (s : Shm) : Shm :=
  s.setBytes o ((s.bytes o).take n ++ List.replicate (n - (s.bytes o).length) 0)

/-- `st_size`, as `fstat` gives it. -/
def fstatSize (o : ℕ) (s : Shm) : ℕ := (s.bytes o).length

end Shm

/-- `mmap` of a shared mapping: a length of 0 fails. -/
def mmap (o length : ℕ) : Option Mapping := if length = 0 then none else some ⟨o, length⟩

namespace Mapping

/-- Every page the `len` bytes at `off` touch lies in the mapping and below the end of the
object. -/
def Accessible (pageSize : ℕ) (m : Mapping) (s : Shm) (off len : ℕ) : Prop :=
  len = 0 ∨ off + len ≤ alignUp m.length pageSize ∧
    off + len ≤ alignUp (s.bytes m.object).length pageSize

instance (pageSize : ℕ) (m : Mapping) (s : Shm) (off len : ℕ) :
    Decidable (m.Accessible pageSize s off len) :=
  inferInstanceAs (Decidable (_ ∨ _))

/-- A store through a mapping; `none` is a fault. -/
def store (pageSize : ℕ) (m : Mapping) (off : ℕ) (data : List UInt8) (s : Shm) : Option Shm :=
  if m.Accessible pageSize s off data.length then
    some (s.setBytes m.object (patch (s.bytes m.object) off data))
  else none

/-- **A store inside the mapping and the object** does not fault. -/
theorem store_eq {pageSize : ℕ} (hp : 0 < pageSize) {m : Mapping} {s : Shm} {off : ℕ}
    {data : List UInt8} (hm : off + data.length ≤ m.length)
    (hs : off + data.length ≤ (s.bytes m.object).length) :
    m.store pageSize off data s =
      some (s.setBytes m.object (patch (s.bytes m.object) off data)) :=
  if_pos (Or.inr ⟨hm.trans (le_alignUp hp), hs.trans (le_alignUp hp)⟩)

end Mapping

end Vehicle.Posix
