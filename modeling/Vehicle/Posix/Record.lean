import Vehicle.Posix.Shm

/-!
# A structure in a shared memory object

The members of a structure, told apart by names. What is stored to a member is read back there
(`Record.read_patch_self`), and nowhere else (`Record.read_patch_of_ne`). So an object that holds
the structure is as good as its members by name: through a mapping of all of it loads and stores do
not fault, and they do to the members what they say (`Holds.load`, `Holds.store`).
-/

namespace Vehicle.Posix

/-- A load through a mapping; `none` is a fault. Behind the end of the object the last page is
zero. -/
def Mapping.load (pageSize : ℕ) (m : Mapping) (off len : ℕ) (s : Shm) : Option (List UInt8) :=
  if m.Accessible pageSize s off len then
    some ((List.range len).map fun i => (s.bytes m.object).getD (off + i) 0)
  else none

/-- **A load inside the mapping and the object** gives the bytes there. -/
theorem Mapping.load_eq {pageSize : ℕ} (hp : 0 < pageSize) {m : Mapping} {s : Shm} {off len : ℕ}
    (hm : off + len ≤ m.length) (hs : off + len ≤ (s.bytes m.object).length) :
    m.load pageSize off len s = some (((s.bytes m.object).drop off).take len) := by
  have hacc : m.Accessible pageSize s off len :=
    Or.inr ⟨hm.trans (le_alignUp hp), hs.trans (le_alignUp hp)⟩
  rw [load, if_pos hacc]
  congr 1
  refine List.ext_getElem (by simp; omega) fun i hi _ => ?_
  have hlt : off + i < (s.bytes m.object).length := by
    simp only [List.length_map, List.length_range] at hi
    omega
  simp [hlt]

/-! ### Members by name -/

/-- A structure whose members have names in `F`. -/
structure Record (F : Type*) where
  members : List CType
  type : F → CType
  /-- the number of a member, in the order of declaration -/
  index : F → ℕ
  getElem?_index : ∀ f, members[index f]? = some (type f)
  index_injective : Function.Injective index

namespace Record

variable {F : Type*} (R : Record F) {f g : F} {b data : List UInt8}

/-- `sizeof`. -/
def size : ℕ := sizeof R.members

/-- `offsetof`. -/
def offset (f : F) : ℕ := Posix.offset R.members (R.index f)

/-- What is in the members. -/
abbrev Content : Type _ := (f : F) → Vector UInt8 (R.type f).size

/-- The bytes of a member. -/
def read (b : List UInt8) (f : F) : List UInt8 := (b.drop (R.offset f)).take (R.type f).size

theorem index_lt (f : F) : R.index f < R.members.length :=
  (List.getElem?_eq_some_iff.mp (R.getElem?_index f)).1

theorem sizeAt_index (f : F) : sizeAt R.members (R.index f) = (R.type f).size := by
  simp [sizeAt, R.getElem?_index f]

/-- A member lies inside the structure. -/
theorem offset_add_size_le (f : F) : R.offset f + (R.type f).size ≤ R.size := by
  rw [← R.sizeAt_index f]
  exact offset_add_size_le_sizeof (R.index_lt f)

/-- Two members do not overlap. -/
theorem offset_disjoint (h : f ≠ g) :
    R.offset f + (R.type f).size ≤ R.offset g ∨ R.offset g + (R.type g).size ≤ R.offset f := by
  rw [← R.sizeAt_index f, ← R.sizeAt_index g]
  rcases Nat.lt_or_gt_of_ne fun he => h (R.index_injective he) with hlt | hlt
  · exact Or.inl (offset_add_size_le_offset hlt (R.index_lt g))
  · exact Or.inr (offset_add_size_le_offset hlt (R.index_lt f))

theorem length_read (hb : b.length = R.size) (f : F) : (R.read b f).length = (R.type f).size := by
  have h := R.offset_add_size_le f
  rw [read, List.length_take, List.length_drop]
  omega

theorem getElem?_read (b : List UInt8) (f : F) (i : ℕ) :
    (R.read b f)[i]? = if i < (R.type f).size then b[R.offset f + i]? else none := by
  rw [read, List.getElem?_take, List.getElem?_drop]

/-- **What is stored is read back.** -/
theorem read_patch_self (hb : b.length = R.size) (hd : data.length = (R.type f).size) :
    R.read (patch b (R.offset f) data) f = data := by
  have h := R.offset_add_size_le f
  refine List.ext_getElem? fun i => ?_
  rw [getElem?_read, getElem?_patch]
  split
  · rename_i hi
    have hlt : R.offset f + i < b.length := by omega
    have hdata : i < data.length := by omega
    simp [List.getElem?_eq_getElem hlt, List.getElem?_eq_getElem hdata]
  · rename_i hi
    rw [List.getElem?_eq_none (by omega)]

/-- **Other members stay as they are.** -/
theorem read_patch_of_ne (h : f ≠ g) (hd : data.length = (R.type f).size) :
    R.read (patch b (R.offset f) data) g = R.read b g := by
  refine List.ext_getElem? fun i => ?_
  rw [getElem?_read, getElem?_read]
  split
  · rename_i hi
    refine getElem?_patch_of_not_mem ?_
    rcases R.offset_disjoint h with hdis | hdis
    · exact Or.inr (by omega)
    · exact Or.inl (by omega)
  · rfl

/-- A fresh object holds zeros. -/
theorem read_replicate (f : F) (x : UInt8) :
    R.read (List.replicate R.size x) f = List.replicate (R.type f).size x := by
  have h := R.offset_add_size_le f
  rw [read, List.drop_replicate, List.take_replicate]
  congr 1
  omega

end Record

/-! ### Objects -/

section Holds

variable {F : Type*} {R : Record F} {s : Shm} {o o' pageSize : ℕ} {v : R.Content}

/-- The object `o` has the size of the structure and holds `v`. -/
structure Holds (R : Record F) (s : Shm) (o : ℕ) (v : R.Content) : Prop where
  length : (s.bytes o).length = R.size
  read : ∀ f, R.read (s.bytes o) f = (v f).toList

/-- A load through a mapping of all of it. -/
theorem Holds.load (h : Holds R s o v) (hp : 0 < pageSize) (f : F) :
    (⟨o, R.size⟩ : Mapping).load pageSize (R.offset f) (R.type f).size s = some (v f).toList := by
  have hle := R.offset_add_size_le f
  rw [Mapping.load_eq hp hle (hle.trans_eq h.length.symm)]
  exact congrArg some (h.read f)

/-- A store through a mapping of all of it. -/
theorem Holds.store [DecidableEq F] (h : Holds R s o v) (hp : 0 < pageSize) (f : F)
    (x : Vector UInt8 (R.type f).size) :
    ∃ t, (⟨o, R.size⟩ : Mapping).store pageSize (R.offset f) x.toList s = some t ∧
      t.named = s.named ∧ t.next = s.next ∧ Holds R t o (Function.update v f x) := by
  have hx : x.toList.length = (R.type f).size := Vector.length_toList
  have hle : R.offset f + x.toList.length ≤ R.size := by
    rw [hx]
    exact R.offset_add_size_le f
  refine ⟨_, Mapping.store_eq hp hle (hle.trans_eq h.length.symm), rfl, rfl, ?_, fun g => ?_⟩
  · simp [Shm.setBytes, length_patch, h.length]
  · simp only [Shm.setBytes, Function.update_self]
    by_cases hg : f = g
    · subst hg
      rw [R.read_patch_self h.length hx, Function.update_self]
    · rw [R.read_patch_of_ne hg hx, h.read, Function.update_of_ne (Ne.symm hg)]

/-- Other objects do not matter. -/
theorem Holds.setBytes (h : Holds R s o v) (hne : o ≠ o') (b : List UInt8) :
    Holds R (s.setBytes o' b) o v := by
  have hbytes : (s.setBytes o' b).bytes o = s.bytes o := Function.update_of_ne hne ..
  constructor
  · rw [hbytes, h.length]
  · intro f
    rw [hbytes, h.read]

end Holds

end Vehicle.Posix
