import Vehicle.Recovery.Window

/-!
# recovery: where the lane tracker reads

`Array` has 1280 elements, and the loop that draws the histogram looks one further, so the first
`Run` leaves it whatever the frame is (`accesses_outside`). The windows stay in the picture as long
as both bases stay between 75 and 1205 (`windowReads_inRange_iff`), which nothing in the code sees
to: a half without a pixel leaves its base at 10000 (`unfound_outside`).
-/

namespace Vehicle.Recovery.Camera

/-! ### `Array` -/

section Array

variable {g : Picture} {m : Members} {f : Frame} {i : ℕ}

/-- **The loop that draws the histogram reads `Array[1280]`.** -/
theorem array_1280_mem (g : Picture) : .array 1280 ∈ arrayAccesses g := by
  refine List.mem_append_right _ (List.mem_flatMap.mpr ⟨1279, ?_, ?_⟩)
  · rw [mem_upTo]
    omega
  · simp

/-- No other index leaves `Array`. -/
theorem mem_arrayAccesses {a : Access} (h : a ∈ arrayAccesses g) :
    a.InRange ∨ a = .array 1280 := by
  simp only [arrayAccesses, List.mem_append, List.mem_map, List.mem_flatMap, mem_upTo] at h
  rcases h with (⟨k, hk, rfl⟩ | ⟨row, -, col, hcol, ha⟩) | ⟨col, hcol, ha⟩
  · exact Or.inl (by unfold Access.InRange; omega)
  · split at ha
    · obtain rfl := List.mem_singleton.mp ha
      exact Or.inl (by unfold Access.InRange; omega)
    · cases ha
  · rcases List.mem_pair.mp ha with rfl | rfl
    · exact Or.inl (by unfold Access.InRange; omega)
    · rcases Decidable.eq_or_ne col 1279 with rfl | hne
      · exact Or.inr rfl
      · exact Or.inl (by unfold Access.InRange; omega)

/-! ### The windows -/

/-- The columns of a window lie in the picture where the base is inside. -/
theorem columns_inRange_iff {base : ℤ} :
    (∀ col ∈ columns base, 0 ≤ col ∧ col < 1280) ↔ 75 ≤ base ∧ base ≤ 1205 := by
  constructor
  · intro h
    have h1 := h (base - 75) (by rw [columns, mem_upTo]; omega)
    have h2 := h (base + 74) (by rw [columns, mem_upTo]; omega)
    omega
  · intro h col hcol
    rw [columns, mem_upTo] at hcol
    omega

theorem mem_windowReads {a : Access} : a ∈ m.windowReads i ↔ ∃ row ∈ windowRows i,
    ∃ col, (col ∈ columns m.left.base ∨ col ∈ columns m.right.base) ∧ .pixel row col = a := by
  simp only [Members.windowReads, List.mem_flatMap, List.mem_append, List.mem_map, or_and_right,
    exists_or]

/-- **When a window reads inside of the picture.** -/
theorem windowReads_inRange_iff (hi : i < 12) :
    (∀ a ∈ m.windowReads i, a.InRange) ↔ m.left.Inside ∧ m.right.Inside := by
  unfold Side.Inside
  rw [← columns_inRange_iff, ← columns_inRange_iff]
  constructor
  · intro h
    have hfirst : 720 - 60 * (i + 1 : ℤ) ∈ windowRows i := by
      rw [windowRows, mem_upTo]
      omega
    constructor
    · intro col hcol
      exact (h _ (mem_windowReads.mpr ⟨_, hfirst, col, Or.inl hcol, rfl⟩)).2
    · intro col hcol
      exact (h _ (mem_windowReads.mpr ⟨_, hfirst, col, Or.inr hcol, rfl⟩)).2
  · rintro ⟨hl, hr⟩ a ha
    obtain ⟨row, hrow, col, hcol, rfl⟩ := mem_windowReads.mp ha
    rw [windowRows, mem_upTo] at hrow
    exact ⟨by omega, hcol.elim (hl col) (hr col)⟩

/-- **A first frame without a pixel in the left half** makes the first window read beyond the
picture. -/
theorem unfound_outside
    (h : ∀ row col, 0 ≤ row ∧ row < 720 → 0 ≤ col ∧ col < 640 → f.disp row col ≠ 255) :
    ¬ ∀ a ∈ (before [] f 0).windowReads 0, a.InRange := by
  rw [windowReads_inRange_iff (by omega)]
  rintro ⟨hl, -⟩
  unfold Side.Inside at hl
  rw [(before_nil_zero f).1, search_unfound (by simpa using h)] at hl
  omega

/-! ### All accesses -/

/-- **No sequence of frames keeps the accesses in range**: the first `Run` leaves `Array`. -/
theorem accesses_outside (f : Frame) (fs : List Frame) :
    ¬ ∀ a ∈ Members.new.accessesOn (f :: fs), a.InRange := by
  intro h
  have hmem : .array 1280 ∈ Members.new.accessesOn (f :: fs) :=
    List.mem_append_left _ (List.mem_append_left _ (array_1280_mem f.thresh))
  have := h _ hmem
  unfold Access.InRange at this
  omega

end Array

/-- The first `Run` on the frame `merging`, whose windows lie in the picture. -/
theorem merging_leaves_array : .array 1280 ∈ Members.new.accessesOn [merging] ∧
    ¬ (Access.array 1280).InRange := by
  refine ⟨List.mem_append_left _ (List.mem_append_left _ (array_1280_mem merging.thresh)), ?_⟩
  unfold Access.InRange
  omega

end Vehicle.Recovery.Camera
