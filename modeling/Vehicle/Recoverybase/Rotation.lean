import Vehicle.Trace.History
import Vehicle.Recoverybase.Dumps

/-!
# recoverybase: the rotation of the dumps

Each part counts its cycles in `stage`, modulo three and from one, and the compulsive pass dumps
part `i` while `stage[i] == i`, which would be in one of three cycles. The cells are of type `bool`,
so the manager reads one in every state: the count is right after a multiple of three cycles only,
and three cycles in a row never have just one that is dumped (`rotation_iff`).
-/

namespace Vehicle.Recoverybase

open Vehicle.Trace

/-- The store that ends a cycle of a part. -/
def Label.endsCycle (p : PartType) : Label → Bool
  | .part q (.storeStage _) => decide (q = p)
  | _ => false

/-- The completed cycles of a part in a run. -/
def cycles (p : PartType) (tr : List Label) : List (List Label) := stretches (Label.endsCycle p) tr

theorem length_cycles (p : PartType) (tr : List Label) :
    (cycles p tr).length = tr.countP (Label.endsCycle p) :=
  length_stretches tr

/-- The manager reads the count of the part's cycles. -/
def Rotated (p : PartType) (tr : List Label) (s : Sys) : Prop :=
  ofBool (s.state.stage p) = (1 + (cycles p tr).length : ℤ) % 3

instance (p : PartType) (tr : List Label) (s : Sys) : Decidable (Rotated p tr s) :=
  inferInstanceAs (Decidable (_ = _))

/-- All handshakes of a cycle meet the guard. -/
def MeetsGuard (p : PartType) (u : List Label) : Prop :=
  Label.car (.testStage .compulsive p false) ∉ u

/-- `SaveState(p)` is called in a cycle. -/
def Saves (p : PartType) (u : List Label) : Prop := Label.car (.saveBegin .compulsive p) ∈ u

/-- **Of three cycles in a row, one is dumped**: one has all its handshakes meeting the guard, and
`SaveState` is called in that cycle and in no other of the three. -/
def OneOfThree (p : PartType) (tr : List Label) : Prop :=
  ∀ u : Fin 3 → List Label, List.ofFn u <:+: cycles p tr →
    ∃ i, ∀ j, (MeetsGuard p (u j) ↔ j = i) ∧ (Saves p (u j) ↔ j = i)

section Rotation

variable {cfg : Config} {tr : List Label} {s : Sys} {p : PartType}

/-- **What the manager reads** in a cell of `stage`, whatever has run. -/
theorem stage_eq_one (hr : (system cfg).Run (Sys.init cfg) tr s) (p : PartType) :
    ofBool (s.state.stage p) = 1 := by
  rw [(Staged.of_run hr).stage p]
  rfl

/-- **The guard of the dumps**, in either pass: it holds for speed and fails for the others. -/
theorem testStage_eq (hr : (system cfg).Run (Sys.init cfg) tr s) {c : Check} {b : Bool}
    (h : Label.car (.testStage c p b) ∈ tr) : b = decide (p = .speed) := by
  obtain ⟨n, hn⟩ := List.mem_iff_getElem?.mp h
  obtain ⟨t, v, ht, hstep⟩ := hr.at_event hn
  obtain ⟨-, hb⟩ : t.car.pc = .stage c p ∧ b = stageIs t.state p := (step_iff.mp hstep).1
  rw [hb, stageIs, stage_eq_one ht]
  cases p <;> rfl

/-- The count is right after a multiple of three cycles. -/
theorem rotated_iff (hr : (system cfg).Run (Sys.init cfg) tr s) (p : PartType) :
    Rotated p tr s ↔ 3 ∣ (cycles p tr).length := by
  rw [Rotated, stage_eq_one hr]
  omega

/-- Every cycle of speed meets the guard, and no cycle of another part is dumped. -/
theorem oneOfThree_iff (hr : (system cfg).Run (Sys.init cfg) tr s) (p : PartType) :
    OneOfThree p tr ↔ (cycles p tr).length < 3 := by
  constructor
  · intro h
    by_contra hlt
    -- the first three cycles
    obtain ⟨u, hu⟩ : ∃ u : Fin 3 → List Label, List.ofFn u <:+: cycles p tr := by
      have hthree : ((cycles p tr).take 3).length = 3 := by
        rw [List.length_take]
        omega
      refine ⟨fun j => ((cycles p tr).take 3).get (j.cast hthree.symm), ?_⟩
      rw [← List.ofFn_congr hthree, List.ofFn_get]
      exact (List.take_prefix 3 _).isInfix
    obtain ⟨i, hi⟩ := h u hu
    have hmem : ∀ j, ∀ a ∈ u j, a ∈ tr := by
      intro j a ha
      exact mem_of_mem_stretches (hu.subset (List.mem_ofFn.mpr ⟨j, rfl⟩)) ha
    by_cases hp : p = .speed
    · -- a second cycle meets the guard too
      have hguard : ∀ j, j = i := by
        intro j
        refine (hi j).1.mp fun hb => ?_
        have hfalse := testStage_eq hr (hmem j _ hb)
        rw [hp] at hfalse
        cases hfalse
      have h01 : (0 : Fin 3) = 1 := (hguard 0).trans (hguard 1).symm
      exact absurd h01 (by decide)
    · exact hp (eq_speed_of_saveBegin hr (hmem i _ ((hi i).2.mpr rfl)))
  · intro hlt u hu
    have hlen := hu.length_le
    rw [List.length_ofFn] at hlen
    omega

/-- **How the dumps rotate**: the manager reads the count of the cycles of a part after a multiple
of three of them, and under `METHOD` 2 the dumps take one cycle in three as long as there are not
three. -/
theorem rotation_iff (hr : (system cfg).Run (Sys.init cfg) tr s) (p : PartType) :
    (Rotated p tr s ↔ 3 ∣ (cycles p tr).length) ∧
      (cfg.method = .compulsiveOnly → (OneOfThree p tr ↔ (cycles p tr).length < 3)) :=
  ⟨rotated_iff hr p, fun _ => oneOfThree_iff hr p⟩

/-- Camera after three cycles, none of them dumped. -/
theorem rotation_three :
    ∃ tr s, (system ⟨.compulsiveOnly, true⟩).Run (Sys.init ⟨.compulsiveOnly, true⟩) tr s ∧
      Rotated .camera tr s ∧ ¬ OneOfThree .camera tr := by
  obtain ⟨tr, s, hr, hcount⟩ := exists_run ⟨.compulsiveOnly, true⟩
    (eagerTurns ⟨.compulsiveOnly, true⟩ 300 (Sys.init ⟨.compulsiveOnly, true⟩))
    (P := fun tr _ => tr.countP (Label.endsCycle .camera) = 3) (by decide +kernel)
  have hlen : (cycles .camera tr).length = 3 := (length_cycles .camera tr).trans hcount
  obtain ⟨hrot, hone⟩ := rotation_iff hr .camera
  refine ⟨tr, s, hr, hrot.mpr (by rw [hlen]), fun h => ?_⟩
  have hlt := (hone rfl).mp h
  omega

/-- Camera after its first cycle: the manager reads 1, not 2. -/
theorem rotation_lost :
    ¬ ∀ (cfg : Config) (tr : List Label) (s : Sys) (p : PartType),
      (system cfg).Run (Sys.init cfg) tr s →
        Rotated p tr s ∧ (cfg.method = .compulsiveOnly → OneOfThree p tr) := by
  intro h
  obtain ⟨tr, s, hr, hrot⟩ := exists_run ⟨.compulsiveOnly, true⟩
    (eagerTurns ⟨.compulsiveOnly, true⟩ 70 (Sys.init ⟨.compulsiveOnly, true⟩))
    (P := fun tr s => ¬ Rotated .camera tr s) (by decide +kernel)
  exact hrot (h _ tr s .camera hr).1

end Rotation

end Vehicle.Recoverybase
