import Vehicle.Recoverybase.Children
import Vehicle.Recoverybase.Memory

/-!
# recoverybase: the system on the shared memory object

A label of `system` loads some members of the State and stores to one at most. Executed on the
shared memory object, through the mappings that the constructors of the parts have, the labels of a
run find the values they load, and the object holds the State of the system behind each of them
(`state_in_memory`). A part attaches when it is forked.
-/

namespace Vehicle.Recoverybase

open Vehicle.Trace Vehicle.Posix

/-! ### The system on the object -/

/-- The member a statement of part `p` stores to. -/
def Act.field (p : PartType) : Act → Option Field
  | .storeTimes _ => some .times
  | .storeNew d _ => some (.isNewData d)
  | .storeNeed => some (.needCompulsiveCheckpoint p)
  | .storeStage _ => some (.stage p)
  | .storeAverage _ => some (.averageTimePerCycle p)
  | _ => none

/-- The members a statement of part `p` loads. -/
def Act.loads (p : PartType) : Act → List Field
  | .loadTimes _ | .testTimes _ => [.times]
  | .testNew d _ => [.isNewData d]
  | .testNeed _ => [.needCompulsiveCheckpoint p]
  | .loadStage _ => [.stage p]
  | .loadAverage _ => [.averageTimePerCycle p]
  | _ => []

/-- The member a statement of the manager stores to. -/
def CarAct.field : CarAct → Option Field
  | .initNew i | .clearNew i => some (.isNewData i.idx)
  | .initNeed i | .clearNeed i => some (.needCompulsiveCheckpoint i)
  | .initUnit i | .storeUnit i => some (.lastUnitCheckpoint i)
  | _ => none

/-- The members a statement of the manager loads. -/
def CarAct.loads : CarAct → List Field
  | .loadTimes _ | .testLoop _ | .testFault _ => [.times]
  | .testUnit i _ => [.lastUnitCheckpoint i, .averageTimePerCycle i]
  | .testNeed i _ => [.needCompulsiveCheckpoint i]
  | .testStage _ i _ => [.stage i]
  | _ => []

namespace Label

/-- The process that takes the step. -/
def process : Label → Option PartType
  | .part p _ => some p
  | .car _ => none

/-- The member stored to. -/
def field : Label → Option Field
  | .part p a => a.field p
  | .car a => a.field

/-- The members loaded. -/
def loads : Label → List Field
  | .part p a => a.loads p
  | .car a => a.loads

/-- The part whose constructor is executed. -/
def constructs : Label → Option PartType
  | .car (.fork p) => some p
  | _ => none

/-- **What a label is on the object**, in state `s`: a member it loads has the value that it has in
`s`, and a member it stores to gets the one it has behind the label. -/
def ops {abi : Abi} (cfg : Config) (E : Encoding abi) (s : Sys) (a : Label) : List (Op abi) :=
  (a.loads.map fun f => .load a.process f (E.state s.state f)) ++
    ((a.field.toList.map fun f => .store a.process f (E.state (a.next cfg s).state f)) ++
      a.constructs.toList.map .construct)

end Label

/-- **The recoverybase program, with its loads and stores on the object.** -/
def onMemory {abi : Abi} (cfg : Config) (E : Encoding abi) (prior : Shm) :
    Lts (Sys × World) Label where
  init x := x = (Sys.init cfg, Car.initState E prior)
  step x a := ((system cfg).step x.1 a).bind fun t =>
    ((memory E prior).exec x.2 (a.ops cfg E x.1)).map fun w => (t, w)

section System

variable {abi : Abi} {cfg : Config} {E : Encoding abi} {prior : Shm} {r : Members abi} {s : Sys}

theorem Act.state_write (E : Encoding abi) {p : PartType} {a : Act} {t : State} {g : Field}
    (h : a.field p ≠ some g) : E.state (a.write p t) g = E.state t g := by
  cases a with
  | storeTimes x =>
    cases g with
    | times => exact absurd rfl h
    | _ => rfl
  | storeNew d b =>
    cases g with
    | isNewData e =>
      have hne : e ≠ d := fun he => h (by rw [he]; rfl)
      exact congrArg E.bool (Function.update_of_ne hne ..)
    | _ => rfl
  | storeNeed =>
    cases g with
    | needCompulsiveCheckpoint q =>
      have hne : q ≠ p := fun he => h (by rw [he]; rfl)
      exact congrArg E.bool (Function.update_of_ne hne ..)
    | _ => rfl
  | storeStage b =>
    cases g with
    | stage q =>
      have hne : q ≠ p := fun he => h (by rw [he]; rfl)
      exact congrArg E.bool (Function.update_of_ne hne ..)
    | _ => rfl
  | storeAverage x =>
    cases g with
    | averageTimePerCycle q =>
      have hne : q ≠ p := fun he => h (by rw [he]; rfl)
      exact congrArg E.suseconds (Function.update_of_ne hne ..)
    | _ => rfl
  | _ => rfl

theorem CarAct.state_write (E : Encoding abi) {tv : Timeval} {a : CarAct} {t : State} {g : Field}
    (h : a.field ≠ some g) : E.state (a.write tv t) g = E.state t g := by
  cases a with
  | initNew i | clearNew i =>
    cases g with
    | isNewData d =>
      have hne : d ≠ i.idx := fun he => h (by rw [he]; rfl)
      exact congrArg E.bool (Function.update_of_ne hne ..)
    | _ => rfl
  | initNeed i | clearNeed i =>
    cases g with
    | needCompulsiveCheckpoint q =>
      have hne : q ≠ i := fun he => h (by rw [he]; rfl)
      exact congrArg E.bool (Function.update_of_ne hne ..)
    | _ => rfl
  | initUnit i | storeUnit i =>
    cases g with
    | lastUnitCheckpoint q =>
      have hne : q ≠ i := fun he => h (by rw [he]; rfl)
      exact congrArg E.timeval (Function.update_of_ne hne ..)
    | _ => rfl
  | _ => rfl

/-- **A label changes the member it stores to**, and no other. -/
theorem state_next (E : Encoding abi) {a : Label} {g : Field} (h : a.field ≠ some g) :
    E.state (a.next cfg s).state g = E.state s.state g := by
  cases a with
  | part p a => exact Act.state_write E h
  | car a => exact CarAct.state_write E h

/-- Loads of what is there. -/
theorem exec_loads {q : Option PartType} (hq : r.attached q = true) (fs : List Field) :
    (members E prior).exec r (fs.map fun f => .load q f (r.value f)) = some r := by
  induction fs with
  | nil => rfl
  | cons f fs ih =>
    have hstep : (members E prior).step r (.load q f (r.value f)) = some r := if_pos ⟨hq, rfl⟩
    rw [List.map_cons, Lts.exec, hstep, Option.bind_some]
    exact ih

/-- **A label on the members** takes them from one state to the next. -/
theorem exec_ops {a : Label} {attached : Option PartType → Bool}
    (hq : attached a.process = true) :
    (members E prior).exec ⟨E.state s.state, attached⟩ (a.ops cfg E s) =
      some ⟨E.state (a.next cfg s).state,
        a.constructs.elim attached fun p => Function.update attached (some p) true⟩ := by
  have hstore : (members E prior).exec ⟨E.state s.state, attached⟩
      (a.field.toList.map fun f => .store a.process f (E.state (a.next cfg s).state f)) =
        some ⟨E.state (a.next cfg s).state, attached⟩ := by
    cases hf : a.field with
    | none =>
      have hsame : E.state (a.next cfg s).state = E.state s.state :=
        funext fun g => state_next E (by rw [hf]; simp)
      rw [hsame]
      rfl
    | some f =>
      have hnew : Function.update (E.state s.state) f (E.state (a.next cfg s).state f) =
          E.state (a.next cfg s).state := by
        funext g
        by_cases hg : g = f
        · subst hg
          exact Function.update_self ..
        · rw [Function.update_of_ne hg]
          exact (state_next E (by rw [hf]; simpa using Ne.symm hg)).symm
      refine Option.bind_eq_some_iff.mpr ⟨⟨E.state (a.next cfg s).state, attached⟩, ?_, rfl⟩
      exact (if_pos hq).trans (congrArg (fun c => some (Members.mk c attached)) hnew)
  rw [Label.ops, Lts.exec_append, exec_loads (r := ⟨E.state s.state, attached⟩) hq,
    Option.bind_some, Lts.exec_append, hstore, Option.bind_some]
  cases a.constructs <;> rfl

/-- The object holds the representation of the State, and the parts forked have attached. -/
structure InMemory (E : Encoding abi) (prior : Shm) (s : Sys) (x : Sys × World) : Prop where
  sys : x.1 = s
  wf : Wf s
  whole : ∃ attached, Whole prior.next ⟨E.state s.state, attached⟩ x.2 ∧ attached none = true ∧
    ∀ p, p ∉ s.car.pc.unforked → attached (some p) = true

/-- A part that runs has been forked. -/
theorem notMem_unforked {p : PartType} {l : Local} (hw : Wf s) (hl : s.part p = .running l) :
    p ∉ s.car.pc.unforked := by
  intro hmem
  have hunborn := (hw.unborn p).mpr hmem
  rw [hl] at hunborn
  cases hunborn

/-- The parts forked after a label were so before, or the label forks them. -/
theorem unforked_next {a : Label} {p : PartType} (he : a.Enabled s)
    (hp : p ∉ (a.next cfg s).car.pc.unforked) :
    p ∉ s.car.pc.unforked ∨ a.constructs = some p := by
  cases a with
  | part q a => exact Or.inl hp
  | car a =>
    by_cases hfork : ∃ q, a = .fork q
    · obtain ⟨q, rfl⟩ := hfork
      have hmem : q ∈ s.car.pc.toFork := he
      cases hpc : s.car.pc with
      | forkPart todo =>
        have hp' : p ∉ todo.erase q := by
          simpa [Label.next, CarAct.move, hpc, CarPc.toFork, CarPc.unforked] using hp
        by_cases hq : p = q
        · subst hq
          exact Or.inr rfl
        · exact Or.inl fun hin => hp' ((List.mem_erase_of_ne hq).mpr hin)
      | _ => simp [hpc, CarPc.toFork] at hmem
    · have hsame : (a.move cfg s.car).pc.unforked = s.car.pc.unforked :=
        unforked_move he fun q hq => hfork ⟨q, hq⟩
      exact Or.inl fun hin => hp (hsame ▸ hin)

theorem InMemory.init (cfg : Config) (E : Encoding abi) (prior : Shm) :
    InMemory E prior (Sys.init cfg) (Sys.init cfg, Car.initState E prior) where
  sys := rfl
  wf := .init cfg
  whole := by
    refine ⟨_, whole_initState E prior, rfl, fun p hp => absurd ?_ hp⟩
    cases p <;> simp [Sys.init, CarPc.unforked, addPart]

theorem InMemory.step {x : Sys × World} {a : Label} {t : Sys} (h : InMemory E prior s x)
    (hs : (system cfg).step s a = some t) :
    ∃ y, (onMemory cfg E prior).step x a = some y ∧ InMemory E prior t y := by
  obtain ⟨s', w⟩ := x
  obtain rfl : s' = s := h.sys
  obtain ⟨attached, hwhole, hnone, hforked⟩ := h.whole
  obtain ⟨he, rfl⟩ := step_iff.mp hs
  have hq : attached a.process = true := by
    cases a with
    | part p a =>
      obtain ⟨l, -, hl, -⟩ := enabled_part.mp he
      exact hforked p (notMem_unforked h.wf hl)
    | car a => exact hnone
  obtain ⟨w', hw', h'⟩ := hwhole.exec (exec_ops hq)
  refine ⟨(a.next cfg s', w'), ?_, rfl, h.wf.step hs, _, h', ?_, fun p hp => ?_⟩
  · exact Option.bind_eq_some_iff.mpr ⟨_, hs, Option.map_eq_some_iff.mpr ⟨w', hw', rfl⟩⟩
  · cases a.constructs with
    | none => exact hnone
    | some q => simpa using hnone
  · rcases unforked_next he hp with hold | hnew
    · cases a.constructs with
      | none => exact hforked p hold
      | some q =>
        by_cases hq : p = q
        · simp [hq]
        · simp [hq, hforked p hold]
    · simp [hnew]

end System

/-- **The State of the system stands in the shared memory object.** Every run of the system can be
executed on the object, with loads that find the values of its labels, and without a fault; behind
it the manager and every part that runs find the State there, member by member. -/
theorem state_in_memory {abi : Abi} (cfg : Config) (E : Encoding abi) (prior : Shm)
    {tr : List Label} {s : Sys} (h : (system cfg).Run (Sys.init cfg) tr s) :
    ∃ w, (onMemory cfg E prior).Run (Sys.init cfg, Car.initState E prior) tr (s, w) ∧
      w.dead = [] ∧
      ∀ q : Option PartType, (∀ p, q = some p → ∃ l, s.part p = .running l) →
        ∀ f, w.load abi q f = some (E.state s.state f).toList := by
  obtain ⟨⟨s', w⟩, hrun, hmem⟩ := h.simulate (R := fun _ s x => InMemory E prior s x)
    (InMemory.init cfg E prior) fun _ s x a t _ hR hs => hR.step hs
  obtain rfl : s' = s := hmem.sys
  obtain ⟨attached, hwhole, hnone, hforked⟩ := hmem.whole
  refine ⟨w, hrun, hwhole.dead, fun q hq f => hwhole.load ?_ f⟩
  cases q with
  | none => exact hnone
  | some p =>
    obtain ⟨l, hl⟩ := hq p rfl
    exact hforked p (notMem_unforked hmem.wf hl)

/-- Sizes and alignments on a 64-bit Linux. -/
def Abi.lp64 : Abi where
  int := ⟨4, 4, Nat.succ_pos _, Nat.succ_pos _⟩
  double := ⟨8, 8, Nat.succ_pos _, Nat.succ_pos _⟩
  bool := ⟨1, 1, Nat.succ_pos _, Nat.succ_pos _⟩
  suseconds := ⟨8, 8, Nat.succ_pos _, Nat.succ_pos _⟩
  timeval := ⟨16, 8, Nat.succ_pos _, Nat.succ_pos _⟩
  pageSize := 4096
  pageSize_pos := Nat.succ_pos _

example : Abi.lp64.state.size = 128 := by decide

/-- An integer in `n` bytes, the lowest one first. -/
def littleEndian (n : ℕ) (x : ℤ) : Vector UInt8 n :=
  Vector.ofFn fun i => UInt8.ofNat (x / 256 ^ i.1 % 256).toNat

/-- Values on a 64-bit Linux; the program stores no `double` but 0. -/
def Encoding.lp64 : Encoding Abi.lp64 where
  int := littleEndian 4
  double _ := Vector.replicate 8 0
  bool b := littleEndian 1 (ofBool b)
  suseconds := littleEndian 8
  timeval tv := littleEndian 8 tv.tvSec ++ littleEndian 8 tv.tvUsec
  timeval_zero := rfl

/-- Camera is forked and announces its first picture. -/
def firstPicture : List Label :=
  [.car (.start ⟨5, 0⟩), .car (.fork .camera), .part .camera (.clockStart ⟨6, 0⟩),
    .part .camera .run, .part .camera (.storeNew 0 true)]

theorem state_in_memory_firstPicture :
    ∃ (s : Sys) (w : World),
      (onMemory .default Encoding.lp64 .empty).Run
        (Sys.init .default, Car.initState Encoding.lp64 .empty) firstPicture (s, w) ∧
        w.load Abi.lp64 none (.isNewData 0) = some [1] := by
  obtain ⟨s, hrun, hs⟩ := Lts.exists_run (M := system .default) (s := Sys.init .default)
    firstPicture (P := fun s => s.state.isNewData 0 = true) (by decide)
  obtain ⟨w, hw, -, hload⟩ := state_in_memory .default Encoding.lp64 .empty hrun
  refine ⟨s, w, hw, ?_⟩
  rw [hload none (by simp)]
  have hvalue : Encoding.lp64.state s.state (.isNewData 0) = Encoding.lp64.bool true :=
    congrArg Encoding.lp64.bool hs
  rw [hvalue]
  decide

end Vehicle.Recoverybase
