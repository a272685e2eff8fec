import Vehicle.Trace.Lts
import Vehicle.Recovery.Part

/-!
# recovery: the manager and the whole system

`Car::ForkPart` and `Car::Run` of `car.cpp`, interleaved with the parts, one load or store of the
State at a time. `Car::Run` makes no access to the State: the calls in its loop are commented out.
So nobody acknowledges a request for a checkpoint; `system true` adds an acknowledgement at any
time, to ask what the parts do when somebody does.
-/

namespace Vehicle.Recovery

open Vehicle.Trace

/-- Program points of the manager. -/
inductive CarPc
  /-- `ForkPart()`, with the parts not forked yet -/
  | forkPart (todo : List PartType)
  /-- the `for` in the `while (true)` of `Run` -/
  | loop
  /-- `sleep(1)` -/
  | sleep
  deriving DecidableEq, Repr

/-- The whole system. -/
structure Sys where
  state : State
  car : CarPc
  part : PartType → Proc

/-- A statement the manager executes. `fork` walks an `unordered_map`, so it visits the parts in any
order, and it may fail. -/
inductive CarAct
  | fork (p : PartType) (ok : Bool)
  | initFinished
  | loop
  | sleep
  deriving DecidableEq, Repr

/-- One atomic step. -/
inductive Label
  | part (p : PartType) (a : Act)
  /-- the constructor of a part; that of `Remote` exits without a connection -/
  | construct (p : PartType) (ok : Bool)
  | car (a : CarAct)
  | acknowledge (i : Fin 4)

/-- The parts in `part_pid_`. -/
def addPart : List PartType := [.camera, .servoPID, .throttlePID, .speed, .remote]

/-- The parts `ForkPart` has still to fork. -/
def CarPc.toFork : CarPc → List PartType
  | .forkPart todo => todo
  | _ => []

/-- When the manager can execute an act. -/
def CarAct.Enabled (c : CarPc) : CarAct → Prop
  | .fork p _ => p ∈ c.toFork
  | .initFinished => c = .forkPart []
  | .loop => c = .loop
  | .sleep => c = .sleep

instance (c : CarPc) : ∀ a : CarAct, Decidable (a.Enabled c)
  | .fork p _ => inferInstanceAs (Decidable (p ∈ c.toFork))
  | .initFinished => inferInstanceAs (Decidable (c = .forkPart []))
  | .loop => inferInstanceAs (Decidable (c = .loop))
  | .sleep => inferInstanceAs (Decidable (c = .sleep))

/-- The manager after one of its acts; the `for` of `Run` has an empty body. -/
def CarAct.move (c : CarPc) : CarAct → CarPc
  | .fork p _ => .forkPart (c.toFork.erase p)
  | .initFinished => .loop
  | .loop => .sleep
  | .sleep => .loop

/-- The parts after an act of the manager. -/
def CarAct.spawn (part : PartType → Proc) : CarAct → PartType → Proc
  | .fork p true => Function.update part p .constructing
  | _ => part

/-- When a part can execute an act. -/
def Proc.Enables (p : PartType) (s : State) (a : Act) : Proc → Prop
  | .running l => l.rest.head? = some a.instr ∧ a.Agrees p s l
  | _ => False

instance (p : PartType) (s : State) (a : Act) : ∀ q : Proc, Decidable (q.Enables p s a)
  | .running l => inferInstanceAs (Decidable (l.rest.head? = some a.instr ∧ a.Agrees p s l))
  | .unborn | .constructing | .exited => isFalse id

/-- Whether a part is in its constructor. -/
def Proc.isConstructing : Proc → Bool
  | .constructing => true
  | _ => false

/-- When a label can be executed. -/
def Label.Enabled (handled : Bool) (s : Sys) : Label → Prop
  | .part p a => (s.part p).Enables p s.state a
  | .construct p ok => (s.part p).isConstructing ∧ (ok ∨ p = .remote)
  | .car a => a.Enabled s.car
  | .acknowledge _ => handled

instance (handled : Bool) (s : Sys) : ∀ a : Label, Decidable (a.Enabled handled s)
  | .part p a => inferInstanceAs (Decidable ((s.part p).Enables p s.state a))
  | .construct p ok =>
    inferInstanceAs (Decidable ((s.part p).isConstructing = true ∧ (ok = true ∨ p = .remote)))
  | .car a => inferInstanceAs (Decidable (a.Enabled s.car))
  | .acknowledge _ => inferInstanceAs (Decidable (handled = true))

/-- The process after an act it executes. -/
def Proc.after (p : PartType) (a : Act) : Proc → Proc
  | .running l => a.after p l
  | q => q

/-- The system after a label. -/
def Label.next (s : Sys) : Label → Sys
  | .part p a =>
    { s with
      state := a.write p s.state
      part := Function.update s.part p ((s.part p).after p a) }
  | .construct p ok =>
    { s with part := Function.update s.part p (if ok then .running (.start p) else .exited) }
  | .car a => { s with car := a.move s.car, part := a.spawn s.part }
  | .acknowledge i => { s with state := s.state.setNeed i false }

/-- The system when `Car::Init` calls `ForkPart`: the State is set up, no part is forked. -/
def Sys.init : Sys where
  state := initState
  car := .forkPart addPart
  part := fun _ => .unborn

/-- **The recovery program**; with `handled`, its requests for checkpoints are acknowledged at any
time. -/
def system (handled : Bool) : Lts Sys Label where
  init s := s = Sys.init
  step s a := if a.Enabled handled s then some (a.next s) else none

theorem step_iff {handled : Bool} {s t : Sys} {a : Label} :
    (system handled).step s a = some t ↔ a.Enabled handled s ∧ t = a.next s := by
  simp [system, eq_comm]

/-- What a step of a part finds and leaves. -/
theorem part_step {handled : Bool} {s t : Sys} {p : PartType} {a : Act}
    (h : (system handled).step s (.part p a) = some t) :
    ∃ l k, s.part p = .running l ∧ l.rest = a.instr :: k ∧ a.Agrees p s.state l ∧
      t.state = a.write p s.state ∧ t.car = s.car ∧
      t.part = Function.update s.part p (a.after p l) := by
  obtain ⟨hen, rfl⟩ := step_iff.mp h
  cases hq : s.part p with
  | running l =>
    simp only [Label.Enabled, hq, Proc.Enables] at hen
    obtain ⟨hhead, hag⟩ := hen
    obtain ⟨k, hk⟩ := List.head?_eq_some_iff.mp hhead
    exact ⟨l, k, rfl, hk, hag, rfl, rfl, by simp only [Label.next, hq, Proc.after]⟩
  | _ => simp [Label.Enabled, hq, Proc.Enables] at hen

end Vehicle.Recovery
