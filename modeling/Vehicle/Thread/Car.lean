import Vehicle.Trace.Lts
import Vehicle.Recovery.Steady

/-!
# The program with threads

`car.cpp`, `servoPID.cpp`, `throttlePID.cpp` and `speed.cpp` at the top of the repository: a single
process, in which `Car::StartThread` starts a thread for every part but the `Pca`, and the main
thread stays in the loop of `Car::StartSequence`. The threads share the members of the `Car` without
a lock; an access to one is taken to be indivisible, and every thread to be running from the start.
What `Speed::Run` measures is left open, and the thread of the camera uses none of these members.

`ServoPID::Run` measures what it has stored itself, so the car is never steered (`steers_nowhere`).
-/

namespace Vehicle.Thread

open Vehicle.Trace Vehicle.Recovery

/-! ### The parts -/

/-- The first argument of the constructor of `pid`, in both headers. -/
def gainP : ℚ := 0.00228677780020377

/-- The second one. -/
def gainI : ℚ := 0.00277411402751383

/-- The third one. -/
def gainD : ℚ := -0.000169192834187225

theorem gainP_nonneg : 0 ≤ gainP := by norm_num [gainP]

theorem gainI_pos : 0 < gainI := by norm_num [gainI]

/-- Where a controller is in its loop. -/
inductive Place
  | loop
  | read (actual : ℚ)
  | computed (output : ℚ)
  | set (output : ℚ)
  deriving DecidableEq

/-- A controller of class `ServoPID` or `ThrottlePID`. -/
structure Controller where
  pid : MiniPID
  place : Place
  deriving DecidableEq

/-- The constructors, with the arguments of `setOutputLimits`. -/
def Controller.new (minimum maximum : ℚ) : Controller :=
  ⟨(MiniPID.new gainP gainI gainD).setOutputLimits minimum maximum, .loop⟩

/-- The measured value is read. -/
def Controller.read (c : Controller) (actual : ℚ) : Option Controller :=
  if c.place = .loop then some { c with place := .read actual } else none

/-- The target is read, and `getOutput` called. -/
def Controller.compute (c : Controller) (setpoint : ℚ) : Option Controller :=
  match c.place with
  | .read actual =>
    some ⟨(c.pid.getOutput actual setpoint).2, .computed (c.pid.getOutput actual setpoint).1⟩
  | _ => none

/-- The output from which a controller makes a pulse next. -/
def Controller.output (c : Controller) : Option ℚ :=
  match c.place with
  | .computed output => some output
  | _ => none

/-! ### The threads -/

/-- The members of the `Car` that the threads use. -/
structure Car where
  speed : ℚ
  direction : ℚ
  targetSpeed : ℚ
  targetDirection : ℚ
  deriving DecidableEq

/-- `Car::Car`. -/
def Car.new : Car where
  speed := 0
  direction := 1.5
  targetSpeed := 50
  targetDirection := 1.5

/-- The process. -/
structure Process where
  car : Car
  servo : Controller
  throttle : Controller
  exited : Bool
  deriving DecidableEq

/-- When the threads are started. -/
def Process.start : Process where
  car := .new
  servo := .new (-1) 1
  throttle := .new 0 1
  exited := false

/-- A statement of a thread. -/
inductive Act
  /-- `Car::StartSequence` prints the speed -/
  | prints (speed : ℚ)
  /-- `Speed::Run` has measured a speed -/
  | storesSpeed (speed : ℚ)
  | servoReads
  | servoComputes
  | setDirect (pulse : ℚ)
  | storesDirection
  | throttleReads
  | throttleComputes
  | setSpeed (pulse : ℚ)
  deriving DecidableEq

/-- A statement is executed; none is after `exit`. -/
def Process.next (s : Process) (a : Act) : Option Process :=
  if s.exited = true then none
  else
    match a with
    | .prints speed => if speed = s.car.speed then some s else none
    | .storesSpeed speed => some { s with car := { s.car with speed := speed } }
    | .servoReads => (s.servo.read s.car.direction).map fun c => { s with servo := c }
    | .servoComputes => (s.servo.compute s.car.targetDirection).map fun c => { s with servo := c }
    | .setDirect pulse =>
      match s.servo.output with
      | some output =>
        if pulse = output / 2 + 1.5 then
          some (if (Pca.setDirect pulse).isNone = true then { s with exited := true }
            else { s with servo := { s.servo with place := .set output } })
        else none
      | none => none
    | .storesDirection =>
      match s.servo.place with
      | .set output =>
        some { s with
          car := { s.car with direction := output / 2 + 1.5 }
          servo := { s.servo with place := .loop } }
      | _ => none
    | .throttleReads => (s.throttle.read s.car.speed).map fun c => { s with throttle := c }
    | .throttleComputes =>
      (s.throttle.compute s.car.targetSpeed).map fun c => { s with throttle := c }
    | .setSpeed pulse =>
      match s.throttle.output with
      | some output =>
        if pulse = output / 2 + 1.5 then
          some (if (Pca.setSpeed pulse).isNone = true then { s with exited := true }
            else { s with throttle := { s.throttle with place := .loop } })
        else none
      | none => none

/-- **The program with threads.** -/
def threads : Lts Process Act where
  init s := s = .start
  step := Process.next

/-- What a statement does. -/
inductive Moves (s : Process) : Act → Process → Prop
  | prints : Moves s (.prints s.car.speed) s
  | storesSpeed (speed : ℚ) :
    Moves s (.storesSpeed speed) { s with car := { s.car with speed := speed } }
  | servoReads : s.servo.place = .loop →
    Moves s .servoReads { s with servo := ⟨s.servo.pid, .read s.car.direction⟩ }
  | servoComputes (actual : ℚ) : s.servo.place = .read actual →
    Moves s .servoComputes
      { s with servo := ⟨(s.servo.pid.getOutput actual s.car.targetDirection).2,
        .computed (s.servo.pid.getOutput actual s.car.targetDirection).1⟩ }
  | setDirect (output : ℚ) : s.servo.place = .computed output →
    Pca.setDirect (output / 2 + 1.5) ≠ none →
      Moves s (.setDirect (output / 2 + 1.5)) { s with servo := ⟨s.servo.pid, .set output⟩ }
  | directExits (output : ℚ) : s.servo.place = .computed output →
    Pca.setDirect (output / 2 + 1.5) = none →
      Moves s (.setDirect (output / 2 + 1.5)) { s with exited := true }
  | storesDirection (output : ℚ) : s.servo.place = .set output →
    Moves s .storesDirection { s with
      car := { s.car with direction := output / 2 + 1.5 }, servo := ⟨s.servo.pid, .loop⟩ }
  | throttleReads : s.throttle.place = .loop →
    Moves s .throttleReads { s with throttle := ⟨s.throttle.pid, .read s.car.speed⟩ }
  | throttleComputes (actual : ℚ) : s.throttle.place = .read actual →
    Moves s .throttleComputes
      { s with throttle := ⟨(s.throttle.pid.getOutput actual s.car.targetSpeed).2,
        .computed (s.throttle.pid.getOutput actual s.car.targetSpeed).1⟩ }
  | setSpeed (output : ℚ) : s.throttle.place = .computed output →
    Pca.setSpeed (output / 2 + 1.5) ≠ none →
      Moves s (.setSpeed (output / 2 + 1.5)) { s with throttle := ⟨s.throttle.pid, .loop⟩ }
  | speedExits (output : ℚ) : s.throttle.place = .computed output →
    Pca.setSpeed (output / 2 + 1.5) = none →
      Moves s (.setSpeed (output / 2 + 1.5)) { s with exited := true }

section Moves

variable {s t : Process} {a : Act} {c c' : Controller} {x output : ℚ}

theorem Controller.read_eq_some (h : c.read x = some c') :
    c.place = .loop ∧ c' = ⟨c.pid, .read x⟩ := by
  unfold read at h
  split at h
  · rename_i hloop
    exact ⟨hloop, (Option.some.inj h).symm⟩
  · cases h

theorem Controller.compute_eq_some (h : c.compute x = some c') : ∃ actual, c.place = .read actual ∧
    c' = ⟨(c.pid.getOutput actual x).2, .computed (c.pid.getOutput actual x).1⟩ := by
  unfold compute at h
  split at h
  · rename_i actual hread
    exact ⟨actual, hread, (Option.some.inj h).symm⟩
  · cases h

theorem Controller.output_eq_some (h : c.output = some output) : c.place = .computed output := by
  unfold Controller.output at h
  split at h
  · rename_i hplace
    rw [hplace, Option.some.inj h]
  · cases h

theorem moves_of_step (h : threads.step s a = some t) : s.exited = false ∧ Moves s a t := by
  change s.next a = some t at h
  unfold Process.next at h
  split at h
  · cases h
  · rename_i hrun
    refine ⟨Bool.eq_false_iff.mpr hrun, ?_⟩
    cases a with
    | prints speed =>
      dsimp only at h
      split at h
      · rename_i he
        cases h
        exact he ▸ .prints
      · cases h
    | storesSpeed speed =>
      cases h
      exact .storesSpeed speed
    | servoReads =>
      obtain ⟨c, hc, rfl⟩ := Option.map_eq_some_iff.mp h
      obtain ⟨hloop, rfl⟩ := Controller.read_eq_some hc
      exact .servoReads hloop
    | servoComputes =>
      obtain ⟨c, hc, rfl⟩ := Option.map_eq_some_iff.mp h
      obtain ⟨actual, hread, rfl⟩ := Controller.compute_eq_some hc
      exact .servoComputes actual hread
    | setDirect pulse =>
      dsimp only at h
      split at h
      · rename_i output hout
        split at h
        · rename_i hpulse
          subst hpulse
          cases h
          split
          · rename_i hnone
            exact .directExits output (Controller.output_eq_some hout)
              (Option.isNone_iff_eq_none.mp hnone)
          · rename_i hsome
            exact .setDirect output (Controller.output_eq_some hout)
              fun hnone => hsome (Option.isNone_iff_eq_none.mpr hnone)
        · cases h
      · cases h
    | storesDirection =>
      dsimp only at h
      split at h
      · rename_i output hset
        cases h
        exact .storesDirection output hset
      · cases h
    | throttleReads =>
      obtain ⟨c, hc, rfl⟩ := Option.map_eq_some_iff.mp h
      obtain ⟨hloop, rfl⟩ := Controller.read_eq_some hc
      exact .throttleReads hloop
    | throttleComputes =>
      obtain ⟨c, hc, rfl⟩ := Option.map_eq_some_iff.mp h
      obtain ⟨actual, hread, rfl⟩ := Controller.compute_eq_some hc
      exact .throttleComputes actual hread
    | setSpeed pulse =>
      dsimp only at h
      split at h
      · rename_i output hout
        split at h
        · rename_i hpulse
          subst hpulse
          cases h
          split
          · rename_i hnone
            exact .speedExits output (Controller.output_eq_some hout)
              (Option.isNone_iff_eq_none.mp hnone)
          · rename_i hsome
            exact .setSpeed output (Controller.output_eq_some hout)
              fun hnone => hsome (Option.isNone_iff_eq_none.mpr hnone)
        · cases h
      · cases h

end Moves

/-! ### What is set -/

/-- The servo's controller, before its first output and behind every output. -/
def servoPids : List MiniPID :=
  [(Controller.new (-1) 1).pid, ((Controller.new (-1) 1).pid.getOutput 1.5 1.5).2]

/-- At the middle with the middle as its target the servo's controller computes 0. -/
theorem servo_getOutput : ∀ pid ∈ servoPids,
    (pid.getOutput 1.5 1.5).1 = 0 ∧ (pid.getOutput 1.5 1.5).2 ∈ servoPids := by
  decide +kernel

/-- The servo is in the middle, and the outputs of the throttle are within its limits. -/
structure Centred (s : Process) : Prop where
  running : s.exited = false
  direction : s.car.direction = 1.5
  targetDirection : s.car.targetDirection = 1.5
  targetSpeed : s.car.targetSpeed = 50
  servo : s.servo.pid ∈ servoPids
  servoPlace : s.servo.place ∈ [.loop, .read 1.5, .computed 0, .set 0]
  throttle : s.throttle.pid.Integrating gainP gainI 1
  throttlePlace : ∀ output, s.throttle.place = .computed output → 0 ≤ output ∧ output ≤ 1

theorem Centred.start : Centred .start where
  running := rfl
  direction := rfl
  targetDirection := rfl
  targetSpeed := rfl
  servo := List.mem_cons_self
  servoPlace := List.mem_cons_self
  throttle := .new one_pos gainI_pos.ne'
  throttlePlace output h := by cases h

/-- What is set where the servo is in the middle. -/
def Act.Safe (a : Act) : Prop :=
  (∀ x, a = .setDirect x → x = 1.5 ∧ Pca.setDirect x = some (311, 368)) ∧
    ∀ x, a = .setSpeed x → 1.5 ≤ x ∧
      ∃ ticks, Pca.setSpeed x = some (315, ticks) ∧ 368 ≤ ticks ∧ ticks ≤ 491

section Centred

variable {s t : Process} {a : Act} {tr : List Act}

theorem setDirect_middle : Pca.setDirect (0 / 2 + 1.5) = some (311, 368) := by decide +kernel

theorem setSpeed_range {output : ℚ} (h0 : 0 ≤ output) (h1 : output ≤ 1) :
    ∃ ticks, Pca.setSpeed (output / 2 + 1.5) = some (315, ticks) ∧ 368 ≤ ticks ∧ ticks ≤ 491 := by
  obtain ⟨ticks, hticks, hle⟩ : ∃ ticks, Pca.calcTicks (output / 2 + 1.5) Pca.hertz = some ticks ∧
      368 ≤ ticks ∧ ticks ≤ 491 :=
    Pca.calcTicks_range (show (1 : ℚ) ≤ 1.5 by norm_num) (by norm_num) (by linarith) (by linarith)
  refine ⟨ticks, ?_, hle⟩
  rw [Pca.setSpeed, hticks]
  rfl

theorem Centred.step (h : Centred s) (hs : threads.step s a = some t) : Centred t ∧ a.Safe := by
  obtain ⟨-, hm⟩ := moves_of_step hs
  cases hm with
  | prints => exact ⟨h, by simp [Act.Safe]⟩
  | storesSpeed speed => exact ⟨{ h with }, by simp [Act.Safe]⟩
  | servoReads hloop =>
    refine ⟨{ h with servoPlace := ?_ }, by simp [Act.Safe]⟩
    simp [h.direction]
  | servoComputes actual hread =>
    have hactual : actual = 1.5 := by simpa [hread] using h.servoPlace
    obtain ⟨hout, hpid⟩ := servo_getOutput _ h.servo
    rw [h.targetDirection, hactual]
    refine ⟨{ h with servo := hpid, servoPlace := ?_ }, by simp [Act.Safe]⟩
    simp [hout]
  | setDirect output hcomp hsome =>
    have hout : output = 0 := by simpa [hcomp] using h.servoPlace
    subst hout
    refine ⟨{ h with servoPlace := by simp }, ?_, by simp⟩
    rintro x hx
    cases hx
    exact ⟨by norm_num, setDirect_middle⟩
  | directExits output hcomp hnone =>
    have hout : output = 0 := by simpa [hcomp] using h.servoPlace
    rw [hout, setDirect_middle] at hnone
    cases hnone
  | storesDirection output hset =>
    have hout : output = 0 := by simpa [hset] using h.servoPlace
    refine ⟨{ h with direction := ?_, servoPlace := List.mem_cons_self }, by simp [Act.Safe]⟩
    norm_num [hout]
  | throttleReads hloop =>
    exact ⟨{ h with throttlePlace := fun output he => by cases he }, by simp [Act.Safe]⟩
  | throttleComputes actual hread =>
    have hout := (h.throttle.getOutput_eq one_pos actual s.car.targetSpeed).1
    refine ⟨{ h with throttle := h.throttle.getOutput _ _, throttlePlace := ?_ },
      by simp [Act.Safe]⟩
    intro output he
    cases he
    rw [hout]
    exact MiniPID.clamp_mem zero_le_one
  | setSpeed output hcomp hsome =>
    obtain ⟨h0, h1⟩ := h.throttlePlace output hcomp
    refine ⟨{ h with throttlePlace := fun output he => by cases he }, by simp, ?_⟩
    rintro x hx
    cases hx
    exact ⟨by linarith, setSpeed_range h0 h1⟩
  | speedExits output hcomp hnone =>
    obtain ⟨h0, h1⟩ := h.throttlePlace output hcomp
    obtain ⟨ticks, hticks, -⟩ := setSpeed_range h0 h1
    rw [hticks] at hnone
    cases hnone

/-- **The car is never steered**: whatever speeds are measured and in whichever order the threads
run, the servo is set to the middle again and again, the throttle never backwards, and the program
does not exit. -/
theorem steers_nowhere (h : threads.Run .start tr s) :
    s.exited = false ∧ s.car.direction = 1.5 ∧ ∀ a ∈ tr, a.Safe := by
  have key : Centred s ∧ ∀ a ∈ tr, a.Safe := by
    refine h.inv (I := fun tr s => Centred s ∧ ∀ a ∈ tr, a.Safe) ⟨.start, by simp⟩ ?_
    rintro tr s a t - ⟨hs, htr⟩ hstep
    obtain ⟨ht, ha⟩ := hs.step hstep
    refine ⟨ht, fun b hb => ?_⟩
    rcases List.mem_append.mp hb with hb | hb
    · exact htr b hb
    · rw [List.mem_singleton.mp hb]
      exact ha
  exact ⟨key.1.running, key.1.direction, key.2⟩

end Centred

/-- A round of both controllers, one inside of the other, in which a speed comes too late. -/
def bothControllers : List Act :=
  [.throttleReads, .storesSpeed 100, .servoReads, .throttleComputes, .servoComputes,
    .setDirect 1.5, .setSpeed 1.55716944500509425, .storesDirection, .prints 100, .throttleReads]

theorem steers_nowhere_both : ∃ s, threads.Run .start bothControllers s ∧
    s.exited = false ∧ s.car.direction = 1.5 ∧ ∀ a ∈ bothControllers, a.Safe := by
  obtain ⟨s, hs, -⟩ := threads.exists_run (s := .start) bothControllers (P := fun _ => True)
    (by decide +kernel)
  exact ⟨s, hs, steers_nowhere hs⟩

end Vehicle.Thread
