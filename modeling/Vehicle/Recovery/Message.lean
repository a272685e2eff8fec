import Mathlib.Data.List.Nodup
import Mathlib.Data.List.TakeWhile
import Mathlib.Tactic.FinCases
import Vehicle.Recovery.Part

/-!
# recovery: a message of the remote

The `read` of `Remote::Run` and what is done with it: the text goes to jsoncpp, whatever its length
is, and what `root` then says goes to the State, whatever `parse` has returned. So a read that is no
message leaves every State alone only if the process ends on it, and a State it leaves alone has
the members that are completed in the text, and nothing in those that are not (`handle_bad_iff`).

jsoncpp is a parameter of the model (`Jsoncpp`). The assignments are the statements of
`Remote.apply` (`apply_eq`), with the paths into `root` that they read.
-/

namespace Vehicle.Recovery.Remote

/-! ### jsoncpp -/

/-- What `Remote` uses of jsoncpp. A value that cannot be indexed or converted throws (`none`), and
the process ends, as nobody catches. The null members that `operator[]` inserts into `root` are not
told from absent ones. -/
structure Jsoncpp where
  /-- `Json::Value` -/
  Value : Type
  /-- what an absent member is, and `root` when it is constructed -/
  null : Value
  /-- `Reader::parse(text, root)`: what it returns, and what it stores in `root`; it stores nothing
  if no value begins in the text -/
  parse : List UInt8 → Bool × Option Value
  /-- `Value::operator[]` -/
  index : Value → String → Option Value
  asString : Value → Option String
  asDouble : Value → Option ℚ
  index_null : ∀ key, index null key = some null
  asString_null : asString null = some ""
  asDouble_null : asDouble null = some 0

/-! ### A read -/

/-- `read(sockfd, buff, sizeof(buff))`: the bytes that are read, none if the connection is closed or
the call fails, and what stands in memory behind `buff`. -/
structure Read where
  bytes : List UInt8
  beyond : List UInt8
  le : bytes.length ≤ 1024

/-- The string that `parse` makes of `buff`: it ends at the first 0, in `buff` or behind it. -/
def Read.text (r : Read) : List UInt8 :=
  (r.bytes ++ List.replicate (1024 - r.bytes.length) 0 ++ r.beyond).takeWhile (· != 0)

/-! ### The assignments -/

/-- The left sides: two members of the State, and the variables `forward` and `throttle`, which
nobody reads. -/
inductive Target
  | auto
  | forward
  | throttle
  | data (d : Datum)
  deriving DecidableEq, Repr

/-- The type of a left side. -/
abbrev Target.Content : Target → Type
  | .auto | .forward => Bool
  | .throttle | .data _ => ℚ

/-- An assignment: its left side, and the keys after `root`. -/
structure Assignment where
  target : Target
  path : List String

/-- The assignments of `Remote::Run`, in its order. -/
def assignments : List Assignment :=
  [⟨.auto, ["auto"]⟩, ⟨.data .direction, ["servo"]⟩, ⟨.forward, ["forward"]⟩,
    ⟨.throttle, ["throttle"]⟩, ⟨.data .speed, ["speed"]⟩,
    ⟨.data (.servoPID 0), ["servo-PID", "P"]⟩, ⟨.data (.servoPID 1), ["servo-PID", "I"]⟩,
    ⟨.data (.servoPID 2), ["servo-PID", "D"]⟩, ⟨.data (.throttlePID 0), ["throttle-PID", "P"]⟩,
    ⟨.data (.throttlePID 1), ["throttle-PID", "I"]⟩,
    ⟨.data (.throttlePID 2), ["throttle-PID", "D"]⟩]

/-- `root[..][..]`. -/
def Jsoncpp.get (J : Jsoncpp) (root : J.Value) (path : List String) : Option J.Value :=
  path.foldlM J.index root

/-- `.asString()=="true"` for a `bool`, `.asDouble()` for a `double`. -/
def Jsoncpp.convert (J : Jsoncpp) (v : J.Value) : (t : Target) → Option t.Content
  | .auto | .forward => (J.asString v).map fun x => x == "true"
  | .throttle | .data _ => J.asDouble v

/-- The right side of an assignment. -/
def Jsoncpp.content (J : Jsoncpp) (root : J.Value) (a : Assignment) : Option a.target.Content :=
  (J.get root a.path).bind fun v => J.convert v a.target

/-- A store to the left side. -/
def Target.store : (t : Target) → t.Content → State → State
  | .auto, b, s => { s with auto := b }
  | .data d, x, s => s.setDatum d x
  | .forward, _, s | .throttle, _, s => s

/-- What the State holds on the left side. -/
def Target.cell : (t : Target) → State → Option t.Content
  | .auto, s => some s.auto
  | .data d, s => some (s.data d)
  | .forward, _ | .throttle, _ => none

/-- Assignments one after the other, up to one that throws; whether none does. -/
def Jsoncpp.assign (J : Jsoncpp) (root : J.Value) : List Assignment → State → State × Bool
  | [], s => (s, true)
  | a :: as, s =>
    match J.content root a with
    | none => (s, false)
    | some c => J.assign root as (a.target.store c s)

/-! ### Handling a read -/

/-- The remote between two reads: `root`, unless an exception has ended the process, and the
State. -/
structure Receiver (J : Jsoncpp) where
  root : Option J.Value
  state : State

/-- What `parse` leaves in `root`. -/
def Jsoncpp.left (J : Jsoncpp) (root : J.Value) (r : Read) : J.Value :=
  (J.parse r.text).2.getD root

/-- **What `Remote::Run` does with a read.** -/
def Jsoncpp.handle (J : Jsoncpp) (x : Receiver J) (r : Read) : Receiver J :=
  match x.root with
  | none => x
  | some root =>
    let out := J.assign (J.left root r) assignments x.state
    ⟨if out.2 then some (J.left root r) else none, out.1⟩

/-- A short read without a 0 is the text. -/
theorem Read.text_eq {r : Read} (h : 0 ∉ r.bytes) (hlen : r.bytes.length < 1024) :
    r.text = r.bytes := by
  obtain ⟨n, hn⟩ : ∃ n, 1024 - r.bytes.length = n + 1 := ⟨1023 - r.bytes.length, by omega⟩
  have hbytes : ∀ b ∈ r.bytes, (b != 0) = true := by
    intro b hb
    rw [bne_iff_ne]
    exact fun heq => h (heq ▸ hb)
  unfold Read.text
  rw [hn, List.replicate_succ, List.append_assoc, List.takeWhile_append_of_pos hbytes]
  simp

/-! ### The assignments as statements of `RunALL` -/

/-- The statement of `Remote.apply` that an assignment is. -/
def Target.instr : Target → Option Instr
  | .auto => some .storeAuto
  | .data d => some (.storeRoot d)
  | .forward | .throttle => none

/-- The act that executes it. -/
def Target.act : (t : Target) → t.Content → Option Act
  | .auto, b => some (.storeAuto b)
  | .data d, x => some (.storeRoot d x)
  | .forward, _ | .throttle, _ => none

/-- The assignments to the State are the statements of `Remote.apply`. -/
theorem apply_eq : apply = assignments.filterMap fun a => a.target.instr := rfl

theorem act_instr (t : Target) (c : t.Content) : (t.act c).map Act.instr = t.instr := by
  cases t <;> rfl

/-- They store what the act stores. -/
theorem write_eq_store (t : Target) (c : t.Content) (s : State) :
    (t.act c).elim s (fun a => a.write .remote s) = t.store c s := by
  cases t <;> rfl

/-! ### A store -/

section Store

variable {t u : Target} {s : State}

theorem cell_store (c : t.Content) : t.cell (t.store c s) = (t.cell s).map fun _ => c := by
  cases t with
  | auto => rfl
  | forward => rfl
  | throttle => rfl
  | data d => simp [Target.cell, Target.store, State.setDatum]

theorem cell_store_of_ne (h : u ≠ t) (c : t.Content) : u.cell (t.store c s) = u.cell s := by
  cases t with
  | auto =>
    cases u with
    | auto => exact absurd rfl h
    | forward => rfl
    | throttle => rfl
    | data e => rfl
  | forward => rfl
  | throttle => rfl
  | data d =>
    cases u with
    | auto => rfl
    | forward => rfl
    | throttle => rfl
    | data e =>
      have hne : e ≠ d := fun heq => h (by rw [heq])
      simp [Target.cell, Target.store, State.setDatum, hne]

theorem store_eq_self (c : t.Content) (h : ∀ x ∈ t.cell s, x = c) : t.store c s = s := by
  cases t with
  | auto =>
    have hc : s.auto = c := h _ rfl
    rw [← hc]
    rfl
  | forward => rfl
  | throttle => rfl
  | data d =>
    have hc : s.data d = c := h _ rfl
    rw [← hc]
    simp [Target.store, State.setDatum]

end Store

/-! ### The assignments one after the other -/

/-- No assignment throws. -/
def Jsoncpp.Converts (J : Jsoncpp) (root : J.Value) : Prop :=
  ∀ a ∈ assignments, (J.content root a).isSome

instance (J : Jsoncpp) (root : J.Value) : Decidable (J.Converts root) :=
  inferInstanceAs (Decidable (∀ a ∈ assignments, (J.content root a).isSome))

/-- The assignments before the first one whose member cannot be converted. -/
def Jsoncpp.convertible (J : Jsoncpp) (root : J.Value) : List Assignment :=
  assignments.takeWhile fun a => (J.content root a).isSome

section Assign

variable {J : Jsoncpp} {root : J.Value} {a : Assignment} {as : List Assignment} {s : State}

theorem nodup_targets : (assignments.map Assignment.target).Nodup := by decide

theorem assign_cons {c : a.target.Content} (h : J.content root a = some c) :
    J.assign root (a :: as) s = J.assign root as (a.target.store c s) := by
  simp [Jsoncpp.assign, h]

theorem assign_throw (h : J.content root a = none) : J.assign root (a :: as) s = (s, false) := by
  simp [Jsoncpp.assign, h]

/-- **No assignment throws, or the process ends.** -/
theorem assign_snd : (J.assign root as s).2 = true ↔ ∀ a ∈ as, (J.content root a).isSome := by
  induction as generalizing s with
  | nil => simp [Jsoncpp.assign]
  | cons a as ih =>
    cases h : J.content root a with
    | none => simp [assign_throw h, h]
    | some c => simp [assign_cons h, h, ih]

/-- What no assignment stores to stays. -/
theorem cell_assign_of_notMem {t : Target} (ht : t ∉ as.map Assignment.target) :
    t.cell (J.assign root as s).1 = t.cell s := by
  induction as generalizing s with
  | nil => rfl
  | cons a as ih =>
    rw [List.map_cons, List.mem_cons, not_or] at ht
    cases h : J.content root a with
    | none => rw [assign_throw h]
    | some c => rw [assign_cons h, ih ht.2, cell_store_of_ne ht.1]

/-- **What an assignment stores stays**, as no other one stores there. -/
theorem cell_assign (hnodup : (as.map Assignment.target).Nodup) (ha : a ∈ as)
    (hall : ∀ b ∈ as, (J.content root b).isSome) {x : a.target.Content}
    (hx : x ∈ a.target.cell (J.assign root as s).1) : J.content root a = some x := by
  induction as generalizing s with
  | nil => cases ha
  | cons b as ih =>
    rw [List.map_cons, List.nodup_cons] at hnodup
    obtain ⟨c, hc⟩ := Option.isSome_iff_exists.mp (hall b (List.mem_cons_self ..))
    rw [assign_cons hc] at hx
    rcases List.mem_cons.mp ha with rfl | ha
    · rw [cell_assign_of_notMem hnodup.1, cell_store] at hx
      obtain ⟨-, -, rfl⟩ := Option.map_eq_some_iff.mp hx
      exact hc
    · exact ih hnodup.2 ha (fun b hb => hall b (List.mem_cons_of_mem _ hb)) hx

/-- **The assignments leave the State as it is** if it holds already what they store, as far as they
are executed. -/
theorem assign_eq_self_iff (hnodup : (as.map Assignment.target).Nodup) :
    (J.assign root as s).1 = s ↔
      ∀ a ∈ as.takeWhile fun a => (J.content root a).isSome,
        ∀ x ∈ a.target.cell s, J.content root a = some x := by
  induction as with
  | nil => simp [Jsoncpp.assign]
  | cons a as ih =>
    rw [List.map_cons, List.nodup_cons] at hnodup
    cases h : J.content root a with
    | none => simp [assign_throw h, h]
    | some c =>
      rw [assign_cons h, List.takeWhile_cons_of_pos (by simp [h]), List.forall_mem_cons,
        ← ih hnodup.2, h]
      constructor
      · intro heq
        have hcell : a.target.cell s = (a.target.cell s).map fun _ => c := by
          calc a.target.cell s
              = a.target.cell (J.assign root as (a.target.store c s)).1 := by rw [heq]
            _ = a.target.cell (a.target.store c s) := cell_assign_of_notMem hnodup.1
            _ = (a.target.cell s).map fun _ => c := cell_store c
        have hhead : ∀ x ∈ a.target.cell s, x = c := by
          intro x hx
          rw [hcell] at hx
          obtain ⟨-, -, rfl⟩ := Option.map_eq_some_iff.mp hx
          rfl
        rw [store_eq_self c hhead] at heq
        exact ⟨fun x hx => by rw [hhead x hx], heq⟩
      · rintro ⟨hhead, heq⟩
        rw [store_eq_self c fun x hx => (Option.some.inj (hhead x hx)).symm]
        exact heq

/-- What the assignments take from `root`, if none throws. -/
def Jsoncpp.command (J : Jsoncpp) (root : J.Value) : Command where
  auto := (J.assign root assignments initState).1.auto
  data := (J.assign root assignments initState).1.data

/-- **The assignments are acts of `RunALL`**, for a part that has received this. -/
theorem act_agrees {l : Local} (hconv : J.Converts root) (hl : l.root = J.command root)
    (ha : a ∈ assignments) {c : a.target.Content} (hc : J.content root a = some c) {act : Act}
    (hact : act ∈ a.target.act c) : act.Agrees .remote s l := by
  have hcell : ∀ x ∈ a.target.cell (J.assign root assignments initState).1, x = c := by
    intro x hx
    have := cell_assign nodup_targets ha hconv hx
    rw [hc] at this
    exact (Option.some.inj this).symm
  obtain ⟨t, path⟩ := a
  cases t with
  | auto =>
    obtain rfl := Option.some.inj hact
    exact (hcell _ rfl).symm.trans (congrArg Command.auto hl).symm
  | forward => cases hact
  | throttle => cases hact
  | data d =>
    obtain rfl := Option.some.inj hact
    exact (hcell _ rfl).symm.trans (congrFun (congrArg Command.data hl) d).symm

end Assign

/-! ### Absent members -/

/-- What an absent member gives. -/
def Target.zero : (t : Target) → t.Content
  | .auto | .forward => false
  | .throttle | .data _ => (0 : ℚ)

section Absent

variable {J : Jsoncpp} {root : J.Value} {a : Assignment}

theorem get_null (path : List String) : J.get J.null path = some J.null := by
  unfold Jsoncpp.get
  induction path with
  | nil => rfl
  | cons key path ih =>
    rw [List.foldlM_cons, J.index_null]
    exact ih

/-- **An absent member gives 0**, or `false`. -/
theorem content_absent (h : J.get root a.path = some J.null) :
    J.content root a = some a.target.zero := by
  unfold Jsoncpp.content
  rw [h, Option.bind_some]
  cases a.target with
  | auto => simp [Jsoncpp.convert, J.asString_null, Target.zero]
  | forward => simp [Jsoncpp.convert, J.asString_null, Target.zero]
  | throttle => exact J.asDouble_null
  | data d => exact J.asDouble_null

theorem content_null : J.content J.null a = some a.target.zero :=
  content_absent (get_null a.path)

theorem converts_null : J.Converts J.null := fun a _ => by rw [content_null, Option.isSome_some]

end Absent

/-! ### A read that is no message -/

/-- A read on which `parse` fails: a text that is cut or malformed, or no text at all. -/
structure Jsoncpp.Bad (J : Jsoncpp) where
  read : Read
  fails : (J.parse read.text).1 = false

/-- A member that is completed in a value: there is something under the keys of the assignment, and
`x` is what it is. -/
def Jsoncpp.Completed (J : Jsoncpp) (v : J.Value) (a : Assignment) (x : a.target.Content) : Prop :=
  ∃ w, w ≠ J.null ∧ J.get v a.path = some w ∧ J.convert w a.target = some x

/-- A member that is absent from a value, or null. -/
def Jsoncpp.Absent (J : Jsoncpp) (v : J.Value) (a : Assignment) : Prop :=
  J.get v a.path = some J.null

/-- The State has the members that are completed in a value, and is 0 or `false` in those that are
absent; those behind a member that cannot be converted do not matter. -/
structure Jsoncpp.Agrees (J : Jsoncpp) (v : J.Value) (s : State) : Prop where
  completed : ∀ a ∈ J.convertible v, ∀ x, J.Completed v a x → ∀ y ∈ a.target.cell s, y = x
  absent : ∀ a ∈ J.convertible v, J.Absent v a → ∀ y ∈ a.target.cell s, y = a.target.zero

/-- There is no command in the State. -/
def AtRest (s : State) : Prop := s.auto = false ∧ ∀ d, d ≠ .targetSpeed → s.data d = 0

/-- The kinds of text that leave a State alone. -/
inductive Jsoncpp.Spares (J : Jsoncpp) (text : List UInt8) (root : J.Value) (s : State) : Prop
  /-- no value begins in the text, and none has begun in a read before -/
  | nothing (htext : (J.parse text).2 = none) (hroot : root = J.null) (hs : AtRest s)
  /-- no value begins in the text, and the State has still the members of the last one -/
  | silent (htext : (J.parse text).2 = none) (hroot : root ≠ J.null) (hs : J.Agrees root s)
  /-- a value begins in the text, and the State has the members that are completed in it -/
  | cut (v : J.Value) (htext : (J.parse text).2 = some v) (hs : J.Agrees v s)

/-- A value in which `auto` cannot be looked up, or not be converted to a string. -/
def Jsoncpp.Refuses (J : Jsoncpp) (v : J.Value) : Prop :=
  ∀ w ∈ J.index v "auto", J.asString w = none

/-- The kinds of text that leave every State alone: the process ends on the value that begins in the
text, or on the last one. -/
inductive Jsoncpp.SparesAll (J : Jsoncpp) (text : List UInt8) (root : J.Value) : Prop
  | silent (htext : (J.parse text).2 = none) (hroot : J.Refuses root)
  | cut (v : J.Value) (htext : (J.parse text).2 = some v) (hv : J.Refuses v)

section Bad

variable {J : Jsoncpp} {root v : J.Value} {a : Assignment} {r : Read} {s : State}

theorem left_of_none (h : (J.parse r.text).2 = none) : J.left root r = root := by
  rw [Jsoncpp.left, h, Option.getD_none]

theorem left_of_some (h : (J.parse r.text).2 = some v) : J.left root r = v := by
  rw [Jsoncpp.left, h, Option.getD_some]

theorem handle_state : (J.handle ⟨some root, s⟩ r).state =
    (J.assign (J.left root r) assignments s).1 := rfl

theorem exists_assignment {d : Datum} (hd : d ≠ .targetSpeed) :
    ∃ a ∈ assignments, a.target = .data d := by
  cases d with
  | speed => exact ⟨⟨_, ["speed"]⟩, by simp [assignments], rfl⟩
  | direction => exact ⟨⟨_, ["servo"]⟩, by simp [assignments], rfl⟩
  | targetSpeed => exact absurd rfl hd
  | servoPID i =>
    fin_cases i
    · exact ⟨⟨_, ["servo-PID", "P"]⟩, by simp [assignments], rfl⟩
    · exact ⟨⟨_, ["servo-PID", "I"]⟩, by simp [assignments], rfl⟩
    · exact ⟨⟨_, ["servo-PID", "D"]⟩, by simp [assignments], rfl⟩
  | throttlePID i =>
    fin_cases i
    · exact ⟨⟨_, ["throttle-PID", "P"]⟩, by simp [assignments], rfl⟩
    · exact ⟨⟨_, ["throttle-PID", "I"]⟩, by simp [assignments], rfl⟩
    · exact ⟨⟨_, ["throttle-PID", "D"]⟩, by simp [assignments], rfl⟩

theorem target_ne (ha : a ∈ assignments) : a.target ≠ .data .targetSpeed := by
  revert a
  decide

/-! #### One State -/

theorem Jsoncpp.Completed.content {x : a.target.Content} (h : J.Completed v a x) :
    J.content v a = some x := by
  obtain ⟨w, -, hget, hconvert⟩ := h
  rw [Jsoncpp.content, hget]
  exact hconvert

/-- What an assignment takes is completed, if it is not absent. -/
theorem completed_of_content {x : a.target.Content} (h : J.content v a = some x)
    (habsent : ¬ J.Absent v a) : J.Completed v a x := by
  obtain ⟨w, hget, hconvert⟩ := Option.bind_eq_some_iff.mp h
  refine ⟨w, ?_, hget, hconvert⟩
  rintro rfl
  exact habsent hget

theorem assign_iff_agrees : (J.assign v assignments s).1 = s ↔ J.Agrees v s := by
  rw [assign_eq_self_iff nodup_targets]
  constructor
  · intro h
    refine ⟨fun a ha x hx y hy => ?_, fun a ha hnull y hy => ?_⟩
    · have hcontent := h a ha y hy
      rw [hx.content] at hcontent
      exact (Option.some.inj hcontent).symm
    · have hcontent := h a ha y hy
      rw [content_absent hnull] at hcontent
      exact (Option.some.inj hcontent).symm
  · intro h a ha y hy
    by_cases hnull : J.Absent v a
    · rw [content_absent hnull, h.absent a ha hnull y hy]
    · have hsome := List.mem_takeWhile_imp ha
      obtain ⟨x, hx⟩ := Option.isSome_iff_exists.mp hsome
      rw [hx, h.completed a ha x (completed_of_content hx hnull) y hy]

/-- A null value stores a State with no command in it. -/
theorem assign_null_iff : (J.assign J.null assignments s).1 = s ↔ AtRest s := by
  have hconvertible : J.convertible J.null = assignments :=
    List.takeWhile_eq_self_iff.mpr converts_null
  rw [assign_eq_self_iff nodup_targets]
  change (∀ a ∈ J.convertible J.null, _) ↔ _
  simp only [hconvertible, content_null, Option.some.injEq]
  constructor
  · intro hall
    refine ⟨(hall ⟨.auto, ["auto"]⟩ (List.mem_cons_self ..) s.auto rfl).symm, ?_⟩
    intro d hd
    obtain ⟨⟨t, path⟩, ha, rfl⟩ := exists_assignment hd
    exact (hall _ ha (s.data d) rfl).symm
  · rintro ⟨hauto, hdata⟩ ⟨t, path⟩ ha x hx
    cases t with
    | auto => exact hauto.symm.trans (Option.some.inj hx)
    | forward => cases hx
    | throttle => cases hx
    | data d =>
      have hne : d ≠ .targetSpeed := fun heq => target_ne ha (by rw [heq])
      exact (hdata d hne).symm.trans (Option.some.inj hx)

theorem agrees_null_iff : J.Agrees J.null s ↔ AtRest s :=
  assign_iff_agrees.symm.trans assign_null_iff

/-- The kinds of text, and what they leave in `root`. -/
theorem spares_iff : J.Spares r.text root s ↔ J.Agrees (J.left root r) s := by
  constructor
  · intro h
    cases h with
    | nothing htext hroot hs =>
      rw [left_of_none htext, hroot]
      exact agrees_null_iff.mpr hs
    | silent htext _ hs => rwa [left_of_none htext]
    | cut v htext hs => rwa [left_of_some htext]
  · intro h
    cases htext : (J.parse r.text).2 with
    | none =>
      rw [left_of_none htext] at h
      by_cases hroot : root = J.null
      · exact .nothing htext hroot (agrees_null_iff.mp (hroot ▸ h))
      · exact .silent htext hroot h
    | some v =>
      rw [left_of_some htext] at h
      exact .cut v htext h

/-- **The State that a value has left has its members.** -/
theorem agrees_assign (h : J.Converts v) : J.Agrees v (J.assign v assignments s).1 := by
  refine assign_iff_agrees.mp ((assign_eq_self_iff nodup_targets).mpr fun a ha x hx => ?_)
  exact cell_assign nodup_targets ((List.takeWhile_sublist _).mem ha) h hx

/-- So a read in which no value begins changes nothing right after another one. -/
theorem handle_handle_of_none {x : Receiver J} {r' : Read} (h : (J.parse r'.text).2 = none) :
    (J.handle (J.handle x r) r').state = (J.handle x r).state := by
  obtain ⟨root, s⟩ := x
  cases root with
  | none => rfl
  | some root =>
    by_cases hconv : J.Converts (J.left root r)
    · have hend : (J.assign (J.left root r) assignments s).2 = true := assign_snd.mpr hconv
      have hfirst : J.handle ⟨some root, s⟩ r =
          ⟨some (J.left root r), (J.assign (J.left root r) assignments s).1⟩ := by
        simp [Jsoncpp.handle, hend]
      rw [hfirst, handle_state, left_of_none h]
      exact assign_iff_agrees.mpr (agrees_assign hconv)
    · have hend : (J.assign (J.left root r) assignments s).2 ≠ true := fun htrue =>
        hconv (assign_snd.mp htrue)
      have hfirst : (J.handle ⟨some root, s⟩ r).root = none := by
        simp [Jsoncpp.handle, hend]
      rw [Jsoncpp.handle, hfirst]

/-! #### Every State -/

theorem refuses_iff : J.Refuses v ↔ J.content v ⟨.auto, ["auto"]⟩ = none := by
  unfold Jsoncpp.Refuses Jsoncpp.content Jsoncpp.get
  cases h : J.index v "auto" with
  | none => simp [h]
  | some w => simp [h, Jsoncpp.convert]

/-- The first assignment changes some State, unless it throws. -/
theorem assign_forall_iff : (∀ s, (J.assign v assignments s).1 = s) ↔ J.Refuses v := by
  rw [refuses_iff]
  constructor
  · intro hall
    by_contra hne
    obtain ⟨c, hc⟩ := Option.ne_none_iff_exists'.mp hne
    -- a State with the other value
    have heq := hall { initState with auto := !c }
    have hstays : Target.auto ∉ (assignments.drop 1).map Assignment.target := by decide
    have hcell : Target.auto.cell (J.assign v assignments { initState with auto := !c }).1 =
        some c := by
      rw [show assignments = ⟨.auto, ["auto"]⟩ :: assignments.drop 1 from rfl, assign_cons hc,
        cell_assign_of_notMem hstays]
      rfl
    rw [heq] at hcell
    exact absurd (Option.some.inj hcell) (by simp)
  · intro hnone s
    rw [show assignments = ⟨.auto, ["auto"]⟩ :: assignments.drop 1 from rfl, assign_throw hnone]

theorem sparesAll_iff : J.SparesAll r.text root ↔ J.Refuses (J.left root r) := by
  constructor
  · intro h
    cases h with
    | silent htext hroot => rwa [left_of_none htext]
    | cut v htext hv => rwa [left_of_some htext]
  · intro h
    cases htext : (J.parse r.text).2 with
    | none =>
      rw [left_of_none htext] at h
      exact .silent htext h
    | some v =>
      rw [left_of_some htext] at h
      exact .cut v htext h

end Bad

/-- **When a read that is no message leaves the State alone**: every State, and one State. -/
theorem handle_bad_iff (J : Jsoncpp) (b : J.Bad) (root : J.Value) :
    ((∀ s, (J.handle ⟨some root, s⟩ b.read).state = s) ↔ J.SparesAll b.read.text root) ∧
      ∀ s, (J.handle ⟨some root, s⟩ b.read).state = s ↔ J.Spares b.read.text root s :=
  ⟨assign_forall_iff.trans sparesAll_iff.symm, fun _ => assign_iff_agrees.trans spares_iff.symm⟩

/-! ### A command -/

/-- Values, the numbers as they are written. -/
inductive Document
  | null
  | number (text : String) (x : ℚ)
  | string (x : String)
  | object (members : List (String × Document))

/-- The bytes of a text. -/
def ascii (x : String) : List UInt8 := x.toList.map fun c => UInt8.ofNat c.toNat

/-- A command up to its fifth member. -/
def commandHead : String :=
  "\x7b\"auto\":\"true\",\"servo\":1.5,\"forward\":\"true\",\"throttle\":0,\"speed\":3"

/-- The rest of it. -/
def commandTail : String :=
  ",\"servo-PID\":\x7b\"P\":2,\"I\":0,\"D\":0\x7d" ++
    ",\"throttle-PID\":\x7b\"P\":1,\"I\":0,\"D\":0\x7d\x7d"

/-- The members of the head. -/
def headMembers : List (String × Document) :=
  [("auto", .string "true"), ("servo", .number "1.5" 1.5), ("forward", .string "true"),
    ("throttle", .number "0" 0), ("speed", .number "3" 3)]

/-- The members of the rest. -/
def tailMembers : List (String × Document) :=
  [("servo-PID", .object [("P", .number "2" 2), ("I", .number "0" 0), ("D", .number "0" 0)]),
    ("throttle-PID", .object [("P", .number "1" 1), ("I", .number "0" 0), ("D", .number "0" 0)])]

/-- The command, its head, and texts in which no value begins. -/
@[irreducible] def parseCommand (text : List UInt8) : Bool × Option Document :=
  if text = ascii commandHead ++ ascii commandTail then
    (true, some (.object (headMembers ++ tailMembers)))
  else if text = ascii commandHead then (false, some (.object headMembers))
  else (false, none)

/-- jsoncpp on these texts. -/
abbrev documents : Jsoncpp where
  Value := Document
  null := .null
  parse := parseCommand
  index
    | .null, _ => some .null
    | .object members, key => some ((members.lookup key).getD .null)
    | _, _ => none
  asString
    | .null => some ""
    | .number text _ => some text
    | .string x => some x
    | .object _ => none
  asDouble
    | .null => some 0
    | .number _ x => some x
    | _ => none
  index_null _ := rfl
  asString_null := rfl
  asDouble_null := rfl

/-- A closed connection. -/
def closedRead : Read := ⟨[], [], by decide⟩

/-- The head of the command, read alone. -/
def headRead : Read := ⟨ascii commandHead, [], by decide⟩

theorem text_closedRead : closedRead.text = [] := Read.text_eq (by decide) (by decide)

theorem text_headRead : headRead.text = ascii commandHead := Read.text_eq (by decide) (by decide)

theorem ascii_ne : ascii commandHead ≠ [] ∧ ascii commandTail ≠ [] := by decide

theorem parse_closedRead : parseCommand closedRead.text = (false, none) := by
  have hne : [] ≠ ascii commandHead ++ ascii commandTail := by simp [ascii_ne]
  rw [text_closedRead, parseCommand, if_neg hne, if_neg ascii_ne.1.symm]

theorem parse_headRead :
    parseCommand headRead.text = (false, some (.object headMembers)) := by
  have hne : ascii commandHead ≠ ascii commandHead ++ ascii commandTail := by simp [ascii_ne]
  rw [text_headRead, parseCommand, if_neg hne, if_pos rfl]

/-- A State with a gain. -/
def armed : State := initState.setDatum (.servoPID 0) 2

/-- **The gain is lost** to a connection that is closed before the first message, and to a message
that is cut before its gains. -/
theorem bad_read_overwrites :
    ((documents.parse closedRead.text).1 = false ∧
      (documents.handle ⟨some documents.null, armed⟩ closedRead).state ≠ armed) ∧
    (documents.parse headRead.text).1 = false ∧
      (documents.handle ⟨some documents.null, armed⟩ headRead).state ≠ armed := by
  have hgain : armed.data (.servoPID 0) = 2 := rfl
  refine ⟨⟨congrArg Prod.fst parse_closedRead, ?_⟩, congrArg Prod.fst parse_headRead, ?_⟩
  · have hleft : documents.left documents.null closedRead = Document.null :=
      congrArg (fun x => x.2.getD Document.null) parse_closedRead
    rw [handle_state, hleft]
    intro heq
    rw [← heq] at hgain
    exact absurd hgain (by decide)
  · have hleft : documents.left documents.null headRead = Document.object headMembers :=
      congrArg (fun x => x.2.getD Document.null) parse_headRead
    rw [handle_state, hleft]
    intro heq
    rw [← heq] at hgain
    exact absurd hgain (by decide)

end Vehicle.Recovery.Remote
