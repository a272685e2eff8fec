import Vehicle.Recovery.Message

/-!
# recovery: the messages of the remote as a stream of bytes

TCP delivers the bytes of the messages in any pieces, and `Remote::Run` takes every piece for a
message. So what the State holds in the end is what the last piece says in which a value begins
(`outcome_iff`), and two ways to cut the stream agree with the messages only if this piece says, in
both, what the last message says (`stream_iff`).
-/

namespace Vehicle.Recovery.Remote

/-! ### Messages and reads -/

/-- A command that a server sends: a complete document that sets the State. -/
structure Message (J : Jsoncpp) where
  bytes : List UInt8
  value : J.Value
  nonempty : bytes ≠ []
  noNul : 0 ∉ bytes
  parses : J.parse bytes = (true, some value)
  converts : J.Converts value

/-- A way to cut the bytes of the messages into reads. -/
structure Splitting (J : Jsoncpp) (msgs : List (Message J)) where
  reads : List Read
  pos : ∀ r ∈ reads, r.bytes ≠ []
  flatten : reads.flatMap Read.bytes = msgs.flatMap Message.bytes

/-- The reads handled one after the other. -/
def Jsoncpp.consume (J : Jsoncpp) (x : Receiver J) (reads : List Read) : Receiver J :=
  reads.foldl J.handle x

/-- **The State after all bytes are read**, unless the process has ended before. -/
def Splitting.outcome {J : Jsoncpp} {msgs : List (Message J)} (σ : Splitting J msgs) (s : State) :
    Option State :=
  let x := J.consume ⟨some J.null, s⟩ σ.reads
  x.root.map fun _ => x.state

/-- **The State after the messages**, applied one by one. -/
def oneByOne {J : Jsoncpp} (msgs : List (Message J)) (s : State) : State :=
  msgs.foldl (fun s m => (J.assign m.value assignments s).1) s

/-! ### What the assignments leave behind -/

/-- The members of the State that no assignment stores to are the same. -/
structure SameRest (s s' : State) : Prop where
  targetSpeed : s.data .targetSpeed = s'.data .targetSpeed
  isNewData : s.isNewData = s'.isNewData
  needCompulsiveCheckpoint : s.needCompulsiveCheckpoint = s'.needCompulsiveCheckpoint
  averageTimePerCycle : s.averageTimePerCycle = s'.averageTimePerCycle

/-- The State says what `root` says, and is otherwise as it was. -/
structure Settled (J : Jsoncpp) (root : J.Value) (s s' : State) : Prop where
  rest : SameRest s s'
  cells : ∀ a ∈ assignments, ∀ x ∈ a.target.cell s', J.content root a = some x

/-- Two values say the same of the State. -/
def Jsoncpp.Same (J : Jsoncpp) (root root' : J.Value) : Prop :=
  ∀ a ∈ assignments, a.target ≠ .forward → a.target ≠ .throttle →
    J.content root a = J.content root' a

section Settled

variable {J : Jsoncpp} {root root' : J.Value} {s s' t : State}

theorem SameRest.refl (s : State) : SameRest s s := ⟨rfl, rfl, rfl, rfl⟩

theorem SameRest.symm (h : SameRest s s') : SameRest s' s :=
  ⟨h.targetSpeed.symm, h.isNewData.symm, h.needCompulsiveCheckpoint.symm,
    h.averageTimePerCycle.symm⟩

theorem SameRest.trans (h : SameRest s s') (h' : SameRest s' t) : SameRest s t :=
  ⟨h.targetSpeed.trans h'.targetSpeed, h.isNewData.trans h'.isNewData,
    h.needCompulsiveCheckpoint.trans h'.needCompulsiveCheckpoint,
    h.averageTimePerCycle.trans h'.averageTimePerCycle⟩

theorem SameRest.store {u : Target} (hu : u ≠ .data .targetSpeed) (c : u.Content) :
    SameRest s (u.store c s) := by
  cases u with
  | auto => exact ⟨rfl, rfl, rfl, rfl⟩
  | forward => exact ⟨rfl, rfl, rfl, rfl⟩
  | throttle => exact ⟨rfl, rfl, rfl, rfl⟩
  | data d =>
    have hne : Datum.targetSpeed ≠ d := fun heq => hu (by rw [heq])
    exact ⟨by simp [Target.store, State.setDatum, hne], rfl, rfl, rfl⟩

theorem SameRest.assign {as : List Assignment} (has : ∀ a ∈ as, a.target ≠ .data .targetSpeed) :
    SameRest s (J.assign root as s).1 := by
  induction as generalizing s with
  | nil => exact SameRest.refl s
  | cons a as ih =>
    obtain ⟨ha, has⟩ := List.forall_mem_cons.mp has
    cases h : J.content root a with
    | none =>
      rw [assign_throw h]
      exact SameRest.refl s
    | some c =>
      rw [assign_cons h]
      exact (SameRest.store ha c).trans (ih has)

/-- **The assignments settle the State.** -/
theorem settled_assign (h : J.Converts root) : Settled J root s (J.assign root assignments s).1 :=
  ⟨SameRest.assign fun _ ha => target_ne ha, fun _ ha _ hx => cell_assign nodup_targets ha h hx⟩

theorem Settled.of_rest (h : Settled J root s' t) (hs : SameRest s s') : Settled J root s t :=
  ⟨hs.trans h.rest, h.cells⟩

/-- A State is what the assignments and the rest say. -/
theorem state_ext (hrest : SameRest s s')
    (hcells : ∀ a ∈ assignments, a.target.cell s = a.target.cell s') : s = s' := by
  have hauto : s.auto = s'.auto :=
    Option.some.inj (hcells ⟨.auto, ["auto"]⟩ (List.mem_cons_self ..))
  have hdata : s.data = s'.data := by
    funext d
    by_cases hd : d = .targetSpeed
    · rw [hd]
      exact hrest.targetSpeed
    · obtain ⟨⟨u, path⟩, ha, rfl⟩ := exists_assignment hd
      exact Option.some.inj (hcells _ ha)
  obtain ⟨-, hnew, hneed, haverage⟩ := hrest
  cases s
  cases s'
  simp_all

/-- **Two settled States are the same if the values say the same.** -/
theorem Settled.eq_iff (h : Settled J root s t) (h' : Settled J root' s s') :
    t = s' ↔ J.Same root root' := by
  constructor
  · rintro rfl ⟨u, path⟩ ha hforward hthrottle
    cases u with
    | auto => exact (h.cells _ ha _ rfl).trans (h'.cells _ ha _ rfl).symm
    | forward => exact absurd rfl hforward
    | throttle => exact absurd rfl hthrottle
    | data d => exact (h.cells _ ha _ rfl).trans (h'.cells _ ha _ rfl).symm
  · intro hsame
    refine state_ext (h.rest.symm.trans h'.rest) ?_
    rintro ⟨u, path⟩ ha
    cases u with
    | auto =>
      have heq := hsame _ ha (by simp) (by simp)
      rw [h.cells _ ha _ rfl, h'.cells _ ha _ rfl] at heq
      exact heq
    | forward => rfl
    | throttle => rfl
    | data d =>
      have heq := hsame _ ha (by simp) (by simp)
      rw [h.cells _ ha _ rfl, h'.cells _ ha _ rfl] at heq
      exact heq

end Settled

/-! ### The reads one after the other -/

/-- No value that begins in a read throws. -/
def Jsoncpp.Reads (J : Jsoncpp) (reads : List Read) : Prop :=
  ∀ r ∈ reads, ∀ v ∈ (J.parse r.text).2, J.Converts v

/-- The value that begins in the last read in which one does. -/
def Jsoncpp.last (J : Jsoncpp) (reads : List Read) : J.Value := reads.foldl J.left J.null

section Consume

variable {J : Jsoncpp} {root : J.Value} {r : Read} {reads : List Read} {s : State}
  {msgs : List (Message J)} {m : Message J}

theorem foldl_left_of_none (h : ∀ r ∈ reads, (J.parse r.text).2 = none) :
    reads.foldl J.left root = root := by
  induction reads with
  | nil => rfl
  | cons r reads ih =>
    obtain ⟨hr, hreads⟩ := List.forall_mem_cons.mp h
    rw [List.foldl_cons, left_of_none hr, ih hreads]

/-- **Which read that is**: a value begins in it, and in none behind it. -/
theorem last_eq {pre post : List Read} {v : J.Value} (hr : (J.parse r.text).2 = some v)
    (hpost : ∀ r' ∈ post, (J.parse r'.text).2 = none) : J.last (pre ++ r :: post) = v := by
  rw [Jsoncpp.last, List.foldl_append, List.foldl_cons, left_of_some hr, foldl_left_of_none hpost]

/-- If there is none, nothing has been said. -/
theorem last_eq_null (h : ∀ r ∈ reads, (J.parse r.text).2 = none) : J.last reads = J.null :=
  foldl_left_of_none h

theorem converts_left_iff (hroot : J.Converts root) :
    J.Converts (J.left root r) ↔ ∀ v ∈ (J.parse r.text).2, J.Converts v := by
  cases h : (J.parse r.text).2 with
  | none => simp [left_of_none h, hroot]
  | some v => simp [left_of_some h]

theorem handle_of_converts {v : J.Value} (hleft : J.left root r = v) (h : J.Converts v) :
    J.handle ⟨some root, s⟩ r = ⟨some v, (J.assign v assignments s).1⟩ := by
  have hend : (J.assign v assignments s).2 = true := assign_snd.mpr h
  simp [Jsoncpp.handle, hleft, hend]

theorem handle_of_throw (h : ¬ J.Converts (J.left root r)) :
    (J.handle ⟨some root, s⟩ r).root = none := by
  have hend : (J.assign (J.left root r) assignments s).2 ≠ true := fun htrue =>
    h (assign_snd.mp htrue)
  simp [Jsoncpp.handle, hend]

/-- Nothing is read behind an exception. -/
theorem consume_of_none {x : Receiver J} (h : x.root = none) : J.consume x reads = x := by
  induction reads with
  | nil => rfl
  | cons r reads ih =>
    have hhandle : J.handle x r = x := by rw [Jsoncpp.handle, h]
    rw [Jsoncpp.consume, List.foldl_cons, hhandle]
    exact ih

theorem consume_cons {x : Receiver J} :
    J.consume x (r :: reads) = J.consume (J.handle x r) reads := rfl

/-- **The reads settle the State by the last value**, if none throws. -/
theorem consume_settled (hroot : J.Converts root) (h : J.Reads (r :: reads)) :
    (J.consume ⟨some root, s⟩ (r :: reads)).root = some ((r :: reads).foldl J.left root) ∧
      Settled J ((r :: reads).foldl J.left root) s
        (J.consume ⟨some root, s⟩ (r :: reads)).state := by
  induction reads generalizing root r s with
  | nil =>
    have hleft := (converts_left_iff hroot).mpr (h r (List.mem_cons_self ..))
    rw [consume_cons, handle_of_converts rfl hleft]
    exact ⟨rfl, settled_assign hleft⟩
  | cons r' reads ih =>
    have hleft := (converts_left_iff hroot).mpr (h r (List.mem_cons_self ..))
    have hreads : J.Reads (r' :: reads) := fun e he => h e (List.mem_cons_of_mem _ he)
    obtain ⟨hr, hs⟩ := ih hleft hreads (s := (J.assign (J.left root r) assignments s).1)
    rw [consume_cons, handle_of_converts rfl hleft]
    exact ⟨hr, hs.of_rest (SameRest.assign fun _ ha => target_ne ha)⟩

/-- **Otherwise the process ends.** -/
theorem consume_throws (hroot : J.Converts root) (h : ¬ J.Reads reads) :
    (J.consume ⟨some root, s⟩ reads).root = none := by
  induction reads generalizing root s with
  | nil => exact absurd (fun r hr => by cases hr) h
  | cons r reads ih =>
    rw [consume_cons]
    by_cases hleft : J.Converts (J.left root r)
    · rw [handle_of_converts rfl hleft]
      refine ih hleft fun hreads => h fun e he => ?_
      rcases List.mem_cons.mp he with rfl | he
      · exact (converts_left_iff hroot).mp hleft
      · exact hreads e he
    · have hnone := handle_of_throw (s := s) hleft
      rw [consume_of_none hnone, hnone]

/-! ### The messages one by one -/

theorem SameRest.oneByOne : SameRest s (oneByOne msgs s) := by
  induction msgs generalizing s with
  | nil => exact SameRest.refl s
  | cons m msgs ih => exact (SameRest.assign fun _ ha => target_ne ha).trans ih

theorem settled_oneByOne (msgs : List (Message J)) (m : Message J) (s : State) :
    Settled J m.value s (oneByOne (msgs ++ [m]) s) := by
  have hfold : oneByOne (msgs ++ [m]) s =
      (J.assign m.value assignments (oneByOne msgs s)).1 := by
    simp [oneByOne]
  rw [hfold]
  exact (settled_assign m.converts).of_rest SameRest.oneByOne

end Consume

/-! ### One way to cut the stream -/

/-- **The last read in which a value begins says what the last message says**, and no read says what
throws. -/
structure Splitting.SaysLast {J : Jsoncpp} {msgs : List (Message J)} (σ : Splitting J msgs) :
    Prop where
  converts : J.Reads σ.reads
  last : ∀ m ∈ msgs.getLast?, J.Same (J.last σ.reads) m.value

section Outcome

variable {J : Jsoncpp} {msgs : List (Message J)} {m : Message J} {s : State}

theorem Splitting.reads_eq_nil_iff (σ : Splitting J msgs) : σ.reads = [] ↔ msgs = [] := by
  constructor
  · intro h
    have hflat := σ.flatten
    rw [h, List.flatMap_nil, eq_comm, List.flatMap_eq_nil_iff] at hflat
    exact List.eq_nil_iff_forall_not_mem.mpr fun m hm => m.nonempty (hflat m hm)
  · rintro rfl
    have hflat := σ.flatten
    rw [List.flatMap_nil, List.flatMap_eq_nil_iff] at hflat
    exact List.eq_nil_iff_forall_not_mem.mpr fun r hr => σ.pos r hr (hflat r hr)

/-- The State that the last value settles. -/
theorem Splitting.outcome_some (σ : Splitting J msgs) (s : State) (hne : σ.reads ≠ [])
    (h : J.Reads σ.reads) : ∃ t, σ.outcome s = some t ∧ Settled J (J.last σ.reads) s t := by
  have hrun : (J.consume ⟨some J.null, s⟩ σ.reads).root = some (J.last σ.reads) ∧
      Settled J (J.last σ.reads) s (J.consume ⟨some J.null, s⟩ σ.reads).state := by
    unfold Jsoncpp.last
    cases hreads : σ.reads with
    | nil => exact absurd hreads hne
    | cons r reads => exact consume_settled converts_null (hreads ▸ h)
  refine ⟨_, ?_, hrun.2⟩
  rw [Splitting.outcome, hrun.1, Option.map_some]

theorem Splitting.outcome_none (σ : Splitting J msgs) (s : State) (h : ¬ J.Reads σ.reads) :
    σ.outcome s = none := by
  have hend := consume_throws (s := s) converts_null h
  rw [Splitting.outcome, hend, Option.map_none]

/-- **When the State is that of the messages one by one.** -/
theorem Splitting.outcome_iff (σ : Splitting J msgs) (s : State) :
    σ.outcome s = some (oneByOne msgs s) ↔ σ.SaysLast := by
  rcases List.eq_nil_or_concat msgs with hnil | ⟨init, m, hmsgs⟩
  · have hreads := σ.reads_eq_nil_iff.mpr hnil
    subst hnil
    constructor
    · intro _
      refine ⟨?_, fun m hm => by cases hm⟩
      rw [hreads]
      exact fun r hr => by cases hr
    · intro _
      rw [Splitting.outcome, hreads]
      rfl
  · rw [List.concat_eq_append] at hmsgs
    subst hmsgs
    have hne : σ.reads ≠ [] := fun h => by simpa using σ.reads_eq_nil_iff.mp h
    have hset := settled_oneByOne init m s
    constructor
    · intro h
      have hconv : J.Reads σ.reads := by
        by_contra hno
        rw [σ.outcome_none s hno] at h
        cases h
      obtain ⟨t, ht, hlast⟩ := σ.outcome_some s hne hconv
      rw [ht, Option.some.injEq, hlast.eq_iff hset] at h
      refine ⟨hconv, fun e he => ?_⟩
      rw [List.getLast?_concat, Option.mem_some] at he
      rwa [← he]
    · intro h
      obtain ⟨t, ht, hlast⟩ := σ.outcome_some s hne h.converts
      rw [ht, Option.some.injEq, hlast.eq_iff hset]
      exact h.last m (by simp)

theorem same_refl (root : J.Value) : J.Same root root := fun _ _ _ _ => rfl

/-- **One message a read**: the stream is cut between the messages. -/
theorem Splitting.saysLast_of_whole (σ : Splitting J msgs)
    (h : σ.reads.map Read.text = msgs.map Message.bytes) : σ.SaysLast := by
  have hread : ∀ r ∈ σ.reads, ∃ m ∈ msgs, (J.parse r.text).2 = some m.value := by
    intro r hr
    have hmem : r.text ∈ msgs.map Message.bytes := h ▸ List.mem_map_of_mem hr
    obtain ⟨m, hm, hbytes⟩ := List.mem_map.mp hmem
    exact ⟨m, hm, by rw [← hbytes, m.parses]⟩
  refine ⟨?_, ?_⟩
  · intro r hr v hv
    obtain ⟨m, -, hparse⟩ := hread r hr
    rw [hparse] at hv
    obtain rfl := Option.some.inj hv
    exact m.converts
  · intro m hm
    have hlast : σ.reads.getLast?.map Read.text = some m.bytes := by
      rw [← List.getLast?_map, h, List.getLast?_map, hm, Option.map_some]
    obtain ⟨r, hr, htext⟩ := Option.map_eq_some_iff.mp hlast
    obtain ⟨init, hreads⟩ := List.getLast?_eq_some_iff.mp hr
    have hvalue : J.last σ.reads = m.value := by
      rw [hreads]
      exact last_eq (by rw [htext, m.parses]) (by simp)
    rw [hvalue]
    exact same_refl m.value

end Outcome

/-- **When the State does not depend on how the stream is cut**, and is that of the messages one by
one. -/
theorem stream_iff {J : Jsoncpp} {msgs : List (Message J)} (σ τ : Splitting J msgs) (s : State) :
    (σ.outcome s = τ.outcome s ∧ σ.outcome s = some (oneByOne msgs s)) ↔
      σ.SaysLast ∧ τ.SaysLast := by
  rw [← σ.outcome_iff s, ← τ.outcome_iff s]
  constructor
  · rintro ⟨heq, hσ⟩
    exact ⟨hσ, heq ▸ hσ⟩
  · rintro ⟨hσ, hτ⟩
    exact ⟨hσ.trans hτ.symm, hσ⟩

/-! ### A command that is cut -/

theorem zero_notMem : 0 ∉ ascii commandHead ∧ 0 ∉ ascii commandTail := by decide

theorem length_le : (ascii commandHead).length ≤ 100 ∧ (ascii commandTail).length ≤ 100 := by decide

theorem parse_command : parseCommand (ascii commandHead ++ ascii commandTail) =
    (true, some (.object (headMembers ++ tailMembers))) := by
  rw [parseCommand, if_pos rfl]

/-- The command as a message. -/
def command : Message documents where
  bytes := ascii commandHead ++ ascii commandTail
  value := Document.object (headMembers ++ tailMembers)
  nonempty := by simp [ascii_ne]
  noNul := by simp [zero_notMem]
  parses := parse_command
  converts := by decide

/-- The rest of the command, read alone. -/
def tailRead : Read := ⟨ascii commandTail, [], by decide⟩

/-- The whole command in one read. -/
def wholeRead : Read where
  bytes := ascii commandHead ++ ascii commandTail
  beyond := []
  le := by
    rw [List.length_append]
    have := length_le
    omega

/-- One read. -/
def whole : Splitting documents [command] where
  reads := [wholeRead]
  pos := by simp [wholeRead, ascii_ne]
  flatten := by simp [wholeRead, command]

/-- A read up to the fifth member, and one of the rest. -/
def cut : Splitting documents [command] where
  reads := [headRead, tailRead]
  pos := by simp [headRead, tailRead, ascii_ne]
  flatten := by simp [headRead, tailRead, command]

theorem text_wholeRead : wholeRead.text = command.bytes := by
  refine Read.text_eq command.noNul ?_
  rw [wholeRead, List.length_append]
  have := length_le
  omega

theorem text_tailRead : tailRead.text = ascii commandTail :=
  Read.text_eq zero_notMem.2 (length_le.2.trans_lt (by omega))

theorem parse_tailRead : parseCommand tailRead.text = (false, none) := by
  have hne : ascii commandTail ≠ ascii commandHead ++ ascii commandTail := by simp [ascii_ne]
  rw [text_tailRead, parseCommand, if_neg hne, if_neg (by decide)]

/-- **A cut message does not arrive**: read in one piece it sets the gain to 2, and in two to 0. -/
theorem cut_command_lost : whole.outcome initState ≠ cut.outcome initState ∧
    (whole.outcome initState).map (fun s => s.data (.servoPID 0)) = some 2 ∧
    (cut.outcome initState).map (fun s => s.data (.servoPID 0)) = some 0 := by
  have hwhole : (whole.outcome initState).map (fun s => s.data (.servoPID 0)) = some 2 := by
    have hlast : whole.SaysLast := whole.saysLast_of_whole (by
      simp only [whole, List.map_cons, List.map_nil, text_wholeRead])
    rw [(whole.outcome_iff initState).mpr hlast]
    rfl
  have hcut : (cut.outcome initState).map (fun s => s.data (.servoPID 0)) = some 0 := by
    have hhead : documents.left documents.null headRead = Document.object headMembers :=
      left_of_some (congrArg Prod.snd parse_headRead)
    have htail : documents.left (Document.object headMembers) tailRead =
        Document.object headMembers := left_of_none (congrArg Prod.snd parse_tailRead)
    have hconv : documents.Converts (Document.object headMembers) := by decide
    have hrun : documents.consume ⟨some documents.null, initState⟩ cut.reads =
        documents.consume ⟨some documents.null, initState⟩ [headRead, tailRead] := rfl
    rw [Splitting.outcome, hrun, consume_cons, handle_of_converts hhead hconv, consume_cons,
      handle_of_converts htail hconv]
    rfl
  refine ⟨fun heq => ?_, hwhole, hcut⟩
  rw [heq, hcut] at hwhole
  exact absurd hwhole (by decide)

end Vehicle.Recovery.Remote
