import Mathlib.Data.List.TakeWhile
import Mathlib.Data.Rat.Defs
import Mathlib.Tactic.Linarith
import Vehicle.Posix.Framing
import Vehicle.Recovery.Message
import Vehicle.Trace.Lts

/-!
# recovery: what the remote sends

The sending half of the `while(1)` of `Remote::Run`: a message every 20 ms, a document of jsoncpp
behind which stands a separator. The due times do not drift, whenever the loop comes round, and
after a stall the messages missed are made up for (`paced`). What `write` returns is not looked at,
so a message accepted partly is cut off: the receiver finds the documents if and only if all writes
are complete (`framed`).

The numbers of the document and its text are what `sin` and the writer of jsoncpp make of them, two
parameters of the model (`Writer`).
-/

namespace Vehicle.Recovery.Remote

open Vehicle.Trace Vehicle.Posix

/-! ### The document -/

/-- `header`. -/
def header : List String :=
  ["milliseconds", "rspeed", "as5048a", "throttle", "vm", "angle", "bias", "radius", "hcsr04", "vp",
    "heading", "roll", "pitch", "ori_x", "ori_y", "ori_z", "ori_w", "temp_c", "mag_x", "mag_y",
    "mag_z", "gyr_x", "gyr_y", "gyr_z", "acc_x", "acc_y", "acc_z", "lacc_x", "lacc_y", "lacc_z",
    "gra_x", "gra_y", "gra_z"]

/-- `d`. -/
def d : List ℚ :=
  [0.737365723, 40, 106.7478557, 0.7, 8.167968, -0.5670339, 5.1, 30.5, 123.258422762904, 8.195808,
    275.25, -3, 6.3125, -0.05908203125, -0.01763916, 0.672607422, 0.7374267578125, 23, 24.25, 7.5,
    -46.75, 0, 0.001111111, 0.001111111, -0.49, -0.93, 8.46, 0.05, 0.12, -1.26, -0.52, -1.08, 9.73]

/-- The members of an object, `Json::Value` with keys. -/
abbrev Members := List (String × ℚ)

/-- An assignment to the member `key`, which is there. -/
def Members.assign (o : Members) (key : String) (x : ℚ) : Members :=
  o.map fun m => if m.1 = key then (key, x) else m

/-- `s_dict` before the loop. -/
def sDict : Members := header.zip d

/-- `p_dict`. -/
def pDict : Members :=
  [("rspeed", 40), ("mp", 3), ("mi", 4), ("md", 5), ("sp", 6), ("si", 7), ("sd", 8)]

/-- `dict`. -/
structure Dict where
  sensor : Members
  parameter : Members
  deriving DecidableEq

/-- `dict` when `count` messages have been sent. -/
def dict (sin : ℚ → ℚ) (count : ℕ) : Dict where
  sensor := (sDict.assign "milliseconds" (0.01 * count)).assign "as5048a"
    (30 * sin (0.1 * count) + 30)
  parameter := pDict

/-- `sep`. -/
def sep : UInt8 := 0x1e

/-- What `Remote` uses to make a text: `sin`, and `FastWriter::write`, which ends a document with a
line feed and escapes control characters in it. -/
structure Writer where
  sin : ℚ → ℚ
  write : Dict → List UInt8
  newline : ∀ dict, (write dict).getLast? = some 0x0a
  sep_notMem : ∀ dict, sep ∉ write dict
  nul_notMem : ∀ dict, 0 ∉ write dict

variable (W : Writer)

/-- The document sent when `count` messages have been sent, as a text. -/
def payload (count : ℕ) : List UInt8 := (W.write (dict W.sin count)).dropLast

/-- `output`. -/
def output (count : ℕ) : List UInt8 := payload W count ++ [sep]

/-- What `c_str` stands for to a function that copies it. -/
def cString (output : List UInt8) : List UInt8 := output.takeWhile (· != 0)

/-- `wbuff`, as long as `output`, after the `memset` and the `strcpy`. -/
def wbuff (output : List UInt8) : List UInt8 :=
  cString output ++ List.replicate (output.length - (cString output).length) 0

/-! ### The loop -/

/-- The variables of the loop; the clock counts nanoseconds. What `write` has accepted is in the
socket. -/
structure Sender where
  nxt : ℤ
  count : ℕ
  socket : List UInt8

/-- An iteration of the loop, as far as it concerns sending. -/
inductive Iteration
  /-- the socket takes nothing -/
  | idle
  /-- the clock reads less than `nxt` -/
  | early (cur : ℤ)
  /-- a message is sent; `write` accepts a number of its bytes -/
  | send (cur : ℤ) (accepted : ℕ)
  deriving DecidableEq

/-- The sender when the clock reads `t` before the loop. -/
def Sender.start (t : ℤ) : Sender := ⟨t + 50000, 0, []⟩

/-- An iteration. -/
def Sender.next (s : Sender) : Iteration → Option Sender
  | .idle => some s
  | .early cur => if cur < s.nxt then some s else none
  | .send cur accepted =>
    let buffer := wbuff (output W s.count)
    if s.nxt ≤ cur ∧ accepted ≤ buffer.length then
      some ⟨s.nxt + 20000000, s.count + 1, s.socket ++ buffer.take accepted⟩
    else none

/-- **The sending half of `Remote::Run`.** -/
def sender (t : ℤ) : Lts Sender Iteration where
  init s := s = .start t
  step := Sender.next W

/-- A message is sent. -/
def Iteration.sends : Iteration → Bool
  | .send _ _ => true
  | _ => false

/-- What the clock reads in an iteration. -/
def Iteration.clock : Iteration → Option ℤ
  | .idle => none
  | .early cur | .send cur _ => some cur

/-- How many bytes of its message `write` accepts. -/
def Iteration.accepted : Iteration → Option ℕ
  | .send _ accepted => some accepted
  | _ => none

variable {W} {t : ℤ} {s u : Sender} {a : Iteration} {tr : List Iteration}

theorem mem_payload {b : UInt8} {k : ℕ} (h : b ∈ payload W k) : b ∈ W.write (dict W.sin k) :=
  (List.dropLast_sublist _).subset h

theorem sep_notMem_payload (k : ℕ) : sep ∉ payload W k := fun h => W.sep_notMem _ (mem_payload h)

/-- The text has no zero. -/
theorem cString_output (k : ℕ) : cString (output W k) = output W k := by
  refine List.takeWhile_eq_self_iff.mpr fun b hb => bne_iff_ne.mpr ?_
  rintro rfl
  rcases List.mem_append.mp hb with hb | hb
  · exact W.nul_notMem _ (mem_payload hb)
  · exact absurd (List.mem_singleton.mp hb) (by decide)

/-- So the buffer holds all of it, -/
theorem wbuff_output (k : ℕ) : wbuff (output W k) = output W k := by
  rw [wbuff, cString_output, Nat.sub_self]
  exact List.append_nil _

/-- and the zero behind it is copied behind the buffer. -/
theorem strcpy_overruns (k : ℕ) :
    (cString (output W k) ++ [0]).length = (wbuff (output W k)).length + 1 := by
  rw [cString_output, wbuff_output, List.length_append, List.length_singleton]

/-- What an iteration does. -/
theorem next_cases (h : (sender W t).step s a = some u) :
    (a.sends = false ∧ a.accepted = none ∧ u = s ∧ ∀ cur, a.clock = some cur → cur < s.nxt) ∨
      ∃ cur n, a = .send cur n ∧ s.nxt ≤ cur ∧ n ≤ (output W s.count).length ∧
        u = ⟨s.nxt + 20000000, s.count + 1, s.socket ++ (output W s.count).take n⟩ := by
  cases a with
  | idle =>
    cases h
    exact .inl ⟨rfl, rfl, rfl, by simp [Iteration.clock]⟩
  | early cur =>
    simp only [sender, Sender.next] at h
    split at h
    · rename_i hlt
      cases h
      refine .inl ⟨rfl, rfl, rfl, ?_⟩
      intro x hx
      cases hx
      exact hlt
    · cases h
  | send cur n =>
    simp only [sender, Sender.next, wbuff_output] at h
    split at h
    · rename_i hen
      cases h
      exact .inr ⟨cur, n, rfl, hen.1, hen.2, rfl⟩
    · cases h

theorem step_idle : (sender W t).step s .idle = some s := rfl

theorem step_early {cur : ℤ} (h : cur < s.nxt) : (sender W t).step s (.early cur) = some s :=
  if_pos h

theorem step_send {cur : ℤ} {n : ℕ} (h : s.nxt ≤ cur) (hn : n ≤ (output W s.count).length) :
    (sender W t).step s (.send cur n) =
      some ⟨s.nxt + 20000000, s.count + 1, s.socket ++ (output W s.count).take n⟩ := by
  simp only [sender, Sender.next, wbuff_output]
  exact if_pos ⟨h, hn⟩

/-! ### When messages are sent -/

section Paced

/-- When message `k` is due. -/
def due (t : ℤ) (k : ℕ) : ℤ := t + 50000 + 20000000 * k

/-- The variables count the messages, and each was due. -/
structure Pacing (t : ℤ) (tr : List Iteration) (s : Sender) : Prop where
  count : s.count = tr.countP Iteration.sends
  nxt : s.nxt = due t s.count
  late : ∀ k, k < s.count → ∃ cur ∈ tr.filterMap Iteration.clock, due t k ≤ cur

theorem Pacing.start : Pacing t [] (.start t) where
  count := rfl
  nxt := by simp [Sender.start, due]
  late k hk := absurd hk (Nat.not_lt_zero k)

theorem Pacing.step (h : Pacing t tr s) (hs : (sender W t).step s a = some u) :
    Pacing t (tr ++ [a]) u := by
  have hlate : ∀ k, k < s.count →
      ∃ cur ∈ (tr ++ [a]).filterMap Iteration.clock, due t k ≤ cur := by
    intro k hk
    obtain ⟨cur, hcur, hle⟩ := h.late k hk
    exact ⟨cur, by rw [List.filterMap_append]; exact List.mem_append_left _ hcur, hle⟩
  rcases next_cases hs with ⟨hsend, -, rfl, -⟩ | ⟨cur, n, rfl, hcur, -, rfl⟩
  · refine ⟨?_, h.nxt, hlate⟩
    rw [List.countP_append, ← h.count, List.countP_singleton, hsend]
    rfl
  · refine ⟨?_, ?_, ?_⟩
    · rw [List.countP_append, ← h.count]
      rfl
    · show s.nxt + 20000000 = due t (s.count + 1)
      rw [h.nxt, due, due]
      push_cast
      omega
    · intro k hk
      rcases Nat.lt_succ_iff_lt_or_eq.mp hk with hk | rfl
      · exact hlate k hk
      · refine ⟨cur, ?_, h.nxt ▸ hcur⟩
        rw [List.filterMap_append]
        exact List.mem_append_right _ (by simp [Iteration.clock])

theorem Pacing.run (h : (sender W t).Run (.start t) tr s) : Pacing t tr s :=
  h.inv (I := fun tr s => Pacing t tr s) Pacing.start fun _ _ _ _ _ hI hs => hI.step hs

/-- **No message before its time, and none missing**: in every run message `k` is sent when it is
due or later, 20 ms apart from the first one on, whatever the clock does. Where an iteration finds
nothing to be sent, and the clock did not read more before, exactly the messages due have been
sent, however late the iterations before it came. -/
theorem paced (h : (sender W t).Run (.start t) tr s) :
    (∀ pre cur n post, tr = pre ++ .send cur n :: post →
      due t (pre.countP Iteration.sends) ≤ cur) ∧
    ∀ pre cur post, tr = pre ++ .early cur :: post →
      (∀ x ∈ pre.filterMap Iteration.clock, x ≤ cur) →
        ∀ k, k < pre.countP Iteration.sends ↔ due t k ≤ cur := by
  constructor
  · rintro pre cur n post rfl
    obtain ⟨v, hv, hrest⟩ := h.append_inv
    obtain ⟨w, hw, -⟩ := hrest.cons_inv
    have hp := Pacing.run hv
    rcases next_cases hw with ⟨hsend, -⟩ | ⟨cur', n', he, hle, -⟩
    · cases hsend
    · cases he
      rw [← hp.count, ← hp.nxt]
      exact hle
  · rintro pre cur post rfl hmono k
    obtain ⟨v, hv, hrest⟩ := h.append_inv
    obtain ⟨w, hw, -⟩ := hrest.cons_inv
    have hp := Pacing.run hv
    rcases next_cases hw with ⟨-, -, -, hlt⟩ | ⟨cur', n', he, -⟩
    · have hearly := hlt cur rfl
      rw [hp.nxt] at hearly
      rw [← hp.count]
      constructor
      · intro hk
        obtain ⟨x, hx, hle⟩ := hp.late k hk
        exact hle.trans (hmono x hx)
      · intro hk
        unfold due at hk hearly
        omega
    · cases he

end Paced

/-! ### What arrives -/

/-- How many bytes of its messages `write` accepted. -/
def accepted (tr : List Iteration) : List ℕ := tr.filterMap Iteration.accepted

/-- The socket holds what was accepted of the messages. -/
structure Filling (W : Writer) (tr : List Iteration) (s : Sender) : Prop where
  count : s.count = (accepted tr).length
  socket : s.socket = ((accepted tr).mapIdx fun k n => (payload W k, n)).flatMap
    fun x => (x.1 ++ [sep]).take x.2
  le : ∀ k n, (accepted tr)[k]? = some n → n ≤ (output W k).length

theorem Filling.step (h : Filling W tr s) (hs : (sender W t).step s a = some u) :
    Filling W (tr ++ [a]) u := by
  have hsnoc : accepted (tr ++ [a]) = accepted tr ++ a.accepted.toList := by
    cases hacc : a.accepted <;> simp [accepted, hacc]
  rcases next_cases hs with ⟨-, hacc, rfl, -⟩ | ⟨cur, n, rfl, -, hn, rfl⟩
  · have hsame : accepted (tr ++ [a]) = accepted tr := by
      rw [hsnoc, hacc]
      exact List.append_nil _
    exact ⟨hsame ▸ h.count, hsame ▸ h.socket, hsame ▸ h.le⟩
  · have hnew : accepted (tr ++ [.send cur n]) = accepted tr ++ [n] := hsnoc
    refine ⟨?_, ?_, ?_⟩
    · rw [hnew, List.length_append, ← h.count]
      rfl
    · rw [hnew, List.mapIdx_concat, List.flatMap_append, ← h.socket, ← h.count,
        List.flatMap_singleton]
      rfl
    · intro k m hm
      rw [hnew, List.getElem?_append] at hm
      split at hm
      · exact h.le k m hm
      · rename_i hk
        rw [List.getElem?_singleton] at hm
        split at hm
        · cases hm
          have hkc : k = s.count := by
            rw [h.count]
            omega
          rw [hkc]
          exact hn
        · cases hm

theorem Filling.run (h : (sender W t).Run (.start t) tr s) : Filling W tr s := by
  refine h.inv (I := fun tr s => Filling W tr s) ⟨rfl, rfl, ?_⟩ fun _ _ _ _ _ hI hs => hI.step hs
  intro k n hn
  cases hn

/-- **What the receiver finds**: who cuts the stream at the separators finds the documents sent, in
order and none missing, if and only if `write` has accepted all of every message. -/
theorem framed (h : (sender W t).Run (.start t) tr s) :
    frames sep s.socket = (List.range s.count).map (payload W) ↔
      ∀ k n, (accepted tr)[k]? = some n → n = (output W k).length := by
  have hf := Filling.run h
  have hsep : ∀ x ∈ (accepted tr).mapIdx fun k n => (payload W k, n), sep ∉ x.1 := by
    intro x hx
    obtain ⟨k, hk, rfl⟩ := List.mem_mapIdx.mp hx
    exact sep_notMem_payload k
  have hpayloads : ((accepted tr).mapIdx fun k n => (payload W k, n)).map Prod.fst =
      (List.range s.count).map (payload W) := by
    rw [hf.count]
    refine List.ext_getElem (by simp) fun k h1 h2 => ?_
    simp
  rw [hf.socket, ← hpayloads, frames_flatMap_take_iff hsep]
  have hlen : ∀ k, (output W k).length = (payload W k).length + 1 := fun k => List.length_append
  constructor
  · intro hall k n hn
    have hlt := hall (payload W k, n) (by
      obtain ⟨hk, rfl⟩ := List.getElem?_eq_some_iff.mp hn
      exact List.mem_mapIdx.mpr ⟨k, hk, rfl⟩)
    have hle := hf.le k n hn
    rw [hlen] at hle ⊢
    exact le_antisymm hle hlt
  · intro hall x hx
    obtain ⟨k, hk, rfl⟩ := List.mem_mapIdx.mp hx
    have hn := hall k _ (List.getElem?_eq_getElem hk)
    rw [hlen] at hn
    exact hn ▸ Nat.lt_succ_self _

/-! ### A first message -/

/-- The first text up to its line feed, with all numbers as jsoncpp writes them. -/
def firstText : List String :=
  ["\x7b\"parameter\":\x7b\"md\":5,\"mi\":4,\"mp\":3,",
    "\"rspeed\":40,\"sd\":8,\"si\":7,\"sp\":6\x7d,\"sensor\":\x7b",
    "\"acc_x\":-0.48999999999999999,\"acc_y\":-0.93000000000000005,",
    "\"acc_z\":8.4600000000000009,\"angle\":-0.56703389999999998,\"as5048a\":30.0,",
    "\"bias\":5.0999999999999996,\"gra_x\":-0.52000000000000002,",
    "\"gra_y\":-1.0800000000000001,\"gra_z\":9.7300000000000004,\"gyr_x\":0.0,",
    "\"gyr_y\":0.0011111109999999999,\"gyr_z\":0.0011111109999999999,",
    "\"hcsr04\":123.258422762904,\"heading\":275.25,\"lacc_x\":0.050000000000000003,",
    "\"lacc_y\":0.12,\"lacc_z\":-1.26,\"mag_x\":24.25,\"mag_y\":7.5,\"mag_z\":-46.75,",
    "\"milliseconds\":0.0,\"ori_w\":0.7374267578125,\"ori_x\":-0.05908203125,",
    "\"ori_y\":-0.017639160000000001,\"ori_z\":0.67260742200000001,\"pitch\":6.3125,",
    "\"radius\":30.5,\"roll\":-3.0,\"rspeed\":40.0,\"temp_c\":23.0,",
    "\"throttle\":0.69999999999999996,\"vm\":8.1679680000000001,",
    "\"vp\":8.1958079999999995\x7d\x7d"]

theorem firstText_notMem : ∀ piece ∈ firstText, sep ∉ ascii piece ∧ 0 ∉ ascii piece := by
  decide +kernel

theorem firstText_ne {b : UInt8} (hb : ∀ piece ∈ firstText, b ∉ ascii piece) (hn : b ≠ 0x0a) :
    b ∉ firstText.flatMap ascii ++ [0x0a] := by
  simp only [List.mem_append, List.mem_flatMap, List.mem_singleton, not_or, not_exists, not_and]
  exact ⟨hb, hn⟩

/-- The writer as far as the first message goes: `sin` is asked for 0. -/
def firstWriter : Writer where
  sin _ := 0
  write _ := firstText.flatMap ascii ++ [0x0a]
  newline _ := List.getLast?_concat
  sep_notMem _ := firstText_ne (fun piece h => (firstText_notMem piece h).1) (by decide)
  nul_notMem _ := firstText_ne (fun piece h => (firstText_notMem piece h).2) (by decide)

/-- The first message is due after 50 µs, and all of it is accepted. -/
def firstIterations : List Iteration :=
  [.early 10000, .send 50000 (output firstWriter 0).length, .idle, .early 60000]

theorem exists_run_first : ∃ s, (sender firstWriter 0).Run (.start 0) firstIterations s ∧
    s.count = 1 := by
  have hearly : (sender firstWriter 0).step (.start 0) (.early 10000) = some (.start 0) :=
    step_early (by decide)
  have hsend : (sender firstWriter 0).step (.start 0)
      (.send 50000 (output firstWriter 0).length) = some ⟨20050000, 1,
        [] ++ (output firstWriter 0).take (output firstWriter 0).length⟩ :=
    step_send (by decide) le_rfl
  refine ⟨_, (((Lts.Run.nil.snoc hearly).snoc hsend).snoc step_idle).snoc (step_early ?_), ?_⟩
  · exact (by decide : (60000 : ℤ) < 20050000)
  · exact rfl

/-- After 60 µs one message was due. -/
theorem paced_first : ∃ s, (sender firstWriter 0).Run (.start 0) firstIterations s ∧
    ∀ k, k < 1 ↔ due 0 k ≤ 60000 := by
  obtain ⟨s, hs, -⟩ := exists_run_first
  refine ⟨s, hs, ?_⟩
  exact (paced hs).2 [.early 10000, .send 50000 (output firstWriter 0).length, .idle] 60000 [] rfl
    (by decide +kernel)

theorem accepted_first : accepted firstIterations = [(output firstWriter 0).length] := by
  simp only [accepted, firstIterations, List.filterMap_cons, Iteration.accepted, List.filterMap_nil]

/-- The receiver finds it. -/
theorem framed_first : ∃ s, (sender firstWriter 0).Run (.start 0) firstIterations s ∧
    frames sep s.socket = [payload firstWriter 0] := by
  obtain ⟨s, hs, hcount⟩ := exists_run_first
  have hall : ∀ k n, (accepted firstIterations)[k]? = some n →
      n = (output firstWriter k).length := by
    intro k n hn
    rw [accepted_first, List.getElem?_singleton] at hn
    split at hn
    · rename_i hk
      rw [hk]
      exact (Option.some.inj hn).symm
    · cases hn
  refine ⟨s, hs, ?_⟩
  rw [(framed hs).mpr hall, hcount]
  rfl

end Vehicle.Recovery.Remote
