import Mathlib.Data.List.Induction
import Uos.Library.Execution
import Uos.Library.Framing
import Uos.Uart.SlipRoundTrip

/-!
# Whole frames

Which packets the SLIP receiver puts into its queue, for any bytes, any shortage of memory and any
delay of its task.
-/

namespace Uos

open List

/-- The content of a run of bytes, and whether an escape is left over, with one byte more. -/
def unstuffByte (content : List UChar × Bool) (c : UChar) : List UChar × Bool :=
  if c = slipEsc then (content.1, true)
  else (content.1 ++ [if content.2 then SlipIn.unescape c else c], false)

/-- The content of a run of bytes, and whether an escape is left over. -/
def unstuffing (run : List UChar) : List UChar × Bool :=
  run.foldl unstuffByte ([], false)

def unstuff (run : List UChar) : List UChar :=
  (unstuffing run).1

theorem unstuffing_snoc (run : List UChar) (c : UChar) :
    unstuffing (run ++ [c]) = unstuffByte (unstuffing run) c := by
  rw [unstuffing, foldl_append]
  rfl

theorem unstuffing_stuff (run : List UChar) (plain : (unstuffing run).2 = false) (c : UChar) :
    unstuffing (run ++ stuff c) = ((unstuffing run).1 ++ [c], false) := by
  have escaped : ∀ code, code ≠ slipEsc →
      unstuffing (run ++ [slipEsc, code]) =
      ((unstuffing run).1 ++ [SlipIn.unescape code], false) := by
    intro code other
    have same : run ++ [slipEsc, code] = run ++ [slipEsc] ++ [code] := by simp
    rw [same, unstuffing_snoc, unstuffing_snoc, unstuffByte, unstuffByte, if_pos rfl, if_neg other]
    rfl
  rw [stuff]
  split_ifs with flag esc
  · rw [escaped _ (by decide), flag]
    rfl
  · rw [escaped _ (by decide), esc]
    rfl
  · rw [unstuffing_snoc, unstuffByte, if_neg esc, plain]
    rfl

theorem unstuff_stuffed (content : List UChar) : unstuff (content.flatMap stuff) = content := by
  have both : unstuffing (content.flatMap stuff) = (content, false) := by
    induction content using List.reverseRecOn with
    | nil => rfl
    | append_singleton content c ih =>
      rw [flatMap_append, flatMap_cons, flatMap_nil, append_nil,
        unstuffing_stuff _ (by rw [ih]), ih]
  rw [unstuff, both]

namespace SlipIn

theorem process_packet {u : SlipIn} {received : List UChar}
    (buffer : u.in_ptr = some received) (nonempty : received ≠ [])
    (fits : received.length ≤ u.tot_len) :
    u.process =
      if u.inq.length = slipQueueSize then
        { u with tot_len := received.length, in_ptr := some [] }
      else
        { u with tot_len := received.length, inq := u.inq ++ [received], in_ptr := none } := by
  obtain ⟨c, rest, rfl⟩ := exists_cons_of_ne_nil nonempty
  rw [process, buffer]
  dsimp only
  rw [Nat.min_eq_right fits, take_length]

theorem allocate_inq (granted : Bool) (u : SlipIn) :
    (u.allocate granted).inq = u.inq ∧ (u.allocate granted).in_escape = u.in_escape ∧
      ∀ received, (u.allocate granted).in_ptr = some received →
        u.in_ptr = some received ∨ received = [] := by
  rw [allocate.eq_def]
  split
  · refine ⟨rfl, rfl, fun received same => .inr ?_⟩
    cases same
    rfl
  · exact ⟨rfl, rfl, fun received same => .inl same⟩

end SlipIn

/-- The receiver at work, the bytes that it received, and the packets that were taken out of its
queue. -/
structure SlipRx extends SlipIn where
  awake : Bool := false
  input : List UChar := []
  taken : List (List UChar) := []
  deriving DecidableEq

/-- What happens to the receiver. -/
inductive SlipRxEvent
  /-- The handler gets a byte. -/
  | byte (c : UChar)
  /-- The task that was woken takes its turn, and asks for memory. -/
  | turn (granted : Bool)
  /-- Another task takes a packet. -/
  | take
  deriving DecidableEq

namespace SlipRx

def start (mtu : Nat) (granted : Bool) : SlipRx :=
  { SlipIn.allocate granted { mtu } with }

def step (s : SlipRx) : SlipRxEvent → SlipRx
  | .byte c =>
    let (whole, u) := s.receiveByte c
    { toSlipIn := u, awake := s.awake || whole, input := s.input ++ [c], taken := s.taken }
  | .turn granted =>
    if s.awake then { s with toSlipIn := s.process.allocate granted, awake := false }
    else s
  | .take =>
    let (p, u) := s.slipInput
    { s with toSlipIn := u, taken := s.taken ++ p.toList }

def queued (s : SlipRx) : List (List UChar) :=
  s.taken ++ s.inq

/-- The complete runs of the bytes that were received, without stuffing. -/
def frames (s : SlipRx) : List (List UChar) :=
  (Framing.runs slipFlag s.input).complete.map unstuff

/-- Nothing goes wrong at an event: only flags come while a packet waits for the task, a frame is
not longer than the buffer, and a packet in a buffer that is used again is not longer than the one
before. -/
def Fits (s : SlipRx) : SlipRxEvent → Prop
  | .byte c =>
    (s.awake = true → c = slipFlag) ∧
      ∀ received, s.in_ptr = some received → s.mtu ≤ received.length → c = slipFlag ∨ c = slipEsc
  | .turn _ => ∀ received, s.in_ptr = some received → received.length ≤ s.tot_len
  | .take => True

/-- The packets that were queued, and what is in the buffer. -/
structure Faithful (s : SlipRx) : Prop where
  waits : s.awake = true → s.in_escape = false ∧ (Framing.runs slipFlag s.input).rest = [] ∧
    ∃ run before after, s.in_ptr = some (unstuff run) ∧ unstuff run ≠ [] ∧
      (Framing.runs slipFlag s.input).complete = before ++ run :: after ∧
      s.queued.Sublist (before.map unstuff)
  fills : s.awake = false → (∀ received, s.in_ptr = some received →
    (received, s.in_escape) = unstuffing (Framing.runs slipFlag s.input).rest) ∧
      s.queued.Sublist s.frames

theorem faithful_start (mtu : Nat) (granted : Bool) : (start mtu granted).Faithful := by
  constructor
  · intro awake
    cases awake
  · intro _
    cases granted with
    | false =>
      refine ⟨fun received impossible => ?_, List.Sublist.refl _⟩
      cases impossible
    | true =>
      refine ⟨fun received same => ?_, List.Sublist.refl _⟩
      cases same
      rfl

variable {s : SlipRx}

theorem Faithful.sublist (faithful : s.Faithful) : s.queued.Sublist s.frames := by
  cases awake : s.awake with
  | false => exact (faithful.fills awake).2
  | true =>
    obtain ⟨-, -, run, before, after, -, -, complete, sublist⟩ := faithful.waits awake
    rw [frames, complete, map_append]
    exact sublist.trans (sublist_append_left _ _)

theorem Faithful.flag_waits (faithful : s.Faithful) (awake : s.awake = true) :
    (s.step (.byte slipFlag)).Faithful := by
  obtain ⟨escape, rest, run, before, after, buffer, nonempty, complete, sublist⟩ :=
    faithful.waits awake
  rw [step, SlipIn.receiveByte_flag buffer]
  constructor
  · intro _
    dsimp only
    rw [Framing.runs_flag]
    refine ⟨rfl, rfl, run, before, after ++ [(Framing.runs slipFlag s.input).rest],
      buffer, nonempty,
      ?_, sublist⟩
    rw [complete, append_assoc, cons_append]
  · intro asleep
    rw [awake] at asleep
    cases asleep

theorem Faithful.flag_fills (faithful : s.Faithful) (asleep : s.awake = false) :
    (s.step (.byte slipFlag)).Faithful := by
  obtain ⟨fills, sublist⟩ := faithful.fills asleep
  have longer : s.queued.Sublist ((Framing.runs slipFlag (s.input ++ [slipFlag])).complete.map
      unstuff) := by
    rw [Framing.runs_flag, map_append]
    exact sublist.trans (sublist_append_left _ _)
  cases buffer : s.in_ptr with
  | none =>
    rw [step, SlipIn.receiveByte_none buffer]
    constructor
    · intro awake
      rw [asleep] at awake
      cases awake
    · intro _
      refine ⟨fun received impossible => ?_, longer⟩
      rw [buffer] at impossible
      cases impossible
  | some received =>
    have content := fills received buffer
    rw [step, SlipIn.receiveByte_flag buffer]
    constructor
    · intro awake
      have full : received ≠ [] := by
        rintro rfl
        rw [asleep] at awake
        cases awake
      have whole : received = unstuff (Framing.runs slipFlag s.input).rest :=
        congrArg Prod.fst content
      dsimp only
      rw [Framing.runs_flag]
      refine ⟨rfl, rfl, _, _, [], buffer.trans (congrArg some whole), whole ▸ full, rfl, sublist⟩
    · intro still
      have empty : received = [] := by
        cases received with
        | nil => rfl
        | cons c received =>
          rw [asleep] at still
          cases still
      refine ⟨fun received' same => ?_, longer⟩
      cases buffer.symm.trans same
      dsimp only
      rw [Framing.runs_flag, empty]
      rfl

theorem Faithful.byte_fills (faithful : s.Faithful) (asleep : s.awake = false) {c : UChar}
    (flag : c ≠ slipFlag)
    (fits : ∀ received, s.in_ptr = some received → s.mtu ≤ received.length → c = slipEsc) :
    (s.step (.byte c)).Faithful := by
  obtain ⟨fills, sublist⟩ := faithful.fills asleep
  have same : s.queued.Sublist ((Framing.runs slipFlag (s.input ++ [c])).complete.map unstuff) := by
    rw [Framing.runs_other _ _ flag]
    exact sublist
  have goes : ∀ u : SlipIn, s.receiveByte c = (false, u) → u.inq = s.inq →
      (∀ received', u.in_ptr = some received' →
        ∃ received, s.in_ptr = some received ∧
          (received', u.in_escape) = unstuffByte (received, s.in_escape) c) →
      (s.step (.byte c)).Faithful := by
    intro u result queue contents
    rw [step, result]
    constructor
    · intro awake
      rw [asleep] at awake
      cases awake
    · intro _
      refine ⟨fun received' buffer' => ?_, ?_⟩
      · obtain ⟨received, buffer, content⟩ := contents received' buffer'
        dsimp only at content ⊢
        rw [content, Framing.runs_other _ _ flag, unstuffing_snoc, ← fills received buffer]
      · rw [queued, frames]
        dsimp only
        rw [queue]
        exact same
  cases buffer : s.in_ptr with
  | none =>
    apply goes _ (SlipIn.receiveByte_none buffer c) rfl
    intro received' impossible
    rw [buffer] at impossible
    cases impossible
  | some received =>
    rcases eq_or_ne c slipEsc with rfl | esc
    · apply goes _ (SlipIn.receiveByte_esc buffer) rfl
      intro received' same'
      cases buffer.symm.trans same'
      exact ⟨received, buffer, by rw [unstuffByte, if_pos rfl]⟩
    · have room : received.length < s.mtu := Nat.not_le.mp fun full =>
        esc (fits received buffer full)
      apply goes _ (SlipIn.receiveByte_plain buffer room flag esc) rfl
      intro received' same'
      cases same'
      exact ⟨received, buffer, by rw [unstuffByte, if_neg esc]⟩

theorem Faithful.turn (faithful : s.Faithful) (awake : s.awake = true) (granted : Bool)
    (fits : ∀ received, s.in_ptr = some received → received.length ≤ s.tot_len) :
    (s.step (.turn granted)).Faithful := by
  obtain ⟨escape, rest, run, before, after, buffer, nonempty, complete, sublist⟩ :=
    faithful.waits awake
  have processed := SlipIn.process_packet buffer nonempty (fits _ buffer)
  obtain ⟨queue, escape', contents⟩ := SlipIn.allocate_inq granted s.process
  rw [step, if_pos awake]
  constructor
  · intro impossible
    cases impossible
  · intro _
    refine ⟨fun received same => ?_, ?_⟩
    · have empty : received = [] := by
        rcases contents received same with kept | empty
        · rw [processed] at kept
          split_ifs at kept
          · cases kept
            rfl
        · exact empty
      dsimp only
      rw [escape', rest, empty, processed]
      split_ifs <;> rw [escape] <;> rfl
    · rw [queued, frames]
      dsimp only
      rw [queue, processed, complete, map_append, map_cons]
      split_ifs
      · exact sublist.trans (sublist_append_left _ _)
      · dsimp only
        rw [← append_assoc, append_cons (before.map unstuff)]
        exact (sublist.append (List.Sublist.refl [unstuff run])).trans
          (sublist_append_left _ _)

theorem Faithful.take (faithful : s.Faithful) : (s.step .take).Faithful := by
  have same : (s.step .take).queued = s.queued := by
    rw [step, SlipIn.slipInput, queued, queued]
    cases queue : s.inq <;> simp [queue]
  have kept : (s.step .take).in_ptr = s.in_ptr ∧ (s.step .take).in_escape = s.in_escape := by
    rw [step, SlipIn.slipInput]
    cases s.inq <;> exact ⟨rfl, rfl⟩
  constructor
  · intro awake
    have waits := faithful.waits awake
    rwa [← kept.1, ← kept.2, ← same] at waits
  · intro asleep
    have fills := faithful.fills asleep
    rwa [← kept.1, ← kept.2, ← same] at fills

theorem Faithful.step (faithful : s.Faithful) {event : SlipRxEvent} (fits : s.Fits event) :
    (s.step event).Faithful := by
  cases event with
  | byte c =>
    cases awake : s.awake with
    | true =>
      rw [fits.1 awake]
      exact faithful.flag_waits awake
    | false =>
      rcases eq_or_ne c slipFlag with rfl | flag
      · exact faithful.flag_fills awake
      · exact faithful.byte_fills awake flag fun received buffer full =>
          (fits.2 received buffer full).resolve_left flag
  | turn granted =>
    cases awake : s.awake with
    | true => exact faithful.turn awake granted fits
    | false =>
      rw [SlipRx.step, if_neg (by rw [awake]; exact Bool.false_ne_true)]
      exact faithful
  | take => exact faithful.take

/-- An event at which nothing goes wrong. -/
def FittingStep (s s' : SlipRx) : Prop :=
  ∃ event, s.Fits event ∧ s' = s.step event

/-- As long as nothing goes wrong, the packets that were queued are complete frames, each of them
once and in order. -/
theorem queued_sublist {mtu : Nat} {granted : Bool}
    (run : Relation.ReflTransGen FittingStep (start mtu granted) s) :
    s.queued.Sublist s.frames := by
  refine Faithful.sublist (run_invariant Faithful ?_ (faithful_start mtu granted) run)
  rintro s s' faithful ⟨event, fits, rfl⟩
  exact faithful.step fits

def after (s : SlipRx) (events : List SlipRxEvent) : SlipRx :=
  events.foldl step s

/-- A frame of one byte. -/
theorem queued_one :
    (after (start 552 true) [.byte 1, .byte slipFlag, .turn true]).queued.Sublist
      (after (start 552 true) [.byte 1, .byte slipFlag, .turn true]).frames := by
  apply @queued_sublist _ 552 true
  refine .tail (.tail (.tail .refl ⟨.byte 1, ?_, rfl⟩) ⟨.byte slipFlag, ?_, rfl⟩)
    ⟨.turn true, ?_, rfl⟩
  · refine ⟨fun awake => ?_, fun received same full => ?_⟩
    · cases awake
    · cases same
      exact absurd full (by decide)
  · exact ⟨fun _ => rfl, fun _ _ _ => .inl rfl⟩
  · intro received same
    cases same
    decide

theorem after_ones (mtu : Nat) {n : Nat} (fits : n ≤ mtu) :
    after (start mtu true) (.replicate n (.byte 1)) =
      { mtu, in_ptr := some (.replicate n 1), tot_len := mtu, input := .replicate n 1 } := by
  induction n with
  | zero => rfl
  | succ n ih =>
    have room : (List.replicate n (1 : UChar)).length < mtu := by
      rw [length_replicate]
      exact fits
    rw [after] at ih ⊢
    rw [replicate_succ', foldl_append, ih (Nat.le_of_succ_le fits), foldl_cons,
      foldl_nil, step, SlipIn.receiveByte_plain rfl room (by decide) (by decide)]
    simp [replicate_succ']

theorem receiveByte_full {u : SlipIn} {received : List UChar} {c : UChar}
    (buffer : u.in_ptr = some received) (full : u.mtu ≤ received.length) (flag : c ≠ slipFlag)
    (esc : c ≠ slipEsc) :
    u.receiveByte c = (false, { u with in_escape := false, in_ptr := some [] }) := by
  rw [SlipIn.receiveByte, buffer]
  dsimp only
  rw [if_neg flag, if_neg esc, if_pos full]

def tooLong : List SlipRxEvent :=
  .replicate 552 (.byte 1) ++ [.byte 1, .byte 2, .byte slipFlag, .turn true]

theorem after_tooLong :
    after (start 552 true) tooLong =
      { mtu := 552, in_ptr := some [], tot_len := 552, inq := [[2]]
        input := .replicate 552 1 ++ [1] ++ [2] ++ [slipFlag] } := by
  have full := @receiveByte_full
    { mtu := 552, in_ptr := some (.replicate 552 1), tot_len := 552 } _ 1 rfl
    (Nat.le_of_eq length_replicate.symm) (by decide) (by decide)
  have ones := after_ones 552 (Nat.le_refl 552)
  rw [after] at ones
  rw [after, tooLong, foldl_append, ones, foldl_cons, step, full]
  rfl

theorem frames_tooLong :
    (after (start 552 true) tooLong).frames = [.replicate 552 1 ++ [1] ++ [2]] := by
  have plain : ∀ c ∈ List.replicate 552 (1 : UChar) ++ [1] ++ [2], c = 1 ∨ c = 2 := by
    intro c member
    rw [mem_append, mem_append, mem_singleton, mem_singleton] at member
    rcases member with (ones | one) | two
    · exact .inl (eq_of_mem_replicate ones)
    · exact .inl one
    · exact .inr two
  rw [after_tooLong, frames]
  dsimp only
  generalize List.replicate 552 (1 : UChar) ++ [1] ++ [2] = content at plain
  have same : content.flatMap stuff = content := by
    induction content with
    | nil => rfl
    | cons c content ih =>
      have single : stuff c = [c] := by
        rcases plain c mem_cons_self with rfl | rfl <;> decide
      rw [flatMap_cons, single, ih fun c member => plain c (mem_cons_of_mem _ member)]
      rfl
  have absent : slipFlag ∉ content := fun member => by
    rcases plain _ member with flag | flag <;> exact absurd flag (by decide)
  have runs := Framing.runs_append slipFlag [] absent
  rw [nil_append, Framing.runs_nil] at runs
  rw [Framing.runs_flag, runs]
  have content_eq := unstuff_stuffed content
  rw [same] at content_eq
  simp [content_eq]

/-- The end of a frame that is longer than the buffer is queued as a packet. -/
theorem tooLong_queued :
    ¬(after (start 552 true) tooLong).queued.Sublist (after (start 552 true) tooLong).frames := by
  rw [frames_tooLong, after_tooLong]
  intro sublist
  have whole := singleton_sublist.mp sublist
  have lengths := congrArg List.length (mem_singleton.mp whole)
  rw [length_append, length_append, length_replicate] at lengths
  exact absurd lengths (by decide)

end SlipRx

/-- These bytes are sent for a packet without empty segments. -/
def SlipOut.Sends (p : SlipPacket) (bytes : List UChar) : Prop :=
  (∀ segment ∈ p.first :: p.others, segment ≠ []) ∧ ∃ (u : SlipOut) (ports : List SlipPort),
    (transmitAll ports (u.load p)).2.out = none ∧
      (transmitAll ports (u.load p)).1.map SlipByte.byte = bytes

theorem SlipOut.Sends.eq {p : SlipPacket} {bytes : List UChar} (sends : Sends p bytes) :
    bytes = slipFlag :: p.content.flatMap stuff := by
  obtain ⟨full, u, ports, finished, rfl⟩ := sends
  obtain ⟨sent, all, todo⟩ := exists_sent ports (u.load p)
  rw [todo_eq_nil_iff.mpr finished, append_nil, todo_load, segments_todo full] at todo
  subst todo
  exact (matches_some all).2

namespace SlipIn

/-- A byte, where the task takes its turn at once, and the packets that were taken. -/
def inTime (s : SlipIn × List (List UChar)) (c : UChar) : SlipIn × List (List UChar) :=
  let (whole, u) := s.1.receiveByte c
  if whole then
    let (p, u) := (u.process.allocate true).slipInput
    (u, s.2 ++ p.toList)
  else (u, s.2)

theorem inTime_data {u u' : SlipIn} {bytes : List UChar} (taken : List (List UChar))
    (data : u.receiveData bytes = (false, [], u')) :
    bytes.foldl inTime (u, taken) = (u', taken) := by
  induction bytes generalizing u with
  | nil =>
    cases data
    rfl
  | cons c bytes ih =>
    rw [receiveData] at data
    rcases first : u.receiveByte c with ⟨_ | _, v⟩
    · rw [first] at data
      simp [inTime, first, ih data]
    · rw [first] at data
      cases data

theorem inTime_packet {mtu : Nat} {content : List UChar} (nonempty : content ≠ [])
    (short : content.length ≤ mtu) (taken : List (List UChar)) :
    (content.flatMap stuff ++ [slipFlag]).foldl inTime (allocate true { mtu }, taken) =
      (allocate true { mtu }, taken ++ [content]) := by
  have data := @receiveData_content (allocate true { mtu }) [] content [] rfl rfl
    (by rwa [length_nil, Nat.zero_add])
  rw [append_nil] at data
  rw [foldl_append, inTime_data _ data, foldl_cons, inTime, receiveByte_flag rfl]
  have turn := @process_packet { mtu, in_ptr := some content, tot_len := mtu } _ rfl nonempty
    short
  simp [nonempty, turn, allocate, slipInput, slipQueueSize]

/-- Packets, and a flag behind them, are received in order. -/
theorem link_delivers {mtu : Nat} {sent : List (SlipPacket × List UChar)}
    (sends : ∀ s ∈ sent, SlipOut.Sends s.1 s.2)
    (fits : ∀ s ∈ sent, s.1.content ≠ [] ∧ s.1.content.length ≤ mtu) :
    (sent.flatMap Prod.snd ++ [slipFlag]).foldl inTime (allocate true { mtu }, []) =
      (allocate true { mtu }, sent.map (·.1.content)) := by
  induction sent using List.reverseRecOn with
  | nil => rfl
  | append_singleton sent s ih =>
    rw [forall_mem_append, forall_mem_singleton] at sends fits
    rw [flatMap_append, flatMap_singleton, sends.2.eq, append_assoc, cons_append, append_cons,
      foldl_append, ih sends.1 fits.1, map_append]
    exact inTime_packet fits.2.1 fits.2.2 _

theorem link_delivers_flag :
    [slipFlag, 1, slipEsc, slipEscFlag, slipFlag].foldl inTime (allocate true { mtu := 552 }, []) =
      (allocate true { mtu := 552 }, [[1, slipFlag]]) :=
  @link_delivers 552 [⟨⟨0, [1], [[slipFlag]]⟩, [slipFlag, 1, slipEsc, slipEscFlag]⟩]
    (by simpa using ⟨by decide, {}, .replicate 5 ⟨true, true, 0⟩, by decide, by decide⟩) (by decide)

end SlipIn
end Uos
