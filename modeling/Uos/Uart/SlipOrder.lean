import Mathlib.Data.Option.Basic
import Uos.Library.Execution
import Uos.Library.Framing
import Uos.Uart.SlipRoundTrip

/-!
# The order of packets

In which order the SLIP transmitter sends the packets that were accepted, and which of them are
freed, for any order of calls, interrupts and turns of the transmit task.
-/

namespace Uos

open List

namespace SlipPacket

/-- No segment of a packet is empty. -/
def Full (p : SlipPacket) : Prop :=
  ∀ segment ∈ p.first :: p.others, segment ≠ []

def stuffed (p : SlipPacket) : List UChar :=
  p.content.flatMap stuff

theorem flag_not_mem_stuffed (p : SlipPacket) : slipFlag ∉ p.stuffed := by
  rw [stuffed, mem_flatMap]
  rintro ⟨c, -, member⟩
  exact flag_not_mem_stuff c member

end SlipPacket

namespace SlipOut

/-- The next byte is the last one of the packet in transmission. -/
def LastByte (u : SlipOut) : Prop :=
  ∃ c, u.out_flag = false ∧ u.outseg = [c] ∧ u.segments = [] ∧ c ≠ slipFlag ∧ c ≠ slipEsc

/-- The segments that are left of the packet in transmission are not empty. -/
def Full (u : SlipOut) : Prop :=
  u.out ≠ none → ∀ segment ∈ u.outseg :: u.segments, segment ≠ []

/-- No packet is left in the queue without a turn of the transmit task to come. -/
def Awake (u : SlipOut) : Prop :=
  u.out = none → u.out_free = none → u.outq = []

/-- What a call of `slip_transmit_start` sends, and the state behind it. -/
inductive Transmits (u : SlipOut) : Option SlipByte → SlipOut → Prop
  | waits : Transmits u none u
  | flag (flag : u.out_flag = true) :
      Transmits u (some { byte := slipFlag, inside := true }) { u with out_flag := false }
  | goes {p : SlipPacket} {byte : UChar} {outseg : List UChar} {segments : List (List UChar)}
      (present : u.out = some p) (flag : u.out_flag = false)
      (todo : u.todo = some byte :: { u with outseg, segments }.todo)
      (full : { u with outseg, segments }.Full) :
      Transmits u (some { byte, inside := true }) { u with outseg, segments }
  | finishes {p : SlipPacket} {byte : UChar} (present : u.out = some p) (flag : u.out_flag = false)
      (todo : u.todo = [some byte]) (last : u.LastByte) :
      Transmits u (some { byte, inside := true })
        { u with outseg := [], out_free := some p, out := none, out_flag := true }

variable {u : SlipOut}

theorem enqueue_none (absent : u.out = none) (port : SlipPort) (p : SlipPacket) :
    u.enqueue port p = ((u.load p).transmitStart port).2 := by
  rw [enqueue, absent]

theorem enqueue_some {q : SlipPacket} (present : u.out = some q) (port : SlipPort)
    (p : SlipPacket) : u.enqueue port p = (none, { u with outq := u.outq ++ [p] }) := by
  rw [enqueue, present]

/-- A call of `slip_transmit_start`, where no segment is empty. -/
theorem transmits_transmitStart (full : u.Full) (port : SlipPort) :
    Transmits u (u.transmitStart port).2.1 (u.transmitStart port).2.2 := by
  rw [transmitStart]
  split_ifs
  · exact .waits
  · exact .waits
  · cases flag : u.out_flag with
    | true => exact .flag flag
    | false =>
      cases present : u.out with
      | none => exact .waits
      | some p =>
        have full := full (by simp [present])
        have others := fun segment member => full segment (mem_cons_of_mem _ member)
        obtain ⟨c, outseg, segment⟩ :=
          exists_cons_of_ne_nil (full u.outseg mem_cons_self)
        obtain ⟨byte, same, todo⟩ := stuffing_todo present flag segment port.behind
        dsimp only
        rw [segment, same]
        generalize rest : (stuffing port.behind (c :: outseg)).2 = left at todo ⊢
        cases left with
        | cons c' left =>
          exact .goes present flag todo fun _ =>
            forall_mem_cons.mpr ⟨cons_ne_nil _ _, others⟩
        | nil =>
          rw [advance] at todo ⊢
          split at todo
          · rename_i next segments known
            refine .goes present flag todo fun _ => ?_
            rwa [known] at others
          · rename_i none
            refine .finishes present flag (todo.trans (by simp [SlipOut.todo])) ?_
            rw [stuffing] at rest
            split_ifs at rest with plain esc
            exact ⟨c, flag, segment.trans (congrArg (c :: ·) rest), none, plain, esc⟩

/-- `slip_out_next` puts the first packet of the queue into transmission, where there is none. -/
theorem slipOutNext_cases (u : SlipOut) (port : SlipPort) :
    (∃ q outq, u.out = none ∧ u.outq = q :: outq ∧
      u.slipOutNext port =
        (({ u with out_free := none, outq }.load q).transmitStart port).2) ∨
      ((u.out = none → u.outq = []) ∧
        u.slipOutNext port = (none, { u with out_free := none })) := by
  rw [slipOutNext]
  cases present : u.out with
  | some p => exact .inr ⟨fun impossible => (nomatch impossible), rfl⟩
  | none =>
    cases queue : u.outq with
    | nil => exact .inr ⟨fun _ => rfl, rfl⟩
    | cons q outq => exact .inl ⟨q, outq, rfl, rfl, rfl⟩

/-- What is left to do: the bytes to be sent and the packets to be freed. -/
def work (u : SlipOut) : Nat :=
  2 * u.todo.length + (u.outq.map fun p => 2 * (p.stuffed.length + 1) + 1).sum +
    u.out_free.toList.length

theorem work_load {p : SlipPacket} (full : p.Full) (u : SlipOut) :
    (u.load p).work = 2 * (p.stuffed.length + 1) +
      (u.outq.map fun p => 2 * (p.stuffed.length + 1) + 1).sum + u.out_free.toList.length := by
  rw [work, todo_load, segments_todo full, length_cons, length_map]
  rfl

theorem awake_transmitStart (awake : u.Awake) (port : SlipPort) :
    (u.transmitStart port).2.2.Awake := by
  rw [transmitStart]
  split_ifs
  · exact awake
  · exact awake
  · split
    · exact awake
    · exact awake
    · rename_i p flag present
      dsimp only
      rw [advance.eq_def]
      split
      · split
        · exact fun absent => absurd (present.symm.trans absent) (by simp)
        · exact fun _ impossible => absurd impossible (by simp)
      · exact fun absent => absurd (present.symm.trans absent) (by simp)

theorem awake_load (u : SlipOut) (p : SlipPacket) : (u.load p).Awake := by
  intro impossible
  cases impossible

namespace Transmits

variable {c : Option SlipByte} {u' : SlipOut}

theorem work_lt (transmits : Transmits u c u') (free : u.LastByte → u.out_free = none)
    (present : u.out ≠ none) (sent : c ≠ none) : u'.work < u.work := by
  cases transmits with
  | waits => exact absurd rfl sent
  | flag flag =>
    rw [work, work, todo, todo, flag, if_neg present, if_neg present]
    simp
  | goes present flag todo full =>
    rw [work, work, todo, length_cons]
    dsimp only
    omega
  | finishes present flag todo last =>
    rw [work, work, todo, free last]
    simp only [SlipOut.todo, if_true, length_nil, length_cons, Option.toList]
    omega

theorem work_le (transmits : Transmits u c u') (free : u.LastByte → u.out_free = none) :
    u'.work ≤ u.work := by
  rcases Classical.em (u.out ≠ none ∧ c ≠ none) with ⟨present, sent⟩ | idle
  · exact Nat.le_of_lt (transmits.work_lt free present sent)
  · cases transmits with
    | waits => exact Nat.le_refl _
    | flag =>
      have absent : u.out = none := by simpa using idle
      apply Nat.le_of_eq
      simp [work, todo, absent]
    | goes present => exact absurd ⟨by simp [present], by simp⟩ idle
    | finishes present => exact absurd ⟨by simp [present], by simp⟩ idle

end Transmits
end SlipOut

/-- The transmitter at work, the packets that were accepted, the bytes that were handed to the port,
and the packets that were freed. -/
structure SlipTx extends SlipOut where
  accepted : List SlipPacket := []
  sent : List SlipByte := []
  freed : List SlipPacket := []
  deriving DecidableEq

/-- What happens to the transmitter, one thing at a time. -/
inductive SlipTxEvent
  /-- A call of `slip_output`. -/
  | output (port : SlipPort) (p : SlipPacket)
  /-- A call of `slip_send` goes on. -/
  | send (port : SlipPort) (p : SlipPacket)
  /-- A transmit interrupt, or `slip_cts_ready`. -/
  | transmit (port : SlipPort)
  /-- A turn of the transmit task. -/
  | turn (port : SlipPort)
  deriving DecidableEq

namespace SlipTx

def step (s : SlipTx) : SlipTxEvent → SlipTx
  | .output port p =>
    let (accepts, c, u) := s.slipOutput port p
    { toSlipOut := u, accepted := s.accepted ++ if accepts then [p] else []
      sent := s.sent ++ c.toList, freed := s.freed }
  | .send port p =>
    if s.Busy then s
    else
      let (c, u) := s.slipSend port p
      { toSlipOut := u, accepted := s.accepted ++ [p], sent := s.sent ++ c.toList
        freed := s.freed }
  | .transmit port =>
    let (_, c, u) := s.transmitStart port
    { s with toSlipOut := u, sent := s.sent ++ c.toList }
  | .turn port =>
    match s.out_free with
    | none => s
    | some p =>
      let (c, u) := s.slipOutNext port
      { s with toSlipOut := u, sent := s.sent ++ c.toList, freed := s.freed ++ [p] }

/-- Nothing goes wrong at an event: a packet without an empty segment is put into transmission at
once only if no packet is queued, and when the last byte of a packet is sent, the packet in front of
it was freed. -/
def Fits (s : SlipTx) : SlipTxEvent → Prop
  | .output _ p | .send _ p => p.Full ∧ (s.out = none → s.outq = [])
  | .transmit port =>
    port.transmitter_empty = true → port.cts = true → s.out ≠ none → s.LastByte →
      s.out_free = none
  | .turn _ => True

def finished (s : SlipTx) : List SlipPacket :=
  s.freed ++ s.out_free.toList

def runs (s : SlipTx) : Framing.Runs UChar :=
  Framing.runs slipFlag (s.sent.map SlipByte.byte)

def solid (runs : List (List UChar)) : List (List UChar) :=
  runs.filter (· ≠ [])

/-- The packets that were accepted are sent completely, in order, each of them once, and each of
them is freed once behind its last byte; with a ready port all of them are sent and freed. -/
structure InOrder (s : SlipTx) : Prop where
  packets : s.accepted = s.finished ++ s.out.toList ++ s.outq
  inside : ∀ c ∈ s.sent, c.inside = true
  bytes : ∃ part, solid (s.runs.complete ++ [s.runs.rest]) =
      s.finished.map SlipPacket.stuffed ++ solid [part] ∧
    match s.out with
    | none => part = []
    | some p => part <+: p.stuffed
  completes : ∀ port : SlipPort, port.transmitter_empty = true → port.cts = true →
    ∃ events : List SlipTxEvent, (∀ event ∈ events, event = .transmit port ∨ event = .turn port) ∧
      (events.foldl SlipTx.step s).freed = s.accepted

/-- What is known of the transmitter as long as nothing goes wrong. -/
structure Orderly (s : SlipTx) : Prop where
  packets : s.accepted = s.finished ++ s.out.toList ++ s.outq
  inside : ∀ c ∈ s.sent, c.inside = true
  full : s.Full
  queue : ∀ p ∈ s.outq, p.Full
  loaded : ∀ p, s.out = some p → s.out_flag = true → s.todo = (slipFlag :: p.stuffed).map some
  between : s.out = none ∨ s.out_flag = true →
    solid (s.runs.complete ++ [s.runs.rest]) = s.finished.map SlipPacket.stuffed
  within : ∀ p, s.out = some p → s.out_flag = false →
    solid s.runs.complete = s.finished.map SlipPacket.stuffed ∧
      s.runs.rest.map some ++ s.todo = p.stuffed.map some

theorem solid_append (runs runs' : List (List UChar)) :
    solid (runs ++ runs') = solid runs ++ solid runs' :=
  filter_append ..

theorem solid_full {run : List UChar} (full : run ≠ []) : solid [run] = [run] := by
  simp [solid, full]

theorem solid_nil : solid [[]] = [] :=
  rfl

variable {s : SlipTx}

theorem orderly_start : ({} : SlipTx).Orderly where
  packets := rfl
  inside := by simp
  full := absurd rfl
  queue := by simp
  loaded := by simp
  between _ := rfl
  within := by simp

theorem runs_sent (s : SlipTx) (u : SlipOut) (c : SlipByte) :
    ({ s with toSlipOut := u, sent := s.sent ++ [c] } : SlipTx).runs =
      s.runs.feed slipFlag c.byte := by
  rw [runs, map_append]
  exact Framing.runs_snoc ..

theorem inside_sent {sent : List SlipByte} (inside : ∀ c ∈ sent, c.inside = true) (byte : UChar) :
    ∀ c ∈ sent ++ [{ byte, inside := true }], c.inside = true := by
  intro c member
  rcases mem_append.mp member with before | last
  · exact inside c before
  · rw [mem_singleton.mp last]

variable {p : SlipPacket}

theorem runs_byte {byte : UChar} {later : List (Option UChar)} (u : SlipOut)
    (rest : s.runs.rest.map some ++ some byte :: later = p.stuffed.map some) :
    ({ s with toSlipOut := u, sent := s.sent ++ [{ byte, inside := true }] } : SlipTx).runs =
      { s.runs with rest := s.runs.rest ++ [byte] } := by
  have member : some byte ∈ p.stuffed.map some := by
    rw [← rest]
    exact mem_append_right _ mem_cons_self
  obtain ⟨byte', member, same⟩ := mem_map.mp member
  cases same
  have other : byte ≠ slipFlag := fun flag => p.flag_not_mem_stuffed (flag ▸ member)
  rw [runs_sent, Framing.Runs.feed, if_neg other]

/-- What `slip_transmit_start` does keeps the order. -/
theorem Orderly.transmits (orderly : s.Orderly) {c : Option SlipByte} {u : SlipOut}
    (transmits : SlipOut.Transmits s.toSlipOut c u)
    (freed : s.out ≠ none → s.LastByte → s.out_free = none) :
    ({ s with toSlipOut := u, sent := s.sent ++ c.toList } : SlipTx).Orderly := by
  cases transmits with
  | waits => simpa using orderly
  | flag flag =>
    have runs := runs_sent s { s.toSlipOut with out_flag := false }
      { byte := slipFlag, inside := true }
    rw [Framing.Runs.feed, if_pos rfl] at runs
    refine ⟨orderly.packets, inside_sent orderly.inside _, orderly.full,
      orderly.queue, ?_, ?_, ?_⟩
    · intro p present impossible
      cases impossible
    · intro _
      dsimp only [Option.toList]
      rw [runs, solid_append, solid_nil, append_nil]
      exact orderly.between (.inr flag)
    · intro p present _
      dsimp only [Option.toList]
      rw [runs]
      refine ⟨orderly.between (.inr flag), ?_⟩
      have todo := orderly.loaded p present flag
      have present : s.out = some p := present
      simp only [SlipOut.todo, present, flag, map_cons] at todo ⊢
      simpa using todo
  | @goes p byte outseg segments present flag todo full =>
    obtain ⟨complete, rest⟩ := orderly.within p present flag
    rw [todo] at rest
    have runs := runs_byte { s.toSlipOut with outseg, segments } rest
    refine ⟨orderly.packets, inside_sent orderly.inside _, full, orderly.queue, ?_, ?_, ?_⟩
    · intro p present set
      rw [flag] at set
      cases set
    · rintro (absent | set)
      · rw [present] at absent
        cases absent
      · rw [flag] at set
        cases set
    · intro p' present' _
      obtain rfl : p = p' := Option.some_injective _ (present.symm.trans present')
      dsimp only [Option.toList]
      rw [runs]
      refine ⟨complete, ?_⟩
      rw [map_append, append_assoc]
      exact rest
  | @finishes p byte present flag todo last =>
    obtain ⟨complete, rest⟩ := orderly.within p present flag
    have free := freed (by simp [present]) last
    rw [todo] at rest
    have runs := runs_byte
      { s.toSlipOut with outseg := [], out_free := some p, out := none, out_flag := true } rest
    have whole : s.runs.rest ++ [byte] = p.stuffed := by
      apply map_injective_iff.mpr (Option.some_injective _)
      rw [← rest, map_append]
      rfl
    have finished : s.finished = s.freed := by
      rw [SlipTx.finished, free]
      exact append_nil _
    refine ⟨?_, inside_sent orderly.inside _, absurd rfl, orderly.queue, ?_, ?_, ?_⟩
    · have packets := orderly.packets
      rw [finished, present] at packets
      rw [packets, SlipTx.finished]
      simp
    · intro p impossible
      cases impossible
    · intro _
      dsimp only [Option.toList]
      rw [runs, SlipTx.finished, whole, solid_append, complete, finished,
        solid_full (whole ▸ append_ne_nil_of_right_ne_nil _ (cons_ne_nil _ _))]
      simp
    · intro p impossible
      cases impossible

/-- A call of `slip_transmit_start` keeps the order. -/
theorem Orderly.transmitStart (orderly : s.Orderly) (port : SlipPort)
    (freed : s.out ≠ none → s.LastByte → s.out_free = none) :
    ({ s with
        toSlipOut := (s.toSlipOut.transmitStart port).2.2
        sent := s.sent ++ (s.toSlipOut.transmitStart port).2.1.toList } : SlipTx).Orderly := by
  apply orderly.transmits _ freed
  exact SlipOut.transmits_transmitStart orderly.full port

theorem Orderly.load (orderly : s.Orderly) (absent : s.out = none) {outq accepted : List SlipPacket}
    (full : p.Full) (queue : ∀ p ∈ outq, p.Full) (packets : accepted = s.finished ++ p :: outq) :
    ({ s with toSlipOut := { s.toSlipOut with outq }.load p, accepted } : SlipTx).Orderly where
  packets := by
    rw [packets, append_assoc]
    rfl
  inside := orderly.inside
  full _ := full
  queue := queue
  loaded p' same _ := by
    obtain rfl : p = p' := Option.some_injective _ same
    exact (SlipOut.todo_load _ p).trans
      (congrArg (some slipFlag :: ·) (SlipOut.segments_todo full))
  between _ := orderly.between (.inl absent)
  within p' _ impossible := by cases impossible

theorem not_lastByte_load (u : SlipOut) (p : SlipPacket) : ¬(u.load p).LastByte := by
  rintro ⟨c, impossible, -⟩
  cases impossible

theorem Orderly.enqueue (orderly : s.Orderly) (port : SlipPort) (full : p.Full)
    (first : s.out = none → s.outq = []) :
    ({ s with
        toSlipOut := (s.toSlipOut.enqueue port p).2
        accepted := s.accepted ++ [p]
        sent := s.sent ++ (s.toSlipOut.enqueue port p).1.toList } : SlipTx).Orderly := by
  cases present : s.out with
  | none =>
    rw [SlipOut.enqueue_none present]
    have outq := first present
    have packets : s.accepted ++ [p] = s.finished ++ p :: s.outq := by
      rw [orderly.packets, present, outq]
      simp
    have loaded := orderly.load present full orderly.queue packets
    exact loaded.transmitStart port fun _ last => absurd last (not_lastByte_load _ p)
  | some q =>
    rw [SlipOut.enqueue_some present, Option.toList, append_nil]
    refine ⟨?_, orderly.inside, orderly.full, ?_, orderly.loaded, orderly.between, orderly.within⟩
    · rw [orderly.packets]
      simp [SlipTx.finished]
    · exact forall_mem_append.mpr ⟨orderly.queue, forall_mem_singleton.mpr full⟩

theorem Orderly.free (orderly : s.Orderly) (free : s.out_free = some p) :
    ({ s with
        toSlipOut := { s.toSlipOut with out_free := none }
        freed := s.freed ++ [p] } : SlipTx).Orderly := by
  set t : SlipTx := { s with
    toSlipOut := { s.toSlipOut with out_free := none }
    freed := s.freed ++ [p] } with known
  have same : s.finished = t.finished := by
    rw [known, SlipTx.finished, free, SlipTx.finished]
    exact (append_nil _).symm
  have packets := orderly.packets
  have between := orderly.between
  have within := orderly.within
  rw [same] at packets between
  simp only [same] at within
  exact ⟨packets, orderly.inside, orderly.full, orderly.queue, orderly.loaded, between, within⟩

theorem Orderly.step (orderly : s.Orderly) {event : SlipTxEvent} (fits : s.Fits event) :
    (s.step event).Orderly := by
  cases event with
  | output port p =>
    rw [SlipTx.step, SlipOut.slipOutput]
    split_ifs
    · simpa using orderly
    · exact orderly.enqueue port fits.1 fits.2
  | send port p =>
    rw [SlipTx.step]
    split_ifs
    · exact orderly
    · exact orderly.enqueue port fits.1 fits.2
  | transmit port =>
    by_cases ready : port.transmitter_empty = true ∧ port.cts = true
    · exact orderly.transmitStart port (fits ready.1 ready.2)
    · obtain ⟨result, waits⟩ := s.toSlipOut.transmitStart_waits ready
      rw [SlipTx.step, waits]
      simpa using orderly
  | turn port =>
    rw [SlipTx.step]
    cases free : s.out_free with
    | none => exact orderly
    | some p =>
      have freed := orderly.free free
      dsimp only
      rcases s.toSlipOut.slipOutNext_cases port with ⟨q, outq, absent, queue, next⟩ | ⟨-, next⟩
      · have packets := freed.packets
        have waiting := freed.queue
        dsimp only at packets waiting
        rw [absent, queue, append_assoc] at packets
        rw [queue] at waiting
        have full := forall_mem_cons.mp waiting
        have loaded := freed.load absent full.1 full.2 packets
        rw [next]
        exact loaded.transmitStart port fun _ last => absurd last (not_lastByte_load _ q)
      · rw [next]
        simpa using freed

theorem awake_enqueue (s : SlipTx) (port : SlipPort) (p : SlipPacket) :
    (s.toSlipOut.enqueue port p).2.Awake := by
  cases present : s.out with
  | none =>
    rw [SlipOut.enqueue_none present]
    exact SlipOut.awake_transmitStart (SlipOut.awake_load _ p) port
  | some q =>
    rw [SlipOut.enqueue_some present]
    exact fun absent => absurd (present.symm.trans absent) (by simp)

theorem awake_step (awake : s.Awake) (event : SlipTxEvent) : (s.step event).Awake := by
  cases event with
  | output port p =>
    rw [SlipTx.step, SlipOut.slipOutput]
    split_ifs
    · exact awake
    · exact s.awake_enqueue port p
  | send port p =>
    rw [SlipTx.step]
    split_ifs
    · exact awake
    · exact s.awake_enqueue port p
  | transmit port => exact SlipOut.awake_transmitStart awake port
  | turn port =>
    rw [SlipTx.step]
    split
    · exact awake
    · rcases s.toSlipOut.slipOutNext_cases port with ⟨q, outq, -, -, next⟩ | ⟨empty, next⟩
      · rw [next]
        exact SlipOut.awake_transmitStart (SlipOut.awake_load _ q) port
      · rw [next]
        exact fun absent _ => empty absent

theorem Orderly.exists_step (orderly : s.Orderly) (awake : s.Awake) {port : SlipPort}
    (empty : port.transmitter_empty = true) (cts : port.cts = true)
    (left : s.freed ≠ s.accepted) :
    ∃ event, (event = .transmit port ∨ event = .turn port) ∧ s.Fits event ∧
      (s.step event).accepted = s.accepted ∧ (s.step event).work < s.work := by
  cases free : s.out_free with
  | some p =>
    refine ⟨.turn port, .inr rfl, trivial, ?_, ?_⟩
    · rw [SlipTx.step, free]
    · rw [SlipTx.step, free]
      dsimp only
      have freed := orderly.free free
      rcases s.toSlipOut.slipOutNext_cases port with ⟨q, outq, absent, queue, next⟩ | ⟨-, next⟩
      · rw [next]
        have full : q.Full := orderly.queue q (by rw [queue]; exact mem_cons_self)
        have loaded : ({ s.toSlipOut with out_free := none, outq }.load q).Full := fun _ => full
        have le := (SlipOut.transmits_transmitStart loaded port).work_le fun _ => rfl
        have todo : s.todo = [] := SlipOut.todo_eq_nil_iff.mpr absent
        rw [SlipOut.work_load full] at le
        apply Nat.lt_of_le_of_lt le
        rw [SlipOut.work, queue, todo, free, map_cons, sum_cons]
        dsimp only [Option.toList, List.length]
        omega
      · rw [next, SlipOut.work, SlipOut.work, free]
        exact Nat.lt_succ_self _
  | none =>
    have present : s.out ≠ none := by
      intro absent
      apply left
      rw [orderly.packets, absent, awake absent free, SlipTx.finished, free]
      simp
    refine ⟨.transmit port, .inl rfl, fun _ _ _ _ => free, rfl, ?_⟩
    obtain ⟨c, expected, u, sends, -⟩ :=
      SlipOut.transmitStart_sends present empty cts
    have transmits := SlipOut.transmits_transmitStart orderly.full port
    rw [sends] at transmits
    rw [SlipTx.step, sends]
    exact transmits.work_lt (fun _ => free) present (Option.some_ne_none c)

theorem Orderly.completes (orderly : s.Orderly) (awake : s.Awake) {port : SlipPort}
    (empty : port.transmitter_empty = true) (cts : port.cts = true) :
    ∃ events : List SlipTxEvent, (∀ event ∈ events, event = .transmit port ∨ event = .turn port) ∧
      (events.foldl SlipTx.step s).freed = s.accepted := by
  induction bound : s.work using Nat.strongRecOn generalizing s with
  | _ bound ih =>
    rcases Classical.em (s.freed = s.accepted) with done | left
    · exact ⟨[], by simp, done⟩
    · obtain ⟨event, kind, fits, accepted, less⟩ := orderly.exists_step awake empty cts left
      subst bound
      obtain ⟨events, kinds, freed⟩ :=
        ih _ less (orderly.step fits) (awake_step awake event) rfl
      refine ⟨event :: events, forall_mem_cons.mpr ⟨kind, kinds⟩, ?_⟩
      rw [foldl_cons, freed, accepted]

theorem Orderly.inOrder (orderly : s.Orderly) (awake : s.Awake) : s.InOrder := by
  refine ⟨orderly.packets, orderly.inside, ?_, fun _ => orderly.completes awake⟩
  cases present : s.out with
  | none => exact ⟨[], by rw [orderly.between (.inl present), solid_nil, append_nil], rfl⟩
  | some p =>
    cases flag : s.out_flag with
    | true =>
      refine ⟨[], ?_, nil_prefix⟩
      rw [orderly.between (.inr flag), solid_nil, append_nil]
    | false =>
      obtain ⟨complete, rest⟩ := orderly.within p present flag
      refine ⟨s.runs.rest, by rw [solid_append, complete], ?_⟩
      obtain ⟨front, back, same, first, -⟩ := map_eq_append_iff.mp rest.symm
      obtain rfl : front = s.runs.rest := by
        exact map_injective_iff.mpr (Option.some_injective _) first
      exact ⟨back, same.symm⟩

/-- An event at which nothing goes wrong. -/
def FittingStep (s s' : SlipTx) : Prop :=
  ∃ event, s.Fits event ∧ s' = s.step event

/-- As long as nothing goes wrong, all packets are sent in the order in which they were accepted,
and freed once. -/
theorem accepted_inOrder (run : Relation.ReflTransGen FittingStep {} s) : s.InOrder := by
  have known : s.Orderly ∧ s.Awake := by
    refine run_invariant (fun s => s.Orderly ∧ s.Awake) ?_ ⟨orderly_start, fun _ _ => rfl⟩ run
    rintro s s' ⟨orderly, awake⟩ ⟨event, fits, rfl⟩
    exact ⟨orderly.step fits, awake_step awake event⟩
  exact known.1.inOrder known.2

def after (events : List SlipTxEvent) : SlipTx :=
  events.foldl SlipTx.step {}

def single (buf : Nat) (c : UChar) : SlipPacket where
  buf
  first := [c]
  others := []

def readyPort : SlipPort where
  transmitter_empty := true
  cts := true
  behind := 0

theorem single_full (buf : Nat) (c : UChar) : (single buf c).Full := by
  intro segment member
  rw [mem_singleton.mp member]
  exact cons_ne_nil _ _

/-- One packet is sent and freed. -/
theorem accepted_one :
    (after [.output readyPort (single 1 7), .transmit readyPort, .turn readyPort]).InOrder := by
  have absent : ({} : SlipTx).out = none → ({} : SlipTx).outq = [] := fun _ => rfl
  have first := Relation.ReflTransGen.single (r := FittingStep) (a := {})
    ⟨.output readyPort (single 1 7), ⟨single_full 1 7, absent⟩, rfl⟩
  have second := first.tail ⟨.transmit readyPort, fun _ _ _ _ => by decide, rfl⟩
  exact accepted_inOrder (second.tail ⟨.turn readyPort, trivial, rfl⟩)

/-- A packet that is accepted when the one before it was sent completely, and the transmit task has
not had its turn. -/
def overtaking : List SlipTxEvent :=
  [.output readyPort (single 1 1), .output readyPort (single 2 2), .transmit readyPort,
    .output readyPort (single 3 3), .turn readyPort, .transmit readyPort, .turn readyPort,
    .transmit readyPort, .turn readyPort]

/-- A packet that is sent completely before the one in front of it is freed. -/
def overwriting : List SlipTxEvent :=
  [.output readyPort (single 1 1), .transmit readyPort, .output readyPort (single 2 2),
    .transmit readyPort, .turn readyPort]

/-- A packet overtakes another one, and a packet that was sent is never freed. -/
theorem overtaking_not_inOrder : ¬(after overtaking).InOrder ∧ ¬(after overwriting).InOrder := by
  refine ⟨fun inOrder => ?_, fun inOrder => ?_⟩
  · exact absurd inOrder.packets (by decide +kernel)
  · exact absurd inOrder.packets (by decide +kernel)

end SlipTx
end Uos
