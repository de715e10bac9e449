import Mathlib.Data.List.Forall2
import Uos.Uart.Slip

/-!
# What SLIP sends is received

The bytes that are sent for a packet, and what a receiver makes of them.
-/

namespace Uos

open List

def stuff (c : UChar) : List UChar :=
  if c = slipFlag then [slipEsc, slipEscFlag]
  else if c = slipEsc then [slipEsc, slipEscEsc]
  else [c]

theorem stuff_ne_nil (c : UChar) : stuff c ≠ [] := by
  rw [stuff]
  split_ifs <;> simp

theorem flag_not_mem_stuff (c : UChar) : slipFlag ∉ stuff c := by
  rw [stuff]
  split_ifs with flag esc
  · decide
  · decide
  · simpa using Ne.symm flag

theorem stuff_escFlag : stuff slipEscFlag = [slipEscFlag] := by
  decide

theorem stuff_escEsc : stuff slipEscEsc = [slipEscEsc] := by
  decide

namespace SlipOut

variable {port : SlipPort} {ports : List SlipPort} {u : SlipOut} {out : SlipPacket}

/-- What is to be sent for a segment; a byte for a segment without bytes is not known. -/
def segmentTodo (segment : List UChar) : List (Option UChar) :=
  if segment = [] then [none] else (segment.flatMap stuff).map some

/-- What is to be sent until the packet in transmission is finished. -/
def todo (u : SlipOut) : List (Option UChar) :=
  if u.out = none then []
  else
    (if u.out_flag then [some slipFlag] else []) ++ segmentTodo u.outseg ++
      u.segments.flatMap segmentTodo

/-- A byte is what was to be sent. -/
def Matches (c : SlipByte) (expected : Option UChar) : Prop :=
  match expected with
  | some byte => c = { byte, inside := true }
  | none => c.inside = false

theorem segmentTodo_cons (c : UChar) (segment : List UChar) :
    segmentTodo (c :: segment) = (stuff c ++ segment.flatMap stuff).map some := by
  rw [segmentTodo, if_neg (cons_ne_nil _ _), flatMap_cons]

theorem advance_todo (flag : u.out_flag = false) (present : u.out = some out)
    {segment : List UChar} :
    (u.advance out segment).todo = (segment.flatMap stuff).map some ++
      u.segments.flatMap segmentTodo := by
  cases segment with
  | nil =>
    rw [advance]
    split
    · rename_i outseg segments rest
      simp [todo, flag, present, rest]
    · rename_i rest
      simp [todo, rest]
  | cons c segment => simp [advance, todo, flag, present, segmentTodo_cons]

theorem stuffing_todo (present : u.out = some out) (flag : u.out_flag = false) {c : UChar}
    {outseg : List UChar} (segment : u.outseg = c :: outseg) (behind : UChar) :
    ∃ byte, (stuffing behind (c :: outseg)).1 = { byte, inside := true } ∧
      u.todo = some byte :: (u.advance out (stuffing behind (c :: outseg)).2).todo := by
  have known : u.out ≠ none := by simp [present]
  rw [stuffing, todo, if_neg known, flag, segment, segmentTodo_cons, stuff,
    if_neg Bool.false_ne_true]
  split_ifs
  · refine ⟨slipEsc, rfl, ?_⟩
    rw [advance_todo flag present]
    simp [stuff_escFlag]
  · refine ⟨slipEsc, rfl, ?_⟩
    rw [advance_todo flag present]
    simp [stuff_escEsc]
  · refine ⟨c, rfl, ?_⟩
    rw [advance_todo flag present]
    simp

theorem transmitStart_sends (present : u.out ≠ none) (empty : port.transmitter_empty = true)
    (cts : port.cts = true) :
    ∃ c expected u', u.transmitStart port = (true, some c, u') ∧ Matches c expected ∧
      u.todo = expected :: u'.todo := by
  obtain ⟨out, known⟩ := Option.ne_none_iff_exists'.mp present
  rw [transmitStart, empty, cts]
  simp only [Bool.not_true, Bool.false_eq_true, if_false]
  cases flag : u.out_flag with
  | true => exact ⟨_, some slipFlag, _, rfl, rfl, by simp [todo, flag, known]⟩
  | false =>
    rw [known]
    dsimp only
    cases segment : u.outseg with
    | nil =>
      refine ⟨_, none, _, rfl, rfl, ?_⟩
      rw [stuffing, advance_todo flag known, todo, if_neg present, flag, segment, segmentTodo]
      simp
    | cons c outseg =>
      obtain ⟨byte, same, todo⟩ := stuffing_todo known flag segment port.behind
      exact ⟨_, some byte, _, rfl, same, todo⟩

theorem transmitStart_waits (waits : ¬(port.transmitter_empty = true ∧ port.cts = true)) :
    ∃ result, u.transmitStart port = (result, none, u) := by
  rw [transmitStart]
  split_ifs with full held
  · exact ⟨_, rfl⟩
  · exact ⟨_, rfl⟩
  · simp at full held
    exact absurd ⟨full, held⟩ waits

theorem segmentTodo_ne_nil (segment : List UChar) : segmentTodo segment ≠ [] := by
  cases segment with
  | nil => exact cons_ne_nil _ _
  | cons c segment =>
    rw [segmentTodo_cons, Ne, map_eq_nil_iff, append_eq_nil_iff]
    exact fun nothing => stuff_ne_nil c nothing.1

theorem todo_eq_nil_iff : u.todo = [] ↔ u.out = none := by
  rw [todo]
  constructor
  · intro nothing
    by_contra present
    rw [if_neg present, append_eq_nil_iff, append_eq_nil_iff] at nothing
    exact segmentTodo_ne_nil _ nothing.1.2
  · exact fun finished => if_pos finished

theorem exists_sent (ports : List SlipPort) (u : SlipOut) :
    ∃ sent, List.Forall₂ Matches (transmitAll ports u).1 sent ∧
      u.todo = sent ++ (transmitAll ports u).2.todo := by
  induction ports generalizing u with
  | nil => exact ⟨[], .nil, rfl⟩
  | cons port ports ih =>
    rw [transmitAll]
    split_ifs with finished
    · exact ⟨[], .nil, rfl⟩
    · rcases Classical.em (port.transmitter_empty = true ∧ port.cts = true) with ready | waits
      · obtain ⟨c, expected, u', step, same, todo⟩ :=
          transmitStart_sends finished ready.1 ready.2
        obtain ⟨sent, all, rest⟩ := ih u'
        rw [step, todo, rest]
        exact ⟨expected :: sent, .cons same all, rfl⟩
      · obtain ⟨result, step⟩ := transmitStart_waits waits
        rw [step]
        exact ih u

theorem transmitAll_finishes {ports : List SlipPort}
    (ready : ∀ port ∈ ports, port.transmitter_empty = true ∧ port.cts = true) {u : SlipOut}
    (enough : u.todo.length ≤ ports.length) : (transmitAll ports u).2.out = none := by
  induction ports generalizing u with
  | nil => exact todo_eq_nil_iff.mp (length_eq_zero_iff.mp (Nat.le_zero.mp enough))
  | cons port ports ih =>
    rw [transmitAll]
    split_ifs with finished
    · exact finished
    · obtain ⟨empty, cts⟩ := ready port mem_cons_self
      obtain ⟨c, expected, u', step, -, todo⟩ := transmitStart_sends finished empty cts
      rw [step]
      rw [todo, length_cons, length_cons] at enough
      exact ih (fun port member => ready port (mem_cons_of_mem _ member))
        (Nat.le_of_succ_le_succ enough)

theorem todo_load (u : SlipOut) (p : SlipPacket) :
    (u.load p).todo = some slipFlag :: (p.first :: p.others).flatMap segmentTodo := by
  simp [load, todo]

theorem segments_todo {segments : List (List UChar)} (full : ∀ segment ∈ segments, segment ≠ []) :
    segments.flatMap segmentTodo = (segments.flatten.flatMap stuff).map some := by
  induction segments with
  | nil => rfl
  | cons segment segments ih =>
    rw [flatMap_cons, flatten_cons, flatMap_append, map_append,
      ih fun other member => full other (mem_cons_of_mem _ member), segmentTodo,
      if_neg (full segment mem_cons_self)]

theorem matches_some {sent : List SlipByte} {bytes : List UChar}
    (all : List.Forall₂ Matches sent (bytes.map some)) :
    (∀ c ∈ sent, c.inside = true) ∧ sent.map SlipByte.byte = bytes := by
  induction bytes generalizing sent with
  | nil =>
    cases all
    simp
  | cons byte bytes ih =>
    rw [map_cons] at all
    cases all with
    | cons first rest =>
      obtain ⟨inside, same⟩ := ih rest
      rw [Matches] at first
      subst first
      simp [same]
      exact inside

theorem matches_none {sent : List SlipByte} {expected : List (Option UChar)}
    (all : List.Forall₂ Matches sent expected) (unknown : none ∈ expected) :
    ∃ c ∈ sent, c.inside = false := by
  induction all with
  | nil => cases unknown
  | @cons c first sent expected same rest ih =>
    rcases mem_cons.mp unknown with rfl | later
    · exact ⟨c, mem_cons_self, same⟩
    · obtain ⟨c, member, outside⟩ := ih later
      exact ⟨c, mem_cons_of_mem _ member, outside⟩

end SlipOut

namespace SlipIn

variable {u : SlipIn} {received : List UChar}

theorem receiveByte_none (buffer : u.in_ptr = none) (c : UChar) :
    u.receiveByte c = (false, u) := by
  rw [receiveByte, buffer]

theorem receiveByte_flag (buffer : u.in_ptr = some received) :
    u.receiveByte slipFlag = (!received.isEmpty, { u with in_escape := false }) := by
  simp [receiveByte, buffer]

theorem receiveByte_esc (buffer : u.in_ptr = some received) :
    u.receiveByte slipEsc = (false, { u with in_escape := true }) := by
  rw [receiveByte, buffer]
  rfl

theorem receiveByte_plain {c : UChar} (buffer : u.in_ptr = some received)
    (room : received.length < u.mtu) (flag : c ≠ slipFlag) (esc : c ≠ slipEsc) :
    u.receiveByte c = (false, { u with
      in_escape := false
      in_ptr := some (received ++ [if u.in_escape then unescape c else c]) }) := by
  rw [receiveByte, buffer]
  dsimp only
  rw [if_neg flag, if_neg esc, if_neg (Nat.not_le.mpr room)]

theorem receiveData_stuff (c : UChar) (rest : List UChar) (buffer : u.in_ptr = some received)
    (plain : u.in_escape = false) (room : received.length < u.mtu) :
    u.receiveData (stuff c ++ rest) =
      { u with in_ptr := some (received ++ [c]) }.receiveData rest := by
  have escaped : ∀ code, code ≠ slipFlag → code ≠ slipEsc →
      u.receiveData (slipEsc :: code :: rest) =
        { u with in_ptr := some (received ++ [unescape code]) }.receiveData rest := by
    intro code flag esc
    have second := @receiveByte_plain { u with in_escape := true } received code buffer
      room flag esc
    rw [receiveData, receiveByte_esc buffer]
    dsimp only
    rw [receiveData, second]
    simp [plain]
  rw [stuff]
  split_ifs with flag esc
  · rw [flag]
    exact escaped slipEscFlag (by decide) (by decide)
  · rw [esc]
    exact escaped slipEscEsc (by decide) (by decide)
  · rw [singleton_append, receiveData, receiveByte_plain buffer room flag esc]
    simp [plain]

theorem receiveData_content (content rest : List UChar) (buffer : u.in_ptr = some received)
    (plain : u.in_escape = false) (room : received.length + content.length ≤ u.mtu) :
    u.receiveData (content.flatMap stuff ++ rest) =
      { u with in_ptr := some (received ++ content) }.receiveData rest := by
  induction content generalizing u received with
  | nil => simp [← buffer]
  | cons c content ih =>
    rw [length_cons] at room
    have later := @ih { u with in_ptr := some (received ++ [c]) } (received ++ [c]) rfl plain (by
      rw [length_append, length_singleton]
      dsimp only
      omega)
    rw [flatMap_cons, append_assoc,
      receiveData_stuff c _ buffer plain (by omega), later]
    simp

/-- A receiver with an empty buffer makes one packet of some bytes. -/
def Receives (mtu : Nat) (bytes content : List UChar) : Prop :=
  ∀ u : SlipIn, u.mtu = mtu → u.in_ptr = some [] → u.tot_len = mtu →
    u.inq.length < slipQueueSize → ∃ u', u.receiveData bytes = (true, [], u') ∧
      u'.process.inq = u.inq ++ [content]

theorem receives_stuffed {mtu : Nat} {content : List UChar} (nonempty : content ≠ [])
    (short : content.length ≤ mtu) :
    Receives mtu (slipFlag :: content.flatMap stuff ++ [slipFlag]) content := by
  rintro u rfl buffer whole room
  have flag : u.receiveByte slipFlag = (false, { u with in_escape := false }) :=
    receiveByte_flag buffer
  have data := @receiveData_content { u with in_escape := false } [] content [slipFlag] buffer rfl
    (by simpa using short)
  obtain ⟨c, rest, rfl⟩ := exists_cons_of_ne_nil nonempty
  refine ⟨{ u with in_escape := false, in_ptr := some (c :: rest) }, ?_, ?_⟩
  · rw [cons_append, receiveData, flag]
    exact data
  · have shorter : min u.tot_len (c :: rest).length = (c :: rest).length := by omega
    rw [process]
    dsimp only
    rw [if_neg (Nat.ne_of_lt room), shorter, take_length]

end SlipIn

/-- Whenever the port is ready, all bytes that are sent for a packet come from its segments, and a
receiver makes this packet of them and a flag; and it is finished if the port is ready often
enough. -/
structure RoundTrips (mtu : Nat) (p : SlipPacket) : Prop where
  inside : ∀ (u : SlipOut) (ports : List SlipPort),
    ∀ c ∈ (SlipOut.transmitAll ports (u.load p)).1, c.inside = true
  received : ∀ (u : SlipOut) (ports : List SlipPort),
    (SlipOut.transmitAll ports (u.load p)).2.out = none →
      SlipIn.Receives mtu
        ((SlipOut.transmitAll ports (u.load p)).1.map SlipByte.byte ++ [slipFlag]) p.content
  finishes : ∀ u : SlipOut, ∃ n, ∀ ports : List SlipPort,
    (∀ port ∈ ports, port.transmitter_empty = true ∧ port.cts = true) → n ≤ ports.length →
      (SlipOut.transmitAll ports (u.load p)).2.out = none

/-- A packet is received as it was sent if and only if none of its segments is empty. -/
theorem roundTrips_iff {mtu : Nat} {p : SlipPacket} (nonempty : p.content ≠ [])
    (short : p.content.length ≤ mtu) :
    RoundTrips mtu p ↔ ∀ segment ∈ p.first :: p.others, segment ≠ [] := by
  have finishes : ∀ u : SlipOut, ∃ n, ∀ ports : List SlipPort,
      (∀ port ∈ ports, port.transmitter_empty = true ∧ port.cts = true) → n ≤ ports.length →
        (SlipOut.transmitAll ports (u.load p)).2.out = none := fun u =>
    ⟨_, fun _ ready enough => SlipOut.transmitAll_finishes ready enough⟩
  constructor
  · rintro ⟨inside, -, -⟩ segment member rfl
    obtain ⟨n, finish⟩ := finishes {}
    have ended := finish (.replicate n ⟨true, true, 0⟩)
      (fun port member => by rw [eq_of_mem_replicate member]; exact ⟨rfl, rfl⟩)
      (Nat.le_of_eq length_replicate.symm)
    obtain ⟨sent, all, todo⟩ :=
      SlipOut.exists_sent (.replicate n ⟨true, true, 0⟩) (SlipOut.load {} p)
    rw [SlipOut.todo_eq_nil_iff.mpr ended, append_nil] at todo
    subst todo
    have unknown : none ∈ (SlipOut.load {} p).todo := by
      rw [SlipOut.todo_load]
      exact mem_cons_of_mem _ (mem_flatMap.mpr ⟨[], member, mem_singleton_self _⟩)
    obtain ⟨c, sent, outside⟩ := SlipOut.matches_none all unknown
    exact absurd (inside _ _ c sent) (by rw [outside]; exact Bool.false_ne_true)
  · intro full
    have known : ∀ u : SlipOut,
        (u.load p).todo = (slipFlag :: p.content.flatMap stuff).map some := fun u => by
      rw [SlipOut.todo_load, SlipOut.segments_todo full]
      rfl
    refine ⟨?_, ?_, finishes⟩
    · intro u ports
      obtain ⟨sent, all, todo⟩ := SlipOut.exists_sent ports (u.load p)
      rw [known u] at todo
      obtain ⟨bytes, others, -, rfl, -⟩ := map_eq_append_iff.mp todo
      exact (SlipOut.matches_some all).1
    · intro u ports finished
      obtain ⟨sent, all, todo⟩ := SlipOut.exists_sent ports (u.load p)
      rw [SlipOut.todo_eq_nil_iff.mpr finished, append_nil, known u] at todo
      subst todo
      rw [(SlipOut.matches_some all).2]
      exact SlipIn.receives_stuffed nonempty short

/-- A packet of two segments with a flag and an escape. -/
theorem roundTrips_escapes : RoundTrips 552 ⟨0, [1, slipFlag, slipEsc], [[2]]⟩ :=
  (roundTrips_iff (by decide) (by decide)).mpr (by decide)

/-- For an empty segment a byte is sent that is behind it. -/
theorem emptySegment_sends :
    ¬∀ (mtu : Nat) (p : SlipPacket), p.content ≠ [] → p.content.length ≤ mtu →
      RoundTrips mtu p := by
  intro all
  have inside := (all 552 ⟨0, [1], [[], [2]]⟩ (by decide) (by decide)).inside {}
    (.replicate 3 ⟨true, true, 85⟩) ⟨85, false⟩ (by decide)
  exact Bool.false_ne_true inside

end Uos
