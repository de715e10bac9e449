import Mathlib.Algebra.Ring.Divisibility.Basic
import Uos.Usb.Events

/-!
# The packets of a transfer to the host

A driver has some packet buffers for an endpoint, and completes the packets in order.  A transfer is
cut into the right packets if the driver has one buffer.  With two the stack goes on to load a
packet behind the last one, or takes the completion of an earlier packet for the last.
-/

namespace Uos.Usb

open List

/-- A packet that the driver is given. -/
structure Packet where
  pid : Nat
  data : Source
  offset : Int
  size : Int

def Call.packet? (ep : Nat) : Call → Option Packet
  | .epWaitIn target pid data offset size _ =>
    if target = ep then some ⟨pid, data, offset, size⟩ else none
  | _ => none

/-- The packets that the driver is given for an endpoint from one state to another. -/
def given (ep : Nat) (u u' : Usbdev) : List Packet :=
  (u'.calls.drop u.calls.length).filterMap (Call.packet? ep)

/-- The rest of a transfer, of which some packets wait at the driver: each completion but the last
finds the endpoint in `EP_STATE_WAIT_IN`, which loads another packet, and the one of the last packet
finds it in a state that `usbdevhal_in_done` ends. -/
inductive Completes (d : Device) (ep : Nat) (outside : Outside) :
    Usbdev → List Packet → List Packet → Prop
  | last {u : Usbdev} {p : Packet}
      (ends : (u.epIn ep).state = .waitInLast ∨ (u.epIn ep).state = .waitInAck) :
      Completes d ep outside u [p] [p]
  | next {u : Usbdev} {p : Packet} {waiting packets : List Packet}
      (goes : (u.epIn ep).state = .waitIn)
      (rest : Completes d ep outside (u.usbdevhalInDone d ep p.size outside)
        (waiting ++ given ep u (u.usbdevhalInDone d ep p.size outside)) packets) :
      Completes d ep outside u (p :: waiting) (p :: packets)

/-- The other of `PID_DATA0` and `PID_DATA1`. -/
def otherPid (pid : Nat) : Nat :=
  if pid = 0xb then 0x3 else 0xb

/-- Packets with alternating pids contain so many bytes from an offset on, in order. -/
def Consecutive (data : Source) : Nat → Int → Int → List Packet → Prop
  | _, _, rest, [] => rest = 0
  | pid, offset, rest, p :: packets =>
    p = ⟨pid, data, offset, p.size⟩ ∧ 0 ≤ p.size ∧
      Consecutive data (otherPid pid) (offset + p.size) (rest - p.size) packets

/-- Bytes are cut into the right packets. -/
structure Cut (m : Nat) (shorter : Prop) (data : Source) (pid : Nat) (offset rest : Int)
    (packets : List Packet) : Prop where
  some : packets ≠ []
  bytes : Consecutive data pid offset rest packets
  full : ∀ p ∈ packets.dropLast, p.size = m
  short : 0 < rest ∨ shorter → ∀ p ∈ packets.getLast?, p.size < m ↔ shorter ∨ ¬(m : Int) ∣ rest
  empty : rest = 0 → packets.length = 1

variable {m : Nat} {shorter : Prop} {data : Source} {pid : Nat} {offset rest : Int}

theorem cut_last (low : 0 ≤ rest) (last : rest < m ∨ rest = m ∧ ¬shorter) :
    Cut m shorter data pid offset rest [⟨pid, data, offset, rest⟩] where
  some := List.cons_ne_nil _ _
  bytes := ⟨rfl, low, Int.sub_self rest⟩
  full p impossible := absurd impossible List.not_mem_nil
  short some p same := by
    cases same
    rcases last with less | ⟨rfl, exact⟩
    · refine iff_of_true less (some.symm.imp_right fun positive divides => ?_)
      exact absurd (Int.le_of_dvd positive divides) (not_le.mpr less)
    · exact iff_of_false (lt_irrefl _) (not_or.mpr ⟨exact, not_not.mpr (dvd_refl _)⟩)
  empty _ := rfl

theorem Cut.next {packets : List Packet} (positive : 0 < m)
    (cut : Cut m shorter data (otherPid pid) (offset + m) (rest - m) packets)
    (more : ¬(rest < m ∨ rest = m ∧ ¬shorter)) :
    Cut m shorter data pid offset rest (⟨pid, data, offset, m⟩ :: packets) where
  some := List.cons_ne_nil _ _
  bytes := ⟨rfl, Int.natCast_nonneg m, cut.bytes⟩
  full p member := by
    rw [dropLast_cons_of_ne_nil cut.some] at member
    rcases mem_cons.mp member with rfl | later
    · rfl
    · exact cut.full p later
  short _ p last := by
    have some : 0 < rest - m ∨ shorter := by
      rw [not_or, not_and_not_right] at more
      rcases Int.lt_or_eq_of_le (not_lt.mp more.1) with greater | same
      · exact .inl (by omega)
      · exact .inr (more.2 same.symm)
    rw [List.getLast?_cons_of_ne_nil cut.some] at last
    rw [cut.short some p last, dvd_sub_self_right]
  empty none := absurd (.inl (by omega)) more

namespace Usbdev

variable {d : Device} {ep : Nat} {outside : Outside} {u : Usbdev}

variable {epi : EpIn}

theorem given_doIn :
    given ep u ((u.setIn ep epi).doIn ep) = [⟨epi.pid, epi.data, epi.offset, epi.inSz⟩] := by
  rw [given, doIn, setIn_self]
  change ((u.calls ++ [_]).drop u.calls.length).filterMap _ = _
  rw [drop_left]
  exact filterMap_cons_some (if_pos rfl)

theorem epIn_doIn : ((u.setIn ep epi).doIn ep).epIn ep = epi.advance := by
  rw [doIn, setIn_self, setIn_self]

theorem usbdevhalInDone_goes (here : u.epIn ep = epi) (goes : epi.state = .waitIn) (size : Int) :
    u.usbdevhalInDone d ep size outside =
      (u.setIn ep { epi with restAck := epi.restAck - size }).doIn ep := by
  obtain ⟨state⟩ := epi
  obtain rfl : state = .waitIn := goes
  rw [usbdevhalInDone, here]

theorem completes_one {waiting packets : List Packet}
    (completes : Completes d ep outside u waiting packets) : waiting.length = 1 := by
  induction completes with
  | last => rfl
  | next goes _ ih =>
    rw [usbdevhalInDone_goes rfl goes, length_append, given_doIn] at ih
    rw [length_cons, Nat.succ.inj ih]

theorem loaded_of_last (goes : epi.state = .waitIn)
    (last : epi.restLoad < epi.maxSize ∨ epi.restLoad = epi.maxSize ∧ epi.shorterLen = false) :
    epi.advance.state = .waitInLast ∧ epi.inSz = epi.restLoad := by
  refine ⟨if_pos ⟨goes, last⟩, ?_⟩
  rw [EpIn.inSz]
  split_ifs <;> omega

/-- A packet in `EP_STATE_WAIT_IN` that is not the last one is full. -/
theorem loaded_of_more (goes : epi.state = .waitIn) (positive : 0 < epi.maxSize)
    (more : ¬(epi.restLoad < epi.maxSize ∨
      epi.restLoad = epi.maxSize ∧ epi.shorterLen = false)) :
    epi.advance.state = .waitIn ∧ epi.inSz = epi.maxSize ∧
      epi.advance.restLoad = epi.restLoad - epi.maxSize := by
  have size : epi.inSz = epi.maxSize := if_neg fun less => more (.inl less)
  refine ⟨(if_neg fun both => more both.2).trans goes, size, ?_⟩
  rw [EpIn.advance, size]
  exact if_neg (by omega)

theorem completes_rest (n : Nat) (here : u.epIn ep = epi) (goes : epi.state = .waitIn)
    (positive : 0 < epi.maxSize) (low : 0 ≤ epi.restLoad) (bound : epi.restLoad.toNat ≤ n)
    (p : Packet) :
    ∃ packets, Completes d ep outside u [p] (p :: packets) ∧
      Cut epi.maxSize (epi.shorterLen = true) epi.data epi.pid epi.offset epi.restLoad packets := by
  induction n using Nat.strongRecOn generalizing u epi p with
  | ind n ih =>
    set epi' : EpIn := { epi with restAck := epi.restAck - p.size }
    have done : u.usbdevhalInDone d ep p.size outside = (u.setIn ep epi').doIn ep :=
      usbdevhalInDone_goes here goes p.size
    by_cases last : epi'.restLoad < epi'.maxSize ∨
        epi'.restLoad = epi'.maxSize ∧ epi'.shorterLen = false
    · obtain ⟨state, size⟩ := @loaded_of_last epi' goes last
      refine ⟨_, .next (here ▸ goes) ?_, cut_last low (by simpa using last)⟩
      rw [done, given_doIn, size]
      exact .last (.inl (by rw [epIn_doIn, state]))
    · obtain ⟨state, size, left⟩ := @loaded_of_more epi' goes positive last
      have less : epi.maxSize ≤ epi.restLoad := not_lt.mp fun less => last (.inl less)
      have left : epi'.advance.restLoad = epi.restLoad - epi.maxSize := left
      obtain ⟨packets, completes, cut⟩ := ih (epi.restLoad - epi.maxSize).toNat (by omega)
        (@epIn_doIn ep u _) state positive (by omega) (by omega)
        ⟨epi.pid, epi.data, epi.offset, epi'.inSz⟩
      rw [left] at cut
      refine ⟨⟨epi.pid, epi.data, epi.offset, epi.maxSize⟩ :: packets, .next (here ▸ goes) ?_,
        .next positive ?_ (by simpa using last)⟩
      · rw [done, given_doIn, ← size]
        exact completes
      · have offset : epi'.advance.offset = epi.offset + epi.maxSize := congrArg (_ + ·) size
        exact offset ▸ cut

theorem load_stops (room : List Bool) (rest : (u.epIn ep).restLoad < 0) :
    load ep room u = u := by
  cases room with
  | nil => rfl
  | cons here room => exact if_neg fun goes => absurd goes.2.1 (not_le.mpr rest)

section Start

variable {pid : Nat} {data : Source} {req real : Int}

theorem start_waits (epi : EpIn) : (epi.start pid data req real).state.waitsIn = true := by
  rw [EpIn.start]
  change (epi.startState req real).waitsIn = true
  rw [EpIn.startState]
  split_ifs <;> rfl

theorem start_restLoad (epi : EpIn) : (epi.start pid data req real).restLoad = min req real := by
  rw [EpIn.start]
  dsimp only
  split_ifs <;> omega

theorem load_start {room : List Bool} (low : 0 ≤ min req real) :
    (u.setIn ep ((u.epIn ep).start pid data req real)).load ep (true :: room) =
      ((u.setIn ep ((u.epIn ep).start pid data req real)).doIn ep).load ep room := by
  rw [load, setIn_self, start_restLoad]
  exact if_pos ⟨start_waits _, low, rfl⟩

theorem startIn_one {buffers : Nat} (positive : 0 < buffers) (low : 0 ≤ min req real)
    (one : buffers = 1 ∨ min req real = 0) :
    u.startIn ep pid data req real { outside with room := .replicate buffers true } =
      (u.setIn ep ((u.epIn ep).start pid data req real)).doIn ep := by
  obtain ⟨more, rfl⟩ := Nat.exists_eq_add_one_of_ne_zero (Nat.ne_of_gt positive)
  rw [startIn, replicate_succ, load_start low]
  rcases one with one | none
  · rw [Nat.succ.inj one]
    rfl
  · apply load_stops
    have size : ((u.epIn ep).start pid data req real).inSz = 0 := by
      rw [EpIn.inSz, start_restLoad, none]
      split_ifs <;> omega
    rw [epIn_doIn, EpIn.advance, size]
    exact (by decide : (-1 : Int) < 0)

theorem startIn_two {buffers : Nat} (two : 2 ≤ buffers) (some : 0 < min req real)
    (positive : 0 < (u.epIn ep).maxSize) :
    2 ≤ (given ep u (u.startIn ep pid data req real
      { outside with room := .replicate buffers true })).length := by
  obtain ⟨more, rfl⟩ := Nat.exists_eq_add_of_le' two
  set epi := (u.epIn ep).start pid data req real
  have rest : epi.restLoad = min req real := start_restLoad _
  have second : 0 ≤ epi.advance.restLoad ∧ epi.advance.state.waitsIn = true := by
    have waits : epi.state.waitsIn = true := start_waits _
    have size : epi.inSz ≠ 0 ∧ epi.inSz ≤ epi.restLoad := by
      have max : 0 < epi.maxSize := positive
      rw [EpIn.inSz]
      split_ifs <;> omega
    rw [EpIn.advance]
    constructor
    · dsimp only
      rw [if_neg size.1]
      omega
    · change epi.loaded.waitsIn = true
      rw [EpIn.loaded]
      split_ifs
      · rfl
      · exact waits
  rw [startIn, replicate_succ, replicate_succ, load_start some.le, load, epIn_doIn,
    if_pos ⟨second.2, second.1, rfl⟩]
  obtain ⟨⟨later, calls, -⟩, -⟩ :=
    @load_sends (((u.setIn ep epi).doIn ep).doIn ep) ep (.replicate more true)
  rw [given, calls]
  change 2 ≤ ((((u.calls ++ [_]) ++ [_]) ++ later).drop u.calls.length |>.filterMap _).length
  rw [append_assoc, append_assoc, drop_left]
  simp [Call.packet?]

end Start

/-- A transfer is cut into the right packets by a driver with so many buffers. -/
def CutsRight (d : Device) (ep : Nat) (outside : Outside) (u : Usbdev) (pid : Nat) (data : Source)
    (req real : Int) (buffers : Nat) : Prop :=
  ∃ packets,
    Completes d ep outside
      (u.startIn ep pid data req real { outside with room := .replicate buffers true })
      (given ep u
        (u.startIn ep pid data req real { outside with room := .replicate buffers true }))
      packets ∧
    Cut (u.epIn ep).maxSize (real < req) data (if pid ≠ 0 then pid else (u.epIn ep).pid) 0
      (min req real) packets

theorem buffers_of_cutsRight {pid : Nat} {data : Source} {req real : Int} {buffers : Nat}
    (positive : 0 < (u.epIn ep).maxSize) (some : 0 < buffers) (low : 0 ≤ min req real)
    (right : CutsRight d ep outside u pid data req real buffers) :
    buffers = 1 ∨ min req real = 0 := by
  obtain ⟨packets, completes, -⟩ := right
  by_contra neither
  rw [not_or] at neither
  have two := @startIn_two ep outside u pid data req real buffers (by omega) (by omega) positive
  rw [completes_one completes] at two
  omega

def bulk : Usbdev :=
  let u := usbdevInit (bareDevice 8)
  u.setIn 2 { u.epIn 2 with attr := 2, maxSize := 64 }

end Usbdev
end Uos.Usb
