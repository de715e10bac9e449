import Uos.Net.Incremental
import Uos.Net.UdpQueue

/-!
# Delivery of UDP datagrams

`udp_input` of `net/udp.c` on a packet in a chain of buffers, with the queues of the sockets in
memory.  A packet may have more bytes than its datagram; what becomes of the datagram is compared
with what the datagram and its addresses alone ask for.
-/

namespace Uos

open Function List

open Checksum

/-- The network stack with the queues of its UDP sockets in memory. -/
structure UdpStack where
  ip : Ip
  queue : UdpSocketId → UdpQueue

/-- `buf_add_header`, to strip a header off. -/
def PacketChain.stripHeader (p : PacketChain) (size : Nat) : Handling PacketChain := do
  let first ← p.first.stripHeader size
  return { p with first, totLen := p.totLen - .ofNat 16 size }

namespace UdpStack

def view (stack : UdpStack) : Ip :=
  { stack.ip with
    udpSocket := fun s => { stack.ip.udpSocket s with queue := (stack.queue s).contents } }

def setQueue (stack : UdpStack) (s : UdpSocketId) (q : UdpQueue) : UdpStack :=
  { stack with queue := Function.update stack.queue s q }

def receiver (stack : UdpStack) (addr : IpAddr) (src dest : UShort) : Option UdpSocketId :=
  stack.ip.udpSockets.find? fun s => Ip.udpAccepts (stack.ip.udpSocket s) addr src dest

/-- Find a destination socket, and put the packet into its queue. -/
def udpDeliver (stack : UdpStack) (p : PacketChain) (iph : Packet) :
    Handling (UdpStack × Option PacketChain) := do
  p.first.read 0 4
  p.first.readBehind iph 12 4
  let addr := iph.ipAddr 12
  let src := p.first.short 0
  match stack.receiver addr src (p.first.short 2) with
  | none => return (stack, some p)
  | some s =>
    let p ← p.stripHeader 8
    if full : (stack.queue s).udpQueueIsFull then
      .emit .free
      return (stack, none)
    else
      .emit .queue
      let q := (stack.queue s).udpQueuePut (Bool.eq_false_of_not_eq_true full)
        { buf := p.buf, addr, port := src }
      return (stack.setQueue s q, none)

def udpChksum (stack : UdpStack) (p : PacketChain) (iph : Packet) (len : UShort) :
    Handling UShort :=
  if p.first.short 6 ≠ 0 then do
    p.first.readBehind iph 12 8
    .ofOption (bufChksum stack.ip.target p.chunks
      (crc16InetHeader stack.ip.target (iph.ipAddr 12) (iph.ipAddr 16) protoUdp len))
  else pure 0

/-- `udp_input` -/
def udpInput (stack : UdpStack) (p : PacketChain) (iph : Packet) :
    Handling (UdpStack × Option PacketChain) := do
  if p.totLen.toNat < 8 then
    .emit .free
    return (stack, none)
  else
    p.first.read 4 2
    let len := p.first.short 4
    if p.totLen < len then
      .emit .free
      return (stack, none)
    else
      p.first.read 6 2
      let chksum ← stack.udpChksum p iph len
      if chksum ≠ 0 then
        .emit .free
        return (stack, none)
      else stack.udpDeliver p iph

/-- `udp_peekfrom`, and `udp_recvfrom` when there is a packet. -/
def udpPeekfrom (stack : UdpStack) (s : UdpSocketId) : Option UdpReceived × UdpStack :=
  match (stack.queue s).udpQueueGet with
  | none => (none, stack)
  | some (received, q) => (some received, stack.setQueue s q)

section Single

variable {stack : UdpStack} {p iph : Packet}

theorem view_put {s : UdpSocketId} (room : (stack.queue s).udpQueueIsFull = false)
    (received : UdpReceived) :
    (stack.setQueue s ((stack.queue s).udpQueuePut room received)).view =
      stack.view.setUdp s { stack.view.udpSocket s with
        queue := (stack.view.udpSocket s).queue ++ [received] } := by
  simp only [view, setQueue, Ip.setUdp]
  congr 1
  funext t
  rcases eq_or_ne t s with rfl | apart
  · rw [update_self, update_self, UdpQueue.contents_put]
  · rw [update_of_ne apart, update_of_ne apart]

theorem view_full {s : UdpSocketId} :
    (stack.view.udpSocket s).queue.length = udpSocketQueueSize ↔
      (stack.queue s).udpQueueIsFull = true :=
  UdpQueue.isFull_iff.symm

/-- The result for a packet in a single buffer, with the queues as lists. -/
def single (result : UdpStack × Option PacketChain) : Handling (Ip × Option Packet) :=
  pure (result.1.view, result.2.map (·.first))

theorem udpDeliver_single :
    stack.udpDeliver p.chain iph >>= single = stack.view.udpDeliver p iph := by
  simp only [udpDeliver, Ip.udpDeliver, Traced.andThen_assoc]
  congr 1
  funext _
  congr 1
  funext _
  change (match stack.receiver (iph.ipAddr 12) (p.short 0) (p.short 2) with
    | none => _
    | some s => _) >>= single = match stack.receiver (iph.ipAddr 12) (p.short 0) (p.short 2) with
    | none => _
    | some s => _
  cases stack.receiver (iph.ipAddr 12) (p.short 0) (p.short 2) with
  | none => rfl
  | some s =>
    simp only [PacketChain.stripHeader, Packet.stripHeader, Traced.andThen_assoc,
      Traced.pure_andThen]
    congr 1
    funext _
    split
    · rename_i full
      rw [if_pos (view_full.mpr full)]
      rfl
    · rename_i room
      rw [if_neg (view_full.not.mpr room), Traced.andThen_assoc]
      congr 1
      funext _
      rw [Traced.pure_andThen, single, view_put]
      rfl

theorem udpInput_single : stack.udpInput p.chain iph >>= single = stack.view.udpInput p iph := by
  rw [udpInput, Ip.udpInput]
  change (if p.len.toNat < 8 then _ else _) >>= single = _
  split
  · rfl
  · simp only [Traced.andThen_assoc]
    congr 1
    funext _
    change (if p.len < p.short 4 then _ else _) >>= single = _
    split
    · rfl
    · simp only [Traced.andThen_assoc]
      congr 1
      funext _
      congr 1
      funext chksum
      split
      · rfl
      · exact udpDeliver_single

end Single

end UdpStack

/-- A datagram as the reader of a socket gets it. -/
structure UdpDatagram where
  payload : List UChar
  addr : IpAddr
  port : UShort
  deriving DecidableEq

def UdpReceived.datagram (received : UdpReceived) : UdpDatagram where
  payload := payload received.buf.chunks
  addr := received.addr
  port := received.port

/-- What becomes of a packet. -/
inductive UdpFate
  | freed
  | returned
  | queued (s : UdpSocketId) (datagram : UdpDatagram)

def udpField (bytes : List UChar) (offset : Nat) : UShort :=
  .ofBytes (bytes.getD offset 0) (bytes.getD (offset + 1) 0)

namespace PacketChain

def udpLen (p : PacketChain) : UShort :=
  udpField p.bytes 4

def udpDatagram (p : PacketChain) : List UChar :=
  p.bytes.take p.udpLen.toNat

/-- A packet with a datagram, given to `udp_input` with the IP header in front of it. -/
structure HasDatagram (p : PacketChain) (iph : Packet) : Prop where
  whole : p.totLen.toNat = p.bytes.length
  header : 8 ≤ p.udpLen.toNat
  inside : p.udpLen.toNat ≤ p.totLen.toNat
  behind : iph.payload + 20 ≤ p.first.payload

end PacketChain

namespace UdpStack

/-- The test of the checksum, on some bytes that begin with a UDP header. -/
def passes (stack : UdpStack) (iph : Packet) (bytes : List UChar) : Bool :=
  udpField bytes 6 = 0 ||
    bytes.foldl (crc16InetByte stack.ip.target)
      (crc16InetHeader stack.ip.target (iph.ipAddr 12) (iph.ipAddr 16) protoUdp
        (udpField bytes 4)) = 0xffff

def target (stack : UdpStack) (iph : Packet) (bytes : List UChar) : Option UdpSocketId :=
  stack.receiver (iph.ipAddr 12) (udpField bytes 0) (udpField bytes 2)

def fate (stack : UdpStack) (iph : Packet) (datagram : List UChar) : UdpFate :=
  if stack.passes iph datagram then
    match stack.target iph datagram with
    | none => .returned
    | some s =>
      if (stack.queue s).udpQueueIsFull then .freed
      else .queued s
        { payload := datagram.drop 8, addr := iph.ipAddr 12, port := udpField datagram 0 }
  else .freed

def datagrams (stack : UdpStack) (s : UdpSocketId) : List UdpDatagram :=
  (stack.queue s).contents.map UdpReceived.datagram

def Meets (stack stack' : UdpStack) (p : PacketChain) (returned : Option PacketChain) :
    UdpFate → Prop
  | .freed => returned = none ∧ stack'.datagrams = stack.datagrams
  | .returned => returned = some p ∧ stack'.datagrams = stack.datagrams
  | .queued s datagram =>
    returned = none ∧ stack'.datagrams =
      Function.update stack.datagrams s (stack.datagrams s ++ [datagram])

/-- `udp_input` reads nothing but the packet, and does what its datagram asks for. -/
def Delivers (stack : UdpStack) (p : PacketChain) (iph : Packet) : Prop :=
  Handling.Inside (stack.udpInput p iph) ∧ ∃ stack' returned,
    (stack.udpInput p iph).result = some (stack', returned) ∧ stack'.ip = stack.ip ∧
      Meets stack stack' p returned (stack.fate iph p.udpDatagram)

/-- Whatever the bytes behind the datagram are, it is not for a reader. -/
def Unread (stack : UdpStack) (p : PacketChain) (iph : Packet) : Prop :=
  match stack.target iph p.bytes with
  | none => stack.passes iph p.bytes = stack.passes iph p.udpDatagram
  | some s => (stack.queue s).udpQueueIsFull = true ∨
      stack.passes iph p.bytes = false ∧ stack.passes iph p.udpDatagram = false

/-- The checksum can be computed, if there is one. -/
def Computable (stack : UdpStack) (p : PacketChain) : Prop :=
  udpField p.bytes 6 ≠ 0 → ∀ chunk ∈ p.chunks, Readable stack.ip.target chunk

/-- The first buffer has the header, the checksum can be computed, and no bytes behind the datagram
matter. -/
structure Clean (stack : UdpStack) (p : PacketChain) (iph : Packet) : Prop where
  headed : 8 ≤ p.first.len.toNat
  computable : stack.Computable p
  alone : p.udpLen = p.totLen ∨ stack.Unread p iph

section Header

variable {p : PacketChain} {iph : Packet} {stack : UdpStack}

theorem bytes_eq (p : PacketChain) :
    p.bytes = p.first.bytes 0 p.first.len.toNat ++ payload p.rest :=
  rfl

theorem byte_eq {i : Nat} (inside : i < p.first.len.toNat) : p.bytes.getD i 0 = p.first.byte i := by
  have within : i < (p.first.bytes 0 p.first.len.toNat).length := by
    rw [Packet.length_bytes]
    exact inside
  rw [bytes_eq, getD_eq_getElem?_getD, List.getElem?_append_left within]
  simp [Packet.bytes, inside]

theorem short_eq {i : Nat} (inside : i + 2 ≤ p.first.len.toNat) :
    p.first.short i = udpField p.bytes i := by
  rw [udpField, byte_eq (by omega), byte_eq (by omega)]
  rfl

theorem udpField_take {bytes : List UChar} {n i : Nat} (inside : i + 2 ≤ n) :
    udpField (bytes.take n) i = udpField bytes i := by
  have each (j : Nat) (small : j < n) : (bytes.take n).getD j 0 = bytes.getD j 0 := by
    rw [getD_eq_getElem?_getD, getD_eq_getElem?_getD, List.getElem?_take_of_lt small]
  rw [udpField, udpField, each i (by omega), each (i + 1) (by omega)]

theorem target_datagram (valid : p.HasDatagram iph) :
    stack.target iph p.udpDatagram = stack.target iph p.bytes := by
  have header := valid.header
  rw [target, target, PacketChain.udpDatagram, udpField_take (by omega), udpField_take (by omega)]

theorem short_payload (valid : p.HasDatagram iph) : (payload p.chunks).length < 65536 := by
  have whole := valid.whole
  have bound := p.totLen.isLt
  change p.totLen.toNat = (payload p.chunks).length at whole
  omega

/-- What `udp_input` does when the checksum can be computed. -/
def handle (stack : UdpStack) (p : PacketChain) (iph : Packet) : UdpStack × Option PacketChain :=
  if stack.passes iph p.bytes then
    match stack.target iph p.bytes with
    | none => (stack, some p)
    | some s =>
      if full : (stack.queue s).udpQueueIsFull then (stack, none)
      else
        let buf := ({ first := p.first.strip 8, totLen := p.totLen - 8, rest := p.rest } :
          PacketChain).buf
        (stack.setQueue s ((stack.queue s).udpQueuePut (Bool.eq_false_of_not_eq_true full)
          { buf, addr := iph.ipAddr 12, port := udpField p.bytes 0 }), none)
  else (stack, none)

theorem udpDeliver_spec (valid : p.HasDatagram iph) (headed : 8 ≤ p.first.len.toNat) :
    Handling.Inside (stack.udpDeliver p iph) ∧
      (stack.passes iph p.bytes = true →
        (stack.udpDeliver p iph).result = some (stack.handle p iph)) := by
  have behind := valid.behind
  have reads : PacketEvent.Inside (.read (iph.payload + 12) 4 p.first.limit) := by
    change iph.payload + 12 + 4 ≤ p.first.payload + p.first.len.toNat
    omega
  have fields : PacketEvent.Inside (.read (p.first.payload + 0) 4 p.first.limit) :=
    (p.first.inside_read 0 4).mpr (by omega)
  have first := @short_eq p 0 (by omega)
  have second := @short_eq p 2 (by omega)
  simp only [handle, udpDeliver, target, first, second, Packet.read, Packet.readBehind,
    Handling.Inside, Traced.all_emit_bind, Traced.result_emit_bind, reads, fields, true_and]
  cases stack.receiver (iph.ipAddr 12) (udpField p.bytes 0) (udpField p.bytes 2) with
  | none =>
    refine ⟨Traced.all_pure _, fun passes => ?_⟩
    rw [if_pos passes]
    rfl
  | some s =>
    simp only [PacketChain.stripHeader, Packet.stripHeader, Traced.andThen_assoc,
      Traced.pure_andThen, Traced.all_emit_bind, Traced.result_emit_bind]
    refine ⟨⟨headed, ?_⟩, fun passes => ?_⟩
    · split <;> simp [PacketEvent.Inside]
    · rw [if_pos passes]
      split <;> rfl

theorem udpChksum_spec (valid : p.HasDatagram iph) (headed : 8 ≤ p.first.len.toNat) :
    Handling.Inside (stack.udpChksum p iph p.udpLen) ∧
      (stack.Computable p → ∃ chksum, (stack.udpChksum p iph p.udpLen).result = some chksum ∧
        (chksum = 0 ↔ stack.passes iph p.bytes = true)) ∧
      (¬stack.Computable p → (stack.udpChksum p iph p.udpLen).result = none) := by
  have behind := valid.behind
  have reads : PacketEvent.Inside (.read (iph.payload + 12) 8 p.first.limit) := by
    change iph.payload + 12 + 8 ≤ p.first.payload + p.first.len.toNat
    omega
  rw [udpChksum, short_eq (show 6 + 2 ≤ p.first.len.toNat by omega)]
  rcases eq_or_ne (udpField p.bytes 6) 0 with absent | stored
  · rw [if_neg (not_not.mpr absent)]
    refine ⟨Traced.all_pure _, fun _ => ⟨0, rfl, ?_⟩, fun fails => absurd (fun stored => ?_) fails⟩
    · simp [passes, absent]
    · exact absurd absent stored
  · rw [if_pos stored]
    refine ⟨?_, fun computable => ?_, fun fails => ?_⟩
    · simp only [Handling.Inside, Packet.readBehind, Traced.all_emit_bind, reads, true_and,
        Traced.all_ofOption]
    · have computed := @bufChksum_eq_foldl _ _
        (crc16InetHeader stack.ip.target (iph.ipAddr 12) (iph.ipAddr 16) protoUdp p.udpLen)
        (short_payload valid) (computable stored)
      refine ⟨_, computed, ?_⟩
      have ones (value : UShort) : ~~~value = 0 ↔ value = 0xffff := by
        rw [← BitVec.not_inj, BitVec.not_not]
        exact Iff.rfl
      rw [ones, passes, Bool.or_eq_true, decide_eq_true_eq, decide_eq_true_eq, or_iff_right stored]
      exact Iff.rfl
    · simp only [Computable, Classical.not_imp, not_forall] at fails
      obtain ⟨-, chunk, member, unreadable⟩ := fails
      exact bufChksum_unreadable member unreadable

/-- `udp_input`, when the first buffer has the header. -/
theorem udpInput_spec (valid : p.HasDatagram iph) (headed : 8 ≤ p.first.len.toNat) :
    Handling.Inside (stack.udpInput p iph) ∧
      (stack.Computable p → (stack.udpInput p iph).result = some (stack.handle p iph)) ∧
      (¬stack.Computable p → (stack.udpInput p iph).result = none) := by
  have header := valid.header
  have inside := valid.inside
  have len : p.first.short 4 = p.udpLen := short_eq (show 4 + 2 ≤ p.first.len.toNat by omega)
  have long : ¬p.totLen.toNat < 8 := by omega
  have fits : ¬p.totLen < p.udpLen := Nat.not_lt.mpr inside
  obtain ⟨chksumInside, computes, fails⟩ := @udpChksum_spec p iph stack valid headed
  obtain ⟨deliverInside, delivers⟩ := @udpDeliver_spec p iph stack valid headed
  have second : PacketEvent.Inside (.read (p.first.payload + 4) 2 p.first.limit) :=
    (p.first.inside_read 4 2).mpr (by omega)
  have third : PacketEvent.Inside (.read (p.first.payload + 6) 2 p.first.limit) :=
    (p.first.inside_read 6 2).mpr (by omega)
  simp only [udpInput, if_neg long, len, if_neg fits, Packet.read, Handling.Inside,
    Traced.all_emit_bind, Traced.result_emit_bind, second, third, true_and]
  refine ⟨?_, fun computable => ?_, fun stuck => ?_⟩
  · rw [Traced.all_bind]
    refine ⟨chksumInside, fun chksum _ => ?_⟩
    split
    · simp [PacketEvent.Inside]
    · exact deliverInside
  · obtain ⟨chksum, computed, good⟩ := computes computable
    rw [Traced.result_bind, computed, Option.bind_some]
    split
    · rename_i bad
      rw [handle, if_neg (fun passes => bad (good.mpr passes))]
      rfl
    · rename_i zero
      exact delivers (good.mp (not_not.mp zero))
  · rw [Traced.result_bind, fails stuck, Option.bind_none]

theorem headed_of_inside (valid : p.HasDatagram iph)
    (inside : Handling.Inside (stack.udpInput p iph)) : 8 ≤ p.first.len.toNat := by
  have header := valid.header
  have within := valid.inside
  have long : ¬p.totLen.toNat < 8 := by omega
  simp only [udpInput, if_neg long, Packet.read, Handling.Inside, Traced.all_emit_bind,
    Packet.inside_read] at inside
  obtain ⟨six, rest⟩ := inside
  have len : p.first.short 4 = p.udpLen := short_eq six
  rw [len, if_neg (show ¬p.totLen < p.udpLen from Nat.not_lt.mpr within)] at rest
  simp only [Traced.all_emit_bind, Packet.inside_read] at rest
  exact rest.1

theorem datagram_stripped (headed : 8 ≤ p.first.len.toNat) (addr : IpAddr) (port totLen : UShort) :
    UdpReceived.datagram
        { buf := ({ first := p.first.strip 8, totLen, rest := p.rest } : PacketChain).buf
          addr, port } =
      { payload := p.bytes.drop 8, addr, port } := by
  have bound := p.first.len.isLt
  have stripped : (p.first.strip 8).bytes 0 (p.first.strip 8).len.toNat =
      p.first.bytes 8 (p.first.len.toNat - 8) := by
    rw [p.first.strip_len headed]
    apply map_congr_left
    intro i _
    simp only [Packet.byte, Packet.strip, Nat.add_assoc, Nat.zero_add]
  have split := p.first.bytes_add 0 8 (p.first.len.toNat - 8)
  rw [Nat.add_sub_cancel' headed] at split
  rw [bytes_eq, split, append_assoc, drop_append_of_le_length, drop_of_length_le,
    nil_append]
  · exact congrArg (fun bytes => UdpDatagram.mk (bytes ++ payload p.rest) addr port) stripped
  · rw [Packet.length_bytes]
  · rw [Packet.length_bytes]

theorem datagrams_put {s : UdpSocketId} (room : (stack.queue s).udpQueueIsFull = false)
    (received : UdpReceived) :
    (stack.setQueue s ((stack.queue s).udpQueuePut room received)).datagrams =
      Function.update stack.datagrams s (stack.datagrams s ++ [received.datagram]) := by
  funext t
  rcases eq_or_ne t s with rfl | apart
  · simp only [datagrams, setQueue, update_self, UdpQueue.contents_put, map_append,
      map_singleton]
  · simp only [datagrams, setQueue, update_of_ne apart]

theorem handle_meets (headed : 8 ≤ p.first.len.toNat) :
    (stack.handle p iph).1.ip = stack.ip ∧
      Meets stack (stack.handle p iph).1 p (stack.handle p iph).2 (stack.fate iph p.bytes) := by
  rw [handle, fate]
  split
  · split
    · exact ⟨rfl, rfl, rfl⟩
    · rename_i s _
      split
      · exact ⟨rfl, rfl, rfl⟩
      · refine ⟨rfl, rfl, ?_⟩
        rw [datagrams_put, datagram_stripped headed]
  · exact ⟨rfl, rfl, rfl⟩

theorem update_append_ne {queues : UdpSocketId → List UdpDatagram} {s : UdpSocketId}
    {datagram : UdpDatagram} : Function.update queues s (queues s ++ [datagram]) ≠ queues := by
  intro same
  have here := congrFun same s
  rw [update_self] at here
  simp at here

theorem Meets.unique {stack' : UdpStack} {returned : Option PacketChain} {fate fate' : UdpFate}
    (first : Meets stack stack' p returned fate) (second : Meets stack stack' p returned fate') :
    fate = fate' := by
  cases fate <;> cases fate'
  case freed.freed => rfl
  case freed.returned => cases first.1.symm.trans second.1
  case freed.queued => exact absurd (second.2.symm.trans first.2) update_append_ne
  case returned.freed => cases first.1.symm.trans second.1
  case returned.returned => rfl
  case returned.queued => cases first.1.symm.trans second.1
  case queued.freed => exact absurd (first.2.symm.trans second.2) update_append_ne
  case queued.returned => cases first.1.symm.trans second.1
  case queued.queued s datagram s' datagram' =>
    have same := first.2.symm.trans second.2
    have here := congrFun same s
    rcases eq_or_ne s s' with rfl | apart
    · rw [update_self, update_self] at here
      simpa using here
    · rw [update_self, update_of_ne apart] at here
      simp at here

theorem fate_eq_iff (valid : p.HasDatagram iph) :
    stack.fate iph p.bytes = stack.fate iph p.udpDatagram ↔
      p.udpLen = p.totLen ∨ stack.Unread p iph := by
  have header := valid.header
  have inside := valid.inside
  have whole := valid.whole
  rcases eq_or_ne p.udpLen p.totLen with same | other
  · have all : p.udpDatagram = p.bytes := by
      rw [PacketChain.udpDatagram, same, whole]
      exact take_length
    rw [all]
    exact iff_of_true rfl (.inl same)
  · have longer :
        p.udpLen.toNat ≠ p.totLen.toNat := fun equal => other (BitVec.eq_of_toNat_eq equal)
    rw [or_iff_right other, Unread, fate, fate, target_datagram valid]
    cases stack.target iph p.bytes with
    | none =>
      cases stack.passes iph p.bytes <;> cases stack.passes iph p.udpDatagram <;> simp
    | some s =>
      cases full : (stack.queue s).udpQueueIsFull with
      | true => simp [full]
      | false =>
        have lengths : p.bytes.drop 8 ≠ p.udpDatagram.drop 8 := by
          intro equal
          have equal := congrArg List.length equal
          rw [PacketChain.udpDatagram, length_drop, length_drop,
            length_take] at equal
          omega
        cases stack.passes iph p.bytes <;> cases stack.passes iph p.udpDatagram <;>
          simp [full, lengths]

theorem delivers_iff (valid : p.HasDatagram iph) : stack.Delivers p iph ↔ stack.Clean p iph := by
  constructor
  · rintro ⟨inside, stack', returned, result, -, meets⟩
    have headed := headed_of_inside valid inside
    obtain ⟨-, handles, fails⟩ := @udpInput_spec p iph stack valid headed
    have computable : stack.Computable p := by
      apply by_contra
      intro stuck
      rw [fails stuck] at result
      contradiction
    rw [handles computable, Option.some.injEq] at result
    have own := (@handle_meets p iph stack headed).2
    rw [result] at own
    exact ⟨headed, computable, (fate_eq_iff valid).mp (own.unique meets)⟩
  · rintro ⟨headed, computable, alone⟩
    obtain ⟨inside, handles, -⟩ := @udpInput_spec p iph stack valid headed
    obtain ⟨same, meets⟩ := @handle_meets p iph stack headed
    rw [(fate_eq_iff valid).mpr alone] at meets
    exact ⟨inside, _, _, handles computable, same, meets⟩

end Header

/-- What happens to the stack: a packet arrives, or a reader looks for one. -/
inductive Step
  | input (p : PacketChain) (iph : Packet)
  | peekfrom (s : UdpSocketId)

def step (stack : UdpStack) : Step → Option (UdpStack × List (UdpSocketId × UdpReceived))
  | .input p iph => (stack.udpInput p iph).result.map fun result => (result.1, [])
  | .peekfrom s =>
    match stack.udpPeekfrom s with
    | (none, stack) => some (stack, [])
    | (some received, stack) => some (stack, [(s, received)])

def run : UdpStack → List Step → Option (UdpStack × List (UdpSocketId × UdpReceived))
  | stack, [] => some (stack, [])
  | stack, step :: steps => do
    let (stack, first) ← stack.step step
    let (stack, rest) ← run stack steps
    some (stack, first ++ rest)

def arrivals : UdpStack → List Step → UdpSocketId → List UdpDatagram
  | _, [], _ => []
  | stack, step :: steps, s =>
    let here :=
      match step with
      | .input p iph =>
        match stack.fate iph p.udpDatagram with
        | .queued t datagram => if t = s then [datagram] else []
        | _ => []
      | .peekfrom _ => []
    here ++ ((stack.step step).elim [] fun result => result.1.arrivals steps s)

def gotten (taken : List (UdpSocketId × UdpReceived)) (s : UdpSocketId) : List UdpDatagram :=
  (taken.filter fun item => item.1 = s).map fun item => item.2.datagram

/-- Every packet of a run is delivered, and the readers get the datagrams in the order of their
arrival. -/
structure RunDelivers (start : UdpStack) (steps : List Step) : Prop where
  each : ∀ before p iph after, steps = before ++ .input p iph :: after →
    ∃ stack taken, start.run before = some (stack, taken) ∧ stack.Delivers p iph
  order : ∃ stack taken, start.run steps = some (stack, taken) ∧ ∀ s,
    gotten taken s ++ stack.datagrams s = start.datagrams s ++ start.arrivals steps s

/-- Every packet of a run is clean when it arrives. -/
def RunClean (start : UdpStack) (steps : List Step) : Prop :=
  ∀ before p iph after, steps = before ++ .input p iph :: after →
    ∀ stack taken, start.run before = some (stack, taken) → stack.Clean p iph

/-- The packets of a run have datagrams. -/
def HaveDatagrams (steps : List Step) : Prop :=
  ∀ p iph, .input p iph ∈ steps → p.HasDatagram iph

section Runs

variable {start stack : UdpStack} {p : PacketChain} {iph : Packet} {steps : List Step}

theorem gotten_append (first rest : List (UdpSocketId × UdpReceived)) (s : UdpSocketId) :
    gotten (first ++ rest) s = gotten first s ++ gotten rest s := by
  simp [gotten]

theorem peekfrom_spec (stack : UdpStack) (s : UdpSocketId) :
    ∃ stack' taken, stack.step (.peekfrom s) = some (stack', taken) ∧ ∀ t,
      gotten taken t ++ stack'.datagrams t = stack.datagrams t := by
  have contents := @UdpQueue.contents_get (stack.queue s)
  simp only [step, udpPeekfrom]
  cases got : (stack.queue s).udpQueueGet with
  | none => exact ⟨stack, [], rfl, fun _ => rfl⟩
  | some result =>
    obtain ⟨received, q⟩ := result
    refine ⟨stack.setQueue s q, [(s, received)], rfl, fun t => ?_⟩
    rw [got, Option.map_some] at contents
    cases before : (stack.queue s).contents with
    | nil =>
      rw [before] at contents
      contradiction
    | cons first rest =>
      rw [before] at contents
      obtain ⟨rfl, after⟩ := Prod.mk.inj (Option.some.inj contents)
      rcases eq_or_ne s t with rfl | apart
      · simp [gotten, datagrams, setQueue, before, after]
      · simp only [gotten, datagrams, setQueue, update_of_ne apart.symm]
        simp [apart]

theorem input_spec (delivers : stack.Delivers p iph) :
    ∃ stack', stack.step (.input p iph) = some (stack', []) ∧ ∀ s,
      stack'.datagrams s = stack.datagrams s ++
        match stack.fate iph p.udpDatagram with
        | .queued t datagram => if t = s then [datagram] else []
        | _ => [] := by
  obtain ⟨-, stack', returned, result, -, meets⟩ := delivers
  refine ⟨stack', by simp [step, result], fun s => ?_⟩
  cases fate : stack.fate iph p.udpDatagram with
  | freed =>
    rw [fate] at meets
    rw [meets.2, append_nil]
  | returned =>
    rw [fate] at meets
    rw [meets.2, append_nil]
  | queued t datagram =>
    rw [fate] at meets
    rw [meets.2]
    rcases eq_or_ne t s with rfl | apart
    · simp
    · rw [update_of_ne apart.symm]
      simp [apart]

theorem RunClean.tail {step : Step} {taken : List (UdpSocketId × UdpReceived)}
    (clean : RunClean start (step :: steps)) (steps_to : start.step step = some (stack, taken)) :
    RunClean stack steps := by
  intro before p iph after split middle rest runs
  apply clean (step :: before) p iph after (congrArg (step :: ·) split) middle (taken ++ rest)
  simp [run, steps_to, runs]

theorem RunClean.prefix {before after : List Step} (clean : RunClean start (before ++ after)) :
    RunClean start before := by
  intro first p iph last split
  exact clean first p iph (last ++ after) (by rw [split, append_assoc]; rfl)

theorem run_order (valid : HaveDatagrams steps) (clean : RunClean start steps) :
    ∃ stack taken, start.run steps = some (stack, taken) ∧ ∀ s,
      gotten taken s ++ stack.datagrams s = start.datagrams s ++ start.arrivals steps s := by
  induction steps generalizing start with
  | nil => exact ⟨start, [], rfl, fun s => (append_nil _).symm⟩
  | cons step steps ih =>
    have valid' : HaveDatagrams steps := fun p iph member =>
      valid p iph (mem_cons_of_mem step member)
    cases step with
    | input p iph =>
      have delivers := (delivers_iff (valid p iph mem_cons_self)).mpr
        (clean [] p iph steps rfl start [] rfl)
      obtain ⟨middle, taken, adds⟩ := input_spec delivers
      obtain ⟨stack, rest, runs, order⟩ := ih valid' (clean.tail taken)
      refine ⟨stack, [] ++ rest, by simp [run, taken, runs], fun s => ?_⟩
      rw [nil_append, order s, adds s, arrivals, taken, append_assoc]
      rfl
    | peekfrom t =>
      obtain ⟨middle, first, taken, takes⟩ := start.peekfrom_spec t
      obtain ⟨stack, rest, runs, order⟩ := ih valid' (clean.tail taken)
      refine ⟨stack, first ++ rest, by simp [run, taken, runs], fun s => ?_⟩
      rw [gotten_append, append_assoc, order s, ← append_assoc, takes s, arrivals,
        taken]
      rfl

/-- The packets of a run are delivered in the order of their arrival if and only if each of them is
clean. -/
theorem run_delivers_iff (valid : HaveDatagrams steps) :
    RunDelivers start steps ↔ RunClean start steps := by
  have has {before : List Step} {p : PacketChain} {iph : Packet} {after : List Step}
      (split : steps = before ++ .input p iph :: after) : p.HasDatagram iph :=
    valid p iph (by rw [split]; simp)
  constructor
  · intro delivers before p iph after split stack taken runs
    obtain ⟨stack', taken', runs', right⟩ := delivers.each before p iph after split
    rw [runs, Option.some.injEq] at runs'
    obtain ⟨rfl, -⟩ := Prod.mk.inj runs'
    exact (delivers_iff (has split)).mp right
  · intro clean
    refine ⟨fun before p iph after split => ?_, run_order valid clean⟩
    have early : RunClean start before := by
      rw [split] at clean
      exact clean.prefix
    have valid' : HaveDatagrams before := fun p iph member =>
      valid p iph (by rw [split]; exact mem_append_left _ member)
    obtain ⟨stack, taken, runs, -⟩ := run_order valid' early
    exact ⟨stack, taken, runs,
      (delivers_iff (has split)).mpr (clean before p iph after split stack taken runs)⟩

def sampleStack : UdpStack where
  ip :=
    { target := .msp430
      wideShift := fun _ => 0
      udpSocket := fun _ => { localPort := 7 }
      udpSockets := [0] }
  queue _ := .zeroed fun _ => { buf := { totLen := 0, chunks := [] }, addr := .any, port := 0 }

def sampleHeader : Packet where
  memory _ := 0
  payload := 0
  len := 20

/-- A datagram of one byte for port 7, with some bytes behind it. -/
def samplePacket (tail : List UChar) : PacketChain where
  first :=
    { memory := fun i => ([0, 9, 0, 7, 0, 9, 0, 0, 65] ++ tail).getD (i - 20) 0
      payload := 20
      len := .ofNat 16 (9 + tail.length) }
  totLen := .ofNat 16 (9 + tail.length)
  rest := []

theorem run_delivers_sample :
    RunDelivers sampleStack [.input (samplePacket []) sampleHeader, .peekfrom 0] := by
  have valid : HaveDatagrams [.input (samplePacket []) sampleHeader, .peekfrom 0] := by
    intro p iph member
    simp only [mem_cons, Step.input.injEq, reduceCtorEq, not_mem_nil, or_false] at member
    obtain ⟨rfl, rfl⟩ := member
    constructor <;> decide +kernel
  apply (run_delivers_iff valid).mpr
  intro before p iph after split stack taken runs
  cases before with
  | nil =>
    simp only [nil_append, List.cons.injEq, Step.input.injEq] at split
    obtain ⟨⟨rfl, rfl⟩, -⟩ := split
    simp only [run, Option.some.injEq, Prod.mk.injEq] at runs
    obtain ⟨rfl, -⟩ := runs
    refine ⟨by decide +kernel, fun stored => absurd stored (by decide +kernel), .inl ?_⟩
    decide +kernel
  | cons first before =>
    have later := (List.cons.inj split).2
    have member : Step.input p iph ∈ [Step.peekfrom 0] := by
      rw [later]
      simp
    simp at member

/-- A byte behind the datagram is given to the reader. -/
theorem run_delivers_padded : ¬∀ start steps, HaveDatagrams steps → RunDelivers start steps := by
  intro all
  have valid : (samplePacket [0]).HasDatagram sampleHeader := by
    constructor <;> decide +kernel
  have have_datagrams : HaveDatagrams [.input (samplePacket [0]) sampleHeader] := by
    intro p iph member
    simp only [mem_singleton, Step.input.injEq] at member
    obtain ⟨rfl, rfl⟩ := member
    exact valid
  obtain ⟨stack, taken, runs, delivers⟩ :=
    (all sampleStack _ have_datagrams).each [] (samplePacket [0]) sampleHeader [] rfl
  simp only [run, Option.some.injEq, Prod.mk.injEq] at runs
  obtain ⟨rfl, -⟩ := runs
  have alone := ((delivers_iff valid).mp delivers).alone
  revert alone
  have target : sampleStack.target sampleHeader (samplePacket [0]).bytes = some 0 := by
    decide +kernel
  rw [Unread, target]
  decide +kernel

end Runs

end UdpStack
end Uos
