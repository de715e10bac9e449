import Uos.Net.Bounds

/-!
# The fate of a received packet

For which packets `ip_input` disposes of the buffer exactly once, and loses no buffer that it
allocates for an ICMP message.
-/

namespace Uos

namespace PacketEvent

def disposes : PacketEvent → Bool
  | free | queue | output => true
  | _ => false

def touches : PacketEvent → Bool
  | read _ _ _ | strip _ _ => true
  | _ => false

end PacketEvent

/-- The buffer is disposed of once and not looked at when it is free, and every buffer allocated
for an ICMP message is freed or sent. -/
structure Disposed (events : List PacketEvent) : Prop where
  once : events.countP PacketEvent.disposes = 1
  unread : ∀ back, .free :: back <:+ events → ∀ event ∈ back, event.touches = false
  kept : events.count .icmpAlloc = events.count .icmpFree + events.count .icmpOutput

variable {event : PacketEvent} {Result : Type}

theorem disposed_cons {events : List PacketEvent} (touches : event.touches = true) :
    Disposed (event :: events) ↔ Disposed events := by
  have suffix (back : List PacketEvent) :
      .free :: back <:+ event :: events ↔ .free :: back <:+ events := by
    rw [List.suffix_cons_iff, or_iff_right]
    rintro same
    obtain ⟨rfl, -⟩ := List.cons.inj same
    simp [PacketEvent.touches] at touches
  constructor
  · rintro ⟨once, unread, kept⟩
    refine ⟨?_, fun back free => unread back ((suffix back).mpr free), ?_⟩ <;>
      cases event <;> simp_all [PacketEvent.touches, PacketEvent.disposes]
  · rintro ⟨once, unread, kept⟩
    refine ⟨?_, fun back free => unread back ((suffix back).mp free), ?_⟩ <;>
      cases event <;> simp_all [PacketEvent.touches, PacketEvent.disposes]

theorem disposed_append {front back : List PacketEvent}
    (touches : ∀ event ∈ front, event.touches = true) :
    Disposed (front ++ back) ↔ Disposed back := by
  induction front with
  | nil => rfl
  | cons event front ih =>
    rw [List.cons_append, disposed_cons (touches event List.mem_cons_self)]
    exact ih fun event member => touches event (List.mem_cons_of_mem _ member)

theorem disposed_singleton (disposes : event.disposes = true) :
    Disposed [event] := by
  refine ⟨by simp [disposes], fun back free => ?_, ?_⟩
  · have short := free.length_le
    obtain rfl : back = [] := by simpa using short
    simp
  · cases event <;> simp_all [PacketEvent.disposes]

/-- The treatment of a packet comes to an end and disposes of the packet. -/
def Handling.Disposes {Result : Type} (handling : Handling Result) : Prop :=
  handling.result.isSome = true ∧ Disposed handling.events

theorem disposes_bind {First : Type} {first : Handling First} {next : First → Handling Result}
    (touches : ∀ event ∈ first.events, event.touches = true) :
    Handling.Disposes (first >>= next) ↔
      ∃ value, first.result = some value ∧ (next value).Disposes := by
  rw [Handling.Disposes, Traced.result_bind, Traced.events_bind, disposed_append touches]
  cases first.result with
  | none => simp
  | some value => simp [Handling.Disposes]

theorem disposes_read {first size limit : Nat} {next : Unit → Handling Result} :
    Handling.Disposes (Traced.emit (.read first size limit) >>= next) ↔ (next ()).Disposes := by
  rw [disposes_bind (by simp [PacketEvent.touches])]
  exact ⟨fun ⟨_, _, disposes⟩ => disposes, fun disposes => ⟨(), rfl, disposes⟩⟩

theorem disposes_stripHeader {p : Packet} {size : Nat} {next : Packet → Handling Result} :
    Handling.Disposes (p.stripHeader size >>= next) ↔ (next (p.strip size)).Disposes := by
  rw [disposes_bind (by simp [Packet.stripHeader, PacketEvent.touches])]
  simp [Packet.stripHeader]

theorem disposes_ofOption {First : Type} {first : Option First} {next : First → Handling Result} :
    Handling.Disposes (Traced.ofOption first >>= next) ↔
      ∃ value, first = some value ∧ (next value).Disposes :=
  disposes_bind (by simp)

theorem disposes_emit (event : PacketEvent) (disposes : event.disposes = true) (result : Result) :
    Handling.Disposes (Traced.emit event >>= fun _ => pure result) := by
  refine ⟨rfl, ?_⟩
  simpa using disposed_singleton disposes

theorem not_disposes_free (front between : List PacketEvent) {back : List PacketEvent}
    {handling : Handling Result} (touches : event.touches = true)
    (events : handling.events = front ++ .free :: (between ++ event :: back)) :
    ¬handling.Disposes := by
  rintro ⟨-, disposed⟩
  have unread := disposed.unread (between ++ event :: back) ⟨front, events.symm⟩ event (by simp)
  simp [unread] at touches

namespace Ip

variable {ip : Ip} {p : Packet}

theorem icmpError_disposes (type code : UChar) :
    Handling.Disposes (ip.icmpError p type code) ↔ ip.alloc.1 = false := by
  simp only [icmpError]
  cases ip.alloc.1 with
  | false => simpa using disposes_emit _ rfl ip.alloc.2
  | true =>
    refine iff_of_false ?_ (by simp)
    simp only [Bool.not_true, Bool.false_eq_true, if_false, crc16Inet, Bool.and_false,
      Packet.read]
    exact not_disposes_free [_, _] [] rfl rfl

theorem ipForward_disposes {gateway own : IpAddr} {netif : NetifId} :
    Handling.Disposes (ip.ipForward p gateway netif own) ↔
      ((p.byte 8).toNat ≤ 1 → p.byte 9 ≠ protoIcmp ∧ ip.alloc.1 = false) := by
  simp only [ipForward, Packet.read, disposes_read]
  split
  · rename_i expired
    simp only [disposes_read, expired, true_imp_iff]
    split
    · rename_i other
      exact (icmpError_disposes 11 0).trans (and_iff_right other).symm
    · rename_i same
      refine iff_of_false (fun disposes => ?_) fun both => same both.1
      have once := disposes.2.once
      simp at once
  · rename_i live
    simp only [disposes_read, live, false_imp_iff, iff_true]
    exact disposes_emit _ rfl _

/-- Whether a packet that is not for this machine is lost, or read when it is free. -/
def RelayLoses (ip : Ip) (p : Packet) (inp : NetifId) : Prop :=
  ip.forwarding = true ∧ (∃ netif hop, ip.routeLookup (p.ipAddr 16) = some (netif, hop) ∧
    netif ≠ inp) ∧ (p.byte 8).toNat ≤ 1 ∧ (p.byte 9 = protoIcmp ∨ ip.alloc.1 = true)

theorem ipRelay_disposes {inp : NetifId} :
    Handling.Disposes (ip.ipRelay p inp) ↔ ¬ip.RelayLoses p inp := by
  have dropped := disposes_emit .free rfl ip
  simp only [ipRelay, RelayLoses]
  cases forwards : ip.forwarding with
  | false => simpa using dropped
  | true =>
    cases found : ip.routeLookup (p.ipAddr 16) with
    | none => simpa using dropped
    | some hop =>
      obtain ⟨netif, gateway, own⟩ := hop
      obtain rfl | other := eq_or_ne netif inp
      · simpa using dropped
      · simp only [if_true, other, ne_eq, not_false_eq_true]
        rw [ipForward_disposes]
        constructor
        · rintro disposes ⟨-, -, expired, lost⟩
          obtain ⟨noIcmp, noMemory⟩ := disposes expired
          rcases lost with icmp | memory
          · exact noIcmp icmp
          · simp [noMemory] at memory
        · intro keeps expired
          refine ⟨fun icmp => keeps ?_, Bool.eq_false_iff.mpr fun memory => keeps ?_⟩
          · exact ⟨trivial, ⟨netif, _, rfl, other⟩, expired, .inl icmp⟩
          · exact ⟨trivial, ⟨netif, _, rfl, other⟩, expired, .inr memory⟩

theorem bufChksum_packet (target : Target) (p : Packet) (sum : UShort)
    (nonempty : 0 < p.len.toNat) : ∃ chksum, bufChksum target [p.chunk] sum = some chksum := by
  have readable : Checksum.Readable target p.chunk := fun _ _ empty => by
    rw [Packet.chunk, Packet.bytes, List.map_eq_nil_iff, List.range_eq_nil] at empty
    omega
  obtain ⟨chksum, computed⟩ :=
    Option.isSome_iff_exists.mp ((Checksum.crc16Inet_isSome target sum p.chunk).mpr readable)
  exact ⟨~~~chksum, by simp [bufChksum, computed]⟩

theorem icmpEchoRequest_disposes (inp : NetifId) :
    Handling.Disposes (ip.icmpEchoRequest p inp) := by
  simp only [icmpEchoRequest, Packet.read]
  split
  · exact disposes_emit _ rfl ip
  · rename_i long
    obtain ⟨chksum, computed⟩ := bufChksum_packet ip.target p 0 (by omega)
    rw [disposes_ofOption]
    refine ⟨chksum, computed, ?_⟩
    split
    · exact disposes_emit _ rfl ip
    · simp only [disposes_read]
      exact disposes_emit _ rfl _

variable {iph : Packet} {len : UShort}

theorem protoChksum_touches {proto : UChar} :
    ∀ event ∈ (ip.protoChksum p iph proto len).events, event.touches = true := by
  simp [protoChksum, Packet.readBehind, PacketEvent.touches]

theorem udpChksum_touches :
    ∀ event ∈ (ip.udpChksum p iph len).events, event.touches = true := by
  rw [udpChksum]
  split
  · exact protoChksum_touches
  · simp

theorem udpChksum_result (nonempty : 0 < p.len.toNat) :
    ∃ chksum, (ip.udpChksum p iph len).result = some chksum := by
  rw [udpChksum]
  split
  · rw [protoChksum_result]
    exact bufChksum_packet _ _ _ nonempty
  · exact ⟨0, rfl⟩

/-- Whether a packet for UDP is correct and there is no socket for it. -/
def UdpUnclaimed (ip : Ip) (p iph : Packet) : Prop :=
  8 ≤ p.len.toNat ∧ p.short 4 ≤ p.len ∧
    (ip.udpChksum p iph (p.short 4)).result = some 0 ∧
    ip.udpSockets.find? (fun s => udpAccepts (ip.udpSocket s) (iph.ipAddr 12) (p.short 0)
      (p.short 2)) = none

theorem disposes_udpInput {Result : Type} {next : Ip × Option Packet → Handling Result}
    (done : ∀ ip, ∃ result, next (ip, none) = pure result) :
    Handling.Disposes (ip.udpInput p iph >>= next) ↔
      (ip.UdpUnclaimed p iph → (next (ip, some p)).Disposes) := by
  have ends {event : PacketEvent} (disposes : event.disposes = true) (ip : Ip) :
      Handling.Disposes (Traced.emit event >>= fun _ => next (ip, none)) := by
    obtain ⟨result, returns⟩ := done ip
    rw [returns]
    exact disposes_emit _ disposes result
  simp only [udpInput, UdpUnclaimed, Packet.read]
  split
  · rename_i short
    rw [Traced.andThen_assoc]
    exact iff_of_true (ends rfl ip) fun unclaimed => absurd unclaimed.1 (by omega)
  · rename_i long
    rw [Traced.andThen_assoc, disposes_read]
    split
    · rename_i beyond
      rw [Traced.andThen_assoc]
      exact iff_of_true (ends rfl ip) fun unclaimed =>
        absurd beyond (BitVec.not_lt.mpr unclaimed.2.1)
    · rename_i inside
      obtain ⟨chksum, computed⟩ := @udpChksum_result ip p iph (p.short 4) (by omega)
      rw [Traced.andThen_assoc, disposes_read, Traced.andThen_assoc,
        disposes_bind udpChksum_touches, computed]
      simp only [Option.some.injEq, exists_eq_left']
      split
      · rename_i bad
        rw [Traced.andThen_assoc]
        exact iff_of_true (ends rfl ip) fun unclaimed => absurd unclaimed.2.2.1 bad
      · rename_i good
        simp only [udpDeliver, Packet.read, Packet.readBehind]
        rw [Traced.andThen_assoc, disposes_read, Traced.andThen_assoc, disposes_read]
        cases found : ip.udpSockets.find? fun s =>
            udpAccepts (ip.udpSocket s) (iph.ipAddr 12) (p.short 0) (p.short 2) with
        | none =>
          have unclaimed : 8 ≤ p.len.toNat ∧ p.short 4 ≤ p.len ∧ chksum = 0 :=
            ⟨by omega, BitVec.not_lt.mp inside, not_not.mp good⟩
          simp only [Traced.pure_andThen, unclaimed, true_and, true_imp_iff]
        | some s =>
          simp only [reduceCtorEq, and_false, false_imp_iff, iff_true]
          rw [Traced.andThen_assoc, disposes_stripHeader]
          split
          · rw [Traced.andThen_assoc]
            exact ends rfl ip
          · rw [Traced.andThen_assoc]
            exact ends rfl _

theorem receiveEvents_touches {s : SocketId} :
    ∀ event ∈ ip.receiveEvents s p, event.touches = true := by
  simp only [receiveEvents]
  split <;> simp [PacketEvent.touches]

theorem processEvents_touches {turns : Nat} {s : SocketId} {h : Packet} :
    ∀ event ∈ processEvents turns ip s h p, event.touches = true := by
  have receives := @receiveEvents_touches ip p s
  simp only [processEvents]
  split
  · simp
  · split
    · split
      · simp
      · split
        · exact List.forall_mem_map.mpr fun _ _ => rfl
        · simp
    · split
      · exact receives
      · simp
    all_goals first | exact receives | simp

theorem tcpEvents_touches {turns : Nat} {h : Packet} {header : TcpHdr} :
    ∀ event ∈ tcpEvents turns ip h p header, event.touches = true := by
  simp only [tcpEvents]
  split
  · exact processEvents_touches
  · simp

/-- Whether `tcp_input` comes to an end for a segment that passes its checks. -/
def TcpReturns (ip : Ip) (p iph : Packet) : Prop :=
  ∃ turns, (tcpInput turns ip (p.tcpHdr iph) (p.strip p.tcpHlen).buf).isSome = true

theorem tcpInputPacket_disposes :
    (∃ turns, Handling.Disposes (tcpInputPacket turns ip p iph)) ↔
      (p.TcpChecked iph ip → ip.TcpReturns p iph) := by
  have dropped : ∃ _ : Nat, Handling.Disposes (do .emit .free; return ip) :=
    ⟨0, disposes_emit .free rfl ip⟩
  simp only [tcpInputPacket, Packet.TcpChecked, Packet.readBehind]
  split
  · rename_i short
    exact iff_of_true dropped fun checked => absurd checked.1 (by omega)
  · rename_i whole
    simp only [disposes_read]
    split
    · rename_i group
      refine iff_of_true dropped ?_
      rintro ⟨-, noBroadcast, noMulticast, -⟩
      simp [noBroadcast, noMulticast] at group
    · rename_i unicast
      simp only [Bool.or_eq_true, not_or, Bool.not_eq_true] at unicast
      obtain ⟨chksum, computed⟩ := bufChksum_packet ip.target p (crc16InetHeader ip.target
        (iph.ipAddr 12) (iph.ipAddr 16) protoTcp p.len) (by omega)
      simp only [disposes_bind protoChksum_touches, protoChksum_result, computed,
        Option.some.injEq, exists_eq_left']
      obtain rfl | bad := eq_or_ne chksum 0
      · have enough : 20 ≤ p.len.toNat := by omega
        simp only [ne_eq, not_true_eq_false, if_false, Packet.read, disposes_read,
          disposes_stripHeader, enough, unicast, and_self, true_imp_iff]
        apply exists_congr
        intro turns
        rw [disposes_bind tcpEvents_touches]
        constructor
        · rintro ⟨-, -, disposes⟩
          obtain ⟨result, finished, -⟩ := disposes_ofOption.mp disposes
          exact Option.isSome_iff_exists.mpr ⟨result, finished⟩
        · intro returns
          obtain ⟨result, finished⟩ := Option.isSome_iff_exists.mp returns
          refine ⟨(), rfl, disposes_ofOption.mpr ⟨result, finished, disposes_emit _ ?_ _⟩⟩
          cases result.2 <;> rfl
      · simp only [ne_eq, bad, not_false_eq_true, if_true]
        exact iff_of_true dropped fun checked => checked.2.2.2.elim

/-- Whether a packet to this machine is not disposed of: it gets an ICMP answer, or `tcp_input` does
not come to an end. -/
def DeliverLoses (ip : Ip) (p : Packet) (tcp silent : Bool) : Prop :=
  if p.byte 9 = protoUdp then
    ip.UdpUnclaimed (p.strip 20) p ∧ silent = false ∧ ip.alloc.1 = true
  else if p.byte 9 = protoTcp && tcp then
    (p.strip 20).TcpChecked p ip ∧ ¬ip.TcpReturns (p.strip 20) p
  else p.byte 9 ≠ protoIcmp ∧ silent = false ∧ ip.alloc.1 = true

theorem ipDeliver_disposes {tcp broadcast : Bool} {inp : NetifId} :
    (∃ turns, Handling.Disposes (ipDeliver turns tcp ip p inp broadcast)) ↔
      ¬ip.DeliverLoses p tcp (broadcast || (p.ipAddr 16).isMulticast) := by
  have dropped := disposes_emit .free rfl ip
  simp only [ipDeliver, DeliverLoses, Packet.read, disposes_read]
  split
  · simp only [disposes_stripHeader, exists_const]
    rw [disposes_udpInput fun ip => ⟨ip, rfl⟩, not_and]
    apply imp_congr_right
    intro _
    cases broadcast || (p.ipAddr 16).isMulticast with
    | false => simpa [icmpDestUnreach] using icmpError_disposes (p := (p.strip 20).addHeader 20) 3 3
    | true => simpa using dropped
  · split
    · simp only [disposes_stripHeader]
      rw [tcpInputPacket_disposes]
      tauto
    · split
      · rename_i icmp
        simp only [disposes_read, icmp, ne_eq, not_true_eq_false, false_and, not_false_eq_true,
          iff_true, exists_const]
        split
        · exact icmpEchoRequest_disposes inp
        · exact dropped
      · rename_i other
        cases broadcast || (p.ipAddr 16).isMulticast with
        | false => simpa [other, icmpDestUnreach] using icmpError_disposes (p := p) 3 2
        | true => simpa using dropped

/-- Whether a packet whose header is correct is not disposed of. -/
def RouteLoses (ip : Ip) (p : Packet) (tcp : Bool) (inp : NetifId) (hlen : Nat) : Prop :=
  match if (p.ipAddr 16).isBroadcast then some true else
      (ip.routeLookupSelf (p.ipAddr 16)).map (·.2) with
  | none => ip.RelayLoses p inp
  | some broadcast => p.byte 7 = 0 ∧ p.byte 6 &&& 0x3f = 0 ∧ hlen ≤ 20 ∧
      ip.DeliverLoses p tcp (broadcast || (p.ipAddr 16).isMulticast)

/-- Whether `ip_input` does not dispose of a packet exactly once. -/
def InputLoses (ip : Ip) (p : Packet) (tcp : Bool) (inp : NetifId) : Prop :=
  p.byte 0 &&& 0xf0 = 0x40 ∧ p.ipHlen ≤ p.len.toNat ∧
    (crc16Inet ip.target 0 p.oddPayload (p.bytes 0 p.ipHlen) = none ∨
      crc16Inet ip.target 0 p.oddPayload (p.bytes 0 p.ipHlen) = some crc16InetGood ∧
        ip.RouteLoses (p.truncate (p.short 2)) tcp inp p.ipHlen)

def router : Ip :=
  { ownAddress with forwarding := true }

/-- An echo request to 10.0.0.2 whose time to live runs out. -/
def lastHop : Packet where
  memory i :=
    [69, 0, 0, 28, 0, 0, 0, 0, 1, 1, 239, 48, 192, 168, 0, 7, 10, 0, 0, 2,
      8, 0, 247, 255, 0, 0, 0, 0].getD i 0
  payload := 0
  len := 28

end Ip
end Uos
