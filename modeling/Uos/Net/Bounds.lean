import Uos.Net.Input

/-!
# Reading within the packet

Which frames make `arp_input` and `ip_input` read a header field behind the end of the packet, or
strip more bytes off it than it has.
-/

namespace Uos

open List

/-- A header field lies within the packet, and a header is not longer than the packet. -/
def PacketEvent.Inside : PacketEvent → Prop
  | read first size limit => first + size ≤ limit
  | strip size len => size ≤ len.toNat
  | _ => True

/-- Everything that happens to the packet stays inside it. -/
abbrev Handling.Inside {Result : Type} (handling : Handling Result) : Prop :=
  handling.All PacketEvent.Inside

namespace Packet

variable (p : Packet)

theorem inside_read (offset size : Nat) :
    PacketEvent.Inside (.read (p.payload + offset) size p.limit) ↔ offset + size ≤ p.len.toNat := by
  simp only [PacketEvent.Inside, limit]
  omega

theorem strip_len {size : Nat} (fits : size ≤ p.len.toNat) :
    (p.strip size).len.toNat = p.len.toNat - size := by
  have bound := p.len.isLt
  rw [strip, BitVec.toNat_sub_of_le]
  · rw [BitVec.toNat_ofNat, Nat.mod_eq_of_lt (by omega)]
  · rw [BitVec.le_def, BitVec.toNat_ofNat, Nat.mod_eq_of_lt (by omega)]
    exact fits

theorem strip_limit {size : Nat} (fits : size ≤ p.len.toNat) : (p.strip size).limit = p.limit := by
  rw [limit, strip_len p fits, limit]
  change p.payload + size + _ = _
  omega

theorem truncate_len (size : UShort) :
    (p.truncate size).len.toNat = min p.len.toNat size.toNat := by
  simp only [truncate, BitVec.le_def]
  split <;> simp <;> omega

theorem inside_stripHeader_bind {Result : Type} (size : Nat) (next : Packet → Handling Result) :
    Handling.Inside (p.stripHeader size >>= next) ↔
      size ≤ p.len.toNat ∧ Handling.Inside (next (p.strip size)) := by
  change Traced.All _
    (Traced.emit (PacketEvent.strip size p.len) >>= fun _ => next (p.strip size)) ↔ _
  rw [Traced.all_emit_bind]
  rfl

end Packet

namespace Ip

variable {ip : Ip} {p : Packet}

theorem icmpError_inside (type code : UChar) :
    Handling.Inside (ip.icmpError p type code) ↔ (ip.alloc.1 = true → 28 ≤ p.len.toNat) := by
  simp only [icmpError]
  cases ip.alloc.1 with
  | false => simp [PacketEvent.Inside]
  | true =>
    simp only [Handling.Inside, Packet.read, Bool.not_true, Bool.false_eq_true, if_false,
      Traced.all_emit_bind, Packet.inside_read, Traced.all_ofOption_bind, Traced.all_ofOption]
    constructor
    · exact fun inside _ => inside.2.1
    · intro long
      have copied := long trivial
      refine ⟨trivial, copied, trivial, fun _ _ => ⟨by omega, ?_, trivial⟩⟩
      split <;> trivial

theorem ipForward_inside {gateway own : IpAddr} {netif : NetifId} (whole : 20 ≤ p.len.toNat) :
    Handling.Inside (ip.ipForward p gateway netif own) ↔
      ((p.byte 8).toNat ≤ 1 → p.byte 9 ≠ protoIcmp → ip.alloc.1 = true → 28 ≤ p.len.toNat) := by
  have first : 8 + 1 ≤ p.len.toNat := by omega
  have second : 9 + 1 ≤ p.len.toNat := by omega
  have third : 10 + 2 ≤ (p.write 8 [p.byte 8 - 1]).len.toNat := by
    change 10 + 2 ≤ p.len.toNat
    omega
  simp only [ipForward, Handling.Inside, Packet.read, Traced.all_emit_bind, Packet.inside_read,
    first, true_and]
  split
  · rename_i expired
    simp only [Traced.all_emit_bind, Packet.inside_read, second, expired, true_and, true_imp_iff]
    split
    · rename_i other
      exact (icmpError_inside 11 0).trans ⟨fun inside _ => inside, fun inside => inside other⟩
    · rename_i same
      simp [not_not.mp same]
  · rename_i live
    simp only [Traced.all_emit_bind, Packet.inside_read, third, live, true_and]
    simp [PacketEvent.Inside]

/-- Whether a packet for another machine leads to an ICMP message. -/
def Expires (ip : Ip) (p : Packet) (inp : NetifId) : Prop :=
  ip.forwarding = true ∧ (∃ netif hop, ip.routeLookup (p.ipAddr 16) = some (netif, hop) ∧
    netif ≠ inp) ∧ (p.byte 8).toNat ≤ 1 ∧ p.byte 9 ≠ protoIcmp ∧ ip.alloc.1 = true

theorem ipRelay_inside {inp : NetifId} (whole : 20 ≤ p.len.toNat) :
    Handling.Inside (ip.ipRelay p inp) ↔ (ip.Expires p inp → 28 ≤ p.len.toNat) := by
  simp only [ipRelay, Expires]
  cases forwards : ip.forwarding with
  | false => simp [Handling.Inside, PacketEvent.Inside]
  | true =>
    cases found : ip.routeLookup (p.ipAddr 16) with
    | none => simp [Handling.Inside, PacketEvent.Inside]
    | some hop =>
      obtain ⟨netif, gateway, own⟩ := hop
      obtain rfl | other := eq_or_ne netif inp
      · simp [Handling.Inside, PacketEvent.Inside]
      · simp only [if_true, other, ne_eq, not_false_eq_true]
        rw [ipForward_inside whole]
        constructor
        · exact fun inside expires => inside expires.2.2.1 expires.2.2.2.1 expires.2.2.2.2
        · exact fun inside expired proto allocated =>
            inside ⟨trivial, ⟨netif, _, rfl, other⟩, expired, proto, allocated⟩

theorem icmpEchoRequest_inside (inp : NetifId) : Handling.Inside (ip.icmpEchoRequest p inp) := by
  simp only [icmpEchoRequest]
  split
  · simp [Handling.Inside, PacketEvent.Inside]
  · rename_i short
    have first : 12 + 8 ≤ p.len.toNat := by omega
    have second : 22 + 2 ≤ p.len.toNat := by omega
    simp only [Handling.Inside, Traced.all_ofOption_bind]
    intro chksum computed
    split
    · simp [PacketEvent.Inside]
    · simp only [Packet.read, Traced.all_emit_bind, Packet.inside_read, first, true_and,
        Traced.all_pure, and_true]
      exact ⟨second, trivial⟩

theorem inside_readBehind {p iph : Packet} {offset size : Nat} (behind : iph.payload + 20 ≤ p.limit)
    (field : offset + size ≤ 20) :
    PacketEvent.Inside (.read (iph.payload + offset) size p.limit) := by
  simp only [PacketEvent.Inside]
  omega

theorem protoChksum_inside {iph : Packet} {proto : UChar} {len : UShort}
    (behind : iph.payload + 20 ≤ p.limit) : Handling.Inside (ip.protoChksum p iph proto len) := by
  simp only [protoChksum, Packet.readBehind, Handling.Inside, Traced.all_emit_bind,
    Traced.all_ofOption, and_true]
  exact inside_readBehind behind (by omega)

theorem udpDeliver_inside {iph : Packet} (behind : iph.payload + 20 ≤ p.limit)
    (long : 8 ≤ p.len.toNat) : Handling.Inside (ip.udpDeliver p iph) := by
  have addr : PacketEvent.Inside (.read (iph.payload + 12) 4 p.limit) :=
    inside_readBehind behind (by omega)
  have ports : 0 + 4 ≤ p.len.toNat := by omega
  simp only [udpDeliver, Packet.read, Packet.readBehind, Handling.Inside, Traced.all_emit_bind,
    Packet.inside_read, ports, addr, true_and]
  split
  · simp
  · rw [← Handling.Inside, Packet.inside_stripHeader_bind]
    refine ⟨by omega, ?_⟩
    split <;> simp [Handling.Inside, PacketEvent.Inside]

theorem udpInput_inside {iph : Packet} (behind : iph.payload + 20 ≤ p.limit) :
    Handling.Inside (ip.udpInput p iph) := by
  simp only [udpInput]
  split
  · simp [Handling.Inside, PacketEvent.Inside]
  · rename_i short
    have length : 4 + 2 ≤ p.len.toNat := by omega
    have field : 6 + 2 ≤ p.len.toNat := by omega
    simp only [Handling.Inside, Packet.read, Traced.all_emit_bind, Packet.inside_read, length,
      true_and]
    split
    · simp [PacketEvent.Inside]
    · rw [Traced.all_emit_bind, Packet.inside_read, Traced.all_bind]
      refine ⟨field, ?_, fun chksum _ => ?_⟩
      · rw [udpChksum]
        split
        · exact protoChksum_inside behind
        · simp
      · split
        · simp [PacketEvent.Inside]
        · exact udpDeliver_inside behind (by omega)

/-- A packet that `udp_input` returns is the one it was given. -/
theorem udpInput_returned {ip' : Ip} {iph p' : Packet}
    (returned : (ip.udpInput p iph).result = some (ip', some p')) :
    ip' = ip ∧ p' = p ∧ 8 ≤ p.len.toNat := by
  simp only [udpInput] at returned
  split at returned
  · simp at returned
  · rename_i short
    simp only [Packet.read, Traced.result_emit_bind] at returned
    split at returned
    · simp at returned
    · rw [Traced.result_emit_bind, Traced.result_bind, Option.bind_eq_some_iff] at returned
      obtain ⟨chksum, -, returned⟩ := returned
      split at returned
      · simp at returned
      · simp only [udpDeliver, Packet.read, Packet.readBehind, Traced.result_emit_bind] at returned
        split at returned
        · simp only [Traced.result_pure, Option.some.injEq, Prod.mk.injEq] at returned
          exact ⟨returned.1.symm, returned.2.symm, by omega⟩
        · rw [Traced.result_bind, Option.bind_eq_some_iff] at returned
          obtain ⟨stripped, -, returned⟩ := returned
          split at returned <;> simp at returned

end Ip

/-- The places in the options that `tcp_parseopt` gets to from one of them. -/
inductive OptionAt (opts : Nat → UChar) (size : Nat) : UChar → UChar → Prop
  | here (c : UChar) : OptionAt opts size c c
  | nop {c d : UChar} : c.toNat < size → opts c.toNat = 1 → OptionAt opts size (c + 1) d →
      OptionAt opts size c d
  | skip {c d : UChar} : c.toNat < size → opts c.toNat ≠ 0 → opts c.toNat ≠ 1 →
      ¬(opts c.toNat = 2 ∧ opts (c.toNat + 1) = 4) → opts (c.toNat + 1) ≠ 0 →
      OptionAt opts size (c + opts (c.toNat + 1)) d → OptionAt opts size c d

def optionSize (opts : Nat → UChar) (c : UChar) : Nat :=
  if opts c.toNat = 0 ∨ opts c.toNat = 1 then 1
  else if opts c.toNat = 2 ∧ opts (c.toNat + 1) = 4 then 4
  else 2

/-- The options that are read lie in the first bytes behind the fixed header. -/
def OptionsFit (opts : Nat → UChar) (size room : Nat) (start : UChar) : Prop :=
  ∀ c, OptionAt opts size start c → c.toNat < size → c.toNat + optionSize opts c ≤ room

namespace Ip

variable {ip : Ip} {p : Packet}

theorem optionReads_succ (opts : Nat → UChar) (size turns : Nat) {c : UChar}
    (inside : c.toNat < size) :
    ∃ rest, optionReads opts size (turns + 1) c = (c.toNat, optionSize opts c) :: rest ∧
      (rest = [] ∨ opts c.toNat = 1 ∧ rest = optionReads opts size turns (c + 1) ∨
        opts c.toNat ≠ 0 ∧ opts c.toNat ≠ 1 ∧ ¬(opts c.toNat = 2 ∧ opts (c.toNat + 1) = 4) ∧
          opts (c.toNat + 1) ≠ 0 ∧
            rest = optionReads opts size turns (c + opts (c.toNat + 1))) := by
  simp only [optionReads, inside, if_true, optionSize]
  split
  · rename_i ends
    exact ⟨[], by simp [ends], .inl rfl⟩
  · rename_i more
    split
    · rename_i nop
      exact ⟨_, by simp [nop], .inr (.inl ⟨nop, rfl⟩)⟩
    · rename_i other
      split
      · rename_i mss
        exact ⟨[], by rw [if_neg (not_or.mpr ⟨more, other⟩)], .inl rfl⟩
      · rename_i notMss
        split
        · exact ⟨[], by rw [if_neg (not_or.mpr ⟨more, other⟩)], .inl rfl⟩
        · rename_i long
          exact ⟨_, by rw [if_neg (not_or.mpr ⟨more, other⟩)],
            .inr (.inr ⟨more, other, notMss, long, rfl⟩)⟩

theorem optionReads_mono {opts : Nat → UChar} {size turns more : Nat} {c : UChar}
    {access : Nat × Nat} (le : turns ≤ more) (member : access ∈ optionReads opts size turns c) :
    access ∈ optionReads opts size more c := by
  induction turns generalizing c more with
  | zero => simp [optionReads] at member
  | succ turns ih =>
    obtain ⟨more, rfl⟩ : ∃ rest, more = rest + 1 := ⟨more - 1, by omega⟩
    have longer {c : UChar} (later : access ∈ optionReads opts size turns c) :
        access ∈ optionReads opts size more c := ih (by omega) later
    simp only [optionReads] at member ⊢
    split_ifs at member ⊢
    · exact member
    · exact mem_cons.mpr ((mem_cons.mp member).imp_right longer)
    · exact member
    · exact member
    · exact mem_cons.mpr ((mem_cons.mp member).imp_right longer)
    · contradiction

theorem optionReads_inside (opts : Nat → UChar) (size room : Nat) (start : UChar) :
    (∀ turns, ∀ access ∈ optionReads opts size turns start, access.1 + access.2 ≤ room) ↔
      OptionsFit opts size room start := by
  constructor
  · intro inside c reached below
    induction reached with
    | here c =>
      obtain ⟨rest, reads, -⟩ := optionReads_succ opts size 0 below
      exact inside 1 _ (by rw [reads]; exact .head rest)
    | nop low nop _ ih =>
      refine ih (fun turns access member => inside (turns + 1) access ?_) below
      simp only [optionReads, low, if_true, nop]
      exact .tail _ member
    | skip low more other notMss long _ ih =>
      refine ih (fun turns access member => inside (turns + 1) access ?_) below
      simp only [optionReads, low, if_true, more, other, notMss, long, if_false]
      exact .tail _ member
  · intro fit turns
    induction turns generalizing start with
    | zero => simp [optionReads]
    | succ turns ih =>
      obtain below | above := Nat.lt_or_ge start.toNat size
      · obtain ⟨rest, reads, next⟩ := optionReads_succ opts size turns below
        intro access member
        rw [reads] at member
        rcases mem_cons.mp member with rfl | later
        · exact fit start (.here start) below
        rcases next with rfl | ⟨nop, rfl⟩ | ⟨more, other, notMss, long, rfl⟩
        · contradiction
        · exact ih _ (fun c reached => fit c (.nop below nop reached)) access later
        · exact ih _ (fun c reached => fit c (.skip below more other notMss long reached)) access
            later
      · simp [optionReads, not_lt.mpr above]

theorem flagLen_le (flags : TcpFlags) : (flagLen flags).toNat ≤ 1 := by
  rw [flagLen]
  split <;> decide

theorem receiveEvents_inside {s : SocketId} {flags : TcpFlags}
    (len : ip.tcpInputLen = p.len + (flagLen flags).setWidth 16) :
    ∀ event ∈ ip.receiveEvents s p, event.Inside := by
  simp only [receiveEvents]
  split
  · rename_i trims
    obtain ⟨nonempty, early, late, -⟩ := trims
    simp only [mem_singleton, forall_eq, PacketEvent.Inside]
    rw [seqLt_iff] at early late
    have small := flagLen_le flags
    have total : ip.tcpInputLen.toNat ≤ p.len.toNat + 1 := by
      rw [len]
      bv_omega
    have positive : ip.tcpInputLen.toNat ≠ 0 := by
      bv_omega
    bv_omega
  · simp

/-- Whether a segment completes a connection that this side opened, and has options. -/
def Completes (ip : Ip) (s : SocketId) (offset : UChar) : Prop :=
  ip.tcpInputFlags.has TcpFlags.rst = false ∧ (ip.tcpSocket s).state = .synSent ∧
    (∃ first rest, (ip.tcpSocket s).unacked = first :: rest ∧
      ip.tcpInputAckno = first.seqno + 1) ∧
    ip.tcpInputFlags.has (TcpFlags.ack ||| TcpFlags.syn) = true ∧ 0x50 < offset &&& 0xf0

theorem processEvents_inside {turns : Nat} {s : SocketId} {h : Packet} {flags : TcpFlags}
    (len : ip.tcpInputLen = p.len + (flagLen flags).setWidth 16) :
    (∀ event ∈ processEvents turns ip s h p, event.Inside) ↔
      (ip.Completes s (h.byte 12) →
        ∀ access ∈
          optionReads (fun i => h.byte (20 + i)) (((h.byte 12).toNat / 16 - 5) * 4) turns 0,
          h.payload + 20 + access.1 + access.2 ≤ p.limit) := by
  have receives := receiveEvents_inside (s := s) len
  simp only [processEvents, Completes]
  split
  · rename_i reset
    simp [reset]
  · rename_i noReset
    cases state : (ip.tcpSocket s).state with
    | synSent =>
      cases unacked : (ip.tcpSocket s).unacked with
      | nil => simp
      | cons first rest =>
        simp only
        split
        · rename_i completes
          constructor
          · exact fun inside _ access member => forall_mem_map.mp inside access member
          · intro inside
            exact forall_mem_map.mpr (inside ⟨by simpa using noReset, trivial,
              ⟨first, rest, rfl, completes.2.1⟩, completes.1, completes.2.2⟩)
        · rename_i other
          refine iff_of_true (by simp) ?_
          rintro ⟨-, -, ⟨_, _, same, acknowledges⟩, flags, long⟩
          obtain ⟨rfl, -⟩ := List.cons.inj same
          exact absurd ⟨flags, acknowledges, long⟩ other
    | synRcvd =>
      simp only [reduceCtorEq, false_and, and_false, false_imp_iff, iff_true]
      split
      · exact receives
      · simp
    | established => simpa using receives
    | finWait1 => simpa using receives
    | finWait2 => simpa using receives
    | closeWait => simpa using receives
    | closing => simpa using receives
    | lastAck => simpa using receives
    | closed => simp
    | listen => simp
    | timeWait => simp

end Ip

/-- Whether the options of a segment that completes a connection lie within the packet; `h` is the
packet from its TCP header on. -/
def Ip.OptionsInside (ip : Ip) (h : Packet) (header : TcpHdr) (len : UShort) : Prop :=
  ∀ turns found s, findActiveSocket turns (ip.takeApart header len) header = some (found, some s) →
    found.Completes s (h.byte 12) →
    OptionsFit (fun i => h.byte (20 + i)) (((h.byte 12).toNat / 16 - 5) * 4) (h.len.toNat - 20) 0

namespace Packet

def tcpHlen (p : Packet) : Nat :=
  (p.byte 12 >>> 2 &&& 0x3c).toNat

/-- Whether a segment passes the checks of `tcp_input`. -/
def TcpChecked (p iph : Packet) (ip : Ip) : Prop :=
  20 ≤ p.len.toNat ∧ (iph.ipAddr 16).isBroadcast = false ∧ (iph.ipAddr 16).isMulticast = false ∧
    bufChksum ip.target [p.chunk]
      (crc16InetHeader ip.target (iph.ipAddr 12) (iph.ipAddr 16) protoTcp p.len) = some 0

/-- A segment is as long as its header says, and its options end in it. -/
def TcpFits (p iph : Packet) (ip : Ip) : Prop :=
  p.tcpHlen ≤ p.len.toNat ∧
    ip.OptionsInside p (p.tcpHdr iph) (p.strip p.tcpHlen).len

end Packet

namespace Ip

variable {ip : Ip} {p : Packet}

theorem tcpEvents_inside {h : Packet} {header : TcpHdr} (fits : h.limit = p.limit)
    (whole : 20 ≤ h.len.toNat) :
    (∀ turns, ∀ event ∈ tcpEvents turns ip h p header, event.Inside) ↔
      ip.OptionsInside h header p.len := by
  have room : ∀ first size, h.payload + 20 + first + size ≤ p.limit ↔
      first + size ≤ h.len.toNat - 20 := by
    intro first size
    rw [← fits, Packet.limit]
    omega
  have len : ∀ {turns found s}, findActiveSocket turns (ip.takeApart header p.len) header =
      some (found, s) → found.tcpInputLen = p.len + (flagLen (header.flags &&& 0x3f)).setWidth 16 :=
    fun finds => (findActiveSocket_input finds).1
  constructor
  · intro inside turns found s finds completes
    apply (optionReads_inside _ _ _ _).mp
    intro more access member
    -- Both loops take as many turns as the longer one.
    have finds' := findActiveSocket_mono finds (Nat.le_max_left turns more)
    have events := inside (max turns more)
    simp only [tcpEvents, finds'] at events
    exact (room _ _).mp ((processEvents_inside (len finds)).mp events completes access
      (optionReads_mono (Nat.le_max_right turns more) member))
  · intro inside turns
    simp only [tcpEvents]
    split
    · rename_i found s finds
      refine (processEvents_inside (len finds)).mpr fun completes access member => (room _ _).mpr ?_
      have fit := inside turns found s finds completes
      exact (optionReads_inside _ _ _ _).mpr fit turns access member
    · simp

theorem protoChksum_result {iph : Packet} {proto : UChar} {len : UShort} :
    (ip.protoChksum p iph proto len).result = bufChksum ip.target [p.chunk]
      (crc16InetHeader ip.target (iph.ipAddr 12) (iph.ipAddr 16) proto len) := by
  simp [protoChksum, Packet.readBehind]

theorem tcpInputPacket_inside {iph : Packet} (behind : iph.payload + 20 ≤ p.limit) :
    (∀ turns, Handling.Inside (tcpInputPacket turns ip p iph)) ↔
      (p.TcpChecked iph ip → p.TcpFits iph ip) := by
  have addresses : PacketEvent.Inside (.read (iph.payload + 16) 4 p.limit) :=
    inside_readBehind behind (by omega)
  simp only [tcpInputPacket, Packet.TcpChecked]
  split
  · rename_i short
    exact iff_of_true (fun _ => by simp [Handling.Inside, PacketEvent.Inside])
      fun checked => absurd checked.1 (by omega)
  · rename_i whole
    simp only [Packet.readBehind, Handling.Inside, Traced.all_emit_bind, addresses, true_and]
    split
    · rename_i group
      refine iff_of_true (fun _ => by simp [PacketEvent.Inside]) ?_
      rintro ⟨-, noBroadcast, noMulticast, -⟩
      simp [noBroadcast, noMulticast] at group
    · rename_i unicast
      simp only [Bool.or_eq_true, not_or, Bool.not_eq_true] at unicast
      simp only [Traced.all_bind (ip.protoChksum p iph protoTcp p.len), protoChksum_result]
      have chksumInside : Handling.Inside (ip.protoChksum p iph protoTcp p.len) :=
        protoChksum_inside behind
      have enough : 20 ≤ p.len.toNat := by omega
      have header : 0 + 20 ≤ p.len.toNat := by omega
      cases sum : bufChksum ip.target [p.chunk] (crc16InetHeader ip.target (iph.ipAddr 12)
          (iph.ipAddr 16) protoTcp p.len) with
      | none => simpa [sum] using chksumInside
      | some chksum =>
        obtain rfl | bad := eq_or_ne chksum 0
        · have events := @tcpEvents_inside ip (p.strip p.tcpHlen) p (p.tcpHdr iph)
          simp only [Option.some.injEq, forall_eq', ne_eq, not_true_eq_false, if_false,
            Packet.read, Traced.all_emit_bind, Packet.inside_read, header, true_and,
            Packet.inside_stripHeader_bind, chksumInside, unicast, and_self, true_imp_iff,
            Packet.TcpFits]
          constructor
          · intro inside
            have fits : p.tcpHlen ≤ p.len.toNat := (inside 0).1
            refine ⟨fits, (events (p.strip_limit fits).symm enough).mp fun turns => ?_⟩
            exact ((Traced.all_bind _ _).mp (inside turns).2).1
          · rintro ⟨fits, options⟩ turns
            have inside := (events (p.strip_limit fits).symm enough).mpr options turns
            refine ⟨fits, (Traced.all_bind _ _).mpr ⟨inside, fun _ _ => ?_⟩⟩
            rw [Traced.all_ofOption_bind]
            intro result _
            cases result.2 <;> simp [PacketEvent.Inside]
        · have dropped : chksum ≠ 0#16 := bad
          simp [PacketEvent.Inside, dropped, chksumInside]

end Ip

/-- Whether a packet to this machine is as long as its protocol reads it. -/
def Packet.DeliverFits (p : Packet) (ip : Ip) (tcp silent : Bool) : Prop :=
  if p.byte 9 = protoUdp then True
  else if p.byte 9 = protoTcp && tcp then (p.strip 20).TcpChecked p ip → (p.strip 20).TcpFits p ip
  else if p.byte 9 = protoIcmp then 21 ≤ p.len.toNat
  else silent = false → ip.alloc.1 = true → 28 ≤ p.len.toNat

namespace Ip

variable {ip : Ip} {p : Packet}

theorem ipDeliver_inside {tcp broadcast : Bool} {inp : NetifId} (whole : 20 ≤ p.len.toNat) :
    (∀ turns, Handling.Inside (ipDeliver turns tcp ip p inp broadcast)) ↔
      p.DeliverFits ip tcp (broadcast || (p.ipAddr 16).isMulticast) := by
  have proto : 9 + 1 ≤ p.len.toNat := by omega
  have behind : p.payload + 20 ≤ (p.strip 20).limit := by
    rw [p.strip_limit whole, Packet.limit]
    omega
  simp only [ipDeliver, Packet.DeliverFits, Packet.read, Handling.Inside, Traced.all_emit_bind,
    Packet.inside_read, proto, true_and]
  split
  · refine iff_of_true (fun turns => ?_) trivial
    rw [← Handling.Inside, Packet.inside_stripHeader_bind]
    refine ⟨whole, (Traced.all_bind _ _).mpr ⟨udpInput_inside behind, ?_⟩⟩
    rintro ⟨ip', returned⟩ finished
    cases returned with
    | none => simp
    | some p' =>
      obtain ⟨rfl, rfl, long⟩ := udpInput_returned finished
      simp only
      split
      · apply (icmpError_inside _ _).mpr
        intro _
        have back : (p.strip 20).addHeader 20 = { p with len := p.len - 20 + 20 } := by
          rw [Packet.addHeader, if_neg (by simp [Packet.strip])]
          simp [Packet.strip]
        rw [p.strip_len whole] at long
        rw [back]
        bv_omega
      · simp [PacketEvent.Inside]
  · split
    · rw [← tcpInputPacket_inside behind]
      apply forall_congr'
      intro turns
      rw [← Handling.Inside, Packet.inside_stripHeader_bind, and_iff_right whole]
    · split
      · simp only [Traced.all_emit_bind, Packet.inside_read, forall_const]
        refine and_iff_left ?_
        split
        · exact icmpEchoRequest_inside inp
        · simp [PacketEvent.Inside]
      · cases broadcast || (p.ipAddr 16).isMulticast with
        | false => simpa [icmpDestUnreach] using icmpError_inside (p := p) 3 2
        | true => simp [PacketEvent.Inside]

end Ip

namespace Packet

def ipHlen (p : Packet) : Nat :=
  (p.byte 0 &&& 0x0f).toNat * 4

/-- Whether a packet whose header is correct is as long as it is read; `hlen` is the length of the
header. -/
def RouteFits (p : Packet) (ip : Ip) (tcp : Bool) (inp : NetifId) (hlen : Nat) : Prop :=
  20 ≤ p.len.toNat ∧
    match if (p.ipAddr 16).isBroadcast then some true else
        (ip.routeLookupSelf (p.ipAddr 16)).map (·.2) with
    | none => ip.Expires p inp → 28 ≤ p.len.toNat
    | some broadcast => p.byte 7 = 0 → p.byte 6 &&& 0x3f = 0 → hlen ≤ 20 →
        p.DeliverFits ip tcp (broadcast || (p.ipAddr 16).isMulticast)

/-- Whether a packet is as long as `ip_input` reads it. -/
def IpFits (p : Packet) (ip : Ip) (tcp : Bool) (inp : NetifId) : Prop :=
  1 ≤ p.len.toNat ∧
    (p.byte 0 &&& 0xf0 = 0x40 → p.ipHlen ≤ p.len.toNat →
      ∃ sum, crc16Inet ip.target 0 p.oddPayload (p.bytes 0 p.ipHlen) = some sum ∧
        (sum = crc16InetGood → (p.truncate (p.short 2)).RouteFits ip tcp inp p.ipHlen))

end Packet

namespace Ip

variable {ip : Ip} {p : Packet}

theorem crc16Inet_empty {target : Target} {odd : Bool} {buf : List UChar}
    (good : crc16Inet target 0 odd buf = some crc16InetGood) : buf ≠ [] := by
  rintro rfl
  simp only [crc16Inet, Checksum.sumWords] at good
  split at good
  · contradiction
  · cases target <;> simp [Checksum.finish, Checksum.fold, crc16InetGood] at good

/-- What `ip_input` does to a packet whose header is correct. -/
theorem ipInput_inside {tcp : Bool} {inp : NetifId} :
    (∀ turns, Handling.Inside (ipInput turns tcp ip p inp)) ↔ p.IpFits ip tcp inp := by
  simp only [ipInput, Packet.IpFits, Handling.Inside, Packet.read, Traced.all_emit_bind,
    Packet.inside_read, forall_and, forall_const, Nat.zero_add]
  refine and_congr_right fun _ => ?_
  split
  · rename_i version
    exact iff_of_true (fun _ => by simp [PacketEvent.Inside]) fun same => absurd same version
  · rename_i version
    rw [not_not] at version
    simp only [version, true_imp_iff]
    split
    · rename_i short
      exact iff_of_true (fun _ => by simp [PacketEvent.Inside]) fun long => absurd long (by
        rw [Packet.ipHlen]
        omega)
    · rename_i long
      have long : p.ipHlen ≤ p.len.toNat := by
        rw [Packet.ipHlen]
        omega
      have bound := p.len.isLt
      simp only [Traced.all_emit_bind, Packet.inside_read, ← Packet.ipHlen.eq_1, long, true_imp_iff]
      cases computed : crc16Inet ip.target 0 p.oddPayload (p.bytes 0 p.ipHlen) with
      | none =>
        refine iff_of_false (fun inside => ?_) (by simp)
        have far := (inside 0).1
        simp only [Option.isNone_none, if_true] at far
        omega
      | some sum =>
        simp only [Option.isNone_some, Bool.false_eq_true, if_false, Nat.zero_add, long, true_and,
          Traced.all_ofOption_bind, Option.some.injEq, forall_eq', exists_eq_left']
        obtain rfl | bad := eq_or_ne sum crc16InetGood
        · have length : 2 + 2 ≤ p.len.toNat := by
            have nonempty := crc16Inet_empty computed
            rw [ne_eq, Packet.bytes, map_eq_nil_iff, range_eq_nil, Packet.ipHlen]
              at nonempty
            rw [Packet.ipHlen] at long
            omega
          simp only [ne_eq, not_true_eq_false, if_false, Traced.all_emit_bind, Packet.inside_read,
            length, true_and, Packet.RouteFits, forall_and, forall_const]
          refine and_congr_right fun whole => ?_
          generalize p.truncate (p.short 2) = p at whole
          split
          · rename_i notFound
            rw [← ipRelay_inside whole]
            simp only [notFound, forall_const]
          · rename_i broadcast found
            have fragment : 6 + 2 ≤ p.len.toNat := by omega
            simp only [found, Traced.all_emit_bind, Packet.inside_read, fragment, true_and,
              Bool.or_eq_true, decide_eq_true_eq]
            split
            · rename_i fragmented
              refine iff_of_true (fun _ => by simp [PacketEvent.Inside]) fun low high => ?_
              exact absurd fragmented (not_or.mpr ⟨not_not.mpr low, not_not.mpr high⟩)
            · rename_i complete
              obtain ⟨low, high⟩ := not_or.mp complete
              simp only [not_not.mp low, not_not.mp high, true_imp_iff]
              split
              · rename_i options
                exact iff_of_true (fun _ => by simp [PacketEvent.Inside]) fun none =>
                  absurd options (not_lt.mpr none)
              · rename_i none
                exact (ipDeliver_inside whole).trans
                  ⟨fun fits _ => fits, fun fits => fits (not_lt.mp none)⟩
        · simp only [ne_eq, bad, not_false_eq_true, if_true, Traced.all_emit_bind]
          exact iff_of_true (fun _ => by simp [PacketEvent.Inside]) fun good => good.elim

/-- A received frame is given to `arp_input` and, if it is returned, to `ip_input`. -/
def frameInput (turns : Nat) (tcp : Bool) (ip : Ip) (netif : NetifId) (ethaddr : List UChar)
    (p : Packet) : Handling Ip := do
  match ← ip.arpInput netif ethaddr p with
  | .ip p => ipInput turns tcp ip p netif
  | _ => return ip

end Ip

/-- Whether a frame is as long as it is read. -/
def Packet.FrameFits (p : Packet) (ip : Ip) (tcp : Bool) (netif : NetifId) : Prop :=
  14 ≤ p.len.toNat ∧
    (p.short 12 = protoIp →
      (p.byte 0 ≠ 255 → 30 ≤ p.len.toNat) ∧ (p.strip 14).IpFits ip tcp netif)

namespace Ip

variable {ip : Ip} {p : Packet}

theorem arpInput_arp (ip : Ip) (netif : NetifId) (ethaddr : List UChar) (header : 14 ≤ p.len.toNat)
    (other : p.short 12 ≠ protoIp) :
    Handling.Inside (ip.arpInput netif ethaddr p) ∧
      ∀ p', (ip.arpInput netif ethaddr p).result ≠ some (.ip p') := by
  have type : 12 + 2 ≤ p.len.toNat := by omega
  simp only [arpInput, other, if_false, Packet.read, Handling.Inside, Traced.all_emit_bind,
    Packet.inside_read, type, true_and, Traced.result_emit_bind]
  split
  · split
    · simp [PacketEvent.Inside]
    · rename_i long
      have whole : (p.truncate 42).len.toNat = 42 := by
        rw [Packet.truncate_len]
        have bound : 42 ≤ p.len.toNat := by omega
        exact Nat.min_eq_right bound
      have sender : (p.truncate 42).payload + 22 + 6 ≤ (p.truncate 42).limit := by
        rw [Packet.limit]
        omega
      have target : (p.truncate 42).payload + 28 + 4 ≤ (p.truncate 42).limit := by
        rw [Packet.limit]
        omega
      simp only [Traced.all_emit_bind, Packet.inside_read, whole, Traced.result_emit_bind]
      split
      · simp only [Traced.all_emit_bind, Packet.inside_read, whole, Traced.result_emit_bind]
        split
        · simp [PacketEvent.Inside]
        · simpa [PacketEvent.Inside] using sender
      · split
        · simpa [PacketEvent.Inside] using ⟨target, sender⟩
        · simp [PacketEvent.Inside]
  · simp [PacketEvent.Inside]

theorem arpInput_ip (ip : Ip) (netif : NetifId) (ethaddr : List UChar) (header : 14 ≤ p.len.toNat)
    (isIp : p.short 12 = protoIp) :
    (Handling.Inside (ip.arpInput netif ethaddr p) ↔ (p.byte 0 ≠ 255 → 30 ≤ p.len.toNat)) ∧
      (ip.arpInput netif ethaddr p).result = some (.ip (p.strip 14)) := by
  have type : 12 + 2 ≤ p.len.toNat := by omega
  have first : 0 + 1 ≤ p.len.toNat := by omega
  have source : 6 + 6 ≤ p.len.toNat := by omega
  simp only [arpInput, isIp, if_true, Packet.read, Handling.Inside, Traced.all_emit_bind,
    Packet.inside_read, type, first, true_and, Traced.result_emit_bind]
  split
  · rename_i single
    simp only [Traced.all_emit_bind, Packet.inside_read, source, true_and, Traced.result_emit_bind,
      ← Handling.Inside.eq_1, Packet.inside_stripHeader_bind, header, Traced.all_pure]
    exact ⟨⟨fun inside _ => inside.1, fun long => ⟨long single, trivial⟩⟩, rfl⟩
  · rename_i group
    simp only [← Handling.Inside.eq_1, Packet.inside_stripHeader_bind, header, Traced.all_pure]
    exact ⟨iff_of_true ⟨trivial, trivial⟩ fun single => absurd single group, rfl⟩

/-- Header fields are read inside the frame and `buf_add_header` strips off no more than there is
if and only if the lengths in the headers fit the frame. -/
theorem frameInput_inside {tcp : Bool} {netif : NetifId} {ethaddr : List UChar} :
    (∀ turns, Handling.Inside (frameInput turns tcp ip netif ethaddr p)) ↔
      p.FrameFits ip tcp netif := by
  obtain short | header := Nat.lt_or_ge p.len.toNat 14
  · refine iff_of_false (fun inside => ?_) fun fits => absurd fits.1 (not_le.mpr short)
    have first := ((Traced.all_bind _ _).mp (inside 0)).1
    simp only [arpInput, Packet.read, Traced.all_emit_bind, Packet.inside_read] at first
    omega
  have type : 12 + 2 ≤ p.len.toNat := by omega
  simp only [Packet.FrameFits, header, true_and]
  obtain isIp | other := eq_or_ne (p.short 12) protoIp
  · obtain ⟨events, result⟩ := arpInput_ip ip netif ethaddr header isIp
    rw [← events, ← ipInput_inside]
    simp only [frameInput, Handling.Inside, Traced.all_bind, result, Option.some.injEq, forall_eq',
      isIp, forall_and, forall_const]
  · obtain ⟨inside, dropped⟩ := arpInput_arp ip netif ethaddr header other
    refine iff_of_true (fun turns => (Traced.all_bind _ _).mpr ⟨inside, fun result finished => ?_⟩)
      fun same => absurd same other
    cases result with
    | ip p' => exact absurd finished (dropped p')
    | dropped => simp
    | reply _ => simp

def ownAddress : Ip :=
  ({ target := .i386, wideShift := fun _ => 0 } : Ip).routeAddNetif (.ofHost 0x0a000001) 24 (some 0)

/-- A frame with a TCP segment of twenty bytes whose header claims to have sixty. -/
def longOffset : Packet where
  memory i :=
    [0, 1, 2, 3, 4, 5, 0, 1, 2, 3, 4, 6, 8, 0,
      69, 0, 0, 40, 0, 0, 0, 0, 64, 6, 102, 206, 10, 0, 0, 2, 10, 0, 0, 1,
      4, 0, 0, 80, 0, 0, 0, 1, 0, 0, 0, 0, 240, 2, 16, 0, 231, 142, 0, 0].getD i 0
  payload := 0
  len := 54

/-- The twenty bytes of a segment are stripped of sixty. -/
theorem frameInput_underflows :
    ¬∀ (turns : Nat) (tcp : Bool) (ip : Ip) (netif : NetifId) (ethaddr : List UChar) (p : Packet),
      Handling.Inside (frameInput turns tcp ip netif ethaddr p) := by
  intro inside
  have strips : PacketEvent.strip 60 20 ∈
      (frameInput 0 true ownAddress 0 [] longOffset).events := by
    decide +kernel
  have fits : (60 : Nat) ≤ 20 := inside _ _ _ _ _ _ _ strips
  omega

end Ip
end Uos
