import Uos.Net.Route

/-!
# Sending IP packets

The functions `ip_output_netif` and `ip_output` of `net/ip.c`.  What `netif_output` does with a
packet, a matter of the driver, is left out: its calls are recorded.
-/

namespace Uos

namespace Buf

def addHeader (p : Buf) (size : Nat) : Option Buf :=
  if p.room < size then none
  else
    match p.chunks with
    | [] => none
    | first :: rest =>
      some
        { room := p.room - size
          totLen := p.totLen + .ofNat 16 size
          chunks := { odd := first.odd ^^ (size % 2 = 1)
                      bytes := List.replicate size 0 ++ first.bytes } :: rest }

def fill (p : Buf) (header : List UChar) : Buf :=
  match p.chunks with
  | [] => p
  | first :: rest =>
    { p with
      chunks := { first with bytes := header ++ first.bytes.drop header.length } :: rest }

end Buf

theorem Buf.payload_fill {p : Buf} {header : List UChar} {first : Chunk} {rest : List Chunk}
    (split : p.chunks = first :: rest) (fits : header.length ≤ first.bytes.length) :
    payload (p.fill header).chunks = header ++ (payload p.chunks).drop header.length := by
  simp only [fill, split, payload, List.flatMap_cons]
  rw [List.drop_append_of_le_length fits, List.append_assoc]

theorem Buf.addHeader_totLen {p packet : Buf} {size : Nat} (room : p.addHeader size = some packet) :
    packet.totLen = p.totLen + .ofNat 16 size := by
  simp only [addHeader] at room
  split at room
  · contradiction
  · split at room
    · contradiction
    · cases room
      rfl

theorem Buf.payload_addHeader {p packet : Buf} {header : List UChar}
    (room : p.addHeader header.length = some packet) :
    payload (packet.fill header).chunks = header ++ payload p.chunks := by
  simp only [addHeader] at room
  split at room
  · contradiction
  · split at room
    · contradiction
    · rename_i first rest split
      cases room
      rw [payload_fill rfl (by simp)]
      simp [payload, split]

/-- `IP_PROTO_ICMP` -/
def protoIcmp : UChar := 1

/-- `IP_PROTO_TCP` -/
def protoTcp : UChar := 6

/-- `IP_PROTO_UDP` -/
def protoUdp : UChar := 17

namespace Ip

def header (ip : Ip) (totLen : UShort) (proto : UChar) (src dest : IpAddr) (chksum : UShort) :
    List UChar :=
  [0x45, ip.tos, UShort.high totLen, UShort.low totLen, UShort.high ip.id, UShort.low ip.id, 0, 0,
    ip.defaultTtl, proto, UShort.high chksum, UShort.low chksum] ++ src.toList ++ dest.toList

def netifOutput (ip : Ip) (netif : NetifId) (p : Buf) (ipdest ipsrc : IpAddr) : Ip :=
  { ip with sent := ip.sent ++ [{ netif, packet := p, ipdest, ipsrc }] }

/-- Send an IP packet on a network interface, after adding an IP header; without room for that it
is discarded.  The gateway is computed and not used. -/
def ipOutputNetif (ip : Ip) (p : Buf) (dest : IpAddr) (src : Option IpAddr) (proto : UChar)
    (_gateway : Option IpAddr) (netif : NetifId) (netifIpaddr : IpAddr) : Option Ip :=
  match p.addHeader 20 with
  | none => some ip
  | some p => do
    let ip := { ip with id := ip.id + 1 }
    let header := ip.header p.totLen proto (src.getD netifIpaddr) dest
    let odd := (p.chunks.head?.map (·.odd)).getD false
    let chksum ← crc16Inet ip.target 0 odd (header 0)
    some (ip.netifOutput netif (p.fill (header (Checksum.nativeStore ip.target (~~~chksum))))
      dest netifIpaddr)

theorem header_length (ip : Ip) (totLen : UShort) (proto : UChar) (src dest : IpAddr)
    (chksum : UShort) : (ip.header totLen proto src dest chksum).length = 20 := by
  simp [header]

theorem ipOutputNetif_noRoom (ip : Ip) {p : Buf} (dest netifIpaddr : IpAddr)
    (src gateway : Option IpAddr) (proto : UChar) (netif : NetifId)
    (noRoom : p.addHeader 20 = none) :
    ip.ipOutputNetif p dest src proto gateway netif netifIpaddr = some ip := by
  simp only [ipOutputNetif, noRoom]

theorem ipOutputNetif_sends (ip : Ip) {p packet : Buf} (dest netifIpaddr : IpAddr)
    (src gateway : Option IpAddr) (proto : UChar) (netif : NetifId)
    (room : p.addHeader 20 = some packet) :
    ∃ chksum, ip.ipOutputNetif p dest src proto gateway netif netifIpaddr =
      some ({ ip with id := ip.id + 1 }.netifOutput netif
        (packet.fill ({ ip with id := ip.id + 1 }.header packet.totLen proto
          (src.getD netifIpaddr) dest chksum)) dest netifIpaddr) := by
  set next := { ip with id := ip.id + 1 } with next_eq
  set header := next.header packet.totLen proto (src.getD netifIpaddr) dest with header_eq
  have readable : Checksum.Readable ip.target
      { odd := (packet.chunks.head?.map (·.odd)).getD false, bytes := header 0 } := by
    intro _ _ empty
    have none := congrArg List.length empty
    rw [header_eq, header_length] at none
    contradiction
  obtain ⟨chksum, computed⟩ := Option.isSome_iff_exists.mp
    ((Checksum.crc16Inet_isSome ip.target 0 _).mpr readable)
  refine ⟨Checksum.nativeStore ip.target (~~~chksum), ?_⟩
  simp only [ipOutputNetif, room, ← next_eq, ← header_eq]
  change (crc16Inet ip.target 0 _ (header 0)).bind _ = _
  rw [computed]
  rfl

/-- Send an IP packet, if there is a route to its destination. -/
def ipOutput (ip : Ip) (p : Buf) (dest : IpAddr) (src : Option IpAddr) (proto : UChar) :
    Option Ip :=
  match ip.routeLookup dest with
  | none => some ip
  | some (netif, gateway, netifIpaddr) =>
    ip.ipOutputNetif p dest src proto (some gateway) netif netifIpaddr

end Ip
end Uos
