import Uos.Library.Traced
import Uos.Net.Tcp.Input
import Uos.Net.Udp

/-!
# Receiving packets

The functions of `net/arp.c`, `net/ip.c`, `net/icmp.c`, `net/udp.c` and `net/tcp-in.c` that take a
received packet apart, with a trace of what they do to its buffer.  A driver delivers a packet in a
single buffer, so that `len` and `tot_len` are one number here.  The table of addresses that
`arp_input` fills is left out.
-/

namespace Uos

/-- A received packet: offsets count from the end of the record of the buffer. -/
structure Packet where
  memory : Nat → UChar
  /-- Whether the memory begins at an odd address. -/
  odd : Bool := false
  payload : Nat
  len : UShort

/-- What happens to the buffer of a packet, and to a buffer allocated for an ICMP message. -/
inductive PacketEvent
  /-- A field is read in front of the end of the packet, or behind it. -/
  | read (first size limit : Nat)
  /-- `buf_add_header` strips a header off. -/
  | strip (size : Nat) (len : UShort)
  | free
  /-- The buffer is put into the receive queue of a socket. -/
  | queue
  /-- The buffer is given to an interface. -/
  | output
  | icmpAlloc
  | icmpFree
  | icmpOutput
  deriving DecidableEq

abbrev Handling := Traced PacketEvent

namespace Packet

def limit (p : Packet) : Nat :=
  p.payload + p.len.toNat

def byte (p : Packet) (offset : Nat) : UChar :=
  p.memory (p.payload + offset)

def bytes (p : Packet) (offset size : Nat) : List UChar :=
  (List.range size).map fun i => p.byte (offset + i)

def short (p : Packet) (offset : Nat) : UShort :=
  .ofBytes (p.byte offset) (p.byte (offset + 1))

def long (p : Packet) (offset : Nat) : ULong :=
  p.byte offset ++ p.byte (offset + 1) ++ p.byte (offset + 2) ++ p.byte (offset + 3)

def ipAddr (p : Packet) (offset : Nat) : IpAddr :=
  #v[p.byte offset, p.byte (offset + 1), p.byte (offset + 2), p.byte (offset + 3)]

def write (p : Packet) (offset : Nat) (bytes : List UChar) : Packet :=
  { p with
    memory := fun i =>
      if p.payload + offset ≤ i then bytes.getD (i - (p.payload + offset)) (p.memory i)
      else p.memory i }

def oddPayload (p : Packet) : Bool :=
  p.odd ^^ (p.payload % 2 = 1)

def chunk (p : Packet) : Chunk where
  odd := p.oddPayload
  bytes := p.bytes 0 p.len.toNat

def buf (p : Packet) : Buf where
  room := p.payload
  totLen := p.len
  chunks := [p.chunk]

/-- `buf_add_header`, with a negative size. -/
def strip (p : Packet) (size : Nat) : Packet :=
  { p with payload := p.payload + size, len := p.len - .ofNat 16 size }

/-- `buf_add_header`, with a positive size. -/
def addHeader (p : Packet) (size : Nat) : Packet :=
  if p.payload < size then p
  else { p with payload := p.payload - size, len := p.len + .ofNat 16 size }

/-- `buf_truncate` -/
def truncate (p : Packet) (size : UShort) : Packet :=
  if p.len ≤ size then p else { p with len := size }

def read (p : Packet) (offset size : Nat) : Handling Unit :=
  .emit (.read (p.payload + offset) size p.limit)

def readBehind (p : Packet) (iph : Packet) (offset size : Nat) : Handling Unit :=
  .emit (.read (iph.payload + offset) size p.limit)

/-- `buf_add_header`, to strip a header off. -/
def stripHeader (p : Packet) (size : Nat) : Handling Packet := do
  .emit (.strip size p.len)
  return p.strip size

def tcpHdr (p iph : Packet) : TcpHdr where
  srcIp := iph.ipAddr 12
  destIp := iph.ipAddr 16
  src := p.short 0
  dest := p.short 2
  seqno := p.long 4
  ackno := p.long 8
  offset := p.byte 12
  flags := p.byte 13
  wnd := p.short 14
  opts i := p.byte (20 + i)

end Packet

/-- `PROTO_IP` -/
def protoIp : UShort := 0x0800

/-- `PROTO_ARP` -/
def protoArp : UShort := 0x0806

/-- `UDP_SOCKET_QUEUE_SIZE` -/
def udpSocketQueueSize : Nat := 8

/-- `CRC16_INET_GOOD` -/
def crc16InetGood : UShort := 0xffff

/-- What `arp_input` makes of a packet. -/
inductive ArpResult
  | dropped
  /-- The reply to a request, given to the driver. -/
  | reply (p : Packet)
  /-- An IP packet without its Ethernet header. -/
  | ip (p : Packet)

namespace Ip

/-- Process ARP requests.  For IP packets, strip off the Ethernet header. -/
def arpInput (ip : Ip) (netif : NetifId) (ethaddr : List UChar) (p : Packet) :
    Handling ArpResult := do
  p.read 12 2
  if p.short 12 = protoIp then
    p.read 0 1
    if p.byte 0 ≠ 255 then
      p.read 26 4
      p.read 6 6
    let p ← p.stripHeader 14
    return .ip p
  else if p.short 12 = protoArp then
    if p.len.toNat < 42 then
      .emit .free
      return .dropped
    else
      let p := p.truncate 42
      p.read 20 2
      if p.short 20 = 1 then
        p.read 28 4
        p.read 38 4
        let ipaddr := ip.routeLookupIpaddr (p.ipAddr 28) netif
        if ipaddr ≠ some (p.ipAddr 38) then
          .emit .free
          return .dropped
        else
          let own := p.bytes 38 4
          p.read 22 6
          let p := p.write 20 [0, 2]
          let p := p.write 38 (p.bytes 28 4)
          let p := p.write 28 own
          let p := p.write 32 (p.bytes 22 6)
          let p := p.write 22 ethaddr
          let p := p.write 0 (p.bytes 32 6)
          let p := p.write 6 ethaddr
          .emit .output
          return .reply p
      else if p.short 20 = 2 then
        p.read 28 4
        p.read 22 6
        .emit .free
        return .dropped
      else
        .emit .free
        return .dropped
  else
    .emit .free
    return .dropped

/-- An ICMP message about a packet, which is freed before its source address is read.  The message
begins with bytes that are not initialised, zero here. -/
def icmpError (ip : Ip) (p : Packet) (_type _code : UChar) : Handling Ip := do
  let (allocated, ip) := ip.alloc
  if !allocated then
    .emit .free
    return ip
  else
    .emit .icmpAlloc
    p.read 0 28
    .emit .free
    let message (chksum : List UChar) : List UChar :=
      List.replicate 8 0 ++ p.bytes 0 14 ++ chksum ++ p.bytes 16 12
    let sum ← .ofOption (crc16Inet ip.target 0 false (message [0, 0]))
    let chksum := Checksum.nativeStore ip.target (~~~sum)
    let q : Buf :=
      { room := 16
        totLen := 36
        chunks := [{ bytes := message [UShort.high chksum, UShort.low chksum] }] }
    p.read 12 4
    .emit (if (ip.routeLookup (p.ipAddr 12)).isSome && 20 ≤ q.room then .icmpOutput else .icmpFree)
    .ofOption (ip.ipOutput q (p.ipAddr 12) none protoIcmp)

/-- `icmp_dest_unreach`.  The type and the code are overwritten by the copy of the packet. -/
def icmpDestUnreach (ip : Ip) (p : Packet) (op : UChar) : Handling Ip :=
  ip.icmpError p 3 op

/-- `icmp_time_exceeded` -/
def icmpTimeExceeded (ip : Ip) (p : Packet) : Handling Ip :=
  ip.icmpError p 11 0

def icmpEchoRequest (ip : Ip) (p : Packet) (inp : NetifId) : Handling Ip := do
  if p.len.toNat < 28 then
    .emit .free
    return ip
  else
    let chksum ← .ofOption (bufChksum ip.target [p.chunk] 0)
    if chksum ≠ 0 then
      .emit .free
      return ip
    else
      p.read 12 8
      let src := p.ipAddr 12
      let dest := p.ipAddr 16
      let p := p.write 12 (dest.toList ++ src.toList)
      let p := p.write 20 [0]
      -- Adjust the checksum, in the byte order of the machine.
      p.read 22 2
      let old := Checksum.nativeStore ip.target (p.short 22)
      let htons := Checksum.nativeStore ip.target
      let new := if htons 0xf7ff ≤ old then old + htons 0x0800 + 1 else old + htons 0x0800
      let stored := Checksum.nativeStore ip.target new
      let p := p.write 22 [UShort.high stored, UShort.low stored]
      .emit .output
      return ip.netifOutput inp p.buf (p.ipAddr 16) (p.ipAddr 12)

def ipForward (ip : Ip) (p : Packet) (gateway : IpAddr) (netif : NetifId)
    (netifIpaddr : IpAddr) : Handling Ip := do
  p.read 8 1
  if (p.byte 8).toNat ≤ 1 then
    p.read 9 1
    -- Don't send ICMP messages in response to ICMP messages.
    if p.byte 9 ≠ protoIcmp then
      ip.icmpTimeExceeded p
    else
      return ip
  else
    let p := p.write 8 [p.byte 8 - 1]
    p.read 10 2
    let high := p.byte 10
    let low := p.byte 11
    let p := p.write 10 (if high ≠ 0xff then [high + 1, low] else if low ≠ 0xff then [0, low + 1]
      else [1, 0])
    .emit .output
    return ip.netifOutput netif p.buf gateway netifIpaddr

def protoChksum (ip : Ip) (p iph : Packet) (proto : UChar) (len : UShort) : Handling UShort := do
  p.readBehind iph 12 8
  .ofOption (bufChksum ip.target [p.chunk]
    (crc16InetHeader ip.target (iph.ipAddr 12) (iph.ipAddr 16) proto len))

def udpAccepts (socket : UdpSocket) (addr : IpAddr) (src dest : UShort) : Bool :=
  socket.localPort = dest && (socket.peerPort = 0 || socket.peerPort = src) &&
    (socket.peerIp = .any || socket.peerIp = addr)

/-- Find the socket that a packet for UDP is for, and put it into its queue if there is room. -/
def udpDeliver (ip : Ip) (p iph : Packet) : Handling (Ip × Option Packet) := do
  p.read 0 4
  p.readBehind iph 12 4
  let addr := iph.ipAddr 12
  let src := p.short 0
  match ip.udpSockets.find? fun s => udpAccepts (ip.udpSocket s) addr src (p.short 2) with
  | none => return (ip, some p)
  | some s =>
    let p ← p.stripHeader 8
    let socket := ip.udpSocket s
    if socket.queue.length = udpSocketQueueSize then
      .emit .free
      return (ip, none)
    else
      .emit .queue
      let queue := socket.queue ++ [{ buf := p.buf, addr, port := src }]
      return (ip.setUdp s { socket with queue }, none)

def udpChksum (ip : Ip) (p iph : Packet) (len : UShort) : Handling UShort :=
  if p.short 6 ≠ 0 then ip.protoChksum p iph protoUdp len else pure 0

/-- Process a packet for UDP.  It is returned if there is no socket for it. -/
def udpInput (ip : Ip) (p iph : Packet) : Handling (Ip × Option Packet) := do
  if p.len.toNat < 8 then
    .emit .free
    return (ip, none)
  else
    p.read 4 2
    let len := p.short 4
    if p.len < len then
      .emit .free
      return (ip, none)
    else
      p.read 6 2
      let chksum ← ip.udpChksum p iph len
      if chksum ≠ 0 then
        .emit .free
        return (ip, none)
      else ip.udpDeliver p iph

/-- Where `tcp_parseopt` reads the options, from a place in them on. -/
def optionReads (opts : Nat → UChar) (size : Nat) : Nat → UChar → List (Nat × Nat)
  | 0, _ => []
  | turns + 1, c =>
    if c.toNat < size then
      let opt := opts c.toNat
      if opt = 0 then [(c.toNat, 1)]
      else if opt = 1 then (c.toNat, 1) :: optionReads opts size turns (c + 1)
      else if opt = 2 ∧ opts (c.toNat + 1) = 4 then [(c.toNat, 4)]
      else if opts (c.toNat + 1) = 0 then [(c.toNat, 2)]
      else (c.toNat, 2) :: optionReads opts size turns (c + opts (c.toNat + 1))
    else []

/-- What `tcp_receive` does to the packet. -/
def receiveEvents (ip : Ip) (s : SocketId) (p : Packet) : List PacketEvent :=
  let rcvNxt := (ip.tcpSocket s).rcvNxt
  let seqno := ip.tcpInputSeqno
  if ip.tcpInputLen ≠ 0 ∧ seqLt seqno rcvNxt ∧
      seqLt rcvNxt (seqno + ip.tcpInputLen.setWidth 32) ∧ (rcvNxt - seqno).toNat ≤ 32768 then
    [.strip (rcvNxt - seqno).toNat p.len]
  else []

/-- What `tcp_process` does to the packet; `h` is its header. -/
def processEvents (turns : Nat) (ip : Ip) (s : SocketId) (h p : Packet) : List PacketEvent :=
  let socket := ip.tcpSocket s
  let flags := ip.tcpInputFlags
  if flags.has TcpFlags.rst then []
  else
    match socket.state with
    | .synSent =>
      match socket.unacked with
      | [] => []
      | first :: _ =>
        if flags.has (TcpFlags.ack ||| TcpFlags.syn) ∧ ip.tcpInputAckno = first.seqno + 1 ∧
            0x50 < h.byte 12 &&& 0xf0 then
          (optionReads (fun i => h.byte (20 + i)) (((h.byte 12).toNat / 16 - 5) * 4) turns
            0).map fun (first, size) => .read (h.payload + 20 + first) size p.limit
        else []
    | .synRcvd =>
      if flags.has TcpFlags.ack ∧ seqLt socket.lastack ip.tcpInputAckno ∧
          seqLeq ip.tcpInputAckno socket.sndNxt then
        ip.receiveEvents s p
      else []
    | .established | .finWait1 | .finWait2 | .closeWait | .closing | .lastAck =>
      ip.receiveEvents s p
    | .closed | .listen | .timeWait => []

/-- What `tcp_input` does to the packet when it has found its socket. -/
def tcpEvents (turns : Nat) (ip : Ip) (h p : Packet) (header : TcpHdr) : List PacketEvent :=
  let ip := ip.takeApart header p.len
  match findActiveSocket turns ip header with
  | some (ip, some s) => processEvents turns ip s h p
  | _ => []

/-- `tcp_input` -/
def tcpInputPacket (turns : Nat) (ip : Ip) (p iph : Packet) : Handling Ip := do
  if p.len.toNat < 20 then
    .emit .free
    return ip
  else
    p.readBehind iph 16 4
    let dest := iph.ipAddr 16
    if dest.isBroadcast || dest.isMulticast then
      .emit .free
      return ip
    else
      let chksum ← ip.protoChksum p iph protoTcp p.len
      if chksum ≠ 0 then
        .emit .free
        return ip
      else
        p.read 0 20
        let header := p.tcpHdr iph
        let h := p
        let p ← p.stripHeader ((header.offset >>> 2 &&& 0x3c).toNat)
        { events := tcpEvents turns ip h p header, result := some () }
        let (ip, queued) ← .ofOption (tcpInput turns ip header p.buf)
        .emit (if queued then .queue else .free)
        return ip

/-- The rest of `ip_input`, for a packet to this machine. -/
def ipDeliver (turns : Nat) (tcp : Bool) (ip : Ip) (p : Packet) (inp : NetifId)
    (broadcast : Bool) : Handling Ip := do
  let iph := p
  let dest := p.ipAddr 16
  let silent := broadcast || dest.isMulticast
  p.read 9 1
  let proto := p.byte 9
  if proto = protoUdp then
    let p ← p.stripHeader 20
    let (ip, returned) ← ip.udpInput p iph
    match returned with
    | none => return ip
    | some p =>
      if !silent then ip.icmpDestUnreach (p.addHeader 20) 3
      else
        .emit .free
        return ip
  else if proto = protoTcp && tcp then
    let p ← p.stripHeader 20
    tcpInputPacket turns ip p iph
  else if proto = protoIcmp then
    p.read 20 1
    if p.byte 20 = 8 && !silent then ip.icmpEchoRequest p inp
    else
      .emit .free
      return ip
  else if !silent then ip.icmpDestUnreach p 2
  else
    .emit .free
    return ip

/-- A packet that is not for this machine is routed or discarded. -/
def ipRelay (ip : Ip) (p : Packet) (inp : NetifId) : Handling Ip :=
  match if ip.forwarding then ip.routeLookup (p.ipAddr 16) else none with
  | none => do
    .emit .free
    return ip
  | some (netif, gateway, netifIpaddr) =>
    -- Don't forward packets onto the same network interface on which they arrived.
    if netif ≠ inp then ip.ipForward p gateway netif netifIpaddr
    else do
      .emit .free
      return ip

/-- Called when an IP packet is received.  The function checks the IP header.  A packet that is not
for this machine is forwarded.  Finally, the packet is sent to the upper layer protocol. -/
def ipInput (turns : Nat) (tcp : Bool) (ip : Ip) (p : Packet) (inp : NetifId) : Handling Ip := do
  p.read 0 1
  let version := p.byte 0
  let hlen := (version &&& 0x0f).toNat * 4
  if version &&& 0xf0 ≠ 0x40 then
    .emit .free
    return ip
  else if p.len.toNat < hlen then
    .emit .free
    return ip
  else
    -- A header without bytes may make the loop run through all memory.
    let sum := crc16Inet ip.target 0 p.oddPayload (p.bytes 0 hlen)
    p.read 0 (if sum.isNone then 65536 else hlen)
    let sum ← .ofOption sum
    if sum ≠ crc16InetGood then
      .emit .free
      return ip
    else
      p.read 2 2
      let p := p.truncate (p.short 2)
      p.read 16 4
      let dest := p.ipAddr 16
      let found := if dest.isBroadcast then some true else
        (ip.routeLookupSelf dest).map (·.2)
      match found with
      | none => ip.ipRelay p inp
      | some broadcast =>
        p.read 6 2
        if p.byte 7 ≠ 0 || p.byte 6 &&& 0x3f ≠ 0 then
          .emit .free
          return ip
        else if 20 < hlen then
          .emit .free
          return ip
        else ipDeliver turns tcp ip p inp broadcast

end Ip
end Uos
