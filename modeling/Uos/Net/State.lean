import Mathlib.Logic.Function.Basic
import Uos.Net.Checksum

/-!
# The data of the network stack

The records of `net/ip.h`, `net/route.h`, `net/udp.h`, `net/tcp.h` and `buf/buf.h`, without the
statistics.  The sockets of TCP hang on three intrusive lists, so that their `next` pointers are
kept as they are; every other list has one owner and is a list here.
-/

namespace Uos

/-- A `netif_t *`. -/
abbrev NetifId := Nat

/-- A `tcp_socket_t *`. -/
abbrev SocketId := Nat

/-- A `udp_socket_t *`. -/
abbrev UdpSocketId := Nat

/-- A chain of buffers, `buf_t *`. -/
structure Buf where
  /-- Free bytes in front of the payload. -/
  room : Nat := 0
  /-- Total length of the chain, kept in its first buffer. -/
  totLen : UShort
  /-- The buffers of the chain; an `unsigned short` holds the length of each. -/
  chunks : List Chunk
  deriving DecidableEq

/-- `route_t`. -/
structure Route where
  netif : Option NetifId
  ipaddr : IpAddr
  broadcast : IpAddr
  netaddr : IpAddr
  gateway : IpAddr
  gwifaddr : IpAddr
  masklen : UChar
  deriving DecidableEq

/-- A packet given to `netif_output`, with the address of the next hop and that of the sender. -/
structure Transmission where
  netif : NetifId
  packet : Buf
  ipdest : IpAddr
  ipsrc : IpAddr
  deriving DecidableEq

/-- An entry of the queue of a UDP socket. -/
structure UdpReceived where
  buf : Buf
  addr : IpAddr
  port : UShort
  deriving DecidableEq

/-- `udp_socket_t`. -/
structure UdpSocket where
  peerIp : IpAddr := .any
  peerPort : UShort := 0
  localPort : UShort := 0
  netif : Option NetifId := none
  localIp : IpAddr := .any
  gateway : IpAddr := .any
  queue : List UdpReceived := []

/-- `tcp_state_t`. -/
inductive TcpState
  | closed
  | listen
  | synSent
  | synRcvd
  | established
  | finWait1
  | finWait2
  | closeWait
  | closing
  | lastAck
  | timeWait
  deriving DecidableEq

abbrev TcpFlags := UChar

namespace TcpFlags

def fin : TcpFlags := 0x01
def syn : TcpFlags := 0x02
def rst : TcpFlags := 0x04
def psh : TcpFlags := 0x08
def ack : TcpFlags := 0x10

/-- `flags & mask`, as a truth value. -/
def has (flags mask : TcpFlags) : Bool :=
  flags &&& mask ≠ 0

end TcpFlags

/-- A received TCP header in host byte order, with the addresses of the IP header before it. -/
structure TcpHdr where
  srcIp : IpAddr
  destIp : IpAddr
  src : UShort
  dest : UShort
  seqno : ULong
  ackno : ULong
  offset : UChar
  flags : TcpFlags
  wnd : UShort
  /-- The memory behind the fixed part of the header. -/
  opts : Nat → UChar := fun _ => 0

/-- A buffer in the receive queue of a TCP socket; that of a connection request begins with its
header. -/
structure TcpReceived where
  header : Option TcpHdr
  buf : Buf

/-- `tcp_segment_t` and the header in its buffer. -/
structure TcpSegment where
  src : UShort
  dest : UShort
  /-- The sequence number, in host byte order. -/
  seqno : ULong
  flags : TcpFlags
  options : List UChar
  /-- The TCP length of this segment. -/
  len : UShort
  /-- The data in each of its buffers; headers and options are in front of the first one. -/
  chunks : List Chunk

/-- What an observer remembers of a TCP socket. -/
structure TcpHistory where
  /-- The bytes accepted by `tcp_write`. -/
  written : List UChar := []
  /-- The bytes ever put into the receive queue. -/
  queued : List UChar := []
  /-- The value that `rcv_nxt` got from the first segment of the peer. -/
  synchronised : Option ULong := none
  /-- Whether the state ESTABLISHED was reached. -/
  opened : Bool := false
  /-- Whether `tcp_socket_purge` was called. -/
  purged : Bool := false

/-- `tcp_socket_t`, without its `next` pointer. -/
structure TcpSocket where
  localIp : IpAddr := .any
  localPort : UShort := 0
  state : TcpState := .closed
  /-- Queue of received packets. -/
  queue : List TcpReceived := []
  remoteIp : IpAddr := .any
  remotePort : UShort := 0
  /-- Next sequence number expected. -/
  rcvNxt : ULong := 0
  /-- Receiver window. -/
  rcvWnd : UShort := 0
  tmr : ULong := 0
  /-- Retransmission timer. -/
  rtime : UShort := 0
  /-- Maximum segment size. -/
  mss : UShort := 0
  /-- `TF_ACK_DELAY` -/
  ackDelay : Bool := false
  /-- `TF_ACK_NOW` -/
  ackNow : Bool := false
  /-- `TF_INFR` -/
  inFastRecovery : Bool := false
  /-- RTT estimate in ticks. -/
  rttest : UShort := 0
  /-- Sequence number being timed. -/
  rtseq : ULong := 0
  sa : UShort := 0
  sv : UShort := 0
  /-- Retransmission time-out. -/
  rto : UShort := 0
  /-- Number of retransmissions. -/
  nrtx : UChar := 0
  /-- Highest acknowledged sequence number. -/
  lastack : ULong := 0
  dupacks : UChar := 0
  cwnd : UShort := 0
  ssthresh : UShort := 0
  /-- Next sequence number to be sent. -/
  sndNxt : ULong := 0
  /-- Highest sequence number sent. -/
  sndMax : ULong := 0
  /-- Sender window. -/
  sndWnd : ULong := 0
  sndWl1 : ULong := 0
  sndWl2 : ULong := 0
  /-- Sequence number of next byte to be buffered. -/
  sndLbb : ULong := 0
  acked : UShort := 0
  /-- Available bytes for sending. -/
  sndBuf : UShort := 0
  /-- Number of buffers in the two lists of segments. -/
  sndQueuelen : UChar := 0
  /-- Unsent segments. -/
  unsent : List TcpSegment := []
  /-- Sent but unacknowledged segments. -/
  unacked : List TcpSegment := []
  history : TcpHistory := {}

/-- `ip_t`, with the memory its pointers lead to. -/
structure Ip where
  /-- The machine. -/
  target : Target
  /-- The value of `0xfffffffful >> masklen` on this machine for 32 bits and more, which C leaves
  undefined. -/
  wideShift : UChar → ULong
  /-- Routing table. -/
  route : List Route := []
  /-- Forwarding enabled. -/
  forwarding : Bool := false
  defaultTtl : UChar := 64
  tos : UChar := 0
  /-- Output packet number, of which 16 bits are sent. -/
  id : UShort := 0
  udpSocket : UdpSocketId → UdpSocket := fun _ => {}
  udpSockets : List UdpSocketId := []
  tcpSocket : SocketId → TcpSocket := fun _ => {}
  /-- The `next` pointers of the TCP sockets. -/
  tcpNext : SocketId → Option SocketId := fun _ => none
  /-- LISTEN state. -/
  tcpListenSockets : Option SocketId := none
  /-- Active sockets. -/
  tcpSockets : Option SocketId := none
  /-- TIME-WAIT state. -/
  tcpClosingSockets : Option SocketId := none
  tcpTicks : ULong := 0
  /-- Local port number to allocate. -/
  tcpPort : UShort := 4096
  /-- Initial sequence number for new TCP connections. -/
  tcpSeqno : ULong := 6510
  tcpInputSocket : Option SocketId := none
  tcpInputLen : UShort := 0
  tcpInputFlags : TcpFlags := 0
  tcpInputSeqno : ULong := 0
  tcpInputAckno : ULong := 0
  /-- The sockets that were allocated and not freed. -/
  tcpAlive : SocketId → Bool := fun _ => false
  /-- The address of the next socket to be allocated. -/
  tcpFresh : SocketId := 0
  /-- The answers of the memory allocator, until it has no more memory. -/
  memory : List Bool := []
  /-- The packets given to `netif_output`. -/
  sent : List Transmission := []
  /-- The TCP segments that passed the checks of `tcp_input`. -/
  arrived : List TcpHdr := []

namespace Ip

def setTcp (ip : Ip) (s : SocketId) (record : TcpSocket) : Ip :=
  { ip with tcpSocket := Function.update ip.tcpSocket s record }

def alloc (ip : Ip) : Bool × Ip :=
  (ip.memory.headD false, { ip with memory := ip.memory.tail })

end Ip
end Uos
