import Uos.Net.Tcp.Timer

/-!
# The TCP calls of the user

The functions of `net/tcp-user.c`.  They give up their lock while they wait, and between a part
under the lock of the socket and one under that of the stack: each part is a function of its own,
and `Pending` says which one comes next.
-/

namespace Uos

/-- `TCP_LOCAL_PORT_RANGE_START` -/
def tcpLocalPortRangeStart : UShort := 4096

/-- `TCP_LOCAL_PORT_RANGE_END` -/
def tcpLocalPortRangeEnd : UShort := 0x7fff

/-- What `tcp_abort` saves of a socket for the reset. -/
structure ResetFields where
  seqno : ULong
  ackno : ULong
  localIp : IpAddr
  remoteIp : IpAddr
  localPort : UShort
  remotePort : UShort

/-- The part of a call that comes next. -/
inductive Pending
  | connectWait (s : SocketId)
  | writeWait (s : SocketId) (data : List UChar)
  | writeOutput (s : SocketId)
  | readWait (s : SocketId) (nonblock : Bool)
  | readAck (s : SocketId)
  | acceptWait (s : SocketId)
  | acceptCreate (s : SocketId) (p : TcpReceived)
  | closeRemove (s : SocketId)
  | closeEnqueue (s : SocketId)
  | closeOutput (s : SocketId)
  | closeWait (s : SocketId)
  | closeTimeWait (s : SocketId)
  | abortTimeWait (s : SocketId)
  | abortRemove (s : SocketId) (fields : ResetFields)

def Pending.socket : Pending → SocketId
  | connectWait s | writeWait s _ | writeOutput s | readWait s _ | readAck s | acceptWait s
  | acceptCreate s _ | closeRemove s | closeEnqueue s | closeOutput s | closeWait s
  | closeTimeWait s | abortTimeWait s | abortRemove s _ => s

namespace TcpSocket

/-- A socket as `tcp_alloc` leaves it. -/
def allocated (iss ticks : ULong) : TcpSocket where
  sndBuf := tcpSndBuf
  sndQueuelen := 0
  rcvWnd := tcpWnd
  mss := tcpMss
  rto := 6
  sa := 0
  sv := 6
  rtime := 0
  cwnd := 1
  sndWl2 := iss
  sndNxt := iss
  sndMax := iss
  lastack := iss
  sndLbb := iss
  tmr := ticks

/-- `tcp_queue_free` -/
def queueFree (socket : TcpSocket) : TcpSocket :=
  { socket with queue := [] }

def isOpen (socket : TcpSocket) : Bool :=
  socket.state = .synSent || socket.state = .synRcvd || socket.state = .established

/-- What `tcp_connect` makes of a new socket. -/
def connecting (remoteIp : IpAddr) (remotePort localPort : UShort) (socket : TcpSocket) :
    TcpSocket :=
  { socket with
    remoteIp
    remotePort
    localPort
    lastack := socket.sndNxt - 1
    sndLbb := socket.sndNxt - 1
    sndWnd := tcpWnd.setWidth 32
    ssthresh := socket.mss * 10
    state := .synSent }

/-- What `tcp_accept` makes of a new socket, for a connection request with the header `h` and the
sequence number `seqno`. -/
def accepting (h : TcpHdr) (localPort : UShort) (seqno : ULong) (socket : TcpSocket) : TcpSocket :=
  { socket with
    localIp := h.destIp
    localPort
    remoteIp := h.srcIp
    remotePort := h.src
    state := .synRcvd
    rcvNxt := seqno + 1
    sndWnd := h.wnd.setWidth 32
    ssthresh := h.wnd
    sndWl1 := seqno
    history := { socket.history with synchronised := some (seqno + 1) } }

end TcpSocket

namespace Ip

/-- `mem_alloc`, for a socket: its address is new. -/
def allocSocket (ip : Ip) : Option SocketId × Ip :=
  let (allocated, ip) := ip.alloc
  if allocated then
    (some ip.tcpFresh,
      { ip with
        tcpFresh := ip.tcpFresh + 1
        tcpAlive := Function.update ip.tcpAlive ip.tcpFresh true
        tcpSocket := Function.update ip.tcpSocket ip.tcpFresh {} })
  else (none, ip)

/-- `mem_free`, for a socket. -/
def freeSocket (ip : Ip) (s : SocketId) : Ip :=
  { ip with tcpAlive := Function.update ip.tcpAlive s false }

/-- `tcp_next_seqno` -/
def tcpNextSeqno (ip : Ip) : Ip :=
  { ip with tcpSeqno := ip.tcpSeqno + ip.tcpTicks + 1 }

/-- Create a new socket, but do not place it on any of the lists. -/
def tcpAlloc (ip : Ip) : Option SocketId × Ip :=
  match ip.allocSocket with
  | (none, ip) => (none, ip)
  | (some s, ip) =>
    let ip := ip.tcpNextSeqno
    (some s, ip.setTcp s (TcpSocket.allocated ip.tcpSeqno ip.tcpTicks))

/-- A loop over a list of sockets: whether one of them has a property. -/
def anySocket (ip : Ip) (found : TcpSocket → Bool) : Nat → Option SocketId → Option Bool
  | 0, _ => none
  | _ + 1, none => some false
  | turns + 1, some s =>
    if found (ip.tcpSocket s) then some true else ip.anySocket found turns (ip.tcpNext s)

def orElseAny (ip : Ip) (found : TcpSocket → Bool) (turns : Nat) (first : Option SocketId)
    (before : Option Bool) : Option Bool :=
  before.bind fun yes => if yes then some true else ip.anySocket found turns first

/-- Whether a local port is used by a socket in one of the lists. -/
def portInUse (turns : Nat) (ip : Ip) (port : UShort) : Option Bool :=
  let found (socket : TcpSocket) : Bool := socket.localPort = port
  ip.anySocket found turns ip.tcpSockets
    |> ip.orElseAny found turns ip.tcpClosingSockets
    |> ip.orElseAny found turns ip.tcpListenSockets

/-- The loop of `tcp_new_port`. -/
def newPortLoop (bound : Nat) (ip : Ip) : Nat → UShort → Option UShort
  | 0, _ => none
  | turns + 1, last => do
    let port := if tcpLocalPortRangeEnd < last + 1 then tcpLocalPortRangeStart else last + 1
    let inUse ← portInUse bound ip port
    if inUse then newPortLoop bound ip turns port else some port

def tcpNewPort (turns : Nat) (ip : Ip) : Option (UShort × Ip) := do
  let port ← newPortLoop turns ip turns ip.tcpPort
  some (port, { ip with tcpPort := port })

def mssOption (mss : UShort) : List UChar :=
  [2, 4, UShort.high mss, UShort.low mss]

/-- Send the SYN of a new socket.  The socket is freed if there is no memory for it. -/
def connectOutput (ip : Ip) (s : SocketId) : Option (Ip × Option Pending) := do
  let (ip, enqueued) ← ip.tcpEnqueue s [] TcpFlags.syn (mssOption (ip.tcpSocket s).mss)
  if enqueued then do
    let ip ← (ip.tcpListAdd .active s).tcpOutput s
    some (ip, some (.connectWait s))
  else some (ip.freeSocket s, none)

/-- Connect to another host.  The new socket is used even if it could not be allocated. -/
def tcpConnect (turns : Nat) (ip : Ip) (ipaddr : IpAddr) (port : UShort) :
    Option (Ip × Option Pending) := do
  let (s, ip) := ip.tcpAlloc
  let s ← s
  let (localPort, ip) ← tcpNewPort turns ip
  (ip.updateTcp s (TcpSocket.connecting ipaddr port localPort)).connectOutput s

def connectWait (ip : Ip) (s : SocketId) : Ip × Option Pending :=
  let socket := ip.tcpSocket s
  if socket.state = .established then (ip, none)
  else if socket.state = .closed then (ip.freeSocket s, none)
  else (ip, some (.connectWait s))

def writeEnqueue (ip : Ip) (s : SocketId) (data : List UChar) : Option (Ip × Option Pending) :=
  if !(ip.tcpSocket s).isOpen then some (ip, none)
  else do
    let (ip, enqueued) ← ip.tcpEnqueue s data 0 []
    some (ip, some (if enqueued then .writeOutput s else .writeWait s data))

/-- `tcp_write` -/
def tcpWrite (ip : Ip) (s : SocketId) (data : List UChar) : Option (Ip × Option Pending) :=
  if data = [] then some (ip, none) else ip.writeEnqueue s data

def tcpReadPoll (ip : Ip) (s : SocketId) (nonblock : Bool) : Ip × Option Pending :=
  match (ip.tcpSocket s).queueGet with
  | none =>
    if !(ip.tcpSocket s).isOpen || nonblock then (ip, none)
    else (ip, some (.readWait s nonblock))
  | some (_, socket) => (ip.setTcp s socket, some (.readAck s))

def readAck (ip : Ip) (s : SocketId) : Option Ip :=
  let socket := ip.tcpSocket s
  if !socket.ackDelay && !socket.ackNow then ip.tcpAck s else some ip

/-- Whether a socket uses a local port for the same address. -/
def sharesPort (ipaddr : IpAddr) (port : UShort) (socket : TcpSocket) : Bool :=
  socket.localPort = port &&
    (socket.localIp = .any || ipaddr = .any || socket.localIp = ipaddr)

def addressInUse (turns : Nat) (ip : Ip) (ipaddr : IpAddr) (port : UShort) : Option Bool :=
  ip.anySocket (sharesPort ipaddr port) turns ip.tcpListenSockets
    |> ip.orElseAny (sharesPort ipaddr port) turns ip.tcpSockets

def choosePort (turns : Nat) (ip : Ip) (port : UShort) : Option (UShort × Ip) :=
  if port = 0 then tcpNewPort turns ip else some (port, ip)

/-- What `tcp_listen` makes of a new socket. -/
def listening (ipaddr : IpAddr) (port : UShort) : TcpSocket where
  localIp := ipaddr
  localPort := port
  state := .listen

def tcpListen (turns : Nat) (ip : Ip) (ipaddr : IpAddr) (port : UShort) : Option Ip :=
  match ip.allocSocket with
  | (none, ip) => some ip
  | (some s, ip) => do
    let (port, ip) ← choosePort turns ip port
    let inUse ← addressInUse turns ip ipaddr port
    if inUse then some (ip.freeSocket s)
    else some ((ip.setTcp s (listening ipaddr port)).tcpListAdd .listening s)

def acceptWait (ip : Ip) (s : SocketId) : Ip × Option Pending :=
  if (ip.tcpSocket s).state ≠ .listen then (ip, none)
  else
    match (ip.tcpSocket s).queueGet with
    | none => (ip, some (.acceptWait s))
    | some (p, socket) => (ip.setTcp s socket, some (.acceptCreate s p))

/-- Create a socket for a connection request and send a SYN and ACK, if there is memory. -/
def acceptCreate (turns : Nat) (ip : Ip) (s : SocketId) (p : TcpReceived) :
    Option (Ip × Option Pending) :=
  match ip.tcpAlloc with
  | (none, ip) => some (ip, some (.acceptWait s))
  | (some ns, ip) => do
    let h ← p.header
    let accepting :=
      TcpSocket.accepting h (ip.tcpSocket s).localPort ip.tcpInputSeqno
    let ip ← tcpParseopt turns ((ip.updateTcp ns accepting).tcpListAdd .active ns) ns h
    let (ip, _) ← ip.tcpEnqueue ns [] (TcpFlags.syn ||| TcpFlags.ack)
      (mssOption (ip.tcpSocket ns).mss)
    let ip ← ip.tcpOutput ns
    some (ip, none)

/-- Enqueue a FIN, or wait.  The state is not looked at again after waiting. -/
def closeEnqueue (ip : Ip) (s : SocketId) : Option (Ip × Option Pending) := do
  let (ip, enqueued) ← ip.tcpEnqueue s [] TcpFlags.fin []
  if enqueued then
    let next := if (ip.tcpSocket s).state = .closeWait then .lastAck else .finWait1
    some (ip.updateTcp s fun socket => { socket with state := next }, some (.closeOutput s))
  else some (ip, some (.closeEnqueue s))

def tcpClose (ip : Ip) (s : SocketId) : Option (Ip × Option Pending) :=
  match (ip.tcpSocket s).state with
  | .listen | .synSent => some (ip.updateTcp s TcpSocket.queueFree, some (.closeRemove s))
  | .synRcvd | .established | .closeWait => ip.closeEnqueue s
  | _ => some (ip.updateTcp s TcpSocket.queueFree, none)

def closeRemove (turns : Nat) (ip : Ip) (s : SocketId) : Option Ip :=
  tcpSocketRemove turns ip (if (ip.tcpSocket s).state = .listen then .listening else .active) s

def closeOutput (ip : Ip) (s : SocketId) : Option Ip :=
  let socket := ip.tcpSocket s
  if !socket.unsent.isEmpty || socket.ackNow then ip.tcpOutput s else some ip

def closeWait (ip : Ip) (s : SocketId) : Ip × Option Pending :=
  let socket := ip.tcpSocket s
  if socket.state = .closed then (ip, none)
  else if socket.state = .timeWait && socket.unsent.isEmpty then
    (ip.updateTcp s TcpSocket.queueFree, some (.closeTimeWait s))
  else (ip, some (.closeWait s))

def tcpAbort (ip : Ip) (s : SocketId) : Ip × Option Pending :=
  let socket := ip.tcpSocket s
  (ip.updateTcp s TcpSocket.queueFree,
    some (if socket.state = .timeWait then .abortTimeWait s
      else .abortRemove s
        { seqno := socket.sndNxt
          ackno := socket.rcvNxt
          localIp := socket.localIp
          remoteIp := socket.remoteIp
          localPort := socket.localPort
          remotePort := socket.remotePort }))

def abortRemove (turns : Nat) (ip : Ip) (s : SocketId) (fields : ResetFields) : Option Ip := do
  let ip ← tcpSocketRemove turns ip .active s
  ip.tcpRst fields.seqno fields.ackno fields.localIp fields.remoteIp fields.localPort
    fields.remotePort

def resume (turns : Nat) (ip : Ip) : Pending → Option (Ip × Option Pending)
  | .connectWait s => some (ip.connectWait s)
  | .writeWait s data => ip.writeEnqueue s data
  | .writeOutput s => (ip.tcpOutput s).map (·, none)
  | .readWait s nonblock => some (ip.tcpReadPoll s nonblock)
  | .readAck s => (ip.readAck s).map (·, none)
  | .acceptWait s => some (ip.acceptWait s)
  | .acceptCreate s p => acceptCreate turns ip s p
  | .closeRemove s => (closeRemove turns ip s).map (·, none)
  | .closeEnqueue s => ip.closeEnqueue s
  | .closeOutput s => (ip.closeOutput s).map (·, some (.closeWait s))
  | .closeWait s => some (ip.closeWait s)
  | .closeTimeWait s => (tcpSocketRemove turns ip .closing s).map (·, none)
  | .abortTimeWait s => (tcpSocketRemove turns ip .closing s).map (·, none)
  | .abortRemove s fields => (abortRemove turns ip s fields).map (·, none)

end Ip
end Uos
