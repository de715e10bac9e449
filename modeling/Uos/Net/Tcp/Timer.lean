import Uos.Net.Tcp.Input

/-!
# The TCP timers

`tcp_slowtmr` and `tcp_fasttmr` of `net/tcp.c`.  A loop along `next` pointers takes a bound on its
number of turns.
-/

namespace Uos

/-- `TCP_MAXRTX` -/
def tcpMaxrtx : UChar := 12

/-- `TCP_SYNMAXRTX` -/
def tcpSynmaxrtx : UChar := 6

/-- `TCP_STUCK_TIMEOUT / TCP_SLOW_INTERVAL` -/
def tcpStuckTicks : ULong := 10

/-- `2 * TCP_MSL / TCP_SLOW_INTERVAL` -/
def tcpMslTicks : ULong := 240

/-- `tcp_backoff`, which is not read behind its end unless a fast retransmission has made `nrtx`
jump over its limit. -/
def tcpBackoff (nrtx : UChar) : Nat :=
  [1, 2, 3, 4, 5, 6, 7, 7, 7, 7, 7, 7, 7].getD nrtx.toNat 0

namespace TcpSocket

def gaveUp (socket : TcpSocket) : Bool :=
  socket.state = .synSent && socket.nrtx = tcpSynmaxrtx || socket.nrtx = tcpMaxrtx

/-- Double the retransmission time-out, unless the socket is trying to connect to somebody. -/
def backOff (socket : TcpSocket) : TcpSocket :=
  if socket.state ≠ .synSent then
    { socket with rto := (socket.roundTrip <<< tcpBackoff socket.nrtx).setWidth 16 }
  else socket

def slowDown (socket : TcpSocket) : TcpSocket :=
  let effWnd :=
    if socket.cwnd.setWidth 32 < socket.sndWnd then socket.cwnd.setWidth 32 else socket.sndWnd
  let ssthresh : UShort := (effWnd >>> 1).setWidth 16
  { socket with
    ssthresh := if ssthresh < socket.mss then socket.mss * 2 else ssthresh
    cwnd := socket.mss }

def tick (socket : TcpSocket) : TcpSocket :=
  { socket with rtime := socket.rtime + 1 }

/-- Whether the state is one that ends in TIME-WAIT when nothing arrives any more. -/
def isClosing (socket : TcpSocket) : Bool :=
  socket.state = .finWait1 || socket.state = .finWait2 || socket.state = .closing

end TcpSocket

namespace Ip

def stayed (ip : Ip) (socket : TcpSocket) (limit : ULong) : Bool :=
  limit < ip.tcpTicks - socket.tmr

def retransmit (ip : Ip) (s : SocketId) : Option Ip := do
  let ip ← (ip.updateTcp s TcpSocket.backOff).tcpRexmit s
  some (ip.updateTcp s TcpSocket.slowDown)

def retry (ip : Ip) (s : SocketId) : Option Ip :=
  let ip := ip.updateTcp s TcpSocket.tick
  let socket := ip.tcpSocket s
  if socket.unacked ≠ [] ∧ socket.rto ≤ socket.rtime then ip.retransmit s else some ip

def retryOrGiveUp (ip : Ip) (s : SocketId) : Option Ip :=
  if (ip.tcpSocket s).gaveUp then some ip else ip.retry s

/-- A socket that has stayed too long in a transitional state.  Returns also whether it should be
removed. -/
def checkStuck (turns : Nat) (ip : Ip) (s : SocketId) (remove : Bool) : Option (Ip × Bool) :=
  let socket := ip.tcpSocket s
  if ip.stayed socket tcpStuckTicks then
    if socket.state = .synRcvd then some (ip, true)
    else if socket.isClosing then (moveToClosing turns ip s).map (·, remove)
    else some (ip, remove)
  else some (ip, remove)

/-- Take a socket out of a list that is walked, given the one that was passed before it. -/
def unlinkBehind (ip : Ip) (list : TcpList) (prev : Option SocketId) (s : SocketId) : Option Ip :=
  match prev with
  | some prev =>
    if ip.head list = some s then none else some (ip.setNext prev (ip.tcpNext s))
  | none => if ip.head list = some s then some (ip.setHead list (ip.tcpNext s)) else none

/-- Remove a socket in the walk along the active list, if it should be.  Returns also the socket
that the next one is behind. -/
def slowRemove (ip : Ip) (prev : Option SocketId) (s : SocketId) (remove : Bool) :
    Option (Ip × Option SocketId) :=
  if remove then
    (((ip.tcpSocketPurge s).tcpSetSocketState s .closed).unlinkBehind .active prev s).map (·, prev)
  else some (ip, some s)

/-- The walk along the active sockets.  Returns also the sockets that were processed. -/
def slowLoop (bound : Nat) : Nat → Ip → Option SocketId → Option SocketId →
    Option (Ip × List SocketId)
  | 0, _, _, _ => none
  | _ + 1, ip, _, none => some (ip, [])
  | turns + 1, ip, prev, some s =>
    if !isActive (ip.tcpSocket s) then none
    else do
      let remove := (ip.tcpSocket s).gaveUp
      let ip ← ip.retryOrGiveUp s
      let (ip, remove) ← checkStuck bound ip s remove
      let (ip, prev) ← ip.slowRemove prev s remove
      let (ip, processed) ← slowLoop bound turns ip prev (ip.tcpNext s)
      some (ip, s :: processed)

/-- Remove a socket that has stayed long enough in TIME-WAIT state.  Its state is not changed.
Returns also the socket that the next one is behind. -/
def expire (ip : Ip) (prev : Option SocketId) (s : SocketId) : Option (Ip × Option SocketId) :=
  if ip.stayed (ip.tcpSocket s) tcpMslTicks then
    ((ip.tcpSocketPurge s).unlinkBehind .closing prev s).map (·, prev)
  else some (ip, some s)

def closingLoop : Nat → Ip → Option SocketId → Option SocketId → Option Ip
  | 0, _, _, _ => none
  | _ + 1, ip, _, none => some ip
  | turns + 1, ip, prev, some s =>
    if (ip.tcpSocket s).state ≠ .timeWait then none
    else do
      let (ip, prev) ← ip.expire prev s
      closingLoop turns ip prev (ip.tcpNext s)

/-- Called every 500 ms and implements the retransmission timer and the timer that removes sockets
that have been in TIME-WAIT for enough time.  Returns also the active sockets that were
processed. -/
def tcpSlowtmr (turns : Nat) (ip : Ip) : Option (Ip × List SocketId) := do
  let ip := { ip with tcpTicks := ip.tcpTicks + 1 }
  let (ip, processed) ← slowLoop turns turns ip none ip.tcpSockets
  let ip ← closingLoop turns ip none ip.tcpClosingSockets
  some (ip, processed)

def sendDelayed (ip : Ip) (s : SocketId) : Option Ip :=
  if (ip.tcpSocket s).ackDelay then do
    let ip ← ip.tcpAckNow s
    some (ip.updateTcp s clearAck)
  else some ip

/-- The walk of `tcp_fasttmr`. -/
def fastLoop : Nat → Ip → Option SocketId → Option Ip
  | 0, _, _ => none
  | _ + 1, ip, none => some ip
  | turns + 1, ip, some s => do
    let ip ← ip.sendDelayed s
    fastLoop turns ip (ip.tcpNext s)

def tcpFasttmr (turns : Nat) (ip : Ip) : Option Ip :=
  fastLoop turns ip ip.tcpSockets

end Ip
end Uos
