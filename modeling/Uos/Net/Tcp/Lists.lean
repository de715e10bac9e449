import Uos.Net.Tcp.Output

/-!
# The lists of TCP sockets

The functions of `net/tcp.h` and `net/tcp-in.c` that change and search the three lists.  A loop
along `next` pointers takes a bound on its number of turns, and returns `none` beyond it: it may
run in a circle.
-/

namespace Uos

/-- The lists of TCP sockets. -/
inductive TcpList
  | listening
  | active
  | closing
  deriving DecidableEq

namespace Ip

def head (ip : Ip) : TcpList → Option SocketId
  | .listening => ip.tcpListenSockets
  | .active => ip.tcpSockets
  | .closing => ip.tcpClosingSockets

def setHead (ip : Ip) (list : TcpList) (first : Option SocketId) : Ip :=
  match list with
  | .listening => { ip with tcpListenSockets := first }
  | .active => { ip with tcpSockets := first }
  | .closing => { ip with tcpClosingSockets := first }

/-- Overwrite a `next` pointer. -/
def setNext (ip : Ip) (s : SocketId) (next : Option SocketId) : Ip :=
  { ip with tcpNext := Function.update ip.tcpNext s next }

def tcpListAdd (ip : Ip) (list : TcpList) (ns : SocketId) : Ip :=
  (ip.setNext ns (ip.head list)).setHead list (some ns)

/-- The loop of `tcp_list_remove`: the socket before a given one. -/
def findBefore (ip : Ip) (ns : SocketId) : Nat → Option SocketId → Option (Option SocketId)
  | 0, _ => none
  | _ + 1, none => some none
  | turns + 1, some p =>
    if ip.tcpNext p = some ns then some (some p) else ip.findBefore ns turns (ip.tcpNext p)

/-- Remove a socket from a list.  Its `next` pointer is cleared even if it is not there. -/
def tcpListRemove (turns : Nat) (ip : Ip) (list : TcpList) (ns : SocketId) : Option Ip :=
  if ip.head list = some ns then some ((ip.setHead list (ip.tcpNext ns)).setNext ns none)
  else
    match ip.findBefore ns turns (ip.head list) with
    | none => none
    | some none => some (ip.setNext ns none)
    | some (some p) => some ((ip.setNext p (ip.tcpNext ns)).setNext ns none)

/-- A loop that searches a list for a socket, with an assertion about the sockets it passes. -/
def searchList (ip : Ip) (valid wanted : TcpSocket → Bool) :
    Nat → Option SocketId → Option SocketId → Option (Option (Option SocketId × SocketId))
  | 0, _, _ => none
  | _ + 1, _, none => some none
  | turns + 1, prev, some s =>
    if !valid (ip.tcpSocket s) then none
    else if wanted (ip.tcpSocket s) then some (some (prev, s))
    else ip.searchList valid wanted turns (some s) (ip.tcpNext s)

theorem searchList_mono {ip : Ip} {valid wanted : TcpSocket → Bool} {turns more : Nat}
    {prev first : Option SocketId} {result : Option (Option SocketId × SocketId)}
    (found : ip.searchList valid wanted turns prev first = some result) (le : turns ≤ more) :
    ip.searchList valid wanted more prev first = some result := by
  induction turns generalizing prev first more with
  | zero => simp [searchList] at found
  | succ turns ih =>
    obtain ⟨more, rfl⟩ : ∃ rest, more = rest + 1 := ⟨more - 1, by omega⟩
    cases first with
    | none => exact found
    | some s =>
      simp only [searchList] at found ⊢
      split
      · simp_all
      · split
        · simp_all
        · rename_i valid other
          simp only [valid, other, if_false, Bool.false_eq_true] at found
          exact ih found (by omega)

/-- Move a socket to the front of its list, given the socket before it. -/
def moveToFront (ip : Ip) (list : TcpList) (prev : Option SocketId) (s : SocketId) : Ip :=
  match prev with
  | none => ip
  | some prev =>
    let ip := ip.setNext prev (ip.tcpNext s)
    (ip.setNext s (ip.head list)).setHead list (some s)

/-- Whether a segment belongs to the connection of a socket. -/
def connects (h : TcpHdr) (socket : TcpSocket) : Bool :=
  socket.localPort = h.dest && socket.remotePort = h.src && socket.remoteIp = h.srcIp &&
    socket.localIp = h.destIp

def isActive (socket : TcpSocket) : Bool :=
  socket.state ≠ .closed && socket.state ≠ .timeWait && socket.state ≠ .listen

/-- Find the active socket that a segment belongs to, and move it to the front. -/
def findActiveSocket (turns : Nat) (ip : Ip) (h : TcpHdr) : Option (Ip × Option SocketId) := do
  match ← ip.searchList isActive (connects h) turns none ip.tcpSockets with
  | none => some (ip, none)
  | some (prev, s) =>
    if ip.tcpNext s = some s then none
    else
      let ip := ip.moveToFront .active prev s
      if ip.tcpNext s = some s then none else some (ip, some s)

theorem findActiveSocket_mono {turns more : Nat} {ip : Ip} {h : TcpHdr}
    {result : Ip × Option SocketId} (found : findActiveSocket turns ip h = some result)
    (le : turns ≤ more) : findActiveSocket more ip h = some result := by
  simp only [findActiveSocket, Option.bind_eq_bind, Option.bind_eq_some_iff] at found ⊢
  obtain ⟨place, searched, rest⟩ := found
  exact ⟨place, searchList_mono searched le, rest⟩

theorem findActiveSocket_input {turns : Nat} {found : Ip} {header : TcpHdr} {s : Option SocketId}
    (finds : findActiveSocket turns ip header = some (found, s)) :
    found.tcpInputLen = ip.tcpInputLen ∧ found.tcpInputFlags = ip.tcpInputFlags ∧
      found.tcpInputSeqno = ip.tcpInputSeqno ∧ found.tcpInputAckno = ip.tcpInputAckno ∧
      found.tcpSocket = ip.tcpSocket := by
  simp only [findActiveSocket, Option.bind_eq_bind, Option.bind_eq_some_iff] at finds
  obtain ⟨place, -, finds⟩ := finds
  cases place with
  | none =>
    obtain ⟨rfl, rfl⟩ := Prod.mk.inj (Option.some.inj finds)
    simp
  | some place =>
    obtain ⟨prev, s'⟩ := place
    simp only at finds
    split at finds
    · contradiction
    · split at finds
      · contradiction
      · obtain ⟨rfl, rfl⟩ := Prod.mk.inj (Option.some.inj finds)
        cases prev <;> simp [moveToFront, setHead, setNext]

/-- Find the socket in TIME-WAIT state that a segment belongs to. -/
def findClosingSocket (turns : Nat) (ip : Ip) (h : TcpHdr) : Option (Option SocketId) := do
  let found ← ip.searchList (·.state = .timeWait) (connects h) turns none ip.tcpClosingSockets
  some (found.map (·.2))

/-- Find the listening socket that a segment is for, and move it to the front. -/
def findListenSocket (turns : Nat) (ip : Ip) (h : TcpHdr) : Option (Ip × Option SocketId) := do
  let wanted (socket : TcpSocket) : Bool :=
    socket.localPort = h.dest && (socket.localIp = .any || socket.localIp = h.destIp)
  match ← ip.searchList (fun _ => true) wanted turns none ip.tcpListenSockets with
  | none => some (ip, none)
  | some (prev, s) => some (ip.moveToFront .listening prev s, some s)

def tcpSocketPurge (ip : Ip) (s : SocketId) : Ip :=
  ip.updateTcp s fun socket =>
    { socket with
      unsent := []
      unacked := []
      sndQueuelen := 0
      history := { socket.history with purged := true } }

def tcpSetSocketState (ip : Ip) (s : SocketId) (newstate : TcpState) : Ip :=
  ip.updateTcp s fun socket =>
    { socket with
      state := newstate
      history := { socket.history with
        opened := socket.history.opened || newstate = .established } }

/-- Move a socket from the active list to the list in TIME-WAIT state. -/
def moveToClosing (turns : Nat) (ip : Ip) (s : SocketId) : Option Ip := do
  let ip ← tcpListRemove turns ip .active s
  some ((ip.tcpSetSocketState s .timeWait).tcpListAdd .closing s)

def flushAck (ip : Ip) (s : SocketId) : Option Ip :=
  let socket := ip.tcpSocket s
  if socket.state ≠ .timeWait && socket.state ≠ .listen && socket.ackDelay then
    (ip.setTcp s { socket with ackNow := true }).tcpOutput s
  else some ip

/-- Purge a socket and remove it from a list.  Any delayed ACKs are sent first. -/
def tcpSocketRemove (turns : Nat) (ip : Ip) (list : TcpList) (s : SocketId) : Option Ip := do
  let ip ← tcpListRemove turns ip list s
  let ip ← (ip.tcpSocketPurge s).flushAck s
  some (ip.tcpSetSocketState s .closed)

end Ip
end Uos
