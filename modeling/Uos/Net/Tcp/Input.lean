import Uos.Net.Tcp.Lists

/-!
# Receiving TCP segments

The functions of `net/tcp-in.c`, from the point where `tcp_input` has checked a segment and taken
its header apart.  An `int` has 32 bits.
-/

namespace Uos

/-- `TCP_SOCKET_QUEUE_SIZE` -/
def tcpSocketQueueSize : Nat := 16

namespace Chunk

/-- Move the start of the payload of a single buffer by `off` bytes.  The offset is passed as a
`short`: from 32769 on it moves backwards, if there is room, over bytes that are not modelled. -/
def strip (chunk : Chunk) (room off : Nat) : Chunk :=
  if off ≤ 32768 then
    { odd := chunk.odd ^^ (off % 2 = 1), bytes := chunk.bytes.drop off }
  else
    let back := 65536 - off
    if room < back then chunk
    else { odd := chunk.odd ^^ (back % 2 = 1), bytes := List.replicate back 0 ++ chunk.bytes }

end Chunk

namespace Buf

/-- The loop that trims the first edge off a chain; the total length loses only the buffers that
are trimmed away. -/
def trimLoop (totLen : UShort) : List Chunk → Nat → Option (UShort × List Chunk)
  | [], _ => none
  | chunk :: rest, off =>
    if chunk.bytes.length < off then do
      let (totLen, rest) ←
        trimLoop (totLen - .ofNat 16 chunk.bytes.length) rest (off - chunk.bytes.length)
      some (totLen, { chunk with bytes := [] } :: rest)
    else some (totLen, chunk.strip 0 off :: rest)

def trim (p : Buf) (off : Nat) : Option Buf :=
  match p.chunks with
  | [] => none
  | first :: rest =>
    if first.bytes.length < off then do
      let (totLen, chunks) ← trimLoop p.totLen p.chunks off
      some { p with totLen, chunks }
    else
      let stripped := first.strip p.room off
      some
        { p with
          totLen := p.totLen + .ofNat 16 stripped.bytes.length - .ofNat 16 first.bytes.length
          chunks := stripped :: rest }

end Buf

/-- The numbers of the states, in the order of `tcp_state_t`. -/
def TcpState.toNat : TcpState → Nat
  | closed => 0
  | listen => 1
  | synSent => 2
  | synRcvd => 3
  | established => 4
  | finWait1 => 5
  | finWait2 => 6
  | closeWait => 7
  | closing => 8
  | lastAck => 9
  | timeWait => 10

namespace TcpSocket

/-- `tcp_queue_is_full` -/
def queueIsFull (socket : TcpSocket) : Bool :=
  socket.queue.length = tcpSocketQueueSize

/-- `tcp_queue_put` -/
def queuePut (socket : TcpSocket) (received : TcpReceived) : Option TcpSocket :=
  if socket.queue.length < tcpSocketQueueSize then
    some { socket with queue := socket.queue ++ [received] }
  else none

/-- `tcp_queue_get`; a larger window is advertised when the data has been processed. -/
def queueGet (socket : TcpSocket) : Option (TcpReceived × TcpSocket) :=
  match socket.queue with
  | [] => none
  | received :: queue =>
    let rcvWnd := socket.rcvWnd + received.buf.totLen
    some (received, { socket with queue, rcvWnd := if tcpWnd < rcvWnd then tcpWnd else rcvWnd })

/-- `(s->sa >> 3) + s->sv` -/
def roundTrip (socket : TcpSocket) : BitVec 32 :=
  (socket.sa.sshiftRight 3).signExtend 32 + socket.sv.signExtend 32

def updateWindow (socket : TcpSocket) (seqno ackno : ULong) (wnd : UShort) : TcpSocket :=
  if seqLt socket.sndWl1 seqno || (socket.sndWl1 = seqno && seqLt socket.sndWl2 ackno) ||
      (socket.sndWl2 = ackno && socket.sndWnd < wnd.setWidth 32) then
    { socket with sndWnd := wnd.setWidth 32, sndWl1 := seqno, sndWl2 := ackno }
  else socket

/-- The congestion window after an acknowledgement of new data. -/
def widen (socket : TcpSocket) : UShort :=
  let newCwnd :=
    if socket.cwnd < socket.ssthresh then socket.cwnd + socket.cwnd else socket.cwnd + socket.mss
  if socket.cwnd < newCwnd then newCwnd else socket.cwnd

/-- The segment at the front of the unacknowledged list is freed. -/
def freeUnacked (ackno : ULong) : List TcpSegment → TcpSocket → Option TcpSocket
  | [], socket => some socket
  | seg :: rest, socket =>
    if seqLeq seg.ends ackno then
      let socket :=
        { socket with
          unacked := rest
          sndQueuelen := socket.sndQueuelen - .ofNat 8 seg.chunks.length }
      if Ip.queueKept socket then freeUnacked ackno rest socket else none
    else some socket

/-- The segment at the front of the unsent list is freed, which may have been sent before. -/
def freeUnsent (ackno : ULong) : List TcpSegment → TcpSocket → Option TcpSocket
  | [], socket => some socket
  | seg :: rest, socket =>
    if seqLeq seg.ends ackno && seqLeq ackno socket.sndMax then
      let socket :=
        { socket with
          unsent := rest
          sndQueuelen := socket.sndQueuelen - .ofNat 8 seg.chunks.length
          sndNxt := (rest.head?.map (·.seqno)).getD socket.sndNxt }
      if Ip.queueKept socket then freeUnsent ackno rest socket else none
    else some socket

def acknowledge (socket : TcpSocket) (ackno : ULong) : Option TcpSocket :=
  let socket := if socket.inFastRecovery then
      { socket with inFastRecovery := false, cwnd := socket.ssthresh } else socket
  let acked : UShort := (ackno - socket.lastack).setWidth 16
  let socket :=
    { socket with
      nrtx := 0
      rto := socket.roundTrip.setWidth 16
      acked
      sndBuf := socket.sndBuf + acked
      dupacks := 0
      lastack := ackno }
  let socket := if TcpState.established.toNat ≤ socket.state.toNat then
      { socket with cwnd := socket.widen } else socket
  freeUnacked ackno socket.unacked socket

def estimate (socket : TcpSocket) (ticks ackno : ULong) : TcpSocket :=
  if socket.rttest ≠ 0 && seqLt socket.rtseq ackno then
    let m := ticks - socket.rttest.setWidth 32
    let m := m - (socket.sa.sshiftRight 3).signExtend 32
    let socket := { socket with sa := socket.sa + m.setWidth 16 }
    let m := if m.slt 0 then -m else m
    let m := m - (socket.sv.sshiftRight 2).signExtend 32
    let socket := { socket with sv := socket.sv + m.setWidth 16 }
    { socket with rto := socket.roundTrip.setWidth 16, rttest := 0 }
  else socket

end TcpSocket

namespace Ip

/-- Three duplicate ACKs: retransmit the unacked segments, or widen the window. -/
def fastRetransmit (ip : Ip) (s : SocketId) : Option Ip :=
  let socket := ip.tcpSocket s
  if !socket.inFastRecovery then do
    let ip ← ip.tcpRexmit s
    some (ip.updateTcp s fun socket =>
      let half : UShort := ((socket.sndMax - socket.lastack) / 2).setWidth 16
      let ssthresh := if half.toNat < 2 * socket.mss.toNat then socket.mss + socket.mss else half
      { socket with
        ssthresh
        cwnd := ssthresh + 3 * socket.mss
        inFastRecovery := true })
  else if socket.cwnd < socket.cwnd + socket.mss then
    some (ip.setTcp s { socket with cwnd := socket.cwnd + socket.mss })
  else some ip

/-- Compare the acknowledgement with the last one: a duplicate is counted, and a new one removes the
segments that it covers from the unacknowledged list. -/
def compareAck (ip : Ip) (s : SocketId) (socket : TcpSocket) (rightWndEdge : ULong) : Option Ip :=
  let ackno := ip.tcpInputAckno
  if socket.lastack = ackno then
    let socket := { socket with acked := 0 }
    if socket.sndWl1 + socket.sndWnd = rightWndEdge then
      let socket := { socket with dupacks := socket.dupacks + 1 }
      let ip := ip.setTcp s socket
      if 3 ≤ socket.dupacks ∧ socket.unacked ≠ [] then ip.fastRetransmit s else some ip
    else some (ip.setTcp s socket)
  else if seqLt socket.lastack ackno && seqLeq ackno socket.sndMax then
    (socket.acknowledge ackno).map (ip.setTcp s)
  else some (ip.setTcp s socket)

/-- The first part of `tcp_receive`, for a segment with an ACK. -/
def receiveAck (ip : Ip) (s : SocketId) (h : TcpHdr) : Option Ip := do
  let ackno := ip.tcpInputAckno
  let rightWndEdge := (ip.tcpSocket s).sndWnd + (ip.tcpSocket s).sndWl1
  let socket := (ip.tcpSocket s).updateWindow ip.tcpInputSeqno ackno h.wnd
  let ip ← ip.compareAck s socket rightWndEdge
  let socket ← TcpSocket.freeUnsent ackno (ip.tcpSocket s).unsent (ip.tcpSocket s)
  some (ip.setTcp s (socket.estimate ip.tcpTicks ackno))

/-- `tcp_receive` checks the acknowledgement if the segment has one. -/
def checkAck (ip : Ip) (s : SocketId) (h : TcpHdr) : Option Ip :=
  if ip.tcpInputFlags.has TcpFlags.ack then ip.receiveAck s h else some ip

/-- Trim the first edge of a segment that begins with data received before.  The rest of the
segment begins at the sequence number expected next, or is a duplicate. -/
def receiveTrim (ip : Ip) (s : SocketId) (p : Buf) (len : UShort) : Option (Ip × Buf × UShort) :=
  let rcvNxt := (ip.tcpSocket s).rcvNxt
  let seqno := ip.tcpInputSeqno
  if seqLt seqno rcvNxt then
    if seqLt rcvNxt (seqno + ip.tcpInputLen.setWidth 32) then do
      let p ← p.trim (rcvNxt - seqno).toNat
      some ({ ip with tcpInputSeqno := rcvNxt }, p, len - (rcvNxt - seqno).setWidth 16)
    else do
      let ip ← ip.tcpAckNow s
      some (ip, p, len)
  else some (ip, p, len)

/-- The segment is the next in sequence: move on the sequence number expected next, and update the
receiver's window. -/
def expectNext (inputLen : UShort) (socket : TcpSocket) : TcpSocket :=
  { socket with
    rcvNxt := socket.rcvNxt + inputLen.setWidth 32
    rcvWnd := if socket.rcvWnd < inputLen then 0 else socket.rcvWnd - inputLen }

def queueData (h : TcpHdr) (p : Buf) (socket : TcpSocket) : Option TcpSocket := do
  let socket ← socket.queuePut { header := some h, buf := p }
  some { socket with
    history := { socket.history with queued := socket.history.queued ++ payload p.chunks } }

/-- Put the data of a segment into the receive queue if there is any and there is room.  Returns
also whether it was put there. -/
def storeData (h : TcpHdr) (p : Buf) (socket : TcpSocket) : Option (TcpSocket × Bool) :=
  if p.totLen ≠ 0 && !socket.queueIsFull then (queueData h p socket).map (·, true)
  else some (socket, false)

def emptyReceived : TcpReceived where
  header := none
  buf := { totLen := 0, chunks := [{ bytes := [] }] }

/-- Put an empty buf into the receive queue if the segment has a FIN, there is room and there is
memory. -/
def queueFin (ip : Ip) (s : SocketId) (h : TcpHdr) : Option Ip :=
  let socket := ip.tcpSocket s
  if h.flags.has TcpFlags.fin && !socket.queueIsFull then
    let (allocated, ip) := ip.alloc
    if allocated then (socket.queuePut emptyReceived).map (ip.setTcp s) else some ip
  else some ip

/-- The incoming segment is the next in sequence: put it into the receive queue if there is room.
Returns also whether it was put there. -/
def receiveNext (ip : Ip) (s : SocketId) (h : TcpHdr) (p : Buf) (len : UShort) :
    Option (Ip × Bool) := do
  let inputLen := len + (flagLen h.flags).setWidth 16
  let ip := { ip with tcpInputLen := inputLen }
  let (socket, queued) ← storeData h p (expectNext inputLen (ip.tcpSocket s))
  let ip ← (ip.setTcp s socket).queueFin s h
  let ip ← ip.tcpAck s
  some (ip, queued)

def receiveData (ip : Ip) (s : SocketId) (h : TcpHdr) (p : Buf) : Option (Ip × Bool) := do
  let (ip, p, len) ← ip.receiveTrim s p p.totLen
  let socket := ip.tcpSocket s
  if seqGeq ip.tcpInputSeqno socket.rcvNxt &&
      seqLt ip.tcpInputSeqno (socket.rcvNxt + socket.rcvWnd.setWidth 32) then
    if socket.rcvNxt = ip.tcpInputSeqno then ip.receiveNext s h p len
    else do
      let ip ← ip.tcpAckNow s
      some (ip, false)
  else some (ip, false)

/-- Segments with length 0 that fall out of the window are ACKed. -/
def receiveEmpty (ip : Ip) (s : SocketId) : Option Ip :=
  let socket := ip.tcpSocket s
  if seqGt socket.rcvNxt ip.tcpInputSeqno ||
      seqGeq ip.tcpInputSeqno (socket.rcvNxt + socket.rcvWnd.setWidth 32) then
    ip.tcpAckNow s
  else some ip

/-- Check the acknowledgement of a segment and receive its data.  Returns also whether the buffer
was put into the receive queue. -/
def tcpReceive (ip : Ip) (s : SocketId) (h : TcpHdr) (p : Buf) : Option (Ip × Bool) := do
  let ip ← ip.checkAck s h
  if ip.tcpInputLen = 0 then
    let ip ← ip.receiveEmpty s
    some (ip, false)
  else ip.receiveData s h p

/-- The loop of `tcp_parseopt`: the maximum segment size in the options. -/
def parseLoop (opts : Nat → UChar) (size : Nat) : Nat → UChar → Option (Option UShort)
  | 0, _ => none
  | turns + 1, c =>
    if c.toNat < size then
      let opt := opts c.toNat
      if opt = 0 then some none
      else if opt = 1 then parseLoop opts size turns (c + 1)
      else if opt = 2 ∧ opts (c.toNat + 1) = 4 then
        some (some (.ofBytes (opts (c.toNat + 2)) (opts (c.toNat + 3))))
      else if opts (c.toNat + 1) = 0 then some none
      else parseLoop opts size turns (c + opts (c.toNat + 1))
    else some none

def tcpParseopt (turns : Nat) (ip : Ip) (s : SocketId) (h : TcpHdr) : Option Ip :=
  if 0x50 < h.offset &&& 0xf0 then do
    let mss ← parseLoop h.opts ((h.offset.toNat / 16 - 5) * 4) turns 0
    some (ip.updateTcp s fun socket =>
      { socket with
        mss := (mss.map fun mss => if tcpMss < mss then tcpMss else mss).getD socket.mss })
  else some ip

def acceptable (ip : Ip) (socket : TcpSocket) : Bool :=
  if socket.state = .synSent then ip.tcpInputAckno = socket.sndNxt
  else seqGeq ip.tcpInputSeqno socket.rcvNxt &&
    seqLeq ip.tcpInputSeqno (socket.rcvNxt + socket.rcvWnd.setWidth 32)

/-- The state SYN-SENT: the segment may complete the connection. -/
def processSynSent (turns : Nat) (ip : Ip) (s : SocketId) (h : TcpHdr) : Option Ip :=
  let socket := ip.tcpSocket s
  if ip.tcpInputFlags.has (TcpFlags.ack ||| TcpFlags.syn) then
    match socket.unacked with
    | [] => none
    | first :: rest =>
      if ip.tcpInputAckno = first.seqno + 1 then do
        let rcvNxt := ip.tcpInputSeqno + 1
        let ip := ip.setTcp s
          { socket with
            rcvNxt
            lastack := ip.tcpInputAckno
            sndWnd := h.wnd.setWidth 32
            sndWl1 := h.wnd.setWidth 32
            cwnd := socket.mss
            sndQueuelen := socket.sndQueuelen - 1
            unacked := rest
            history := { socket.history with synchronised := some rcvNxt } }
        let ip ← tcpParseopt turns ip s h
        (ip.tcpSetSocketState s .established).tcpAck s
      else some ip
  else some ip

def closeTimeWait (turns : Nat) (ip : Ip) (s : SocketId) : Option Ip := do
  let ip ← ip.tcpAckNow s
  moveToClosing turns ip s

/-- Whether a segment acknowledges everything that was sent. -/
def acknowledges (ip : Ip) (s : SocketId) : Bool :=
  ip.tcpInputFlags.has TcpFlags.ack && ip.tcpInputAckno = (ip.tcpSocket s).sndNxt

def processReset (turns : Nat) (ip : Ip) (s : SocketId) : Option Ip :=
  if !ip.acceptable (ip.tcpSocket s) then some ip
  else if (ip.tcpSocket s).state = .closed then none
  else do
    let ip ← tcpSocketRemove turns ip .active s
    some (ip.updateTcp s fun socket => { socket with ackDelay := false })

/-- The state SYN-RECEIVED: the segment may complete the connection. -/
def processSynRcvd (ip : Ip) (s : SocketId) (h : TcpHdr) (p : Buf) : Option (Ip × Bool) :=
  let socket := ip.tcpSocket s
  if ip.tcpInputFlags.has TcpFlags.ack && seqLt socket.lastack ip.tcpInputAckno &&
      seqLeq ip.tcpInputAckno socket.sndNxt then do
    let (ip, queued) ← (ip.tcpSetSocketState s .established).tcpReceive s h p
    some (ip.updateTcp s fun socket => { socket with cwnd := socket.mss }, queued)
  else some (ip, false)

/-- The states CLOSE-WAIT and ESTABLISHED, when the segment was received. -/
def afterEstablished (ip : Ip) (s : SocketId) : Option Ip :=
  if ip.tcpInputFlags.has TcpFlags.fin then do
    let ip ← ip.tcpAckNow s
    some (ip.tcpSetSocketState s .closeWait)
  else some ip

def afterFinWait1 (turns : Nat) (ip : Ip) (s : SocketId) : Option Ip :=
  if ip.tcpInputFlags.has TcpFlags.fin then
    if ip.acknowledges s then closeTimeWait turns ip s
    else do
      let ip ← ip.tcpAckNow s
      some (ip.tcpSetSocketState s .closing)
  else if ip.acknowledges s && (ip.tcpSocket s).unsent.isEmpty then
    some (ip.tcpSetSocketState s .finWait2)
  else some ip

def afterFinWait2 (turns : Nat) (ip : Ip) (s : SocketId) : Option Ip :=
  if ip.tcpInputFlags.has TcpFlags.fin then closeTimeWait turns ip s else some ip

def afterClosing (turns : Nat) (ip : Ip) (s : SocketId) : Option Ip :=
  if ip.acknowledges s then closeTimeWait turns ip s else some ip

def afterLastAck (turns : Nat) (ip : Ip) (s : SocketId) : Option Ip :=
  if ip.acknowledges s then tcpSocketRemove turns ip .active s else some ip

def afterReceive (turns : Nat) (state : TcpState) (ip : Ip) (s : SocketId) : Option Ip :=
  match state with
  | .closeWait | .established => ip.afterEstablished s
  | .finWait1 => afterFinWait1 turns ip s
  | .finWait2 => afterFinWait2 turns ip s
  | .closing => afterClosing turns ip s
  | .lastAck => afterLastAck turns ip s
  | _ => some ip

def touch (ip : Ip) (s : SocketId) : Ip :=
  ip.updateTcp s fun socket => { socket with tmr := ip.tcpTicks }

/-- Implements the TCP state machine.  Returns also whether the buffer was put into the receive
queue. -/
def tcpProcess (turns : Nat) (ip : Ip) (s : SocketId) (h : TcpHdr) (p : Buf) :
    Option (Ip × Bool) :=
  if ip.tcpInputFlags.has TcpFlags.rst then (processReset turns ip s).map (·, false)
  else
    match (ip.tcpSocket s).state with
    | .synSent => (processSynSent turns (ip.touch s) s h).map (·, false)
    | .synRcvd => (ip.touch s).processSynRcvd s h p
    | .closed | .listen | .timeWait => some (ip.touch s, false)
    | state => do
      let (ip, queued) ← (ip.touch s).tcpReceive s h p
      let ip ← afterReceive turns state ip s
      some (ip, queued)

/-- Set `tcp_input_socket`, which keeps `tcp_output` from sending. -/
def attend (ip : Ip) (s : Option SocketId) : Ip :=
  { ip with tcpInputSocket := s }

/-- Send what `tcp_process` has left to be sent. -/
def outputPending (ip : Ip) (s : SocketId) : Option Ip :=
  let socket := ip.tcpSocket s
  if !socket.unsent.isEmpty || socket.ackNow then ip.tcpOutput s else some ip

/-- The rest of `tcp_input`, for a segment of an active connection. -/
def inputActive (turns : Nat) (ip : Ip) (s : SocketId) (h : TcpHdr) (p : Buf) :
    Option (Ip × Bool) := do
  let (ip, queued) ← tcpProcess turns (ip.attend (some s)) s h p
  let ip ← (ip.attend none).outputPending s
  some (ip, queued)

/-- A segment of a connection in TIME-WAIT state that is not empty is acknowledged. -/
def ackClosing (ip : Ip) (s : SocketId) : Option Ip :=
  if ip.tcpInputLen ≠ 0 then ip.tcpAckNow s else some ip

/-- The rest of `tcp_input`, for a segment of a connection in TIME-WAIT state. -/
def inputClosing (ip : Ip) (s : SocketId) : Option Ip := do
  let ends := ip.tcpInputSeqno + ip.tcpInputLen.setWidth 32
  let ip := ip.updateTcp s fun socket =>
    { socket with rcvNxt := if seqGt ends socket.rcvNxt then ends else socket.rcvNxt }
  let ip ← ip.ackClosing s
  ip.tcpOutput s

/-- The rest of `tcp_input`, for a segment to a listening socket. -/
def inputListening (ip : Ip) (s : SocketId) (h : TcpHdr) (p : Buf) : Option (Ip × Bool) :=
  if ip.tcpInputFlags.has TcpFlags.ack then do
    let ip ← ip.tcpRst (ip.tcpInputAckno + 1) (ip.tcpInputSeqno + ip.tcpInputLen.setWidth 32)
      h.destIp h.srcIp h.dest h.src
    some (ip, false)
  else if !ip.tcpInputFlags.has TcpFlags.syn then some (ip, false)
  else if (ip.tcpSocket s).queueIsFull then some (ip, false)
  else do
    let socket ← (ip.tcpSocket s).queuePut { header := some h, buf := p }
    some (ip.setTcp s socket, true)

def takeApart (ip : Ip) (h : TcpHdr) (totLen : UShort) : Ip :=
  let flags := h.flags &&& 0x3f
  { ip with
    tcpInputSeqno := h.seqno
    tcpInputAckno := h.ackno
    tcpInputFlags := flags
    tcpInputLen := totLen + (flagLen flags).setWidth 16
    arrived := ip.arrived ++ [h] }

/-- Find the socket that a segment is for and pass it on.  Returns also whether the buffer was put
into a receive queue; otherwise it is freed. -/
def tcpInput (turns : Nat) (ip : Ip) (h : TcpHdr) (p : Buf) : Option (Ip × Bool) := do
  let (ip, found) ← findActiveSocket turns (ip.takeApart h p.totLen) h
  match found with
  | some s => inputActive turns ip s h p
  | none =>
    match ← findClosingSocket turns ip h with
    | some s => do
      let ip ← ip.inputClosing s
      some (ip, false)
    | none =>
      let (ip, found) ← findListenSocket turns ip h
      match found with
      | some s => ip.inputListening s h p
      | none =>
        if !h.flags.has TcpFlags.rst then do
          let ip ← ip.tcpRst ip.tcpInputAckno
            (ip.tcpInputSeqno + ip.tcpInputLen.setWidth 32) h.destIp h.srcIp h.dest h.src
          some (ip, false)
        else some (ip, false)

end Ip
end Uos
