import Uos.Net.Ip

/-!
# Sending TCP segments

The functions of `net/tcp-out.c` and the functions of `net/tcp.h` that acknowledge segments.  The
constants have their default values.  A failed assertion halts the kernel, which is `none` here.
-/

namespace Uos

open BitVec

/-- `TCP_WND` -/
def tcpWnd : UShort := 2048

/-- `TCP_MSS` -/
def tcpMss : UShort := 256

/-- `TCP_SND_BUF` -/
def tcpSndBuf : UShort := 1024

/-- `TCP_SND_QUEUELEN` -/
def tcpSndQueuelen : UChar := 16

/-- `TCP_SEQ_LT` -/
def seqLt (a b : ULong) : Bool :=
  (a - b).slt 0

/-- `TCP_SEQ_LEQ` -/
def seqLeq (a b : ULong) : Bool :=
  (a - b).sle 0

/-- `TCP_SEQ_GT` -/
def seqGt (a b : ULong) : Bool :=
  (0 : ULong).slt (a - b)

/-- `TCP_SEQ_GEQ` -/
def seqGeq (a b : ULong) : Bool :=
  (0 : ULong).sle (a - b)

variable {a b : ULong}

theorem seqLt_iff : seqLt a b = true ↔ 2147483648 ≤ (a - b).toNat := by
  have bound := (a - b).isLt
  rw [seqLt, slt_iff_toInt_lt, toInt_eq_toNat_cond]
  simp only [ofNat_eq_ofNat, toInt_zero]
  split <;> omega

theorem seqLeq_iff :
    seqLeq a b = true ↔ (a - b).toNat = 0 ∨ 2147483648 ≤ (a - b).toNat := by
  have bound := (a - b).isLt
  rw [seqLeq, sle_iff_toInt_le, toInt_eq_toNat_cond]
  simp only [ofNat_eq_ofNat, toInt_zero]
  split <;> omega

theorem seqGt_iff :
    seqGt a b = true ↔ 0 < (a - b).toNat ∧ (a - b).toNat < 2147483648 := by
  have bound := (a - b).isLt
  rw [seqGt, slt_iff_toInt_lt, @toInt_eq_toNat_cond _ (a - b)]
  simp only [ofNat_eq_ofNat, toInt_zero]
  split <;> omega

theorem seqGeq_iff : seqGeq a b = true ↔ (a - b).toNat < 2147483648 := by
  have bound := (a - b).isLt
  rw [seqGeq, sle_iff_toInt_le, @toInt_eq_toNat_cond _ (a - b)]
  simp only [ofNat_eq_ofNat, toInt_zero]
  split <;> omega
/-- The place that the flags of a segment take in the sequence. -/
def flagLen (flags : TcpFlags) : ULong :=
  if flags.has (TcpFlags.fin ||| TcpFlags.syn) then 1 else 0

namespace TcpSegment

/-- `TCP_TCPLEN` -/
def tcplen (seg : TcpSegment) : ULong :=
  seg.len.setWidth 32 + flagLen seg.flags

def ends (seg : TcpSegment) : ULong :=
  seg.seqno + seg.tcplen

end TcpSegment

def ULong.bytes (value : ULong) : List UChar :=
  [value.extractLsb' 24 8, value.extractLsb' 16 8, value.extractLsb' 8 8, value.extractLsb' 0 8]

/-- The fixed part of the TCP header of an outgoing segment. -/
def tcpHeader (src dest : UShort) (seqno ackno : ULong) (offset : UChar) (flags : TcpFlags)
    (wnd chksum : UShort) : List UChar :=
  [UShort.high src, UShort.low src, UShort.high dest, UShort.low dest] ++ ULong.bytes seqno ++
    ULong.bytes ackno ++
    [offset, flags, UShort.high wnd, UShort.low wnd, UShort.high chksum, UShort.low chksum, 0, 0]

namespace Ip

def updateTcp (ip : Ip) (s : SocketId) (change : TcpSocket → TcpSocket) : Ip :=
  ip.setTcp s (change (ip.tcpSocket s))

/-- The loop of `tcp_enqueue` that breaks up the data into segments; `none` if memory is short. -/
def enqueueLoop (socket : TcpSocket) (flags : TcpFlags) (options : List UChar) :
    List Bool → List UChar → ULong → List TcpSegment → List Bool × Option (List TcpSegment)
  | memory, data, seqno, queue =>
    if queue ≠ [] ∧ data = [] then (memory, some queue)
    else
      match memory with
      | true :: true :: memory =>
        let seglen := min data.length socket.mss.toNat
        let seg : TcpSegment :=
          { src := socket.localPort
            dest := socket.remotePort
            seqno, flags, options
            len := .ofNat 16 seglen
            chunks := [{ bytes := data.take seglen }] }
        enqueueLoop socket flags options memory (data.drop seglen)
          (seqno + .ofNat 32 seglen) (queue ++ [seg])
      | true :: memory => (memory.tail, none)
      | memory => (memory.tail, none)

/-- Whether there is room for more data in the last unsent segment. -/
def chains (socket : TcpSocket) (flags : TcpFlags) (last first : TcpSegment) : Bool :=
  last.tcplen ≠ 0 && !last.flags.has (TcpFlags.syn ||| TcpFlags.fin) &&
    !flags.has (TcpFlags.syn ||| TcpFlags.fin) &&
    last.len.toNat + first.len.toNat ≤ socket.mss.toNat

/-- Set the PSH flag in the last segment of a list, if it has data. -/
def push (segments : List TcpSegment) : List TcpSegment :=
  segments.dropLast ++ (segments.getLast?.map fun seg =>
    if seg.len ≠ 0 then { seg with flags := seg.flags ||| TcpFlags.psh } else seg).toList

/-- Add segments to the end of the unsent queue; the first one is chained to the last one there if
there is room. -/
def appendQueue (socket : TcpSocket) (flags : TcpFlags) (queue : List TcpSegment) :
    List TcpSegment :=
  match socket.unsent.getLast?, queue with
  | some last, first :: rest =>
    if chains socket flags last first then
      socket.unsent.dropLast ++
        { last with len := last.len + first.len, chunks := last.chunks ++ first.chunks } ::
          push rest
    else socket.unsent ++ push queue
  | _, _ => socket.unsent ++ push queue

/-- Whether an assertion on the length of the send queue holds. -/
def queueKept (socket : TcpSocket) : Bool :=
  socket.sndQueuelen = 0 || !socket.unacked.isEmpty || !socket.unsent.isEmpty

/-- Send data or options or flags: append it to the socket send queue.  False on error. -/
def tcpEnqueue (ip : Ip) (s : SocketId) (data : List UChar) (flags : TcpFlags)
    (options : List UChar) : Option (Ip × Bool) :=
  let socket := ip.tcpSocket s
  if socket.sndBuf.toNat < data.length then some (ip, false)
  else if tcpSndQueuelen ≤ socket.sndQueuelen then some (ip, false)
  else if !queueKept socket then none
  else
    let (memory, result) := enqueueLoop socket flags options ip.memory data socket.sndLbb []
    let ip := { ip with memory }
    match result with
    | none => if queueKept socket then some (ip, false) else none
    | some queue =>
      let socket :=
        { socket with
          unsent := appendQueue socket flags queue
          sndLbb := socket.sndLbb + .ofNat 32 data.length + flagLen flags
          sndBuf := socket.sndBuf - .ofNat 16 data.length - (flagLen flags).setWidth 16
          sndQueuelen := socket.sndQueuelen + .ofNat 8 queue.length
          history := { socket.history with written := socket.history.written ++ data } }
      if queueKept socket then some (ip.setTcp s socket, true) else none

def segmentBuf (header : List UChar) (seg : TcpSegment) : Buf where
  room := 16 + 20
  totLen := .ofNat 16 (20 + seg.options.length + (payload seg.chunks).length)
  chunks :=
    match seg.chunks with
    | [] => [{ bytes := header ++ seg.options }]
    | first :: rest => { first with bytes := header ++ seg.options ++ first.bytes } :: rest

/-- A segment with its checksum, in a copy that is one buffer. -/
def stampSegment (target : Target) (localIp remoteIp : IpAddr) (header : UShort → List UChar)
    (seg : TcpSegment) : Option Buf := do
  let p := segmentBuf (header 0) seg
  let n ← bufChksum target p.chunks (crc16InetHeader target localIp remoteIp protoTcp p.totLen)
  -- Invert checksum bytes after an odd number of bytes.
  let n := if p.totLen.getLsbD 0 then UShort.swap n else n
  let p := p.fill (header (Checksum.nativeStore target n))
  some { p with chunks := [{ bytes := payload p.chunks }] }

def recordSent (socket : TcpSocket) (localIp : IpAddr) (ticks : ULong) (seg : TcpSegment) :
    TcpSocket :=
  let timed := socket.rttest = 0
  { socket with
    localIp
    rtime := 0
    rttest := if timed then ticks.setWidth 16 else socket.rttest
    rtseq := if timed then seg.seqno else socket.rtseq
    sndNxt := seg.ends
    sndMax := if seqLt socket.sndMax seg.ends then seg.ends else socket.sndMax }

/-- Send a segment; its header lacks the acknowledgement number, the window and the checksum. -/
def tcpOutputSegment (ip : Ip) (s : SocketId) (seg : TcpSegment) : Option Ip :=
  let socket := ip.tcpSocket s
  -- If we don't have a local IP address, we get one.
  let localIp :=
    if socket.localIp = .any then (ip.routeLookup socket.remoteIp).map (·.2.2)
    else some socket.localIp
  match localIp with
  | none => some ip
  | some localIp => do
    let wnd := if socket.rcvWnd < socket.mss then 0 else socket.rcvWnd
    let offset : UChar := .ofNat 8 ((5 + seg.options.length / 4) * 16)
    let p ← stampSegment ip.target localIp socket.remoteIp
      (tcpHeader seg.src seg.dest seg.seqno socket.rcvNxt offset seg.flags wnd) seg
    let (copied, ip) := (ip.setTcp s (recordSent socket localIp ip.tcpTicks seg)).alloc
    if copied then ip.ipOutput p socket.remoteIp (some localIp) protoTcp else some ip

/-- Send a segment without data and options: a bare ACK, or a RST. -/
def sendBare (ip : Ip) (header : UShort → List UChar) (localIp remoteIp : IpAddr) : Option Ip := do
  let p : Buf := { room := 16 + 20, totLen := 20, chunks := [{ bytes := header 0 }] }
  let chksum ← bufChksum ip.target p.chunks
    (crc16InetHeader ip.target localIp remoteIp protoTcp p.totLen)
  ip.ipOutput (p.fill (header (Checksum.nativeStore ip.target chksum))) remoteIp (some localIp)
    protoTcp

/-- A segment that is about to be sent has the ACK flag, except the first one. -/
def answering (answers : Bool) (seg : TcpSegment) : TcpSegment :=
  if answers then { seg with flags := seg.flags ||| TcpFlags.ack } else seg

/-- Take the first segment off the unsent queue; it carries the acknowledgement. -/
def takeUnsent (answers : Bool) (unsent : List TcpSegment) (socket : TcpSocket) : TcpSocket :=
  { socket with
    unsent
    ackDelay := !answers && socket.ackDelay
    ackNow := !answers && socket.ackNow }

/-- Put a segment on the unacknowledged list if its length is greater than zero. -/
def keepUnacked (seg : TcpSegment) (socket : TcpSocket) : TcpSocket :=
  if seg.tcplen ≠ 0 then { socket with unacked := socket.unacked ++ [seg] } else socket

/-- The loop of `tcp_output` over the unsent segments. -/
def outputLoop (s : SocketId) (wnd : ULong) : List TcpSegment → Ip → Option Ip
  | [], ip => some ip
  | seg :: unsent, ip =>
    if seg.seqno - (ip.tcpSocket s).lastack + seg.len.setWidth 32 ≤ wnd then do
      let answers := (ip.tcpSocket s).state ≠ .synSent
      let seg := answering answers seg
      let ip ← (ip.updateTcp s (takeUnsent answers unsent)).tcpOutputSegment s seg
      outputLoop s wnd unsent (ip.updateTcp s (keepUnacked seg))
    else some ip

/-- The smaller of the window of the peer and the congestion window. -/
def sendWindow (socket : TcpSocket) : ULong :=
  if socket.sndWnd < socket.cwnd.setWidth 32 then socket.sndWnd else socket.cwnd.setWidth 32

/-- Whether the window or the lack of segments does not let anything be sent. -/
def blocked (socket : TcpSocket) : Bool :=
  match socket.unsent with
  | [] => true
  | seg :: _ => sendWindow socket < seg.seqno - socket.lastack + seg.len.setWidth 32

/-- Clear `TF_ACK_DELAY` and `TF_ACK_NOW`. -/
def clearAck (socket : TcpSocket) : TcpSocket :=
  { socket with ackDelay := false, ackNow := false }

/-- Send an acknowledgement without data, if there is memory for it. -/
def sendAck (ip : Ip) (s : SocketId) : Option Ip :=
  let socket := ip.tcpSocket s
  let (allocated, ip) := (ip.updateTcp s clearAck).alloc
  if allocated then
    ip.sendBare (tcpHeader socket.localPort socket.remotePort socket.sndNxt socket.rcvNxt 0x50
      TcpFlags.ack socket.rcvWnd) socket.localIp socket.remoteIp
  else some ip

def tcpOutput (ip : Ip) (s : SocketId) : Option Ip :=
  if ip.tcpInputSocket = some s then some ip
  else
    let socket := ip.tcpSocket s
    if socket.ackNow && blocked socket then ip.sendAck s
    else outputLoop s (sendWindow socket) socket.unsent ip

def tcpRst (ip : Ip) (seqno ackno : ULong) (localIp remoteIp : IpAddr)
    (localPort remotePort : UShort) : Option Ip :=
  let (allocated, ip) := ip.alloc
  if allocated then
    ip.sendBare (tcpHeader localPort remotePort seqno ackno 0x50 (TcpFlags.rst ||| TcpFlags.ack)
      tcpWnd) localIp remoteIp
  else some ip

/-- Move all unacked segments to the unsent queue and send them again. -/
def tcpRexmit (ip : Ip) (s : SocketId) : Option Ip :=
  let socket := ip.tcpSocket s
  match socket.unacked with
  | [] => some ip
  | first :: _ =>
    (ip.setTcp s
      { socket with
        unsent := socket.unacked ++ socket.unsent
        unacked := []
        sndNxt := first.seqno
        nrtx := socket.nrtx + 1
        rttest := 0 }).tcpOutput s

def tcpAckNow (ip : Ip) (s : SocketId) : Option Ip :=
  (ip.updateTcp s fun socket => { socket with ackNow := true }).tcpOutput s

def tcpAck (ip : Ip) (s : SocketId) : Option Ip :=
  if (ip.tcpSocket s).ackDelay then
    (ip.updateTcp s fun socket => { socket with ackDelay := false }).tcpAckNow s
  else some (ip.updateTcp s fun socket => { socket with ackDelay := true })

end Ip
end Uos
