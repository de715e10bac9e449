import Uos.Net.Tcp.Input

/-!
# What sending leaves alone

The functions that send segments of one socket do not change what it has received, nor any other
socket, nor the lists.
-/

namespace Uos

open Option

/-- The fields of a socket that are not about sending. -/
structure TcpReceiver where
  localPort : UShort
  state : TcpState
  queue : List TcpReceived
  remoteIp : IpAddr
  remotePort : UShort
  rcvNxt : ULong
  rcvWnd : UShort
  tmr : ULong
  mss : UShort
  sndLbb : ULong
  history : TcpHistory

/-- The fields of `ip_t` for TCP, without its sockets. -/
structure TcpRegisters where
  target : Target
  route : List Route
  tcpNext : SocketId → Option SocketId
  tcpListenSockets : Option SocketId
  tcpSockets : Option SocketId
  tcpClosingSockets : Option SocketId
  tcpTicks : ULong
  tcpPort : UShort
  tcpSeqno : ULong
  tcpInputSocket : Option SocketId
  tcpInputLen : UShort
  tcpInputFlags : TcpFlags
  tcpInputSeqno : ULong
  tcpInputAckno : ULong
  tcpAlive : SocketId → Bool
  tcpFresh : SocketId
  arrived : List TcpHdr

def TcpSocket.receiver (socket : TcpSocket) : TcpReceiver where
  localPort := socket.localPort
  state := socket.state
  queue := socket.queue
  remoteIp := socket.remoteIp
  remotePort := socket.remotePort
  rcvNxt := socket.rcvNxt
  rcvWnd := socket.rcvWnd
  tmr := socket.tmr
  mss := socket.mss
  sndLbb := socket.sndLbb
  history := socket.history

namespace Ip

def registers (ip : Ip) : TcpRegisters where
  target := ip.target
  route := ip.route
  tcpNext := ip.tcpNext
  tcpListenSockets := ip.tcpListenSockets
  tcpSockets := ip.tcpSockets
  tcpClosingSockets := ip.tcpClosingSockets
  tcpTicks := ip.tcpTicks
  tcpPort := ip.tcpPort
  tcpSeqno := ip.tcpSeqno
  tcpInputSocket := ip.tcpInputSocket
  tcpInputLen := ip.tcpInputLen
  tcpInputFlags := ip.tcpInputFlags
  tcpInputSeqno := ip.tcpInputSeqno
  tcpInputAckno := ip.tcpInputAckno
  tcpAlive := ip.tcpAlive
  tcpFresh := ip.tcpFresh
  arrived := ip.arrived

@[simp] theorem setTcp_self (ip : Ip) (s : SocketId) (record : TcpSocket) :
    (ip.setTcp s record).tcpSocket s = record := by
  simp [setTcp]

theorem setTcp_other (ip : Ip) {s r : SocketId} (other : r ≠ s) (record : TcpSocket) :
    (ip.setTcp s record).tcpSocket r = ip.tcpSocket r := by
  simp [setTcp, other]

@[simp] theorem updateTcp_self (ip : Ip) (s : SocketId) (change : TcpSocket → TcpSocket) :
    (ip.updateTcp s change).tcpSocket s = change (ip.tcpSocket s) :=
  ip.setTcp_self s _

@[simp] theorem alloc_tcpSocket (ip : Ip) : ip.alloc.2.tcpSocket = ip.tcpSocket :=
  rfl

/-- Segments of a socket were sent, or tried to. -/
structure Outputs (s : SocketId) (ip ip' : Ip) : Prop where
  registers : ip'.registers = ip.registers
  others : ∀ r, r ≠ s → ip'.tcpSocket r = ip.tcpSocket r
  receiver : (ip'.tcpSocket s).receiver = (ip.tcpSocket s).receiver
  localIp : (ip.tcpSocket s).localIp = .any ∨
    (ip'.tcpSocket s).localIp = (ip.tcpSocket s).localIp

variable {ip ip' ip'' : Ip} {s : SocketId}

theorem Outputs.refl (s : SocketId) (ip : Ip) : Outputs s ip ip :=
  ⟨rfl, fun _ _ => rfl, rfl, .inr rfl⟩

theorem Outputs.trans (first : Outputs s ip ip') (second : Outputs s ip' ip'') :
    Outputs s ip ip'' := by
  refine ⟨second.registers.trans first.registers, fun r other => ?_,
    second.receiver.trans first.receiver, ?_⟩
  · rw [second.others r other, first.others r other]
  · rcases first.localIp with any | same
    · exact .inl any
    · rcases second.localIp with any | kept
      · exact .inl (same ▸ any)
      · exact .inr (kept.trans same)

theorem outputs_setTcp {record : TcpSocket}
    (receiver : record.receiver = (ip.tcpSocket s).receiver)
    (localIp : (ip.tcpSocket s).localIp = .any ∨ record.localIp = (ip.tcpSocket s).localIp) :
    Outputs s ip (ip.setTcp s record) := by
  refine ⟨rfl, fun r other => ip.setTcp_other other record, ?_, ?_⟩
  · rw [setTcp_self, receiver]
  · rwa [setTcp_self]

theorem outputs_updateTcp {change : TcpSocket → TcpSocket}
    (receiver : ∀ socket, (change socket).receiver = socket.receiver)
    (localIp : ∀ socket, (change socket).localIp = socket.localIp) :
    Outputs s ip (ip.updateTcp s change) :=
  outputs_setTcp (receiver _) (.inr (localIp _))

theorem outputs_alloc (s : SocketId) (ip : Ip) : Outputs s ip ip.alloc.2 :=
  ⟨rfl, fun _ _ => rfl, rfl, .inr rfl⟩

theorem ipOutput_outputs {p : Buf} {dest : IpAddr} {src : Option IpAddr} {proto : UChar}
    (sends : ip.ipOutput p dest src proto = some ip') : Outputs s ip ip' := by
  simp only [ipOutput] at sends
  split at sends
  · cases sends
    exact .refl s ip
  · rename_i netif gateway own _
    cases room : p.addHeader 20 with
    | none =>
      rw [ipOutputNetif_noRoom _ _ _ _ _ _ _ room] at sends
      cases sends
      exact .refl s ip
    | some packet =>
      obtain ⟨chksum, given⟩ := ipOutputNetif_sends ip dest own src (some gateway)
        proto netif room
      rw [given] at sends
      cases sends
      exact ⟨rfl, fun _ _ => rfl, rfl, .inr rfl⟩

theorem tcpOutputSegment_outputs {seg : TcpSegment}
    (sends : ip.tcpOutputSegment s seg = some ip') : Outputs s ip ip' := by
  simp only [tcpOutputSegment] at sends
  split at sends
  · cases sends
    exact .refl s ip
  · rename_i localIp own
    simp only [bind_eq_bind, bind_eq_some_iff] at sends
    obtain ⟨p, -, sends⟩ := sends
    have recorded : Outputs s ip
        (ip.setTcp s (recordSent (ip.tcpSocket s) localIp ip.tcpTicks seg)).alloc.2 := by
      refine .trans ?_ (outputs_alloc s _)
      refine outputs_setTcp ?_ ?_
      · rfl
      split at own
      · rename_i any
        exact .inl any
      · exact .inr (Option.some.inj own).symm
    split at sends
    · exact recorded.trans (ipOutput_outputs sends)
    · cases sends
      exact recorded

theorem sendBare_outputs {header : UShort → List UChar} {localIp remoteIp : IpAddr}
    (sends : ip.sendBare header localIp remoteIp = some ip') : Outputs s ip ip' := by
  simp only [sendBare, bind_eq_bind, bind_eq_some_iff] at sends
  obtain ⟨chksum, -, sends⟩ := sends
  exact ipOutput_outputs sends

theorem outputLoop_outputs {wnd : ULong} {unsent : List TcpSegment}
    (sends : outputLoop s wnd unsent ip = some ip') : Outputs s ip ip' := by
  induction unsent generalizing ip with
  | nil =>
    obtain rfl := Option.some.inj sends
    exact .refl s ip
  | cons seg unsent ih =>
    simp only [outputLoop] at sends
    split at sends
    · simp only [bind_eq_bind, bind_eq_some_iff] at sends
      obtain ⟨next, segment, sends⟩ := sends
      refine .trans (.trans ?_ (tcpOutputSegment_outputs segment)) (.trans ?_ (ih sends))
      · exact outputs_updateTcp (fun _ => rfl) fun _ => rfl
      · apply outputs_updateTcp <;> intro socket <;> rw [keepUnacked] <;> split <;> rfl
    · obtain rfl := Option.some.inj sends
      exact .refl s ip

/-- `tcp_output` sends. -/
theorem tcpOutput_outputs (sends : ip.tcpOutput s = some ip') : Outputs s ip ip' := by
  simp only [tcpOutput] at sends
  split at sends
  · cases sends
    exact .refl s ip
  · split at sends
    · simp only [sendAck] at sends
      have cleared : Outputs s ip (ip.updateTcp s clearAck).alloc.2 := by
        refine .trans ?_ (outputs_alloc s _)
        exact outputs_updateTcp (fun _ => rfl) fun _ => rfl
      split at sends
      · exact cleared.trans (sendBare_outputs sends)
      · cases sends
        exact cleared
    · exact outputLoop_outputs sends

theorem tcpRst_outputs {seqno ackno : ULong} {localIp remoteIp : IpAddr}
    {localPort remotePort : UShort}
    (sends : ip.tcpRst seqno ackno localIp remoteIp localPort remotePort = some ip') :
    Outputs s ip ip' := by
  simp only [tcpRst] at sends
  split at sends
  · exact (outputs_alloc s ip).trans (sendBare_outputs sends)
  · cases sends
    exact outputs_alloc s ip

theorem tcpRexmit_outputs (sends : ip.tcpRexmit s = some ip') : Outputs s ip ip' := by
  simp only [tcpRexmit] at sends
  split at sends
  · cases sends
    exact .refl s ip
  · refine .trans ?_ (tcpOutput_outputs sends)
    exact outputs_setTcp rfl (.inr rfl)

theorem tcpAckNow_outputs (sends : ip.tcpAckNow s = some ip') : Outputs s ip ip' := by
  refine .trans ?_ (tcpOutput_outputs sends)
  exact outputs_updateTcp (fun _ => rfl) fun _ => rfl

theorem tcpAck_outputs (sends : ip.tcpAck s = some ip') : Outputs s ip ip' := by
  simp only [tcpAck] at sends
  split at sends
  · refine .trans ?_ (tcpAckNow_outputs sends)
    exact outputs_updateTcp (fun _ => rfl) fun _ => rfl
  · cases sends
    exact outputs_updateTcp (fun _ => rfl) fun _ => rfl

end Ip

namespace TcpSocket

variable {socket socket' : TcpSocket}

theorem freeUnacked_receiver {ackno : ULong} {segments : List TcpSegment}
    (frees : freeUnacked ackno segments socket = some socket') :
    socket'.receiver = socket.receiver ∧ socket'.localIp = socket.localIp := by
  induction segments generalizing socket with
  | nil =>
    cases frees
    exact ⟨rfl, rfl⟩
  | cons seg rest ih =>
    simp only [freeUnacked] at frees
    split at frees
    · split at frees
      · have kept := ih frees
        exact kept
      · contradiction
    · cases frees
      exact ⟨rfl, rfl⟩

theorem freeUnsent_receiver {ackno : ULong} {segments : List TcpSegment}
    (frees : freeUnsent ackno segments socket = some socket') :
    socket'.receiver = socket.receiver ∧ socket'.localIp = socket.localIp := by
  induction segments generalizing socket with
  | nil =>
    cases frees
    exact ⟨rfl, rfl⟩
  | cons seg rest ih =>
    simp only [freeUnsent] at frees
    split at frees
    · split at frees
      · have kept := ih frees
        exact kept
      · contradiction
    · cases frees
      exact ⟨rfl, rfl⟩

theorem acknowledge_receiver {ackno : ULong} (acks : socket.acknowledge ackno = some socket') :
    socket'.receiver = socket.receiver ∧ socket'.localIp = socket.localIp := by
  simp only [acknowledge] at acks
  obtain ⟨receiver, localIp⟩ := freeUnacked_receiver acks
  rw [receiver, localIp]
  split <;> split <;> exact ⟨rfl, rfl⟩

theorem updateWindow_receiver (socket : TcpSocket) (seqno ackno : ULong) (wnd : UShort) :
    (socket.updateWindow seqno ackno wnd).receiver = socket.receiver ∧
      (socket.updateWindow seqno ackno wnd).localIp = socket.localIp := by
  rw [updateWindow]
  split <;> exact ⟨rfl, rfl⟩

theorem estimate_receiver (socket : TcpSocket) (ticks ackno : ULong) :
    (socket.estimate ticks ackno).receiver = socket.receiver ∧
      (socket.estimate ticks ackno).localIp = socket.localIp := by
  simp only [estimate]
  split <;> exact ⟨rfl, rfl⟩

end TcpSocket

namespace Ip

variable {ip ip' : Ip} {s : SocketId}

theorem fastRetransmit_outputs (retransmits : ip.fastRetransmit s = some ip') :
    Outputs s ip ip' := by
  simp only [fastRetransmit] at retransmits
  split at retransmits
  · simp only [bind_eq_bind, bind_eq_some_iff, Option.some.injEq] at retransmits
    obtain ⟨next, sends, rfl⟩ := retransmits
    refine .trans (tcpRexmit_outputs sends) ?_
    exact outputs_updateTcp (fun _ => rfl) fun _ => rfl
  · split at retransmits
    · cases retransmits
      exact outputs_setTcp rfl (.inr rfl)
    · cases retransmits
      exact .refl s ip

theorem compareAck_outputs {socket : TcpSocket} {rightWndEdge : ULong}
    (receiver : socket.receiver = (ip.tcpSocket s).receiver)
    (localIp : socket.localIp = (ip.tcpSocket s).localIp)
    (compares : ip.compareAck s socket rightWndEdge = some ip') : Outputs s ip ip' := by
  simp only [compareAck] at compares
  split at compares
  · split at compares
    · have counted : Outputs s ip (ip.setTcp s
          { socket with acked := 0, dupacks := socket.dupacks + 1 }) :=
        outputs_setTcp receiver (.inr localIp)
      split at compares
      · exact counted.trans (fastRetransmit_outputs compares)
      · cases compares
        exact counted
    · cases compares
      exact outputs_setTcp receiver (.inr localIp)
  · split at compares
    · obtain ⟨acked, acks, rfl⟩ := map_eq_some_iff.mp compares
      obtain ⟨ackedReceiver, ackedIp⟩ := TcpSocket.acknowledge_receiver acks
      exact outputs_setTcp (ackedReceiver.trans receiver) (.inr (ackedIp.trans localIp))
    · cases compares
      exact outputs_setTcp receiver (.inr localIp)

theorem receiveAck_outputs {h : TcpHdr} (acks : ip.receiveAck s h = some ip') :
    Outputs s ip ip' := by
  simp only [receiveAck, bind_eq_bind, bind_eq_some_iff, Option.some.injEq] at acks
  obtain ⟨next, compares, socket, frees, rfl⟩ := acks
  obtain ⟨freed, freedIp⟩ := TcpSocket.freeUnsent_receiver frees
  obtain ⟨estimated, estimatedIp⟩ :=
    socket.estimate_receiver next.tcpTicks ip.tcpInputAckno
  obtain ⟨updated, updatedIp⟩ :=
    (ip.tcpSocket s).updateWindow_receiver ip.tcpInputSeqno ip.tcpInputAckno h.wnd
  refine .trans (compareAck_outputs updated updatedIp compares) ?_
  exact outputs_setTcp (estimated.trans freed) (.inr (estimatedIp.trans freedIp))

theorem checkAck_outputs {h : TcpHdr} (checks : ip.checkAck s h = some ip') :
    Outputs s ip ip' := by
  rw [checkAck] at checks
  split at checks
  · exact receiveAck_outputs checks
  · cases checks
    exact .refl s ip

theorem receiveEmpty_outputs (receives : ip.receiveEmpty s = some ip') : Outputs s ip ip' := by
  simp only [receiveEmpty] at receives
  split at receives
  · exact tcpAckNow_outputs receives
  · cases receives
    exact .refl s ip

end Ip

/-- The fields of a socket that receiving data does not change either. -/
structure TcpConnection where
  localPort : UShort
  state : TcpState
  remoteIp : IpAddr
  remotePort : UShort
  mss : UShort
  sndLbb : ULong
  written : List UChar
  synchronised : Option ULong
  opened : Bool
  purged : Bool

/-- The fields of `ip_t` for TCP that receiving data does not change either. -/
structure TcpTables where
  target : Target
  route : List Route
  tcpNext : SocketId → Option SocketId
  tcpListenSockets : Option SocketId
  tcpSockets : Option SocketId
  tcpClosingSockets : Option SocketId
  tcpTicks : ULong
  tcpPort : UShort
  tcpSeqno : ULong
  tcpInputSocket : Option SocketId
  tcpInputFlags : TcpFlags
  tcpInputAckno : ULong
  tcpAlive : SocketId → Bool
  tcpFresh : SocketId
  arrived : List TcpHdr

def TcpReceiver.connection (receiver : TcpReceiver) : TcpConnection where
  localPort := receiver.localPort
  state := receiver.state
  remoteIp := receiver.remoteIp
  remotePort := receiver.remotePort
  mss := receiver.mss
  sndLbb := receiver.sndLbb
  written := receiver.history.written
  synchronised := receiver.history.synchronised
  opened := receiver.history.opened
  purged := receiver.history.purged

def TcpRegisters.tables (registers : TcpRegisters) : TcpTables where
  target := registers.target
  route := registers.route
  tcpNext := registers.tcpNext
  tcpListenSockets := registers.tcpListenSockets
  tcpSockets := registers.tcpSockets
  tcpClosingSockets := registers.tcpClosingSockets
  tcpTicks := registers.tcpTicks
  tcpPort := registers.tcpPort
  tcpSeqno := registers.tcpSeqno
  tcpInputSocket := registers.tcpInputSocket
  tcpInputFlags := registers.tcpInputFlags
  tcpInputAckno := registers.tcpInputAckno
  tcpAlive := registers.tcpAlive
  tcpFresh := registers.tcpFresh
  arrived := registers.arrived

def TcpSocket.connection (socket : TcpSocket) : TcpConnection :=
  socket.receiver.connection

namespace Ip

def tables (ip : Ip) : TcpTables :=
  ip.registers.tables

/-- Data of a socket was received, and segments may have been sent. -/
structure Receives (s : SocketId) (ip ip' : Ip) : Prop where
  tables : ip'.tables = ip.tables
  others : ∀ r, r ≠ s → ip'.tcpSocket r = ip.tcpSocket r
  connection : (ip'.tcpSocket s).connection = (ip.tcpSocket s).connection
  localIp : (ip.tcpSocket s).localIp = .any ∨
    (ip'.tcpSocket s).localIp = (ip.tcpSocket s).localIp

variable {ip ip' ip'' : Ip} {s : SocketId}

theorem Receives.refl (s : SocketId) (ip : Ip) : Receives s ip ip :=
  ⟨rfl, fun _ _ => rfl, rfl, .inr rfl⟩

theorem Receives.trans (first : Receives s ip ip') (second : Receives s ip' ip'') :
    Receives s ip ip'' := by
  refine ⟨second.tables.trans first.tables, fun r other => ?_,
    second.connection.trans first.connection, ?_⟩
  · rw [second.others r other, first.others r other]
  · rcases first.localIp with any | same
    · exact .inl any
    · rcases second.localIp with any | kept
      · exact .inl (same ▸ any)
      · exact .inr (kept.trans same)

theorem Outputs.receives (outputs : Outputs s ip ip') : Receives s ip ip' :=
  ⟨congrArg TcpRegisters.tables outputs.registers, outputs.others,
    congrArg TcpReceiver.connection outputs.receiver, outputs.localIp⟩

theorem receives_setTcp {record : TcpSocket}
    (connection : record.connection = (ip.tcpSocket s).connection)
    (localIp : record.localIp = (ip.tcpSocket s).localIp) :
    Receives s ip (ip.setTcp s record) := by
  refine ⟨rfl, fun r other => ip.setTcp_other other record, ?_, .inr ?_⟩
  · rw [setTcp_self, connection]
  · rw [setTcp_self, localIp]

end Ip

/-- `tcp_queue_put` adds to the end of a queue with room. -/
theorem TcpSocket.queuePut_eq {socket socket' : TcpSocket} {received : TcpReceived}
    (puts : socket.queuePut received = some socket') :
    socket.queue.length < tcpSocketQueueSize ∧
      socket' = { socket with queue := socket.queue ++ [received] } := by
  rw [queuePut] at puts
  split at puts
  · rename_i room
    exact ⟨room, (Option.some.inj puts).symm⟩
  · contradiction

namespace Ip

variable {ip ip' : Ip} {s : SocketId} {h : TcpHdr} {p : Buf}

variable {queued : Bool}

/-- What `tcp_receive` does with the data of the segment that is expected next. -/
theorem storeData_eq {socket socket' : TcpSocket}
    (stores : storeData h p socket = some (socket', queued)) :
    (queued = true ∧ p.totLen ≠ 0 ∧ socket.queue.length < tcpSocketQueueSize ∧ socket' =
      { socket with
        queue := socket.queue ++ [{ header := some h, buf := p }]
        history := { socket.history with queued := socket.history.queued ++ payload p.chunks } }) ∨
    (queued = false ∧ (p.totLen = 0 ∨ socket.queueIsFull = true) ∧ socket' = socket) := by
  rw [storeData] at stores
  split at stores
  · rename_i stored
    simp only [Bool.and_eq_true, decide_eq_true_eq] at stored
    simp only [queueData, map_eq_some_iff, bind_eq_bind, bind_eq_some_iff,
      Option.some.injEq, Prod.mk.injEq] at stores
    obtain ⟨_, ⟨_, puts, rfl⟩, rfl, rfl⟩ := stores
    obtain ⟨room, rfl⟩ := TcpSocket.queuePut_eq puts
    exact .inl ⟨rfl, stored.1, room, rfl⟩
  · rename_i dropped
    obtain ⟨rfl, rfl⟩ := Prod.mk.inj (Option.some.inj stores)
    refine .inr ⟨rfl, ?_, rfl⟩
    simp only [ne_eq, Bool.and_eq_true, decide_eq_true_eq, Bool.not_eq_true', not_and,
      Bool.not_eq_false] at dropped
    exact or_iff_not_imp_left.mpr dropped

theorem queueFin_receives (queues : ip.queueFin s h = some ip') :
    Receives s ip ip' ∧ (ip'.tcpSocket s).rcvNxt = (ip.tcpSocket s).rcvNxt ∧
      (ip'.tcpSocket s).rcvWnd = (ip.tcpSocket s).rcvWnd ∧
      (ip'.tcpSocket s).history = (ip.tcpSocket s).history ∧
      ∃ fin, (ip'.tcpSocket s).queue = (ip.tcpSocket s).queue ++ fin ∧
        (fin = [] ∨ fin = [emptyReceived] ∧
          (ip.tcpSocket s).queue.length < tcpSocketQueueSize) := by
  simp only [queueFin] at queues
  split at queues
  · split at queues
    · obtain ⟨socket, puts, rfl⟩ := map_eq_some_iff.mp queues
      obtain ⟨room, rfl⟩ := TcpSocket.queuePut_eq puts
      refine ⟨.trans (outputs_alloc s ip).receives (receives_setTcp rfl rfl), ?_⟩
      rw [setTcp_self]
      exact ⟨rfl, rfl, rfl, [emptyReceived], rfl, .inr ⟨rfl, room⟩⟩
    · cases queues
      exact ⟨(outputs_alloc s ip).receives, rfl, rfl, rfl, [], (List.append_nil _).symm, .inl rfl⟩
  · cases queues
    exact ⟨.refl s ip, rfl, rfl, rfl, [], (List.append_nil _).symm, .inl rfl⟩

/-- What the next segment in sequence does to the receive side of a socket. -/
structure Queues (socket socket' : TcpSocket) (h : TcpHdr) (p : Buf) (inputLen : UShort)
    (queued : Bool) : Prop where
  rcvNxt : socket'.rcvNxt = socket.rcvNxt + inputLen.setWidth 32
  rcvWnd : socket'.rcvWnd = if socket.rcvWnd < inputLen then 0 else socket.rcvWnd - inputLen
  stored : queued = true ∧ p.totLen ≠ 0 ∧ socket.queue.length < tcpSocketQueueSize ∧
      socket'.history.queued = socket.history.queued ++ payload p.chunks ∨
    queued = false ∧ (p.totLen = 0 ∨ socket.queueIsFull = true) ∧
      socket'.history.queued = socket.history.queued
  queue : ∃ data fin, socket'.queue = socket.queue ++ data ++ fin ∧
    (data = if queued then [{ header := some h, buf := p }] else []) ∧
    (fin = [] ∨ fin = [emptyReceived] ∧ (socket.queue ++ data).length < tcpSocketQueueSize)

theorem receiveNext_spec {len : UShort} (receives : ip.receiveNext s h p len = some (ip', queued)) :
    Receives s ip ip' ∧
      Queues (ip.tcpSocket s) (ip'.tcpSocket s) h p (len + (flagLen h.flags).setWidth 16)
        queued := by
  simp only [receiveNext, bind_eq_bind, bind_eq_some_iff, Option.some.injEq,
    Prod.mk.injEq, Prod.exists] at receives
  obtain ⟨socket, queued, stores, next, queues, next', acks, rfl, rfl⟩ := receives
  set inputLen := len + (flagLen h.flags).setWidth 16
  obtain ⟨finReceives, rcvNxt, rcvWnd, history, fin, queue, ends⟩ := queueFin_receives queues
  have acked := (tcpAck_outputs acks).receiver
  have kept : (next'.tcpSocket s).rcvNxt = (next.tcpSocket s).rcvNxt ∧
      (next'.tcpSocket s).rcvWnd = (next.tcpSocket s).rcvWnd ∧
      (next'.tcpSocket s).history = (next.tcpSocket s).history ∧
      (next'.tcpSocket s).queue = (next.tcpSocket s).queue :=
    ⟨congrArg TcpReceiver.rcvNxt acked, congrArg TcpReceiver.rcvWnd acked,
      congrArg TcpReceiver.history acked, congrArg TcpReceiver.queue acked⟩
  rw [setTcp_self] at rcvNxt rcvWnd history queue ends
  rw [rcvNxt, rcvWnd, history, queue] at kept
  obtain ⟨keptNxt, keptWnd, keptHistory, keptQueue⟩ := kept
  have frame (connection : socket.connection = (ip.tcpSocket s).connection)
      (localIp : socket.localIp = (ip.tcpSocket s).localIp) : Receives s ip next' := by
    have given : Receives s ip { ip with tcpInputLen := inputLen } :=
      ⟨rfl, fun _ _ => rfl, rfl, .inr rfl⟩
    have set : Receives s { ip with tcpInputLen := inputLen }
        ({ ip with tcpInputLen := inputLen }.setTcp s socket) := receives_setTcp connection localIp
    exact ((given.trans set).trans finReceives).trans (tcpAck_outputs acks).receives
  rcases storeData_eq stores with ⟨rfl, full, room, rfl⟩ | ⟨rfl, empty, rfl⟩
  · refine ⟨frame rfl rfl, keptNxt, keptWnd, .inl ⟨rfl, full, room, ?_⟩, _, fin, keptQueue, ?_⟩
    · rw [keptHistory]
      rfl
    · exact ⟨rfl, ends⟩
  · refine ⟨frame rfl rfl, keptNxt, keptWnd, .inr ⟨rfl, empty, ?_⟩, [], fin, ?_, rfl, ?_⟩
    · rw [keptHistory]
      rfl
    · rw [keptQueue, List.append_nil]
      rfl
    · rw [List.append_nil]
      exact ends

theorem receiveTrim_spec {len len' : UShort} {p' : Buf}
    (trims : ip.receiveTrim s p len = some (ip', p', len')) :
    Receives s ip ip' ∧ (ip'.tcpSocket s).receiver = (ip.tcpSocket s).receiver ∧
      (seqLt ip.tcpInputSeqno (ip.tcpSocket s).rcvNxt = true ∧
          seqLt (ip.tcpSocket s).rcvNxt
            (ip.tcpInputSeqno + ip.tcpInputLen.setWidth 32) = true ∧
          ip'.tcpInputSeqno = (ip.tcpSocket s).rcvNxt ∧
          p.trim ((ip.tcpSocket s).rcvNxt - ip.tcpInputSeqno).toNat = some p' ∧
          len' = len - ((ip.tcpSocket s).rcvNxt - ip.tcpInputSeqno).setWidth 16 ∨
        ¬(seqLt ip.tcpInputSeqno (ip.tcpSocket s).rcvNxt = true ∧
            seqLt (ip.tcpSocket s).rcvNxt
              (ip.tcpInputSeqno + ip.tcpInputLen.setWidth 32) = true) ∧
          ip'.tcpInputSeqno = ip.tcpInputSeqno ∧ p' = p ∧ len' = len) := by
  simp only [receiveTrim] at trims
  split at trims
  · rename_i below
    split at trims
    · rename_i above
      simp only [bind_eq_bind, bind_eq_some_iff, Option.some.injEq,
        Prod.mk.injEq] at trims
      obtain ⟨trimmed, cut, rfl, rfl, rfl⟩ := trims
      exact ⟨⟨rfl, fun _ _ => rfl, rfl, .inr rfl⟩, rfl, .inl ⟨below, above, rfl, cut, rfl⟩⟩
    · rename_i duplicate
      simp only [bind_eq_bind, bind_eq_some_iff, Option.some.injEq,
        Prod.mk.injEq] at trims
      obtain ⟨next, acks, rfl, rfl, rfl⟩ := trims
      have outputs := tcpAckNow_outputs acks
      have seqno := congrArg TcpRegisters.tcpInputSeqno outputs.registers
      exact ⟨outputs.receives, outputs.receiver,
        .inr ⟨fun both => duplicate both.2, seqno, rfl, rfl⟩⟩
  · rename_i notBelow
    simp only [Option.some.injEq, Prod.mk.injEq] at trims
    obtain ⟨rfl, rfl, rfl⟩ := trims
    exact ⟨.refl s ip, rfl, .inr ⟨fun both => notBelow both.1, rfl, rfl, rfl⟩⟩

theorem seqLt_window (a : ULong) (wnd : UShort) :
    seqLt a (a + wnd.setWidth 32) = true ↔ wnd ≠ 0 := by
  rw [seqLt_iff]
  bv_omega

/-- Whether the segment that is processed begins at, or goes across, the sequence number expected
next, while the receiver's window is open. -/
def Advances (ip : Ip) (s : SocketId) : Prop :=
  ip.tcpInputLen ≠ 0 ∧ (ip.tcpSocket s).rcvWnd ≠ 0 ∧
    (ip.tcpInputSeqno = (ip.tcpSocket s).rcvNxt ∨
      seqLt ip.tcpInputSeqno (ip.tcpSocket s).rcvNxt = true ∧
        seqLt (ip.tcpSocket s).rcvNxt (ip.tcpInputSeqno + ip.tcpInputLen.setWidth 32) = true)

/-- The buffer of a segment without the data received before. -/
def Trimmed (ip : Ip) (s : SocketId) (p p' : Buf) : Prop :=
  ip.tcpInputSeqno = (ip.tcpSocket s).rcvNxt ∧ p' = p ∨
    p.trim ((ip.tcpSocket s).rcvNxt - ip.tcpInputSeqno).toNat = some p'

theorem Queues.congr {socket socket' first : TcpSocket} {inputLen : UShort}
    (same : socket.receiver = first.receiver) (queues : Queues socket socket' h p inputLen queued) :
    Queues first socket' h p inputLen queued := by
  obtain ⟨rcvNxt, rcvWnd, stored, queue⟩ := queues
  have nextSame : socket.rcvNxt = first.rcvNxt := congrArg TcpReceiver.rcvNxt same
  have wndSame : socket.rcvWnd = first.rcvWnd := congrArg TcpReceiver.rcvWnd same
  have queueSame : socket.queue = first.queue := congrArg TcpReceiver.queue same
  have historySame : socket.history = first.history := congrArg TcpReceiver.history same
  simp only [TcpSocket.queueIsFull, nextSame, wndSame, queueSame, historySame]
    at rcvNxt rcvWnd stored queue
  exact ⟨rcvNxt, rcvWnd, stored, queue⟩

theorem receiveData_spec (nonempty : ip.tcpInputLen ≠ 0)
    (receives : ip.receiveData s h p = some (ip', queued)) :
    Receives s ip ip' ∧
      (ip.Advances s ∧ (∃ p', ip.Trimmed s p p' ∧ Queues (ip.tcpSocket s) (ip'.tcpSocket s) h p'
          (p.totLen - ((ip.tcpSocket s).rcvNxt - ip.tcpInputSeqno).setWidth 16 +
            (flagLen h.flags).setWidth 16) queued) ∨
        ¬ip.Advances s ∧ (ip'.tcpSocket s).receiver = (ip.tcpSocket s).receiver ∧
          queued = false) := by
  simp only [receiveData, bind_eq_bind, bind_eq_some_iff, Prod.exists] at receives
  obtain ⟨ip₁, p₁, len₁, trims, receives⟩ := receives
  obtain ⟨frame, receiver, trimmed⟩ := receiveTrim_spec trims
  have rcvNxt : (ip₁.tcpSocket s).rcvNxt = (ip.tcpSocket s).rcvNxt :=
    congrArg TcpReceiver.rcvNxt receiver
  have rcvWnd : (ip₁.tcpSocket s).rcvWnd = (ip.tcpSocket s).rcvWnd :=
    congrArg TcpReceiver.rcvWnd receiver
  rw [rcvNxt, rcvWnd] at receives
  split at receives
  · rename_i inside
    simp only [Bool.and_eq_true] at inside
    split at receives
    · rename_i next
      obtain ⟨nextFrame, queues⟩ := receiveNext_spec receives
      rw [← next, seqLt_window] at inside
      refine ⟨frame.trans nextFrame, .inl ?_⟩
      have queues := queues.congr receiver
      rcases trimmed with ⟨below, above, -, cut, rfl⟩ | ⟨-, same, rfl, rfl⟩
      · exact ⟨⟨nonempty, inside.2, .inr ⟨below, above⟩⟩, p₁, .inr cut, queues⟩
      · have begins : ip.tcpInputSeqno = (ip.tcpSocket s).rcvNxt := (next.trans same).symm
        refine ⟨⟨nonempty, inside.2, .inl begins⟩, p₁, .inl ⟨begins, rfl⟩, ?_⟩
        rw [begins, BitVec.sub_self]
        simpa using queues
    · rename_i notNext
      simp only [bind_eq_some_iff, Option.some.injEq, Prod.mk.injEq] at receives
      obtain ⟨next, acks, rfl, rfl⟩ := receives
      have outputs := tcpAckNow_outputs acks
      refine ⟨frame.trans outputs.receives, .inr ⟨?_, outputs.receiver.trans receiver, rfl⟩⟩
      rintro ⟨-, -, begins | both⟩
      · rcases trimmed with ⟨-, -, same, -⟩ | ⟨-, same, -⟩
        · exact notNext same.symm
        · exact notNext (begins.symm.trans same.symm)
      · rcases trimmed with ⟨-, -, same, -⟩ | ⟨notBoth, -⟩
        · exact notNext same.symm
        · exact notBoth both
  · rename_i outside
    obtain ⟨rfl, rfl⟩ := Prod.mk.inj (Option.some.inj receives)
    refine ⟨frame, .inr ⟨?_, receiver, rfl⟩⟩
    rintro ⟨-, open', begins⟩
    have next : ip₁.tcpInputSeqno = (ip.tcpSocket s).rcvNxt := by
      rcases trimmed with ⟨-, -, same, -⟩ | ⟨notBoth, same, -⟩
      · exact same
      · exact same.trans (begins.resolve_right notBoth)
    have window := (seqLt_window (ip.tcpSocket s).rcvNxt (ip.tcpSocket s).rcvWnd).mpr open'
    have geq : seqGeq (ip.tcpSocket s).rcvNxt (ip.tcpSocket s).rcvNxt = true := by
      rw [seqGeq_iff]
      simp
    simp [next, window, geq] at outside

/-- What `tcp_receive` does to the receive side of a socket. -/
theorem tcpReceive_spec (receives : ip.tcpReceive s h p = some (ip', queued)) :
    Receives s ip ip' ∧
      (ip.Advances s ∧ (∃ p', ip.Trimmed s p p' ∧ Queues (ip.tcpSocket s) (ip'.tcpSocket s) h p'
          (p.totLen - ((ip.tcpSocket s).rcvNxt - ip.tcpInputSeqno).setWidth 16 +
            (flagLen h.flags).setWidth 16) queued) ∨
        ¬ip.Advances s ∧ (ip'.tcpSocket s).receiver = (ip.tcpSocket s).receiver ∧
          queued = false) := by
  simp only [tcpReceive, bind_eq_bind, bind_eq_some_iff] at receives
  obtain ⟨ip₁, checks, receives⟩ := receives
  have outputs := checkAck_outputs checks
  have len : ip₁.tcpInputLen = ip.tcpInputLen :=
    congrArg TcpRegisters.tcpInputLen outputs.registers
  have seqno : ip₁.tcpInputSeqno = ip.tcpInputSeqno :=
    congrArg TcpRegisters.tcpInputSeqno outputs.registers
  have rcvNxt : (ip₁.tcpSocket s).rcvNxt = (ip.tcpSocket s).rcvNxt :=
    congrArg TcpReceiver.rcvNxt outputs.receiver
  have rcvWnd : (ip₁.tcpSocket s).rcvWnd = (ip.tcpSocket s).rcvWnd :=
    congrArg TcpReceiver.rcvWnd outputs.receiver
  split at receives
  · rename_i empty
    simp only [bind_eq_some_iff, Option.some.injEq, Prod.mk.injEq] at receives
    obtain ⟨next, answers, rfl, rfl⟩ := receives
    have answered := receiveEmpty_outputs answers
    refine ⟨outputs.receives.trans answered.receives, .inr ⟨fun advances => ?_,
      answered.receiver.trans outputs.receiver, rfl⟩⟩
    exact advances.1 (len.symm.trans empty)
  · rename_i nonempty
    obtain ⟨frame, result⟩ := receiveData_spec nonempty receives
    simp only [Advances, Trimmed, len, seqno, rcvNxt, rcvWnd] at result ⊢
    refine ⟨outputs.receives.trans frame, result.imp ?_ ?_⟩
    · rintro ⟨advances, p', trimmed, queues⟩
      exact ⟨advances, p', trimmed, queues.congr outputs.receiver⟩
    · rintro ⟨stays, receiver, dropped⟩
      exact ⟨stays, receiver.trans outputs.receiver, dropped⟩

end Ip
end Uos
