import Uos.Net.Tcp.Fin
import Uos.Net.Tcp.User

/-!
# What does not change the connection of a socket

Most functions change one socket and leave its state, its addresses and the lists alone.
-/

namespace Uos

open Option

/-- The fields of a socket that say which connection it has and how far that has come. -/
structure TcpIdentity where
  localPort : UShort
  state : TcpState
  remoteIp : IpAddr
  remotePort : UShort
  synchronised : Option ULong
  opened : Bool

/-- The pointers between the sockets, and which sockets exist. -/
structure TcpLinks where
  tcpNext : SocketId → Option SocketId
  tcpListenSockets : Option SocketId
  tcpSockets : Option SocketId
  tcpClosingSockets : Option SocketId
  tcpAlive : SocketId → Bool
  tcpFresh : SocketId

def TcpConnection.identity (connection : TcpConnection) : TcpIdentity where
  localPort := connection.localPort
  state := connection.state
  remoteIp := connection.remoteIp
  remotePort := connection.remotePort
  synchronised := connection.synchronised
  opened := connection.opened

def TcpTables.links (tables : TcpTables) : TcpLinks where
  tcpNext := tables.tcpNext
  tcpListenSockets := tables.tcpListenSockets
  tcpSockets := tables.tcpSockets
  tcpClosingSockets := tables.tcpClosingSockets
  tcpAlive := tables.tcpAlive
  tcpFresh := tables.tcpFresh

def TcpSocket.identity (socket : TcpSocket) : TcpIdentity :=
  socket.connection.identity

namespace Ip

def links (ip : Ip) : TcpLinks :=
  ip.tables.links

/-- One socket and the segments that arrived are all that was changed. -/
structure Alters (s : SocketId) (ip ip' : Ip) : Prop where
  links : ip'.links = ip.links
  arrived : ip.arrived ⊆ ip'.arrived
  others : ∀ r, r ≠ s → ip'.tcpSocket r = ip.tcpSocket r

/-- One socket was changed, but not its connection. -/
structure Touches (s : SocketId) (ip ip' : Ip) : Prop extends Alters s ip ip' where
  identity : (ip'.tcpSocket s).identity = (ip.tcpSocket s).identity
  localIp : (ip.tcpSocket s).localIp = .any ∨
    (ip'.tcpSocket s).localIp = (ip.tcpSocket s).localIp
  queue : (ip.tcpSocket s).state = .listen →
    (ip'.tcpSocket s).queue ⊆ (ip.tcpSocket s).queue

variable {ip ip' ip'' : Ip} {s : SocketId}

theorem Alters.refl (s : SocketId) (ip : Ip) : Alters s ip ip :=
  ⟨rfl, List.Subset.refl _, fun _ _ => rfl⟩

theorem Alters.trans (first : Alters s ip ip') (second : Alters s ip' ip'') :
    Alters s ip ip'' := by
  refine ⟨second.links.trans first.links, List.Subset.trans first.arrived second.arrived,
    fun r other => ?_⟩
  rw [second.others r other, first.others r other]

theorem alters_setTcp (ip : Ip) (s : SocketId) (record : TcpSocket) :
    Alters s ip (ip.setTcp s record) :=
  ⟨rfl, List.Subset.refl _, fun _ other => ip.setTcp_other other record⟩

theorem Touches.refl (s : SocketId) (ip : Ip) : Touches s ip ip :=
  ⟨.refl s ip, rfl, .inr rfl, fun _ => List.Subset.refl _⟩

theorem Touches.state (touches : Touches s ip ip') :
    (ip'.tcpSocket s).state = (ip.tcpSocket s).state :=
  congrArg TcpIdentity.state touches.identity

theorem Touches.trans (first : Touches s ip ip') (second : Touches s ip' ip'') :
    Touches s ip ip'' := by
  refine ⟨first.toAlters.trans second.toAlters, second.identity.trans first.identity, ?_,
    fun listens =>
      List.Subset.trans (second.queue (first.state.trans listens)) (first.queue listens)⟩
  rcases first.localIp with any | same
  · exact .inl any
  · rcases second.localIp with any | kept
    · exact .inl (same ▸ any)
    · exact .inr (kept.trans same)

theorem touches_setTcp {record : TcpSocket}
    (identity : record.identity = (ip.tcpSocket s).identity)
    (localIp : record.localIp = (ip.tcpSocket s).localIp)
    (queue : (ip.tcpSocket s).state = .listen → record.queue ⊆ (ip.tcpSocket s).queue) :
    Touches s ip (ip.setTcp s record) := by
  refine ⟨alters_setTcp ip s record, ?_, ?_, ?_⟩
  · rw [setTcp_self, identity]
  · rw [setTcp_self, localIp]
    exact .inr rfl
  · rwa [setTcp_self]

theorem touches_updateTcp {change : TcpSocket → TcpSocket}
    (identity : ∀ socket, (change socket).identity = socket.identity)
    (localIp : ∀ socket, (change socket).localIp = socket.localIp)
    (queue : ∀ socket, (change socket).queue ⊆ socket.queue) :
    Touches s ip (ip.updateTcp s change) :=
  touches_setTcp (identity _) (localIp _) fun _ => queue _

theorem touches_rest (sockets : ip'.tcpSocket = ip.tcpSocket) (links : ip'.links = ip.links)
    (arrived : ip.arrived ⊆ ip'.arrived) : Touches s ip ip' := by
  refine ⟨⟨links, arrived, fun r _ => ?_⟩, ?_, .inr ?_, fun _ => ?_⟩
  · rw [sockets]
  · rw [sockets]
  · rw [sockets]
  · rw [sockets]
    exact List.Subset.refl _

theorem Receives.touches (receives : Receives s ip ip')
    (connected : (ip.tcpSocket s).state ≠ .listen) : Touches s ip ip' := by
  refine ⟨⟨congrArg TcpTables.links receives.tables, ?_, receives.others⟩,
    congrArg TcpConnection.identity receives.connection, receives.localIp,
    fun listens => absurd listens connected⟩
  have arrived : ip'.arrived = ip.arrived := congrArg TcpTables.arrived receives.tables
  rw [arrived]
  exact List.Subset.refl _

theorem Outputs.touches (outputs : Outputs s ip ip') : Touches s ip ip' := by
  have receives := outputs.receives
  have arrived : ip'.arrived = ip.arrived := congrArg TcpTables.arrived receives.tables
  have queue : (ip'.tcpSocket s).queue = (ip.tcpSocket s).queue :=
    congrArg TcpReceiver.queue outputs.receiver
  refine ⟨⟨congrArg TcpTables.links receives.tables, ?_, receives.others⟩,
    congrArg TcpConnection.identity receives.connection, receives.localIp, fun _ => ?_⟩
  · rw [arrived]
    exact List.Subset.refl _
  · rw [queue]
    exact List.Subset.refl _

/-- `tcp_enqueue` changes the send queue, if anything. -/
theorem tcpEnqueue_touches {data : List UChar} {flags : TcpFlags} {options : List UChar}
    {enqueued : Bool} (enqueues : ip.tcpEnqueue s data flags options = some (ip', enqueued)) :
    Touches s ip ip' := by
  simp only [tcpEnqueue] at enqueues
  split at enqueues
  · cases enqueues
    exact .refl s ip
  split at enqueues
  · cases enqueues
    exact .refl s ip
  split at enqueues
  · contradiction
  have remembered (memory : List Bool) : Touches s ip { ip with memory } :=
    touches_rest rfl rfl (List.Subset.refl _)
  split at enqueues
  · split at enqueues
    · cases enqueues
      exact remembered _
    · contradiction
  · split at enqueues
    · cases enqueues
      refine (remembered _).trans (touches_setTcp ?_ ?_ fun _ => ?_)
      · rfl
      · rfl
      · exact List.Subset.refl _
    · contradiction

theorem tcpParseopt_touches {turns : Nat} {h : TcpHdr}
    (parses : tcpParseopt turns ip s h = some ip') : Touches s ip ip' := by
  simp only [tcpParseopt] at parses
  split at parses
  · simp only [bind_eq_bind, bind_eq_some_iff, Option.some.injEq] at parses
    obtain ⟨mss, -, rfl⟩ := parses
    exact touches_updateTcp (fun _ => rfl) (fun _ => rfl) fun _ => List.Subset.refl _
  · cases parses
    exact .refl s ip

theorem outputPending_touches (sends : ip.outputPending s = some ip') : Touches s ip ip' := by
  simp only [outputPending] at sends
  split at sends
  · exact (tcpOutput_outputs sends).touches
  · cases sends
    exact .refl s ip

theorem closeOutput_touches (sends : ip.closeOutput s = some ip') : Touches s ip ip' :=
  outputPending_touches sends

theorem readAck_touches (acks : ip.readAck s = some ip') : Touches s ip ip' := by
  simp only [readAck] at acks
  split at acks
  · exact (tcpAck_outputs acks).touches
  · cases acks
    exact .refl s ip

theorem queueFree_touches (ip : Ip) (s : SocketId) :
    Touches s ip (ip.updateTcp s TcpSocket.queueFree) :=
  touches_updateTcp (fun _ => rfl) (fun _ => rfl) fun _ => List.nil_subset _

theorem queueGet_touches {received : TcpReceived} {socket : TcpSocket}
    (gets : (ip.tcpSocket s).queueGet = some (received, socket)) :
    Touches s ip (ip.setTcp s socket) := by
  rw [TcpSocket.queueGet] at gets
  split at gets
  · contradiction
  · rename_i queue
    cases gets
    refine touches_setTcp rfl rfl fun _ => ?_
    rw [queue]
    exact List.subset_cons_self _ _

theorem touch_touches (ip : Ip) (s : SocketId) : Touches s ip (ip.touch s) :=
  touches_updateTcp (fun _ => rfl) (fun _ => rfl) fun _ => List.Subset.refl _

theorem attend_touches (ip : Ip) (s : SocketId) (attended : Option SocketId) :
    Touches s ip (ip.attend attended) :=
  touches_rest rfl rfl (List.Subset.refl _)

theorem tcpSocketPurge_touches (ip : Ip) (s : SocketId) : Touches s ip (ip.tcpSocketPurge s) :=
  touches_updateTcp (fun _ => rfl) (fun _ => rfl) fun _ => List.Subset.refl _

theorem flushAck_touches (flushes : ip.flushAck s = some ip') : Touches s ip ip' := by
  simp only [flushAck] at flushes
  split at flushes
  · refine .trans ?_ (tcpOutput_outputs flushes).touches
    exact touches_setTcp rfl rfl fun _ => List.Subset.refl _
  · cases flushes
    exact .refl s ip

theorem tcpReceive_touches {h : TcpHdr} {p : Buf} {queued : Bool}
    (connected : (ip.tcpSocket s).state ≠ .listen)
    (receives : ip.tcpReceive s h p = some (ip', queued)) : Touches s ip ip' :=
  (tcpReceive_spec receives).1.touches connected

theorem sendDelayed_touches (sends : ip.sendDelayed s = some ip') : Touches s ip ip' := by
  simp only [sendDelayed] at sends
  split at sends
  · simp only [bind_eq_bind, bind_eq_some_iff, Option.some.injEq] at sends
    obtain ⟨next, acks, rfl⟩ := sends
    refine (tcpAckNow_outputs acks).touches.trans ?_
    exact touches_updateTcp (fun _ => rfl) (fun _ => rfl) fun _ => List.Subset.refl _
  · cases sends
    exact .refl s ip

theorem retryOrGiveUp_outputs (retries : ip.retryOrGiveUp s = some ip') : Outputs s ip ip' := by
  simp only [retryOrGiveUp, retry] at retries
  split at retries
  · cases retries
    exact .refl s ip
  have ticked : Outputs s ip (ip.updateTcp s TcpSocket.tick) :=
    outputs_updateTcp (fun _ => rfl) fun _ => rfl
  split at retries
  · simp only [retransmit, bind_eq_bind, bind_eq_some_iff, Option.some.injEq]
      at retries
    obtain ⟨next, sends, rfl⟩ := retries
    refine ticked.trans (.trans ?_ (.trans (tcpRexmit_outputs sends) ?_))
    · apply outputs_updateTcp <;> intro socket <;> rw [TcpSocket.backOff] <;> split <;> rfl
    · exact outputs_updateTcp (fun _ => rfl) fun _ => rfl
  · cases retries
    exact ticked

theorem ackClosing_touches (acks : ip.ackClosing s = some ip') : Touches s ip ip' := by
  rw [ackClosing] at acks
  split at acks
  · exact (tcpAckNow_outputs acks).touches
  · cases acks
    exact .refl s ip

theorem inputClosing_touches (inputs : ip.inputClosing s = some ip') : Touches s ip ip' := by
  simp only [inputClosing, bind_eq_bind, bind_eq_some_iff] at inputs
  obtain ⟨next, acks, sends⟩ := inputs
  refine .trans (.trans ?_ (ackClosing_touches acks)) (tcpOutput_outputs sends).touches
  exact touches_updateTcp (fun _ => rfl) (fun _ => rfl) fun _ => List.Subset.refl _

theorem takeApart_touches (ip : Ip) (s : SocketId) (h : TcpHdr) (totLen : UShort) :
    Touches s ip (ip.takeApart h totLen) :=
  touches_rest rfl rfl (List.subset_append_left _ _)

end Ip
end Uos
