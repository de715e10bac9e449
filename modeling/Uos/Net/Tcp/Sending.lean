import Uos.Net.Tcp.Effects
import Uos.Net.Tcp.Sender

/-!
# What the functions of TCP do to the sender

Every function that is about one socket makes moves of its sender.
-/

namespace Uos

open Option

open TcpSocket

namespace Ip

variable {rules : SenderRules} {ip ip' : Ip} {s : SocketId} {h : TcpHdr} {p : Buf}
  {turns : Nat} {queued : Bool}

theorem ipOutput_tcpSocket {p : Buf} {dest : IpAddr} {src : Option IpAddr} {proto : UChar}
    (sends : ip.ipOutput p dest src proto = some ip') :
    ip'.tcpSocket = ip.tcpSocket ∧ ip'.tcpTicks = ip.tcpTicks := by
  simp only [ipOutput] at sends
  split at sends
  · cases sends
    exact ⟨rfl, rfl⟩
  · rename_i netif gateway own _
    cases room : p.addHeader 20 with
    | none =>
      rw [ipOutputNetif_noRoom _ _ _ _ _ _ _ room] at sends
      cases sends
      exact ⟨rfl, rfl⟩
    | some packet =>
      obtain ⟨chksum, given⟩ := ipOutputNetif_sends ip dest own src (some gateway)
        proto netif room
      rw [given] at sends
      cases sends
      exact ⟨rfl, rfl⟩

theorem sendBare_tcpSocket {header : UShort → List UChar} {localIp remoteIp : IpAddr}
    (sends : ip.sendBare header localIp remoteIp = some ip') :
    ip'.tcpSocket = ip.tcpSocket ∧ ip'.tcpTicks = ip.tcpTicks := by
  simp only [sendBare, bind_eq_bind, bind_eq_some_iff] at sends
  obtain ⟨chksum, -, sends⟩ := sends
  exact ipOutput_tcpSocket sends

theorem sendAck_sender (sends : ip.sendAck s = some ip') :
    (ip'.tcpSocket s).sender = (ip.tcpSocket s).sender ∧ ip'.tcpTicks = ip.tcpTicks := by
  have cleared : ((ip.updateTcp s clearAck).tcpSocket s).sender = (ip.tcpSocket s).sender := by
    rw [updateTcp_self]
    rfl
  simp only [sendAck] at sends
  split at sends
  · obtain ⟨sockets, ticks⟩ := sendBare_tcpSocket sends
    rw [sockets]
    exact ⟨cleared, ticks⟩
  · cases sends
    exact ⟨cleared, rfl⟩

theorem sendAck_sends (sends : ip.sendAck s = some ip') : Sends rules s ip ip' :=
  .idle (sendAck_sender sends).2 (sendAck_sender sends).1

theorem tcpOutputSegment_spec {seg : TcpSegment}
    (sends : ip.tcpOutputSegment s seg = some ip') :
    ip'.tcpTicks = ip.tcpTicks ∧
      (ip'.tcpSocket s = ip.tcpSocket s ∨ ∃ localIp,
        ip'.tcpSocket s = recordSent (ip.tcpSocket s) localIp ip.tcpTicks seg) := by
  simp only [tcpOutputSegment] at sends
  split at sends
  · cases sends
    exact ⟨rfl, .inl rfl⟩
  · rename_i localIp own
    simp only [bind_eq_bind, bind_eq_some_iff] at sends
    obtain ⟨p, -, sends⟩ := sends
    split at sends
    · obtain ⟨sockets, ticks⟩ := ipOutput_tcpSocket sends
      refine ⟨ticks, .inr ⟨localIp, ?_⟩⟩
      rw [sockets]
      exact setTcp_self ip s _
    · cases sends
      exact ⟨rfl, .inr ⟨localIp, setTcp_self ip s _⟩⟩

theorem keepUnacked_congr {seg : TcpSegment} {first second : TcpSocket}
    (same : first.sender = second.sender) :
    (keepUnacked seg first).sender = (keepUnacked seg second).sender := by
  have unacked : first.unacked = second.unacked := congrArg TcpSender.unacked same
  rw [keepUnacked, keepUnacked]
  split
  · change { first.sender with unacked := first.unacked ++ [seg] } =
      { second.sender with unacked := second.unacked ++ [seg] }
    rw [same, unacked]
  · exact same

theorem outputLoop_sends {wnd : ULong} {unsent : List TcpSegment}
    (own : (ip.tcpSocket s).unsent = unsent) (sends : outputLoop s wnd unsent ip = some ip') :
    Sends rules s ip ip' := by
  induction unsent generalizing ip with
  | nil =>
    obtain rfl := Option.some.inj sends
    exact .refl rules s ip
  | cons seg unsent ih =>
    simp only [outputLoop] at sends
    split at sends
    · simp only [bind_eq_bind, bind_eq_some_iff] at sends
      obtain ⟨next, segment, sends⟩ := sends
      obtain ⟨ticks, record⟩ := tcpOutputSegment_spec segment
      rw [updateTcp_self] at record
      set sent := next.updateTcp s (keepUnacked (answering
        (decide ((ip.tcpSocket s).state ≠ .synSent)) seg)) with kept
      have socket : sent.tcpSocket s = keepUnacked (answering
          (decide ((ip.tcpSocket s).state ≠ .synSent)) seg) (next.tcpSocket s) := by
        rw [kept, updateTcp_self]
      have rest : (sent.tcpSocket s).unsent = unsent := by
        rw [socket, keepUnacked]
        rcases record with record | ⟨localIp, record⟩ <;> split <;> rw [record] <;> rfl
      have moved : Sends rules s ip sent := by
        refine .single ticks ?_
        rcases record with record | ⟨localIp, record⟩
        · apply SenderMove.hold own
          rw [socket, record]
          exact keepUnacked_congr rfl
        · refine @SenderMove.send rules ip.tcpTicks _ _ seg unsent localIp own ?_
          rw [socket, record]
          exact keepUnacked_congr rfl
      exact moved.trans (ih rest sends)
    · obtain rfl := Option.some.inj sends
      exact .refl rules s ip

theorem tcpOutput_sends (sends : ip.tcpOutput s = some ip') : Sends rules s ip ip' := by
  simp only [tcpOutput] at sends
  split at sends
  · cases sends
    exact .refl rules s ip
  · split at sends
    · exact sendAck_sends sends
    · exact outputLoop_sends rfl sends

theorem tcpOutput_empty (empty : (ip.tcpSocket s).unsent = []) (sends : ip.tcpOutput s = some ip') :
    (ip'.tcpSocket s).sender = (ip.tcpSocket s).sender ∧ ip'.tcpTicks = ip.tcpTicks := by
  simp only [tcpOutput, empty, outputLoop] at sends
  split at sends
  · cases sends
    exact ⟨rfl, rfl⟩
  · split at sends
    · exact sendAck_sender sends
    · cases sends
      exact ⟨rfl, rfl⟩

theorem tcpRexmit_sends (allowed : rules.retransmits (ip.tcpSocket s).nrtx)
    (sends : ip.tcpRexmit s = some ip') : Sends rules s ip ip' := by
  simp only [tcpRexmit] at sends
  split at sends
  · cases sends
    exact .refl rules s ip
  · rename_i first rest split
    have outstanding : (ip.tcpSocket s).unacked ≠ [] := by simp [split]
    refine .trans ?_ (tcpOutput_sends sends)
    exact .setTcp (.retransmit allowed outstanding rfl)

theorem tcpAckNow_sends (sends : ip.tcpAckNow s = some ip') : Sends rules s ip ip' := by
  refine .trans ?_ (tcpOutput_sends sends)
  exact .updateTcp fun _ => rfl

theorem tcpAck_sends (sends : ip.tcpAck s = some ip') : Sends rules s ip ip' := by
  simp only [tcpAck] at sends
  split at sends
  · refine .trans ?_ (tcpAckNow_sends sends)
    exact .updateTcp fun _ => rfl
  · cases sends
    exact .updateTcp fun _ => rfl

end Ip

/-- Whether a segment is a duplicate acknowledgement that makes everything be sent again. -/
def TcpSocket.retransmitsFast (socket : TcpSocket) (seqno ackno : ULong) (wnd : UShort) : Bool :=
  socket.lastack = ackno &&
    (socket.updateWindow seqno ackno wnd).sndWl1 + (socket.updateWindow seqno ackno wnd).sndWnd =
      socket.sndWnd + socket.sndWl1 &&
    3 ≤ socket.dupacks + 1 && !socket.unacked.isEmpty && !socket.inFastRecovery

/-- Whether `tcp_receive` looks at the acknowledgement of a segment. -/
def TcpSocket.processes (socket : TcpSocket) (flags : TcpFlags) (ackno : ULong) : Bool :=
  !flags.has TcpFlags.rst && flags.has TcpFlags.ack &&
    match socket.state with
    | .synRcvd => seqLt socket.lastack ackno && seqLeq ackno socket.sndNxt
    | .closed | .listen | .synSent | .timeWait => false
    | _ => true

theorem TcpSocket.processes_connected {socket : TcpSocket} {flags : TcpFlags} {ackno : ULong}
    (processes : socket.processes flags ackno = true) : socket.state ≠ .synSent := by
  intro connecting
  simp [TcpSocket.processes, connecting] at processes

theorem TcpSocket.retransmitsFast_frame (socket : TcpSocket) (seqno ackno tmr : ULong)
    (wnd : UShort) (state : TcpState) (history : TcpHistory) :
    { socket with state, tmr, history }.retransmitsFast seqno ackno wnd =
      socket.retransmitsFast seqno ackno wnd := by
  simp only [retransmitsFast, updateWindow]
  split <;> rfl

namespace Ip

variable {rules : SenderRules} {ip ip' : Ip} {s : SocketId} {h : TcpHdr} {p : Buf}
  {turns : Nat} {queued : Bool}

/-- The rules know the segment that is processed. -/
structure Permits (rules : SenderRules) (ip : Ip) (s : SocketId) (h : TcpHdr) : Prop where
  connected : (ip.tcpSocket s).state ≠ .synSent
  acknowledges : rules.acknowledges ip.tcpInputAckno
  windows : rules.windows ip.tcpInputSeqno ip.tcpInputAckno h.wnd
  fast : (ip.tcpSocket s).retransmitsFast ip.tcpInputSeqno ip.tcpInputAckno h.wnd = true →
    rules.retransmits (ip.tcpSocket s).nrtx

theorem fastRetransmit_sends
    (allowed : (ip.tcpSocket s).inFastRecovery = false → rules.retransmits (ip.tcpSocket s).nrtx)
    (retransmits : ip.fastRetransmit s = some ip') : Sends rules s ip ip' := by
  simp only [fastRetransmit] at retransmits
  split at retransmits
  · rename_i first
    simp only [bind_eq_bind, bind_eq_some_iff, Option.some.injEq] at retransmits
    obtain ⟨next, sends, rfl⟩ := retransmits
    refine .trans (tcpRexmit_sends (allowed (by simpa using first)) sends) ?_
    exact .updateTcp fun _ => rfl
  · split at retransmits
    · cases retransmits
      exact .setTcp (.idle rfl)
    · cases retransmits
      exact .refl rules s ip

theorem acknowledge_spec {socket socket' : TcpSocket} {ackno : ULong}
    (acks : socket.acknowledge ackno = some socket') :
    ∃ freed kept, Frees (fun seg => seqLeq seg.ends ackno) socket.unacked freed kept ∧
      socket'.sender =
        { socket.sender with
          nrtx := 0
          rto := socket.roundTrip.setWidth 16
          sndBuf := socket.sndBuf + (ackno - socket.lastack).setWidth 16
          lastack := ackno
          unacked := kept
          sndQueuelen := socket.sndQueuelen - .ofNat 8 (chunkCount freed) } := by
  have finish (reset : TcpSocket)
      (same : reset.sender =
        { socket.sender with
          nrtx := 0
          rto := socket.roundTrip.setWidth 16
          sndBuf := socket.sndBuf + (ackno - socket.lastack).setWidth 16
          lastack := ackno })
      (frees : freeUnacked ackno reset.unacked reset = some socket') :
      ∃ freed kept, Frees (fun seg => seqLeq seg.ends ackno) socket.unacked freed kept ∧
        socket'.sender =
          { socket.sender with
            nrtx := 0
            rto := socket.roundTrip.setWidth 16
            sndBuf := socket.sndBuf + (ackno - socket.lastack).setWidth 16
            lastack := ackno
            unacked := kept
            sndQueuelen := socket.sndQueuelen - .ofNat 8 (chunkCount freed) } := by
    obtain ⟨freed, kept, covered, rfl⟩ := freeUnacked_spec frees rfl
    have unacked : reset.unacked = socket.unacked := congrArg TcpSender.unacked same
    have queuelen : reset.sndQueuelen = socket.sndQueuelen := congrArg TcpSender.sndQueuelen same
    refine ⟨freed, kept, unacked ▸ covered, ?_⟩
    change { reset.sender with
      unacked := kept
      sndQueuelen := reset.sndQueuelen - BitVec.ofNat 8 (chunkCount freed) } = _
    rw [same, queuelen]
  refine finish _ ?_ acks
  split <;> split <;> rfl

theorem compareAck_spec {socket : TcpSocket} {rightWndEdge : ULong}
    (compares : ip.compareAck s socket rightWndEdge = some ip') :
    (seqLt socket.lastack ip.tcpInputAckno = true ∧
        seqLeq ip.tcpInputAckno socket.sndMax = true ∧
        ∃ acked, socket.acknowledge ip.tcpInputAckno = some acked ∧ ip' = ip.setTcp s acked) ∨
      (seqLt socket.lastack ip.tcpInputAckno = false ∨
          seqLeq ip.tcpInputAckno socket.sndMax = false) ∧
        ∃ record, record.sender = socket.sender ∧ (ip' = ip.setTcp s record ∨
          socket.lastack = ip.tcpInputAckno ∧ socket.sndWl1 + socket.sndWnd = rightWndEdge ∧
            3 ≤ socket.dupacks + 1 ∧ socket.unacked ≠ [] ∧
            record.inFastRecovery = socket.inFastRecovery ∧
            (ip.setTcp s record).fastRetransmit s = some ip') := by
  simp only [compareAck] at compares
  split at compares
  · rename_i duplicate
    have old : seqLt socket.lastack ip.tcpInputAckno = false := by
      rw [duplicate]
      simp [seqLt]
    split at compares
    · rename_i edge
      split at compares
      · rename_i third
        exact .inr ⟨.inl old, { socket with acked := 0, dupacks := socket.dupacks + 1 }, rfl,
          .inr ⟨duplicate, edge, third.1, third.2, rfl, compares⟩⟩
      · cases compares
        exact .inr ⟨.inl old, { socket with acked := 0, dupacks := socket.dupacks + 1 }, rfl,
          .inl rfl⟩
    · cases compares
      exact .inr ⟨.inl old, { socket with acked := 0 }, rfl, .inl rfl⟩
  · split at compares
    · rename_i new
      simp only [Bool.and_eq_true] at new
      obtain ⟨acked, acks, rfl⟩ := map_eq_some_iff.mp compares
      exact .inl ⟨new.1, new.2, acked, acks, rfl⟩
    · rename_i new
      cases compares
      refine .inr ⟨?_, socket, rfl, .inl rfl⟩
      simpa only [Bool.and_eq_true, not_and_or, Bool.not_eq_true] using new

def resendRules : SenderRules where
  enqueues _ _ _ := False
  retransmits _ := True
  acknowledges _ := False
  windows _ _ _ := False
  completes _ _ := False
  sizes _ := False

theorem resent_lastack (sends : Sends resendRules s ip ip') :
    (ip'.tcpSocket s).lastack = (ip.tcpSocket s).lastack := by
  refine run_invariant (fun socket => socket.lastack = (ip.tcpSocket s).lastack) ?_ rfl sends.moves
  intro before after kept move
  have fields {sender : TcpSender} (same : after.sender = sender) :
      after.lastack = sender.lastack := congrArg TcpSender.lastack same
  cases move with
  | idle same | state _ same | retransmit _ _ same | purge _ same => exact (fields same).trans kept
  | send _ same | hold _ same =>
    rw [keepUnacked_sender] at same
    exact (fields same).trans kept
  | backOff _ _ same =>
    rw [TcpSocket.backOff] at same
    refine (fields same).trans ?_
    split <;> exact kept
  | size allowed | enqueue allowed | window allowed | acknowledge allowed | free allowed
  | estimate allowed | complete allowed => cases allowed

theorem receiveAck_sends (permits : Permits rules ip s h) (acks : ip.receiveAck s h = some ip') :
    Sends rules s ip ip' := by
  simp only [receiveAck, bind_eq_bind, bind_eq_some_iff, Option.some.injEq] at acks
  obtain ⟨next, compares, socket, frees, rfl⟩ := acks
  set windowed := (ip.tcpSocket s).updateWindow ip.tcpInputSeqno ip.tcpInputAckno h.wnd
    with windowed_eq
  have kept : windowed.lastack = (ip.tcpSocket s).lastack ∧
      windowed.dupacks = (ip.tcpSocket s).dupacks ∧
      windowed.unacked = (ip.tcpSocket s).unacked ∧
      windowed.inFastRecovery = (ip.tcpSocket s).inFastRecovery ∧
      windowed.nrtx = (ip.tcpSocket s).nrtx := by
    rw [windowed_eq, updateWindow]
    split <;> exact ⟨rfl, rfl, rfl, rfl, rfl⟩
  have window : SenderMove rules ip.tcpTicks (ip.tcpSocket s) windowed :=
    .window permits.windows permits.connected rfl
  have connected : windowed.state ≠ .synSent := window.connected permits.connected
  obtain ⟨freed, unsent, sndNxt, covered, record⟩ := freeUnsent_spec frees rfl
  have finish (ticks : next.tcpTicks = ip.tcpTicks)
      (moves : Relation.ReflTransGen (SenderMove rules ip.tcpTicks) (ip.tcpSocket s) socket)
      (connected : socket.state ≠ .synSent) :
      Sends rules s ip (next.setTcp s (socket.estimate next.tcpTicks ip.tcpInputAckno)) := by
    refine ⟨ticks, ?_⟩
    rw [setTcp_self, ticks]
    exact moves.tail (.estimate permits.acknowledges connected rfl)
  rcases compareAck_spec compares with ⟨new, sent, acked, acks, rfl⟩ | ⟨old, again, same, result⟩
  · rw [setTcp_self] at record covered
    obtain ⟨freedUnacked, unacked, freesUnacked, acknowledged⟩ := acknowledge_spec acks
    have sndMax : acked.sndMax = windowed.sndMax := congrArg TcpSender.sndMax acknowledged
    have ownUnsent : acked.unsent = windowed.unsent := congrArg TcpSender.unsent acknowledged
    have queuelen : acked.sndQueuelen = windowed.sndQueuelen - .ofNat 8 (chunkCount freedUnacked) :=
      congrArg TcpSender.sndQueuelen acknowledged
    rw [sndMax, ownUnsent] at covered
    have move : SenderMove rules ip.tcpTicks windowed socket := by
      refine .acknowledge permits.acknowledges connected new sent freesUnacked covered ?_
      rw [record]
      change { acked.sender with
        unsent := unsent
        sndQueuelen := acked.sndQueuelen - BitVec.ofNat 8 (chunkCount freed) } = _
      rw [acknowledged, queuelen]
    exact finish rfl (.tail (.single window) move) (move.connected connected)
  · have unchanged : SenderMove rules ip.tcpTicks windowed again := .idle same
    have frees (sends : Sends rules s ip next)
        (connected : (next.tcpSocket s).state ≠ .synSent)
        (old : seqLt (next.tcpSocket s).lastack ip.tcpInputAckno = false) :
        Sends rules s ip (next.setTcp s (socket.estimate next.tcpTicks ip.tcpInputAckno)) := by
      have move : SenderMove rules ip.tcpTicks (next.tcpSocket s) socket :=
        .free permits.acknowledges connected old covered (by rw [record]; rfl)
      exact finish sends.tcpTicks (sends.moves.tail move) (move.connected connected)
    have lastack : again.lastack = windowed.lastack := congrArg TcpSender.lastack same
    have sndMax : again.sndMax = windowed.sndMax := congrArg TcpSender.sndMax same
    have set : Sends rules s ip (ip.setTcp s again) := by
      refine ⟨rfl, ?_⟩
      rw [setTcp_self]
      exact .tail (.single window) unchanged
    have stays : ((ip.setTcp s again).tcpSocket s).state ≠ .synSent := by
      rw [setTcp_self]
      exact unchanged.connected connected
    rcases result with rfl | ⟨duplicate, edge, third, outstanding, recovery, fast⟩
    · rcases old with old | beyond
      · refine frees set stays ?_
        rwa [setTcp_self, lastack]
      · rw [setTcp_self] at covered record
        have none : freed = [] := by
          apply List.eq_nil_iff_forall_not_mem.mpr
          intro seg member
          have both := covered.freed seg member
          rw [sndMax, beyond, Bool.and_false] at both
          exact Bool.noConfusion both
        have unsent : again.unsent = unsent := by
          rw [covered.split, none, List.nil_append]
        have idle : SenderMove rules ip.tcpTicks again socket := by
          refine .idle ?_
          rw [record, none, ← unsent]
          change { again.sender with sndQueuelen := again.sndQueuelen - 0#8 } = _
          rw [BitVec.sub_zero]
          rfl
        exact finish rfl (.tail (.tail (.single window) unchanged) idle)
          (idle.connected (unchanged.connected connected))
    · have moves (rules : SenderRules)
          (allowed : ((ip.setTcp s again).tcpSocket s).inFastRecovery = false →
            rules.retransmits ((ip.setTcp s again).tcpSocket s).nrtx) :
          Sends rules s (ip.setTcp s again) next := fastRetransmit_sends allowed fast
      have resent : Sends rules s (ip.setTcp s again) next := by
        refine moves rules fun first => ?_
        rw [setTcp_self] at first ⊢
        rw [recovery, kept.2.2.2.1] at first
        rw [show again.nrtx = windowed.nrtx from congrArg TcpSender.nrtx same, kept.2.2.2.2]
        apply permits.fast
        rw [kept.1] at duplicate
        rw [kept.2.1] at third
        rw [kept.2.2.1] at outstanding
        simp only [retransmitsFast, Bool.and_eq_true, decide_eq_true_eq, Bool.not_eq_true',
          List.isEmpty_eq_false_iff]
        exact ⟨⟨⟨⟨duplicate, edge⟩, third⟩, outstanding⟩, first⟩
      have unacknowledged : (next.tcpSocket s).lastack = again.lastack := by
        refine (resent_lastack (moves resendRules fun _ => trivial)).trans ?_
        rw [setTcp_self]
      refine frees (set.trans resent) (resent.connected stays) ?_
      rw [unacknowledged, lastack, duplicate]
      simp [seqLt]

theorem checkAck_sends (permits : ip.tcpInputFlags.has TcpFlags.ack = true → Permits rules ip s h)
    (checks : ip.checkAck s h = some ip') : Sends rules s ip ip' := by
  rw [checkAck] at checks
  split at checks
  · rename_i acks
    exact receiveAck_sends (permits acks) checks
  · cases checks
    exact .refl rules s ip

theorem receiveEmpty_sends (receives : ip.receiveEmpty s = some ip') : Sends rules s ip ip' := by
  simp only [receiveEmpty] at receives
  split at receives
  · exact tcpAckNow_sends receives
  · cases receives
    exact .refl rules s ip

theorem receiveTrim_sends {len len' : UShort} {p' : Buf}
    (trims : ip.receiveTrim s p len = some (ip', p', len')) : Sends rules s ip ip' := by
  simp only [receiveTrim] at trims
  split at trims
  · split at trims
    · simp only [bind_eq_bind, bind_eq_some_iff, Option.some.injEq,
        Prod.mk.injEq] at trims
      obtain ⟨trimmed, cut, rfl, rfl, rfl⟩ := trims
      exact .idle rfl rfl
    · simp only [bind_eq_bind, bind_eq_some_iff, Option.some.injEq,
        Prod.mk.injEq] at trims
      obtain ⟨next, acks, rfl, rfl, rfl⟩ := trims
      exact tcpAckNow_sends acks
  · simp only [Option.some.injEq, Prod.mk.injEq] at trims
    obtain ⟨rfl, rfl, rfl⟩ := trims
    exact .refl rules s ip

theorem queueFin_sends (queues : ip.queueFin s h = some ip') : Sends rules s ip ip' := by
  simp only [queueFin] at queues
  split at queues
  · split at queues
    · obtain ⟨socket, puts, rfl⟩ := map_eq_some_iff.mp queues
      obtain ⟨-, rfl⟩ := TcpSocket.queuePut_eq puts
      refine .trans (.alloc rules s ip) (.setTcp (.idle rfl))
    · cases queues
      exact .alloc rules s ip
  · cases queues
    exact .refl rules s ip

theorem receiveNext_sends {len : UShort}
    (receives : ip.receiveNext s h p len = some (ip', queued)) : Sends rules s ip ip' := by
  simp only [receiveNext, bind_eq_bind, bind_eq_some_iff, Option.some.injEq,
    Prod.mk.injEq, Prod.exists] at receives
  obtain ⟨socket, queued, stores, next, queues, next', acks, rfl, rfl⟩ := receives
  refine .trans (.trans ?_ (queueFin_sends queues)) (tcpAck_sends acks)
  refine .idle rfl ?_
  rw [setTcp_self]
  rcases storeData_eq stores with ⟨-, -, -, rfl⟩ | ⟨-, -, rfl⟩ <;> rfl

theorem receiveData_sends (receives : ip.receiveData s h p = some (ip', queued)) :
    Sends rules s ip ip' := by
  simp only [receiveData, bind_eq_bind, bind_eq_some_iff, Prod.exists] at receives
  obtain ⟨next, p', len, trims, receives⟩ := receives
  refine .trans (receiveTrim_sends trims) ?_
  split at receives
  · split at receives
    · exact receiveNext_sends receives
    · simp only [bind_eq_some_iff, Option.some.injEq, Prod.mk.injEq] at receives
      obtain ⟨last, acks, rfl, rfl⟩ := receives
      exact tcpAckNow_sends acks
  · obtain ⟨rfl, rfl⟩ := Prod.mk.inj (Option.some.inj receives)
    exact .refl rules s next

theorem tcpReceive_sends
    (permits : ip.tcpInputFlags.has TcpFlags.ack = true → Permits rules ip s h)
    (receives : ip.tcpReceive s h p = some (ip', queued)) : Sends rules s ip ip' := by
  simp only [tcpReceive, bind_eq_bind, bind_eq_some_iff] at receives
  obtain ⟨next, checks, receives⟩ := receives
  refine .trans (checkAck_sends permits checks) ?_
  split at receives
  · simp only [bind_eq_some_iff, Option.some.injEq, Prod.mk.injEq] at receives
    obtain ⟨last, answers, rfl, rfl⟩ := receives
    exact receiveEmpty_sends answers
  · exact receiveData_sends receives

theorem Relinks.sends (relinks : Relinks ip ip') : Sends rules s ip ip' :=
  .idle relinks.tcpTicks (by rw [relinks.tcpSocket])

variable {state : TcpState}

theorem setState_sends (connected : state ≠ .synSent) :
    Sends rules s ip (ip.tcpSetSocketState s state) :=
  .setTcp (.state connected rfl)

theorem touch_sends : Sends rules s ip (ip.touch s) :=
  .setTcp (.idle rfl)

theorem moveToClosing_sends (moves : moveToClosing turns ip s = some ip') :
    Sends rules s ip ip' := by
  simp only [moveToClosing, bind_eq_bind, bind_eq_some_iff,
    Option.some.injEq] at moves
  obtain ⟨next, removes, rfl⟩ := moves
  refine .trans (tcpListRemove_relinks removes).sends (.trans ?_ (tcpListAdd_relinks _ _ s).sends)
  exact setState_sends (by decide)

theorem flushAck_purged (empty : (ip.tcpSocket s).unsent = [])
    (flushes : ip.flushAck s = some ip') :
    (ip'.tcpSocket s).sender = (ip.tcpSocket s).sender ∧ ip'.tcpTicks = ip.tcpTicks := by
  simp only [flushAck] at flushes
  split at flushes
  · have pending :
        ((ip.setTcp s { ip.tcpSocket s with ackNow := true }).tcpSocket s).unsent = [] := by
      rw [setTcp_self]
      exact empty
    obtain ⟨same, ticks⟩ := tcpOutput_empty pending flushes
    rw [setTcp_self] at same
    exact ⟨same, ticks⟩
  · cases flushes
    exact ⟨rfl, rfl⟩

theorem purge_sender :
    ((ip.tcpSocketPurge s).tcpSocket s).sender =
      { (ip.tcpSocket s).sender with unsent := [], unacked := [], sndQueuelen := 0 } := by
  rw [tcpSocketPurge, updateTcp_self]
  rfl

theorem tcpSocketRemove_sends {list : TcpList}
    (removes : tcpSocketRemove turns ip list s = some ip') : Sends rules s ip ip' := by
  simp only [tcpSocketRemove, bind_eq_bind, bind_eq_some_iff,
    Option.some.injEq] at removes
  obtain ⟨unlinked, unlinks, flushed, flushes, rfl⟩ := removes
  refine .trans (tcpListRemove_relinks unlinks).sends ?_
  have purged := @purge_sender unlinked s
  obtain ⟨same, ticks⟩ := flushAck_purged (congrArg TcpSender.unsent purged) flushes
  refine .single ticks (.purge (show TcpState.closed ≠ .synSent by decide) ?_)
  rw [tcpSetSocketState, updateTcp_self]
  change { (flushed.tcpSocket s).sender with state := .closed } = _
  rw [same, purged]

theorem closeTimeWait_sends (closes : closeTimeWait turns ip s = some ip') :
    Sends rules s ip ip' := by
  simp only [closeTimeWait, bind_eq_bind, bind_eq_some_iff] at closes
  obtain ⟨next, acks, moves⟩ := closes
  exact (tcpAckNow_sends acks).trans (moveToClosing_sends moves)

theorem answerFin_sends (connected : state ≠ .synSent) (answers : (do
      let next ← ip.tcpAckNow s
      some (next.tcpSetSocketState s state)) = some ip') : Sends rules s ip ip' := by
  simp only [bind_eq_bind, bind_eq_some_iff, Option.some.injEq] at answers
  obtain ⟨next, acks, rfl⟩ := answers
  exact (tcpAckNow_sends acks).trans (setState_sends connected)

theorem afterReceive_sends (after : afterReceive turns state ip s = some ip') :
    Sends rules s ip ip' := by
  have stays (same : some ip = some ip') : Sends rules s ip ip' :=
    Option.some.inj same ▸ .refl rules s ip
  cases state with
  | established | closeWait =>
    simp only [afterReceive, afterEstablished] at after
    split at after
    · exact answerFin_sends (by decide) after
    · exact stays after
  | finWait1 =>
    simp only [afterReceive, afterFinWait1] at after
    split at after
    · split at after
      · exact closeTimeWait_sends after
      · exact answerFin_sends (by decide) after
    · split at after
      · cases after
        exact setState_sends (by decide)
      · exact stays after
  | finWait2 =>
    simp only [afterReceive, afterFinWait2] at after
    split at after
    · exact closeTimeWait_sends after
    · exact stays after
  | closing =>
    simp only [afterReceive, afterClosing] at after
    split at after
    · exact closeTimeWait_sends after
    · exact stays after
  | lastAck =>
    simp only [afterReceive, afterLastAck] at after
    split at after
    · exact tcpSocketRemove_sends after
    · exact stays after
  | closed | listen | synSent | synRcvd | timeWait => exact stays after

theorem processReset_sends (resets : processReset turns ip s = some ip') :
    Sends rules s ip ip' := by
  simp only [processReset] at resets
  split at resets
  · cases resets
    exact .refl rules s ip
  split at resets
  · contradiction
  simp only [bind_eq_bind, bind_eq_some_iff, Option.some.injEq] at resets
  obtain ⟨next, removes, rfl⟩ := resets
  exact (tcpSocketRemove_sends removes).trans (.updateTcp fun _ => rfl)

/-- The maximum segment size of the peer, if the options of a segment have one. -/
def parsedSize (turns : Nat) (h : TcpHdr) : Option UShort :=
  if 0x50 < h.offset &&& 0xf0 then
    ((parseLoop h.opts ((h.offset.toNat / 16 - 5) * 4) turns 0).join).map fun mss =>
      if tcpMss < mss then tcpMss else mss
  else none

theorem tcpParseopt_spec (parses : tcpParseopt turns ip s h = some ip') :
    ip'.tcpTicks = ip.tcpTicks ∧ (ip'.tcpSocket s).sender =
      { (ip.tcpSocket s).sender with mss := (parsedSize turns h).getD (ip.tcpSocket s).mss } := by
  simp only [tcpParseopt] at parses
  split at parses
  · rename_i options
    simp only [bind_eq_bind, bind_eq_some_iff, Option.some.injEq] at parses
    obtain ⟨mss, loop, rfl⟩ := parses
    rw [parsedSize, if_pos options, loop, updateTcp_self]
    exact ⟨rfl, rfl⟩
  · rename_i plain
    cases parses
    rw [parsedSize, if_neg plain]
    exact ⟨rfl, rfl⟩

theorem tcpParseopt_sends (sizes : ∀ mss ∈ parsedSize turns h, rules.sizes mss)
    (parses : tcpParseopt turns ip s h = some ip') : Sends rules s ip ip' := by
  obtain ⟨ticks, same⟩ := tcpParseopt_spec parses
  refine .single ticks ?_
  cases parsed : parsedSize turns h with
  | none =>
    rw [parsed] at same
    exact .idle same
  | some mss =>
    rw [parsed] at same
    exact .size (sizes mss parsed) same

/-- The rules know everything that a segment may do. -/
structure Admits (rules : SenderRules) (turns : Nat) (ip : Ip) (s : SocketId) (h : TcpHdr) :
    Prop where
  permits : (ip.tcpSocket s).processes ip.tcpInputFlags ip.tcpInputAckno = true →
    Permits rules ip s h
  completes : (ip.tcpSocket s).state = .synSent → ip.tcpInputFlags.has TcpFlags.rst = false →
    rules.completes ip.tcpInputAckno h.wnd
  sizes : ∀ mss ∈ parsedSize turns h, rules.sizes mss

theorem processSynSent_sends (state : (ip.tcpSocket s).state = .synSent)
    (completes : rules.completes ip.tcpInputAckno h.wnd)
    (sizes : ∀ mss ∈ parsedSize turns h, rules.sizes mss)
    (processes : processSynSent turns ip s h = some ip') : Sends rules s ip ip' := by
  simp only [processSynSent] at processes
  split at processes
  · split at processes
    · contradiction
    · rename_i first rest split
      split at processes
      · rename_i ackno
        simp only [bind_eq_bind, bind_eq_some_iff] at processes
        obtain ⟨next, parses, acks⟩ := processes
        obtain ⟨ticks, same⟩ := tcpParseopt_spec parses
        refine .trans (.single ?_ ?_) (tcpAck_sends acks)
        · exact ticks
        · rw [ackno] at completes
          have size : rules.sizes ((parsedSize turns h).getD (ip.tcpSocket s).mss) ∨
              (parsedSize turns h).getD (ip.tcpSocket s).mss = (ip.tcpSocket s).mss := by
            cases parsed : parsedSize turns h with
            | none => exact .inr rfl
            | some mss => exact .inl (sizes mss parsed)
          refine .complete completes state split size ?_
          rw [tcpSetSocketState, updateTcp_self]
          change { (next.tcpSocket s).sender with state := TcpState.established } = _
          rw [same, setTcp_self, ackno]
          rfl
      · cases processes
        exact .refl rules s ip
  · cases processes
    exact .refl rules s ip

theorem processSynRcvd_sends
    (permits : ip.tcpInputFlags.has TcpFlags.ack = true →
      seqLt (ip.tcpSocket s).lastack ip.tcpInputAckno = true →
        seqLeq ip.tcpInputAckno (ip.tcpSocket s).sndNxt = true → Permits rules ip s h)
    (processes : ip.processSynRcvd s h p = some (ip', queued)) : Sends rules s ip ip' := by
  simp only [processSynRcvd] at processes
  split at processes
  · rename_i acceptable
    simp only [Bool.and_eq_true] at acceptable
    simp only [bind_eq_bind, bind_eq_some_iff, Option.some.injEq, Prod.mk.injEq,
      Prod.exists] at processes
    obtain ⟨next, queued, receives, rfl, rfl⟩ := processes
    refine .trans (.trans (setState_sends (by decide)) (tcpReceive_sends ?_ receives))
      (.updateTcp fun _ => rfl)
    intro acks
    obtain ⟨-, acknowledges, windows, fast⟩ := permits acks acceptable.1.2 acceptable.2
    refine ⟨?_, acknowledges, windows, fun duplicate => ?_⟩
    · rw [tcpSetSocketState, updateTcp_self]
      exact TcpState.noConfusion
    rw [tcpSetSocketState, updateTcp_self] at duplicate ⊢
    exact fast ((retransmitsFast_frame _ _ _ _ _ _ _).symm.trans duplicate)
  · obtain ⟨rfl, rfl⟩ := Prod.mk.inj (Option.some.inj processes)
    exact .refl rules s ip

theorem received_of_eq {state : TcpState}
    (processes : (do
      let (ip, queued) ← (ip.touch s).tcpReceive s h p
      let ip ← afterReceive turns state ip s
      some (ip, queued)) = some (ip', queued)) :
    ∃ next, (ip.touch s).tcpReceive s h p = some (next, queued) ∧
      afterReceive turns state next s = some ip' := by
  simp only [bind_eq_bind, bind_eq_some_iff, Option.some.injEq, Prod.mk.injEq,
    Prod.exists] at processes
  obtain ⟨next, queued, receives, last, after, rfl, rfl⟩ := processes
  exact ⟨next, receives, after⟩

theorem tcpProcess_sends (admits : Admits rules turns ip s h)
    (processes : tcpProcess turns ip s h p = some (ip', queued)) : Sends rules s ip ip' := by
  have permits : (ip.tcpSocket s).processes ip.tcpInputFlags ip.tcpInputAckno = true →
      Permits rules (ip.touch s) s h := by
    intro processed
    obtain ⟨connected, acknowledges, windows, fast⟩ := admits.permits processed
    refine ⟨?_, acknowledges, windows, fun duplicate => ?_⟩
    · rw [touch, updateTcp_self]
      exact connected
    rw [touch, updateTcp_self] at duplicate ⊢
    exact fast ((retransmitsFast_frame _ _ _ _ _ _ _).symm.trans duplicate)
  have untouched (same : some (ip.touch s, false) = some (ip', queued)) : Sends rules s ip ip' := by
    obtain ⟨rfl, rfl⟩ := Prod.mk.inj (Option.some.inj same)
    exact touch_sends
  have receives {state : TcpState}
      (receiving : (ip.tcpSocket s).processes ip.tcpInputFlags ip.tcpInputAckno =
        ip.tcpInputFlags.has TcpFlags.ack)
      {next : Ip} (receives : (ip.touch s).tcpReceive s h p = some (next, queued))
      (after : afterReceive turns state next s = some ip') : Sends rules s ip ip' := by
    refine .trans touch_sends (.trans (tcpReceive_sends ?_ receives) (afterReceive_sends after))
    intro acks
    exact permits (receiving.trans acks)
  rw [tcpProcess] at processes
  split at processes
  · obtain ⟨next, resets, same⟩ := map_eq_some_iff.mp processes
    obtain ⟨rfl, rfl⟩ := Prod.mk.inj same
    exact processReset_sends resets
  rename_i noReset
  have going : ip.tcpInputFlags.has TcpFlags.rst = false := (Bool.not_eq_true _).mp noReset
  cases state : (ip.tcpSocket s).state with
  | synSent =>
    simp only [state] at processes
    obtain ⟨next, completes, same⟩ := map_eq_some_iff.mp processes
    obtain ⟨rfl, rfl⟩ := Prod.mk.inj same
    refine .trans touch_sends (processSynSent_sends ?_ ?_ admits.sizes completes)
    · rw [touch, updateTcp_self]
      exact state
    · exact admits.completes state going
  | synRcvd =>
    simp only [state] at processes
    refine .trans touch_sends (processSynRcvd_sends ?_ processes)
    intro acks new sent
    rw [touch, updateTcp_self] at new sent
    refine permits ?_
    simp only [TcpSocket.processes, state, Bool.and_eq_true]
    exact ⟨⟨by rw [going]; rfl, acks⟩, new, sent⟩
  | closed | listen | timeWait =>
    simp only [state] at processes
    exact untouched processes
  | established | finWait1 | finWait2 | closeWait | closing | lastAck =>
    simp only [state] at processes
    obtain ⟨next, received, after⟩ := received_of_eq processes
    refine receives ?_ received after
    simp only [TcpSocket.processes, state, going, Bool.not_false, Bool.true_and, Bool.and_true]

theorem outputPending_sends (sends : ip.outputPending s = some ip') : Sends rules s ip ip' := by
  simp only [outputPending] at sends
  split at sends
  · exact tcpOutput_sends sends
  · cases sends
    exact .refl rules s ip

theorem inputActive_sends (admits : Admits rules turns ip s h)
    (inputs : inputActive turns ip s h p = some (ip', queued)) : Sends rules s ip ip' := by
  simp only [inputActive, bind_eq_bind, bind_eq_some_iff, Option.some.injEq,
    Prod.mk.injEq, Prod.exists] at inputs
  obtain ⟨next, queued, processes, last, sends, rfl, rfl⟩ := inputs
  have attended : Admits rules turns (ip.attend (some s)) s h := by
    refine ⟨fun processed => ?_, admits.completes, admits.sizes⟩
    obtain ⟨connected, acknowledges, windows, fast⟩ := admits.permits processed
    exact ⟨connected, acknowledges, windows, fast⟩
  have idle : Sends rules s ip (ip.attend (some s)) := .idle rfl rfl
  have done : Sends rules s next (next.attend none) := .idle rfl rfl
  exact idle.trans ((tcpProcess_sends attended processes).trans
    (done.trans (outputPending_sends sends)))

/-- The part of a turn of the slow timer that is about one socket, in its walk along the list. -/
def slowTurn (bound : Nat) (ip : Ip) (prev : Option SocketId) (s : SocketId) :
    Option (Ip × Option SocketId) := do
  let remove := (ip.tcpSocket s).gaveUp
  let ip ← ip.retryOrGiveUp s
  let (ip, remove) ← checkStuck bound ip s remove
  ip.slowRemove prev s remove

theorem retryOrGiveUp_sends
    (patient : (ip.tcpSocket s).gaveUp = false → rules.retransmits (ip.tcpSocket s).nrtx)
    (retries : ip.retryOrGiveUp s = some ip') : Sends rules s ip ip' := by
  rw [retryOrGiveUp] at retries
  split at retries
  · cases retries
    exact .refl rules s ip
  rename_i waits
  have going : (ip.tcpSocket s).gaveUp = false := by simpa using waits
  simp only [retry] at retries
  refine .trans (.updateTcp fun _ => rfl : Sends rules s ip (ip.updateTcp s tick)) ?_
  have ticked : ((ip.updateTcp s tick).tcpSocket s).gaveUp = false := by
    rw [updateTcp_self]
    exact going
  have allowed : rules.retransmits ((ip.updateTcp s tick).tcpSocket s).nrtx := by
    rw [updateTcp_self]
    exact patient going
  split at retries
  · simp only [retransmit, bind_eq_bind, bind_eq_some_iff,
      Option.some.injEq] at retries
    obtain ⟨next, sends, rfl⟩ := retries
    refine .trans (.setTcp (.backOff allowed ticked rfl)) (.trans (tcpRexmit_sends ?_ sends) ?_)
    · have nrtx (socket : TcpSocket) : socket.backOff.nrtx = socket.nrtx := by
        rw [backOff]
        split <;> rfl
      rw [setTcp_self, nrtx]
      exact allowed
    · exact .updateTcp fun _ => rfl
  · cases retries
    exact .refl rules s _

theorem slowTurn_sends {bound : Nat} {prev prev' : Option SocketId}
    (patient : (ip.tcpSocket s).gaveUp = false → rules.retransmits (ip.tcpSocket s).nrtx)
    (turn : slowTurn bound ip prev s = some (ip', prev')) : Sends rules s ip ip' := by
  simp only [slowTurn, bind_eq_bind, bind_eq_some_iff, Prod.exists] at turn
  obtain ⟨sent, retries, checked, remove, checks, removes⟩ := turn
  have stuck : Sends rules s sent checked := by
    simp only [checkStuck] at checks
    split at checks
    · split at checks
      · cases checks
        exact .refl rules s _
      split at checks
      · obtain ⟨next, moves, same⟩ := map_eq_some_iff.mp checks
        cases same
        exact moveToClosing_sends moves
      · cases checks
        exact .refl rules s _
    · cases checks
      exact .refl rules s _
  refine .trans (retryOrGiveUp_sends patient retries) (.trans stuck ?_)
  rw [slowRemove] at removes
  split at removes
  · obtain ⟨next, unlinks, same⟩ := map_eq_some_iff.mp removes
    cases same
    have removed : Sends rules s checked
        ((checked.tcpSocketPurge s).tcpSetSocketState s TcpState.closed) := by
      refine .single rfl (.purge (show TcpState.closed ≠ .synSent by decide) ?_)
      rw [tcpSetSocketState, updateTcp_self]
      exact congrArg (fun sender => { sender with state := TcpState.closed }) purge_sender
    exact removed.trans (unlinkBehind_relinks unlinks).sends
  · cases removes
    exact .refl rules s _

end Ip
end Uos
