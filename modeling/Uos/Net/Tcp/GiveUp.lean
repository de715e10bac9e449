import Uos.Net.Tcp.Connection

/-!
# Giving up a connection

The slow timer removes a connection whose retransmissions reach their limit, and reads the table of
its time-outs only below it, unless a duplicate acknowledgement makes the number jump over it.
-/

namespace Uos

open Option BitVec

namespace TcpSocket

/-- Whether the next turn of the slow timer reads the table of time-outs. -/
def readsBackoff (socket : TcpSocket) : Bool :=
  !socket.gaveUp && !socket.unacked.isEmpty && socket.rto ≤ socket.rtime + 1 &&
    socket.state ≠ .synSent

end TcpSocket

/-- What is known where no fast retransmission is the thirteenth retransmission. -/
def patientRules : SenderRules where
  enqueues _ _ _ := True
  retransmits nrtx := nrtx ≠ tcpMaxrtx
  acknowledges _ := True
  windows _ _ _ := True
  completes _ _ := True
  sizes _ := True

variable {rules : SenderRules} {ticks : ULong} {before after : TcpSocket}

theorem SenderMove.nrtx_cases (move : SenderMove rules ticks before after) :
    after.nrtx = before.nrtx ∨ after.nrtx = 0 ∨
      rules.retransmits before.nrtx ∧ after.nrtx = before.nrtx + 1 := by
  have fields {sender : TcpSender} (same : after.sender = sender) : after.nrtx = sender.nrtx :=
    congrArg TcpSender.nrtx same
  cases move with
  | idle same | state _ same | size _ same | enqueue _ _ _ _ same | free _ _ _ _ same
  | purge _ same
  | complete _ _ _ _ same => exact .inl (fields same)
  | send _ same | hold _ same =>
    rw [keepUnacked_sender] at same
    exact .inl (fields same)
  | retransmit allowed _ same => exact .inr (.inr ⟨allowed, fields same⟩)
  | window _ _ same =>
    rw [TcpSocket.updateWindow] at same
    split at same <;> exact .inl (fields same)
  | acknowledge _ _ _ _ _ _ same => exact .inr (.inl (fields same))
  | estimate _ _ same =>
    simp only [TcpSocket.estimate] at same
    split at same <;> exact .inl (fields same)
  | backOff _ _ same =>
    rw [TcpSocket.backOff] at same
    split at same <;> exact .inl (fields same)

theorem SenderMove.nrtx_le (move : SenderMove patientRules ticks before after)
    (small : before.nrtx.toNat ≤ 12) : after.nrtx.toNat ≤ 12 := by
  rcases move.nrtx_cases with same | zero | ⟨below, next⟩
  · rwa [same]
  · rw [zero]
    decide
  · have other : before.nrtx.toNat ≠ 12 := fun same => below (eq_of_toNat_eq same)
    rw [next]
    bv_omega

namespace Ip

variable {s : SocketId} {ip ip' : Ip}

/-- The limit is not jumped over: with that number of retransmissions, no segment is a duplicate
acknowledgement that starts another one. -/
def Patient (s : SocketId) (ip : Ip) : ConnectionEvent → Prop
  | .segment h _ =>
    (ip.tcpSocket s).processes h.flags h.ackno = true →
      (ip.tcpSocket s).retransmitsFast h.seqno h.ackno h.wnd = true →
        (ip.tcpSocket s).nrtx ≠ tcpMaxrtx
  | _ => True

/-- The table of time-outs is read inside, and the first tick after the last retransmission removes
the connection. -/
structure GivesUp (s : SocketId) (ip : Ip) : Prop where
  reads : (ip.tcpSocket s).readsBackoff = true → (ip.tcpSocket s).nrtx.toNat ≤ 12
  removes : (ip.tcpSocket s).nrtx = tcpMaxrtx → ∀ {ip'}, ConnectionStep s ip .timer ip' →
    (ip'.tcpSocket s).state = .closed ∧ (ip'.tcpSocket s).unsent = [] ∧
      (ip'.tcpSocket s).unacked = []

theorem slowTurn_removes {bound : Nat} {prev prev' : Option SocketId}
    (gaveUp : (ip.tcpSocket s).gaveUp = true)
    (turn : slowTurn bound ip prev s = some (ip', prev')) :
    (ip'.tcpSocket s).state = .closed ∧ (ip'.tcpSocket s).unsent = [] ∧
      (ip'.tcpSocket s).unacked = [] := by
  simp only [slowTurn, gaveUp, bind_eq_bind, bind_eq_some_iff, Prod.exists] at turn
  obtain ⟨sent, -, checked, remove, checks, removes⟩ := turn
  have removed : remove = true := by
    simp only [checkStuck] at checks
    split at checks
    · split at checks
      · cases checks
        rfl
      split at checks
      · obtain ⟨next, -, same⟩ := map_eq_some_iff.mp checks
        cases same
        rfl
      · cases checks
        rfl
    · cases checks
      rfl
  rw [removed, slowRemove, if_pos rfl] at removes
  obtain ⟨next, unlinks, same⟩ := map_eq_some_iff.mp removes
  cases same
  rw [(unlinkBehind_relinks unlinks).tcpSocket, tcpSetSocketState, updateTcp_self, tcpSocketPurge,
    updateTcp_self]
  exact ⟨rfl, rfl, rfl⟩

theorem patient_allows {event : ConnectionEvent} (patient : Patient s ip event) :
    Allows patientRules s ip event := by
  cases event with
  | segment h p =>
    exact ⟨fun processed => ⟨trivial, trivial, patient processed⟩, fun _ _ => trivial,
      fun _ _ _ => trivial⟩
  | timer =>
    intro waits limit
    simp [TcpSocket.gaveUp, limit] at waits
  | enqueue | output | clock | remove | outside => trivial

theorem Begins.nrtx (begins : Begins s ip) : (ip.tcpSocket s).nrtx = 0 :=
  @Begins.field s ip _ TcpSender.nrtx _ begins (fun _ _ _ _ _ => rfl) (fun _ _ => rfl)
    (fun _ _ _ _ _ => rfl) fun _ _ _ _ _ => rfl

end Ip

def lostSegment : TcpSegment where
  src := 80
  dest := 1000
  seqno := 101
  flags := TcpFlags.psh ||| TcpFlags.ack
  options := []
  len := 1
  chunks := [{ bytes := [65] }]

/-- A connection whose only segment was retransmitted `n` times, after `dupacks` duplicate
acknowledgements, without memory for copies of it. -/
structure Stalled (n : Nat) (dupacks : UChar) (inFastRecovery : Bool) (socket : TcpSocket) :
    Prop where
  localIp : socket.localIp = #v[10, 0, 0, 17]
  remoteIp : socket.remoteIp = #v[10, 0, 0, 18]
  state : socket.state = .established
  nrtx : socket.nrtx = .ofNat 8 n
  unacked : socket.unacked = [lostSegment]
  unsent : socket.unsent = []
  ackNow : socket.ackNow = false
  rcvNxt : socket.rcvNxt = 8
  rcvWnd : socket.rcvWnd = 2048
  sndWnd : socket.sndWnd = 1000
  sndWl1 : socket.sndWl1 = 8
  sndWl2 : socket.sndWl2 = 101
  sndMax : socket.sndMax = 102
  lastack : socket.lastack = 101
  rtseq : socket.rtseq = 101
  mss : socket.mss = 256
  cwnd : 256 ≤ socket.cwnd.toNat
  queuelen : socket.sndQueuelen = 1
  roundTrip : socket.roundTrip = 6
  dupacks : socket.dupacks = dupacks
  inFastRecovery : socket.inFastRecovery = inFastRecovery
  waits : socket.rtime.toNat < socket.rto.toNat

/-- There is no memory, and no segment is processed. -/
structure Idle (ip : Ip) : Prop where
  target : ip.target = .i386
  memory : ip.memory = []
  attended : ip.tcpInputSocket = none

namespace Ip

theorem lostSegment_sent {ip : Ip} (idle : Idle ip)
    (localIp : (ip.tcpSocket 0).localIp = #v[10, 0, 0, 17])
    (remoteIp : (ip.tcpSocket 0).remoteIp = #v[10, 0, 0, 18])
    (state : (ip.tcpSocket 0).state = .established) (ackNow : (ip.tcpSocket 0).ackNow = false)
    (unsent : (ip.tcpSocket 0).unsent = [lostSegment]) (unacked : (ip.tcpSocket 0).unacked = [])
    (rcvNxt : (ip.tcpSocket 0).rcvNxt = 8) (rcvWnd : (ip.tcpSocket 0).rcvWnd = 2048)
    (mss : (ip.tcpSocket 0).mss = 256) (lastack : (ip.tcpSocket 0).lastack = 101)
    (window : 1 ≤ (sendWindow (ip.tcpSocket 0)).toNat) :
    ∃ ip', ip.tcpOutput 0 = some ip' ∧ Idle ip' ∧ ip'.tcpTicks = ip.tcpTicks ∧
      ip'.tcpSocket 0 =
        { recordSent (ip.tcpSocket 0) #v[10, 0, 0, 17] ip.tcpTicks lostSegment with
          unsent := []
          unacked := [lostSegment]
          ackDelay := false } := by
  obtain ⟨target, memory, attended⟩ := idle
  obtain ⟨p, stamped⟩ : ∃ p, stampSegment .i386 #v[10, 0, 0, 17] #v[10, 0, 0, 18]
      (tcpHeader 80 1000 101 8 0x50 (TcpFlags.psh ||| TcpFlags.ack) 2048) lostSegment = some p :=
    isSome_iff_exists.mp (by decide +kernel)
  have answers : answering true lostSegment = lostSegment := by decide
  have fits : lostSegment.seqno - (ip.tcpSocket 0).lastack + lostSegment.len.setWidth 32 ≤
      sendWindow (ip.tcpSocket 0) := by
    rw [lastack, le_def]
    exact window
  set taken := ip.updateTcp 0 (takeUnsent true []) with taken_eq
  have record : taken.tcpSocket 0 = takeUnsent true [] (ip.tcpSocket 0) := updateTcp_self ip 0 _
  set sent := (taken.setTcp 0
    (recordSent (taken.tcpSocket 0) #v[10, 0, 0, 17] taken.tcpTicks lostSegment)).alloc.2
    with sent_eq
  have segment : taken.tcpOutputSegment 0 lostSegment = some sent := by
    have own : (taken.tcpSocket 0).localIp = #v[10, 0, 0, 17] := by rw [record]; exact localIp
    have peer : (taken.tcpSocket 0).remoteIp = #v[10, 0, 0, 18] := by rw [record]; exact remoteIp
    have next : (taken.tcpSocket 0).rcvNxt = 8 := by rw [record]; exact rcvNxt
    have room : (taken.tcpSocket 0).rcvWnd = 2048 := by rw [record]; exact rcvWnd
    have size : (taken.tcpSocket 0).mss = 256 := by rw [record]; exact mss
    have machine : taken.target = .i386 := target
    have short : (taken.setTcp 0 (recordSent (taken.tcpSocket 0) #v[10, 0, 0, 17] taken.tcpTicks
        lostSegment)).alloc.1 = false := by
      change taken.memory.headD false = false
      change ip.memory.headD false = false
      rw [memory]
      rfl
    have known : (#v[10, 0, 0, 17] : IpAddr) ≠ IpAddr.any := by decide
    simp only [tcpOutputSegment, own, peer, next, room, size, machine, if_neg known]
    change (stampSegment .i386 #v[10, 0, 0, 17] #v[10, 0, 0, 18]
      (tcpHeader 80 1000 101 8 0x50 (TcpFlags.psh ||| TcpFlags.ack) 2048) lostSegment).bind _ = _
    rw [stamped, bind_some, short]
    rfl
  have output : ip.tcpOutput 0 = some (sent.updateTcp 0 (keepUnacked lostSegment)) := by
    have connected : decide ((ip.tcpSocket 0).state ≠ .synSent) = true := by rw [state]; decide
    have other : ip.tcpInputSocket ≠ some 0 := by rw [attended]; decide
    simp only [tcpOutput, if_neg other, ackNow, Bool.false_and, Bool.false_eq_true,
      if_false, unsent,
      outputLoop, if_pos fits, connected, answers, ← taken_eq]
    change (taken.tcpOutputSegment 0 lostSegment).bind _ = _
    rw [segment]
    rfl
  refine ⟨_, output, ⟨target, ?_, attended⟩, rfl, ?_⟩
  · change ip.memory.tail = []
    rw [memory]
    rfl
  · have kept : sent.tcpSocket 0 =
        recordSent (takeUnsent true [] (ip.tcpSocket 0)) #v[10, 0, 0, 17] ip.tcpTicks
          lostSegment := by
      rw [sent_eq, alloc_tcpSocket, setTcp_self, record]
      rfl
    rw [updateTcp_self, kept, keepUnacked, if_pos (by decide)]
    change { recordSent (ip.tcpSocket 0) #v[10, 0, 0, 17] ip.tcpTicks lostSegment with
      unsent := []
      unacked := (ip.tcpSocket 0).unacked ++ [lostSegment]
      ackDelay := false
      ackNow := false } = _
    rw [unacked, List.nil_append]
    simp only [recordSent, ackNow]

variable {ip' : Ip} {s : SocketId}

theorem timer_established {ip : Ip} (going : (ip.tcpSocket s).gaveUp = false)
    (retries : ip.retryOrGiveUp s = some ip') (state : (ip'.tcpSocket s).state = .established) :
    ConnectionStep s ip .timer ip' := by
  have stays : checkStuck 0 ip' s false = some (ip', false) := by
    simp only [checkStuck, TcpSocket.isClosing, state]
    split <;> rfl
  have turn : slowTurn 0 ip none s = some (ip', some s) := by
    simp only [slowTurn, going, retries, bind_eq_bind, bind_some, stays]
    rfl
  exact .timer turn

variable {n : Nat} {d : UChar} {recovers : Bool} {ip : Ip}

theorem stalled_going (stalled : Stalled n d recovers (ip.tcpSocket 0)) (other : n ≠ 12)
    (small : n < 256) : (ip.tcpSocket 0).gaveUp = false := by
  have nrtx : (.ofNat 8 n : UChar) ≠ tcpMaxrtx := by
    intro same
    have equal := congrArg BitVec.toNat same
    rw [toNat_ofNat, Nat.mod_eq_of_lt small] at equal
    exact other equal
  simp [TcpSocket.gaveUp, stalled.state, stalled.nrtx, nrtx]

theorem stalled_waits (idle : Idle ip) (stalled : Stalled n d recovers (ip.tcpSocket 0))
    (other : n ≠ 12) (small : n < 256)
    (early : (ip.tcpSocket 0).rtime.toNat + 1 < (ip.tcpSocket 0).rto.toNat) :
    ConnectionStep 0 ip .timer (ip.updateTcp 0 TcpSocket.tick) ∧
      Idle (ip.updateTcp 0 TcpSocket.tick) ∧
      Stalled n d recovers ((ip.updateTcp 0 TcpSocket.tick).tcpSocket 0) ∧
      ((ip.updateTcp 0 TcpSocket.tick).tcpSocket 0).rto = (ip.tcpSocket 0).rto ∧
      ((ip.updateTcp 0 TcpSocket.tick).tcpSocket 0).rtime.toNat =
        (ip.tcpSocket 0).rtime.toNat + 1 := by
  have bound := (ip.tcpSocket 0).rto.isLt
  have next : ((ip.tcpSocket 0).rtime + 1).toNat = (ip.tcpSocket 0).rtime.toNat + 1 := by bv_omega
  have going := stalled_going stalled other small
  have retries : ip.retryOrGiveUp 0 = some (ip.updateTcp 0 TcpSocket.tick) := by
    rw [retryOrGiveUp, if_neg (by rw [going]; decide), retry, if_neg]
    rintro ⟨-, due⟩
    rw [updateTcp_self, le_def] at due
    change (ip.tcpSocket 0).rto.toNat ≤ ((ip.tcpSocket 0).rtime + 1).toNat at due
    omega
  refine ⟨timer_established going retries ?_, ⟨idle.target, idle.memory, idle.attended⟩, ?_, ?_, ?_⟩
  · rw [updateTcp_self]
    exact stalled.state
  · rw [updateTcp_self]
    exact { stalled with waits := next.trans_lt early }
  · rw [updateTcp_self]
    rfl
  · rw [updateTcp_self]
    exact next

theorem backOff_stalled {socket : TcpSocket} (state : socket.state = .established) :
    socket.backOff =
      { socket with rto := (socket.roundTrip <<< tcpBackoff socket.nrtx).setWidth 16 } := by
  rw [TcpSocket.backOff, if_pos (by rw [state]; decide)]

theorem doubled_positive (small : n < 12) :
    0 < (((6 : BitVec 32) <<< tcpBackoff (.ofNat 8 n)).setWidth 16).toNat := by
  have all : ∀ n < 12, 0 < (((6 : BitVec 32) <<< tcpBackoff (.ofNat 8 n)).setWidth 16).toNat := by
    decide
  exact all n small

theorem stalled_resent {socket : TcpSocket} {tmr : ULong} {rtime rto cwnd ssthresh acked : UShort}
    {dupacks : UChar} {inFastRecovery : Bool} (idle : Idle ip)
    (stalled : Stalled n d recovers socket)
    (record : ip.tcpSocket 0 =
      { socket with
        tmr, rtime, rto, cwnd, ssthresh, acked, dupacks, inFastRecovery
        unsent := [lostSegment]
        unacked := []
        sndNxt := 101
        nrtx := socket.nrtx + 1
        rttest := 0 })
    (wide : 256 ≤ cwnd.toNat) (positive : 0 < rto.toNat) :
    ∃ ip', ip.tcpOutput 0 = some ip' ∧ Idle ip' ∧
      Stalled (n + 1) dupacks inFastRecovery (ip'.tcpSocket 0) := by
  obtain ⟨ip', output, idle', -, sent⟩ : ∃ ip', ip.tcpOutput 0 = some ip' ∧ Idle ip' ∧
      ip'.tcpTicks = ip.tcpTicks ∧ ip'.tcpSocket 0 =
        { recordSent (ip.tcpSocket 0) #v[10, 0, 0, 17] ip.tcpTicks lostSegment with
          unsent := []
          unacked := [lostSegment]
          ackDelay := false } := by
    apply lostSegment_sent idle <;> rw [record]
    · exact stalled.localIp
    · exact stalled.remoteIp
    · exact stalled.state
    · exact stalled.ackNow
    · exact stalled.rcvNxt
    · exact stalled.rcvWnd
    · exact stalled.mss
    · exact stalled.lastack
    · have room : 256 ≤ (cwnd.setWidth 32).toNat := by
        rwa [toNat_setWidth_of_le (by decide)]
      simp only [sendWindow, stalled.sndWnd]
      split
      · decide
      · omega
  refine ⟨ip', output, idle', ?_⟩
  rw [sent, record]
  exact
    { localIp := rfl
      remoteIp := stalled.remoteIp
      state := stalled.state
      nrtx := by
        change socket.nrtx + 1 = _
        rw [stalled.nrtx, ofNat_add]
        rfl
      unacked := rfl
      unsent := rfl
      ackNow := stalled.ackNow
      rcvNxt := stalled.rcvNxt
      rcvWnd := stalled.rcvWnd
      sndWnd := stalled.sndWnd
      sndWl1 := stalled.sndWl1
      sndWl2 := stalled.sndWl2
      sndMax := by
        change (if seqLt socket.sndMax lostSegment.ends then _ else socket.sndMax) = (102 : ULong)
        rw [stalled.sndMax]
        decide
      lastack := stalled.lastack
      rtseq := rfl
      mss := stalled.mss
      cwnd := wide
      queuelen := stalled.queuelen
      roundTrip := stalled.roundTrip
      dupacks := rfl
      inFastRecovery := rfl
      waits := positive }

theorem stalled_retransmits (idle : Idle ip) (stalled : Stalled n d recovers (ip.tcpSocket 0))
    (small : n < 12) (due : (ip.tcpSocket 0).rto.toNat = (ip.tcpSocket 0).rtime.toNat + 1) :
    ∃ ip', ConnectionStep 0 ip .timer ip' ∧ Idle ip' ∧
      Stalled (n + 1) d recovers (ip'.tcpSocket 0) := by
  have bound := (ip.tcpSocket 0).rto.isLt
  have going := stalled_going stalled (by omega) (by omega)
  have next : ((ip.tcpSocket 0).rtime + 1).toNat = (ip.tcpSocket 0).rtime.toNat + 1 := by bv_omega
  set socket := ip.tcpSocket 0 with socket_eq
  set backed : TcpSocket :=
    { socket.tick with rto := (socket.roundTrip <<< tcpBackoff socket.nrtx).setWidth 16 }
    with backed_eq
  set late := (ip.updateTcp 0 TcpSocket.tick).updateTcp 0 TcpSocket.backOff with late_eq
  have current : late.tcpSocket 0 = backed := by
    rw [late_eq, updateTcp_self, updateTcp_self]
    exact backOff_stalled stalled.state
  have positive : 0 < ((socket.roundTrip <<< tcpBackoff socket.nrtx).setWidth 16).toNat := by
    rw [stalled.roundTrip, stalled.nrtx]
    exact doubled_positive small
  obtain ⟨sent, output, sentIdle, sentStalled⟩ := stalled_resent
    (show Idle (late.setTcp 0 _) from ⟨idle.target, idle.memory, idle.attended⟩) stalled
    (setTcp_self _ 0 _) stalled.cwnd positive
  have rexmit : late.tcpRexmit 0 = some sent := by
    have unacked : backed.unacked = [lostSegment] := stalled.unacked
    have unsent : backed.unsent = [] := stalled.unsent
    simp only [tcpRexmit, current, unacked, unsent, List.append_nil]
    exact output
  have retries : ip.retryOrGiveUp 0 = some (sent.updateTcp 0 TcpSocket.slowDown) := by
    rw [retryOrGiveUp, if_neg (by rw [← socket_eq, going]; decide), retry, if_pos]
    · simp only [retransmit, bind_eq_bind, ← late_eq, rexmit, bind_some]
    · rw [updateTcp_self, le_def]
      refine ⟨?_, ?_⟩
      · change socket.unacked ≠ []
        rw [stalled.unacked]
        exact List.cons_ne_nil _ _
      · change socket.rto.toNat ≤ (socket.rtime + 1).toNat
        omega
  refine ⟨_, timer_established going retries ?_, ⟨sentIdle.target, sentIdle.memory,
    sentIdle.attended⟩, ?_⟩
  · rw [updateTcp_self]
    exact sentStalled.state
  · rw [updateTcp_self]
    refine { sentStalled with
      cwnd := ?_
      dupacks := sentStalled.dupacks.trans stalled.dupacks
      inFastRecovery := sentStalled.inFastRecovery.trans stalled.inFastRecovery }
    change 256 ≤ (sent.tcpSocket 0).mss.toNat
    rw [sentStalled.mss]
    decide

/-- Any event may happen. -/
abbrev AnyRun : Ip → Ip → Prop :=
  ConnectionRun 0 fun _ _ => True

theorem AnyRun.tick (turn : ConnectionStep 0 { ip with tcpTicks := ip.tcpTicks + 1 } .timer ip') :
    AnyRun ip ip' :=
  .tail (.single ⟨.clock, trivial, .clock⟩) ⟨.timer, trivial, turn⟩

theorem stalled_expires (idle : Idle ip) (stalled : Stalled n d recovers (ip.tcpSocket 0))
    (other : n ≠ 12) (small : n < 256) :
    ∃ ip', AnyRun ip ip' ∧ Idle ip' ∧ Stalled n d recovers (ip'.tcpSocket 0) ∧
      (ip'.tcpSocket 0).rto.toNat = (ip'.tcpSocket 0).rtime.toNat + 1 := by
  obtain ⟨rest, gap⟩ : ∃ rest,
      (ip.tcpSocket 0).rto.toNat = (ip.tcpSocket 0).rtime.toNat + 1 + rest :=
    Nat.exists_eq_add_of_lt stalled.waits |>.imp fun rest same => by omega
  induction rest generalizing ip with
  | zero => exact ⟨ip, .refl, idle, stalled, gap⟩
  | succ rest ih =>
    have quiet : Idle { ip with tcpTicks := ip.tcpTicks + 1 } :=
      ⟨idle.target, idle.memory, idle.attended⟩
    obtain ⟨turn, idle', stalled', rto, rtime⟩ := stalled_waits quiet stalled other small
      (by change (ip.tcpSocket 0).rtime.toNat + 1 < (ip.tcpSocket 0).rto.toNat; omega)
    obtain ⟨ip', run, result⟩ := ih idle' stalled' (by
      rw [rto, rtime]
      change (ip.tcpSocket 0).rto.toNat = (ip.tcpSocket 0).rtime.toNat + 1 + 1 + rest
      omega)
    exact ⟨ip', (AnyRun.tick turn).trans run, result⟩

theorem stalled_next (idle : Idle ip) (stalled : Stalled n d recovers (ip.tcpSocket 0))
    (small : n < 12) :
    ∃ ip', AnyRun ip ip' ∧ Idle ip' ∧ Stalled (n + 1) d recovers (ip'.tcpSocket 0) := by
  obtain ⟨late, run, idle', stalled', due⟩ := stalled_expires idle stalled (by omega) (by omega)
  have quiet : Idle { late with tcpTicks := late.tcpTicks + 1 } :=
    ⟨idle'.target, idle'.memory, idle'.attended⟩
  obtain ⟨ip', turn, result⟩ := stalled_retransmits quiet stalled' small due
  exact ⟨ip', run.trans (AnyRun.tick turn), result⟩

theorem stalled_reaches (idle : Idle ip) (stalled : Stalled 0 d recovers (ip.tcpSocket 0))
    (small : n ≤ 12) :
    ∃ ip', AnyRun ip ip' ∧ Idle ip' ∧ Stalled n d recovers (ip'.tcpSocket 0) := by
  induction n with
  | zero => exact ⟨ip, .refl, idle, stalled⟩
  | succ n ih =>
    obtain ⟨middle, run, idle', stalled'⟩ := ih (by omega)
    obtain ⟨ip', last, result⟩ := stalled_next idle' stalled' (by omega)
    exact ⟨ip', run.trans last, result⟩

theorem attend_tcpSocket (ip : Ip) (attended : Option SocketId) (s : SocketId) :
    (ip.attend attended).tcpSocket s = ip.tcpSocket s := rfl

/-- The stack while the duplicate acknowledgement is processed. -/
def duplicate (ip : Ip) : Ip :=
  ((ip.takeApart peerAck 0).attend (some 0)).touch 0

theorem duplicate_target (ip : Ip) : ip.duplicate.target = ip.target := rfl

theorem duplicate_memory (ip : Ip) : ip.duplicate.memory = ip.memory := rfl

theorem duplicate_socket (ip : Ip) :
    ip.duplicate.tcpSocket 0 = { ip.tcpSocket 0 with tmr := ip.tcpTicks } := by
  rw [duplicate, touch, updateTcp_self]
  rfl

theorem duplicate_processed (stalled : Stalled n d recovers (ip.tcpSocket 0))
    (compares : ip.duplicate.compareAck 0 (ip.duplicate.tcpSocket 0) 1008 = some ip')
    (unsent : (ip'.tcpSocket 0).unsent = [] ∨ (ip'.tcpSocket 0).unsent = [lostSegment])
    (rtseq : (ip'.tcpSocket 0).rtseq = 101) :
    tcpProcess 0 ((ip.takeApart peerAck 0).attend (some 0)) 0 peerAck noData =
      some (ip', false) := by
  have outputs : Outputs 0 ip.duplicate ip' := compareAck_outputs rfl rfl compares
  have record := duplicate_socket ip
  have ticks : ip'.tcpTicks = ip.tcpTicks := congrArg TcpRegisters.tcpTicks outputs.registers
  have len : ip'.tcpInputLen = 0 := congrArg TcpRegisters.tcpInputLen outputs.registers
  have seqno : ip'.tcpInputSeqno = 8 := congrArg TcpRegisters.tcpInputSeqno outputs.registers
  have masked : peerAck.flags &&& 0x3f = TcpFlags.ack := by decide
  have flags : ip'.tcpInputFlags = TcpFlags.ack :=
    (congrArg TcpRegisters.tcpInputFlags outputs.registers).trans masked
  have rcvNxt : (ip'.tcpSocket 0).rcvNxt = 8 := by
    have same : (ip'.tcpSocket 0).rcvNxt = (ip.duplicate.tcpSocket 0).rcvNxt :=
      congrArg TcpReceiver.rcvNxt outputs.receiver
    rw [same, record]
    exact stalled.rcvNxt
  have rcvWnd : (ip'.tcpSocket 0).rcvWnd = 2048 := by
    have same : (ip'.tcpSocket 0).rcvWnd = (ip.duplicate.tcpSocket 0).rcvWnd :=
      congrArg TcpReceiver.rcvWnd outputs.receiver
    rw [same, record]
    exact stalled.rcvWnd
  have state : (ip'.tcpSocket 0).state = .established := by
    have same : (ip'.tcpSocket 0).state = (ip.duplicate.tcpSocket 0).state :=
      congrArg TcpReceiver.state outputs.receiver
    rw [same, record]
    exact stalled.state
  have same : (ip.duplicate.tcpSocket 0).updateWindow 8 101 1000 = ip.duplicate.tcpSocket 0 := by
    rw [record, TcpSocket.updateWindow, if_neg]
    rw [stalled.sndWl1, stalled.sndWl2, stalled.sndWnd]
    decide
  have edge : (ip.duplicate.tcpSocket 0).sndWnd + (ip.duplicate.tcpSocket 0).sndWl1 = 1008 := by
    rw [record]
    change (ip.tcpSocket 0).sndWnd + (ip.tcpSocket 0).sndWl1 = 1008
    rw [stalled.sndWnd, stalled.sndWl1]
    decide
  have frees : TcpSocket.freeUnsent 101 (ip'.tcpSocket 0).unsent (ip'.tcpSocket 0) =
      some (ip'.tcpSocket 0) := by
    rcases unsent with none | lost
    · rw [none]
      rfl
    · rw [lost, TcpSocket.freeUnsent, if_neg]
      rw [Bool.and_eq_true]
      rintro ⟨covered, -⟩
      exact absurd covered (by decide)
  have estimate : (ip'.tcpSocket 0).estimate ip'.tcpTicks 101 = ip'.tcpSocket 0 := by
    have early : seqLt (101 : ULong) 101 = false := by decide
    rw [TcpSocket.estimate, rtseq, early]
    simp
  have acks : ip.duplicate.receiveAck 0 peerAck = some ip' := by
    simp only [receiveAck]
    change ip.duplicate.compareAck 0 ((ip.duplicate.tcpSocket 0).updateWindow 8 101 1000)
      ((ip.duplicate.tcpSocket 0).sndWnd + (ip.duplicate.tcpSocket 0).sndWl1) >>= _ = _
    rw [same, edge, compares]
    change (TcpSocket.freeUnsent 101 (ip'.tcpSocket 0).unsent (ip'.tcpSocket 0)).bind _ = _
    rw [frees]
    change some (ip'.setTcp 0 ((ip'.tcpSocket 0).estimate ip'.tcpTicks 101)) = _
    rw [estimate, setTcp, Function.update_eq_self]
  have receives : ip.duplicate.tcpReceive 0 peerAck noData = some (ip', false) := by
    have checks : ip.duplicate.checkAck 0 peerAck = some ip' := by
      have acked : ip.duplicate.tcpInputFlags.has TcpFlags.ack = true := by
        change (peerAck.flags &&& 0x3f).has TcpFlags.ack = true
        decide
      rw [checkAck, if_pos acked, acks]
    have empties : ip'.receiveEmpty 0 = some ip' := by
      simp only [receiveEmpty, rcvNxt, rcvWnd, seqno]
      rfl
    simp only [tcpReceive, checks, bind_eq_bind, bind_some, if_pos len, empties]
  have noReset : ((ip.takeApart peerAck 0).attend (some 0)).tcpInputFlags.has TcpFlags.rst =
      false := by
    change (peerAck.flags &&& 0x3f).has TcpFlags.rst = false
    decide
  have noFin : ip'.tcpInputFlags.has TcpFlags.fin = false := by
    rw [flags]
    decide
  have before : (((ip.takeApart peerAck 0).attend (some 0)).tcpSocket 0).state = .established :=
    stalled.state
  simp only [tcpProcess, noReset, Bool.false_eq_true, if_false, before]
  change (ip.duplicate.tcpReceive 0 peerAck noData).bind _ = _
  rw [receives]
  change (afterEstablished ip' 0).bind _ = _
  rw [afterEstablished, noFin]
  rfl

theorem duplicate_compares (stalled : Stalled n d recovers (ip.tcpSocket 0))
    (result : (if (3 : UChar) ≤ d + 1 then
      (ip.duplicate.setTcp 0
        { ip.duplicate.tcpSocket 0 with acked := 0, dupacks := d + 1 }).fastRetransmit 0
      else some (ip.duplicate.setTcp 0
        { ip.duplicate.tcpSocket 0 with acked := 0, dupacks := d + 1 })) = some ip') :
    ip.duplicate.compareAck 0 (ip.duplicate.tcpSocket 0) 1008 = some ip' := by
  have lastack : (ip.duplicate.tcpSocket 0).lastack = ip.duplicate.tcpInputAckno := by
    rw [duplicate_socket]
    exact stalled.lastack
  have edge : (ip.duplicate.tcpSocket 0).sndWl1 + (ip.duplicate.tcpSocket 0).sndWnd = 1008 := by
    rw [duplicate_socket]
    change (ip.tcpSocket 0).sndWl1 + (ip.tcpSocket 0).sndWnd = 1008
    rw [stalled.sndWl1, stalled.sndWnd]
    decide
  have count : (ip.duplicate.tcpSocket 0).dupacks = d := by
    rw [duplicate_socket]
    exact stalled.dupacks
  have unacked : (ip.duplicate.tcpSocket 0).unacked ≠ [] := by
    rw [duplicate_socket]
    change (ip.tcpSocket 0).unacked ≠ []
    rw [stalled.unacked]
    exact List.cons_ne_nil _ _
  simp only [compareAck, if_pos lastack, if_pos edge, count, unacked, ne_eq, not_false_eq_true,
    and_true]
  exact result

theorem stalled_counts (idle : Idle ip) (stalled : Stalled n d false (ip.tcpSocket 0))
    (few : ¬(3 : UChar) ≤ d + 1) :
    ∃ ip', AnyRun ip ip' ∧ Idle ip' ∧ Stalled n (d + 1) false (ip'.tcpSocket 0) := by
  set counted := ip.duplicate.setTcp 0
    { ip.duplicate.tcpSocket 0 with acked := 0, dupacks := d + 1 } with counted_eq
  have record : counted.tcpSocket 0 =
      { ip.tcpSocket 0 with tmr := ip.tcpTicks, acked := 0, dupacks := d + 1 } := by
    rw [counted_eq, setTcp_self, duplicate_socket]
  have compares : ip.duplicate.compareAck 0 (ip.duplicate.tcpSocket 0) 1008 = some counted :=
    duplicate_compares stalled (if_neg few)
  have unsent : (counted.tcpSocket 0).unsent = [] := by
    rw [record]
    exact stalled.unsent
  have process := duplicate_processed stalled compares (.inl unsent)
    (by rw [record]; exact stalled.rtseq)
  have pending : (counted.attend none).outputPending 0 = some (counted.attend none) := by
    have quiet : (counted.tcpSocket 0).ackNow = false := by
      rw [record]
      exact stalled.ackNow
    simp only [outputPending, attend_tcpSocket, unsent, quiet]
    rfl
  have input : inputActive 0 (ip.takeApart peerAck noData.totLen) 0 peerAck noData =
      some (counted.attend none, false) := by
    simp only [inputActive]
    change (tcpProcess 0 ((ip.takeApart peerAck 0).attend (some 0)) 0 peerAck noData).bind _ = _
    rw [process]
    change ((counted.attend none).outputPending 0).bind _ = _
    rw [pending]
    rfl
  refine ⟨counted.attend none, .single ⟨_, trivial, .segment input⟩,
    ⟨(duplicate_target ip).trans idle.target, (duplicate_memory ip).trans idle.memory, rfl⟩, ?_⟩
  rw [attend_tcpSocket, record]
  exact { stalled with dupacks := rfl }

theorem tcpRexmit_attended {ip : Ip} {first : TcpSegment} {rest : List TcpSegment}
    (attended : ip.tcpInputSocket = some s) (unacked : (ip.tcpSocket s).unacked = first :: rest) :
    ip.tcpRexmit s = some (ip.setTcp s
      { ip.tcpSocket s with
        unsent := first :: rest ++ (ip.tcpSocket s).unsent
        unacked := []
        sndNxt := first.seqno
        nrtx := (ip.tcpSocket s).nrtx + 1
        rttest := 0 }) := by
  have quiet {socket : TcpSocket} : (ip.setTcp s socket).tcpOutput s = some (ip.setTcp s socket) :=
    if_pos attended
  simp only [tcpRexmit, unacked, quiet]

theorem fastRetransmit_attended {ip : Ip} {first : TcpSegment} {rest : List TcpSegment}
    (attended : ip.tcpInputSocket = some s) (slow : (ip.tcpSocket s).inFastRecovery = false)
    (unacked : (ip.tcpSocket s).unacked = first :: rest) :
    ∃ ip' ssthresh, ip.fastRetransmit s = some ip' ∧ ip'.target = ip.target ∧
      ip'.memory = ip.memory ∧ ip'.tcpSocket s =
        { ip.tcpSocket s with
          unsent := first :: rest ++ (ip.tcpSocket s).unsent
          unacked := []
          sndNxt := first.seqno
          nrtx := (ip.tcpSocket s).nrtx + 1
          rttest := 0
          ssthresh
          cwnd := ssthresh + 3 * (ip.tcpSocket s).mss
          inFastRecovery := true } ∧
      ssthresh = if ((((ip.tcpSocket s).sndMax - (ip.tcpSocket s).lastack) / 2).setWidth 16 :
          UShort).toNat < 2 * (ip.tcpSocket s).mss.toNat then
        (ip.tcpSocket s).mss + (ip.tcpSocket s).mss
      else (((ip.tcpSocket s).sndMax - (ip.tcpSocket s).lastack) / 2).setWidth 16 := by
  refine ⟨?next, _, ?fast, ?target, ?memory, ?record, rfl⟩
  case fast =>
    simp only [fastRetransmit, slow, tcpRexmit_attended attended unacked, Bool.not_false, if_true,
      bind_eq_bind, bind_some]
    rfl
  case target => rfl
  case memory => rfl
  case record => rw [updateTcp_self, setTcp_self]

theorem stalled_fast (idle : Idle ip) (stalled : Stalled n 2 false (ip.tcpSocket 0)) :
    ∃ ip', AnyRun ip ip' ∧ Idle ip' ∧ Stalled (n + 1) 3 true (ip'.tcpSocket 0) := by
  set counted := ip.duplicate.setTcp 0
    { ip.duplicate.tcpSocket 0 with acked := 0, dupacks := 3 } with counted_eq
  have current : counted.tcpSocket 0 =
      { ip.tcpSocket 0 with tmr := ip.tcpTicks, acked := 0, dupacks := 3 } := by
    rw [counted_eq, setTcp_self, duplicate_socket]
  have slow : (counted.tcpSocket 0).inFastRecovery = false := by
    rw [current]
    exact stalled.inFastRecovery
  have outstanding : (counted.tcpSocket 0).unacked = [lostSegment] := by
    rw [current]
    exact stalled.unacked
  obtain ⟨fast, ssthresh, again, target, memory, record, half⟩ :=
    fastRetransmit_attended rfl slow outstanding
  have narrow : ssthresh = 512 := by
    rw [half, current]
    change (if ((((ip.tcpSocket 0).sndMax - (ip.tcpSocket 0).lastack) / 2).setWidth 16 :
      UShort).toNat < 2 * (ip.tcpSocket 0).mss.toNat then
        (ip.tcpSocket 0).mss + (ip.tcpSocket 0).mss else _) = _
    rw [stalled.sndMax, stalled.lastack, stalled.mss]
    decide
  have compares : ip.duplicate.compareAck 0 (ip.duplicate.tcpSocket 0) 1008 = some fast :=
    duplicate_compares stalled ((if_pos (by decide)).trans again)
  have process := duplicate_processed stalled compares
    (.inr (by
      rw [record, current]
      change lostSegment :: [] ++ (ip.tcpSocket 0).unsent = _
      rw [stalled.unsent]
      rfl))
    (by rw [record, current]; exact stalled.rtseq)
  have quiet : Idle (fast.attend none) :=
    ⟨target.trans ((duplicate_target ip).trans idle.target),
      memory.trans ((duplicate_memory ip).trans idle.memory), rfl⟩
  have lost : (ip.tcpSocket 0).unsent = [] := stalled.unsent
  have size : (ip.tcpSocket 0).mss = 256 := stalled.mss
  have attended : (fast.attend none).tcpSocket 0 =
      { ip.tcpSocket 0 with
        tmr := ip.tcpTicks
        cwnd := 1280
        ssthresh := 512
        acked := 0
        dupacks := 3
        inFastRecovery := true
        unsent := [lostSegment]
        unacked := []
        sndNxt := 101
        nrtx := (ip.tcpSocket 0).nrtx + 1
        rttest := 0 } := by
    rw [attend_tcpSocket, record, current, narrow]
    simp only [lost, size, List.append_nil]
    rfl
  obtain ⟨sent, output, sentIdle, sentStalled⟩ :=
    stalled_resent quiet stalled attended (by decide) (Nat.zero_lt_of_lt stalled.waits)
  have pending : (fast.attend none).outputPending 0 = some sent := by
    rw [outputPending, attended]
    exact output
  have input : inputActive 0 (ip.takeApart peerAck noData.totLen) 0 peerAck noData =
      some (sent, false) := by
    simp only [inputActive]
    change (tcpProcess 0 ((ip.takeApart peerAck 0).attend (some 0)) 0 peerAck noData).bind _ = _
    rw [process]
    change ((fast.attend none).outputPending 0).bind _ = _
    rw [pending]
    rfl
  exact ⟨sent, .single ⟨_, trivial, .segment input⟩, sentIdle, sentStalled⟩

def accepted : Ip :=
  answered peerSyn [true, true, false, true, true]

def opening : List ConnectionEvent :=
  [.output, .segment peerAck noData, .enqueue [65] 0 [], .output]

theorem accepted_begins : Begins 0 accepted :=
  answered_begins (by decide +kernel)

theorem opening_succeeds : (opening.foldlM (connectionAct 0 0) accepted).isSome = true := by
  decide +kernel

theorem opening_idle : Idle (connectionAfter 0 0 accepted opening) where
  target := by decide +kernel
  memory := by decide +kernel
  attended := by decide +kernel

theorem opening_stalled :
    Stalled 0 0 false ((connectionAfter 0 0 accepted opening).tcpSocket 0) where
  localIp := by decide +kernel
  remoteIp := by decide +kernel
  state := by decide +kernel
  nrtx := by decide +kernel
  unacked := by decide +kernel
  unsent := by decide +kernel
  ackNow := by decide +kernel
  rcvNxt := by decide +kernel
  rcvWnd := by decide +kernel
  sndWnd := by decide +kernel
  sndWl1 := by decide +kernel
  sndWl2 := by decide +kernel
  sndMax := by decide +kernel
  lastack := by decide +kernel
  rtseq := by decide +kernel
  mss := by decide +kernel
  cwnd := by decide +kernel
  queuelen := by decide +kernel
  roundTrip := by decide +kernel
  dupacks := by decide +kernel
  inFastRecovery := by decide +kernel
  waits := by decide +kernel

end Ip
end Uos
