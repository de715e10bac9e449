import Uos.Net.Tcp.Machine
import Uos.Net.Tcp.Touches

/-!
# The moves a transition of TCP is made of

Every transition, except the slow timer, is a sequence of the moves below, each of which is about
one socket.
-/

namespace Uos

open Option

/-- The states of the sockets in a list. -/
def TcpList.Holds (list : TcpList) (state : TcpState) : Prop :=
  match list with
  | listening => state = .listen
  | active => state ≠ .closed ∧ state ≠ .timeWait ∧ state ≠ .listen
  | closing => state = .timeWait

/-- The states that follow when the peer has answered. -/
def TcpState.Later (state : TcpState) : Prop :=
  state ≠ closed ∧ state ≠ listen ∧ state ≠ synSent ∧ state ≠ synRcvd ∧ state ≠ timeWait

/-- Whether a segment without a reset completes the connection of a socket in SYN-SENT state. -/
def TcpHdr.completes (h : TcpHdr) (socket : TcpSocket) : Bool :=
  !h.flags.has TcpFlags.rst && socket.state = .synSent &&
    h.flags.has (TcpFlags.ack ||| TcpFlags.syn) &&
    socket.unacked.head?.any fun first => h.ackno = first.seqno + 1

/-- What is known of the moves of a transition. -/
structure TcpRules where
  /-- A socket is in the list that its state says. -/
  orderly : Prop
  /-- The segment may arrive. -/
  arrives : TcpHdr → Prop
  /-- The segment may complete a connection. -/
  completes : TcpHdr → Prop
  /-- A new socket may be made for a header, a local port and a sequence number. -/
  accepts : Ip → TcpHdr → UShort → ULong → Prop

namespace Ip

def withSocket (ip : Ip) : Ip :=
  { ip with
    tcpFresh := ip.tcpFresh + 1
    tcpAlive := Function.update ip.tcpAlive ip.tcpFresh true
    tcpSocket := Function.update ip.tcpSocket ip.tcpFresh {} }

/-- How a new socket is made ready for a list. -/
inductive Opens (rules : TcpRules) (ip : Ip) : TcpList → (TcpSocket → TcpSocket) → Prop
  | connect {turns : Nat} {remoteIp : IpAddr} {remotePort localPort : UShort} :
      portInUse turns ip localPort = some false →
        Opens rules ip .active (TcpSocket.connecting remoteIp remotePort localPort)
  | accept {h : TcpHdr} {localPort : UShort} {seqno : ULong} :
      rules.accepts ip h localPort seqno →
        Opens rules ip .active (TcpSocket.accepting h localPort seqno)
  | listen (ipaddr : IpAddr) (port : UShort) :
      Opens rules ip .listening fun _ => listening ipaddr port

/-- A move that is about one socket. -/
inductive Move (rules : TcpRules) : SocketId → Ip → Ip → Prop
  | touch {s : SocketId} {ip ip' : Ip} : Touches s ip ip' → Move rules s ip ip'
  /-- A socket is moved to the front of its list. -/
  | front {s : SocketId} {ip : Ip} {valid wanted : TcpSocket → Bool} {turns : Nat}
      {list : TcpList} {prev : Option SocketId} :
      ip.searchList valid wanted turns none (ip.head list) = some (some (prev, s)) →
        Move rules s ip (ip.moveToFront list prev s)
  /-- A connection request is queued. -/
  | request {s : SocketId} {ip : Ip} {h : TcpHdr} {p : Buf} :
      rules.arrives h → h ∈ ip.arrived → h.flags.has TcpFlags.syn = true →
        (ip.tcpSocket s).localPort = h.dest →
        Move rules s ip (ip.updateTcp s fun socket =>
          { socket with queue := socket.queue ++ [{ header := some h, buf := p }] })
  /-- A connection is completed in SYN-SENT state. -/
  | complete {s : SocketId} {ip ip' : Ip} {h : TcpHdr} :
      Alters s ip ip' → rules.completes h → h ∈ ip.arrived →
        connects h (ip.tcpSocket s) = true → (ip.tcpSocket s).state = .synSent →
        (ip'.tcpSocket s).identity =
          { (ip.tcpSocket s).identity with
            state := .established
            synchronised := some (h.seqno + 1)
            opened := true } →
        ((ip.tcpSocket s).localIp = .any ∨
          (ip'.tcpSocket s).localIp = (ip.tcpSocket s).localIp) → Move rules s ip ip'
  /-- The state changes, but not the list. -/
  | advance {s : SocketId} {ip : Ip} {state : TcpState} :
      (rules.orderly → isActive (ip.tcpSocket s) = true) → state.Later →
        (state = .established → (ip.tcpSocket s).state = .synRcvd) →
        Move rules s ip (ip.tcpSetSocketState s state)
  | enterClosing {s : SocketId} {ip ip' : Ip} {turns : Nat} :
      ip.tcpSockets = some s → isActive (ip.tcpSocket s) = true →
        moveToClosing turns ip s = some ip' → Move rules s ip ip'
  | remove {s : SocketId} {ip ip' : Ip} {turns : Nat} {list : TcpList} :
      (rules.orderly → (ip.tcpSocket s).state = .closed ∨
        list.Holds (ip.tcpSocket s).state) →
        tcpSocketRemove turns ip list s = some ip' → Move rules s ip ip'
  /-- A new socket is put into a list. -/
  | enroll {ip first ip' : Ip} {list : TcpList} {change : TcpSocket → TcpSocket} :
      Touches ip.tcpFresh ip.withSocket first → Opens rules first list change →
        Touches ip.tcpFresh (first.updateTcp ip.tcpFresh change) ip' →
        Move rules ip.tcpFresh ip (ip'.tcpListAdd list ip.tcpFresh)
  /-- A new socket is freed again. -/
  | discard {ip ip' : Ip} :
      Alters ip.tcpFresh ip.withSocket ip' →
        Move rules ip.tcpFresh ip (ip'.freeSocket ip.tcpFresh)
  | free {s : SocketId} {ip : Ip} :
      (ip.tcpSocket s).state = .closed → Move rules s ip (ip.freeSocket s)

/-- Moves that are about some sockets. -/
abbrev Moves (rules : TcpRules) (sockets : Set SocketId) : Ip → Ip → Prop :=
  Relation.ReflTransGen fun ip ip' => ∃ s ∈ sockets, Move rules s ip ip'

variable {rules : TcpRules} {ip ip' : Ip} {s : SocketId} {turns : Nat} {h : TcpHdr} {p : Buf}
  {queued : Bool}

theorem Move.moves (move : Move rules s ip ip') : Moves rules {s} ip ip' :=
  .single ⟨s, rfl, move⟩

theorem Touches.moves (touches : Touches s ip ip') : Moves rules {s} ip ip' :=
  Move.moves (.touch touches)

/-- A segment that has been taken apart. -/
structure Parsed (ip : Ip) (h : TcpHdr) : Prop where
  arrived : h ∈ ip.arrived
  seqno : ip.tcpInputSeqno = h.seqno
  ackno : ip.tcpInputAckno = h.ackno
  flags : ip.tcpInputFlags = h.flags &&& 0x3f

theorem Parsed.reset (parsed : ip.Parsed h) :
    ip.tcpInputFlags.has TcpFlags.rst = h.flags.has TcpFlags.rst := by
  rw [parsed.flags, (has_masked h.flags).2]

theorem Parsed.syn (parsed : ip.Parsed h) :
    ip.tcpInputFlags.has TcpFlags.syn = h.flags.has TcpFlags.syn := by
  rw [parsed.flags, TcpFlags.has, TcpFlags.has, BitVec.and_assoc]
  rfl

theorem Parsed.ackOrSyn (parsed : ip.Parsed h) :
    ip.tcpInputFlags.has (TcpFlags.ack ||| TcpFlags.syn) =
      h.flags.has (TcpFlags.ack ||| TcpFlags.syn) := by
  rw [parsed.flags, TcpFlags.has, TcpFlags.has, BitVec.and_assoc]
  rfl

theorem establish_spec {record : TcpSocket} {next : Ip}
    (parses : tcpParseopt turns (ip.setTcp s record) s h = some next)
    (acks : (next.tcpSetSocketState s .established).tcpAck s = some ip') :
    Alters s ip ip' ∧
      (ip'.tcpSocket s).identity =
        { record.identity with state := .established, opened := true } ∧
      (record.localIp = .any ∨ (ip'.tcpSocket s).localIp = record.localIp) := by
  have parseTouches := tcpParseopt_touches parses
  have ackTouches := (tcpAck_outputs acks).touches
  have identity := parseTouches.identity
  have localIp := parseTouches.localIp
  rw [setTcp_self] at identity localIp
  have settled : ((next.tcpSetSocketState s .established).tcpSocket s).identity =
      { (next.tcpSocket s).identity with state := .established, opened := true } := by
    rw [tcpSetSocketState, updateTcp_self]
    simp [TcpSocket.identity, TcpConnection.identity, TcpSocket.connection, TcpSocket.receiver,
      TcpReceiver.connection]
  refine ⟨?_, ?_, ?_⟩
  · refine .trans (alters_setTcp ip s _) (.trans parseTouches.toAlters ?_)
    exact .trans (alters_setTcp next s _) ackTouches.toAlters
  · rw [ackTouches.identity, settled, identity]
  · rcases localIp with any | same
    · exact .inl any
    · have later := ackTouches.localIp
      rw [tcpSetSocketState, updateTcp_self] at later
      rwa [same] at later

theorem processSynSent_moves (parsed : ip.Parsed h)
    (noReset : ip.tcpInputFlags.has TcpFlags.rst = false)
    (completes : h.completes (ip.tcpSocket s) = true → rules.completes h)
    (connected : connects h (ip.tcpSocket s) = true) (state : (ip.tcpSocket s).state = .synSent)
    (processes : processSynSent turns ip s h = some ip') : Moves rules {s} ip ip' := by
  simp only [processSynSent] at processes
  split at processes
  swap
  · cases processes
    exact .refl
  rename_i flags
  split at processes
  · contradiction
  rename_i first rest unacked
  split at processes
  swap
  · cases processes
    exact .refl
  rename_i ackno
  simp only [bind_eq_bind, bind_eq_some_iff] at processes
  obtain ⟨next, parses, acks⟩ := processes
  have allowed : rules.completes h := by
    apply completes
    rw [parsed.reset] at noReset
    rw [parsed.ackOrSyn] at flags
    rw [parsed.ackno] at ackno
    simp [TcpHdr.completes, noReset, flags, state, unacked, ackno]
  obtain ⟨alters, identity, localIp⟩ := establish_spec parses acks
  apply Move.moves
  refine .complete alters allowed parsed.arrived connected state ?_ localIp
  rw [identity, parsed.seqno]
  rfl

theorem Touches.head (touches : Touches s ip ip') : ip'.tcpSockets = ip.tcpSockets :=
  congrArg TcpLinks.tcpSockets touches.links

theorem Touches.active (touches : Touches s ip ip')
    (active : isActive (ip.tcpSocket s) = true) : isActive (ip'.tcpSocket s) = true := by
  rwa [isActive, touches.state]

theorem isActive_holds {socket : TcpSocket} :
    isActive socket = true ↔ TcpList.active.Holds socket.state := by
  simp [isActive, TcpList.Holds, and_assoc]

theorem processReset_moves (active : isActive (ip.tcpSocket s) = true)
    (resets : processReset turns ip s = some ip') : Moves rules {s} ip ip' := by
  simp only [processReset] at resets
  split at resets
  · cases resets
    exact .refl
  split at resets
  · contradiction
  simp only [bind_eq_bind, bind_eq_some_iff, Option.some.injEq] at resets
  obtain ⟨next, removes, rfl⟩ := resets
  have removed : Move rules s ip next :=
    .remove (fun _ => .inr (isActive_holds.mp active)) removes
  refine .trans removed.moves (Touches.moves ?_)
  exact touches_updateTcp (fun _ => rfl) (fun _ => rfl) fun _ => List.Subset.refl _

theorem processSynRcvd_moves (state : (ip.tcpSocket s).state = .synRcvd)
    (processes : ip.processSynRcvd s h p = some (ip', queued)) : Moves rules {s} ip ip' := by
  simp only [processSynRcvd] at processes
  split at processes
  · simp only [bind_eq_bind, bind_eq_some_iff, Option.some.injEq,
      Prod.mk.injEq, Prod.exists] at processes
    obtain ⟨next, _, receives, rfl, rfl⟩ := processes
    have advanced : Move rules s ip (ip.tcpSetSocketState s .established) := by
      refine .advance (fun _ => ?_) ?_ fun _ => state
      · simp [isActive, state]
      · simp [TcpState.Later]
    have received := tcpReceive_touches (by simp [tcpSetSocketState]) receives
    refine .trans advanced.moves (.trans received.moves (Touches.moves ?_))
    exact touches_updateTcp (fun _ => rfl) (fun _ => rfl) fun _ => List.Subset.refl _
  · cases processes
    exact .refl

theorem ackAdvance_moves {next : Ip} {state : TcpState}
    (active : isActive (ip.tcpSocket s) = true) (later : state.Later)
    (opened : state ≠ .established) (acks : ip.tcpAckNow s = some next) :
    Moves rules {s} ip (next.tcpSetSocketState s state) := by
  have touches := (tcpAckNow_outputs acks).touches
  refine .trans touches.moves (Move.moves ?_)
  exact .advance (fun _ => touches.active active) later fun same => absurd same opened

theorem closeTimeWait_moves (head : ip.tcpSockets = some s)
    (active : isActive (ip.tcpSocket s) = true)
    (closes : closeTimeWait turns ip s = some ip') : Moves rules {s} ip ip' := by
  simp only [closeTimeWait, bind_eq_bind, bind_eq_some_iff] at closes
  obtain ⟨next, acks, moves⟩ := closes
  have touches := (tcpAckNow_outputs acks).touches
  refine .trans touches.moves (Move.moves ?_)
  exact .enterClosing (touches.head.trans head) (touches.active active) moves

theorem afterEstablished_moves (active : isActive (ip.tcpSocket s) = true)
    (changes : ip.afterEstablished s = some ip') : Moves rules {s} ip ip' := by
  simp only [afterEstablished] at changes
  split at changes
  · simp only [bind_eq_bind, bind_eq_some_iff, Option.some.injEq] at changes
    obtain ⟨next, acks, rfl⟩ := changes
    exact ackAdvance_moves active (by simp [TcpState.Later]) (by simp) acks
  · cases changes
    exact .refl

theorem afterFinWait1_moves (head : ip.tcpSockets = some s)
    (active : isActive (ip.tcpSocket s) = true)
    (changes : afterFinWait1 turns ip s = some ip') : Moves rules {s} ip ip' := by
  simp only [afterFinWait1] at changes
  split at changes
  · split at changes
    · exact closeTimeWait_moves head active changes
    · simp only [bind_eq_bind, bind_eq_some_iff, Option.some.injEq] at changes
      obtain ⟨next, acks, rfl⟩ := changes
      exact ackAdvance_moves active (by simp [TcpState.Later]) (by simp) acks
  · split at changes
    · cases changes
      exact Move.moves (.advance (fun _ => active) (by simp [TcpState.Later]) (by simp))
    · cases changes
      exact .refl

theorem afterFinWait2_moves (head : ip.tcpSockets = some s)
    (active : isActive (ip.tcpSocket s) = true)
    (changes : afterFinWait2 turns ip s = some ip') : Moves rules {s} ip ip' := by
  rw [afterFinWait2] at changes
  split at changes
  · exact closeTimeWait_moves head active changes
  · cases changes
    exact .refl

theorem afterClosing_moves (head : ip.tcpSockets = some s)
    (active : isActive (ip.tcpSocket s) = true)
    (changes : afterClosing turns ip s = some ip') : Moves rules {s} ip ip' := by
  rw [afterClosing] at changes
  split at changes
  · exact closeTimeWait_moves head active changes
  · cases changes
    exact .refl

theorem afterLastAck_moves (active : isActive (ip.tcpSocket s) = true)
    (changes : afterLastAck turns ip s = some ip') : Moves rules {s} ip ip' := by
  rw [afterLastAck] at changes
  split at changes
  · exact Move.moves (.remove (fun _ => .inr (isActive_holds.mp active)) changes)
  · cases changes
    exact .refl

theorem afterReceive_moves {state : TcpState} (head : ip.tcpSockets = some s)
    (active : isActive (ip.tcpSocket s) = true)
    (changes : afterReceive turns state ip s = some ip') : Moves rules {s} ip ip' := by
  cases state <;> simp only [afterReceive, Option.some.injEq] at changes
  case established => exact afterEstablished_moves active changes
  case closeWait => exact afterEstablished_moves active changes
  case finWait1 => exact afterFinWait1_moves head active changes
  case finWait2 => exact afterFinWait2_moves head active changes
  case closing => exact afterClosing_moves head active changes
  case lastAck => exact afterLastAck_moves active changes
  all_goals
    subst changes
    exact .refl

theorem tcpProcess_moves (parsed : ip.Parsed h) (head : ip.tcpSockets = some s)
    (active : isActive (ip.tcpSocket s) = true) (connected : connects h (ip.tcpSocket s) = true)
    (completes : h.completes (ip.tcpSocket s) = true → rules.completes h)
    (processes : tcpProcess turns ip s h p = some (ip', queued)) : Moves rules {s} ip ip' := by
  have touched := ip.touch_touches s
  have touchedParsed : (ip.touch s).Parsed h := ⟨parsed.arrived, parsed.seqno, parsed.ackno,
    parsed.flags⟩
  rw [tcpProcess] at processes
  split at processes
  · obtain ⟨next, resets, same⟩ := map_eq_some_iff.mp processes
    cases same
    exact processReset_moves active resets
  rename_i noReset
  refine .trans touched.moves ?_
  have stays : isActive ((ip.touch s).tcpSocket s) = true := touched.active active
  split at processes
  · rename_i state
    obtain ⟨next, completed, same⟩ := map_eq_some_iff.mp processes
    cases same
    have socket : (ip.touch s).tcpSocket s = { ip.tcpSocket s with tmr := ip.tcpTicks } := by
      rw [touch, updateTcp_self]
    refine processSynSent_moves touchedParsed (eq_false_of_ne_true noReset) ?_ ?_ ?_ completed
    · rw [socket]
      exact completes
    · rw [socket]
      exact connected
    · rw [socket]
      exact state
  · rename_i state
    exact processSynRcvd_moves (touched.state.trans state) processes
  · cases processes
    exact .refl
  · cases processes
    exact .refl
  · cases processes
    exact .refl
  · simp only [bind_eq_bind, bind_eq_some_iff, Option.some.injEq,
      Prod.mk.injEq, Prod.exists] at processes
    obtain ⟨next, _, receives, _, changes, rfl, rfl⟩ := processes
    have notListening : ((ip.touch s).tcpSocket s).state ≠ .listen :=
      (isActive_holds.mp stays).2.2
    have received := tcpReceive_touches notListening receives
    refine .trans received.moves ?_
    exact afterReceive_moves (received.head.trans (touched.head.trans head))
      (received.active stays) changes

end Ip
end Uos
