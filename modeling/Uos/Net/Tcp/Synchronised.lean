import Uos.Net.Tcp.Effects

/-!
# The SYN that a connection is synchronised by

Which events leave every connection with a sequence number that its own peer has sent.
-/

namespace Uos

/-- Whether a segment is a SYN from the peer of a socket to the socket. -/
def TcpHdr.Synchronises (h : TcpHdr) (socket : TcpSocket) : Prop :=
  h.flags.has TcpFlags.syn = true ∧ h.srcIp = socket.remoteIp ∧ h.src = socket.remotePort ∧
    h.destIp = socket.localIp ∧ h.dest = socket.localPort

/-- Whether a socket is in SYN-RECEIVED state, or was in ESTABLISHED state. -/
def TcpSocket.Reached (socket : TcpSocket) : Prop :=
  socket.state = .synRcvd ∨ socket.state = .established ∨ socket.history.opened = true

namespace Ip

/-- Every connection got the first value of `rcv_nxt` from a SYN of its own peer. -/
def OwnSyns (ip : Ip) : Prop :=
  ∀ s, ip.tcpAlive s = true → (ip.tcpSocket s).Reached →
    ∃ h ∈ ip.arrived, h.Synchronises (ip.tcpSocket s) ∧
      (ip.tcpSocket s).history.synchronised = some (h.seqno + 1)

/-- A received connection request of a port. -/
def Requested (ip : Ip) (port : UShort) (received : TcpReceived) : Prop :=
  ∀ h, received.header = some h →
    h ∈ ip.arrived ∧ h.flags.has TcpFlags.syn = true ∧ h.dest = port ∧ h.destIp ≠ .any

/-- What the record of a socket says about the segments that arrived. -/
structure Attributed (ip : Ip) (socket : TcpSocket) : Prop where
  reached : socket.Reached → socket.history.synchronised ≠ none
  own : ∀ n, socket.history.synchronised = some n →
    ∃ h ∈ ip.arrived, h.Synchronises socket ∧ n = h.seqno + 1 ∧ h.destIp ≠ .any
  queue : socket.state = .listen →
    ∀ received ∈ socket.queue, ip.Requested socket.localPort received

/-- The invariant of the stack. -/
structure AllAttributed (ip : Ip) : Prop where
  fresh : ∀ s, ip.tcpAlive s = true → s < ip.tcpFresh
  attributed : ∀ s, ip.tcpAlive s = true → ip.Attributed (ip.tcpSocket s)

variable {ip ip' : Ip} {s : SocketId} {socket socket' : TcpSocket}

theorem Requested.mono {port : UShort} {received : TcpReceived} (arrived : ip.arrived ⊆ ip'.arrived)
    (requested : ip.Requested port received) : ip'.Requested port received := by
  intro h header
  obtain ⟨member, rest⟩ := requested h header
  exact ⟨arrived member, rest⟩

theorem Attributed.mono (arrived : ip.arrived ⊆ ip'.arrived) (attributed : ip.Attributed socket) :
    ip'.Attributed socket := by
  obtain ⟨reached, own, queue⟩ := attributed
  refine ⟨reached, fun n synchronised => ?_, fun listens received member => ?_⟩
  · obtain ⟨h, member, rest⟩ := own n synchronised
    exact ⟨h, arrived member, rest⟩
  · exact (queue listens received member).mono arrived

theorem Attributed.keep {state : TcpState} (attributed : ip.Attributed socket)
    (identity : socket'.identity = { socket.identity with state })
    (localIp : socket.localIp = .any ∨ socket'.localIp = socket.localIp)
    (place : state = .synRcvd ∨ state = .established → socket.Reached)
    (queue : socket'.state = .listen →
      socket.state = .listen ∧ socket'.queue ⊆ socket.queue) : ip.Attributed socket' := by
  have same : socket'.state = state := congrArg TcpIdentity.state identity
  have synchronised : socket'.history.synchronised = socket.history.synchronised :=
    congrArg TcpIdentity.synchronised identity
  have opened : socket'.history.opened = socket.history.opened :=
    congrArg TcpIdentity.opened identity
  have localPort : socket'.localPort = socket.localPort := congrArg TcpIdentity.localPort identity
  have remoteIp : socket'.remoteIp = socket.remoteIp := congrArg TcpIdentity.remoteIp identity
  have remotePort : socket'.remotePort = socket.remotePort :=
    congrArg TcpIdentity.remotePort identity
  refine ⟨fun reached => ?_, fun n value => ?_, fun listens received member => ?_⟩
  · rw [synchronised]
    apply attributed.reached
    rcases reached with rcvd | established | was
    · exact place (.inl (same ▸ rcvd))
    · exact place (.inr (same ▸ established))
    · exact .inr (.inr (opened ▸ was))
  · rw [synchronised] at value
    obtain ⟨h, member, ⟨syn, srcIp, src, destIp, dest⟩, seqno, known⟩ := attributed.own n value
    have kept : socket'.localIp = socket.localIp :=
      localIp.resolve_left fun any => known (destIp.trans any)
    refine ⟨h, member, ⟨syn, ?_, ?_, ?_, ?_⟩, seqno, known⟩
    · rw [remoteIp, srcIp]
    · rw [remotePort, src]
    · rw [kept, destIp]
    · rw [localPort, dest]
  · obtain ⟨before, subset⟩ := queue listens
    rw [localPort]
    exact attributed.queue before received (subset member)

theorem AllAttributed.changes (all : ip.AllAttributed) (changes : Changes s ip ip')
    (own : ip.tcpAlive s = true → ip'.Attributed (ip'.tcpSocket s)) : ip'.AllAttributed := by
  refine ⟨fun r alive => ?_, fun r alive => ?_⟩
  · rw [changes.tcpAlive] at alive
    rw [changes.tcpFresh]
    exact all.fresh r alive
  · rw [changes.tcpAlive] at alive
    rcases eq_or_ne r s with rfl | other
    · exact own alive
    · rw [changes.others r other]
      exact (all.attributed r alive).mono changes.arrived

theorem AllAttributed.retires (retires : Retires s ip ip') (all : ip.AllAttributed) :
    ip'.AllAttributed := by
  refine all.changes retires.toChanges fun alive => ?_
  obtain ⟨state, place, identity⟩ := retires.identity
  have same : (ip'.tcpSocket s).state = state := congrArg TcpIdentity.state identity
  have attributed := (all.attributed s alive).mono retires.arrived
  refine attributed.keep identity retires.localIp (fun open' => ?_) fun listens => ?_
  · rcases place with kept | ended | ended
    · rw [kept] at open'
      exact open'.imp (fun rcvd => rcvd) .inl
    · simp [ended] at open'
    · simp [ended] at open'
  · refine ⟨?_, retires.queue listens⟩
    rw [same] at listens
    rcases place with kept | ended | ended
    · exact kept ▸ listens
    · rw [ended] at listens
      contradiction
    · rw [ended] at listens
      contradiction

end Ip

/-- The rules of runs in which connections are synchronised by their own peers. -/
def ownSynRules : TcpRules where
  orderly := False
  arrives h := h.destIp ≠ .any
  completes h := h.flags.has TcpFlags.syn = true ∧ h.destIp ≠ .any
  accepts ip h localPort seqno :=
    h ∈ ip.arrived ∧ h.flags.has TcpFlags.syn = true ∧ h.dest = localPort ∧ h.destIp ≠ .any ∧
      seqno = h.seqno

namespace Ip

variable {ip ip' : Ip} {s : SocketId}

theorem AllAttributed.creates (all : ip.AllAttributed) (creates : Creates s ip ip')
    (own : ip'.tcpAlive s = true → ip'.Attributed (ip'.tcpSocket s)) : ip'.AllAttributed := by
  obtain ⟨new, others, alive, fresh, arrived⟩ := creates
  refine ⟨fun r lives => ?_, fun r lives => ?_⟩
  · rw [fresh]
    rcases eq_or_ne r s with rfl | other
    · exact new ▸ Nat.lt_succ_self _
    · rw [alive r other] at lives
      exact (all.fresh r lives).trans (Nat.lt_succ_self _)
  · rcases eq_or_ne r s with rfl | other
    · exact own lives
    · rw [alive r other] at lives
      rw [others r other]
      exact (all.attributed r lives).mono arrived

theorem Opens.attributed {list : TcpList} {change : TcpSocket → TcpSocket} {socket : TcpSocket}
    (opens : Opens ownSynRules ip list change)
    (blank : socket.identity = ({} : TcpSocket).identity) : ip.Attributed (change socket) := by
  have synchronised : socket.history.synchronised = none :=
    congrArg TcpIdentity.synchronised blank
  have opened : socket.history.opened = false := congrArg TcpIdentity.opened blank
  cases opens with
  | connect _ =>
    refine ⟨fun reached => ?_, fun n value => ?_, fun listens => ?_⟩
    · simp [TcpSocket.Reached, TcpSocket.connecting, opened] at reached
    · simp [TcpSocket.connecting, synchronised] at value
    · simp [TcpSocket.connecting] at listens
  | @accept h localPort seqno allowed =>
    obtain ⟨arrived, syn, dest, known, seqnoEq⟩ := allowed
    refine ⟨fun _ => ?_, fun n value => ?_, fun listens => ?_⟩
    · simp [TcpSocket.accepting]
    · simp only [TcpSocket.accepting, Option.some.injEq] at value
      exact ⟨h, arrived, ⟨syn, rfl, rfl, rfl, dest⟩, value.symm.trans (by rw [seqnoEq]), known⟩
    · simp [TcpSocket.accepting] at listens
  | listen ipaddr port =>
    refine ⟨fun reached => ?_, fun n value => ?_, fun _ received member => ?_⟩
    · simp [TcpSocket.Reached, listening] at reached
    · simp [listening] at value
    · simp [listening] at member

theorem Move.attributed (move : Move ownSynRules s ip ip') (all : ip.AllAttributed) :
    ip'.AllAttributed := by
  cases move with
  | touch touches => exact all.retires touches.retires
  | @front _ _ _ _ _ list prev _ =>
    have relinks := moveToFront_relinks ip list prev s
    refine all.changes (relinks.changes s) fun alive => ?_
    rw [relinks.tcpSocket]
    exact (all.attributed s alive).mono (relinks.changes s).arrived
  | @request _ _ h p arrives arrived syn dest =>
    refine all.changes (alters_setTcp ip s _).changes fun alive => ?_
    rw [updateTcp_self]
    obtain ⟨reached, own, queue⟩ := all.attributed s alive
    refine ⟨reached, own, fun listens received member => ?_⟩
    rcases List.mem_append.mp member with old | new
    · exact queue listens received old
    · rw [List.mem_singleton.mp new]
      intro header same
      cases same
      exact ⟨arrived, syn, dest.symm, arrives⟩
  | @complete _ _ _ h alters allowed arrived connected state identity localIp =>
    refine all.changes alters.changes fun alive => ?_
    have synchronised : (ip'.tcpSocket s).history.synchronised = some (h.seqno + 1) :=
      congrArg TcpIdentity.synchronised identity
    have opened : (ip'.tcpSocket s).state = .established := congrArg TcpIdentity.state identity
    simp only [connects, Bool.and_eq_true, decide_eq_true_eq] at connected
    obtain ⟨⟨⟨localPort, remotePort⟩, remoteIp⟩, own⟩ := connected
    have kept : (ip'.tcpSocket s).localIp = h.destIp :=
      (localIp.resolve_left fun any => allowed.2 (own.symm.trans any)).trans own
    have localPort' : (ip'.tcpSocket s).localPort = (ip.tcpSocket s).localPort :=
      congrArg TcpIdentity.localPort identity
    have remotePort' : (ip'.tcpSocket s).remotePort = (ip.tcpSocket s).remotePort :=
      congrArg TcpIdentity.remotePort identity
    have remoteIp' : (ip'.tcpSocket s).remoteIp = (ip.tcpSocket s).remoteIp :=
      congrArg TcpIdentity.remoteIp identity
    refine ⟨fun _ => ?_, fun n value => ?_, fun listens => ?_⟩
    · rw [synchronised]
      simp
    · rw [synchronised, Option.some.injEq] at value
      refine ⟨h, alters.arrived arrived, ⟨allowed.1, ?_, ?_, kept.symm, ?_⟩, value.symm,
        allowed.2⟩
      · rw [remoteIp', remoteIp]
      · rw [remotePort', remotePort]
      · rw [localPort', localPort]
    · rw [opened] at listens
      contradiction
  | @advance _ _ state _ later opens =>
    refine all.changes (alters_setTcp ip s _).changes fun alive => ?_
    rw [tcpSetSocketState, updateTcp_self]
    obtain ⟨reached, own, queue⟩ := all.attributed s alive
    obtain ⟨-, listen, -, synRcvd, -⟩ := later
    refine ⟨fun reaches => reached ?_, own, fun listens => absurd listens listen⟩
    rcases reaches with rcvd | established | was
    · exact absurd rcvd synRcvd
    · exact .inl (opens established)
    · simp only [Bool.or_eq_true, decide_eq_true_eq] at was
      rcases was with was | established
      · exact .inr (.inr was)
      · exact .inl (opens established)
  | enterClosing _ _ moves => exact all.retires (moveToClosing_retires moves)
  | remove _ removes => exact all.retires (tcpSocketRemove_retires removes)
  | @enroll _ first mid list change allocates opens touches =>
    refine all.creates (enroll_creates allocates touches list) fun _ => ?_
    have relinks := tcpListAdd_relinks mid list ip.tcpFresh
    have blank := allocates.identity
    rw [withSocket_self] at blank
    have arrived : first.arrived ⊆ mid.arrived := touches.arrived
    have base := (opens.attributed blank).mono arrived
    have identity := touches.identity
    have localIp := touches.localIp
    have state := touches.state
    have queue := touches.queue
    rw [updateTcp_self] at identity localIp state queue
    rw [relinks.tcpSocket]
    refine Attributed.mono (relinks.changes 0).arrived ?_
    refine base.keep identity localIp (fun reached => ?_) fun listens => ?_
    · exact reached.imp (fun rcvd => rcvd) .inl
    · rw [state] at listens
      exact ⟨listens, queue listens⟩
  | discard alters =>
    refine all.creates alters.creates.free fun alive => ?_
    simp [freeSocket] at alive
  | free _ =>
    have alive {r : SocketId} (lives : (ip.freeSocket s).tcpAlive r = true) :
        ip.tcpAlive r = true := by
      simp only [freeSocket, Function.update_apply] at lives
      split at lives
      · contradiction
      · exact lives
    have arrived : ip.arrived ⊆ (ip.freeSocket s).arrived := List.Subset.refl _
    exact ⟨fun r lives => all.fresh r (alive lives), fun r lives =>
      (all.attributed r (alive lives)).mono arrived⟩

/-- A pending connection request is one of the port of its socket. -/
def RequestKept (ip : Ip) : Pending → Prop
  | .acceptCreate s received => ip.Requested (ip.tcpSocket s).localPort received
  | _ => True

theorem Moves.attributed {sockets : Set SocketId} (moves : Moves ownSynRules sockets ip ip')
    (all : ip.AllAttributed) : ip'.AllAttributed := by
  induction moves with
  | refl => exact all
  | tail _ last ih =>
    obtain ⟨s, -, move⟩ := last
    exact move.attributed ih

end Ip

/-- A pending call makes a socket for the segment that was parsed last. -/
def Pending.ParsedLast (ip : Ip) : Pending → Prop
  | acceptCreate _ received =>
    ip.memory.headD false = true → ∀ h, received.header = some h → ip.tcpInputSeqno = h.seqno
  | _ => True

namespace TcpStack

/-- Whether an event synchronises connections only by SYNs of their own peers: `tcp_accept` goes on
before another segment was parsed, and a segment that completes a connection in SYN-SENT state has
a SYN. -/
def Synchronous (stack : TcpStack) : TcpEvent → Prop
  | .resume i => ∀ call, stack.calls[i]? = some call → call.ParsedLast stack.ip
  | .segment h p =>
    ∀ s, (stack.ip.takeApart h p.totLen).IsFor h s →
      h.completes (stack.ip.tcpSocket s) = true → h.flags.has TcpFlags.syn = true
  | _ => True

/-- The invariant of synchronous runs. -/
structure Attributed (stack : TcpStack) : Prop where
  all : stack.ip.AllAttributed
  allocated : ∀ call ∈ stack.calls, call.socket < stack.ip.tcpFresh
  requested : ∀ call ∈ stack.calls, stack.ip.RequestKept call

variable {start stack stack' : TcpStack} {event : TcpEvent}

theorem Attributed.meets (attributed : stack.Attributed) (synchronous : stack.Synchronous event)
    (admitted : stack.admits event = true) : stack.Meets ownSynRules event := by
  cases event with
  | resume i =>
    intro call found
    have requested := attributed.requested call (List.mem_of_getElem? found)
    have parsed := synchronous call found
    have allocated := attributed.allocated call (List.mem_of_getElem? found)
    cases call
    case acceptCreate s received =>
      intro memory first h allocates header
      obtain ⟨arrived, syn, dest, known⟩ := requested h header
      have old : s ≠ stack.ip.tcpFresh := ne_of_lt allocated
      have port : (first.tcpSocket s).localPort = (stack.ip.tcpSocket s).localPort := by
        rw [allocates.others s old, (stack.ip.withSocket_other old).1]
      exact ⟨allocates.arrived arrived, syn, dest.trans port.symm, known,
        parsed memory h header⟩
    all_goals first | trivial | exact fun orderly => absurd orderly id
  | segment h p =>
    simp only [admits, Bool.and_eq_true, Bool.not_eq_true'] at admitted
    have known : h.destIp ≠ .any := by
      intro any
      simp [IpAddr.isBroadcast, any] at admitted
    exact ⟨known, fun s isFor completes => ⟨synchronous s isFor completes, known⟩⟩
  | _ => trivial

theorem Attributed.step (attributed : stack.Attributed) (synchronous : stack.Synchronous event)
    (step : stack.Step event stack') : stack'.Attributed := by
  obtain ⟨turns, steps⟩ := step
  obtain ⟨admitted, ip', next, act, rfl⟩ := step_eq_some.mp steps
  have acts := act_cases (attributed.meets synchronous admitted) act
  have all : ip'.AllAttributed := by
    refine acts.invariant Ip.AllAttributed (fun moves => moves.attributed attributed.all)
      (fun retires all => all.retires retires) attributed.all ?_
    have ticks : Ip.Touches 0 stack.ip stack.ip.ticked :=
      Ip.touches_rest rfl rfl (List.Subset.refl _)
    exact attributed.all.retires ticks.retires
  have waiting : ∀ call ∈ stack.waiting event, call ∈ stack.calls := by
    cases event with
    | resume i => exact fun call member => List.mem_of_mem_eraseIdx member
    | _ => exact fun call member => member
  refine ⟨all, fun call member => ?_, fun call member => ?_⟩
  · rcases List.mem_append.mp member with old | new
    · exact (attributed.allocated call (waiting call old)).trans_le acts.grows.tcpFresh
    · exact acts.allocated attributed.all.fresh admitted act call (Option.mem_toList.mp new)
  · rcases List.mem_append.mp member with old | new
    · have before := waiting call old
      have requested := attributed.requested call before
      have allocated := attributed.allocated call before
      cases call
      case acceptCreate s received =>
        have port : (ip'.tcpSocket s).localPort = (stack.ip.tcpSocket s).localPort :=
          acts.localPort allocated
        change ip'.Requested (ip'.tcpSocket s).localPort received
        rw [port]
        exact Ip.Requested.mono acts.grows.arrived requested
      all_goals trivial
    · have place := Option.mem_toList.mp new
      have follows : call.Follows ownSynRules stack.ip ip' := by
        cases acts with
        | moves _ made => exact made.follows call place
        | touches _ => contradiction
        | slowtmr _ _ => contradiction
      have caller := acts.caller admitted act call place
      cases call
      case acceptCreate s received =>
        obtain ⟨member, listens⟩ := follows
        have alive : stack.ip.tcpAlive s = true := caller.resolve_right (by simp)
        have known := (attributed.all.attributed s alive).queue listens received member
        change ip'.Requested (ip'.tcpSocket s).localPort received
        rw [acts.localPort (attributed.all.fresh s alive)]
        exact known.mono acts.grows.arrived
      all_goals trivial

theorem Initial.attributed (initial : start.Initial) : start.Attributed := by
  obtain ⟨ip, calls⟩ := initial
  refine ⟨⟨fun s alive => ?_, fun s alive => ?_⟩, by simp [calls], by simp [calls]⟩
  · simp [ip.tcpAlive] at alive
  · simp [ip.tcpAlive] at alive

def listening : TcpStack :=
  (boot [true, true]).after 1 [.listen .any 80]

def bareSegment (src : UShort) (seqno : ULong) (flags : TcpFlags) : TcpEvent :=
  .segment
    { srcIp := #v[10, 0, 0, 16], destIp := #v[10, 0, 0, 15], src, dest := 80, seqno, ackno := 0,
      offset := 0x50, flags, wnd := 2048 }
    { totLen := 0, chunks := [{ bytes := [] }] }

/-- Another segment arrives before the connection request is served. -/
def overtaken : List TcpEvent :=
  [.listen .any 80, bareSegment 1024 100 TcpFlags.syn, .accept 0,
    bareSegment 1025 500 TcpFlags.rst, .resume 0]

end TcpStack
end Uos
