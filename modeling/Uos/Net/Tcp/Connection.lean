import Uos.Net.Tcp.Sending

/-!
# The life of one connection

The calls of the functions that send, in any order, while anything happens to the rest of the stack.
-/

namespace Uos

open Option

/-- What happens to a connection. -/
inductive ConnectionEvent
  /-- `tcp_enqueue` is called. -/
  | enqueue (data : List UChar) (flags : TcpFlags) (options : List UChar)
  /-- `tcp_output` is called. -/
  | output
  /-- `tcp_input` has found the connection of a segment. -/
  | segment (h : TcpHdr) (p : Buf)
  /-- `tcp_slowtmr` counts a tick. -/
  | clock
  /-- `tcp_slowtmr` comes by the connection. -/
  | timer
  /-- The socket is removed. -/
  | remove
  /-- Something else happens. -/
  | outside

/-- What the callers of `tcp_enqueue` give it once a connection has begun. -/
def ConnectionEvent.Ordinary : ConnectionEvent → Prop
  | .enqueue data flags _ => data ≠ [] ∧ flags = 0 ∨ data = [] ∧ flags = TcpFlags.fin
  | _ => True

namespace Ip

/-- One event in the life of the connection of a socket. -/
inductive ConnectionStep (s : SocketId) (ip : Ip) : ConnectionEvent → Ip → Prop
  | enqueue {ip' : Ip} {data : List UChar} {flags : TcpFlags} {options : List UChar}
      {enqueued : Bool} (call : ip.tcpEnqueue s data flags options = some (ip', enqueued)) :
      ConnectionStep s ip (.enqueue data flags options) ip'
  | output {ip' : Ip} (call : ip.tcpOutput s = some ip') : ConnectionStep s ip .output ip'
  | segment {ip' : Ip} {turns : Nat} {h : TcpHdr} {p : Buf} {queued : Bool}
      (call : inputActive turns (ip.takeApart h p.totLen) s h p = some (ip', queued)) :
      ConnectionStep s ip (.segment h p) ip'
  | clock : ConnectionStep s ip .clock { ip with tcpTicks := ip.tcpTicks + 1 }
  | timer {ip' : Ip} {bound : Nat} {prev prev' : Option SocketId}
      (call : slowTurn bound ip prev s = some (ip', prev')) : ConnectionStep s ip .timer ip'
  /-- The user removes the socket, or the slow timer its segments at the end of TIME-WAIT state. -/
  | remove {ip' : Ip} {state : TcpState} (tcpTicks : ip'.tcpTicks = ip.tcpTicks)
      (gone : state = .closed ∨ state = .timeWait ∧ (ip.tcpSocket s).state = .timeWait)
      (same : (ip'.tcpSocket s).sender =
        { (ip.tcpSocket s).sender with state, unsent := [], unacked := [], sndQueuelen := 0 }) :
      ConnectionStep s ip .remove ip'
  /-- The user may take what was received, and close an open connection. -/
  | outside {ip' : Ip} {state : TcpState} {queue : List TcpReceived} {rcvNxt : ULong}
      {rcvWnd : UShort} {ackDelay ackNow : Bool} {history : TcpHistory}
      (tcpTicks : ip'.tcpTicks = ip.tcpTicks)
      (same : ip'.tcpSocket s =
        { ip.tcpSocket s with state, queue, rcvNxt, rcvWnd, ackDelay, ackNow, history })
      (closes : state = (ip.tcpSocket s).state ∨ state ≠ .synSent ∧
        (ip.tcpSocket s).state ≠ .synSent ∧ (ip.tcpSocket s).state ≠ .closed) :
      ConnectionStep s ip .outside ip'

/-- A part of the life of a connection, all of whose events satisfy a condition. -/
abbrev ConnectionRun (s : SocketId) (condition : Ip → ConnectionEvent → Prop) : Ip → Ip → Prop :=
  Relation.ReflTransGen fun ip ip' =>
    ∃ event, condition ip event ∧ ConnectionStep s ip event ip'

/-- A connection at its start, when `tcp_enqueue` was called for its SYN. -/
inductive Begins (s : SocketId) : Ip → Prop
  /-- In `tcp_connect`. -/
  | connect {before ip : Ip} {iss ticks : ULong} {remoteIp : IpAddr}
      {remotePort localPort : UShort}
      (record : before.tcpSocket s =
        TcpSocket.connecting remoteIp remotePort localPort (TcpSocket.allocated iss ticks))
      (call : before.tcpEnqueue s [] TcpFlags.syn (mssOption (before.tcpSocket s).mss) =
        some (ip, true)) : Begins s ip
  /-- In `tcp_accept`, which does not look at the result. -/
  | accept {first before ip : Ip} {turns : Nat} {iss ticks seqno : ULong} {localPort : UShort}
      {h : TcpHdr} {enqueued : Bool}
      (record : first.tcpSocket s =
        TcpSocket.accepting h localPort seqno (TcpSocket.allocated iss ticks))
      (parses : tcpParseopt turns first s h = some before)
      (call : before.tcpEnqueue s [] (TcpFlags.syn ||| TcpFlags.ack)
        (mssOption (before.tcpSocket s).mss) = some (ip, enqueued)) : Begins s ip

def Allows (rules : SenderRules) (s : SocketId) (ip : Ip) : ConnectionEvent → Prop
  | .enqueue data flags _ => rules.enqueues (ip.tcpSocket s) data flags
  | .segment h _ =>
    ((ip.tcpSocket s).processes h.flags h.ackno = true →
      rules.acknowledges h.ackno ∧ rules.windows h.seqno h.ackno h.wnd ∧
        ((ip.tcpSocket s).retransmitsFast h.seqno h.ackno h.wnd = true →
          rules.retransmits (ip.tcpSocket s).nrtx)) ∧
    ((ip.tcpSocket s).state = .synSent → h.flags.has TcpFlags.rst = false →
      rules.completes h.ackno h.wnd) ∧
    ∀ turns, ∀ mss ∈ parsedSize turns h, rules.sizes mss
  | .timer => (ip.tcpSocket s).gaveUp = false → rules.retransmits (ip.tcpSocket s).nrtx
  | .output | .clock | .remove | .outside => True

variable {rules : SenderRules} {s : SocketId} {ip ip' : Ip} {event : ConnectionEvent}

def anyRules : SenderRules where
  enqueues _ _ _ := True
  retransmits _ := True
  acknowledges _ := True
  windows _ _ _ := True
  completes _ _ := True
  sizes _ := True

theorem allows_any (s : SocketId) (ip : Ip) (event : ConnectionEvent) :
    Allows anyRules s ip event := by
  cases event with
  | segment =>
    exact ⟨fun _ => ⟨trivial, trivial, fun _ => trivial⟩, fun _ _ => trivial,
      fun _ _ _ => trivial⟩
  | timer => exact fun _ => trivial
  | enqueue | output | clock | remove | outside => trivial

theorem ConnectionStep.sends (allows : Allows rules s ip event)
    (step : ConnectionStep s ip event ip') (timeless : event ≠ .clock) : Sends rules s ip ip' := by
  cases step with
  | enqueue call =>
    obtain ⟨registers, failed | ⟨-, room, short, queue, segments, same⟩⟩ := tcpEnqueue_spec call
    · exact .idle (congrArg TcpRegisters.tcpTicks registers) (by rw [failed.2])
    · exact .single (congrArg TcpRegisters.tcpTicks registers)
        (.enqueue allows room short segments same)
  | output call => exact tcpOutput_sends call
  | @segment _ turns h p _ call =>
    obtain ⟨permits, completes, sizes⟩ := allows
    have ack : (h.flags &&& 0x3f).has TcpFlags.ack = h.flags.has TcpFlags.ack := by
      simp only [TcpFlags.has, BitVec.and_assoc]
      rfl
    have rst : (h.flags &&& 0x3f).has TcpFlags.rst = h.flags.has TcpFlags.rst := by
      simp only [TcpFlags.has, BitVec.and_assoc]
      rfl
    have sends : Sends rules s (ip.takeApart h p.totLen) ip' := by
      refine inputActive_sends ⟨fun processed => ?_, fun state noReset => ?_, sizes turns⟩ call
      · have looks : (ip.tcpSocket s).processes h.flags h.ackno = true := by
          rw [← processed, TcpSocket.processes, ← ack, ← rst]
          rfl
        obtain ⟨acknowledges, windows, fast⟩ := permits looks
        exact ⟨TcpSocket.processes_connected looks, acknowledges, windows, fast⟩
      · exact completes state (rst.symm.trans noReset)
    exact ⟨sends.tcpTicks, sends.moves⟩
  | clock => contradiction
  | timer call => exact slowTurn_sends allows call
  | @remove _ state ticks gone same =>
    refine .single ticks (.purge ?_ same)
    rcases gone with rfl | ⟨rfl, -⟩ <;> decide
  | @outside _ state queue rcvNxt rcvWnd ackDelay ackNow history ticks same closes =>
    rcases closes with rfl | ⟨connected, -⟩
    · exact .idle ticks (by rw [same]; rfl)
    · exact .single ticks (.state connected (by rw [same]; rfl))

theorem ConnectionStep.moves (allows : Allows rules s ip event)
    (step : ConnectionStep s ip event ip') :
    Relation.ReflTransGen (SenderMove rules ip.tcpTicks) (ip.tcpSocket s) (ip'.tcpSocket s) := by
  rcases eq_or_ne event .clock with rfl | timeless
  · cases step
    exact .refl
  · exact (step.sends allows timeless).moves

/-- What neither `tcp_enqueue` nor the options of a peer change is at the beginning what the user
has set. -/
theorem Begins.field {Value : Type} {field : TcpSender → Value} {value : Value}
    (begins : Begins s ip)
    (enqueues : ∀ sender unsent sndLbb sndBuf sndQueuelen,
      field { sender with unsent, sndLbb, sndBuf, sndQueuelen } = field sender)
    (sizes : ∀ sender mss, field { sender with mss } = field sender)
    (connects : ∀ remoteIp remotePort localPort iss ticks, field (TcpSocket.connecting remoteIp
      remotePort localPort (TcpSocket.allocated iss ticks)).sender = value)
    (accepts : ∀ h localPort seqno iss ticks, field (TcpSocket.accepting h localPort seqno
      (TcpSocket.allocated iss ticks)).sender = value) :
    field (ip.tcpSocket s).sender = value := by
  have enqueued {before : Ip} {data : List UChar} {flags : TcpFlags} {options : List UChar}
      {done : Bool} (call : before.tcpEnqueue s data flags options = some (ip, done)) :
      field (ip.tcpSocket s).sender = field (before.tcpSocket s).sender := by
    obtain ⟨-, ⟨-, same⟩ | ⟨-, -, -, queue, -, same⟩⟩ := tcpEnqueue_spec call
    · rw [same]
    · rw [same]
      exact enqueues _ _ _ _ _
  cases begins with
  | connect record call =>
    rw [enqueued call, record]
    exact connects _ _ _ _ _
  | accept record parses call =>
    rw [enqueued call, (tcpParseopt_spec parses).2, sizes, record]
    exact accepts _ _ _ _ _

theorem ConnectionRun.invariant {condition : Ip → ConnectionEvent → Prop}
    (property : TcpSocket → Prop)
    (allows : ∀ {ip event}, property (ip.tcpSocket s) → condition ip event →
      ∃ rules, Allows rules s ip event ∧ ∀ {ticks before after}, property before →
        SenderMove rules ticks before after → property after)
    (start : property (ip.tcpSocket s)) (run : ConnectionRun s condition ip ip') :
    property (ip'.tcpSocket s) := by
  refine run_invariant (fun ip => property (ip.tcpSocket s)) ?_ start run
  rintro ip ip' holds ⟨event, meets, step⟩
  obtain ⟨rules, allowed, keeps⟩ := allows holds meets
  exact run_invariant property (fun kept move => keeps kept move) holds (step.moves allowed)

/-- Let an event happen, with a bound on the turns of every loop. -/
def connectionAct (turns : Nat) (s : SocketId) (ip : Ip) : ConnectionEvent → Option Ip
  | .enqueue data flags options => (ip.tcpEnqueue s data flags options).map (·.1)
  | .output => ip.tcpOutput s
  | .segment h p => (inputActive turns (ip.takeApart h p.totLen) s h p).map (·.1)
  | .clock => some { ip with tcpTicks := ip.tcpTicks + 1 }
  | .timer => (slowTurn turns ip none s).map (·.1)
  | .remove => some ((ip.tcpSocketPurge s).tcpSetSocketState s .closed)
  | .outside => some ip

theorem connectionAct_step {turns : Nat} (acts : connectionAct turns s ip event = some ip') :
    ConnectionStep s ip event ip' := by
  cases event with
  | enqueue data flags options =>
    obtain ⟨⟨next, enqueued⟩, call, rfl⟩ := map_eq_some_iff.mp acts
    exact .enqueue call
  | output => exact .output acts
  | segment h p =>
    obtain ⟨⟨next, queued⟩, call, rfl⟩ := map_eq_some_iff.mp acts
    exact .segment call
  | clock =>
    cases acts
    exact .clock
  | timer =>
    obtain ⟨⟨next, prev⟩, call, rfl⟩ := map_eq_some_iff.mp acts
    exact .timer call
  | remove =>
    cases acts
    refine .remove rfl (.inl rfl) ?_
    rw [tcpSetSocketState, updateTcp_self]
    exact congrArg (fun sender => { sender with state := TcpState.closed }) purge_sender
  | outside =>
    cases acts
    exact .outside rfl rfl (.inl rfl)

/-- Let a list of events happen; one that fails is left out with those behind it. -/
def connectionAfter (turns : Nat) (s : SocketId) (ip : Ip) (events : List ConnectionEvent) : Ip :=
  (events.foldlM (connectionAct turns s) ip).getD ip

theorem connectionAfter_run {turns : Nat} {events : List ConnectionEvent}
    {condition : Ip → ConnectionEvent → Prop}
    (holds : ∀ ip, ∀ event ∈ events, condition ip event)
    (succeeds : (events.foldlM (connectionAct turns s) ip).isSome = true) :
    ConnectionRun s condition ip (connectionAfter turns s ip events) := by
  obtain ⟨ip', acts⟩ := isSome_iff_exists.mp succeeds
  rw [connectionAfter, acts]
  refine foldlM_run (fun ip event member ip' acts => ?_) acts
  exact ⟨event, holds ip event member, connectionAct_step acts⟩

/-- The stack of a machine when `tcp_accept` has made a socket for the request of a peer. -/
def requested (h : TcpHdr) (memory : List Bool) : Ip :=
  ({ target := .i386, wideShift := fun _ => 0, tcpSockets := some 0, memory } : Ip).setTcp 0
    (TcpSocket.accepting h 80 h.seqno (TcpSocket.allocated 100 0))

/-- `tcp_accept` enqueues its answer to the request. -/
def answer (ip : Ip) (h : TcpHdr) : Option Ip := do
  let ip ← tcpParseopt 40 ip 0 h
  let (ip, _) ← ip.tcpEnqueue 0 [] (TcpFlags.syn ||| TcpFlags.ack)
    (mssOption (ip.tcpSocket 0).mss)
  some ip

def answered (h : TcpHdr) (memory : List Bool) : Ip :=
  ((requested h memory).answer h).getD (requested h memory)

variable {h : TcpHdr} {memory : List Bool}

theorem answer_calls {first : Ip} (answers : (first.answer h).isSome = true) :
    ∃ ip before enqueued, first.answer h = some ip ∧ tcpParseopt 40 first 0 h = some before ∧
      before.tcpEnqueue 0 [] (TcpFlags.syn ||| TcpFlags.ack) (mssOption (before.tcpSocket 0).mss) =
        some (ip, enqueued) := by
  obtain ⟨ip, same⟩ := isSome_iff_exists.mp answers
  refine ⟨ip, ?_⟩
  rw [same]
  simp only [answer, bind_eq_bind, bind_eq_some_iff, Option.some.injEq,
    Prod.exists] at same
  obtain ⟨before, parses, next, enqueued, call, rfl⟩ := same
  exact ⟨before, enqueued, rfl, parses, call⟩

theorem answered_calls (answers : ((requested h memory).answer h).isSome = true) :
    ∃ before enqueued, tcpParseopt 40 (requested h memory) 0 h = some before ∧
      before.tcpEnqueue 0 [] (TcpFlags.syn ||| TcpFlags.ack) (mssOption (before.tcpSocket 0).mss) =
        some (answered h memory, enqueued) := by
  obtain ⟨ip, before, enqueued, same, parses, call⟩ := answer_calls answers
  rw [answered, same, getD_some]
  exact ⟨before, enqueued, parses, call⟩

theorem answered_begins (answers : ((requested h memory).answer h).isSome = true) :
    Begins 0 (answered h memory) := by
  obtain ⟨before, enqueued, parses, call⟩ := answered_calls answers
  exact .accept (setTcp_self _ 0 _) parses call

/-- The stack of a machine when `tcp_connect` has made a socket. -/
def requesting (memory : List Bool) : Ip :=
  ({ target := .i386, wideShift := fun _ => 0, tcpSockets := some 0, memory } : Ip).setTcp 0
    (TcpSocket.connecting #v[10, 0, 0, 18] 80 1000 (TcpSocket.allocated 101 0))

/-- `tcp_connect` enqueues its request. -/
def request (ip : Ip) : Option Ip := do
  let (ip, enqueued) ← ip.tcpEnqueue 0 [] TcpFlags.syn (mssOption (ip.tcpSocket 0).mss)
  if enqueued then some ip else none

def started (memory : List Bool) : Ip :=
  (requesting memory).request.getD (requesting memory)

theorem started_calls (requests : (requesting memory).request.isSome = true) :
    (requesting memory).tcpEnqueue 0 [] TcpFlags.syn
      (mssOption ((requesting memory).tcpSocket 0).mss) = some (started memory, true) := by
  obtain ⟨ip, same⟩ := isSome_iff_exists.mp requests
  rw [started, same, getD_some]
  simp only [request, bind_eq_bind, bind_eq_some_iff, Prod.exists] at same
  obtain ⟨next, enqueued, call, same⟩ := same
  split at same
  · rename_i done
    cases same
    obtain rfl := done
    exact call
  · cases same

theorem started_begins (requests : (requesting memory).request.isSome = true) :
    Begins 0 (started memory) :=
  .connect (setTcp_self _ 0 _) (started_calls requests)

end Ip

def peerSyn : TcpHdr where
  srcIp := #v[10, 0, 0, 18]
  destIp := #v[10, 0, 0, 17]
  src := 1000
  dest := 80
  seqno := 7
  ackno := 0
  offset := 0x50
  flags := TcpFlags.syn
  wnd := 1000

/-- The acknowledgement of the answer, and of nothing later. -/
def peerAck : TcpHdr :=
  { peerSyn with seqno := 8, ackno := 101, flags := TcpFlags.ack }

def peerSynAck : TcpHdr :=
  { peerSyn with ackno := 101, flags := TcpFlags.syn ||| TcpFlags.ack }

def noData : Buf where
  totLen := 0
  chunks := []

end Uos
