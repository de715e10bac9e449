import Uos.Net.Tcp.Moves

/-!
# The transitions of TCP

Which sockets each event is about, and which moves it makes.
-/

namespace Uos

open Option

namespace Ip

variable {rules : TcpRules} {ip ip' : Ip} {s : SocketId} {turns : Nat} {h : TcpHdr} {p : Buf}
  {queued : Bool}

variable {first : Option SocketId} {found : Ip} {port : UShort}

theorem searchList_found {valid wanted : TcpSocket → Bool} {prev before : Option SocketId}
    (finds : ip.searchList valid wanted turns before first = some (some (prev, s))) :
    valid (ip.tcpSocket s) = true ∧ wanted (ip.tcpSocket s) = true := by
  induction turns generalizing before first with
  | zero => simp [searchList] at finds
  | succ turns ih =>
    cases first with
    | none => simp [searchList] at finds
    | some r =>
      rw [searchList] at finds
      split at finds
      · contradiction
      rename_i isValid
      split at finds
      · rename_i isWanted
        cases finds
        exact ⟨by simpa using isValid, isWanted⟩
      · exact ih finds

theorem searchList_first {valid wanted : TcpSocket → Bool} {before : Option SocketId}
    (finds : ip.searchList valid wanted turns before first = some (some (none, s))) :
    before = none ∧ first = some s := by
  induction turns generalizing before first with
  | zero => simp [searchList] at finds
  | succ turns ih =>
    cases first with
    | none => simp [searchList] at finds
    | some r =>
      rw [searchList] at finds
      split at finds
      · contradiction
      split at finds
      · cases finds
        exact ⟨rfl, rfl⟩
      · have later := (ih finds).1
        contradiction

theorem moveToFront_tcpSocket (ip : Ip) (list : TcpList) (prev : Option SocketId)
    (s : SocketId) : (ip.moveToFront list prev s).tcpSocket = ip.tcpSocket := by
  cases prev with
  | none => rfl
  | some prev => rw [moveToFront, setHead_tcpSocket, setNext_tcpSocket, setNext_tcpSocket]

theorem setHead_head (ip : Ip) (list : TcpList) (first : Option SocketId) :
    (ip.setHead list first).head list = first := by
  cases list <;> rfl

theorem moveToFront_head {list : TcpList} {prev : Option SocketId}
    (place : prev = none → ip.head list = some s) :
    (ip.moveToFront list prev s).head list = some s := by
  cases prev with
  | none => exact place rfl
  | some prev => rw [moveToFront, setHead_head]

theorem moveToFront_parsed (parsed : ip.Parsed h) (list : TcpList) (prev : Option SocketId)
    (s : SocketId) : (ip.moveToFront list prev s).Parsed h := by
  obtain ⟨arrived, seqno, ackno, flags⟩ := parsed
  cases prev with
  | none => exact ⟨arrived, seqno, ackno, flags⟩
  | some prev => cases list <;> exact ⟨arrived, seqno, ackno, flags⟩

theorem findActiveSocket_moves (finds : findActiveSocket turns ip h = some (found, some s)) :
    Moves rules {s} ip found ∧ found.tcpSockets = some s ∧ found.tcpSocket = ip.tcpSocket ∧
      isActive (ip.tcpSocket s) = true ∧ connects h (ip.tcpSocket s) = true ∧
      (ip.Parsed h → found.Parsed h) := by
  simp only [findActiveSocket, bind_eq_bind, bind_eq_some_iff] at finds
  obtain ⟨place, searched, finds⟩ := finds
  cases place with
  | none => cases finds
  | some place =>
    obtain ⟨prev, r⟩ := place
    simp only at finds
    split at finds
    · contradiction
    split at finds
    · contradiction
    cases finds
    obtain ⟨active, connected⟩ := searchList_found searched
    refine ⟨Move.moves (.front searched), ?_, moveToFront_tcpSocket _ _ _ _, active, connected,
      fun parsed => moveToFront_parsed parsed _ _ _⟩
    refine @moveToFront_head ip s .active prev fun first => ?_
    subst first
    exact (searchList_first searched).2

theorem findActiveSocket_none (finds : findActiveSocket turns ip h = some (found, none)) :
    found = ip := by
  simp only [findActiveSocket, bind_eq_bind, bind_eq_some_iff] at finds
  obtain ⟨place, -, finds⟩ := finds
  cases place with
  | none =>
    cases finds
    rfl
  | some place =>
    simp only at finds
    split at finds
    · contradiction
    split at finds
    · contradiction
    cases finds

theorem findListenSocket_moves (finds : findListenSocket turns ip h = some (found, some s)) :
    Moves rules {s} ip found ∧ (found.tcpSocket s).localPort = h.dest ∧
      (ip.Parsed h → found.Parsed h) := by
  simp only [findListenSocket, bind_eq_bind, bind_eq_some_iff] at finds
  obtain ⟨place, searched, finds⟩ := finds
  cases place with
  | none => cases finds
  | some place =>
    cases finds
    obtain ⟨-, wanted⟩ := searchList_found searched
    simp only [Bool.and_eq_true, decide_eq_true_eq] at wanted
    refine ⟨Move.moves (.front searched), ?_, fun parsed => moveToFront_parsed parsed _ _ _⟩
    rw [moveToFront_tcpSocket]
    exact wanted.1

theorem findListenSocket_none (finds : findListenSocket turns ip h = some (found, none)) :
    found = ip := by
  simp only [findListenSocket, bind_eq_bind, bind_eq_some_iff] at finds
  obtain ⟨place, -, finds⟩ := finds
  cases place <;> cases finds
  rfl

theorem inputActive_moves (parsed : ip.Parsed h) (head : ip.tcpSockets = some s)
    (active : isActive (ip.tcpSocket s) = true) (connected : connects h (ip.tcpSocket s) = true)
    (completes : h.completes (ip.tcpSocket s) = true → rules.completes h)
    (inputs : inputActive turns ip s h p = some (ip', queued)) : Moves rules {s} ip ip' := by
  simp only [inputActive, bind_eq_bind, bind_eq_some_iff, Option.some.injEq,
    Prod.mk.injEq, Prod.exists] at inputs
  obtain ⟨next, _, processes, _, sends, rfl, rfl⟩ := inputs
  have attended := ip.attend_touches s (some s)
  have processed : Moves rules {s} (ip.attend (some s)) next :=
    tcpProcess_moves ⟨parsed.arrived, parsed.seqno, parsed.ackno, parsed.flags⟩ head active
      connected completes processes
  refine .trans attended.moves (.trans processed (.trans ?_ (outputPending_touches sends).moves))
  exact (next.attend_touches s none).moves

theorem inputListening_moves (parsed : ip.Parsed h) (arrives : rules.arrives h)
    (dest : (ip.tcpSocket s).localPort = h.dest)
    (inputs : ip.inputListening s h p = some (ip', queued)) : Moves rules {s} ip ip' := by
  rw [inputListening] at inputs
  split at inputs
  · simp only [bind_eq_bind, bind_eq_some_iff, Option.some.injEq,
      Prod.mk.injEq] at inputs
    obtain ⟨next, resets, rfl, rfl⟩ := inputs
    exact (tcpRst_outputs resets).touches.moves
  split at inputs
  · cases inputs
    exact .refl
  rename_i syn
  split at inputs
  · cases inputs
    exact .refl
  simp only [bind_eq_bind, bind_eq_some_iff, Option.some.injEq,
    Prod.mk.injEq] at inputs
  obtain ⟨socket, puts, rfl, rfl⟩ := inputs
  obtain ⟨-, rfl⟩ := TcpSocket.queuePut_eq puts
  rw [parsed.syn] at syn
  exact Move.moves (.request arrives parsed.arrived (by simpa using syn) dest)

/-- The socket that a segment is for. -/
def IsFor (ip : Ip) (h : TcpHdr) (s : SocketId) : Prop :=
  (∃ turns found, findActiveSocket turns ip h = some (found, some s)) ∨
    (∃ turns, findClosingSocket turns ip h = some (some s)) ∨
    ∃ turns found, findListenSocket turns ip h = some (found, some s)

theorem tcpInput_moves (arrives : rules.arrives h)
    (completes : ∀ s, (ip.takeApart h p.totLen).IsFor h s →
      h.completes (ip.tcpSocket s) = true → rules.completes h)
    (inputs : tcpInput turns ip h p = some (ip', queued)) :
    (∃ s, (ip.takeApart h p.totLen).IsFor h s ∧ Moves rules {s} ip ip') ∨
      ∀ s, Touches s ip ip' := by
  simp only [tcpInput, bind_eq_bind, bind_eq_some_iff, Prod.exists] at inputs
  obtain ⟨found, active, finds, inputs⟩ := inputs
  have parsed : (ip.takeApart h p.totLen).Parsed h :=
    ⟨List.mem_append_right _ (List.mem_singleton_self h), rfl, rfl, rfl⟩
  cases active with
  | some s =>
    have isFor : (ip.takeApart h p.totLen).IsFor h s := .inl ⟨turns, found, finds⟩
    obtain ⟨moves, head, sockets, active, connected, keeps⟩ := findActiveSocket_moves finds
    have socket : found.tcpSocket s = ip.tcpSocket s := congrFun sockets s
    refine .inl ⟨s, isFor, (ip.takeApart_touches s h p.totLen).moves.trans (moves.trans ?_)⟩
    refine inputActive_moves (keeps parsed) head ?_ ?_ ?_ inputs
    · rw [socket]
      exact active
    · rw [socket]
      exact connected
    · rw [socket]
      exact completes s isFor
  | none =>
    obtain rfl := findActiveSocket_none finds
    simp only [bind_eq_some_iff] at inputs
    obtain ⟨closing, closingFinds, inputs⟩ := inputs
    cases closing with
    | some s =>
      have isFor : (ip.takeApart h p.totLen).IsFor h s := .inr (.inl ⟨turns, closingFinds⟩)
      simp only [bind_eq_some_iff, Option.some.injEq, Prod.mk.injEq] at inputs
      obtain ⟨next, closes, rfl, rfl⟩ := inputs
      exact .inl ⟨s, isFor,
        (ip.takeApart_touches s h p.totLen).moves.trans (inputClosing_touches closes).moves⟩
    | none =>
      simp only [bind_eq_some_iff, Prod.exists] at inputs
      obtain ⟨found, listening, listenFinds, inputs⟩ := inputs
      cases listening with
      | some s =>
        have isFor : (ip.takeApart h p.totLen).IsFor h s :=
          .inr (.inr ⟨turns, found, listenFinds⟩)
        obtain ⟨moves, dest, keeps⟩ := findListenSocket_moves listenFinds
        refine .inl ⟨s, isFor, (ip.takeApart_touches s h p.totLen).moves.trans ?_⟩
        exact moves.trans (inputListening_moves (keeps parsed) arrives dest inputs)
      | none =>
        obtain rfl := findListenSocket_none listenFinds
        refine .inr fun s => (ip.takeApart_touches s h p.totLen).trans ?_
        simp only at inputs
        split at inputs
        · simp only [bind_eq_some_iff, Option.some.injEq, Prod.mk.injEq] at inputs
          obtain ⟨next, resets, rfl, rfl⟩ := inputs
          exact (tcpRst_outputs resets).touches
        · cases inputs
          exact .refl s _

theorem fastLoop_touches (walks : fastLoop turns ip first = some ip') :
    Relation.ReflTransGen (fun ip ip' => ∃ s, Touches s ip ip') ip ip' := by
  induction turns generalizing ip first with
  | zero => contradiction
  | succ turns ih =>
    cases first with
    | none =>
      cases walks
      exact .refl
    | some s =>
      simp only [fastLoop, bind_eq_bind, bind_eq_some_iff] at walks
      obtain ⟨next, sends, rest⟩ := walks
      exact .head ⟨s, sendDelayed_touches sends⟩ (ih rest)

theorem tcpFasttmr_touches (ticks : tcpFasttmr turns ip = some ip') :
    Relation.ReflTransGen (fun ip ip' => ∃ s, Touches s ip ip') ip ip' :=
  fastLoop_touches ticks

theorem allocSocket_spec {s : Option SocketId} (allocates : ip.allocSocket = (s, ip')) :
    (s = none ∧ ∀ r, Touches r ip ip') ∨
      ip.memory.headD false = true ∧ s = some ip.tcpFresh ∧
        (∀ r, Touches r ip.withSocket ip') ∧ ip'.tcpInputSeqno = ip.tcpInputSeqno := by
  simp only [allocSocket] at allocates
  split at allocates
  · rename_i allocated
    cases allocates
    exact .inr ⟨allocated, rfl, fun r => touches_rest rfl rfl (List.Subset.refl _), rfl⟩
  · cases allocates
    exact .inl ⟨rfl, fun r => touches_rest rfl rfl (List.Subset.refl _)⟩

@[simp] theorem withSocket_self (ip : Ip) : ip.withSocket.tcpSocket ip.tcpFresh = {} := by
  simp [withSocket]

theorem tcpAlloc_spec {s : Option SocketId} (allocates : ip.tcpAlloc = (s, ip')) :
    (s = none ∧ ∀ r, Touches r ip ip') ∨
      ip.memory.headD false = true ∧ s = some ip.tcpFresh ∧
        Touches ip.tcpFresh ip.withSocket ip' ∧ ip'.tcpInputSeqno = ip.tcpInputSeqno := by
  rw [tcpAlloc] at allocates
  cases result : ip.allocSocket with
  | mk new next =>
    rw [result] at allocates
    rcases allocSocket_spec result with ⟨rfl, touches⟩ | ⟨memory, rfl, touches, seqno⟩
    · cases allocates
      exact .inl ⟨rfl, touches⟩
    · cases allocates
      have numbered : Touches ip.tcpFresh ip.withSocket next.tcpNextSeqno :=
        (touches _).trans (touches_rest rfl rfl (List.Subset.refl _))
      refine .inr ⟨memory, rfl, ?_, seqno⟩
      refine ⟨numbered.toAlters.trans (alters_setTcp _ _ _), ?_, .inl ?_, ?_⟩
      · rw [setTcp_self, withSocket_self]
        rfl
      · rw [withSocket_self]
      · rw [withSocket_self]
        simp

theorem newPortLoop_spec {bound : Nat} {last : UShort}
    (finds : newPortLoop bound ip turns last = some port) :
    portInUse bound ip port = some false := by
  induction turns generalizing last with
  | zero => contradiction
  | succ turns ih =>
    simp only [newPortLoop, bind_eq_bind, bind_eq_some_iff] at finds
    obtain ⟨inUse, looks, finds⟩ := finds
    cases inUse with
    | true => exact ih finds
    | false =>
      cases finds
      exact looks

theorem tcpNewPort_spec (finds : tcpNewPort turns ip = some (port, ip')) :
    portInUse turns ip port = some false ∧ ip' = { ip with tcpPort := port } := by
  simp only [tcpNewPort, bind_eq_bind, bind_eq_some_iff, Option.some.injEq,
    Prod.mk.injEq] at finds
  obtain ⟨_, found, rfl, rfl⟩ := finds
  exact ⟨newPortLoop_spec found, rfl⟩

theorem touches_update {change : TcpSocket → TcpSocket} (sockets : ip'.tcpSocket = ip.tcpSocket)
    (links : ip'.links = ip.links) (arrived : ip.arrived ⊆ ip'.arrived) :
    Touches s (ip.updateTcp s change) (ip'.updateTcp s change) := by
  refine touches_rest ?_ links arrived
  simp only [updateTcp, setTcp, sockets]

variable {next : Option Pending}

/-- `tcp_connect` makes a new socket, which is an active one or is freed. -/
theorem tcpConnect_moves {ipaddr : IpAddr}
    (connects : tcpConnect turns ip ipaddr port = some (ip', next)) :
    Moves rules {ip.tcpFresh} ip ip' ∧ ∀ call ∈ next, call = .connectWait ip.tcpFresh := by
  simp only [tcpConnect] at connects
  cases result : ip.tcpAlloc with
  | mk new allocated =>
  rw [result] at connects
  simp only [bind_eq_bind, bind_eq_some_iff, Prod.exists] at connects
  obtain ⟨s, rfl, localPort, numbered, ports, outputs⟩ := connects
  obtain ⟨unused, rfl⟩ := tcpNewPort_spec ports
  rcases tcpAlloc_spec result with ⟨none, -⟩ | ⟨-, fresh, touches, -⟩
  · contradiction
  cases fresh
  simp only [connectOutput, bind_eq_bind, bind_eq_some_iff, Prod.exists] at outputs
  obtain ⟨queued, enqueued, enqueues, outputs⟩ := outputs
  have enqueueTouches := tcpEnqueue_touches enqueues
  split at outputs
  · simp only [bind_eq_some_iff, Option.some.injEq, Prod.mk.injEq] at outputs
    obtain ⟨sent, sends, rfl, rfl⟩ := outputs
    refine ⟨.trans (Move.moves ?_) (tcpOutput_outputs sends).touches.moves, by simp⟩
    have opens : Opens rules allocated .active (TcpSocket.connecting ipaddr port localPort) :=
      .connect unused
    refine .enroll touches opens (.trans ?_ enqueueTouches)
    exact touches_update rfl rfl (List.Subset.refl _)
  · cases outputs
    refine ⟨Move.moves (.discard (touches.toAlters.trans ?_)), by simp⟩
    refine .trans (.trans ?_ (alters_setTcp { allocated with tcpPort := localPort } _ _))
      enqueueTouches.toAlters
    exact ⟨rfl, List.Subset.refl _, fun _ _ => rfl⟩

theorem choosePort_spec {chosen : UShort}
    (chooses : choosePort turns ip port = some (chosen, ip')) :
    ip' = ip ∨ ∃ tcpPort, ip' = { ip with tcpPort } := by
  rw [choosePort] at chooses
  split at chooses
  · exact .inr ⟨chosen, (tcpNewPort_spec chooses).2⟩
  · cases chooses
    exact .inl rfl

/-- `tcp_listen` makes a new socket, which listens or is freed. -/
theorem tcpListen_moves {ipaddr : IpAddr} (listens : tcpListen turns ip ipaddr port = some ip') :
    Moves rules {ip.tcpFresh} ip ip' := by
  rw [tcpListen] at listens
  cases result : ip.allocSocket with
  | mk new next =>
  rw [result] at listens
  rcases allocSocket_spec result with ⟨rfl, touches⟩ | ⟨-, rfl, touches, -⟩
  · cases listens
    exact (touches ip.tcpFresh).moves
  simp only [bind_eq_bind, bind_eq_some_iff, Prod.exists] at listens
  obtain ⟨chosen, numbered, chooses, inUse, -, listens⟩ := listens
  have numberedTouches : Touches ip.tcpFresh next numbered := by
    rcases choosePort_spec chooses with rfl | ⟨tcpPort, rfl⟩
    · exact .refl _ _
    · exact touches_rest rfl rfl (List.Subset.refl _)
  have touched := (touches ip.tcpFresh).trans numberedTouches
  split at listens
  · cases listens
    exact Move.moves (.discard touched.toAlters)
  · cases listens
    exact Move.moves (.enroll touched (.listen ipaddr chosen) (.refl _ _))

/-- `tcp_accept` makes a new socket, unless there is no memory. -/
theorem acceptCreate_moves {received : TcpReceived} (accepts : ip.memory.headD false = true →
      ∀ first h, Touches ip.tcpFresh ip.withSocket first → received.header = some h →
        rules.accepts first h (first.tcpSocket s).localPort ip.tcpInputSeqno)
    (creates : acceptCreate turns ip s received = some (ip', next)) :
    Moves rules {ip.tcpFresh} ip ip' ∧ ∀ call ∈ next, call = .acceptWait s := by
  rw [acceptCreate] at creates
  cases result : ip.tcpAlloc with
  | mk new allocated =>
  rw [result] at creates
  rcases tcpAlloc_spec result with ⟨rfl, touches⟩ | ⟨memory, rfl, touches, seqno⟩
  · cases creates
    exact ⟨(touches ip.tcpFresh).moves, by simp⟩
  simp only [bind_eq_bind, bind_eq_some_iff, Option.some.injEq, Prod.mk.injEq,
    Prod.exists] at creates
  obtain ⟨h, header, parsed, parses, queued, _, enqueues, sent, sends, rfl, rfl⟩ := creates
  refine ⟨?_, by simp⟩
  have allowed := accepts memory allocated h touches header
  rw [← seqno] at allowed
  have enrolled : Move rules ip.tcpFresh ip
      ((allocated.updateTcp ip.tcpFresh (TcpSocket.accepting h (allocated.tcpSocket s).localPort
        allocated.tcpInputSeqno)).tcpListAdd .active ip.tcpFresh) :=
    .enroll touches (.accept allowed) (.refl _ _)
  refine enrolled.moves.trans (Touches.moves ?_)
  exact (tcpParseopt_touches parses).trans
    ((tcpEnqueue_touches enqueues).trans (tcpOutput_outputs sends).touches)

theorem closeEnqueue_moves (orderly : rules.orderly → isActive (ip.tcpSocket s) = true ∨
      ∀ queued, ip.tcpEnqueue s [] TcpFlags.fin [] ≠ some (queued, true))
    (closes : ip.closeEnqueue s = some (ip', next)) :
    Moves rules {s} ip ip' ∧ ∀ call ∈ next, call = .closeOutput s ∨
      call = .closeEnqueue s ∧ (ip'.tcpSocket s).state = (ip.tcpSocket s).state := by
  simp only [closeEnqueue, bind_eq_bind, bind_eq_some_iff, Prod.exists] at closes
  obtain ⟨queued, enqueued, enqueues, closes⟩ := closes
  have touches := tcpEnqueue_touches enqueues
  cases enqueued with
  | false =>
    cases closes
    exact ⟨touches.moves, by simp [touches.state]⟩
  | true =>
    cases closes
    refine ⟨touches.moves.trans ?_, by simp⟩
    have active (held : rules.orderly) : isActive (queued.tcpSocket s) = true := by
      apply touches.active
      rcases orderly held with active | fails
      · exact active
      · exact absurd enqueues (fails queued)
    have advanced (state : TcpState) (later : state.Later) (other : state ≠ .established) :
        Moves rules {s} queued
          (queued.updateTcp s fun socket => { socket with state }) := by
      have same : (queued.updateTcp s fun socket => { socket with state }) =
          queued.tcpSetSocketState s state := by
        simp [tcpSetSocketState, updateTcp, other]
      rw [same]
      exact Move.moves (.advance active later fun same => absurd same other)
    split
    · exact advanced _ (by simp [TcpState.Later]) (by simp)
    · exact advanced _ (by simp [TcpState.Later]) (by simp)

/-- The first part of `tcp_close`. -/
theorem tcpClose_moves (closes : ip.tcpClose s = some (ip', next)) :
    Moves rules {s} ip ip' ∧ ∀ call ∈ next, call.socket = s ∧ (call = .closeOutput s ∨
      call = .closeEnqueue s ∧ isActive (ip'.tcpSocket s) = true ∧
        (ip'.tcpSocket s).state ≠ .synSent ∨
      call = .closeRemove s) := by
  have freed : Moves rules {s} ip (ip.updateTcp s TcpSocket.queueFree) :=
    (ip.queueFree_touches s).moves
  have enqueues (active : isActive (ip.tcpSocket s) = true)
      (sent : (ip.tcpSocket s).state ≠ .synSent)
      (closes : ip.closeEnqueue s = some (ip', next)) :
      Moves rules {s} ip ip' ∧ ∀ call ∈ next, call.socket = s ∧ (call = .closeOutput s ∨
        call = .closeEnqueue s ∧ isActive (ip'.tcpSocket s) = true ∧
          (ip'.tcpSocket s).state ≠ .synSent ∨
        call = .closeRemove s) := by
    obtain ⟨moves, calls⟩ := closeEnqueue_moves (fun _ => .inl active) closes
    refine ⟨moves, fun call member => ?_⟩
    rcases calls call member with rfl | ⟨rfl, same⟩
    · exact ⟨rfl, .inl rfl⟩
    · refine ⟨rfl, .inr (.inl ⟨rfl, ?_, ?_⟩)⟩
      · rwa [isActive, same]
      · rwa [same]
  rw [tcpClose] at closes
  split at closes
  · cases closes
    exact ⟨freed, by simp [Pending.socket]⟩
  · cases closes
    exact ⟨freed, by simp [Pending.socket]⟩
  · rename_i state
    exact enqueues (by simp [isActive, state]) (by simp [state]) closes
  · rename_i state
    exact enqueues (by simp [isActive, state]) (by simp [state]) closes
  · rename_i state
    exact enqueues (by simp [isActive, state]) (by simp [state]) closes
  · cases closes
    exact ⟨freed, by simp⟩

end Ip

def Pending.Meets (rules : TcpRules) (ip : Ip) : Pending → Prop
  | acceptCreate s received =>
    ip.memory.headD false = true →
      ∀ first h, Ip.Touches ip.tcpFresh ip.withSocket first → received.header = some h →
        rules.accepts first h (first.tcpSocket s).localPort ip.tcpInputSeqno
  | closeEnqueue s =>
    rules.orderly → (ip.tcpSocket s).state ≠ .listen ∧ (Ip.isActive (ip.tcpSocket s) = true ∨
      ∀ queued, ip.tcpEnqueue s [] TcpFlags.fin [] ≠ some (queued, true))
  | closeRemove s => rules.orderly → (ip.tcpSocket s).state ≠ .timeWait
  | closeTimeWait s | abortTimeWait s =>
    rules.orderly → (ip.tcpSocket s).state = .timeWait ∨ (ip.tcpSocket s).state = .closed
  | abortRemove s _ =>
    rules.orderly → (ip.tcpSocket s).state ≠ .listen ∧ (ip.tcpSocket s).state ≠ .timeWait
  | _ => True

def Pending.Follows (rules : TcpRules) (ip ip' : Ip) : Pending → Prop
  | acceptCreate s received =>
    received ∈ (ip.tcpSocket s).queue ∧ (ip.tcpSocket s).state = .listen
  | closeEnqueue s => rules.orderly → (ip'.tcpSocket s).state ≠ .listen
  | closeTimeWait s | abortTimeWait s => (ip'.tcpSocket s).state = .timeWait
  | _ => True

namespace Ip

variable {rules : TcpRules} {ip ip' : Ip} {s : SocketId} {turns : Nat} {next : Option Pending}

/-- Moves of the socket of a call, and what is known of the rest of the call. -/
structure CallMoves (rules : TcpRules) (s : SocketId) (ip ip' : Ip) (next : Option Pending) :
    Prop where
  moves : Moves rules {s} ip ip' ∨ Moves rules {ip.tcpFresh} ip ip'
  follows : ∀ call ∈ next, call.Follows rules ip ip'
  socket : ∀ call ∈ next, call.socket = s

theorem Touches.callMoves (touches : Touches s ip ip')
    (follows : ∀ call ∈ next, call.Follows rules ip ip')
    (socket : ∀ call ∈ next, call.socket = s) : CallMoves rules s ip ip' next :=
  ⟨.inl touches.moves, follows, socket⟩

theorem acceptWait_moves (accepts : ip.acceptWait s = (ip', next)) :
    CallMoves rules s ip ip' next := by
  rw [acceptWait] at accepts
  split at accepts
  · cases accepts
    exact (Touches.refl s ip).callMoves (by simp) (by simp)
  rename_i listens
  split at accepts
  · cases accepts
    exact (Touches.refl s ip).callMoves (by simp [Pending.Follows]) (by simp [Pending.socket])
  · rename_i received socket gets
    cases accepts
    refine (queueGet_touches gets).callMoves ?_ (by simp [Pending.socket])
    have member : received ∈ (ip.tcpSocket s).queue := by
      rw [TcpSocket.queueGet] at gets
      split at gets
      · contradiction
      · rename_i queue
        cases gets
        rw [queue]
        exact List.mem_cons_self
    simp only [mem_some_iff, forall_eq', Pending.Follows]
    exact ⟨member, by simpa using listens⟩

theorem writeEnqueue_moves {data : List UChar}
    (writes : ip.writeEnqueue s data = some (ip', next)) : CallMoves rules s ip ip' next := by
  rw [writeEnqueue] at writes
  split at writes
  · cases writes
    exact (Touches.refl s ip).callMoves (by simp) (by simp)
  simp only [bind_eq_bind, bind_eq_some_iff, Option.some.injEq, Prod.mk.injEq,
    Prod.exists] at writes
  obtain ⟨queued, enqueued, enqueues, rfl, rfl⟩ := writes
  refine (tcpEnqueue_touches enqueues).callMoves ?_ ?_
  · cases enqueued <;> simp [Pending.Follows]
  · cases enqueued <;> simp [Pending.socket]

theorem tcpWrite_moves {data : List UChar}
    (writes : ip.tcpWrite s data = some (ip', next)) : CallMoves rules s ip ip' next := by
  rw [tcpWrite] at writes
  split at writes
  · cases writes
    exact (Touches.refl s ip).callMoves (by simp) (by simp)
  · exact writeEnqueue_moves writes

theorem tcpReadPoll_moves {nonblock : Bool} (reads : ip.tcpReadPoll s nonblock = (ip', next)) :
    CallMoves rules s ip ip' next := by
  rw [tcpReadPoll] at reads
  split at reads
  · split at reads
    · cases reads
      exact (Touches.refl s ip).callMoves (by simp) (by simp)
    · cases reads
      exact (Touches.refl s ip).callMoves (by simp [Pending.Follows]) (by simp [Pending.socket])
  · rename_i gets
    cases reads
    exact (queueGet_touches gets).callMoves (by simp [Pending.Follows]) (by simp [Pending.socket])

theorem tcpAbort_moves (aborts : ip.tcpAbort s = (ip', next)) :
    CallMoves rules s ip ip' next := by
  rw [tcpAbort] at aborts
  cases aborts
  refine (ip.queueFree_touches s).callMoves ?_ ?_
  · split
    · rename_i state
      simp only [mem_some_iff, forall_eq', Pending.Follows, updateTcp_self]
      exact state
    · simp [Pending.Follows]
  · split <;> simp [Pending.socket]

theorem connectWait_moves (waits : ip.connectWait s = (ip', next)) :
    CallMoves rules s ip ip' next := by
  rw [connectWait] at waits
  split at waits
  · cases waits
    exact (Touches.refl s ip).callMoves (by simp) (by simp)
  split at waits
  · rename_i closed
    cases waits
    exact ⟨.inl (Move.moves (.free closed)), by simp, by simp⟩
  · cases waits
    exact (Touches.refl s ip).callMoves (by simp [Pending.Follows]) (by simp [Pending.socket])

theorem closeWait_moves (waits : ip.closeWait s = (ip', next)) :
    CallMoves rules s ip ip' next := by
  rw [closeWait] at waits
  split at waits
  · cases waits
    exact (Touches.refl s ip).callMoves (by simp) (by simp)
  split at waits
  · rename_i ready
    cases waits
    simp only [Bool.and_eq_true, decide_eq_true_eq] at ready
    refine (ip.queueFree_touches s).callMoves ?_ (by simp [Pending.socket])
    simp only [mem_some_iff, forall_eq', Pending.Follows, updateTcp_self]
    exact ready.1
  · cases waits
    exact (Touches.refl s ip).callMoves (by simp [Pending.Follows]) (by simp [Pending.socket])

theorem tcpClose_callMoves (closes : ip.tcpClose s = some (ip', next)) :
    CallMoves rules s ip ip' next := by
  obtain ⟨moves, calls⟩ := tcpClose_moves closes
  refine ⟨.inl moves, fun call member => ?_, fun call member => (calls call member).1⟩
  rcases (calls call member).2 with rfl | ⟨rfl, active, -⟩ | rfl
  · trivial
  · exact fun _ => (isActive_holds.mp active).2.2
  · trivial

theorem removes_orderly {state : TcpState} (listen : state ≠ .listen)
    (timeWait : state ≠ .timeWait) : state = .closed ∨ TcpList.active.Holds state := by
  cases state <;> simp [TcpList.Holds] at listen timeWait ⊢

theorem resume_moves {call : Pending} (meets : call.Meets rules ip)
    (resumes : resume turns ip call = some (ip', next)) :
    CallMoves rules call.socket ip ip' next := by
  cases call with
  | connectWait s => exact connectWait_moves (Option.some.inj resumes)
  | writeWait s data => exact writeEnqueue_moves resumes
  | writeOutput s =>
    obtain ⟨next, sends, same⟩ := map_eq_some_iff.mp resumes
    cases same
    exact (tcpOutput_outputs sends).touches.callMoves (by simp) (by simp)
  | readWait s nonblock => exact tcpReadPoll_moves (Option.some.inj resumes)
  | readAck s =>
    obtain ⟨next, acks, same⟩ := map_eq_some_iff.mp resumes
    cases same
    exact (readAck_touches acks).callMoves (by simp) (by simp)
  | acceptWait s => exact acceptWait_moves (Option.some.inj resumes)
  | acceptCreate s received =>
    obtain ⟨moves, calls⟩ := acceptCreate_moves meets resumes
    refine ⟨.inr moves, fun call member => ?_, fun call member => ?_⟩
    · rw [calls call member]
      trivial
    · rw [calls call member]
      rfl
  | closeRemove s =>
    obtain ⟨next, removes, same⟩ := map_eq_some_iff.mp resumes
    cases same
    refine ⟨.inl (Move.moves (.remove (fun orderly => ?_) removes)), by simp, by simp⟩
    split
    · rename_i listens
      exact .inr listens
    · rename_i other
      exact removes_orderly other (meets orderly)
  | closeEnqueue s =>
    obtain ⟨moves, calls⟩ := closeEnqueue_moves (fun orderly => (meets orderly).2) resumes
    refine ⟨.inl moves, fun call member => ?_, fun call member => ?_⟩
    · rcases calls call member with rfl | ⟨rfl, same⟩
      · trivial
      · intro orderly
        rw [same]
        exact (meets orderly).1
    · rcases calls call member with rfl | ⟨rfl, -⟩ <;> rfl
  | closeOutput s =>
    obtain ⟨next, sends, same⟩ := map_eq_some_iff.mp resumes
    cases same
    exact (closeOutput_touches sends).callMoves (by simp [Pending.Follows])
      (by simp [Pending.socket])
  | closeWait s => exact closeWait_moves (Option.some.inj resumes)
  | closeTimeWait s =>
    obtain ⟨next, removes, same⟩ := map_eq_some_iff.mp resumes
    cases same
    refine ⟨.inl (Move.moves (.remove (fun orderly => ?_) removes)), by simp, by simp⟩
    exact (meets orderly).symm
  | abortTimeWait s =>
    obtain ⟨next, removes, same⟩ := map_eq_some_iff.mp resumes
    cases same
    refine ⟨.inl (Move.moves (.remove (fun orderly => ?_) removes)), by simp, by simp⟩
    exact (meets orderly).symm
  | abortRemove s fields =>
    obtain ⟨next, aborts, same⟩ := map_eq_some_iff.mp resumes
    cases same
    simp only [abortRemove, bind_eq_bind, bind_eq_some_iff] at aborts
    obtain ⟨removed, removes, resets⟩ := aborts
    have removal : Move rules s ip removed :=
      .remove (fun orderly => removes_orderly (meets orderly).1 (meets orderly).2) removes
    refine ⟨.inl (removal.moves.trans ?_), by simp, by simp⟩
    exact (tcpRst_outputs resets).touches.moves

/-- Whether the slow timer moves a socket to the list in TIME-WAIT state. -/
def StuckClosing (ip : Ip) (s : SocketId) : Prop :=
  (ip.tcpSocket s).isClosing = true ∧ ip.stayed (ip.tcpSocket s) tcpStuckTicks = true

def retired (ip : Ip) (s : SocketId) : Ip :=
  (ip.tcpSocketPurge s).tcpSetSocketState s .closed

/-- What the slow timer does with one active socket. -/
inductive SlowTurn (bound : Nat) (prev : Option SocketId) (s : SocketId) (ip : Ip) :
    Ip → Option SocketId → Prop
  | stays {ip' : Ip} : Outputs s ip ip' → SlowTurn bound prev s ip ip' (some s)
  | moves {sent ip' : Ip} :
      Outputs s ip sent → ip.StuckClosing s → moveToClosing bound sent s = some ip' →
        SlowTurn bound prev s ip ip' (some s)
  | retires {sent ip' : Ip} :
      Outputs s ip sent → (sent.retired s).unlinkBehind .active prev s = some ip' →
        SlowTurn bound prev s ip ip' prev
  /-- The retransmissions ended while the socket was stuck. -/
  | both {sent moved ip' : Ip} :
      Outputs s ip sent → ip.StuckClosing s → (ip.tcpSocket s).gaveUp = true →
        moveToClosing bound sent s = some moved →
        (moved.retired s).unlinkBehind .active prev s = some ip' →
        SlowTurn bound prev s ip ip' prev

theorem slowLoop_turn {bound : Nat} {prev : Option SocketId} {processed : List SocketId}
    (walks : slowLoop bound (turns + 1) ip prev (some s) = some (ip', processed)) :
    isActive (ip.tcpSocket s) = true ∧ ∃ ip₁ prev₁ rest, SlowTurn bound prev s ip ip₁ prev₁ ∧
      slowLoop bound turns ip₁ prev₁ (ip₁.tcpNext s) = some (ip', rest) ∧
      processed = s :: rest := by
  rw [slowLoop] at walks
  split at walks
  · contradiction
  rename_i active
  simp only [bind_eq_bind, bind_eq_some_iff, Option.some.injEq, Prod.mk.injEq,
    Prod.exists] at walks
  obtain ⟨sent, retries, checked, remove, checks, next, behind, removes, _, rest, walks, rfl,
    rfl⟩ := walks
  refine ⟨by simpa using active, next, behind, rest, ?_, walks, rfl⟩
  have outputs := retryOrGiveUp_outputs retries
  have state : (sent.tcpSocket s).state = (ip.tcpSocket s).state :=
    congrArg TcpReceiver.state outputs.receiver
  have tmr : (sent.tcpSocket s).tmr = (ip.tcpSocket s).tmr :=
    congrArg TcpReceiver.tmr outputs.receiver
  have ticks : sent.tcpTicks = ip.tcpTicks := congrArg TcpRegisters.tcpTicks outputs.registers
  have removed (result : (checked, remove) = (sent, true)) :
      SlowTurn bound prev s ip next behind := by
    cases result
    simp only [slowRemove, if_true] at removes
    obtain ⟨_, unlinks, same⟩ := map_eq_some_iff.mp removes
    cases same
    exact .retires outputs unlinks
  have kept (result : (checked, remove) = (sent, (ip.tcpSocket s).gaveUp)) :
      SlowTurn bound prev s ip next behind := by
    cases gaveUp : (ip.tcpSocket s).gaveUp with
    | true =>
      rw [gaveUp] at result
      exact removed result
    | false =>
      rw [gaveUp] at result
      cases result
      cases removes
      exact .stays outputs
  simp only [checkStuck] at checks
  split at checks
  · rename_i stayed
    split at checks
    · exact removed (Option.some.inj checks).symm
    split at checks
    · rename_i closing
      have stuck : ip.StuckClosing s := by
        refine ⟨?_, ?_⟩
        · simpa only [TcpSocket.isClosing, state] using closing
        · simpa only [stayed, Ip.stayed, tmr, ticks] using stayed
      obtain ⟨_, moves, same⟩ := map_eq_some_iff.mp checks
      cases same
      cases gaveUp : (ip.tcpSocket s).gaveUp with
      | true =>
        simp only [slowRemove, gaveUp, if_true] at removes
        obtain ⟨_, unlinks, same⟩ := map_eq_some_iff.mp removes
        cases same
        exact .both outputs stuck gaveUp moves unlinks
      | false =>
        simp only [slowRemove, gaveUp, Bool.false_eq_true, if_false] at removes
        cases removes
        exact .moves outputs stuck moves
    · exact kept (Option.some.inj checks).symm
  · exact kept (Option.some.inj checks).symm

end Ip

namespace TcpStack

/-- The socket that an event is about, except for the timers. -/
def About (stack : TcpStack) (s : SocketId) : TcpEvent → Prop
  | .connect _ _ | .listen _ _ => s = stack.ip.tcpFresh
  | .accept r | .write r _ | .readPoll r _ | .close r | .abort r => s = r
  | .resume i => ∃ call, stack.calls[i]? = some call ∧ call.socket = s
  | .segment h p => (stack.ip.takeApart h p.totLen).IsFor h s
  | .slowtmr | .fasttmr => False

def Meets (rules : TcpRules) (stack : TcpStack) : TcpEvent → Prop
  | .resume i => ∀ call, stack.calls[i]? = some call → call.Meets rules stack.ip
  | .segment h p =>
    rules.arrives h ∧ ∀ s, (stack.ip.takeApart h p.totLen).IsFor h s →
      h.completes (stack.ip.tcpSocket s) = true → rules.completes h
  | _ => True

/-- What an event does. -/
inductive Acts (rules : TcpRules) (stack : TcpStack) (event : TcpEvent) (ip' : Ip) :
    Option Pending → Prop
  | moves {s : SocketId} {next : Option Pending} :
      stack.About s event → Ip.CallMoves rules s stack.ip ip' next →
        Acts rules stack event ip' next
  | touches :
      Relation.ReflTransGen (fun ip ip' => ∃ s, Ip.Touches s ip ip') stack.ip ip' →
        Acts rules stack event ip' none
  | slowtmr {turns : Nat} {processed : List SocketId} :
      event = .slowtmr → Ip.tcpSlowtmr turns stack.ip = some (ip', processed) →
        Acts rules stack event ip' none

theorem act_cases {rules : TcpRules} {stack : TcpStack} {event : TcpEvent} {turns : Nat} {ip' : Ip}
    {next : Option Pending} (meets : stack.Meets rules event)
    (acts : stack.act turns event = some (ip', next)) : stack.Acts rules event ip' next := by
  cases event with
  | connect ipaddr port =>
    obtain ⟨moves, calls⟩ := Ip.tcpConnect_moves acts
    refine @Acts.moves _ _ _ _ stack.ip.tcpFresh _ rfl ⟨.inl moves, ?_, ?_⟩
    · intro call member
      rw [calls call member]
      trivial
    · intro call member
      rw [calls call member]
      rfl
  | listen ipaddr port =>
    obtain ⟨_, listens, same⟩ := map_eq_some_iff.mp acts
    cases same
    exact @Acts.moves _ _ _ _ stack.ip.tcpFresh _ rfl
      ⟨.inl (Ip.tcpListen_moves listens), by simp, by simp⟩
  | accept s => exact @Acts.moves _ _ _ _ s _ rfl (Ip.acceptWait_moves (Option.some.inj acts))
  | write s data => exact @Acts.moves _ _ _ _ s _ rfl (Ip.tcpWrite_moves acts)
  | readPoll s nonblock =>
    exact @Acts.moves _ _ _ _ s _ rfl (Ip.tcpReadPoll_moves (Option.some.inj acts))
  | close s => exact @Acts.moves _ _ _ _ s _ rfl (Ip.tcpClose_callMoves acts)
  | abort s => exact @Acts.moves _ _ _ _ s _ rfl (Ip.tcpAbort_moves (Option.some.inj acts))
  | resume i =>
    obtain ⟨call, found, resumes⟩ := bind_eq_some_iff.mp acts
    exact .moves ⟨call, found, rfl⟩ (Ip.resume_moves (meets call found) resumes)
  | segment h p =>
    obtain ⟨⟨_, queued⟩, inputs, same⟩ := map_eq_some_iff.mp acts
    cases same
    rcases Ip.tcpInput_moves meets.1 meets.2 inputs with ⟨s, isFor, moves⟩ | touches
    · exact .moves isFor ⟨.inl moves, by simp, by simp⟩
    · exact .touches (.single ⟨0, touches 0⟩)
  | slowtmr =>
    obtain ⟨⟨_, processed⟩, ticks, same⟩ := map_eq_some_iff.mp acts
    cases same
    exact .slowtmr rfl ticks
  | fasttmr =>
    obtain ⟨_, ticks, same⟩ := map_eq_some_iff.mp acts
    cases same
    exact .touches (Ip.tcpFasttmr_touches ticks)

end TcpStack
end Uos
