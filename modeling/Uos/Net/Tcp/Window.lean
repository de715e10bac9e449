import Uos.Net.Tcp.SendQueue

/-!
# The send window

A connection takes its window from the newest segment, by comparing numbers of the segment that it
took the window from before.
-/

namespace Uos

open Option

namespace TcpSocket

/-- What a socket knows about the window of its peer. -/
structure PeerWindow where
  sndWnd : ULong
  sndWl1 : ULong
  sndWl2 : ULong

def window (socket : TcpSocket) : PeerWindow where
  sndWnd := socket.sndWnd
  sndWl1 := socket.sndWl1
  sndWl2 := socket.sndWl2

def updates (socket : TcpSocket) (seqno ackno : ULong) (wnd : UShort) : Bool :=
  seqLt socket.sndWl1 seqno || (socket.sndWl1 = seqno && seqLt socket.sndWl2 ackno) ||
    (socket.sndWl2 = ackno && socket.sndWnd < wnd.setWidth 32)

def completes (socket : TcpSocket) (h : TcpHdr) : Bool :=
  socket.state = .synSent && !h.flags.has TcpFlags.rst &&
    h.flags.has (TcpFlags.ack ||| TcpFlags.syn) &&
    match socket.unacked with
    | [] => false
    | first :: _ => h.ackno = first.seqno + 1

variable {socket : TcpSocket} {seqno ackno : ULong} {wnd : UShort}

theorem updateWindow_taken (updates : socket.updates seqno ackno wnd = true) :
    (socket.updateWindow seqno ackno wnd).window = ⟨wnd.setWidth 32, seqno, ackno⟩ := by
  rw [updateWindow]
  split
  · rfl
  · contradiction

theorem updateWindow_kept (updates : socket.updates seqno ackno wnd = false) :
    (socket.updateWindow seqno ackno wnd).window = socket.window := by
  rw [updateWindow]
  split
  · rename_i taken
    rw [TcpSocket.updates, taken] at updates
    contradiction
  · rfl

theorem updateWindow_congr {other : TcpSocket} (same : socket.window = other.window) :
    (socket.updateWindow seqno ackno wnd).window = (other.updateWindow seqno ackno wnd).window := by
  have sndWnd : socket.sndWnd = other.sndWnd := congrArg PeerWindow.sndWnd same
  have sndWl1 : socket.sndWl1 = other.sndWl1 := congrArg PeerWindow.sndWl1 same
  have sndWl2 : socket.sndWl2 = other.sndWl2 := congrArg PeerWindow.sndWl2 same
  rw [updateWindow, updateWindow, sndWnd, sndWl1, sndWl2]
  split
  · rfl
  · exact same

end TcpSocket

def blindRules : SenderRules where
  enqueues _ _ _ := True
  retransmits _ := True
  acknowledges _ := True
  windows _ _ _ := False
  completes _ _ := False
  sizes _ := True

theorem SenderMove.keepsWindow {ticks : ULong} {before after : TcpSocket}
    (move : SenderMove blindRules ticks before after) : after.window = before.window := by
  have fields {sender : TcpSender} (same : after.sender = sender) :
      after.window = ⟨sender.sndWnd, sender.sndWl1, sender.sndWl2⟩ := by
    rw [← same]
    rfl
  cases move with
  | idle same | state _ same | size _ same | enqueue _ _ _ _ same | retransmit _ _ same
  | acknowledge _ _ _ _ _ _ same | free _ _ _ _ same | purge _ same => exact fields same
  | send _ same | hold _ same =>
    rw [keepUnacked_sender] at same
    exact fields same
  | window allowed | complete allowed => exact allowed.elim
  | estimate _ _ same =>
    simp only [TcpSocket.estimate] at same
    refine (fields same).trans ?_
    split <;> rfl
  | backOff _ _ same =>
    rw [TcpSocket.backOff] at same
    refine (fields same).trans ?_
    split <;> rfl

namespace Ip

open TcpSocket

variable {s : SocketId} {ip ip' : Ip} {h : TcpHdr} {p : Buf} {turns : Nat} {queued : Bool}

theorem Sends.window (sends : Sends blindRules s ip ip') :
    (ip'.tcpSocket s).window = (ip.tcpSocket s).window :=
  run_invariant (fun socket => socket.window = (ip.tcpSocket s).window)
    (fun same move => move.keepsWindow.trans same) rfl sends.moves

theorem receiveAck_window (acks : ip.receiveAck s h = some ip') :
    (ip'.tcpSocket s).window =
      ((ip.tcpSocket s).updateWindow ip.tcpInputSeqno ip.tcpInputAckno h.wnd).window := by
  simp only [receiveAck, bind_eq_bind, bind_eq_some_iff, Option.some.injEq] at acks
  obtain ⟨next, compares, socket, frees, rfl⟩ := acks
  set windowed := (ip.tcpSocket s).updateWindow ip.tcpInputSeqno ip.tcpInputAckno h.wnd
    with windowed_eq
  have compared : (next.tcpSocket s).window = windowed.window := by
    rcases compareAck_spec compares with ⟨-, -, acked, acks, rfl⟩ | ⟨-, again, same, result⟩
    · obtain ⟨freed, kept, -, same⟩ := acknowledge_spec acks
      rw [setTcp_self]
      exact congrArg (fun sender : TcpSender =>
        PeerWindow.mk sender.sndWnd sender.sndWl1 sender.sndWl2) same
    · have kept : again.window = windowed.window :=
        congrArg (fun sender : TcpSender =>
          PeerWindow.mk sender.sndWnd sender.sndWl1 sender.sndWl2) same
      rcases result with rfl | ⟨-, -, -, -, -, fast⟩
      · rw [setTcp_self]
        exact kept
      · have resent : Sends blindRules s (ip.setTcp s again) next :=
          fastRetransmit_sends (fun _ => trivial) fast
        refine (Sends.window resent).trans ?_
        rw [setTcp_self]
        exact kept
  obtain ⟨freed, unsent, sndNxt, -, record⟩ := freeUnsent_spec frees rfl
  rw [setTcp_self, ← compared, record, estimate]
  split <;> rfl

theorem tcpReceive_window (acks : ip.tcpInputFlags.has TcpFlags.ack = true)
    (receives : ip.tcpReceive s h p = some (ip', queued)) :
    (ip'.tcpSocket s).window =
      ((ip.tcpSocket s).updateWindow ip.tcpInputSeqno ip.tcpInputAckno h.wnd).window := by
  simp only [tcpReceive, bind_eq_bind, bind_eq_some_iff] at receives
  obtain ⟨next, checks, receives⟩ := receives
  rw [checkAck, if_pos acks] at checks
  refine Eq.trans ?_ (receiveAck_window checks)
  split at receives
  · simp only [bind_eq_some_iff, Option.some.injEq, Prod.mk.injEq] at receives
    obtain ⟨last, answers, rfl, rfl⟩ := receives
    exact Sends.window (receiveEmpty_sends answers)
  · exact Sends.window (receiveData_sends receives)

theorem tcpProcess_window
    (looks : (ip.tcpSocket s).processes ip.tcpInputFlags ip.tcpInputAckno = true)
    (processes : tcpProcess turns ip s h p = some (ip', queued)) :
    (ip'.tcpSocket s).window =
      ((ip.tcpSocket s).updateWindow ip.tcpInputSeqno ip.tcpInputAckno h.wnd).window := by
  have noReset : ip.tcpInputFlags.has TcpFlags.rst = false := by
    simp only [TcpSocket.processes, Bool.and_eq_true, Bool.not_eq_true'] at looks
    exact looks.1.1
  have acks : ip.tcpInputFlags.has TcpFlags.ack = true := by
    simp only [TcpSocket.processes, Bool.and_eq_true] at looks
    exact looks.1.2
  have touched : ((ip.touch s).tcpSocket s).window = (ip.tcpSocket s).window := by
    rw [touch, updateTcp_self]
    rfl
  have receives {state : TcpState} {next : Ip}
      (receives : (ip.touch s).tcpReceive s h p = some (next, queued))
      (after : afterReceive turns state next s = some ip') :
      (ip'.tcpSocket s).window =
        ((ip.tcpSocket s).updateWindow ip.tcpInputSeqno ip.tcpInputAckno h.wnd).window := by
    refine (Sends.window (afterReceive_sends after)).trans ?_
    have acked : (ip.touch s).tcpInputFlags.has TcpFlags.ack = true := acks
    exact (tcpReceive_window acked receives).trans (updateWindow_congr touched)
  rw [tcpProcess, if_neg (by rw [noReset]; decide)] at processes
  cases state : (ip.tcpSocket s).state with
  | synSent | closed | listen | timeWait => simp [TcpSocket.processes, state] at looks
  | synRcvd =>
    simp only [state] at processes
    simp only [TcpSocket.processes, state, Bool.and_eq_true] at looks
    have acceptable : ((ip.touch s).tcpInputFlags.has TcpFlags.ack &&
        seqLt ((ip.touch s).tcpSocket s).lastack (ip.touch s).tcpInputAckno &&
        seqLeq (ip.touch s).tcpInputAckno ((ip.touch s).tcpSocket s).sndNxt) = true := by
      rw [touch, updateTcp_self]
      simp only [Bool.and_eq_true]
      exact ⟨⟨acks, looks.2.1⟩, looks.2.2⟩
    rw [processSynRcvd, if_pos acceptable] at processes
    simp only [bind_eq_bind, bind_eq_some_iff, Option.some.injEq, Prod.mk.injEq,
      Prod.exists] at processes
    obtain ⟨next, queued, takes, rfl, rfl⟩ := processes
    rw [updateTcp_self]
    have acked : ((ip.touch s).tcpSetSocketState s .established).tcpInputFlags.has
        TcpFlags.ack = true := acks
    refine (tcpReceive_window acked takes).trans (updateWindow_congr ?_)
    rw [tcpSetSocketState, updateTcp_self]
    exact touched
  | established | finWait1 | finWait2 | closeWait | closing | lastAck =>
    simp only [state] at processes
    obtain ⟨next, received, after⟩ := received_of_eq processes
    exact receives received after

theorem processSynSent_window (processes : processSynSent turns ip s h = some ip') :
    ((ip.tcpInputFlags.has (TcpFlags.ack ||| TcpFlags.syn) &&
        match (ip.tcpSocket s).unacked with
        | [] => false
        | first :: _ => ip.tcpInputAckno = first.seqno + 1) = true ∧
      (ip'.tcpSocket s).state ≠ .synSent ∧ (ip'.tcpSocket s).window =
        ⟨h.wnd.setWidth 32, h.wnd.setWidth 32, (ip.tcpSocket s).sndWl2⟩) ∨
    ((ip.tcpInputFlags.has (TcpFlags.ack ||| TcpFlags.syn) &&
        match (ip.tcpSocket s).unacked with
        | [] => false
        | first :: _ => ip.tcpInputAckno = first.seqno + 1) = false ∧ ip' = ip) := by
  simp only [processSynSent] at processes
  split at processes
  · rename_i answers
    rw [answers]
    cases outstanding : (ip.tcpSocket s).unacked with
    | nil =>
      rw [outstanding] at processes
      contradiction
    | cons first rest =>
      simp only [outstanding] at processes
      split at processes
      · rename_i own
        simp only [bind_eq_bind, bind_eq_some_iff] at processes
        obtain ⟨parsed, parses, acks⟩ := processes
        have sizes : ∀ mss ∈ parsedSize turns h, blindRules.sizes mss := fun _ _ => trivial
        refine .inl ⟨by simpa using own, ?_, ?_⟩
        · have acked : Sends anyRules s (parsed.tcpSetSocketState s .established) ip' :=
            tcpAck_sends acks
          refine acked.connected ?_
          rw [tcpSetSocketState, updateTcp_self]
          exact TcpState.noConfusion
        have sends : Sends blindRules s _ ip' :=
          (tcpParseopt_sends sizes parses).trans
            ((setState_sends (by decide)).trans (tcpAck_sends acks))
        refine (Sends.window sends).trans ?_
        rw [setTcp_self]
        rfl
      · rename_i other
        cases processes
        exact .inr ⟨decide_eq_false other, rfl⟩
  · rename_i silent
    cases processes
    exact .inr ⟨by simp [silent], rfl⟩

variable {flags : TcpFlags} {a b : ULong}

theorem tcpProcess_window_cases {seqno ackno : ULong} (inputSeqno : ip.tcpInputSeqno = seqno)
    (inputAckno : ip.tcpInputAckno = ackno) (inputFlags : ip.tcpInputFlags = flags)
    (process : tcpProcess turns ip s h p = some (ip', queued)) :
    (ip'.tcpSocket s).window =
      if (ip.tcpSocket s).processes flags ackno = true then
        ((ip.tcpSocket s).updateWindow seqno ackno h.wnd).window
      else if (ip.tcpSocket s).completes { h with flags, ackno } = true then
        ⟨h.wnd.setWidth 32, h.wnd.setWidth 32, (ip.tcpSocket s).sndWl2⟩
      else (ip.tcpSocket s).window := by
  subst inputSeqno inputAckno inputFlags
  split
  · rename_i looks
    exact tcpProcess_window looks process
  rename_i blind
  rcases eq_or_ne (ip.tcpSocket s).state .synSent with connecting | connected
  · rw [tcpProcess] at process
    split at process
    · rename_i reset
      obtain ⟨next, resets, same⟩ := map_eq_some_iff.mp process
      obtain ⟨rfl, rfl⟩ := Prod.mk.inj same
      rw [if_neg (by simp [completes, reset])]
      exact Sends.window (processReset_sends resets)
    · rename_i noReset
      simp only [connecting] at process
      obtain ⟨next, processes, same⟩ := map_eq_some_iff.mp process
      obtain ⟨rfl, rfl⟩ := Prod.mk.inj same
      have touched : (ip.touch s).tcpSocket s = { ip.tcpSocket s with tmr := ip.tcpTicks } :=
        updateTcp_self ip s _
      have completes_iff : (ip.tcpSocket s).completes
          { h with flags := ip.tcpInputFlags, ackno := ip.tcpInputAckno } =
          ((ip.touch s).tcpInputFlags.has (TcpFlags.ack ||| TcpFlags.syn) &&
            match ((ip.touch s).tcpSocket s).unacked with
            | [] => false
            | first :: _ => (ip.touch s).tcpInputAckno = first.seqno + 1) := by
        rw [touched, completes, decide_eq_true connecting, (Bool.not_eq_true _).mp noReset]
        simp only [Bool.not_false, Bool.true_and]
        rfl
      rcases processSynSent_window processes with ⟨answers, -, taken⟩ | ⟨silent, rfl⟩
      · rw [if_pos (completes_iff.trans answers), taken, touched]
      · rw [if_neg (by rw [completes_iff, silent]; decide), touched]
        rfl
  · rw [if_neg (by simp [completes, connected])]
    apply Sends.window (tcpProcess_sends ?_ process)
    exact ⟨fun looks => absurd looks blind, fun connecting => absurd connecting connected,
      fun _ _ => trivial⟩

theorem masked_has (flags : TcpFlags) {mask : TcpFlags} (inside : 0x3f &&& mask = mask) :
    (flags &&& 0x3f).has mask = flags.has mask := by
  rw [TcpFlags.has, TcpFlags.has, BitVec.and_assoc, inside]

theorem processes_masked (socket : TcpSocket) (flags : TcpFlags) (ackno : ULong) :
    socket.processes (flags &&& 0x3f) ackno = socket.processes flags ackno := by
  rw [TcpSocket.processes, masked_has _ (by decide), masked_has _ (by decide), TcpSocket.processes]

theorem completes_masked (socket : TcpSocket) (h : TcpHdr) :
    socket.completes { h with flags := h.flags &&& 0x3f } = socket.completes h := by
  simp only [completes, masked_has _ (show (0x3f : TcpFlags) &&& TcpFlags.rst = _ by decide),
    masked_has _ (show (0x3f : TcpFlags) &&& (TcpFlags.ack ||| TcpFlags.syn) = _ by decide)]

theorem inputActive_window
    (inputs : inputActive turns (ip.takeApart h p.totLen) s h p = some (ip', queued)) :
    (ip'.tcpSocket s).window =
      if (ip.tcpSocket s).processes h.flags h.ackno = true then
        ((ip.tcpSocket s).updateWindow h.seqno h.ackno h.wnd).window
      else if (ip.tcpSocket s).completes h = true then
        ⟨h.wnd.setWidth 32, h.wnd.setWidth 32, (ip.tcpSocket s).sndWl2⟩
      else (ip.tcpSocket s).window := by
  simp only [inputActive, bind_eq_bind, bind_eq_some_iff, Option.some.injEq,
    Prod.mk.injEq, Prod.exists] at inputs
  obtain ⟨next, queued, process, last, sends, rfl, rfl⟩ := inputs
  have idle : Sends blindRules s next (next.attend none) := .idle rfl rfl
  have done : (last.tcpSocket s).window = (next.tcpSocket s).window :=
    Sends.window (idle.trans (outputPending_sends sends))
  have result := tcpProcess_window_cases (show _ = h.seqno from rfl) (show _ = h.ackno from rfl)
    (show _ = h.flags &&& 0x3f from rfl) process
  rw [done, result, ← processes_masked _ h.flags, ← completes_masked _ h]
  rfl

theorem tcpSocketRemove_state {list : TcpList}
    (removes : tcpSocketRemove turns ip list s = some ip') :
    (ip'.tcpSocket s).state = .closed := by
  simp only [tcpSocketRemove, bind_eq_bind, bind_eq_some_iff,
    Option.some.injEq] at removes
  obtain ⟨unlinked, -, flushed, -, rfl⟩ := removes
  rw [tcpSetSocketState, updateTcp_self]

/-- A connection that is not open. -/
def Unopened (s : SocketId) (ip : Ip) : Prop :=
  (ip.tcpSocket s).state = .synSent ∨ (ip.tcpSocket s).state = .closed

theorem tcpProcess_unopened {ackno : ULong} (unopened : Unopened s ip)
    (inputAckno : ip.tcpInputAckno = ackno) (inputFlags : ip.tcpInputFlags = flags)
    (waits : (ip.tcpSocket s).completes { h with flags, ackno } = false)
    (process : tcpProcess turns ip s h p = some (ip', queued)) : Unopened s ip' := by
  subst inputAckno inputFlags
  have touched : (ip.touch s).tcpSocket s = { ip.tcpSocket s with tmr := ip.tcpTicks } :=
    updateTcp_self ip s _
  have stays : Unopened s (ip.touch s) := by
    rw [Unopened, touched]
    exact unopened
  rw [tcpProcess] at process
  split at process
  · obtain ⟨next, resets, same⟩ := map_eq_some_iff.mp process
    obtain ⟨rfl, rfl⟩ := Prod.mk.inj same
    simp only [processReset] at resets
    split at resets
    · cases resets
      exact unopened
    split at resets
    · contradiction
    simp only [bind_eq_bind, bind_eq_some_iff, Option.some.injEq] at resets
    obtain ⟨removed, removes, rfl⟩ := resets
    rw [Unopened, updateTcp_self]
    exact .inr (tcpSocketRemove_state removes)
  · rename_i noReset
    rcases unopened with connecting | closed
    · simp only [connecting] at process
      obtain ⟨next, processes, same⟩ := map_eq_some_iff.mp process
      obtain ⟨rfl, rfl⟩ := Prod.mk.inj same
      rcases processSynSent_window processes with ⟨answers, -⟩ | ⟨-, rfl⟩
      · rw [completes, decide_eq_true connecting, (Bool.not_eq_true _).mp noReset] at waits
        rw [touched] at answers
        exact absurd (waits.symm.trans answers) Bool.false_ne_true
      · exact stays
    · simp only [closed] at process
      obtain ⟨rfl, rfl⟩ := Prod.mk.inj (Option.some.inj process)
      exact stays

theorem tcpProcess_completed {ackno : ULong} (inputAckno : ip.tcpInputAckno = ackno)
    (inputFlags : ip.tcpInputFlags = flags)
    (completes : (ip.tcpSocket s).completes { h with flags, ackno } = true)
    (process : tcpProcess turns ip s h p = some (ip', queued)) :
    (ip'.tcpSocket s).state ≠ .synSent := by
  subst inputAckno inputFlags
  simp only [TcpSocket.completes, Bool.and_eq_true, decide_eq_true_eq,
    Bool.not_eq_true'] at completes
  obtain ⟨⟨⟨connecting, noReset⟩, answers⟩, own⟩ := completes
  rw [tcpProcess, if_neg (by rw [noReset]; decide)] at process
  simp only [connecting] at process
  obtain ⟨next, processes, same⟩ := map_eq_some_iff.mp process
  obtain ⟨rfl, rfl⟩ := Prod.mk.inj same
  rcases processSynSent_window processes with ⟨-, connected, -⟩ | ⟨silent, -⟩
  · exact connected
  · have touched : (ip.touch s).tcpSocket s = { ip.tcpSocket s with tmr := ip.tcpTicks } :=
      updateTcp_self ip s _
    have answers' : (ip.touch s).tcpInputFlags.has (TcpFlags.ack ||| TcpFlags.syn) = true := answers
    rw [touched, answers'] at silent
    exact absurd (silent.symm.trans own) Bool.false_ne_true

theorem inputActive_completed (completes : (ip.tcpSocket s).completes h = true)
    (inputs : inputActive turns (ip.takeApart h p.totLen) s h p = some (ip', queued)) :
    (ip'.tcpSocket s).state ≠ .synSent := by
  simp only [inputActive, bind_eq_bind, bind_eq_some_iff, Option.some.injEq,
    Prod.mk.injEq, Prod.exists] at inputs
  obtain ⟨next, queued, process, last, sends, rfl, rfl⟩ := inputs
  have processed : (next.tcpSocket s).state ≠ .synSent := by
    refine tcpProcess_completed (show _ = h.ackno from rfl)
      (show _ = h.flags &&& 0x3f from rfl) ?_ process
    exact (completes_masked _ h).trans completes
  rwa [(outputPending_touches sends).state]

theorem inputActive_unopened (unopened : Unopened s ip)
    (waits : (ip.tcpSocket s).completes h = false)
    (inputs : inputActive turns (ip.takeApart h p.totLen) s h p = some (ip', queued)) :
    Unopened s ip' := by
  simp only [inputActive, bind_eq_bind, bind_eq_some_iff, Option.some.injEq,
    Prod.mk.injEq, Prod.exists] at inputs
  obtain ⟨next, queued, process, last, sends, rfl, rfl⟩ := inputs
  have processed : Unopened s next := by
    refine tcpProcess_unopened ?_ (show _ = h.ackno from rfl)
      (show _ = h.flags &&& 0x3f from rfl) ?_ process
    · exact unopened
    · exact (completes_masked _ h).trans waits
  rw [Unopened, (outputPending_touches sends).state]
  exact processed

/-- A segment is newer than another one. -/
def Newer (h g : TcpHdr) : Prop :=
  seqGt h.seqno g.seqno = true ∨ h.seqno = g.seqno ∧ seqGt h.ackno g.ackno = true

/-- A connection with the segments that were processed, and the one that its window was last taken
from. -/
structure Watched where
  ip : Ip
  seen : List TcpHdr
  last : Option TcpHdr

/-- Whether the state machine looks at a segment, or completes the connection with it. -/
def takes (s : SocketId) (ip : Ip) (h : TcpHdr) : Bool :=
  (ip.tcpSocket s).processes h.flags h.ackno || (ip.tcpSocket s).completes h

/-- Whether the window is taken from a segment that is processed. -/
def takesWindow (s : SocketId) (ip : Ip) (h : TcpHdr) : Bool :=
  (ip.tcpSocket s).completes h || (ip.tcpSocket s).updates h.seqno h.ackno h.wnd

/-- One event of a connection that is watched. -/
inductive WatchStep (s : SocketId) : Watched → ConnectionEvent → Watched → Prop
  | processed {w : Watched} {ip' : Ip} {h : TcpHdr} {p : Buf}
      (step : ConnectionStep s w.ip (.segment h p) ip') (looks : takes s w.ip h = true) :
      WatchStep s w (.segment h p)
        ⟨ip', h :: w.seen, if takesWindow s w.ip h then some h else w.last⟩
  | other {w : Watched} {event : ConnectionEvent} {ip' : Ip}
      (step : ConnectionStep s w.ip event ip')
      (blind : ∀ h p, event = .segment h p → takes s w.ip h = false) :
      WatchStep s w event ⟨ip', w.seen, w.last⟩

/-- The numbers that the next segment is compared with are those of the segment that the window was
last taken from, or at least compare in the same way. -/
def Compares (s : SocketId) (w : Watched) : ConnectionEvent → Prop
  | .segment h _ => (w.ip.tcpSocket s).processes h.flags h.ackno = true → ∀ g ∈ w.last,
      seqLt (w.ip.tcpSocket s).sndWl1 h.seqno = seqLt g.seqno h.seqno ∧
        ((w.ip.tcpSocket s).sndWl1 = h.seqno ↔ g.seqno = h.seqno)
  | _ => True

/-- A connection at its start.  The request of the peer acknowledges nothing, so it counts as one
with the first number of this side. -/
inductive WatchBegins (s : SocketId) : Watched → Prop
  | connect {before ip : Ip} {iss ticks : ULong} {remoteIp : IpAddr}
      {remotePort localPort : UShort}
      (record : before.tcpSocket s =
        TcpSocket.connecting remoteIp remotePort localPort (TcpSocket.allocated iss ticks))
      (call : before.tcpEnqueue s [] TcpFlags.syn (mssOption (before.tcpSocket s).mss) =
        some (ip, true)) : WatchBegins s ⟨ip, [], none⟩
  | accept {first before ip : Ip} {turns : Nat} {iss ticks seqno : ULong} {localPort : UShort}
      {h : TcpHdr} {enqueued : Bool}
      (record : first.tcpSocket s =
        TcpSocket.accepting h localPort seqno (TcpSocket.allocated iss ticks))
      (parses : tcpParseopt turns first s h = some before)
      (call : before.tcpEnqueue s [] (TcpFlags.syn ||| TcpFlags.ack)
        (mssOption (before.tcpSocket s).mss) = some (ip, enqueued)) :
      WatchBegins s ⟨ip, [{ h with ackno := iss }], some { h with ackno := iss }⟩

/-- A run of a connection that is watched, all of whose events satisfy a condition. -/
abbrev WatchRun (s : SocketId) (condition : Watched → ConnectionEvent → Prop) :
    Watched → Watched → Prop :=
  Relation.ReflTransGen fun w w' => ∃ event, condition w event ∧ WatchStep s w event w'

theorem seqLt_of_seqGt (above : seqGt a b = true) : seqLt b a = true := by
  rw [seqGt_iff] at above
  rw [seqLt_iff]
  bv_omega

theorem seqLt_self (a : ULong) : seqLt a a = false := by
  rw [seqLt, BitVec.sub_self]
  decide

theorem ne_of_seqGt (above : seqGt a b = true) : a ≠ b := by
  rintro rfl
  rw [seqGt, BitVec.sub_self] at above
  contradiction

theorem not_seqLt_of_seqGt (above : seqGt a b = true) : seqLt a b = false := by
  cases below : seqLt a b with
  | false => rfl
  | true =>
    rw [seqGt_iff] at above
    rw [seqLt_iff] at below
    bv_omega

/-- What is known of a connection that is watched: unless it has its window from a segment, it is
not open, and the request of this side is the first segment in its queue. -/
structure Follows (s : SocketId) (w : Watched) : Prop where
  unopened : w.last = none → Unopened s w.ip
  request : (w.ip.tcpSocket s).state = .synSent → w.last = none ∧
    ∃ seg rest, (w.ip.tcpSocket s).segments = seg :: rest ∧
      seg.seqno + 1 = (w.ip.tcpSocket s).sndWl2 ∧ flagLen seg.flags ≠ 0
  taken : ∀ g ∈ w.last, g ∈ w.seen ∧ (w.ip.tcpSocket s).sndWl2 = g.ackno

/-- The window follows the newest segment, and does not go back to an older one. -/
structure WindowFollows (s : SocketId) (w : Watched) (h : TcpHdr) (ip' : Ip) : Prop where
  newest : takes s w.ip h = true → (∀ g ∈ w.seen, Newer h g) →
    (ip'.tcpSocket s).sndWnd = h.wnd.setWidth 32
  older : ∀ g ∈ w.last, Newer g h → h.ackno ≠ g.ackno →
    (ip'.tcpSocket s).sndWnd = (w.ip.tcpSocket s).sndWnd

theorem ConnectionStep.keepsWindow {event : ConnectionEvent}
    (step : ConnectionStep s ip event ip') (other : ∀ h p, event ≠ .segment h p) :
    (ip'.tcpSocket s).window = (ip.tcpSocket s).window := by
  have allowed : Allows blindRules s ip event := by
    cases event with
    | segment h p => exact absurd rfl (other h p)
    | timer => exact fun _ => trivial
    | enqueue | output | clock | remove | outside => trivial
  exact run_invariant (fun socket => socket.window = (ip.tcpSocket s).window)
    (fun same move => move.keepsWindow.trans same) rfl (step.moves allowed)

theorem ConnectionStep.connected {event : ConnectionEvent} (step : ConnectionStep s ip event ip')
    (connected : (ip.tcpSocket s).state ≠ .synSent) : (ip'.tcpSocket s).state ≠ .synSent :=
  run_invariant (fun socket : TcpSocket => socket.state ≠ .synSent)
    (fun connected move => move.connected connected) connected
    (step.moves (allows_any s ip event))

theorem ConnectionStep.request {event : ConnectionEvent} {seg : TcpSegment}
    {rest : List TcpSegment} (step : ConnectionStep s ip event ip')
    (split : (ip.tcpSocket s).segments = seg :: rest) (flagged : flagLen seg.flags ≠ 0)
    (connecting' : (ip'.tcpSocket s).state = .synSent) :
    ∃ seg' rest', (ip'.tcpSocket s).segments = seg' :: rest' ∧ seg'.seqno = seg.seqno ∧
      flagLen seg'.flags ≠ 0 := by
  have kept := run_invariant (fun socket : TcpSocket => socket.state ≠ .synSent ∨
    ∃ seg' rest', socket.segments = seg' :: rest' ∧ TcpSegment.Marks seg seg') ?_
    (.inr ⟨seg, rest, split, .refl seg⟩) (step.moves (allows_any s ip event))
  · rcases kept with connected | ⟨seg', rest', split', marks⟩
    · exact absurd connecting' connected
    · exact ⟨seg', rest', split', marks.seqno, marks.flagLen ▸ flagged⟩
  · rintro before after (connected | ⟨seg', rest', split', marks⟩) move
    · exact .inl (move.connected connected)
    rcases eq_or_ne before.state .synSent with connecting | connected
    · rcases move.request connecting split' (marks.flagLen ▸ flagged) with connected |
        ⟨last, others, again, marks'⟩
      · exact .inl connected
      · exact .inr ⟨last, others, again, marks.trans marks'⟩
    · exact .inl (move.connected connected)

theorem slowTurn_unopened {bound : Nat} {prev prev' : Option SocketId} (unopened : Unopened s ip)
    (turn : slowTurn bound ip prev s = some (ip', prev')) : Unopened s ip' := by
  simp only [slowTurn, bind_eq_bind, bind_eq_some_iff, Prod.exists] at turn
  obtain ⟨sent, retries, checked, remove, checks, removes⟩ := turn
  have state : (sent.tcpSocket s).state = (ip.tcpSocket s).state :=
    (retryOrGiveUp_outputs retries).touches.state
  have same : checked = sent := by
    simp only [checkStuck] at checks
    split at checks
    · split at checks
      · cases checks
        rfl
      split at checks
      · rename_i closing
        rw [isClosing, state] at closing
        rcases unopened with connecting | closed
        · rw [connecting] at closing
          contradiction
        · rw [closed] at closing
          contradiction
      · cases checks
        rfl
    · cases checks
      rfl
  rw [slowRemove] at removes
  split at removes
  · obtain ⟨next, unlinks, ends⟩ := map_eq_some_iff.mp removes
    cases ends
    refine .inr ?_
    rw [(unlinkBehind_relinks unlinks).tcpSocket, tcpSetSocketState, updateTcp_self]
  · cases removes
    rw [Unopened, same, state]
    exact unopened

theorem ConnectionStep.unopened {event : ConnectionEvent} (step : ConnectionStep s ip event ip')
    (unopened : Unopened s ip)
    (waits : ∀ h p, event = .segment h p → (ip.tcpSocket s).completes h = false) :
    Unopened s ip' := by
  have same (state : (ip'.tcpSocket s).state = (ip.tcpSocket s).state) : Unopened s ip' := by
    rw [Unopened, state]
    exact unopened
  cases step with
  | enqueue call =>
    obtain ⟨-, ⟨-, sockets⟩ | ⟨-, -, -, queue, -, sender⟩⟩ := tcpEnqueue_spec call
    · exact same (by rw [sockets])
    · exact same (congrArg TcpSender.state sender)
  | output call => exact same (congrArg TcpReceiver.state (tcpOutput_outputs call).receiver)
  | @segment _ turns h p _ call => exact inputActive_unopened unopened (waits h p rfl) call
  | clock => exact unopened
  | timer call => exact slowTurn_unopened unopened call
  | @remove _ state ticks gone sender =>
    have after : (ip'.tcpSocket s).state = state := congrArg TcpSender.state sender
    rcases gone with rfl | ⟨-, waiting⟩
    · exact .inr after
    · rcases unopened with connecting | closed
      · exact absurd (connecting.symm.trans waiting) (by decide)
      · exact absurd (closed.symm.trans waiting) (by decide)
  | outside ticks record closes =>
    rcases closes with rfl | ⟨-, connected, open'⟩
    · exact same (by rw [record])
    · exact absurd unopened (not_or.mpr ⟨connected, open'⟩)

theorem takes_unopened (unopened : Unopened s ip) :
    (ip.tcpSocket s).processes h.flags h.ackno = false ∧
      takes s ip h = (ip.tcpSocket s).completes h := by
  have blind : (ip.tcpSocket s).processes h.flags h.ackno = false := by
    rcases unopened with connecting | closed
    · simp [TcpSocket.processes, connecting]
    · simp [TcpSocket.processes, closed]
  exact ⟨blind, by rw [takes, blind, Bool.false_or]⟩

theorem completes_connecting (completes : (ip.tcpSocket s).completes h = true) :
    (ip.tcpSocket s).state = .synSent := by
  simp only [TcpSocket.completes, Bool.and_eq_true, decide_eq_true_eq] at completes
  exact completes.1.1.1

variable {w w' : Watched} {event : ConnectionEvent}

theorem ConnectionStep.takesWindow (step : ConnectionStep s ip (.segment h p) ip')
    (looks : takes s ip h = true) :
    (ip'.tcpSocket s).window =
      if (ip.tcpSocket s).completes h = true then
        ⟨h.wnd.setWidth 32, h.wnd.setWidth 32, (ip.tcpSocket s).sndWl2⟩
      else if (ip.tcpSocket s).updates h.seqno h.ackno h.wnd = true then
        ⟨h.wnd.setWidth 32, h.seqno, h.ackno⟩
      else (ip.tcpSocket s).window := by
  cases step with
  | segment call =>
    rw [inputActive_window call]
    cases completes : (ip.tcpSocket s).completes h with
    | true =>
      have blind := (takes_unopened (h := h) (.inl (completes_connecting completes))).1
      rw [if_neg (by rw [blind]; decide), if_pos rfl, if_pos rfl]
    | false =>
      rw [takes, completes, Bool.or_false] at looks
      rw [if_pos looks, if_neg Bool.false_ne_true]
      cases updates : (ip.tcpSocket s).updates h.seqno h.ackno h.wnd with
      | true => rw [updateWindow_taken updates, if_pos rfl]
      | false => rw [updateWindow_kept updates, if_neg Bool.false_ne_true]

theorem ConnectionStep.keepsWindow_of_blind (step : ConnectionStep s ip event ip')
    (blind : ∀ h p, event = .segment h p → takes s ip h = false) :
    (ip'.tcpSocket s).window = (ip.tcpSocket s).window := by
  cases event with
  | segment h p =>
    obtain ⟨looks, completes⟩ := Bool.or_eq_false_iff.mp (blind h p rfl)
    cases step with
    | segment call =>
      rw [inputActive_window call, if_neg (by rw [looks]; decide),
        if_neg (by rw [completes]; decide)]
  | enqueue | output | clock | timer | remove | outside =>
    exact step.keepsWindow fun _ _ => ConnectionEvent.noConfusion

theorem ConnectionStep.completed (step : ConnectionStep s ip (.segment h p) ip')
    (completes : (ip.tcpSocket s).completes h = true) : (ip'.tcpSocket s).state ≠ .synSent := by
  cases step with
  | segment call => exact inputActive_completed completes call

theorem completes_request {seg : TcpSegment} {rest : List TcpSegment}
    (completes : (ip.tcpSocket s).completes h = true)
    (split : (ip.tcpSocket s).segments = seg :: rest) : h.ackno = seg.seqno + 1 := by
  simp only [TcpSocket.completes, Bool.and_eq_true] at completes
  obtain ⟨-, own⟩ := completes
  rw [segments] at split
  cases outstanding : (ip.tcpSocket s).unacked with
  | nil =>
    rw [outstanding] at own
    contradiction
  | cons first others =>
    rw [outstanding] at own split
    obtain rfl := (List.cons.inj split).1
    exact of_decide_eq_true own

theorem WatchStep.follows (step : WatchStep s w event w') (follows : Follows s w) :
    Follows s w' := by
  have stays {ip' : Ip} (step : ConnectionStep s w.ip event ip')
      (window : (ip'.tcpSocket s).window = (w.ip.tcpSocket s).window)
      (connecting : (ip'.tcpSocket s).state = .synSent) :
      w.last = none ∧ ∃ seg rest, (ip'.tcpSocket s).segments = seg :: rest ∧
        seg.seqno + 1 = (ip'.tcpSocket s).sndWl2 ∧ flagLen seg.flags ≠ 0 := by
    have before : (w.ip.tcpSocket s).state = .synSent :=
      not_not.mp fun connected => step.connected connected connecting
    obtain ⟨none, seg, rest, split, seqno, flagged⟩ := follows.request before
    obtain ⟨seg', rest', split', same, flagged'⟩ := step.request split flagged connecting
    refine ⟨none, seg', rest', split', ?_, flagged'⟩
    rw [same, seqno]
    exact (congrArg PeerWindow.sndWl2 window).symm
  cases step with
  | @processed ip' h p step looks =>
    have window := step.takesWindow looks
    have completed (unopened : Unopened s w.ip) : (w.ip.tcpSocket s).completes h = true :=
      (takes_unopened unopened).2.symm.trans looks
    have before (connecting : (ip'.tcpSocket s).state = .synSent) : Unopened s w.ip :=
      .inl (not_not.mp fun connected => step.connected connected connecting)
    cases taken : takesWindow s w.ip h with
    | true =>
      refine ⟨fun none => (nomatch none), fun connecting => ?_, fun g last => ?_⟩
      · exact absurd connecting (step.completed (completed (before connecting)))
      · cases last
        refine ⟨List.mem_cons_self, ?_⟩
        cases completes : (w.ip.tcpSocket s).completes h with
        | true =>
          rw [completes, if_pos rfl] at window
          obtain ⟨-, seg, rest, split, seqno, -⟩ :=
            follows.request (completes_connecting completes)
          rw [completes_request completes split, seqno]
          exact congrArg PeerWindow.sndWl2 window
        | false =>
          rw [takesWindow, completes, Bool.false_or] at taken
          rw [completes, if_neg Bool.false_ne_true, if_pos taken] at window
          exact congrArg PeerWindow.sndWl2 window
    | false =>
      obtain ⟨waits, kept⟩ := Bool.or_eq_false_iff.mp taken
      have opened : ¬Unopened s w.ip := fun unopened =>
        Bool.false_ne_true (waits.symm.trans (completed unopened))
      refine ⟨fun none => absurd (follows.unopened none) opened,
        fun connecting => absurd (before connecting) opened, fun g last => ?_⟩
      obtain ⟨member, same⟩ := follows.taken g last
      rw [waits, kept, if_neg Bool.false_ne_true, if_neg Bool.false_ne_true] at window
      exact ⟨List.mem_cons_of_mem h member, (congrArg PeerWindow.sndWl2 window).trans same⟩
  | other step blind =>
    have window := step.keepsWindow_of_blind blind
    refine ⟨fun none => ?_, stays step window, fun g last => ?_⟩
    · refine step.unopened (follows.unopened none) fun h p same => ?_
      exact (Bool.or_eq_false_iff.mp (blind h p same)).2
    · obtain ⟨member, same⟩ := follows.taken g last
      exact ⟨member, (congrArg PeerWindow.sndWl2 window).trans same⟩

theorem WatchBegins.follows (begins : WatchBegins s w) : Follows s w := by
  cases begins with
  | @connect before ip iss ticks remoteIp remotePort localPort record call =>
    obtain ⟨-, ⟨failed, -⟩ | ⟨-, -, -, queue, segments, sender⟩⟩ := tcpEnqueue_spec call
    · contradiction
    rw [record] at segments sender
    have queued := segments.resolve_right fun ⟨nonempty, _⟩ => nonempty rfl
    obtain ⟨-, rfl⟩ := queued
    have state : (ip.tcpSocket s).state = .synSent := congrArg TcpSender.state sender
    refine ⟨fun _ => .inl state, fun _ => ⟨rfl, ?_⟩, fun g last => (nomatch last)⟩
    have queue : (ip.tcpSocket s).segments = _ :=
      congrArg (fun sender => sender.unacked ++ sender.unsent) sender
    have wl2 : (ip.tcpSocket s).sndWl2 = iss := congrArg TcpSender.sndWl2 sender
    obtain ⟨seg', rest', marks, rest, same⟩ :=
      List.forall₂_cons_left_iff.mp (push_remarks [_])
    refine ⟨seg', rest', queue.trans same, ?_, ?_⟩
    · rw [marks.seqno, wl2]
      exact BitVec.sub_add_cancel iss 1
    · rw [marks.flagLen]
      exact (by decide : flagLen TcpFlags.syn ≠ 0)
  | @accept first before ip turns iss ticks seqno localPort h enqueued record parses call =>
    have begun : (before.tcpSocket s).state = .synRcvd ∧ (before.tcpSocket s).sndWl2 = iss := by
      have same := (tcpParseopt_spec parses).2
      rw [record] at same
      exact ⟨congrArg TcpSender.state same, congrArg TcpSender.sndWl2 same⟩
    have kept : (ip.tcpSocket s).state = (before.tcpSocket s).state ∧
        (ip.tcpSocket s).sndWl2 = (before.tcpSocket s).sndWl2 := by
      obtain ⟨-, ⟨-, sockets⟩ | ⟨-, -, -, queue, -, sender⟩⟩ := tcpEnqueue_spec call
      · rw [sockets]
        exact ⟨rfl, rfl⟩
      · exact ⟨congrArg TcpSender.state sender, congrArg TcpSender.sndWl2 sender⟩
    refine ⟨fun none => (nomatch none), fun connecting => ?_, fun g last => ?_⟩
    · rw [kept.1, begun.1] at connecting
      contradiction
    · cases last
      exact ⟨List.mem_cons_self, kept.2.trans begun.2⟩

theorem WatchRun.follows {condition : Watched → ConnectionEvent → Prop}
    (begins : WatchBegins s w) (run : WatchRun s condition w w') : Follows s w' :=
  run_invariant (Follows s) (fun follows ⟨_, _, step⟩ => step.follows follows) begins.follows run

/-- The window of a connection follows the newest segment, when the segments are compared in the
right way. -/
theorem window_follows {start : Watched} {ip' : Ip} (begins : WatchBegins s start)
    (run : WatchRun s (Compares s) start w) (step : ConnectionStep s w.ip (.segment h p) ip')
    (compares : Compares s w (.segment h p)) : WindowFollows s w h ip' := by
  have follows := run.follows begins
  constructor
  · intro looks newest
    have window := congrArg PeerWindow.sndWnd (step.takesWindow looks)
    refine window.trans ?_
    cases completes : (w.ip.tcpSocket s).completes h with
    | true => rw [if_pos rfl]
    | false =>
      have processes : (w.ip.tcpSocket s).processes h.flags h.ackno = true := by
        rwa [takes, completes, Bool.or_false] at looks
      cases last : w.last with
      | none =>
        rw [(takes_unopened (follows.unopened last)).2, completes] at looks
        contradiction
      | some g =>
        obtain ⟨member, wl2⟩ := follows.taken g last
        obtain ⟨below, equal⟩ := compares processes g last
        have updates : (w.ip.tcpSocket s).updates h.seqno h.ackno h.wnd = true := by
          simp only [TcpSocket.updates, Bool.or_eq_true, Bool.and_eq_true, decide_eq_true_eq]
          rcases newest g member with later | ⟨same, more⟩
          · exact .inl (.inl (below.trans (seqLt_of_seqGt later)))
          · exact .inl (.inr ⟨equal.mpr same.symm, by rw [wl2, seqLt_of_seqGt more]⟩)
        rw [if_neg Bool.false_ne_true, if_pos updates]
  · intro g last older other
    obtain ⟨member, wl2⟩ := follows.taken g last
    cases looks : takes s w.ip h with
    | false =>
      refine congrArg PeerWindow.sndWnd (step.keepsWindow_of_blind fun h' p' same => ?_)
      cases same
      exact looks
    | true =>
      have window := congrArg PeerWindow.sndWnd (step.takesWindow looks)
      have waits : (w.ip.tcpSocket s).completes h = false := by
        cases completes : (w.ip.tcpSocket s).completes h with
        | false => rfl
        | true =>
          have none := (follows.request (completes_connecting completes)).1
          rw [none] at last
          contradiction
      have processes : (w.ip.tcpSocket s).processes h.flags h.ackno = true := by
        rwa [takes, waits, Bool.or_false] at looks
      obtain ⟨below, equal⟩ := compares processes g last
      have keeps : (w.ip.tcpSocket s).updates h.seqno h.ackno h.wnd = false := by
        rw [TcpSocket.updates, below, wl2, decide_eq_false other.symm]
        rcases older with later | ⟨same, more⟩
        · have apart : ¬(w.ip.tcpSocket s).sndWl1 = h.seqno := fun same =>
            ne_of_seqGt later (equal.mp same)
          rw [not_seqLt_of_seqGt later, decide_eq_false apart]
          rfl
        · rw [same, seqLt_self, not_seqLt_of_seqGt more, Bool.and_false]
          rfl
      rw [waits, keeps, if_neg Bool.false_ne_true, if_neg Bool.false_ne_true] at window
      exact window

/-- Watch an event, with a bound on the turns of every loop. -/
def watchAct (turns : Nat) (s : SocketId) (w : Watched) (event : ConnectionEvent) :
    Option Watched := do
  let ip ← connectionAct turns s w.ip event
  match event with
  | .segment h _ =>
    if takes s w.ip h then
      some ⟨ip, h :: w.seen, if takesWindow s w.ip h then some h else w.last⟩
    else some ⟨ip, w.seen, w.last⟩
  | _ => some ⟨ip, w.seen, w.last⟩

theorem watchAct_step {turns : Nat} (acts : watchAct turns s w event = some w') :
    WatchStep s w event w' := by
  simp only [watchAct, bind_eq_bind, bind_eq_some_iff] at acts
  obtain ⟨ip, call, acts⟩ := acts
  have step := connectionAct_step call
  cases event with
  | segment h p =>
    simp only at acts
    split at acts
    · rename_i looks
      cases acts
      exact .processed step looks
    · rename_i blind
      cases acts
      refine .other step fun h' p' same => ?_
      cases same
      exact (Bool.not_eq_true _).mp blind
  | enqueue | output | clock | timer | remove | outside =>
    cases acts
    exact .other step fun _ _ => ConnectionEvent.noConfusion

/-- Watch a list of events; one that fails is left out with those behind it. -/
def watchAfter (turns : Nat) (s : SocketId) (w : Watched) (events : List ConnectionEvent) :
    Watched :=
  (events.foldlM (watchAct turns s) w).getD w

theorem watchAfter_run {turns : Nat} {events : List ConnectionEvent}
    {condition : Watched → ConnectionEvent → Prop}
    (holds : ∀ w, ∀ event ∈ events, condition w event)
    (succeeds : (events.foldlM (watchAct turns s) w).isSome = true) :
    WatchRun s condition w (watchAfter turns s w events) := by
  obtain ⟨w', acts⟩ := isSome_iff_exists.mp succeeds
  rw [watchAfter, acts]
  refine foldlM_run (fun w event member w' acts => ?_) acts
  exact ⟨event, holds w event member, watchAct_step acts⟩

/-- A connection that a peer has requested, and that is watched. -/
def answeredWatched : Watched where
  ip := answered peerSyn [true, true, true, true]
  seen := [{ peerSyn with ackno := 100 }]
  last := some { peerSyn with ackno := 100 }

theorem answeredWatched_begins : WatchBegins 0 answeredWatched := by
  have answers : ((requested peerSyn [true, true, true, true]).answer peerSyn).isSome = true := by
    decide +kernel
  obtain ⟨before, enqueued, parses, call⟩ := answered_calls answers
  exact .accept (setTcp_self _ 0 _) parses call

theorem window_follows_ack : ∃ ip',
    connectionAct 0 0 answeredWatched.ip (.segment peerAck noData) = some ip' ∧
      WindowFollows 0 answeredWatched peerAck ip' := by
  have acts : (connectionAct 0 0 answeredWatched.ip (.segment peerAck noData)).isSome = true := by
    decide +kernel
  obtain ⟨ip', call⟩ := isSome_iff_exists.mp acts
  refine ⟨ip', call, window_follows answeredWatched_begins .refl (connectionAct_step call) ?_⟩
  intro _ g last
  cases last
  decide +kernel

/-- The answer of a peer with a high number, and its next segment, with a smaller window. -/
def farSynAck : TcpHdr :=
  { peerSynAck with seqno := 0x90000000 }

def farUpdate : TcpHdr :=
  { peerAck with seqno := 0x90000001, wnd := 500 }

/-- All segments acknowledge, and have numbers near the first one of the peer. -/
def Near (isn : ULong) : Watched → ConnectionEvent → Prop
  | _, .segment h _ => h.flags.has TcpFlags.ack = true ∧ (h.seqno - isn).toNat < 2 ^ 31
  | _, _ => True

/-- The window that a peer offers after its answer is ignored, since the number of the answer was
not remembered but its window. -/
theorem window_misses_update :
    ¬∀ (isn : ULong) (s : SocketId) (start w : Watched) (h : TcpHdr) (p : Buf) (ip' : Ip),
      WatchBegins s start → WatchRun s (Near isn) start w → Near isn w (.segment h p) →
        ConnectionStep s w.ip (.segment h p) ip' → WindowFollows s w h ip' := by
  intro follows
  set start : Watched := ⟨started [true, true], [], none⟩ with start_eq
  have begins : WatchBegins 0 start :=
    .connect (setTcp_self _ 0 _) (started_calls (by decide +kernel))
  have run : WatchRun 0 (Near 0x90000000) start
      (watchAfter 0 0 start [.output, .segment farSynAck noData]) := by
    refine watchAfter_run (fun w event member => ?_) (by decide +kernel)
    simp only [List.mem_cons, List.not_mem_nil, or_false] at member
    rcases member with rfl | rfl
    · trivial
    · exact ⟨by decide, by decide⟩
  set w := watchAfter 0 0 start [.output, .segment farSynAck noData] with w_eq
  have acts : (connectionAct 0 0 w.ip (.segment farUpdate noData)).isSome = true := by
    decide +kernel
  obtain ⟨ip', call⟩ := isSome_iff_exists.mp acts
  have window : (connectionAct 0 0 w.ip (.segment farUpdate noData)).map
      (fun ip => (ip.tcpSocket 0).sndWnd) = some 1000 := by decide +kernel
  rw [call, map_some, Option.some.injEq] at window
  have step := follows 0x90000000 0 start w farUpdate noData ip' begins run
    ⟨by decide, by decide⟩ (connectionAct_step call)
  have newest : (ip'.tcpSocket 0).sndWnd = farUpdate.wnd.setWidth 32 := by
    apply step.newest (by decide +kernel)
    intro g member
    have seen : w.seen.map (·.seqno) = [0x90000000] := by decide +kernel
    have seqno : g.seqno = 0x90000000 := by
      have mapped := List.mem_map_of_mem (f := (·.seqno)) member
      rwa [seen, List.mem_singleton] at mapped
    rw [Newer, seqno]
    exact .inl (by decide)
  exact absurd (window.symm.trans newest) (by decide)

end Ip
end Uos
