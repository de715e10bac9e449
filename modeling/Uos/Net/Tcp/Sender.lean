import Mathlib.Logic.Relation
import Uos.Net.Tcp.Frame
import Uos.Net.Tcp.Timer

/-!
# The moves of a sender

Whatever happens to a connection, the fields that are about sending change by the moves below.
-/

namespace Uos

deriving instance DecidableEq for TcpSegment

/-- The fields of a socket for sending, without those that only delay it. -/
structure TcpSender where
  state : TcpState
  mss : UShort
  rttest : UShort
  rtseq : ULong
  sa : UShort
  sv : UShort
  rto : UShort
  nrtx : UChar
  lastack : ULong
  sndMax : ULong
  sndWnd : ULong
  sndWl1 : ULong
  sndWl2 : ULong
  sndLbb : ULong
  sndBuf : UShort
  sndQueuelen : UChar
  unsent : List TcpSegment
  unacked : List TcpSegment
  deriving DecidableEq

def chunkCount (segments : List TcpSegment) : Nat :=
  (segments.map (·.chunks.length)).sum

@[simp] theorem chunkCount_nil : chunkCount [] = 0 :=
  rfl

@[simp] theorem chunkCount_cons (seg : TcpSegment) (segments : List TcpSegment) :
    chunkCount (seg :: segments) = seg.chunks.length + chunkCount segments :=
  rfl

@[simp] theorem chunkCount_append (first second : List TcpSegment) :
    chunkCount (first ++ second) = chunkCount first + chunkCount second := by
  rw [chunkCount, List.map_append, List.sum_append]
  rfl

/-- The segments that an acknowledgement frees are the first ones, up to one that it does not
cover. -/
structure Frees (covers : TcpSegment → Bool) (segments freed kept : List TcpSegment) : Prop where
  split : segments = freed ++ kept
  freed : ∀ seg ∈ freed, covers seg = true
  kept : ∀ seg ∈ kept.head?, covers seg = false

theorem Frees.nil {covers : TcpSegment → Bool} {segments : List TcpSegment}
    (first : ∀ seg ∈ segments.head?, covers seg = false) : Frees covers segments [] segments :=
  ⟨rfl, by simp, first⟩

theorem Frees.cons {covers : TcpSegment → Bool} {seg : TcpSegment}
    {segments freed kept : List TcpSegment} (covered : covers seg = true)
    (frees : Frees covers segments freed kept) :
    Frees covers (seg :: segments) (seg :: freed) kept := by
  obtain ⟨rfl, all, first⟩ := frees
  refine ⟨rfl, fun other member => ?_, first⟩
  rcases List.mem_cons.mp member with rfl | later
  · exact covered
  · exact all other later

namespace TcpSocket

def sender (socket : TcpSocket) : TcpSender where
  state := socket.state
  mss := socket.mss
  rttest := socket.rttest
  rtseq := socket.rtseq
  sa := socket.sa
  sv := socket.sv
  rto := socket.rto
  nrtx := socket.nrtx
  lastack := socket.lastack
  sndMax := socket.sndMax
  sndWnd := socket.sndWnd
  sndWl1 := socket.sndWl1
  sndWl2 := socket.sndWl2
  sndLbb := socket.sndLbb
  sndBuf := socket.sndBuf
  sndQueuelen := socket.sndQueuelen
  unsent := socket.unsent
  unacked := socket.unacked

variable {socket socket' : TcpSocket} {ackno : ULong} {segments : List TcpSegment}

theorem freeUnacked_spec (frees : freeUnacked ackno segments socket = some socket')
    (own : socket.unacked = segments) :
    ∃ freed kept, Frees (fun seg => seqLeq seg.ends ackno) segments freed kept ∧
      socket' =
        { socket with
          unacked := kept
          sndQueuelen := socket.sndQueuelen - .ofNat 8 (chunkCount freed) } := by
  induction segments generalizing socket with
  | nil =>
    cases frees
    exact ⟨[], [], .nil (by simp), by rw [chunkCount_nil, BitVec.sub_zero, ← own]⟩
  | cons seg rest ih =>
    simp only [freeUnacked] at frees
    split_ifs at frees with covered kept
    · obtain ⟨freed, kept, result, rfl⟩ := ih frees rfl
      refine ⟨seg :: freed, kept, result.cons covered, ?_⟩
      simp only [chunkCount_cons, BitVec.ofNat_add, BitVec.sub_sub]
    · cases frees
      exact ⟨[], seg :: rest, .nil (by simpa using covered), by
        rw [chunkCount_nil, BitVec.sub_zero, ← own]⟩

theorem freeUnsent_spec (frees : freeUnsent ackno segments socket = some socket')
    (own : socket.unsent = segments) :
    ∃ freed kept sndNxt, Frees (fun seg => seqLeq seg.ends ackno && seqLeq ackno socket.sndMax)
        segments freed kept ∧
      socket' =
        { socket with
          unsent := kept
          sndQueuelen := socket.sndQueuelen - .ofNat 8 (chunkCount freed)
          sndNxt } := by
  induction segments generalizing socket with
  | nil =>
    obtain rfl := Option.some.inj frees
    exact ⟨[], [], socket.sndNxt, .nil (by simp), by rw [chunkCount_nil, BitVec.sub_zero, ← own]⟩
  | cons seg rest ih =>
    simp only [freeUnsent] at frees
    split_ifs at frees with covered kept
    · obtain ⟨freed, kept, sndNxt, result, rfl⟩ := ih frees rfl
      refine ⟨seg :: freed, kept, sndNxt, result.cons covered, ?_⟩
      simp only [chunkCount_cons, BitVec.ofNat_add, BitVec.sub_sub]
    · obtain rfl := Option.some.inj frees
      refine ⟨[], seg :: rest, socket.sndNxt,
        .nil ?_, by rw [chunkCount_nil, BitVec.sub_zero, ← own]⟩
      simpa using covered

/-- The segment that `tcp_enqueue` makes for the first part of some data. -/
def newSegment (socket : TcpSocket) (flags : TcpFlags) (options data : List UChar)
    (seqno : ULong) : TcpSegment where
  src := socket.localPort
  dest := socket.remotePort
  seqno := seqno
  flags := flags
  options := options
  len := .ofNat 16 (min data.length socket.mss.toNat)
  chunks := [{ bytes := data.take (min data.length socket.mss.toNat) }]

/-- Data is cut into segments of the maximum size. -/
inductive Cuts (socket : TcpSocket) (flags : TcpFlags) (options : List UChar) :
    List UChar → ULong → List TcpSegment → Prop
  | done (seqno : ULong) : Cuts socket flags options [] seqno []
  | piece {data : List UChar} {seqno : ULong} {queue : List TcpSegment} (nonempty : data ≠ [])
      (rest : Cuts socket flags options (data.drop (min data.length socket.mss.toNat))
        (seqno + .ofNat 32 (min data.length socket.mss.toNat)) queue) :
      Cuts socket flags options data seqno
        (socket.newSegment flags options data seqno :: queue)

/-- The segments of some data, or the one of a flag without data. -/
def Segments (socket : TcpSocket) (flags : TcpFlags) (options data : List UChar)
    (queue : List TcpSegment) : Prop :=
  data = [] ∧ queue = [socket.newSegment flags options [] socket.sndLbb] ∨
    data ≠ [] ∧ Cuts socket flags options data socket.sndLbb queue

variable {flags : TcpFlags} {options data : List UChar}

theorem enqueueLoop_cuts {memory memory' : List Bool} {seqno : ULong}
    {queue result : List TcpSegment}
    (cuts : Ip.enqueueLoop socket flags options memory data seqno queue = (memory', some result))
    (started : queue ≠ []) :
    ∃ new, result = queue ++ new ∧ Cuts socket flags options data seqno new := by
  fun_induction Ip.enqueueLoop socket flags options memory data seqno queue with
  | case1 memory data seqno queue done =>
    obtain rfl := Option.some.inj (Prod.mk.inj cuts).2
    obtain ⟨-, rfl⟩ := done
    exact ⟨[], (List.append_nil _).symm, .done seqno⟩
  | case2 data seqno queue unfinished memory seglen seg ih =>
    obtain ⟨new, rfl, rest⟩ := ih cuts (by simp)
    have nonempty : data ≠ [] := fun empty => unfinished ⟨started, empty⟩
    exact ⟨seg :: new, List.append_assoc _ _ _, .piece nonempty rest⟩
  | case3 data seqno queue more memory => cases (Prod.mk.inj cuts).2
  | case4 data seqno queue memory more => cases (Prod.mk.inj cuts).2

theorem Cuts.nil_iff {seqno : ULong} {queue : List TcpSegment} :
    Cuts socket flags options [] seqno queue ↔ queue = [] := by
  constructor
  · intro cuts
    cases cuts with
    | done => rfl
    | piece nonempty => contradiction
  · rintro rfl
    exact .done seqno

theorem enqueueLoop_segments {memory memory' : List Bool} {queue : List TcpSegment}
    (cuts : Ip.enqueueLoop socket flags options memory data socket.sndLbb [] =
      (memory', some queue)) : socket.Segments flags options data queue := by
  rw [Ip.enqueueLoop.eq_def] at cuts
  simp only [ne_eq, not_true_eq_false, false_and, if_false] at cuts
  split at cuts
  · obtain ⟨new, rfl, rest⟩ := enqueueLoop_cuts cuts (by simp)
    cases data with
    | nil =>
      simp only [List.length_nil, Nat.zero_min, List.drop_nil] at rest
      obtain rfl := Cuts.nil_iff.mp rest
      exact .inl ⟨rfl, rfl⟩
    | cons byte data =>
      exact .inr ⟨by simp, .piece (by simp) rest⟩
  · cases (Prod.mk.inj cuts).2
  · cases (Prod.mk.inj cuts).2

end TcpSocket

theorem keepUnacked_sender (seg : TcpSegment) (socket : TcpSocket) :
    (Ip.keepUnacked seg socket).sender =
      { socket.sender with
        unacked := if seg.tcplen ≠ 0 then socket.unacked ++ [seg] else socket.unacked } := by
  rw [Ip.keepUnacked]
  split <;> rfl

/-- What is known of the moves of a sender. -/
structure SenderRules where
  /-- Data and flags may be enqueued. -/
  enqueues : TcpSocket → List UChar → TcpFlags → Prop
  /-- Everything may be sent again, after this number of retransmissions. -/
  retransmits : UChar → Prop
  /-- The peer may acknowledge a sequence number. -/
  acknowledges : ULong → Prop
  /-- The window of a segment may be looked at. -/
  windows : ULong → ULong → UShort → Prop
  /-- The connection may be completed with an acknowledgement and a window. -/
  completes : ULong → UShort → Prop
  /-- The peer may choose a maximum segment size. -/
  sizes : UShort → Prop

/-- One change of the sender of a connection. -/
inductive SenderMove (rules : SenderRules) (ticks : ULong) (before after : TcpSocket) : Prop
  | idle (same : after.sender = before.sender)
  | state {state : TcpState} (connected : state ≠ .synSent)
      (same : after.sender = { before.sender with state })
  | size {mss : UShort} (allowed : rules.sizes mss)
      (same : after.sender = { before.sender with mss })
  | enqueue {flags : TcpFlags} {options data : List UChar} {queue : List TcpSegment}
      (allowed : rules.enqueues before data flags)
      (room : data.length ≤ before.sndBuf.toNat) (short : before.sndQueuelen.toNat < 16)
      (segments : before.Segments flags options data queue)
      (same : after.sender =
        { before.sender with
          unsent := Ip.appendQueue before flags queue
          sndLbb := before.sndLbb + .ofNat 32 data.length + flagLen flags
          sndBuf := before.sndBuf - .ofNat 16 data.length - (flagLen flags).setWidth 16
          sndQueuelen := before.sndQueuelen + .ofNat 8 queue.length })
  /-- The first unsent segment is sent. -/
  | send {seg : TcpSegment} {unsent : List TcpSegment} {localIp : IpAddr}
      (first : before.unsent = seg :: unsent)
      (same : after.sender =
        (Ip.keepUnacked (Ip.answering (before.state ≠ .synSent) seg)
          (Ip.recordSent { before with unsent } localIp ticks
            (Ip.answering (before.state ≠ .synSent) seg))).sender)
  /-- The first unsent segment is not sent, since there is no route, but it counts as sent. -/
  | hold {seg : TcpSegment} {unsent : List TcpSegment} (first : before.unsent = seg :: unsent)
      (same : after.sender =
        (Ip.keepUnacked (Ip.answering (before.state ≠ .synSent) seg)
          { before with unsent }).sender)
  /-- Everything that is not acknowledged is to be sent again. -/
  | retransmit (allowed : rules.retransmits before.nrtx) (outstanding : before.unacked ≠ [])
      (same : after.sender =
        { before.sender with
          unsent := before.unacked ++ before.unsent
          unacked := []
          nrtx := before.nrtx + 1
          rttest := 0 })
  | window {seqno ackno : ULong} {wnd : UShort} (allowed : rules.windows seqno ackno wnd)
      (connected : before.state ≠ .synSent)
      (same : after.sender = (before.updateWindow seqno ackno wnd).sender)
  /-- New data is acknowledged. -/
  | acknowledge {ackno : ULong} {freed kept freedUnsent unsent : List TcpSegment}
      (allowed : rules.acknowledges ackno) (connected : before.state ≠ .synSent)
      (new : seqLt before.lastack ackno = true) (sent : seqLeq ackno before.sndMax = true)
      (frees : Frees (fun seg => seqLeq seg.ends ackno) before.unacked freed kept)
      (freesUnsent : Frees (fun seg => seqLeq seg.ends ackno && seqLeq ackno before.sndMax)
        before.unsent freedUnsent unsent)
      (same : after.sender =
        { before.sender with
          nrtx := 0
          rto := before.roundTrip.setWidth 16
          sndBuf := before.sndBuf + (ackno - before.lastack).setWidth 16
          lastack := ackno
          unacked := kept
          unsent := unsent
          sndQueuelen := before.sndQueuelen - .ofNat 8 (chunkCount freed) -
            .ofNat 8 (chunkCount freedUnsent) })
  /-- Segments are freed that are to be sent again. -/
  | free {ackno : ULong} {freed kept : List TcpSegment} (allowed : rules.acknowledges ackno)
      (connected : before.state ≠ .synSent) (old : seqLt before.lastack ackno = false)
      (frees : Frees (fun seg => seqLeq seg.ends ackno && seqLeq ackno before.sndMax)
        before.unsent freed kept)
      (same : after.sender =
        { before.sender with
          unsent := kept
          sndQueuelen := before.sndQueuelen - .ofNat 8 (chunkCount freed) })
  | estimate {ackno : ULong} (allowed : rules.acknowledges ackno)
      (connected : before.state ≠ .synSent)
      (same : after.sender = (before.estimate ticks ackno).sender)
  | backOff (allowed : rules.retransmits before.nrtx) (patient : before.gaveUp = false)
      (same : after.sender = before.backOff.sender)
  /-- The connection is completed in SYN-SENT state. -/
  | complete {first : TcpSegment} {rest : List TcpSegment} {wnd mss : UShort}
      (allowed : rules.completes (first.seqno + 1) wnd) (connecting : before.state = .synSent)
      (split : before.unacked = first :: rest) (size : rules.sizes mss ∨ mss = before.mss)
      (same : after.sender =
        { before.sender with
          state := .established
          mss := mss
          lastack := first.seqno + 1
          sndWnd := wnd.setWidth 32
          sndWl1 := wnd.setWidth 32
          sndQueuelen := before.sndQueuelen - 1
          unacked := rest })
  /-- The socket is removed, or only its segments. -/
  | purge {state : TcpState} (connected : state ≠ .synSent)
      (same : after.sender =
        { before.sender with state, unsent := [], unacked := [], sndQueuelen := 0 })

theorem SenderMove.connected {rules : SenderRules} {ticks : ULong} {before after : TcpSocket}
    (move : SenderMove rules ticks before after) (connected : before.state ≠ .synSent) :
    after.state ≠ .synSent := by
  have fields {sender : TcpSender} (same : after.sender = sender) : after.state = sender.state :=
    congrArg TcpSender.state same
  cases move with
  | idle same | size _ same | enqueue _ _ _ _ same | retransmit _ _ same
  | acknowledge _ _ _ _ _ _ same | free _ _ _ _ same =>
    rw [fields same]
    exact connected
  | state other same | purge other same =>
    rw [fields same]
    exact other
  | send _ same | hold _ same =>
    rw [keepUnacked_sender] at same
    rw [fields same]
    exact connected
  | window _ _ same =>
    rw [TcpSocket.updateWindow] at same
    rw [fields same]
    split <;> exact connected
  | estimate _ _ same =>
    simp only [TcpSocket.estimate] at same
    rw [fields same]
    split <;> exact connected
  | backOff _ _ same =>
    rw [TcpSocket.backOff] at same
    rw [fields same]
    split <;> exact connected
  | complete _ _ _ _ same =>
    rw [fields same]
    exact TcpState.noConfusion

namespace Ip

variable {ip ip' : Ip} {s : SocketId} {flags : TcpFlags} {options data : List UChar}

/-- What `tcp_enqueue` does: nothing to the sockets if it fails. -/
theorem tcpEnqueue_spec {enqueued : Bool}
    (enqueues : ip.tcpEnqueue s data flags options = some (ip', enqueued)) :
    ip'.registers = ip.registers ∧
      (enqueued = false ∧ ip'.tcpSocket = ip.tcpSocket ∨
        enqueued = true ∧ data.length ≤ (ip.tcpSocket s).sndBuf.toNat ∧
          (ip.tcpSocket s).sndQueuelen.toNat < 16 ∧
          ∃ queue, (ip.tcpSocket s).Segments flags options data queue ∧
            (ip'.tcpSocket s).sender =
              { (ip.tcpSocket s).sender with
                unsent := appendQueue (ip.tcpSocket s) flags queue
                sndLbb := (ip.tcpSocket s).sndLbb + .ofNat 32 data.length + flagLen flags
                sndBuf := (ip.tcpSocket s).sndBuf - .ofNat 16 data.length -
                  (flagLen flags).setWidth 16
                sndQueuelen := (ip.tcpSocket s).sndQueuelen + .ofNat 8 queue.length }) := by
  simp only [tcpEnqueue] at enqueues
  split at enqueues
  · cases enqueues
    exact ⟨rfl, .inl ⟨rfl, rfl⟩⟩
  rename_i room
  split at enqueues
  · cases enqueues
    exact ⟨rfl, .inl ⟨rfl, rfl⟩⟩
  rename_i short
  split at enqueues
  · contradiction
  split at enqueues
  · split at enqueues
    · cases enqueues
      exact ⟨rfl, .inl ⟨rfl, rfl⟩⟩
    · contradiction
  · rename_i queue made
    split at enqueues
    · cases enqueues
      refine ⟨rfl, .inr ⟨rfl, not_lt.mp room, ?_, queue, ?_, ?_⟩⟩
      · simpa [tcpSndQueuelen, BitVec.le_def] using short
      · exact TcpSocket.enqueueLoop_segments (Prod.ext rfl made)
      · rw [setTcp_self]
        rfl
    · contradiction

end Ip

/-- Moves of the sender of one socket were all that happened to it. -/
structure Sends (rules : SenderRules) (s : SocketId) (ip ip' : Ip) : Prop where
  tcpTicks : ip'.tcpTicks = ip.tcpTicks
  moves : Relation.ReflTransGen (SenderMove rules ip.tcpTicks) (ip.tcpSocket s) (ip'.tcpSocket s)

namespace Sends

variable {rules : SenderRules} {ip ip' ip'' : Ip} {s : SocketId}

theorem refl (rules : SenderRules) (s : SocketId) (ip : Ip) : Sends rules s ip ip :=
  ⟨rfl, .refl⟩

theorem trans (first : Sends rules s ip ip') (second : Sends rules s ip' ip'') :
    Sends rules s ip ip'' := by
  obtain ⟨ticks, moves⟩ := first
  obtain ⟨ticks', moves'⟩ := second
  rw [ticks] at moves'
  exact ⟨ticks'.trans ticks, moves.trans moves'⟩

theorem single (ticks : ip'.tcpTicks = ip.tcpTicks)
    (move : SenderMove rules ip.tcpTicks (ip.tcpSocket s) (ip'.tcpSocket s)) :
    Sends rules s ip ip' :=
  ⟨ticks, .single move⟩

theorem idle (ticks : ip'.tcpTicks = ip.tcpTicks)
    (same : (ip'.tcpSocket s).sender = (ip.tcpSocket s).sender) : Sends rules s ip ip' :=
  single ticks (.idle same)

theorem setTcp {record : TcpSocket}
    (move : SenderMove rules ip.tcpTicks (ip.tcpSocket s) record) :
    Sends rules s ip (ip.setTcp s record) := by
  refine single rfl ?_
  rwa [Ip.setTcp_self]

theorem updateTcp {change : TcpSocket → TcpSocket}
    (same : ∀ socket, (change socket).sender = socket.sender) :
    Sends rules s ip (ip.updateTcp s change) :=
  setTcp (.idle (same _))

theorem alloc (rules : SenderRules) (s : SocketId) (ip : Ip) : Sends rules s ip ip.alloc.2 :=
  ⟨rfl, .refl⟩

theorem connected (sends : Sends rules s ip ip') (connected : (ip.tcpSocket s).state ≠ .synSent) :
    (ip'.tcpSocket s).state ≠ .synSent := by
  refine Relation.ReflTransGen.head_induction_on sends.moves (fun connected => connected)
    ?_ connected
  intro before middle move _ ih connected
  exact ih (move.connected connected)

end Sends
end Uos
