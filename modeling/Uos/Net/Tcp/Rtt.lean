import Uos.Net.Tcp.Connection
import Uos.Net.Tcp.Timeout

/-!
# The round-trip time

A record of what a connection sent and what was acknowledged is kept beside it, and the times that
the connection measures are compared with the record.
-/

namespace Uos

open List BitVec

/-- What the record of a connection holds. -/
inductive RttEvent
  /-- A segment is sent.  It may be timed, and it may have been sent before. -/
  | sent (seqno : ULong) (timed again : Bool)
  /-- What is not acknowledged is to be sent again. -/
  | resent
  /-- An acknowledgement that ends no measurement. -/
  | acked (ackno : ULong)
  /-- An acknowledgement that ends a measurement. -/
  | sampled (ackno : ULong) (m : BitVec 32)
  /-- The acknowledgement of the request of this side. -/
  | completed (ackno : ULong)
  deriving DecidableEq

/-- The ticks at which something happened, the latest first. -/
abbrev RttHistory : Type :=
  List (Nat × RttEvent)

namespace RttHistory

def starts (entry : Nat × RttEvent) : Bool :=
  match entry.2 with
  | .sent _ timed _ => timed
  | _ => false

def beyond (seqno : ULong) (entry : Nat × RttEvent) : Bool :=
  match entry.2 with
  | .acked ackno | .sampled ackno _ | .completed ackno => seqLt seqno ackno
  | _ => false

def timing (history : RttHistory) : Option (Nat × RttEvent) :=
  history.find? starts

def since (history : RttHistory) : RttHistory :=
  history.takeWhile fun entry => !starts entry

/-- The measurements that go on: where they started, and what they are about. -/
def running : RttHistory → List (Nat × ULong)
  | [] => []
  | (tick, .sent seqno true _) :: earlier => (tick, seqno) :: running earlier
  | (_, .resent) :: _ => []
  | (_, .sampled ackno _) :: earlier =>
    (running earlier).filter fun measured => !seqLt measured.2 ackno
  | _ :: earlier => running earlier

/-- A sample is the number of ticks from the first sending of a segment, which was not sent again,
to the first acknowledgement of it. -/
def Exact (earlier : RttHistory) (now : Nat) (ackno : ULong) (m : BitVec 32) : Prop :=
  ∃ start seqno, timing earlier = some (start, .sent seqno true false) ∧
    seqLt seqno ackno = true ∧
    (∀ entry ∈ since earlier, entry.2 ≠ .resent ∧ beyond seqno entry = false) ∧
    m.toInt = (now : Int) - start

/-- The sending was the first one of its segment, it was at a tick that fits into 16 bits, and it
was not the sending of a request that has been acknowledged. -/
def Countable (earlier : RttHistory) (now : Nat) : Prop :=
  ∃ start seqno, timing earlier = some (start, .sent seqno true false) ∧
    (BitVec.ofNat 32 start).toNat < 2 ^ 16 ∧ now < start + 2 ^ 31 ∧
    ∀ entry ∈ since earlier, ∀ ackno, entry.2 = .completed ackno → seqLt seqno ackno = false

/-- There is at most one measurement at any time, and the samples are exact that can be. -/
structure Judged (history : RttHistory) : Prop where
  single : ∀ earlier, earlier <:+ history → (running earlier).length ≤ 1
  samples : ∀ earlier now ackno m, (now, .sampled ackno m) :: earlier <:+ history →
    (Exact earlier now ackno m ↔ Countable earlier now)

variable {history : RttHistory} {entry : Nat × RttEvent}

theorem Judged.nil : Judged [] := by
  refine ⟨fun earlier part => ?_, fun earlier now ackno m part => ?_⟩
  · obtain rfl := suffix_nil.mp part
    exact Nat.zero_le 1
  · cases suffix_nil.mp part

theorem Judged.cons (judged : Judged history) (single : (running (entry :: history)).length ≤ 1)
    (sample : ∀ now ackno m, entry = (now, .sampled ackno m) →
      (Exact history now ackno m ↔ Countable history now)) : Judged (entry :: history) := by
  refine ⟨fun earlier part => ?_, fun earlier now ackno m part => ?_⟩
  · rcases suffix_cons_iff.mp part with rfl | part
    · exact single
    · exact judged.single earlier part
  · rcases suffix_cons_iff.mp part with same | part
    · obtain ⟨rfl, rfl⟩ := List.cons.inj same
      exact sample now ackno m rfl
    · exact judged.samples earlier now ackno m part

end RttHistory

namespace TcpSocket

def sample (socket : TcpSocket) (ticks : ULong) : BitVec 32 :=
  ticks - socket.rttest.setWidth 32

def timer (socket : TcpSocket) : UShort × ULong :=
  (socket.rttest, socket.rtseq)

variable {socket : TcpSocket} {ticks ackno : ULong}

theorem estimate_ends (timed : socket.rttest ≠ 0) (beyond : seqLt socket.rtseq ackno = true) :
    (socket.estimate ticks ackno).rttest = 0 := by
  have taken : (socket.rttest ≠ 0 && seqLt socket.rtseq ackno) = true := by
    rw [beyond, Bool.and_true]
    exact decide_eq_true timed
  rw [estimate, if_pos taken]

theorem sample_toInt_iff {clock start : Nat} (stored : socket.rttest = .ofNat 16 start)
    (past : start ≤ clock) :
    (socket.sample (.ofNat 32 clock)).toInt = (clock : Int) - start ↔
      (BitVec.ofNat 32 start).toNat < 2 ^ 16 ∧ clock < start + 2 ^ 31 := by
  have value : (socket.sample (.ofNat 32 clock)).toNat =
      (2 ^ 32 - start % 2 ^ 16 + clock % 2 ^ 32) % 2 ^ 32 := by
    rw [sample, stored, toNat_sub, toNat_setWidth, toNat_ofNat,
      toNat_ofNat]
    omega
  rw [toInt_eq_toNat_cond, value, toNat_ofNat]
  split <;> omega

end TcpSocket

/-- What is remembered of a connection beside its socket. -/
structure RttRecord where
  /-- The ticks since the machine was started. -/
  clock : Nat
  /-- Which segments in `unsent` have been sent. -/
  unsent : List Bool
  /-- Which segments in `unacked` have been sent, and not only been held. -/
  unacked : List Bool
  history : RttHistory
  deriving DecidableEq

namespace RttRecord

open RttHistory

/-- `ip->tcp_ticks` -/
def ticks (record : RttRecord) : ULong :=
  .ofNat 32 record.clock

def note (record : RttRecord) (event : RttEvent) : RttRecord :=
  { record with history := (record.clock, event) :: record.history }

/-- The first segment of `unsent` is taken away; it is kept if it takes a place in the sequence. -/
def take (record : RttRecord) (seg : TcpSegment) (wasSent : Bool) : RttRecord :=
  { record with
    unsent := record.unsent.tail
    unacked := if seg.tcplen ≠ 0 then record.unacked ++ [wasSent] else record.unacked }

/-- One move of the sender of a connection, with its record. -/
inductive Move (before : TcpSocket) (record : RttRecord) (after : TcpSocket) : RttRecord → Prop
  /-- Segments are enqueued. -/
  | enqueue {new : Nat} (timer : after.timer = before.timer)
      (unacked : after.unacked = before.unacked)
      (unsent : after.unsent.length = before.unsent.length + new) :
      Move before record after
        { record with unsent := record.unsent ++ List.replicate new false }
  /-- A segment is sent, and timed if no other one is. -/
  | send {seg : TcpSegment} {unsent : List TcpSegment} {localIp : IpAddr}
      (first : before.unsent = seg :: unsent)
      (same : after.sender =
        (Ip.keepUnacked (Ip.answering (before.state ≠ .synSent) seg)
          (Ip.recordSent { before with unsent } localIp record.ticks
            (Ip.answering (before.state ≠ .synSent) seg))).sender) :
      Move before record after
        ((record.take (Ip.answering (before.state ≠ .synSent) seg) true).note
          (.sent seg.seqno (before.rttest = 0 && after.rttest ≠ 0) (record.unsent.headD false)))
  /-- A segment is held, since there is no route. -/
  | hold {seg : TcpSegment} {unsent : List TcpSegment} (first : before.unsent = seg :: unsent)
      (same : after.sender =
        (Ip.keepUnacked (Ip.answering (before.state ≠ .synSent) seg)
          { before with unsent }).sender) :
      Move before record after
        (record.take (Ip.answering (before.state ≠ .synSent) seg) (record.unsent.headD false))
  | retransmit (unsent : after.unsent = before.unacked ++ before.unsent)
      (unacked : after.unacked = []) (rttest : after.rttest = 0) :
      Move before record after
        ({ record with unsent := record.unacked ++ record.unsent, unacked := [] }.note .resent)
  /-- Segments may be freed. -/
  | free {freed freedUnsent : Nat} (timer : after.timer = before.timer)
      (unacked : after.unacked = before.unacked.drop freed)
      (unsent : after.unsent = before.unsent.drop freedUnsent) :
      Move before record after
        { record with
          unacked := record.unacked.drop freed
          unsent := record.unsent.drop freedUnsent }
  /-- An acknowledgement ends the measurement that goes on. -/
  | sample {ackno : ULong} (timed : before.rttest ≠ 0)
      (beyond : seqLt before.rtseq ackno = true)
      (same : after.sender = (before.estimate record.ticks ackno).sender) :
      Move before record after (record.note (.sampled ackno (before.sample record.ticks)))
  /-- An acknowledgement does not end a measurement. -/
  | acknowledge {ackno : ULong}
      (other : ¬(before.rttest ≠ 0 ∧ seqLt before.rtseq ackno = true))
      (same : after.sender = before.sender) :
      Move before record after (record.note (.acked ackno))
  /-- The request of this side is acknowledged. -/
  | complete {first : TcpSegment} {rest : List TcpSegment} (timer : after.timer = before.timer)
      (connecting : before.state = .synSent) (split : before.unacked = first :: rest)
      (unacked : after.unacked = rest) (unsent : after.unsent = before.unsent) :
      Move before record after
        ({ record with unacked := record.unacked.tail }.note (.completed (first.seqno + 1)))

/-- The moves of a call. -/
abbrev Moves : TcpSocket × RttRecord → TcpSocket × RttRecord → Prop :=
  Relation.ReflTransGen fun before after => Move before.1 before.2 after.1 after.2

variable {before after socket socket' : TcpSocket} {record record' : RttRecord}

theorem Move.clock (move : Move before record after record') : record'.clock = record.clock := by
  cases move <;> rfl

theorem Moves.clock (moves : Moves (socket, record) (socket', record')) :
    record'.clock = record.clock :=
  run_invariant (fun state : TcpSocket × RttRecord => state.2.clock = record.clock)
    (fun same move => move.clock.trans same) rfl moves

theorem appendQueue_length (socket : TcpSocket) (flags : TcpFlags) (queue : List TcpSegment) :
    ∃ new, (Ip.appendQueue socket flags queue).length = socket.unsent.length + new := by
  apply Nat.exists_eq_add_of_le
  simp only [Ip.appendQueue]
  split
  · rename_i last first rest own
    split
    · have nonempty : socket.unsent ≠ [] := by
        rintro empty
        rw [empty] at own
        cases own
      have positive := length_pos_of_ne_nil nonempty
      simp only [length_append, length_dropLast, length_cons]
      omega
    · rw [length_append]
      exact Nat.le_add_right _ _
  · rw [length_append]
    exact Nat.le_add_right _ _

theorem exists_move {rules : SenderRules} (move : SenderMove rules record.ticks before after) :
    ∃ record', Move before record after record' := by
  have timers {sender : TcpSender} (same : after.sender = sender) :
      after.timer = (sender.rttest, sender.rtseq) :=
    congrArg (fun sender => (sender.rttest, sender.rtseq)) same
  have frees (freed freedUnsent : Nat) {sender : TcpSender} (same : after.sender = sender)
      (timer : (sender.rttest, sender.rtseq) = before.timer)
      (unacked : sender.unacked = before.unacked.drop freed)
      (unsent : sender.unsent = before.unsent.drop freedUnsent) :
      ∃ record', Move before record after record' :=
    ⟨_, .free ((timers same).trans timer) ((congrArg TcpSender.unacked same).trans unacked)
      ((congrArg TcpSender.unsent same).trans unsent)⟩
  have quiet {sender : TcpSender} (same : after.sender = sender)
      (timer : (sender.rttest, sender.rtseq) = before.timer)
      (unacked : sender.unacked = before.unacked) (unsent : sender.unsent = before.unsent) :
      ∃ record', Move before record after record' := by
    refine frees 0 0 same timer ?_ ?_
    · rw [unacked, drop_zero]
    · rw [unsent, drop_zero]
  cases move with
  | idle same | state _ same | size _ same => exact quiet same rfl rfl rfl
  | @enqueue flags _ _ queue _ _ _ _ same =>
    obtain ⟨new, length⟩ := appendQueue_length before flags queue
    have unsent : after.unsent = Ip.appendQueue before flags queue :=
      congrArg TcpSender.unsent same
    exact ⟨_, .enqueue (timers same) (congrArg TcpSender.unacked same) (unsent ▸ length)⟩
  | send first same => exact ⟨_, .send first same⟩
  | hold first same => exact ⟨_, .hold first same⟩
  | retransmit _ _ same =>
    exact ⟨_, .retransmit (congrArg TcpSender.unsent same) (congrArg TcpSender.unacked same)
      (congrArg TcpSender.rttest same)⟩
  | window _ _ same =>
    rw [TcpSocket.updateWindow] at same
    split at same <;> exact quiet same rfl rfl rfl
  | @acknowledge _ freed kept freedUnsent unsent _ _ _ _ frees' freesUnsent same =>
    refine frees freed.length freedUnsent.length same rfl ?_ ?_
    · rw [frees'.split, drop_left]
    · rw [freesUnsent.split, drop_left]
  | @free _ freed kept _ _ _ frees' same =>
    refine frees 0 freed.length same rfl ?_ ?_
    · rw [drop_zero]
      rfl
    · rw [frees'.split, drop_left]
  | @estimate ackno _ _ same =>
    rcases Classical.em (before.rttest ≠ 0 ∧ seqLt before.rtseq ackno = true) with
      ⟨timed, beyond⟩ | other
    · exact ⟨_, .sample timed beyond same⟩
    · rw [TcpSocket.estimate_untaken other] at same
      exact ⟨_, .acknowledge other same⟩
  | backOff _ _ same =>
    rw [TcpSocket.backOff] at same
    split at same <;> exact quiet same rfl rfl rfl
  | complete _ connecting split _ same =>
    exact ⟨_, .complete (timers same) connecting split (congrArg TcpSender.unacked same)
      (congrArg TcpSender.unsent same)⟩
  | purge _ same =>
    refine frees before.unacked.length before.unsent.length same rfl ?_ ?_
    · rw [drop_length]
    · rw [drop_length]

theorem exists_moves {rules : SenderRules}
    (moves : Relation.ReflTransGen (SenderMove rules record.ticks) before after) :
    ∃ record', Moves (before, record) (after, record') := by
  induction moves with
  | refl => exact ⟨record, .refl⟩
  | tail _ last ih =>
    obtain ⟨middle, earlier⟩ := ih
    have same : middle.ticks = record.ticks := congrArg (BitVec.ofNat 32) earlier.clock
    rw [← same] at last
    obtain ⟨record', recorded⟩ := exists_move last
    exact ⟨record', earlier.tail recorded⟩

/-- The measurement that a socket remembers is the last one of the record. -/
structure Measures (socket : TcpSocket) (record : RttRecord) : Prop where
  measuring : socket.rttest ≠ 0 → ∃ start again,
    timing record.history = some (start, .sent socket.rtseq true again) ∧
      running record.history = [(start, socket.rtseq)] ∧
      socket.rttest = .ofNat 16 start ∧ start ≤ record.clock ∧
      ∀ entry ∈ since record.history, entry.2 ≠ .resent ∧
        (beyond socket.rtseq entry = true → ∃ ackno, entry.2 = .completed ackno)
  idle : socket.rttest = 0 → running record.history = []

theorem Measures.single (measures : Measures socket record) :
    (running record.history).length ≤ 1 := by
  rcases eq_or_ne socket.rttest 0 with idle | measuring
  · rw [measures.idle idle]
    exact Nat.zero_le 1
  · obtain ⟨start, again, -, own, -⟩ := measures.measuring measuring
    rw [own]
    exact Nat.le_refl 1

theorem Measures.kept (measures : Measures before record) (timer : after.timer = before.timer)
    (clock : record.clock ≤ record'.clock) (history : record'.history = record.history) :
    Measures after record' := by
  obtain ⟨rttest, rtseq⟩ := Prod.mk.inj timer
  refine ⟨fun measuring => ?_, fun idle => ?_⟩
  · rw [rttest] at measuring
    obtain ⟨start, again, own, only, stored, past, quiet⟩ := measures.measuring measuring
    rw [history, rttest, rtseq]
    exact ⟨start, again, own, only, stored, past.trans clock, quiet⟩
  · rw [history]
    exact measures.idle (rttest ▸ idle)

theorem Measures.noted {event : RttEvent} (measures : Measures before record)
    (timer : after.timer = before.timer) (clock : record'.clock = record.clock)
    (history : record'.history = (record.clock, event) :: record.history)
    (untimed : starts (record.clock, event) = false)
    (same : running ((record.clock, event) :: record.history) = running record.history)
    (quiet : before.rttest ≠ 0 → event ≠ .resent ∧
      (beyond before.rtseq (record.clock, event) = true → ∃ ackno, event = .completed ackno)) :
    Measures after record' := by
  obtain ⟨rttest, rtseq⟩ := Prod.mk.inj timer
  refine ⟨fun measuring => ?_, fun idle => ?_⟩
  · rw [rttest] at measuring
    obtain ⟨start, again, own, only, stored, past, earlier⟩ := measures.measuring measuring
    have taken : since record'.history = (record.clock, event) :: since record.history := by
      rw [history, since, takeWhile_cons_of_pos (by rw [untimed]; rfl)]
      rfl
    rw [taken, history, rttest, rtseq, clock, same]
    refine ⟨start, again, ?_, only, stored, past, ?_⟩
    · rw [timing, List.find?_cons_of_neg (by rw [untimed]; exact Bool.false_ne_true)]
      exact own
    · intro entry member
      rcases mem_cons.mp member with rfl | member
      · exact quiet measuring
      · exact earlier entry member
  · rw [history, same]
    exact measures.idle (rttest ▸ idle)

theorem Measures.started {seqno : ULong} {again : Bool} (idle : running record.history = [])
    (rttest : after.rttest = .ofNat 16 record.clock) (measuring : after.rttest ≠ 0)
    (rtseq : after.rtseq = seqno) (clock : record'.clock = record.clock)
    (history : record'.history = (record.clock, .sent seqno true again) :: record.history) :
    Measures after record' := by
  refine ⟨fun _ => ⟨record.clock, again, ?_, ?_, rttest, clock.ge, ?_⟩,
    fun idle => absurd idle measuring⟩
  · rw [history, rtseq]
    rfl
  · rw [history, rtseq, running, idle]
  · rw [history]
    exact fun entry member => nomatch member

theorem Measures.ended (rttest : after.rttest = 0) (ended : running record'.history = []) :
    Measures after record' :=
  ⟨fun measuring => absurd rttest measuring, fun _ => ended⟩

theorem Measures.sample_iff {ackno : ULong} (measures : Measures socket record)
    (measuring : socket.rttest ≠ 0) (ends : seqLt socket.rtseq ackno = true) :
    Exact record.history record.clock ackno (socket.sample record.ticks) ↔
      Countable record.history record.clock := by
  obtain ⟨start, again, own, -, stored, past, earlier⟩ := measures.measuring measuring
  have arithmetic := TcpSocket.sample_toInt_iff stored past
  constructor
  · rintro ⟨start', seqno, own', -, quiet, exact⟩
    obtain ⟨rfl, rfl, rfl⟩ : start = start' ∧ socket.rtseq = seqno ∧ again = false := by
      simpa using own.symm.trans own'
    obtain ⟨fits, short⟩ := arithmetic.mp exact
    refine ⟨start, socket.rtseq, own', fits, short, fun entry member ackno' completed => ?_⟩
    have beyond := (quiet entry member).2
    rwa [RttHistory.beyond, completed] at beyond
  · rintro ⟨start', seqno, own', fits, short, incomplete⟩
    obtain ⟨rfl, rfl, rfl⟩ : start = start' ∧ socket.rtseq = seqno ∧ again = false := by
      simpa using own.symm.trans own'
    refine ⟨start, socket.rtseq, own', ends, fun entry member => ⟨(earlier entry member).1, ?_⟩,
      arithmetic.mpr ⟨fits, short⟩⟩
    rw [Bool.eq_false_iff]
    intro beyond
    obtain ⟨ackno', completed⟩ := (earlier entry member).2 beyond
    have below := incomplete entry member ackno' completed
    rw [RttHistory.beyond, completed] at beyond
    exact Bool.false_ne_true (below.symm.trans beyond)

/-- What `tcp_output_segment` makes of the measurement. -/
theorem sent_timer {seg : TcpSegment} {unsent : List TcpSegment} {localIp : IpAddr}
    (same : after.sender =
      (Ip.keepUnacked (Ip.answering (before.state ≠ .synSent) seg)
        (Ip.recordSent { before with unsent } localIp record.ticks
          (Ip.answering (before.state ≠ .synSent) seg))).sender) :
    before.rttest = 0 ∧ after.rttest = .ofNat 16 record.clock ∧ after.rtseq = seg.seqno ∨
      before.rttest ≠ 0 ∧ after.timer = before.timer := by
  rw [keepUnacked_sender] at same
  have rttest : after.rttest =
      if before.rttest = 0 then record.ticks.setWidth 16 else before.rttest :=
    congrArg TcpSender.rttest same
  have rtseq : after.rtseq = if before.rttest = 0 then
      (Ip.answering (before.state ≠ .synSent) seg).seqno else before.rtseq :=
    congrArg TcpSender.rtseq same
  rcases eq_or_ne before.rttest 0 with idle | measuring
  · rw [if_pos idle] at rttest rtseq
    refine .inl ⟨idle, rttest.trans (setWidth_ofNat_of_le (by decide) _), rtseq.trans ?_⟩
    rw [Ip.answering]
    split <;> rfl
  · rw [if_neg measuring] at rttest rtseq
    exact .inr ⟨measuring, Prod.ext rttest rtseq⟩

theorem Move.measures (move : Move before record after record')
    (measures : Measures before record) : Measures after record' := by
  cases move with
  | enqueue timer _ _ => exact measures.kept timer (Nat.le_refl _) rfl
  | @send seg unsent localIp first same =>
    rcases sent_timer same with ⟨idle, rttest, rtseq⟩ | ⟨measuring, timer⟩
    · rw [idle]
      rcases eq_or_ne after.rttest 0 with zero | measuring
      · refine .ended zero ?_
        rw [zero]
        exact measures.idle idle
      · refine @Measures.started after record _ seg.seqno (record.unsent.headD false)
          (measures.idle idle) rttest measuring rtseq rfl ?_
        rw [note, decide_eq_true measuring]
        rfl
    · refine measures.noted timer rfl rfl ?_ ?_ fun _ => ⟨RttEvent.noConfusion, fun never => ?_⟩
      · rw [decide_eq_false measuring]
        rfl
      · rw [decide_eq_false measuring]
        rfl
      · exact Bool.noConfusion never
  | hold first same =>
    refine measures.kept ?_ (Nat.le_refl _) rfl
    rw [keepUnacked_sender] at same
    exact Prod.ext (congrArg TcpSender.rttest same) (congrArg TcpSender.rtseq same)
  | retransmit _ _ rttest => exact .ended rttest rfl
  | free timer _ _ => exact measures.kept timer (Nat.le_refl _) rfl
  | @sample ackno timed ends same =>
    obtain ⟨start, again, -, only, -⟩ := measures.measuring timed
    refine .ended ?_ ?_
    · exact (congrArg TcpSender.rttest same).trans (TcpSocket.estimate_ends timed ends)
    · rw [note, running, only, filter_cons_of_neg (by simp [ends])]
      rfl
  | @acknowledge ackno other same =>
    have timer : after.timer = before.timer :=
      Prod.ext (congrArg TcpSender.rttest same) (congrArg TcpSender.rtseq same)
    refine measures.noted timer rfl rfl rfl rfl fun measuring => ⟨RttEvent.noConfusion, ?_⟩
    exact fun beyond => absurd ⟨measuring, beyond⟩ other
  | complete timer _ _ _ _ =>
    exact measures.noted timer rfl rfl rfl rfl fun _ => ⟨RttEvent.noConfusion, fun _ => ⟨_, rfl⟩⟩

theorem Move.judged (move : Move before record after record') (measures : Measures before record)
    (judged : Judged record.history) : Judged record'.history := by
  have single := (move.measures measures).single
  cases move with
  | enqueue _ _ _ | hold _ _ | free _ _ _ => exact judged
  | send _ _ | retransmit _ _ _ | acknowledge _ _ | complete _ _ _ _ _ =>
    exact judged.cons single fun _ _ _ other => nomatch (Prod.mk.inj other).2
  | sample timed ends same =>
    refine judged.cons single fun now ackno' m same => ?_
    obtain ⟨rfl, own⟩ := Prod.mk.inj same
    obtain ⟨rfl, rfl⟩ := RttEvent.sampled.inj own
    exact measures.sample_iff timed ends

end RttRecord

/-- The stack with the record of one connection. -/
structure RttTimeline where
  ip : Ip
  record : RttRecord

namespace RttTimeline

open Ip RttHistory RttRecord

/-- A tick, or another event in the life of the connection. -/
inductive Step (s : SocketId) (before : RttTimeline) : RttTimeline → Prop
  | clock : Step s before
      ⟨{ before.ip with tcpTicks := before.ip.tcpTicks + 1 },
        { before.record with clock := before.record.clock + 1 }⟩
  | call {event : ConnectionEvent} {ip' : Ip} {record' : RttRecord}
      (step : ConnectionStep s before.ip event ip') (timeless : event ≠ .clock)
      (moves : Moves (before.ip.tcpSocket s, before.record) (ip'.tcpSocket s, record')) :
      Step s before ⟨ip', record'⟩

/-- A record that begins with its connection, at any time. -/
structure Starts (s : SocketId) (timeline : RttTimeline) : Prop where
  begins : Begins s timeline.ip
  ticks : timeline.ip.tcpTicks = timeline.record.ticks
  unsent : timeline.record.unsent = (timeline.ip.tcpSocket s).unsent.map fun _ => false
  unacked : timeline.record.unacked = []
  history : timeline.record.history = []

theorem Step.ticks {s : SocketId} {before after : RttTimeline} (step : Step s before after)
    (ticks : before.ip.tcpTicks = before.record.ticks) :
    after.ip.tcpTicks = after.record.ticks := by
  cases step with
  | clock =>
    change before.ip.tcpTicks + 1 = .ofNat 32 (before.record.clock + 1)
    rw [ticks, RttRecord.ticks, ofNat_add]
    rfl
  | @call event ip' record' step timeless moves =>
    have same := (step.sends (allows_any s before.ip event) timeless).tcpTicks
    calc
      ip'.tcpTicks = before.record.ticks := same.trans ticks
      _ = record'.ticks := congrArg (BitVec.ofNat 32) moves.clock.symm

theorem exists_step {s : SocketId} {timeline : RttTimeline} {event : ConnectionEvent} {ip' : Ip}
    (ticks : timeline.ip.tcpTicks = timeline.record.ticks)
    (step : ConnectionStep s timeline.ip event ip') :
    ∃ record', Step s timeline ⟨ip', record'⟩ := by
  rcases eq_or_ne event .clock with rfl | timeless
  · cases step
    exact ⟨_, .clock⟩
  · have moves := step.moves (allows_any s timeline.ip event)
    rw [ticks] at moves
    obtain ⟨record', recorded⟩ := exists_moves moves
    exact ⟨record', .call step timeless recorded⟩

/-- The record of a connection is true, and so is what it says of the samples. -/
structure Sound (s : SocketId) (timeline : RttTimeline) : Prop where
  measures : Measures (timeline.ip.tcpSocket s) timeline.record
  judged : Judged timeline.record.history

variable {s : SocketId} {before after timeline first last : RttTimeline}

theorem Step.sound (step : Step s before after) (sound : Sound s before) : Sound s after := by
  obtain ⟨measures, judged⟩ := sound
  cases step with
  | clock => exact ⟨measures.kept rfl (Nat.le_succ _) rfl, judged⟩
  | call _ _ moves =>
    obtain ⟨measures, judged⟩ := run_invariant
      (fun state : TcpSocket × RttRecord => Measures state.1 state.2 ∧ Judged state.2.history)
      (fun sound move => ⟨move.measures sound.1, move.judged sound.1 sound.2⟩)
      ⟨measures, judged⟩ moves
    exact ⟨measures, judged⟩

theorem Starts.sound (starts : Starts s timeline) : Sound s timeline := by
  have idle : (timeline.ip.tcpSocket s).rttest = 0 :=
    @Begins.field s timeline.ip _ TcpSender.rttest _ starts.begins (fun _ _ _ _ _ => rfl)
      (fun _ _ => rfl) (fun _ _ _ _ _ => rfl) fun _ _ _ _ _ => rfl
  refine ⟨.ended idle ?_, ?_⟩
  · rw [starts.history]
    rfl
  · rw [starts.history]
    exact .nil

/-- In the whole life of a connection there is at most one measurement at any time, and a sample is
exact if and only if its segment was sent once, while the clock fitted into 16 bits, and was not the
answered request. -/
theorem samples_exact_iff (starts : Starts s first)
    (run : Relation.ReflTransGen (Step s) first last) : Judged last.record.history :=
  (run_invariant (Sound s) (fun sound step => step.sound sound) starts.sound run).judged

/-- The stack of `requested` when the machine has run for nine hours. -/
def lateRequested : Ip :=
  { requested peerSyn [true, true, true, true] with tcpTicks := 65546 }

def lateAnswered : Ip :=
  (lateRequested.answer peerSyn).getD lateRequested

def lateSent : Ip :=
  connectionAfter 0 0 lateAnswered [.output]

def lateAcked : Ip :=
  connectionAfter 0 0 { lateSent with tcpTicks := lateSent.tcpTicks + 1 }
    [.segment peerAck noData]

/-- The socket that the acknowledgement meets, without the answer. -/
def lateFreed : TcpSocket :=
  { lateAcked.tcpSocket 0 with
    rttest := (lateSent.tcpSocket 0).rttest
    rtseq := (lateSent.tcpSocket 0).rtseq
    sa := (lateSent.tcpSocket 0).sa
    sv := (lateSent.tcpSocket 0).sv }

def lateRecord : RttRecord where
  clock := 65546
  unsent := [false]
  unacked := []
  history := []

def lateHistory : RttHistory :=
  [(65547, .sampled 101 65537), (65546, .sent 100 true false)]

theorem late_starts : Starts 0 ⟨lateAnswered, lateRecord⟩ := by
  have record : lateRequested.tcpSocket 0 =
      TcpSocket.accepting peerSyn 80 peerSyn.seqno (TcpSocket.allocated 100 0) :=
    setTcp_self { target := .i386, wideShift := fun _ => 0, tcpSockets := some 0 } 0 _
  have answers : (lateRequested.answer peerSyn).isSome = true := by decide +kernel
  obtain ⟨ip, before, enqueued, same, parses, call⟩ := answer_calls answers
  refine ⟨?_, by decide +kernel, by decide +kernel, rfl, rfl⟩
  change Begins 0 ((lateRequested.answer peerSyn).getD lateRequested)
  rw [same]
  exact .accept record parses call

theorem late_sends : Move (lateAnswered.tcpSocket 0) lateRecord (lateSent.tcpSocket 0)
    ⟨65546, [], [true], [(65546, .sent 100 true false)]⟩ := by
  have queued : (lateAnswered.tcpSocket 0).unsent =
      ((lateAnswered.tcpSocket 0).unsent.head (by decide +kernel)) :: [] := by decide +kernel
  have move := @Move.send _ lateRecord (lateSent.tcpSocket 0) _ [] peerSyn.destIp queued
    (by decide +kernel)
  have same : (lateRecord.take (Ip.answering ((lateAnswered.tcpSocket 0).state ≠ .synSent)
      ((lateAnswered.tcpSocket 0).unsent.head (by decide +kernel))) true).note
        (.sent ((lateAnswered.tcpSocket 0).unsent.head (by decide +kernel)).seqno
          ((lateAnswered.tcpSocket 0).rttest = 0 && (lateSent.tcpSocket 0).rttest ≠ 0)
          (lateRecord.unsent.headD false)) =
      ⟨65546, [], [true], [(65546, .sent 100 true false)]⟩ := by
    decide +kernel
  rwa [same] at move

theorem late_samples : Move lateFreed ⟨65547, [], [], [(65546, .sent 100 true false)]⟩
    (lateAcked.tcpSocket 0) ⟨65547, [], [], lateHistory⟩ := by
  have move := @Move.sample lateFreed ⟨65547, [], [], [(65546, .sent 100 true false)]⟩
    (lateAcked.tcpSocket 0) 101 (by decide +kernel) (by decide +kernel) (by decide +kernel)
  have sample : lateFreed.sample (.ofNat 32 65547) = 65537 := by decide +kernel
  rw [ticks, sample] at move
  exact move

theorem late_run : Relation.ReflTransGen (Step 0) ⟨lateAnswered, lateRecord⟩
    ⟨lateAcked, ⟨65547, [], [], lateHistory⟩⟩ := by
  have sends : ([.output].foldlM (connectionAct 0 0) lateAnswered).isSome = true := by
    decide +kernel
  have acks : ([.segment peerAck noData].foldlM (connectionAct 0 0)
      { lateSent with tcpTicks := lateSent.tcpTicks + 1 }).isSome = true := by
    decide +kernel
  have step {ip : Ip} {event : ConnectionEvent}
      (acts : ([event].foldlM (connectionAct 0 0) ip).isSome = true) :
      ConnectionStep 0 ip event (connectionAfter 0 0 ip [event]) := by
    obtain ⟨ip', same⟩ := Option.isSome_iff_exists.mp acts
    rw [connectionAfter, same]
    exact connectionAct_step (by simpa using same)
  have frees : Move (lateSent.tcpSocket 0)
      ⟨65547, [], [true], [(65546, .sent 100 true false)]⟩ lateFreed
      ⟨65547, [], [], [(65546, .sent 100 true false)]⟩ :=
    @Move.free _ _ _ 1 0 (by decide +kernel) (by decide +kernel) (by decide +kernel)
  have first : Step 0 ⟨lateAnswered, lateRecord⟩
      ⟨lateSent, ⟨65546, [], [true], [(65546, .sent 100 true false)]⟩⟩ :=
    .call (step sends) ConnectionEvent.noConfusion (.single late_sends)
  have last : Step 0 ⟨{ lateSent with tcpTicks := lateSent.tcpTicks + 1 },
      ⟨65547, [], [true], [(65546, .sent 100 true false)]⟩⟩
      ⟨lateAcked, ⟨65547, [], [], lateHistory⟩⟩ :=
    .call (step acks) ConnectionEvent.noConfusion (@Relation.ReflTransGen.head _ _ _
      (lateFreed, ⟨65547, [], [], [(65546, .sent 100 true false)]⟩) _ frees (.single late_samples))
  exact .head first (.head .clock (.single last))

/-- The start of a measurement loses all but 16 bits of the clock. -/
theorem late_sample_wrong :
    ¬∀ (s : SocketId) (first last : RttTimeline), Starts s first →
      Relation.ReflTransGen (Step s) first last →
        ∀ earlier now ackno m, (now, .sampled ackno m) :: earlier <:+ last.record.history →
          Exact earlier now ackno m := by
  intro exact
  obtain ⟨start, seqno, own, -, -, counted⟩ :=
    exact 0 _ _ late_starts late_run [(65546, .sent 100 true false)] 65547 101 65537
      suffix_rfl
  obtain ⟨rfl, -⟩ := Prod.mk.inj (Option.some.inj own)
  exact absurd counted (by decide)

theorem samples_exact_late : Judged lateHistory :=
  samples_exact_iff late_starts late_run

end RttTimeline
end Uos
