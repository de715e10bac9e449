import Uos.Net.Tcp.SendQueue

/-!
# The length of the send queue

The counter of the buffers in the send queue has eight bits, and is right unless the data of one
call is cut into so many segments that it wraps.
-/

namespace Uos

open List BitVec

namespace TcpSocket

/-- The counter is the number of buffers of all segments, and zero only without any. -/
structure Counted (socket : TcpSocket) : Prop where
  exact : socket.sndQueuelen.toNat = chunkCount socket.unsent + chunkCount socket.unacked
  empty : socket.sndQueuelen = 0 ↔ socket.unsent = [] ∧ socket.unacked = []

/-- A connection whose counter is right.  Every segment has a buffer and a place in the sequence,
and the request for a connection is in one buffer. -/
structure QueueKept (socket : TcpSocket) : Prop where
  exact : socket.sndQueuelen.toNat = chunkCount socket.segments
  filled : ∀ seg ∈ socket.segments, seg.chunks ≠ [] ∧ seg.tcplen ≠ 0
  request : socket.state = .synSent → ∃ seg rest, socket.segments = seg :: rest ∧
    seg.flags.has TcpFlags.syn = true ∧ seg.chunks.length = 1

namespace QueueKept

variable {rules : SenderRules} {ticks : ULong} {before after : TcpSocket}

theorem counted (kept : QueueKept before) : Counted before := by
  have exact := kept.exact
  rw [segments, chunkCount_append] at exact
  refine ⟨by omega, ?_⟩
  constructor
  · intro zero
    have none : before.segments = [] := by
      apply eq_nil_iff_forall_not_mem.mpr
      intro seg member
      have some := length_pos_of_ne_nil (kept.filled seg member).1
      have few : seg.chunks.length ≤ chunkCount before.segments :=
        single_le_sum (fun _ _ => Nat.zero_le _) _ (mem_map_of_mem member)
      rw [← kept.exact, zero] at few
      exact absurd few (by simpa using some.ne')
    rw [segments, append_eq_nil_iff] at none
    exact none.symm
  · rintro ⟨unsent, unacked⟩
    apply eq_of_toNat_eq
    rw [exact, unsent, unacked]
    rfl

theorem remarks (kept : QueueKept before) (state : after.state = .synSent → before.state = .synSent)
    (queuelen : after.sndQueuelen = before.sndQueuelen)
    (remarks : Remarks before.segments after.segments) : QueueKept after := by
  obtain ⟨exact, filled, request⟩ := kept
  refine ⟨?_, ?_, ?_⟩
  · rw [queuelen, remarks.chunkCount, exact]
  · intro seg' member
    obtain ⟨seg, member, marks⟩ := remarks.mem member
    rw [marks.chunks, marks.tcplen]
    exact filled seg member
  · intro connecting
    obtain ⟨seg, rest, split, syn, one⟩ := request (state connecting)
    rw [split] at remarks
    obtain ⟨seg', rest', marks, -, same⟩ := forall₂_cons_left_iff.mp remarks
    exact ⟨seg', rest', same, marks.syn.trans syn, marks.chunks ▸ one⟩

theorem frees {freed kept freedUnsent unsent : List TcpSegment} (keeps : QueueKept before)
    (connected : after.state ≠ .synSent) (unacked : before.unacked = freed ++ kept)
    (ownUnsent : before.unsent = freedUnsent ++ unsent) (unacked' : after.unacked = kept)
    (unsent' : after.unsent = unsent)
    (queuelen : after.sndQueuelen =
      before.sndQueuelen - .ofNat 8 (chunkCount freed) - .ofNat 8 (chunkCount freedUnsent)) :
    QueueKept after := by
  obtain ⟨exact, filled, -⟩ := keeps
  rw [segments, unacked, ownUnsent] at exact filled
  refine ⟨?_, fun seg member => ?_, fun connecting => absurd connecting connected⟩
  · have bound := before.sndQueuelen.isLt
    simp only [chunkCount_append] at exact
    rw [queuelen, segments, unacked', unsent', chunkCount_append, toNat_sub,
      toNat_sub, toNat_ofNat, toNat_ofNat]
    omega
  · rw [segments, unacked', unsent'] at member
    apply filled
    simp only [mem_append] at member ⊢
    rcases member with member | member
    · exact .inl (.inr member)
    · exact .inr (.inr member)

theorem enqueues {flags : TcpFlags} {options data : List UChar} {queue : List TcpSegment}
    (kept : QueueKept before) (carries : data ≠ [] ∨ flagLen flags ≠ 0)
    (made : before.Segments flags options data queue)
    (fits : before.sndQueuelen.toNat + pieceCount data.length before.mss ≤ 255)
    (state : after.state = before.state) (unacked : after.unacked = before.unacked)
    (unsent : after.unsent = Ip.appendQueue before flags queue)
    (queuelen : after.sndQueuelen = before.sndQueuelen + .ofNat 8 queue.length) :
    QueueKept after := by
  have new : ∀ seg ∈ queue, seg.chunks.length = 1 ∧ seg.tcplen ≠ 0 := by
    intro seg member
    rcases made with ⟨rfl, rfl⟩ | ⟨-, cuts⟩
    · obtain rfl := mem_singleton.mp member
      exact ⟨rfl, TcpSegment.tcplen_ne_zero (.inr (carries.resolve_left fun some => some rfl))⟩
    · obtain ⟨long, -, -, one⟩ := cuts.full seg member
      exact ⟨one, TcpSegment.tcplen_ne_zero (.inl long)⟩
  have count : chunkCount queue = queue.length := by
    clear made queuelen unsent
    induction queue with
    | nil => rfl
    | cons seg rest ih =>
      rw [chunkCount_cons, (new seg mem_cons_self).1,
        ih fun other member => new other (mem_cons_of_mem _ member), length_cons,
        Nat.add_comm]
  have total : after.sndQueuelen.toNat = chunkCount before.segments + queue.length := by
    rw [queuelen, toNat_add, toNat_ofNat, ← kept.exact]
    rw [← made.length] at fits
    omega
  have queued (result : List TcpSegment) (remarks : Remarks result after.segments)
      (exact : chunkCount result = chunkCount before.segments + queue.length)
      (filled : ∀ seg ∈ result, seg.chunks ≠ [] ∧ seg.tcplen ≠ 0)
      (first : ∀ seg rest, before.segments = seg :: rest → seg.flags.has TcpFlags.syn = true →
        ∃ rest', result = seg :: rest') : QueueKept after := by
    refine ⟨?_, ?_, ?_⟩
    · rw [total, remarks.chunkCount, exact]
    · intro seg' member
      obtain ⟨seg, member, marks⟩ := remarks.mem member
      rw [marks.chunks, marks.tcplen]
      exact filled seg member
    · intro connecting
      obtain ⟨seg, rest, split, syn, one⟩ := kept.request (state ▸ connecting)
      obtain ⟨rest', rfl⟩ := first seg rest split syn
      obtain ⟨seg', rest', marks, -, same⟩ := forall₂_cons_left_iff.mp remarks
      exact ⟨seg', rest', same, marks.syn.trans syn, marks.chunks ▸ one⟩
  have filledNew : ∀ seg ∈ queue, seg.chunks ≠ [] ∧ seg.tcplen ≠ 0 := by
    intro seg member
    obtain ⟨one, occupies⟩ := new seg member
    refine ⟨fun none => ?_, occupies⟩
    rw [none] at one
    exact absurd one (by decide)
  rcases appendQueue_segments before flags queue with remarks | ⟨init, last, first, rest, split,
    ending, rfl, joins, remarks⟩
  · rw [← unsent, ← unacked] at remarks
    refine queued _ remarks ?_ ?_ ?_
    · rw [chunkCount_append, count]
    · intro seg member
      rcases mem_append.mp member with old | fresh
      · exact kept.filled seg old
      · exact filledNew seg fresh
    · intro seg tail split _
      exact ⟨tail ++ queue, by rw [split]; rfl⟩
  · obtain ⟨-, -, noSyn, long, sum⟩ := Ip.chains_spec joins
    rw [← unsent, ← unacked] at remarks
    refine queued _ remarks ?_ ?_ ?_
    · rw [split, ← count]
      simp only [chunkCount_append, chunkCount_cons, chunkCount_nil, length_append]
      omega
    · intro seg member
      rcases mem_append.mp member with old | fresh
      · exact kept.filled seg (split ▸ mem_append_left _ old)
      rcases mem_cons.mp fresh with rfl | later
      · have lastFilled := kept.filled last (split ▸ mem_append_right _ mem_cons_self)
        refine ⟨fun none => lastFilled.1 (append_eq_nil_iff.mp none).1, ?_⟩
        refine TcpSegment.tcplen_ne_zero (.inl fun zero => long ?_)
        apply eq_of_toNat_eq
        have none : last.len.toNat + first.len.toNat = 0 :=
          sum.symm.trans (congrArg BitVec.toNat zero)
        change last.len.toNat = 0
        omega
      · exact filledNew seg (mem_cons_of_mem _ later)
    · intro seg tail own syn
      rw [split] at own
      cases init with
      | nil =>
        obtain rfl := (List.cons.inj own).1
        exact absurd syn (by simp [noSyn])
      | cons head init =>
        obtain rfl := (List.cons.inj own).1
        exact ⟨_, rfl⟩

theorem begun {flags : TcpFlags} {options : List UChar} {queue : List TcpSegment}
    (empty : before.segments = []) (zero : before.sndQueuelen = 0)
    (syn : flags.has TcpFlags.syn = true) (made : before.Segments flags options [] queue)
    (unacked : after.unacked = before.unacked)
    (unsent : after.unsent = Ip.appendQueue before flags queue)
    (queuelen : after.sndQueuelen = before.sndQueuelen + .ofNat 8 queue.length) :
    QueueKept after := by
  obtain rfl := (made.resolve_right fun some => some.1 rfl).2
  rcases appendQueue_segments before flags [before.newSegment flags options [] before.sndLbb] with
    remarks | ⟨init, last, first, rest, split, -⟩
  · rw [empty, nil_append, ← unsent, ← unacked] at remarks
    obtain ⟨seg, rest, marks, none, split⟩ := forall₂_cons_left_iff.mp remarks
    obtain rfl := forall₂_nil_left_iff.mp none
    change after.segments = [seg] at split
    have one : seg.chunks.length = 1 := by
      rw [marks.chunks]
      rfl
    refine ⟨?_, fun other member => ?_, fun _ => ⟨seg, [], split, marks.syn.trans syn, one⟩⟩
    · rw [queuelen, zero, split, chunkCount_cons, one]
      rfl
    · rw [split] at member
      obtain rfl := mem_singleton.mp member
      refine ⟨ne_nil_of_length_pos (one ▸ Nat.zero_lt_one), ?_⟩
      rw [marks.tcplen]
      refine TcpSegment.tcplen_ne_zero (.inr ?_)
      have place : flags.has (TcpFlags.fin ||| TcpFlags.syn) = true := by
        have inside : TcpFlags.syn = (TcpFlags.fin ||| TcpFlags.syn) &&& TcpFlags.syn := by decide
        rw [TcpFlags.has, decide_eq_true_eq] at syn ⊢
        intro none
        rw [inside, ← BitVec.and_assoc, none] at syn
        exact syn (by decide)
      change flagLen flags ≠ 0
      rw [flagLen, place]
      decide
  · rw [empty] at split
    exact absurd split.symm (by simp)

/-- A condition on what is enqueued keeps the counter right. -/
def countRules (fits : TcpSocket → List UChar → TcpFlags → Prop) : SenderRules where
  enqueues := fits
  retransmits _ := True
  acknowledges _ := True
  windows _ _ _ := True
  completes _ _ := True
  sizes _ := True

theorem move {fits : TcpSocket → List UChar → TcpFlags → Prop}
    (carries : ∀ {data flags}, fits before data flags → (data ≠ [] ∨ flagLen flags ≠ 0) ∧
      before.sndQueuelen.toNat + pieceCount data.length before.mss ≤ 255)
    (kept : QueueKept before) (move : SenderMove (countRules fits) ticks before after) :
    QueueKept after := by
  have fields {sender : TcpSender} (same : after.sender = sender) :
      after.state = sender.state ∧ after.sndQueuelen = sender.sndQueuelen ∧
        after.unacked = sender.unacked ∧ after.unsent = sender.unsent := by
    rw [← same]
    exact ⟨rfl, rfl, rfl, rfl⟩
  have unchanged {sender : TcpSender} (same : after.sender = sender)
      (state : sender.state = .synSent → before.state = .synSent)
      (queuelen : sender.sndQueuelen = before.sndQueuelen)
      (queue : sender.unacked ++ sender.unsent = before.segments) : QueueKept after := by
    obtain ⟨state', queuelen', unacked, unsent⟩ := fields same
    refine kept.remarks (by rwa [state']) (queuelen'.trans queuelen) ?_
    rw [← queue, segments, unacked, unsent]
    exact .refl _
  cases move with
  | idle same => exact unchanged same id rfl rfl
  | state connected same =>
    exact unchanged same (fun connecting => absurd connecting connected) rfl rfl
  | size _ same => exact unchanged same id rfl rfl
  | enqueue allowed _ _ made same =>
    obtain ⟨state, queuelen, unacked, unsent⟩ := fields same
    obtain ⟨some, few⟩ := carries allowed
    exact kept.enqueues some made few state unacked unsent queuelen
  | send first same | hold first same =>
    rw [keepUnacked_sender] at same
    obtain ⟨state, queuelen, unacked, unsent⟩ := fields same
    have occupies := (kept.filled _ (by
      rw [segments, first]
      exact mem_append_right _ mem_cons_self)).2
    exact kept.remarks (by rw [state]; exact id) queuelen
      (sent_segments _ first occupies unacked unsent)
  | retransmit _ _ same => exact unchanged same id rfl rfl
  | window _ _ same =>
    rw [updateWindow] at same
    refine unchanged same ?_ ?_ ?_ <;> split <;> first | exact id | rfl
  | acknowledge _ connected _ _ frees freesUnsent same =>
    obtain ⟨state, queuelen, unacked, unsent⟩ := fields same
    exact kept.frees (state ▸ connected) frees.split freesUnsent.split unacked unsent queuelen
  | free _ connected _ frees same =>
    obtain ⟨state, queuelen, unacked, unsent⟩ := fields same
    have none : before.unacked = [] ++ before.unacked := rfl
    refine kept.frees (state ▸ connected) none frees.split unacked unsent ?_
    rw [queuelen, chunkCount_nil, BitVec.sub_zero]
  | estimate _ _ same =>
    simp only [estimate] at same
    refine unchanged same ?_ ?_ ?_ <;> split <;> first | exact id | rfl
  | backOff _ _ same =>
    rw [backOff] at same
    refine unchanged same ?_ ?_ ?_ <;> split <;> first | exact id | rfl
  | @complete first rest wnd mss _ connecting split _ same =>
    obtain ⟨state, queuelen, unacked, unsent⟩ := fields same
    obtain ⟨exact, filled, request⟩ := kept
    obtain ⟨seg, others, whole, -, one⟩ := request connecting
    rw [segments, split, List.cons_append] at exact filled whole
    obtain rfl := (List.cons.inj whole).1
    refine ⟨?_, ?_, fun connecting => ?_⟩
    · rw [chunkCount_cons, chunkCount_append, one] at exact
      have bound := before.sndQueuelen.isLt
      rw [queuelen, segments, unacked, unsent, chunkCount_append]
      change (before.sndQueuelen - 1#8).toNat = _
      rw [toNat_sub, toNat_ofNat]
      change _ = chunkCount rest + chunkCount before.unsent
      omega
    · rw [segments, unacked, unsent]
      exact fun seg member => filled seg (mem_cons_of_mem _ member)
    · rw [state] at connecting
      exact TcpState.noConfusion connecting
  | purge connected same =>
    obtain ⟨state, queuelen, unacked, unsent⟩ := fields same
    refine ⟨?_, ?_, fun connecting => ?_⟩
    · rw [queuelen, segments, unacked, unsent]
      rfl
    · rw [segments, unacked, unsent]
      exact fun seg member => absurd member (by simp)
    · exact absurd (state.symm.trans connecting) connected

end QueueKept
end TcpSocket

namespace Ip

open TcpSocket

variable {s : SocketId} {ip ip' : Ip} {flags : TcpFlags} {options data : List UChar}

/-- A call carries data or a flag that takes a place in the sequence, and where it is not refused,
the counter has room for its segments. -/
def Fits (s : SocketId) (ip : Ip) : ConnectionEvent → Prop
  | .enqueue data flags _ =>
    (data ≠ [] ∨ flagLen flags ≠ 0) ∧
      (data.length ≤ (ip.tcpSocket s).sndBuf.toNat →
        (ip.tcpSocket s).sndQueuelen < tcpSndQueuelen → Affords ip (pieces s ip data) →
          (ip.tcpSocket s).sndQueuelen.toNat + pieces s ip data ≤ 255)
  | _ => True

theorem Begins.queueKept (begins : Begins s ip) : QueueKept (ip.tcpSocket s) := by
  have enqueued {before : Ip} {flags : TcpFlags} {options : List UChar}
      (empty : (before.tcpSocket s).segments = []) (zero : (before.tcpSocket s).sndQueuelen = 0)
      (syn : flags.has TcpFlags.syn = true)
      (call : before.tcpEnqueue s [] flags options = some (ip, true)) :
      QueueKept (ip.tcpSocket s) := by
    obtain ⟨-, ⟨wrong, -⟩ | ⟨-, -, -, queue, made, same⟩⟩ := tcpEnqueue_spec call
    · exact Bool.noConfusion wrong
    · exact QueueKept.begun empty zero syn made (congrArg TcpSender.unacked same)
        (congrArg TcpSender.unsent same) (congrArg TcpSender.sndQueuelen same)
  cases begins with
  | connect record call =>
    exact enqueued (by rw [record]; rfl) (by rw [record]; rfl) (by decide) call
  | @accept first before ip turns iss ticks seqno localPort h done record parses call =>
    have parsed := (tcpParseopt_spec parses).2
    have empty : (before.tcpSocket s).segments = [] := by
      have none :
          (before.tcpSocket s).sender.unacked ++ (before.tcpSocket s).sender.unsent = [] := by
        rw [parsed, record]
        rfl
      exact none
    have zero : (before.tcpSocket s).sndQueuelen = 0 := by
      have none : (before.tcpSocket s).sender.sndQueuelen = 0 := by
        rw [parsed, record]
        rfl
      exact none
    cases done with
    | true => exact enqueued empty zero (by decide) call
    | false =>
      obtain ⟨-, ⟨-, unchanged⟩ | ⟨wrong, -⟩⟩ := tcpEnqueue_spec call
      · rw [unchanged]
        refine ⟨by rw [zero, empty]; rfl, ?_, fun connecting => ?_⟩
        · rw [empty]
          exact fun seg member => absurd member (by simp)
        · have state : (before.tcpSocket s).sender.state = .synRcvd := by
            rw [parsed, record]
            rfl
          exact absurd (state.symm.trans connecting) (by decide)
      · exact Bool.noConfusion wrong

/-- The counter of a connection is right as long as every call fits. -/
theorem queuelen_exact (begins : Begins s ip) (run : ConnectionRun s (Fits s) ip ip') :
    Counted (ip'.tcpSocket s) := by
  refine QueueKept.counted (run_invariant (fun ip => QueueKept (ip.tcpSocket s)) ?_
    begins.queueKept run)
  rintro ip ip' kept ⟨event, fits, step⟩
  have moves {event : ConnectionEvent} (step : ConnectionStep s ip event ip')
      (allowed : Allows (QueueKept.countRules fun _ _ _ => False) s ip event) :
      QueueKept (ip'.tcpSocket s) :=
    run_invariant QueueKept (fun kept move => QueueKept.move (fun fits => fits.elim) kept move) kept
      (step.moves allowed)
  cases step with
  | @enqueue ip' data flags options enqueued call =>
    obtain ⟨carries, room⟩ := fits
    obtain ⟨-, ⟨-, same⟩ | ⟨rfl, short, few, queue, made, same⟩⟩ := tcpEnqueue_spec call
    · rw [same]
      exact kept
    · have enough := room short (by simpa [tcpSndQueuelen, lt_def] using few)
        (tcpEnqueue_affords call)
      exact kept.enqueues carries made enough (congrArg TcpSender.state same)
        (congrArg TcpSender.unacked same) (congrArg TcpSender.unsent same)
        (congrArg TcpSender.sndQueuelen same)
  | output call => exact moves (.output call) trivial
  | segment call =>
    exact moves (.segment call) ⟨fun _ => ⟨trivial, trivial, fun _ => trivial⟩,
      fun _ _ => trivial, fun _ _ _ => trivial⟩
  | clock => exact kept
  | timer call => exact moves (.timer call) fun _ => trivial
  | remove ticks gone same => exact moves (.remove ticks gone same) trivial
  | outside ticks same closes => exact moves (.outside ticks same closes) trivial

theorem queuelen_exact_byte :
    Counted ((connectionAfter 0 0 (answered peerSyn [true, true, true, true])
      [.enqueue [65] 0 []]).tcpSocket 0) := by
  have acts :
      ((answered peerSyn [true, true, true, true]).tcpEnqueue 0 [65] 0 []).isSome = true := by
    decide +kernel
  obtain ⟨⟨ip, enqueued⟩, call⟩ := Option.isSome_iff_exists.mp acts
  have last : connectionAfter 0 0 (answered peerSyn [true, true, true, true])
      [.enqueue [65] 0 []] = ip := by
    rw [connectionAfter, foldlM_cons, connectionAct, call]
    rfl
  rw [last]
  have begins : Begins 0 (answered peerSyn [true, true, true, true]) :=
    answered_begins (by decide +kernel)
  refine queuelen_exact begins (.single ⟨_, ?_, .enqueue call⟩)
  exact ⟨.inl (by decide), fun _ _ _ => by decide +kernel⟩

def tinySyn : TcpHdr :=
  { peerSyn with offset := 0x60, opts := fun i => [2, 4, 0, 1].getD i 0 }

/-- The data of one call is cut into 255 segments, and the counter wraps. -/
theorem enqueue_wraps :
    ¬∀ (s : SocketId) (ip ip' : Ip), Begins s ip →
      ConnectionRun s (fun ip event => (ip.tcpSocket s).mss ≠ 0 ∧ event.Ordinary) ip ip' →
        Counted (ip'.tcpSocket s) := by
  intro exact
  have acts : ((answered tinySyn (List.replicate 512 true)).tcpEnqueue 0
      (List.replicate 255 65) 0 []).isSome = true := by decide +kernel
  obtain ⟨⟨ip, enqueued⟩, call⟩ := Option.isSome_iff_exists.mp acts
  have wraps : ((answered tinySyn (List.replicate 512 true)).tcpEnqueue 0
      (List.replicate 255 65) 0 []).map (fun result => ((result.1.tcpSocket 0).sndQueuelen,
        (result.1.tcpSocket 0).unsent.isEmpty)) = some (0, false) := by decide +kernel
  rw [call, Option.map_some, Option.some.injEq, Prod.mk.injEq] at wraps
  have counted : Counted (ip.tcpSocket 0) := by
    apply exact 0 (answered tinySyn (List.replicate 512 true)) ip
    · exact answered_begins (by decide +kernel)
    · have ordinary : ConnectionEvent.Ordinary (.enqueue (List.replicate 255 65) 0 []) :=
        .inl ⟨cons_ne_nil _ _, rfl⟩
      exact .single ⟨_, ⟨by decide +kernel, ordinary⟩, .enqueue call⟩
  have none := (counted.empty.mp wraps.1).1
  rw [none] at wraps
  exact Bool.noConfusion wraps.2

end Ip
end Uos
