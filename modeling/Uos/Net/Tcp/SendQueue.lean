import Uos.Net.Tcp.Connection

/-!
# The send queue

The unacknowledged and the unsent segments of a connection are one queue: data is added at its end,
acknowledged data is freed from its front, and sending and retransmitting only move the border
between the two lists.
-/

namespace Uos

open List BitVec

namespace TcpSegment

/-- Flags are set in a segment that take no place in the sequence. -/
structure Marks (seg seg' : TcpSegment) : Prop where
  place : seg'.flags &&& (TcpFlags.fin ||| TcpFlags.syn) =
    seg.flags &&& (TcpFlags.fin ||| TcpFlags.syn)
  same : seg' = { seg with flags := seg'.flags }

namespace Marks

variable {seg seg' : TcpSegment}

theorem refl (seg : TcpSegment) : Marks seg seg :=
  ⟨rfl, rfl⟩

theorem trans {seg'' : TcpSegment} (first : Marks seg seg') (second : Marks seg' seg'') :
    Marks seg seg'' := by
  refine ⟨second.place.trans first.place, ?_⟩
  rw [second.same, first.same]

theorem set (seg : TcpSegment) {flags : TcpFlags}
    (apart : flags &&& (TcpFlags.fin ||| TcpFlags.syn) = 0) :
    Marks seg { seg with flags := seg.flags ||| flags } := by
  refine ⟨?_, rfl⟩
  change (seg.flags ||| flags) &&& _ = _
  rw [BitVec.and_comm, and_or_distrib_left, BitVec.and_comm _ flags, apart,
    BitVec.and_comm]
  exact or_zero

theorem seqno (marks : Marks seg seg') : seg'.seqno = seg.seqno := by
  rw [marks.same]

theorem len (marks : Marks seg seg') : seg'.len = seg.len := by
  rw [marks.same]

theorem chunks (marks : Marks seg seg') : seg'.chunks = seg.chunks := by
  rw [marks.same]

theorem flagLen (marks : Marks seg seg') : flagLen seg'.flags = flagLen seg.flags := by
  simp only [Uos.flagLen, TcpFlags.has, marks.place]
  rfl

theorem syn (marks : Marks seg seg') :
    seg'.flags.has TcpFlags.syn = seg.flags.has TcpFlags.syn := by
  have inside : TcpFlags.syn = (TcpFlags.fin ||| TcpFlags.syn) &&& TcpFlags.syn := by decide
  rw [TcpFlags.has, TcpFlags.has, inside, ← BitVec.and_assoc, marks.place, BitVec.and_assoc]

theorem tcplen (marks : Marks seg seg') : seg'.tcplen = seg.tcplen := by
  rw [TcpSegment.tcplen, marks.len, marks.flagLen, TcpSegment.tcplen]

theorem ends (marks : Marks seg seg') : seg'.ends = seg.ends := by
  rw [TcpSegment.ends, marks.seqno, marks.tcplen, TcpSegment.ends]

end Marks
end TcpSegment

/-- The segments of a queue have flags set that take no place in the sequence. -/
abbrev Remarks : List TcpSegment → List TcpSegment → Prop :=
  List.Forall₂ TcpSegment.Marks

theorem Remarks.refl (segments : List TcpSegment) : Remarks segments segments := by
  induction segments with
  | nil => exact .nil
  | cons seg rest ih => exact .cons (.refl seg) ih

theorem Remarks.append {first first' second second' : List TcpSegment}
    (head : Remarks first first') (tail : Remarks second second') :
    Remarks (first ++ second) (first' ++ second') := by
  induction head with
  | nil => exact tail
  | cons marks _ ih => exact .cons marks ih

theorem Remarks.chunkCount {segments segments' : List TcpSegment}
    (remarks : Remarks segments segments') : chunkCount segments' = chunkCount segments := by
  induction remarks with
  | nil => rfl
  | cons marks _ ih => rw [chunkCount_cons, chunkCount_cons, ih, marks.chunks]

theorem Remarks.mem {segments segments' : List TcpSegment} {seg' : TcpSegment}
    (remarks : Remarks segments segments') (member : seg' ∈ segments') :
    ∃ seg ∈ segments, TcpSegment.Marks seg seg' := by
  induction remarks with
  | nil => cases member
  | @cons first first' _ _ marks _ ih =>
    rcases mem_cons.mp member with rfl | later
    · exact ⟨first, mem_cons_self, marks⟩
    · obtain ⟨seg, member, marks⟩ := ih later
      exact ⟨seg, mem_cons_of_mem _ member, marks⟩

namespace Ip

theorem answering_marks (answers : Bool) (seg : TcpSegment) :
    TcpSegment.Marks seg (answering answers seg) := by
  rw [answering]
  split
  · exact .set seg (by decide)
  · exact .refl seg

theorem push_remarks (segments : List TcpSegment) : Remarks segments (push segments) := by
  rw [push]
  induction segments using List.reverseRecOn with
  | nil => exact .nil
  | append_singleton init last =>
    rw [dropLast_concat, List.getLast?_concat]
    refine Remarks.append (.refl init) (.cons ?_ .nil)
    change last.Marks (if last.len ≠ 0 then _ else last)
    split
    · exact .set last (by decide)
    · exact .refl last

theorem appendQueue_cases (socket : TcpSocket) (flags : TcpFlags) (queue : List TcpSegment) :
    appendQueue socket flags queue = socket.unsent ++ push queue ∨
      ∃ init last first rest, socket.unsent = init ++ [last] ∧ queue = first :: rest ∧
        chains socket flags last first = true ∧
        appendQueue socket flags queue = init ++
          { last with len := last.len + first.len, chunks := last.chunks ++ first.chunks } ::
            push rest := by
  rw [appendQueue.eq_def]
  split
  · rename_i last first rest ending
    split
    · rename_i joins
      refine .inr ⟨socket.unsent.dropLast, last, first, rest, ?_, rfl, joins, rfl⟩
      exact (dropLast_append_getLast? last ending).symm
    · exact .inl rfl
  · exact .inl rfl

end Ip

namespace TcpSocket

variable {socket : TcpSocket} {flags : TcpFlags} {options data : List UChar} {seqno : ULong}
  {queue : List TcpSegment}

theorem newSegment_len (socket : TcpSocket) (flags : TcpFlags) (options data : List UChar)
    (seqno : ULong) :
    (socket.newSegment flags options data seqno).len.toNat =
      min data.length socket.mss.toNat := by
  have bound := socket.mss.isLt
  rw [newSegment, toNat_ofNat, Nat.mod_eq_of_lt (by omega)]

theorem newSegment_width (socket : TcpSocket) (flags : TcpFlags) (options data : List UChar)
    (seqno : ULong) :
    (socket.newSegment flags options data seqno).len.setWidth 32 =
      .ofNat 32 (min data.length socket.mss.toNat) := by
  have bound := socket.mss.isLt
  apply eq_of_toNat_eq
  rw [toNat_setWidth_of_le (by decide), newSegment_len, toNat_ofNat,
    Nat.mod_eq_of_lt (by omega)]

theorem Cuts.size (cuts : Cuts socket flags options data seqno queue) (nonempty : data ≠ []) :
    socket.mss ≠ 0 := by
  intro zero
  induction cuts with
  | done => exact nonempty rfl
  | piece nonempty _ ih =>
    apply ih
    simpa [zero] using nonempty

def pieceCount (length : Nat) (mss : UShort) : Nat :=
  max 1 ((length + mss.toNat - 1) / mss.toNat)

theorem Cuts.length (cuts : Cuts socket flags options data seqno queue) (nonempty : data ≠ []) :
    queue.length = pieceCount data.length socket.mss := by
  induction cuts with
  | done => exact absurd rfl nonempty
  | @piece data seqno queue some rest ih =>
    have size := (Cuts.piece some rest).size some
    have positive : 0 < socket.mss.toNat := by
      refine Nat.pos_of_ne_zero fun zero => size ?_
      exact eq_of_toNat_eq zero
    have long : 0 < data.length := length_pos_of_ne_nil some
    rw [length_cons, pieceCount]
    rcases Nat.lt_or_ge socket.mss.toNat data.length with more | last
    · have left : data.drop (min data.length socket.mss.toNat) ≠ [] := by
        rw [Ne, drop_eq_nil_iff]
        omega
      rw [ih left, pieceCount, length_drop, Nat.min_eq_right more.le]
      have shift : data.length + socket.mss.toNat - 1 =
          data.length - socket.mss.toNat + socket.mss.toNat - 1 + socket.mss.toNat := by omega
      have one :
          1 ≤ (data.length - socket.mss.toNat + socket.mss.toNat - 1) / socket.mss.toNat := by
        rw [Nat.le_div_iff_mul_le positive]
        omega
      rw [shift, Nat.add_div_right _ positive]
      omega
    · have none : data.drop (min data.length socket.mss.toNat) = [] := by
        rw [drop_eq_nil_iff]
        omega
      rw [none, Cuts.nil_iff] at rest
      have one : (data.length + socket.mss.toNat - 1) / socket.mss.toNat = 1 := by
        rw [Nat.div_eq_iff positive]
        omega
      rw [rest, one]
      rfl

theorem Segments.length (segments : socket.Segments flags options data queue) :
    queue.length = pieceCount data.length socket.mss := by
  rcases segments with ⟨rfl, rfl⟩ | ⟨nonempty, cuts⟩
  · have small : (0 + socket.mss.toNat - 1) / socket.mss.toNat ≤ 1 :=
      Nat.div_le_of_le_mul (by omega)
    exact (Nat.max_eq_left small).symm
  · exact cuts.length nonempty

theorem Cuts.full (cuts : Cuts socket flags options data seqno queue) :
    ∀ seg ∈ queue, seg.len ≠ 0 ∧ seg.len.toNat ≤ socket.mss.toNat ∧ seg.flags = flags ∧
      seg.chunks.length = 1 := by
  induction cuts with
  | done => exact fun seg member => nomatch member
  | @piece data seqno queue some rest ih =>
    intro seg member
    rcases mem_cons.mp member with rfl | later
    · have size := (Cuts.piece some rest).size some
      have long : 0 < data.length := length_pos_of_ne_nil some
      have len := socket.newSegment_len flags options data seqno
      have positive : 0 < socket.mss.toNat := by
        refine Nat.pos_of_ne_zero fun zero => size ?_
        exact eq_of_toNat_eq zero
      refine ⟨fun zero => ?_, ?_, rfl, rfl⟩
      · have none : min data.length socket.mss.toNat = 0 :=
          len.symm.trans (congrArg BitVec.toNat zero)
        omega
      · exact len.trans_le (Nat.min_le_right _ _)
    · exact ih seg later

end TcpSocket

theorem TcpSegment.tcplen_ne_zero {seg : TcpSegment}
    (occupies : seg.len ≠ 0 ∨ flagLen seg.flags ≠ 0) : seg.tcplen ≠ 0 := by
  have bound := seg.len.isLt
  have small : (flagLen seg.flags).toNat ≤ 1 := by
    rw [flagLen]
    split <;> decide
  rw [TcpSegment.tcplen]
  intro zero
  have sum := congrArg BitVec.toNat zero
  rw [toNat_add, toNat_setWidth_of_le (by decide)] at sum
  rcases occupies with long | flagged
  · have positive : seg.len.toNat ≠ 0 := fun none => long (eq_of_toNat_eq none)
    simp only [ofNat_eq_ofNat, toNat_ofNat, Nat.zero_mod] at sum
    omega
  · have positive : (flagLen seg.flags).toNat ≠ 0 := fun none =>
      flagged (eq_of_toNat_eq none)
    simp only [ofNat_eq_ofNat, toNat_ofNat, Nat.zero_mod] at sum
    omega

namespace Ip

theorem chains_spec {socket : TcpSocket} {flags : TcpFlags} {last first : TcpSegment}
    (joins : chains socket flags last first = true) :
    flagLen last.flags = 0 ∧ flagLen flags = 0 ∧ last.flags.has TcpFlags.syn = false ∧
      last.len ≠ 0 ∧ (last.len + first.len).toNat = last.len.toNat + first.len.toNat := by
  simp only [chains, Bool.and_eq_true, Bool.not_eq_true', decide_eq_true_eq] at joins
  obtain ⟨⟨⟨occupies, plain⟩, flagless⟩, fits⟩ := joins
  have order : TcpFlags.syn ||| TcpFlags.fin = TcpFlags.fin ||| TcpFlags.syn := BitVec.or_comm _ _
  have none : flagLen last.flags = 0 := by
    rw [flagLen, ← order, plain]
    rfl
  have bound := socket.mss.isLt
  refine ⟨none, ?_, ?_, ?_, ?_⟩
  · rw [flagLen, ← order, flagless]
    rfl
  · have inside : TcpFlags.syn = (TcpFlags.syn ||| TcpFlags.fin) &&& TcpFlags.syn := by decide
    have zero : last.flags &&& (TcpFlags.syn ||| TcpFlags.fin) = 0 := by
      simpa [TcpFlags.has] using plain
    rw [TcpFlags.has, inside, ← BitVec.and_assoc, zero]
    decide
  · intro empty
    apply occupies
    rw [TcpSegment.tcplen, none, empty]
    rfl
  · rw [toNat_add, Nat.mod_eq_of_lt (by omega)]

end Ip

namespace TcpSocket

/-- All segments that are not acknowledged, in the order of the sequence. -/
def segments (socket : TcpSocket) : List TcpSegment :=
  socket.unacked ++ socket.unsent

variable {rules : SenderRules} {ticks : ULong} {before after : TcpSocket}

/-- What `tcp_enqueue` adds to the queue. -/
theorem appendQueue_segments (socket : TcpSocket) (flags : TcpFlags) (queue : List TcpSegment) :
    Remarks (socket.segments ++ queue) (socket.unacked ++ Ip.appendQueue socket flags queue) ∨
      ∃ init last first rest, socket.segments = init ++ [last] ∧
        socket.unsent.getLast? = some last ∧ queue = first :: rest ∧
        Ip.chains socket flags last first = true ∧
        Remarks (init ++
            { last with len := last.len + first.len, chunks := last.chunks ++ first.chunks } ::
              rest)
          (socket.unacked ++ Ip.appendQueue socket flags queue) := by
  rcases Ip.appendQueue_cases socket flags queue with plain | ⟨init, last, first, rest, unsent,
    rfl, joins, merged⟩
  · rw [plain, segments, List.append_assoc]
    exact .inl (.append (.refl _) (.append (.refl _) (Ip.push_remarks queue)))
  · refine .inr ⟨socket.unacked ++ init, last, first, rest, ?_, ?_, rfl, joins, ?_⟩
    · rw [segments, unsent, List.append_assoc]
    · rw [unsent, List.getLast?_concat]
    · rw [merged, List.append_assoc]
      exact .append (.refl _) (.append (.refl _) (.cons (.refl _) (Ip.push_remarks rest)))

theorem sent_segments {seg : TcpSegment} {unsent : List TcpSegment} (answers : Bool)
    (first : before.unsent = seg :: unsent) (occupies : seg.tcplen ≠ 0)
    (unacked : after.unacked =
      if (Ip.answering answers seg).tcplen ≠ 0 then
        before.unacked ++ [Ip.answering answers seg]
      else before.unacked)
    (rest : after.unsent = unsent) : Remarks before.segments after.segments := by
  have marks := Ip.answering_marks answers seg
  rw [if_pos (by rwa [marks.tcplen])] at unacked
  rw [segments, segments, first, unacked, rest, List.append_assoc]
  exact Remarks.append (.refl _) (.cons marks (Remarks.refl unsent))

end TcpSocket

theorem SenderMove.request {rules : SenderRules} {ticks : ULong} {before after : TcpSocket}
    {seg : TcpSegment} {rest : List TcpSegment} (move : SenderMove rules ticks before after)
    (connecting : before.state = .synSent) (split : before.segments = seg :: rest)
    (flagged : flagLen seg.flags ≠ 0) :
    after.state ≠ .synSent ∨
      ∃ seg' rest', after.segments = seg' :: rest' ∧ TcpSegment.Marks seg seg' := by
  have fields {sender : TcpSender} (same : after.sender = sender) :
      after.state = sender.state ∧ after.segments = sender.unacked ++ sender.unsent := by
    rw [← same]
    exact ⟨rfl, rfl⟩
  have stays {sender : TcpSender} (same : after.sender = sender)
      (queue : sender.unacked ++ sender.unsent = before.segments) :
      ∃ seg' rest', after.segments = seg' :: rest' ∧ TcpSegment.Marks seg seg' :=
    ⟨seg, rest, (fields same).2.trans (queue.trans split), .refl seg⟩
  have remarks {segments : List TcpSegment} (head : ∃ rest, segments = seg :: rest)
      (remarks : Remarks segments after.segments) :
      ∃ seg' rest', after.segments = seg' :: rest' ∧ TcpSegment.Marks seg seg' := by
    obtain ⟨rest, rfl⟩ := head
    obtain ⟨seg', rest', marks, -, same⟩ := forall₂_cons_left_iff.mp remarks
    exact ⟨seg', rest', same, marks⟩
  have sends {first : TcpSegment} {unsent : List TcpSegment} {sender : TcpSender} (answers : Bool)
      (own : before.unsent = first :: unsent) (same : after.sender = sender)
      (unacked : sender.unacked =
        if (Ip.answering answers first).tcplen ≠ 0 then
          before.unacked ++ [Ip.answering answers first]
        else before.unacked)
      (others : sender.unsent = unsent) :
      ∃ seg' rest', after.segments = seg' :: rest' ∧ TcpSegment.Marks seg seg' := by
    have unacked' : after.unacked = _ := (congrArg TcpSender.unacked same).trans unacked
    have others' : after.unsent = unsent := (congrArg TcpSender.unsent same).trans others
    rcases eq_or_ne first.tcplen 0 with empty | occupies
    · rw [(Ip.answering_marks answers first).tcplen, empty] at unacked'
      have kept : after.segments = before.unacked ++ unsent := by
        rw [TcpSocket.segments, unacked', others']
        rfl
      rw [TcpSocket.segments, own] at split
      cases list : before.unacked with
      | nil =>
        rw [list] at split
        obtain rfl := (List.cons.inj split).1
        exact absurd empty (TcpSegment.tcplen_ne_zero (.inr flagged))
      | cons head tail =>
        rw [list] at split kept
        obtain rfl := (List.cons.inj split).1
        exact ⟨head, tail ++ unsent, kept, .refl head⟩
    · exact remarks ⟨rest, split⟩ (TcpSocket.sent_segments answers own occupies unacked' others')
  cases move with
  | idle same | size _ same | retransmit _ _ same => exact .inr (stays same rfl)
  | state connected same | purge connected same =>
    exact .inl (by rwa [(fields same).1])
  | @enqueue flags options data queue _ _ _ _ same =>
    have own : after.segments = before.unacked ++ Ip.appendQueue before flags queue :=
      (fields same).2
    rcases TcpSocket.appendQueue_segments before flags queue with marked | ⟨init, last, first,
      others, whole, -, -, joins, marked⟩
    · rw [← own] at marked
      exact .inr (remarks ⟨rest ++ queue, by rw [split]; rfl⟩ marked)
    · rw [← own] at marked
      rw [split] at whole
      cases init with
      | nil =>
        obtain rfl := (List.cons.inj whole).1
        exact absurd (Ip.chains_spec joins).1 flagged
      | cons head tail =>
        obtain rfl := (List.cons.inj whole).1
        exact .inr (remarks ⟨_, rfl⟩ marked)
  | send own same | hold own same =>
    rw [keepUnacked_sender] at same
    exact .inr (sends _ own same rfl rfl)
  | window _ connected | acknowledge _ connected | free _ connected | estimate _ connected =>
    exact absurd connecting connected
  | backOff _ _ same =>
    rw [TcpSocket.backOff] at same
    refine .inr (stays same ?_)
    split <;> rfl
  | complete _ _ _ _ same =>
    refine .inl ?_
    rw [(fields same).1]
    exact TcpState.noConfusion

namespace Ip

open TcpSocket

variable {s : SocketId} {ip ip' : Ip} {flags : TcpFlags} {options data : List UChar}

/-- There is memory for a number of segments and their buffers. -/
def Affords (ip : Ip) (pieces : Nat) : Prop :=
  List.replicate (2 * pieces) true <+: ip.memory

instance (ip : Ip) (pieces : Nat) : Decidable (Affords ip pieces) :=
  inferInstanceAs (Decidable (_ <+: _))

/-- The number of segments that `tcp_enqueue` makes of some data. -/
def pieces (s : SocketId) (ip : Ip) (data : List UChar) : Nat :=
  pieceCount data.length (ip.tcpSocket s).mss

theorem enqueueLoop_memory {socket : TcpSocket} {memory memory' : List Bool} {seqno : ULong}
    {queue result : List TcpSegment}
    (cuts : enqueueLoop socket flags options memory data seqno queue = (memory', some result)) :
    ∃ new, result.length = queue.length + new ∧
      memory = List.replicate (2 * new) true ++ memory' := by
  fun_induction enqueueLoop socket flags options memory data seqno queue with
  | case1 memory data seqno queue done =>
    obtain ⟨rfl, same⟩ := Prod.mk.inj cuts
    cases same
    exact ⟨0, rfl, rfl⟩
  | case2 data seqno queue unfinished memory seglen seg ih =>
    obtain ⟨new, length, rfl⟩ := ih cuts
    rw [length_append, length_singleton] at length
    exact ⟨new + 1, by omega, rfl⟩
  | case3 data seqno queue more memory => cases (Prod.mk.inj cuts).2
  | case4 data seqno queue memory more => cases (Prod.mk.inj cuts).2

theorem tcpEnqueue_affords (call : ip.tcpEnqueue s data flags options = some (ip', true)) :
    Affords ip (pieces s ip data) := by
  simp only [tcpEnqueue] at call
  split at call
  · cases call
  split at call
  · cases call
  split at call
  · cases call
  split at call
  · split at call <;> cases call
  · rename_i queue made
    have cuts :
        enqueueLoop (ip.tcpSocket s) flags options ip.memory data (ip.tcpSocket s).sndLbb [] =
        (_, some queue) := Prod.ext rfl made
    obtain ⟨new, length, memory⟩ := enqueueLoop_memory cuts
    have count := (enqueueLoop_segments cuts).length
    rw [length, length_nil, Nat.zero_add] at count
    rw [Affords, pieces, ← count, memory]
    exact prefix_append _ _

end Ip
end Uos
