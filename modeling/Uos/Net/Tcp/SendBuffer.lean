import Uos.Net.Tcp.SendQueue

/-!
# The room in the send buffer

What a user may still send is what the buffer holds less what is not acknowledged, on a connection
that the peer requested.
-/

namespace Uos

open List BitVec

def offset (base x : ULong) : Nat :=
  (x - base).toNat

theorem offset_self (base : ULong) : offset base base = 0 := by
  simp [offset]

theorem offset_add {base x : ULong} {n : Nat} (fits : offset base x + n < 4294967296) :
    offset base (x + .ofNat 32 n) = offset base x + n := by
  simp only [offset, toNat_sub, toNat_add, toNat_ofNat] at fits ⊢
  omega

theorem offset_between {base x y : ULong} (order : offset base y ≤ offset base x) :
    offset y x = offset base x - offset base y := by
  simp only [offset] at order ⊢
  bv_omega

theorem seqLeq_offset {base x y : ULong} (near : offset base x < 2147483648)
    (near' : offset base y < 2147483648) :
    seqLeq x y = true ↔ offset base x ≤ offset base y := by
  rw [seqLeq_iff]
  simp only [offset] at near near' ⊢
  bv_omega

/-- The ends of segments are in order, behind one place in the sequence and up to another one. -/
structure Ordered (base : ULong) (low high : Nat) (segments : List TcpSegment) : Prop where
  inside : ∀ seg ∈ segments, low < offset base seg.ends ∧ offset base seg.ends ≤ high
  sorted : segments.Pairwise fun first second => offset base first.ends ≤ offset base second.ends

namespace Ordered

variable {base : ULong} {low middle high : Nat} {first second segments segments' : List TcpSegment}

theorem nil (base : ULong) (low high : Nat) : Ordered base low high [] :=
  ⟨fun _ member => (nomatch member), List.Pairwise.nil⟩

theorem append (head : Ordered base low middle first) (tail : Ordered base middle high second)
    (start : low ≤ middle) (last : middle ≤ high) : Ordered base low high (first ++ second) := by
  refine ⟨fun seg member => ?_, pairwise_append.mpr ⟨head.sorted, tail.sorted, ?_⟩⟩
  · rcases mem_append.mp member with early | late
    · obtain ⟨above, below⟩ := head.inside seg early
      exact ⟨above, below.trans last⟩
    · obtain ⟨above, below⟩ := tail.inside seg late
      exact ⟨start.trans_lt above, below⟩
  · intro early member late later
    exact ((head.inside early member).2.trans_lt (tail.inside late later).1).le

theorem sublist (ordered : Ordered base low high segments) (sub : segments'.Sublist segments) :
    Ordered base low high segments' :=
  ⟨fun seg member => ordered.inside seg (sub.subset member), ordered.sorted.sublist sub⟩

theorem remarks (ordered : Ordered base low high segments) (remarks : Remarks segments segments') :
    Ordered base low high segments' := by
  induction remarks with
  | nil => exact ordered
  | @cons seg seg' rest rest' marks remarks ih =>
    have tail := ih (ordered.sublist (sublist_cons_self seg rest))
    obtain ⟨above, below⟩ := ordered.inside seg mem_cons_self
    refine ⟨fun other member => ?_, pairwise_cons.mpr ⟨fun other member => ?_, tail.sorted⟩⟩
    · rcases mem_cons.mp member with rfl | later
      · rw [marks.ends]
        exact ⟨above, below⟩
      · exact tail.inside other later
    · obtain ⟨origin, member, same⟩ := Remarks.mem remarks member
      rw [marks.ends, same.ends]
      exact rel_of_pairwise_cons ordered.sorted member

theorem from_ackno {ackno : ULong} (ordered : Ordered base low high segments)
    (behind : ∀ seg ∈ segments, offset base ackno < offset base seg.ends) :
    Ordered ackno 0 (high - offset base ackno) segments := by
  refine ⟨fun seg member => ?_, ?_⟩
  · have later := behind seg member
    have inside := ordered.inside seg member
    rw [offset_between later.le]
    omega
  · refine ordered.sorted.imp_of_mem fun {first second} member member' order => ?_
    rw [offset_between (behind first member).le, offset_between (behind second member').le]
    omega

end Ordered

namespace TcpSocket

variable {socket : TcpSocket} {flags : TcpFlags} {options data : List UChar} {seqno : ULong}
  {queue : List TcpSegment}

theorem newSegment_ends (flagless : flagLen flags = 0) :
    (socket.newSegment flags options data seqno).ends =
      seqno + .ofNat 32 (min data.length socket.mss.toNat) := by
  rw [TcpSegment.ends, TcpSegment.tcplen, newSegment_width]
  change seqno + (_ + flagLen flags) = _
  rw [flagless]
  congr 1
  exact BitVec.add_zero _

theorem Cuts.ordered {base : ULong} (cuts : Cuts socket flags options data seqno queue)
    (flagless : flagLen flags = 0) (fits : offset base seqno + data.length < 4294967296) :
    Ordered base (offset base seqno) (offset base seqno + data.length) queue := by
  induction cuts with
  | done => exact .nil _ _ _
  | @piece data seqno queue some rest ih =>
    have size := (Cuts.piece some rest).size some
    have positive : 0 < socket.mss.toNat := by
      refine Nat.pos_of_ne_zero fun zero => size ?_
      exact eq_of_toNat_eq zero
    have long : 0 < data.length := length_pos_of_ne_nil some
    set count := min data.length socket.mss.toNat with count_eq
    have next : offset base (seqno + .ofNat 32 count) = offset base seqno + count :=
      offset_add (by omega)
    have rest := ih (by rw [next, length_drop]; omega)
    rw [next, length_drop] at rest
    have head : Ordered base (offset base seqno) (offset base seqno + count)
        [socket.newSegment flags options data seqno] := by
      refine ⟨fun seg member => ?_, pairwise_singleton _ _⟩
      obtain rfl := mem_singleton.mp member
      rw [newSegment_ends flagless, next]
      omega
    have whole := head.append rest (by omega) (by omega)
    have total : offset base seqno + count + (data.length - count) =
        offset base seqno + data.length := by omega
    rwa [total] at whole

theorem joins_ordered {base : ULong} {high : Nat} {init rest : List TcpSegment}
    {last first : TcpSegment}
    (whole : Ordered base 0 high (init ++ [last] ++ first :: rest))
    (behind : offset base last.ends ≤ offset base socket.sndLbb)
    (joins : Ip.chains socket flags last first = true)
    (made : socket.Segments flags options data (first :: rest))
    (near : offset base socket.sndLbb < 2147483648) :
    Ordered base 0 high (init ++
      { last with len := last.len + first.len, chunks := last.chunks ++ first.chunks }
      :: rest) := by
  obtain ⟨flagless, flagless', -, -, sum⟩ := Ip.chains_spec joins
  have start : first.ends = socket.sndLbb + first.len.setWidth 32 := by
    have head : first.seqno = socket.sndLbb ∧ first.flags = flags := by
      rcases made with ⟨-, one⟩ | ⟨-, cuts⟩
      · rw [(List.cons.inj one).1]
        exact ⟨rfl, rfl⟩
      · cases cuts with
        | piece => exact ⟨rfl, rfl⟩
    rw [TcpSegment.ends, TcpSegment.tcplen, head.1, head.2, flagless']
    exact congrArg (socket.sndLbb + ·) (BitVec.add_zero _)
  set merged : TcpSegment :=
    { last with len := last.len + first.len, chunks := last.chunks ++ first.chunks } with merged_eq
  have ends : merged.ends = last.ends + first.len.setWidth 32 := by
    have long : (last.len + first.len).setWidth 32 =
        last.len.setWidth 32 + first.len.setWidth 32 := by
      apply eq_of_toNat_eq
      have bound := last.len.isLt
      have bound' := first.len.isLt
      rw [toNat_add, toNat_setWidth_of_le (by decide), sum,
        toNat_setWidth_of_le (by decide), toNat_setWidth_of_le (by decide),
        Nat.mod_eq_of_lt (by omega)]
    change last.seqno + ((last.len + first.len).setWidth 32 + flagLen last.flags) =
      last.seqno + (last.len.setWidth 32 + flagLen last.flags) + first.len.setWidth 32
    rw [long]
    ac_rfl
  have bound := first.len.isLt
  have long : first.len.setWidth 32 = .ofNat 32 first.len.toNat := by
    apply eq_of_toNat_eq
    rw [toNat_setWidth_of_le (by decide), toNat_ofNat, Nat.mod_eq_of_lt (by omega)]
  have mergedOffset : offset base merged.ends = offset base last.ends + first.len.toNat := by
    rw [ends, long]
    exact offset_add (by omega)
  have firstOffset : offset base first.ends = offset base socket.sndLbb + first.len.toNat := by
    rw [start, long]
    exact offset_add (by omega)
  obtain ⟨inside, sorted⟩ := whole
  have lastInside := inside last (by simp)
  have firstInside := inside first (by simp)
  obtain ⟨front, back, across⟩ := pairwise_append.mp sorted
  obtain ⟨initSorted, -, initLast⟩ := pairwise_append.mp front
  refine ⟨fun seg member => ?_, pairwise_append.mpr ⟨initSorted,
    pairwise_cons.mpr ⟨fun seg later => ?_, back.of_cons⟩, fun early member late later => ?_⟩⟩
  · rcases mem_append.mp member with old | new
    · exact inside seg (by simp [old])
    · rcases mem_cons.mp new with rfl | later
      · omega
      · exact inside seg (by simp [later])
  · have order := rel_of_pairwise_cons back later
    omega
  · rcases mem_cons.mp later with rfl | behind
    · have order := initLast early member last mem_cons_self
      omega
    · exact across early (mem_append_left _ member) late (mem_cons_of_mem _ behind)

/-- The room in the send buffer is what is not taken by data in front of the end of the queue. -/
structure Balanced (socket : TcpSocket) : Prop where
  balance : socket.sndBuf.toNat + offset socket.lastack socket.sndLbb = tcpSndBuf.toNat
  restored : socket.sndLbb = socket.lastack → socket.sndBuf = tcpSndBuf

/-- A connection of the peer, whose buffer is balanced: nothing behind the end of the queue is sent,
and the segments are in order up to there. -/
structure Accounts (socket : TcpSocket) : Prop where
  connected : socket.state ≠ .synSent
  balance : socket.sndBuf.toNat + offset socket.lastack socket.sndLbb = tcpSndBuf.toNat
  sent : offset socket.lastack socket.sndMax ≤ offset socket.lastack socket.sndLbb
  ordered : Ordered socket.lastack 0 (offset socket.lastack socket.sndLbb) socket.segments

/-- An acknowledgement is half of the sequence away from a sender that waits for none. -/
def Opposite (socket : TcpSocket) (ackno : ULong) : Prop :=
  socket.sndMax = socket.lastack ∧ ackno = socket.lastack + 0x80000000

namespace Accounts

variable {rules : SenderRules} {ticks : ULong} {before after : TcpSocket}

theorem balanced (accounts : Accounts before) : Balanced before := by
  refine ⟨accounts.balance, fun restored => ?_⟩
  have balance := accounts.balance
  rw [restored, offset_self] at balance
  exact eq_of_toNat_eq balance

variable {ackno : ULong}

theorem changes (accounts : Accounts before) (aside : ¬before.Opposite ackno)
    (connected : after.state ≠ .synSent) (sndBuf : after.sndBuf = before.sndBuf)
    (lastack : after.lastack = before.lastack) (sndLbb : after.sndLbb = before.sndLbb)
    (sent : after.sndMax = before.sndMax ∨ ∃ seg ∈ before.segments, after.sndMax = seg.ends)
    (keeps : ∀ {base low high}, Ordered base low high before.segments →
      Ordered base low high after.segments) : Accounts after ∧ ¬after.Opposite ackno := by
  obtain ⟨-, balance, behind, ordered⟩ := accounts
  refine ⟨⟨connected, ?_, ?_, ?_⟩, ?_⟩
  · rw [sndBuf, lastack, sndLbb, balance]
  · rw [lastack, sndLbb]
    rcases sent with same | ⟨seg, member, ends⟩
    · rwa [same]
    · rw [ends]
      exact (ordered.inside seg member).2
  · rw [lastack, sndLbb]
    exact keeps ordered
  · rcases sent with same | ⟨seg, member, ends⟩
    · rwa [Opposite, lastack, same]
    · rintro ⟨none, -⟩
      have positive := (ordered.inside seg member).1
      rw [← ends, none, lastack, offset_self] at positive
      exact Nat.lt_irrefl 0 positive

theorem ackno_inside (accounts : Accounts before) (aside : ¬before.Opposite ackno)
    (new : seqLt before.lastack ackno = true) (sent : seqLeq ackno before.sndMax = true) :
    0 < offset before.lastack ackno ∧
      offset before.lastack ackno ≤ offset before.lastack before.sndMax := by
  have balance := accounts.balance
  have behind := accounts.sent
  have small : tcpSndBuf.toNat = 1024 := by decide
  rw [seqLt_iff] at new
  rw [seqLeq_iff] at sent
  simp only [Opposite, offset] at aside balance behind ⊢
  bv_omega

theorem acknowledge {freed kept freedUnsent unsent : List TcpSegment} (accounts : Accounts before)
    (aside : ¬before.Opposite ackno) (new : seqLt before.lastack ackno = true)
    (sent : seqLeq ackno before.sndMax = true)
    (frees : Frees (fun seg => seqLeq seg.ends ackno) before.unacked freed kept)
    (freesUnsent : Frees (fun seg => seqLeq seg.ends ackno && seqLeq ackno before.sndMax)
      before.unsent freedUnsent unsent) (connected : after.state ≠ .synSent)
    (sndBuf : after.sndBuf = before.sndBuf + (ackno - before.lastack).setWidth 16)
    (lastack : after.lastack = ackno) (sndMax : after.sndMax = before.sndMax)
    (sndLbb : after.sndLbb = before.sndLbb) (unacked' : after.unacked = kept)
    (unsent' : after.unsent = unsent) : Accounts after := by
  obtain ⟨positive, inside⟩ := accounts.ackno_inside aside new sent
  obtain ⟨-, balance, behind, ordered⟩ := accounts
  have small : tcpSndBuf.toNat = 1024 := by decide
  have acked : ((ackno - before.lastack).setWidth 16).toNat = offset before.lastack ackno := by
    rw [toNat_setWidth, Nat.mod_eq_of_lt]
    · rfl
    · change offset before.lastack ackno < 65536
      omega
  have covers {seg : TcpSegment} (member : seg ∈ before.segments) :
      seqLeq seg.ends ackno = true ↔
        offset before.lastack seg.ends ≤ offset before.lastack ackno := by
    have within := (ordered.inside seg member).2
    exact seqLeq_offset (by omega) (by omega)
  have sub : (kept ++ unsent).Sublist before.segments := by
    rw [segments, frees.split, freesUnsent.split]
    exact (sublist_append_right freed kept).append
      (sublist_append_right freedUnsent unsent)
  have later : ∀ seg ∈ kept ++ unsent,
      offset before.lastack ackno < offset before.lastack seg.ends := by
    have sorted := (ordered.sublist sub).sorted
    have first : ∀ seg ∈ (kept ++ unsent).head?, seqLeq seg.ends ackno = false := by
      intro seg member
      cases kept with
      | nil =>
        have uncovered := freesUnsent.kept seg member
        rwa [sent, Bool.and_true] at uncovered
      | cons head rest => exact frees.kept seg member
    intro seg member
    cases list : kept ++ unsent with
    | nil =>
      rw [list] at member
      cases member
    | cons head rest =>
      rw [list] at member sorted first sub
      have uncovered := first head rfl
      have beyond : offset before.lastack ackno < offset before.lastack head.ends := by
        rw [← Bool.not_eq_true, covers (sub.subset mem_cons_self)] at uncovered
        exact Nat.lt_of_not_le uncovered
      rcases mem_cons.mp member with rfl | behind
      · exact beyond
      · exact beyond.trans_le (rel_of_pairwise_cons sorted behind)
  refine ⟨connected, ?_, ?_, ?_⟩
  · have bound := before.sndBuf.isLt
    rw [sndBuf, lastack, sndLbb, offset_between (inside.trans behind), toNat_add, acked]
    omega
  · rw [lastack, sndLbb, sndMax, offset_between inside, offset_between (inside.trans behind)]
    omega
  · rw [lastack, sndLbb, segments, unacked', unsent', offset_between (inside.trans behind)]
    exact (ordered.sublist sub).from_ackno later

/-- What may be enqueued: data, or a flag that finds room. -/
def Carries (socket : TcpSocket) (data : List UChar) (flags : TcpFlags) : Prop :=
  data ≠ [] ∧ flagLen flags = 0 ∨ data = [] ∧ flagLen flags = 1 ∧ socket.sndBuf ≠ 0

theorem enqueues {flags : TcpFlags} {options data : List UChar} {queue : List TcpSegment}
    (accounts : Accounts before) (carries : Carries before data flags)
    (room : data.length ≤ before.sndBuf.toNat) (made : before.Segments flags options data queue)
    (state : after.state = before.state) (lastack : after.lastack = before.lastack)
    (sndMax : after.sndMax = before.sndMax)
    (sndLbb : after.sndLbb = before.sndLbb + .ofNat 32 data.length + flagLen flags)
    (sndBuf : after.sndBuf =
      before.sndBuf - .ofNat 16 data.length - (flagLen flags).setWidth 16)
    (unacked : after.unacked = before.unacked)
    (unsent : after.unsent = Ip.appendQueue before flags queue) : Accounts after := by
  obtain ⟨connected, balance, behind, ordered⟩ := accounts
  have small : tcpSndBuf.toNat = 1024 := by decide
  set low := offset before.lastack before.sndLbb with low_eq
  have place : ∃ count, after.sndLbb = before.sndLbb + .ofNat 32 count ∧
      after.sndBuf.toNat = before.sndBuf.toNat - count ∧ count ≤ before.sndBuf.toNat ∧
      Ordered before.lastack low (low + count) queue := by
    rcases carries with ⟨some, flagless⟩ | ⟨rfl, flagged, full⟩
    · have cuts := (made.resolve_left fun none => some none.1).2
      refine ⟨data.length, ?_, ?_, room, cuts.ordered flagless (by omega)⟩
      · rw [sndLbb, flagless]
        exact BitVec.add_zero _
      · rw [sndBuf, flagless]
        change (before.sndBuf - BitVec.ofNat 16 data.length - 0#16).toNat = _
        rw [BitVec.sub_zero, toNat_sub_of_le]
        · rw [toNat_ofNat, Nat.mod_eq_of_lt (by omega)]
        · rw [le_def, toNat_ofNat, Nat.mod_eq_of_lt (by omega)]
          exact room
    · obtain rfl := (made.resolve_right fun some => some.1 rfl).2
      have positive : 1 ≤ before.sndBuf.toNat :=
        Nat.pos_of_ne_zero fun zero => full (eq_of_toNat_eq zero)
      refine ⟨1, ?_, ?_, positive, fun seg member => ?_, pairwise_singleton _ _⟩
      · rw [sndLbb, flagged]
        exact congrArg (· + 1#32) (BitVec.add_zero _)
      · rw [sndBuf, flagged]
        change (before.sndBuf - 0#16 - 1#16).toNat = _
        rw [BitVec.sub_zero, toNat_sub_of_le (by rw [le_def]; exact positive)]
        rfl
      · obtain rfl := mem_singleton.mp member
        have ends : (before.newSegment flags options [] before.sndLbb).ends =
            before.sndLbb + .ofNat 32 1 := by
          change before.sndLbb + (0 + flagLen flags) = _
          rw [flagged]
          rfl
        rw [ends, offset_add (by omega)]
        omega
  obtain ⟨count, end', buf', fits, new⟩ := place
  have high : offset before.lastack after.sndLbb = low + count := by
    rw [end']
    exact offset_add (by omega)
  refine ⟨state ▸ connected, ?_, ?_, ?_⟩
  · rw [lastack, high, buf']
    omega
  · rw [lastack, sndMax, high]
    omega
  · rw [lastack, high, segments, unacked, unsent]
    have whole : Ordered before.lastack 0 (low + count) (before.segments ++ queue) :=
      ordered.append new (Nat.zero_le _) (by omega)
    rcases appendQueue_segments before flags queue
      with remarks | ⟨init, last, first, rest, split, -,
      rfl, joins, remarks⟩
    · exact whole.remarks remarks
    · rw [split] at whole ordered
      have behind := (ordered.inside last (mem_append_right _ mem_cons_self)).2
      exact (joins_ordered whole behind joins made (by omega)).remarks remarks

/-- What may be enqueued, and the sequence numbers that may be acknowledged. -/
def bufferRules (acks : ULong → Prop) : SenderRules where
  enqueues _ _ _ := False
  retransmits _ := True
  acknowledges := acks
  windows _ _ _ := True
  completes _ _ := True
  sizes _ := True

/-- Every move but an enqueue keeps the buffer balanced, if only one sequence number is
acknowledged, which is not half of the sequence away. -/
theorem move (accounts : Accounts before ∧ ¬before.Opposite ackno)
    (move : SenderMove (bufferRules (· = ackno)) ticks before after) :
    Accounts after ∧ ¬after.Opposite ackno := by
  obtain ⟨accounts, aside⟩ := accounts
  have connected := move.connected accounts.connected
  have fields {sender : TcpSender} (same : after.sender = sender) :
      after.sndBuf = sender.sndBuf ∧ after.lastack = sender.lastack ∧
        after.sndLbb = sender.sndLbb ∧ after.sndMax = sender.sndMax ∧
        after.unacked = sender.unacked ∧ after.unsent = sender.unsent := by
    rw [← same]
    exact ⟨rfl, rfl, rfl, rfl, rfl, rfl⟩
  have unchanged {sender : TcpSender} (same : after.sender = sender)
      (sndBuf : sender.sndBuf = before.sndBuf) (lastack : sender.lastack = before.lastack)
      (sndLbb : sender.sndLbb = before.sndLbb) (sndMax : sender.sndMax = before.sndMax)
      (sub : (sender.unacked ++ sender.unsent).Sublist before.segments) :
      Accounts after ∧ ¬after.Opposite ackno := by
    obtain ⟨sndBuf', lastack', sndLbb', sndMax', unacked, unsent⟩ := fields same
    refine accounts.changes aside connected (sndBuf'.trans sndBuf) (lastack'.trans lastack)
      (sndLbb'.trans sndLbb) (.inl (sndMax'.trans sndMax)) fun ordered => ?_
    rw [segments, unacked, unsent]
    exact ordered.sublist sub
  have sends {seg : TcpSegment} {unsent : List TcpSegment}
      (first : before.unsent = seg :: unsent) (sndBuf : after.sndBuf = before.sndBuf)
      (lastack : after.lastack = before.lastack) (sndLbb : after.sndLbb = before.sndLbb)
      (sent : after.sndMax = before.sndMax ∨ after.sndMax = seg.ends)
      (unacked : after.unacked =
        if (Ip.answering (decide (before.state ≠ .synSent)) seg).tcplen ≠ 0 then
          before.unacked ++ [Ip.answering (decide (before.state ≠ .synSent)) seg]
        else before.unacked)
      (rest : after.unsent = unsent) : Accounts after ∧ ¬after.Opposite ackno := by
    have member : seg ∈ before.segments := by
      rw [segments, first]
      exact mem_append_right _ mem_cons_self
    refine accounts.changes aside connected sndBuf lastack sndLbb
      (sent.imp_right fun ends => ⟨seg, member, ends⟩) fun ordered => ?_
    rcases eq_or_ne seg.tcplen 0 with empty | occupies
    · rw [(Ip.answering_marks _ seg).tcplen, empty] at unacked
      rw [segments, unacked, rest]
      refine ordered.sublist ?_
      rw [segments, first]
      exact (List.Sublist.refl before.unacked).append (sublist_cons_self seg unsent)
    · exact ordered.remarks (sent_segments _ first occupies unacked rest)
  cases move with
  | idle same | state _ same | size _ same | retransmit _ _ same =>
    exact unchanged same rfl rfl rfl rfl (.refl _)
  | enqueue allowed => exact allowed.elim
  | @send seg rest localIp first same =>
    rw [keepUnacked_sender] at same
    obtain ⟨sndBuf, lastack, sndLbb, sndMax, unacked, unsent⟩ := fields same
    have ends := (Ip.answering_marks (decide (before.state ≠ .synSent)) seg).ends
    have recorded : after.sndMax =
        if seqLt before.sndMax seg.ends then seg.ends else before.sndMax := by
      rw [← ends]
      exact sndMax
    refine sends first sndBuf lastack sndLbb ?_ unacked unsent
    rw [recorded]
    split
    · exact .inr rfl
    · exact .inl rfl
  | hold first same =>
    rw [keepUnacked_sender] at same
    obtain ⟨sndBuf, lastack, sndLbb, sndMax, unacked, unsent⟩ := fields same
    exact sends first sndBuf lastack sndLbb (.inl sndMax) unacked unsent
  | window _ _ same =>
    rw [updateWindow] at same
    refine unchanged same ?_ ?_ ?_ ?_ ?_ <;> split <;> rfl
  | acknowledge allowed _ new sent frees freesUnsent same =>
    obtain ⟨sndBuf, lastack, sndLbb, sndMax, unacked, unsent⟩ := fields same
    obtain rfl := allowed
    refine ⟨accounts.acknowledge aside new sent frees freesUnsent connected sndBuf lastack sndMax
      sndLbb unacked unsent, fun opposite => ?_⟩
    have away := opposite.2
    rw [lastack] at away
    exact absurd away (by bv_omega)
  | free _ _ _ frees same =>
    refine unchanged same rfl rfl rfl rfl ?_
    rw [segments, frees.split]
    exact (List.Sublist.refl before.unacked).append (sublist_append_right _ _)
  | estimate _ _ same =>
    simp only [estimate] at same
    refine unchanged same ?_ ?_ ?_ ?_ ?_ <;> split <;> rfl
  | backOff _ _ same =>
    rw [backOff] at same
    refine unchanged same ?_ ?_ ?_ ?_ ?_ <;> split <;> rfl
  | complete _ connecting => exact absurd connecting accounts.connected
  | purge _ same => exact unchanged same rfl rfl rfl rfl (nil_sublist _)

end Accounts
end TcpSocket

namespace Ip

open TcpSocket

variable {s : SocketId} {ip ip' : Ip}

/-- A FIN finds room in the buffer unless it is refused, and no acknowledgement is half of the
sequence away while nothing is outstanding. -/
def Accountable (s : SocketId) (ip : Ip) : ConnectionEvent → Prop
  | .enqueue data flags options =>
    ConnectionEvent.Ordinary (.enqueue data flags options) ∧
      (flags = TcpFlags.fin → (ip.tcpSocket s).sndQueuelen < tcpSndQueuelen →
        Affords ip (pieces s ip data) → (ip.tcpSocket s).sndBuf ≠ 0)
  | .segment h _ =>
    (ip.tcpSocket s).processes h.flags h.ackno = true → ¬(ip.tcpSocket s).Opposite h.ackno
  | _ => True

theorem Begins.accounts (begins : Begins s ip) (passive : (ip.tcpSocket s).state ≠ .synSent) :
    Accounts (ip.tcpSocket s) := by
  cases begins with
  | connect record call =>
    exfalso
    obtain ⟨-, ⟨wrong, -⟩ | ⟨-, -, -, queue, made, same⟩⟩ := tcpEnqueue_spec call
    · exact Bool.noConfusion wrong
    · apply passive
      refine (congrArg TcpSender.state same).trans ?_
      change (TcpSocket.sender _).state = _
      rw [record]
      rfl
  | @accept first before ip turns iss ticks seqno localPort h done record parses call =>
    have parsed := (tcpParseopt_spec parses).2
    rw [record] at parsed
    have fields :
        (before.tcpSocket s).state = .synRcvd ∧ (before.tcpSocket s).sndBuf = tcpSndBuf ∧
        (before.tcpSocket s).lastack = iss ∧ (before.tcpSocket s).sndMax = iss ∧
        (before.tcpSocket s).sndLbb = iss ∧ (before.tcpSocket s).unacked = [] ∧
        (before.tcpSocket s).unsent = [] :=
      ⟨congrArg TcpSender.state parsed, congrArg TcpSender.sndBuf parsed,
        congrArg TcpSender.lastack parsed, congrArg TcpSender.sndMax parsed,
        congrArg TcpSender.sndLbb parsed, congrArg TcpSender.unacked parsed,
        congrArg TcpSender.unsent parsed⟩
    obtain ⟨state, sndBuf, lastack, sndMax, sndLbb, unacked, unsent⟩ := fields
    have start : Accounts (before.tcpSocket s) := by
      refine ⟨by rw [state]; decide, ?_, ?_, ?_⟩
      · rw [sndBuf, lastack, sndLbb, offset_self]
        rfl
      · rw [lastack, sndMax, sndLbb]
      · rw [segments, unacked, unsent]
        exact .nil _ _ _
    obtain ⟨-, ⟨-, same⟩ | ⟨rfl, short, few, queue, made, same⟩⟩ := tcpEnqueue_spec call
    · rw [same]
      exact start
    · have carries :
          Accounts.Carries (before.tcpSocket s) [] (TcpFlags.syn ||| TcpFlags.ack) := by
        refine .inr ⟨rfl, by decide, ?_⟩
        rw [sndBuf]
        decide
      exact start.enqueues carries short made (congrArg TcpSender.state same)
        (congrArg TcpSender.lastack same) (congrArg TcpSender.sndMax same)
        (congrArg TcpSender.sndLbb same) (congrArg TcpSender.sndBuf same)
        (congrArg TcpSender.unacked same) (congrArg TcpSender.unsent same)

theorem ConnectionStep.accounts {event : ConnectionEvent} (step : ConnectionStep s ip event ip')
    (accountable : Accountable s ip event) (accounts : Accounts (ip.tcpSocket s)) :
    Accounts (ip'.tcpSocket s) := by
  have moves {ackno : ULong} {event : ConnectionEvent} (step : ConnectionStep s ip event ip')
      (aside : ¬(ip.tcpSocket s).Opposite ackno)
      (allowed : Allows (Accounts.bufferRules (· = ackno)) s ip event) :
      Accounts (ip'.tcpSocket s) :=
    (run_invariant (fun socket => Accounts socket ∧ ¬socket.Opposite ackno)
      (fun kept move => Accounts.move kept move) ⟨accounts, aside⟩ (step.moves allowed)).1
  have aside : ¬(ip.tcpSocket s).Opposite (ip.tcpSocket s).lastack := by
    rintro ⟨-, same⟩
    exact absurd same (by bv_omega)
  cases step with
  | @enqueue ip' data flags options enqueued call =>
    obtain ⟨ordinary, full⟩ := accountable
    obtain ⟨-, ⟨-, same⟩ | ⟨rfl, short, few, queue, made, same⟩⟩ := tcpEnqueue_spec call
    · rw [same]
      exact accounts
    · have carries : Accounts.Carries (ip.tcpSocket s) data flags := by
        rcases ordinary with ⟨some, rfl⟩ | ⟨rfl, rfl⟩
        · exact .inl ⟨some, by decide⟩
        · refine .inr ⟨rfl, by decide, full rfl ?_ (tcpEnqueue_affords call)⟩
          simpa [tcpSndQueuelen, lt_def] using few
      exact accounts.enqueues carries short made (congrArg TcpSender.state same)
        (congrArg TcpSender.lastack same) (congrArg TcpSender.sndMax same)
        (congrArg TcpSender.sndLbb same) (congrArg TcpSender.sndBuf same)
        (congrArg TcpSender.unacked same) (congrArg TcpSender.unsent same)
  | output call => exact moves (.output call) aside trivial
  | @segment ip' turns h p queued call =>
    rcases Bool.eq_false_or_eq_true ((ip.tcpSocket s).processes h.flags h.ackno)
      with looks | blind
    · exact moves (.segment call) (accountable looks) ⟨fun _ => ⟨rfl, trivial, fun _ => trivial⟩,
        fun _ _ => trivial, fun _ _ _ => trivial⟩
    · exact moves (.segment call) aside ⟨fun looks => absurd looks (by simp [blind]),
        fun _ _ => trivial, fun _ _ _ => trivial⟩
  | clock => exact accounts
  | timer call => exact moves (.timer call) aside fun _ => trivial
  | remove ticks gone same => exact moves (.remove ticks gone same) aside trivial
  | outside ticks same closes => exact moves (.outside ticks same closes) aside trivial

/-- What may still be sent is what is not taken up by data that is not acknowledged. -/
theorem sndBuf_exact (begins : Begins s ip) (passive : (ip.tcpSocket s).state ≠ .synSent)
    (run : ConnectionRun s (Accountable s) ip ip') : Balanced (ip'.tcpSocket s) := by
  have accounts := run_invariant (fun ip => Accounts (ip.tcpSocket s))
    (fun accounts ⟨_, accountable, step⟩ => step.accounts accountable accounts)
    (begins.accounts passive) run
  exact accounts.balanced

theorem sndBuf_exact_byte :
    Balanced ((connectionAfter 0 0 (answered peerSyn [true, true, true, true])
      [.output, .enqueue [65] 0 []]).tcpSocket 0) := by
  refine sndBuf_exact (answered_begins (by decide +kernel)) (by decide +kernel)
    (connectionAfter_run ?_ (by decide +kernel))
  intro ip event member
  simp only [mem_cons, not_mem_nil, or_false] at member
  rcases member with rfl | rfl
  · trivial
  · refine ⟨.inl ⟨cons_ne_nil _ _, rfl⟩, fun same => ?_⟩
    exact absurd same (by decide)

/-- The byte of the request for a connection is never given back to its sender. -/
theorem connect_loses_byte :
    ¬∀ (s : SocketId) (ip ip' : Ip), Begins s ip →
      ConnectionRun s (fun _ event => event.Ordinary) ip ip' →
        (ip'.tcpSocket s).state = .established → Balanced (ip'.tcpSocket s) := by
  intro balances
  have balanced := balances 0 (started [true, true])
    (connectionAfter 0 0 (started [true, true]) [.output, .segment peerSynAck noData])
    (started_begins (by decide +kernel))
    (connectionAfter_run (fun ip event member => by
      simp only [mem_cons, not_mem_nil, or_false] at member
      rcases member with rfl | rfl <;> trivial) (by decide +kernel)) (by decide +kernel)
  exact absurd (balanced.restored (by decide +kernel)) (by decide +kernel)

end Ip
end Uos
