import Uos.Net.Tcp.Frame

/-!
# The end of the data of the peer

When a FIN that `tcp_process` acts on is the next in sequence.
-/

namespace Uos

namespace TcpState

/-- The states in which the peer may still send data. -/
def Receiving (state : TcpState) : Prop :=
  state = established ∨ state = finWait1 ∨ state = finWait2

/-- The states that a FIN leads to. -/
def Finished (state : TcpState) : Prop :=
  state = closeWait ∨ state = closing ∨ state = timeWait

theorem Receiving.not_finished {state : TcpState} (receiving : state.Receiving) :
    ¬state.Finished := by
  rcases receiving with rfl | rfl | rfl <;> simp [Finished]

end TcpState

namespace Ip

variable {ip ip' : Ip} {s : SocketId} {h : TcpHdr} {p : Buf} {turns : Nat} {queued : Bool}

theorem setNext_tcpSocket (ip : Ip) (s : SocketId) (next : Option SocketId) :
    (ip.setNext s next).tcpSocket = ip.tcpSocket :=
  rfl

theorem setHead_tcpSocket (ip : Ip) (list : TcpList) (first : Option SocketId) :
    (ip.setHead list first).tcpSocket = ip.tcpSocket := by
  cases list <;> rfl

theorem tcpListRemove_tcpSocket {list : TcpList} {ns : SocketId}
    (removes : tcpListRemove turns ip list ns = some ip') : ip'.tcpSocket = ip.tcpSocket := by
  simp only [tcpListRemove] at removes
  split at removes
  · cases removes
    rw [setNext_tcpSocket, setHead_tcpSocket]
  · split at removes
    · contradiction
    · cases removes
      rfl
    · cases removes
      rfl

theorem tcpListAdd_tcpSocket (ip : Ip) (list : TcpList) (ns : SocketId) :
    (ip.tcpListAdd list ns).tcpSocket = ip.tcpSocket := by
  rw [tcpListAdd, setHead_tcpSocket, setNext_tcpSocket]

theorem closeTimeWait_spec (closes : closeTimeWait turns ip s = some ip') :
    (ip'.tcpSocket s).state = .timeWait ∧
      (ip'.tcpSocket s).rcvNxt = (ip.tcpSocket s).rcvNxt := by
  simp only [closeTimeWait, moveToClosing, Option.bind_eq_bind, Option.bind_eq_some_iff,
    Option.some.injEq] at closes
  obtain ⟨ip₁, acks, ip₂, removes, rfl⟩ := closes
  have acked := (tcpAckNow_outputs acks).receiver
  rw [tcpListAdd_tcpSocket, tcpSetSocketState, updateTcp_self, tcpListRemove_tcpSocket removes]
  exact ⟨rfl, congrArg TcpReceiver.rcvNxt acked⟩

theorem tcpAckNow_rcvNxt (acks : ip.tcpAckNow s = some ip') :
    (ip'.tcpSocket s).rcvNxt = (ip.tcpSocket s).rcvNxt :=
  congrArg TcpReceiver.rcvNxt (tcpAckNow_outputs acks).receiver

theorem tcpProcess_reset (reset : ip.tcpInputFlags.has TcpFlags.rst = true)
    (processes : tcpProcess turns ip s h p = some (ip', queued)) :
    (ip'.tcpSocket s).state = (ip.tcpSocket s).state ∨ (ip'.tcpSocket s).state = .closed := by
  simp only [tcpProcess, reset, if_true, Option.map_eq_some_iff, Prod.mk.injEq] at processes
  obtain ⟨_, resets, rfl, -⟩ := processes
  simp only [processReset] at resets
  split at resets
  · cases resets
    exact .inl rfl
  · split at resets
    · contradiction
    · simp only [tcpSocketRemove, Option.bind_eq_bind, Option.bind_eq_some_iff, Option.some.injEq]
        at resets
      obtain ⟨_, ⟨_, -, ip₁, -, rfl⟩, rfl⟩ := resets
      right
      rw [updateTcp_self, tcpSetSocketState, updateTcp_self]

theorem tcpProcess_receives (receiving : (ip.tcpSocket s).state.Receiving)
    (noReset : ip.tcpInputFlags.has TcpFlags.rst = false)
    (processes : tcpProcess turns ip s h p = some (ip', queued)) :
    ∃ ip₁, (ip.touch s).tcpReceive s h p = some (ip₁, queued) ∧
      afterReceive turns (ip.tcpSocket s).state ip₁ s = some ip' := by
  simp only [tcpProcess, noReset, Bool.false_eq_true, if_false] at processes
  rcases receiving with state | state | state <;>
    simp only [state, Option.bind_eq_bind, Option.bind_eq_some_iff, Option.some.injEq,
      Prod.mk.injEq, Prod.exists] at processes ⊢ <;>
    obtain ⟨ip₁, _, receives, _, changes, rfl, rfl⟩ := processes <;>
    exact ⟨ip₁, receives, changes⟩

/-- With a FIN the state changes, whatever `tcp_receive` made of the segment. -/
theorem afterReceive_fin {state : TcpState} (receiving : state.Receiving)
    (fin : ip.tcpInputFlags.has TcpFlags.fin = true)
    (changes : afterReceive turns state ip s = some ip') :
    (ip'.tcpSocket s).state.Finished ∧
      (ip'.tcpSocket s).rcvNxt = (ip.tcpSocket s).rcvNxt := by
  rcases receiving with rfl | rfl | rfl
  · simp only [afterReceive, afterEstablished, fin, if_true, Option.bind_eq_bind,
      Option.bind_eq_some_iff, Option.some.injEq] at changes
    obtain ⟨ip₁, acks, rfl⟩ := changes
    rw [tcpSetSocketState, updateTcp_self]
    exact ⟨.inl rfl, tcpAckNow_rcvNxt acks⟩
  · simp only [afterReceive, afterFinWait1, fin, if_true] at changes
    split at changes
    · obtain ⟨closed, rcvNxt⟩ := closeTimeWait_spec changes
      exact ⟨.inr (.inr closed), rcvNxt⟩
    · simp only [Option.bind_eq_bind, Option.bind_eq_some_iff, Option.some.injEq] at changes
      obtain ⟨ip₁, acks, rfl⟩ := changes
      rw [tcpSetSocketState, updateTcp_self]
      exact ⟨.inr (.inl rfl), tcpAckNow_rcvNxt acks⟩
  · simp only [afterReceive, afterFinWait2, fin, if_true] at changes
    obtain ⟨closed, rcvNxt⟩ := closeTimeWait_spec changes
    exact ⟨.inr (.inr closed), rcvNxt⟩

theorem afterReceive_noFin {state : TcpState} (receiving : state.Receiving)
    (kept : (ip.tcpSocket s).state = state) (noFin : ip.tcpInputFlags.has TcpFlags.fin = false)
    (changes : afterReceive turns state ip s = some ip') :
    (ip'.tcpSocket s).state.Receiving := by
  rcases receiving with rfl | rfl | rfl
  · simp only [afterReceive, afterEstablished, noFin, Bool.false_eq_true, if_false,
      Option.some.injEq] at changes
    subst changes
    exact .inl kept
  · simp only [afterReceive, afterFinWait1, noFin, Bool.false_eq_true, if_false] at changes
    split at changes
    · cases changes
      rw [tcpSetSocketState, updateTcp_self]
      exact .inr (.inr rfl)
    · cases changes
      exact .inr (.inl kept)
  · simp only [afterReceive, afterFinWait2, noFin, Bool.false_eq_true, if_false,
      Option.some.injEq] at changes
    subst changes
    exact .inr (.inr kept)

end Ip

/-- A call of `tcp_process` that came to an end: its socket, segment and buffer, and the state
before and after it. -/
structure Processed where
  before : Ip
  s : SocketId
  h : TcpHdr
  p : Buf
  after : Ip

/-- The call of `tcp_process` for a segment, if it belongs to an active socket. -/
def Ip.processed (turns : Nat) (ip : Ip) (h : TcpHdr) (p : Buf) : Option Processed := do
  let (ip, found) ← findActiveSocket turns (ip.takeApart h p.totLen) h
  let s ← found
  let before := ip.attend (some s)
  let (after, _) ← tcpProcess turns before s h p
  some { before, s, h, p, after }

/-- The calls of `tcp_process` while segments arrive, one after the other. -/
def Ip.arrivals (turns : Nat) : Ip → List (TcpHdr × Buf) → List Processed
  | _, [] => []
  | ip, (h, p) :: rest =>
    (ip.processed turns h p).toList ++
      match tcpInput turns ip h p with
      | none => []
      | some (ip, _) => ip.arrivals turns rest

namespace Processed

variable (call : Processed)

/-- The sequence number following the FIN of a segment: a SYN comes before its data. -/
def finEnds : ULong :=
  (if call.h.flags.has TcpFlags.syn then call.h.seqno + 1 else call.h.seqno) +
    call.p.totLen.setWidth 32 + 1

/-- A FIN changes the state only if the sequence number expected next is the one following it. -/
def HonoursFin : Prop :=
  (call.before.tcpSocket call.s).state.Receiving →
    ((call.after.tcpSocket call.s).state.Finished →
      (call.after.tcpSocket call.s).rcvNxt = call.finEnds) ∧
    (call.h.flags.has TcpFlags.fin = true → call.h.flags.has TcpFlags.rst = false →
      (call.after.tcpSocket call.s).rcvNxt ≠ call.finEnds →
      (call.after.tcpSocket call.s).state = (call.before.tcpSocket call.s).state)

/-- The FIN of a segment is the next in sequence: all of the segment was received before, or what
is left of it begins at the sequence number expected next and the window is open. -/
def FinFits : Prop :=
  (call.before.tcpSocket call.s).state.Receiving →
    call.h.flags.has TcpFlags.fin = true → call.h.flags.has TcpFlags.rst = false →
    (call.before.tcpSocket call.s).rcvNxt = call.finEnds ∨
      call.h.flags.has TcpFlags.syn = false ∧ call.p.totLen ≠ 65535 ∧
        (call.before.tcpSocket call.s).rcvWnd ≠ 0 ∧
        (call.h.seqno = (call.before.tcpSocket call.s).rcvNxt ∨
          seqLt call.h.seqno (call.before.tcpSocket call.s).rcvNxt = true ∧
            seqLt (call.before.tcpSocket call.s).rcvNxt call.finEnds = true)

end Processed

namespace Ip

variable {ip : Ip} {turns : Nat}

theorem has_masked (flags : TcpFlags) :
    (flags &&& 0x3f).has TcpFlags.fin = flags.has TcpFlags.fin ∧
      (flags &&& 0x3f).has TcpFlags.rst = flags.has TcpFlags.rst := by
  simp only [TcpFlags.has, BitVec.and_assoc]
  exact ⟨rfl, rfl⟩

theorem flagLen_fin {flags : TcpFlags} (fin : flags.has TcpFlags.fin = true) :
    flagLen flags = 1 := by
  rw [flagLen, if_pos]
  simp only [TcpFlags.has, decide_eq_true_eq] at fin ⊢
  intro none
  apply fin
  have both : TcpFlags.fin = (TcpFlags.fin ||| TcpFlags.syn) &&& TcpFlags.fin := rfl
  rw [both, ← BitVec.and_assoc, none]
  exact BitVec.zero_and

theorem finLen {len : UShort} (nonempty : len + 1 ≠ 0) :
    (len + 1).setWidth 32 = len.setWidth 32 + (1 : ULong) := by
  bv_omega

theorem restLen {len : UShort} {before : ULong} (nonempty : len + 1 ≠ 0)
    (le : before.toNat ≤ len.toNat) :
    (len - before.setWidth 16 + 1).setWidth 32 = len.setWidth 32 - before + (1 : ULong) := by
  bv_omega

theorem rest_ends {seqno rcvNxt : ULong} {len : UShort} (nonempty : len + 1 ≠ 0)
    (begins : seqno = rcvNxt ∨ seqLt seqno rcvNxt = true ∧
      seqLt rcvNxt (seqno + (len + 1).setWidth 32) = true) :
    rcvNxt + (len - (rcvNxt - seqno).setWidth 16 + 1).setWidth 32 = seqno + len.setWidth 32 + 1 ∧
      rcvNxt ≠ seqno + 1 + len.setWidth 32 + 1 := by
  rw [finLen nonempty] at begins
  have le : (rcvNxt - seqno).toNat ≤ len.toNat := by
    rcases begins with rfl | ⟨below, above⟩
    · rw [BitVec.sub_self]
      exact Nat.zero_le _
    · rw [seqLt_iff] at below above
      bv_omega
  rw [restLen nonempty le]
  constructor
  · bv_omega
  · intro same
    rw [same] at le
    bv_omega

theorem processed_honoursFin {h : TcpHdr} {p : Buf} {call : Processed}
    (processes : ip.processed turns h p = some call) : call.HonoursFin ↔ call.FinFits := by
  simp only [processed, Option.bind_eq_bind, Option.bind_eq_some_iff, Option.some.injEq,
    Prod.exists] at processes
  obtain ⟨found, _, finds, s, rfl, after, queued, processes, rfl⟩ := processes
  obtain ⟨len, flags, seqno, -, -⟩ := findActiveSocket_input finds
  set before := found.attend (some s)
  replace len : before.tcpInputLen = p.totLen + (flagLen (h.flags &&& 0x3f)).setWidth 16 := len
  replace flags : before.tcpInputFlags = h.flags &&& 0x3f := flags
  replace seqno : before.tcpInputSeqno = h.seqno := seqno
  obtain ⟨maskedFin, maskedRst⟩ := has_masked h.flags
  rw [← flags] at maskedFin maskedRst
  simp only [Processed.HonoursFin, Processed.FinFits]
  apply imp_congr_right
  intro receiving
  cases rst : h.flags.has TcpFlags.rst with
  | true =>
    refine iff_of_true ⟨fun finished => ?_, by simp⟩ (by simp)
    rcases tcpProcess_reset (maskedRst.trans rst) processes with same | closed
    · rw [same] at finished
      exact absurd finished receiving.not_finished
    · rw [closed] at finished
      simp [TcpState.Finished] at finished
  | false =>
    obtain ⟨ip₁, receives, changes⟩ :=
      tcpProcess_receives receiving (maskedRst.trans rst) processes
    obtain ⟨frame, result⟩ := tcpReceive_spec receives
    have kept : (ip₁.tcpSocket s).state = (before.tcpSocket s).state := by
      have same := congrArg TcpConnection.state frame.connection
      rwa [touch, updateTcp_self] at same
    have keptFlags : ip₁.tcpInputFlags = before.tcpInputFlags :=
      congrArg TcpTables.tcpInputFlags frame.tables
    cases fin : h.flags.has TcpFlags.fin with
    | false =>
      rw [← keptFlags] at maskedFin
      have remains := afterReceive_noFin receiving kept (maskedFin.trans fin) changes
      exact iff_of_true ⟨fun finished => absurd finished remains.not_finished, by simp⟩
        (by simp)
    | true =>
      rw [← keptFlags] at maskedFin
      obtain ⟨finished, rcvNxt⟩ := afterReceive_fin receiving (maskedFin.trans fin) changes
      have moved : (after.tcpSocket s).state ≠ (before.tcpSocket s).state := fun same =>
        receiving.not_finished (same ▸ finished)
      simp only [finished, moved, true_imp_iff, imp_false, not_not, and_self]
      have inputLen : before.tcpInputLen = p.totLen + 1 := by
        rw [len, flagLen_fin (flags ▸ keptFlags ▸ maskedFin.trans fin)]
        rfl
      have touchedLen : (before.touch s).tcpInputLen = p.totLen + 1 := inputLen
      have touchedSeqno : (before.touch s).tcpInputSeqno = h.seqno := seqno
      have touched : ((before.touch s).tcpSocket s).rcvNxt = (before.tcpSocket s).rcvNxt ∧
          ((before.touch s).tcpSocket s).rcvWnd = (before.tcpSocket s).rcvWnd := by
        rw [touch, updateTcp_self]
        exact ⟨rfl, rfl⟩
      simp only [Advances, touchedLen, touchedSeqno, touched, flagLen_fin fin] at result
      rw [rcvNxt]
      rcases result with ⟨⟨nonempty, open', begins⟩, _, -, queues⟩ | ⟨stays, receiver, -⟩
      · obtain ⟨ends, past⟩ := rest_ends nonempty begins
        have rcvNxt' : (ip₁.tcpSocket s).rcvNxt = h.seqno + p.totLen.setWidth 32 + 1 := by
          rw [queues.rcvNxt, touched.1]
          exact ends
        have short : p.totLen ≠ 65535 := fun full => nonempty (full ▸ rfl)
        rw [finLen nonempty, ← BitVec.add_assoc] at begins
        simp only [rcvNxt', Processed.finEnds]
        cases syn : h.flags.has TcpFlags.syn with
        | false =>
          simp only [Bool.false_eq_true, if_false, true_and]
          exact iff_of_true trivial (.inr ⟨short, open', begins⟩)
        | true =>
          simp only [if_true, past, reduceCtorEq, false_and, or_self, iff_false]
          bv_omega
      · have same : (ip₁.tcpSocket s).rcvNxt = (before.tcpSocket s).rcvNxt :=
          (congrArg TcpReceiver.rcvNxt receiver).trans touched.1
        rw [same]
        refine ⟨.inl, fun fits => fits.resolve_right ?_⟩
        rintro ⟨noSyn, short, open', begins⟩
        have nonempty : p.totLen + 1 ≠ 0 := by bv_omega
        apply stays
        rw [finLen nonempty, ← BitVec.add_assoc]
        simp only [Processed.finEnds, noSyn, Bool.false_eq_true, if_false] at begins
        exact ⟨nonempty, open', begins⟩

/-- In every run of arriving segments, FINs are honoured in sequence if and only if those that
arrive for a socket that may still receive are the next in sequence. -/
theorem arrivals_honourFin (ip : Ip) (turns : Nat) (segments : List (TcpHdr × Buf)) :
    (∀ call ∈ ip.arrivals turns segments, call.HonoursFin) ↔
      ∀ call ∈ ip.arrivals turns segments, call.FinFits := by
  have each (call : Processed) (member : call ∈ ip.arrivals turns segments) :
      call.HonoursFin ↔ call.FinFits := by
    induction segments generalizing ip with
    | nil => contradiction
    | cons segment rest ih =>
      rw [arrivals, List.mem_append, Option.mem_toList] at member
      rcases member with first | later
      · exact processed_honoursFin first
      · split at later
        · contradiction
        · exact ih _ later
  exact forall₂_congr each

def connected : Ip where
  target := .i386
  wideShift _ := 0
  tcpSocket _ := { state := .established, localIp := #v[10, 0, 0, 1], localPort := 80,
                   remoteIp := #v[10, 0, 0, 2], remotePort := 1024, rcvNxt := 100, rcvWnd := 2048 }
  tcpSockets := some 0

def earlyFin : TcpHdr × Buf :=
  ({ srcIp := #v[10, 0, 0, 2], destIp := #v[10, 0, 0, 1], src := 1024, dest := 80, seqno := 200,
     ackno := 0, offset := 0x50, flags := TcpFlags.fin, wnd := 2048 },
    { totLen := 0, chunks := [{ bytes := [] }] })

/-- The connection is closed with data missing. -/
theorem earlyFin_closes :
    ¬∀ (ip : Ip) (turns : Nat) (segments : List (TcpHdr × Buf)),
      ∀ call ∈ ip.arrivals turns segments, call.HonoursFin := by
  intro all
  have closes : (connected.processed 1 earlyFin.1 earlyFin.2).map (fun call =>
      ((call.before.tcpSocket call.s).state, (call.after.tcpSocket call.s).state,
        (call.after.tcpSocket call.s).rcvNxt, call.finEnds)) =
        some (.established, .closeWait, 100, 201) := by
    decide +kernel
  obtain ⟨call, processes, outcome⟩ := Option.map_eq_some_iff.mp closes
  simp only [Prod.mk.injEq] at outcome
  obtain ⟨before, after, rcvNxt, ends⟩ := outcome
  have honours := all connected 1 [earlyFin] call
    (List.mem_append_left _ (Option.mem_toList.mpr processes)) (.inl before)
  have same := honours.1 (.inl after)
  rw [rcvNxt, ends] at same
  contradiction

end Ip
end Uos
