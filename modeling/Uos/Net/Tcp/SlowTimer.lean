import Uos.Net.Tcp.Registry

/-!
# The walks of the slow timer along the lists

A tick leaves the lists in order if nothing has to leave the list in TIME-WAIT state, and if the
only socket that has to enter it is the last active one, when that list is empty.
-/

namespace Uos

open List

namespace Ip

/-- Nothing that the slow timer does with a socket breaks the lists. -/
structure Calm (ip : Ip) (s : SocketId) : Prop where
  stuck : ip.StuckClosing s → ip.tcpNext s = none ∧ ip.tcpClosingSockets = none ∧
    (ip.tcpSocket s).gaveUp = false ∧ ip.stayed (ip.tcpSocket s) tcpMslTicks = false
  waits : (ip.tcpSocket s).state = .timeWait → ip.stayed (ip.tcpSocket s) tcpMslTicks = false

variable {ip ip' : Ip} {s r : SocketId} {turns bound : Nat} {lists : TcpList → List SocketId}
  {list : TcpList} {prev prev' first : Option SocketId} {before rest processed : List SocketId}

theorem Calm.congr (calm : ip.Calm r) (socket : ip'.tcpSocket r = ip.tcpSocket r)
    (ticks : ip'.tcpTicks = ip.tcpTicks) (next : ip'.tcpNext r = ip.tcpNext r)
    (closing : ip'.tcpClosingSockets = ip.tcpClosingSockets) : ip'.Calm r := by
  obtain ⟨stuck, waits⟩ := calm
  constructor
  · simpa only [StuckClosing, stayed, socket, ticks, next, closing] using stuck
  · simpa only [stayed, socket, ticks] using waits

theorem Threaded.unlinkBehind (threaded : ip.Threaded lists) (disjoint : Disjoint lists)
    (nodes : lists list = before ++ s :: rest) (passed : prev = before.getLast?)
    (unlinks : ip.unlinkBehind list prev s = some ip') :
    ip'.Threaded (Function.update lists list ((lists list).erase s)) := by
  have chain := threaded list
  rw [nodes] at chain
  cases prev with
  | none =>
    simp only [Ip.unlinkBehind] at unlinks
    split at unlinks
    · rename_i first
      cases unlinks
      exact threaded.takeFirst first
    · contradiction
  | some p =>
    simp only [Ip.unlinkBehind] at unlinks
    split at unlinks
    · contradiction
    · cases unlinks
      obtain ⟨front, rfl⟩ := List.getLast?_eq_some_iff.mp passed.symm
      have member : p ∈ lists list := by simp [nodes]
      refine threaded.takeOut member
        (fun other different also => different (disjoint _ _ _ also member)) ?_
      rw [append_assoc] at chain
      obtain ⟨middle, -, later⟩ := Chain.append_iff.mp chain
      exact (Chain.cons_iff.mp (Chain.cons_iff.mp later).2).1

theorem unlinkBehind_next (unlinks : ip.unlinkBehind .active prev s = some ip')
    (other : prev ≠ some r) :
    ip'.tcpNext r = ip.tcpNext r ∧ ip'.tcpClosingSockets = ip.tcpClosingSockets := by
  cases prev with
  | none =>
    simp only [Ip.unlinkBehind] at unlinks
    split at unlinks
    · cases unlinks
      exact ⟨rfl, rfl⟩
    · contradiction
  | some p =>
    simp only [Ip.unlinkBehind] at unlinks
    split at unlinks
    · contradiction
    · cases unlinks
      refine ⟨Function.update_of_ne ?_ _ _, rfl⟩
      rintro rfl
      exact other rfl

theorem tcpListRemove_head_other {other : TcpList} (different : other ≠ list)
    (removes : tcpListRemove turns ip list s = some ip') : ip'.head other = ip.head other := by
  simp only [tcpListRemove] at removes
  split at removes
  · cases removes
    rw [setNext_head, setHead_other _ _ different]
  split at removes
  · contradiction
  · cases removes
    rw [setNext_head]
  · cases removes
    rw [setNext_head, setNext_head]

theorem moveToClosing_next (moves : moveToClosing turns ip s = some ip') :
    ip'.tcpNext s = ip.tcpClosingSockets := by
  simp only [moveToClosing, Option.bind_eq_bind, Option.bind_eq_some_iff,
    Option.some.injEq] at moves
  obtain ⟨next, removes, rfl⟩ := moves
  have head : next.head .closing = ip.head .closing :=
    tcpListRemove_head_other (by simp) removes
  rw [tcpListAdd, setHead_tcpNext]
  simp only [setNext, Function.update_self]
  exact head

/-- What a turn leaves for the next one. -/
structure Walks (ip : Ip) (lists : TcpList → List SocketId) (before rest : List SocketId)
    (prev first : Option SocketId) : Prop where
  listed : ip.WellListed lists
  nodes : lists .active = before ++ rest
  passed : rest ≠ [] → prev = before.getLast?
  chain : Chain ip.tcpNext first rest none
  calm : ∀ s ∈ rest, ip.Calm s
  waits : ∀ s, ip.tcpAlive s = true → (ip.tcpSocket s).state = .timeWait →
    ip.stayed (ip.tcpSocket s) tcpMslTicks = false

theorem waits_congr (changes : Changes s ip ip') (ticks : ip'.tcpTicks = ip.tcpTicks)
    (waits : ∀ r, ip.tcpAlive r = true → (ip.tcpSocket r).state = .timeWait →
      ip.stayed (ip.tcpSocket r) tcpMslTicks = false)
    (own : (ip'.tcpSocket s).state = .timeWait →
      ip'.stayed (ip'.tcpSocket s) tcpMslTicks = false) :
    ∀ r, ip'.tcpAlive r = true → (ip'.tcpSocket r).state = .timeWait →
      ip'.stayed (ip'.tcpSocket r) tcpMslTicks = false := by
  intro r alive state
  rcases eq_or_ne r s with rfl | other
  · exact own state
  · rw [changes.tcpAlive] at alive
    rw [changes.others r other] at state
    rw [changes.others r other, stayed, ticks]
    exact waits r alive state

theorem SlowTurn.walks (turn : SlowTurn bound prev s ip ip' prev')
    (active : isActive (ip.tcpSocket s) = true)
    (walks : ip.Walks lists before (s :: rest) prev (some s)) :
    ∃ lists' before', ip'.Walks lists' before' rest prev' (ip'.tcpNext s) := by
  obtain ⟨changes, ticks⟩ := turn.changes
  obtain ⟨listed, nodes, last, chain, calm, waits⟩ := walks
  have passed := last (by simp)
  have tail := (Chain.cons_iff.mp chain).2
  have distinct : (before ++ s :: rest).Nodup := nodes ▸ (listed.threaded .active).nodup
  have notLater : ∀ r ∈ rest, r ≠ s := by
    rintro r member rfl
    exact (nodup_cons.mp (nodup_append.mp distinct).2.1).1 member
  have notEarlier : ∀ r ∈ rest, prev ≠ some r := by
    rintro r member rfl
    obtain ⟨front, rfl⟩ := List.getLast?_eq_some_iff.mp passed.symm
    exact (nodup_append.mp distinct).2.2 r (by simp) r (mem_cons_of_mem _ member) rfl
  have calmLater (next : ∀ r ∈ rest, ip'.tcpNext r = ip.tcpNext r)
      (closing : ip'.tcpClosingSockets = ip.tcpClosingSockets) : ∀ r ∈ rest, ip'.Calm r :=
    fun r member => (calm r (mem_cons_of_mem _ member)).congr
      (changes.others r (notLater r member)) ticks (next r member) closing
  have notWaiting : (ip.tcpSocket s).state ≠ .timeWait := (isActive_holds.mp active).2.1
  cases turn with
  | stays outputs =>
    have links : ip'.links = ip.links := outputs.touches.links
    have next : ip'.tcpNext = ip.tcpNext := congrArg TcpLinks.tcpNext links
    refine ⟨lists, before ++ [s], listed.touches outputs.touches, ?_, ?_, ?_, ?_, ?_⟩
    · rw [nodes, append_assoc]
      rfl
    · intro _
      rw [List.getLast?_concat]
    · rwa [next]
    · exact calmLater (fun r _ => congrFun next r) (congrArg TcpLinks.tcpClosingSockets links)
    · refine waits_congr changes ticks waits fun state => ?_
      exact absurd (outputs.touches.state ▸ state) notWaiting
  | moves outputs stuck moves =>
    rename_i sent
    obtain ⟨next, closing, -, early⟩ := (calm s mem_cons_self).stuck stuck
    have belongs : sent.Belongs .active s := by
      have member : s ∈ lists .active := by simp [nodes]
      exact (listed.touches outputs.touches).filed .active s |>.mp member
    obtain ⟨lists', listed'⟩ := (listed.touches outputs.touches).toClosing belongs moves
    rw [next] at tail
    have ends : rest = [] := by
      cases rest with
      | nil => rfl
      | cons r rest => simp at tail
    subst ends
    refine ⟨lists', lists' .active, listed', (append_nil _).symm, by simp, ?_, by simp, ?_⟩
    · rw [moveToClosing_next moves, Chain.nil_iff]
      exact (congrArg TcpLinks.tcpClosingSockets outputs.touches.links).trans closing
    · refine waits_congr changes ticks waits fun _ => ?_
      rw [(moveToClosing_changes moves).2.1, tcpSetSocketState, updateTcp_self, stayed, ticks]
      have tmr : (sent.tcpSocket s).tmr = (ip.tcpSocket s).tmr :=
        congrArg TcpReceiver.tmr outputs.receiver
      rw [tmr]
      exact early
  | retires outputs unlinks =>
    rename_i sent
    have links : (sent.retired s).links = ip.links := outputs.touches.links
    have next : (sent.retired s).tcpNext = ip.tcpNext := congrArg TcpLinks.tcpNext links
    have others (r : SocketId) (different : prev ≠ some r) :
        ip'.tcpNext r = ip.tcpNext r ∧ ip'.tcpClosingSockets = ip.tcpClosingSockets := by
      obtain ⟨same, closing⟩ := unlinkBehind_next unlinks different
      exact ⟨same.trans (congrFun next r),
        closing.trans (congrArg TcpLinks.tcpClosingSockets links)⟩
    have notPrev : prev ≠ some s := by
      rintro rfl
      obtain ⟨front, rfl⟩ := List.getLast?_eq_some_iff.mp passed.symm
      exact (nodup_append.mp distinct).2.2 s (by simp) s mem_cons_self rfl
    have holds : TcpList.active.Holds (ip.tcpSocket s).state := isActive_holds.mp active
    have outside := listed.erase changes (listed.elsewhere (.inr holds))
      ((listed.threaded.congr links).unlinkBehind listed.disjoint nodes passed unlinks)
    have closed : (ip'.tcpSocket s).state = .closed := by
      rw [(unlinkBehind_relinks unlinks).tcpSocket, retired, tcpSetSocketState, updateTcp_self]
    refine ⟨_, before, outside.closed closed fun alive => ?_, ?_, fun _ => passed, ?_, ?_, ?_⟩
    · rw [changes.tcpAlive] at alive
      rw [changes.tcpFresh]
      exact listed.fresh s alive
    · have absent : s ∉ before := fun early =>
        (nodup_append.mp distinct).2.2 s early s mem_cons_self rfl
      rw [Function.update_self, nodes, erase_append_right _ absent, erase_cons_head]
    · rw [(others s notPrev).1]
      exact tail.congr fun r member => (others r (notEarlier r member)).1
    · refine calmLater (fun r member => (others r (notEarlier r member)).1) ?_
      exact (others s notPrev).2
    · refine waits_congr changes ticks waits fun state => ?_
      rw [closed] at state
      contradiction
  | both _ stuck gaveUp _ _ =>
    have kept := ((calm s mem_cons_self).stuck stuck).2.2.1
    rw [gaveUp] at kept
    contradiction

theorem slowLoop_walks (walks : ip.Walks lists before rest prev first)
    (loops : slowLoop bound turns ip prev first = some (ip', processed)) :
    processed = rest ∧ (∃ lists', ip'.WellListed lists') ∧
      (∀ r, ip'.tcpAlive r = true → (ip'.tcpSocket r).state = .timeWait →
        ip'.stayed (ip'.tcpSocket r) tcpMslTicks = false) ∧
      (∀ r, r ∉ rest → ip'.tcpSocket r = ip.tcpSocket r) ∧
      Grows ip ip' ∧ ip'.tcpAlive = ip.tcpAlive ∧ ∀ r, Ages r ip ip' := by
  induction turns generalizing ip lists before rest prev first processed with
  | zero => contradiction
  | succ turns ih =>
    cases rest with
    | nil =>
      have ends := Chain.nil_iff.mp walks.chain
      subst ends
      cases loops
      exact ⟨rfl, ⟨lists, walks.listed⟩, walks.waits, fun _ _ => rfl, .refl _, rfl,
        fun r => .of_state rfl⟩
    | cons s rest =>
      obtain ⟨rfl, -⟩ := Chain.cons_iff.mp walks.chain
      obtain ⟨active, ip₁, prev₁, processed₁, turn, loops₁, rfl⟩ := slowLoop_turn loops
      obtain ⟨lists₁, before₁, walks₁⟩ := turn.walks active walks
      obtain ⟨rfl, listed, waits, others, grows, alive, ages⟩ := ih walks₁ loops₁
      have changes := turn.changes.1
      refine ⟨rfl, listed, waits, fun r absent => ?_, changes.grows.trans grows,
        alive.trans changes.tcpAlive, fun r => (turn.ages active r).trans (ages r)⟩
      rw [mem_cons, not_or] at absent
      rw [others r absent.2, changes.others r absent.1]

theorem closingLoop_calm {nodes : List SocketId} (chain : Chain ip.tcpNext first nodes none)
    (waits : ∀ r ∈ nodes, (ip.tcpSocket r).state = .timeWait →
      ip.stayed (ip.tcpSocket r) tcpMslTicks = false)
    (loops : closingLoop turns ip prev first = some ip') : ip' = ip := by
  induction turns generalizing prev first nodes with
  | zero => contradiction
  | succ turns ih =>
    cases nodes with
    | nil =>
      have ends := Chain.nil_iff.mp chain
      subst ends
      cases loops
      rfl
    | cons s nodes =>
      obtain ⟨rfl, rest⟩ := Chain.cons_iff.mp chain
      rw [closingLoop] at loops
      split at loops
      · contradiction
      rename_i state
      have early := waits s mem_cons_self (not_not.mp state)
      simp only [expire, early, Bool.false_eq_true, if_false, Option.bind_eq_bind,
        Option.bind_some] at loops
      exact ih rest (fun r member => waits r (mem_cons_of_mem _ member)) loops

/-- No socket breaks the lists at the next tick of the slow timer. -/
def TimerOrderly (ip : Ip) : Prop :=
  ∀ s, ip.tcpAlive s = true → ip.ticked.Calm s

theorem tcpSlowtmr_wellListed (listed : ip.WellListed lists) (orderly : ip.TimerOrderly)
    (ticks : tcpSlowtmr turns ip = some (ip', processed)) :
    processed = lists .active ∧ (∃ lists', ip'.WellListed lists') ∧
      (∀ r, r ∉ processed → ip'.tcpSocket r = ip.tcpSocket r) ∧
      Grows ip ip' ∧ ip'.tcpAlive = ip.tcpAlive ∧ ∀ r, Ages r ip ip' := by
  obtain ⟨walked, loops, closes⟩ := tcpSlowtmr_loops ticks
  have listedTicked : ip.ticked.WellListed lists :=
    listed.touches (s := 0) (touches_rest rfl rfl (List.Subset.refl _))
  have walks : ip.ticked.Walks lists [] (lists .active) none ip.ticked.tcpSockets := by
    refine ⟨listedTicked, rfl, fun _ => rfl, listedTicked.threaded .active, fun s member => ?_,
      fun s alive state => ?_⟩
    · exact orderly s ((listed.filed .active s).mp member).1
    · exact (orderly s alive).waits state
  obtain ⟨rfl, ⟨lists', listed'⟩, waits, others, grows, alive, ages⟩ :=
    slowLoop_walks walks loops
  have chain := listed'.threaded .closing
  have closed := closingLoop_calm chain
    (fun r member => waits r ((listed'.filed .closing r).mp member).1) closes
  subst closed
  refine ⟨rfl, ⟨lists', listed'⟩, others, ?_, alive, ages⟩
  exact ⟨grows.tcpFresh, grows.arrived, grows.tcpAlive⟩

end Ip
end Uos
