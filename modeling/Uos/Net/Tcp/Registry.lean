import Uos.Library.Chains
import Uos.Net.Tcp.Effects

/-!
# The lists of TCP sockets and their states

The axioms about the lists in `net/tcp.h`: a socket is in the list that its state says, and in no
other one.
-/

namespace Uos

open Function List

namespace Ip

/-- The pointers thread the sockets of the lists. -/
def Threaded (ip : Ip) (lists : TcpList → List SocketId) : Prop :=
  ∀ list, Chain ip.tcpNext (ip.head list) (lists list) none

/-- Whether a socket belongs to a list. -/
def Belongs (ip : Ip) (list : TcpList) (s : SocketId) : Prop :=
  ip.tcpAlive s = true ∧ list.Holds (ip.tcpSocket s).state

/-- Every socket is where it belongs. -/
structure WellListed (ip : Ip) (lists : TcpList → List SocketId) : Prop where
  threaded : ip.Threaded lists
  filed : ∀ list s, s ∈ lists list ↔ ip.Belongs list s
  fresh : ∀ s, ip.tcpAlive s = true → s < ip.tcpFresh

/-- One socket is in no list, and every other one is where it belongs. -/
structure Outside (s : SocketId) (ip : Ip) (lists : TcpList → List SocketId) : Prop where
  threaded : ip.Threaded lists
  absent : ∀ list, s ∉ lists list
  filed : ∀ list r, r ≠ s → (r ∈ lists list ↔ ip.Belongs list r)
  fresh : ∀ r, r ≠ s → ip.tcpAlive r = true → r < ip.tcpFresh

variable {rules : TcpRules} {ip ip' : Ip} {s r : SocketId} {turns bound : Nat}
  {lists : TcpList → List SocketId} {list : TcpList} {prev : Option SocketId}

theorem holds_unique {list other : TcpList} {state : TcpState} (holds : list.Holds state)
    (also : other.Holds state) : list = other := by
  cases list <;> cases other <;> simp_all [TcpList.Holds]

theorem not_holds_closed (list : TcpList) : ¬list.Holds .closed := by
  cases list <;> simp [TcpList.Holds]

theorem Threaded.congr (threaded : ip.Threaded lists) (same : ip'.links = ip.links) :
    ip'.Threaded lists := by
  have next : ip'.tcpNext = ip.tcpNext := congrArg TcpLinks.tcpNext same
  intro list
  have chain := threaded list
  rw [next]
  cases list
  · rwa [head, show ip'.tcpListenSockets = ip.tcpListenSockets from
      congrArg TcpLinks.tcpListenSockets same]
  · rwa [head, show ip'.tcpSockets = ip.tcpSockets from congrArg TcpLinks.tcpSockets same]
  · rwa [head, show ip'.tcpClosingSockets = ip.tcpClosingSockets from
      congrArg TcpLinks.tcpClosingSockets same]

theorem setNext_head (ip : Ip) (s : SocketId) (next : Option SocketId) (list : TcpList) :
    (ip.setNext s next).head list = ip.head list := by
  cases list <;> rfl

theorem setHead_tcpNext (ip : Ip) (list : TcpList) (first : Option SocketId) :
    (ip.setHead list first).tcpNext = ip.tcpNext := by
  cases list <;> rfl

theorem setHead_other {list other : TcpList} (ip : Ip) (first : Option SocketId)
    (different : other ≠ list) : (ip.setHead list first).head other = ip.head other := by
  cases list <;> cases other <;> first | rfl | contradiction

/-- A `next` pointer of a socket that is in no list may change. -/
theorem Threaded.setNext (threaded : ip.Threaded lists) (absent : ∀ list, s ∉ lists list)
    (next : Option SocketId) : (ip.setNext s next).Threaded lists := by
  intro list
  rw [setNext_head]
  exact (threaded list).update (absent list)

variable {nodes : List SocketId}

theorem Threaded.replace (threaded : ip.Threaded lists)
    (chain : Chain ip'.tcpNext (ip'.head list) nodes none) (rest : ∀ other, other ≠ list →
      Chain ip.tcpNext (ip.head other) (lists other) none →
        Chain ip'.tcpNext (ip'.head other) (lists other) none) :
    ip'.Threaded (Function.update lists list nodes) := by
  intro other
  rcases eq_or_ne other list with rfl | different
  · rwa [update_self]
  · rw [update_of_ne different]
    exact rest other different (threaded other)

/-- `tcp_list_add` puts a socket in front. -/
theorem Threaded.add (threaded : ip.Threaded lists) (absent : ∀ list, s ∉ lists list)
    (list : TcpList) :
    (ip.tcpListAdd list s).Threaded (Function.update lists list (s :: lists list)) := by
  apply threaded.replace
  · rw [tcpListAdd, setHead_head, setHead_tcpNext]
    exact (threaded list).push (absent list)
  · intro other different chain
    rw [tcpListAdd, setHead_other _ _ different, setHead_tcpNext, setNext_head]
    exact chain.update (absent other)

/-- What `tcp_list_remove` finds. -/
theorem findBefore_spec {first before : Option SocketId} (chain : Chain ip.tcpNext first nodes none)
    (finds : ip.findBefore s turns first = some before) :
    (∃ p ∈ nodes, before = some p ∧ ip.tcpNext p = some s) ∨
      before = none ∧ ∀ p ∈ nodes, ip.tcpNext p ≠ some s := by
  induction turns generalizing first nodes with
  | zero => contradiction
  | succ turns ih =>
    cases nodes with
    | nil =>
      rw [Chain.nil_iff] at chain
      subst chain
      cases finds
      exact .inr ⟨rfl, by simp⟩
    | cons p nodes =>
      obtain ⟨rfl, rest⟩ := Chain.cons_iff.mp chain
      rw [findBefore] at finds
      split at finds
      · rename_i link
        cases finds
        exact .inl ⟨p, mem_cons_self, rfl, link⟩
      · rename_i other
        rcases ih rest finds with ⟨q, member, found, link⟩ | ⟨found, absent⟩
        · exact .inl ⟨q, mem_cons_of_mem _ member, found, link⟩
        · refine .inr ⟨found, fun q member => ?_⟩
          rcases mem_cons.mp member with rfl | later
          · exact other
          · exact absent q later

theorem Threaded.takeOut {p : SocketId} (threaded : ip.Threaded lists) (member : p ∈ lists list)
    (elsewhere : ∀ other, other ≠ list → p ∉ lists other) (link : ip.tcpNext p = some s) :
    (ip.setNext p (ip.tcpNext s)).Threaded
      (Function.update lists list ((lists list).erase s)) := by
  apply threaded.replace
  · rw [setNext_head]
    exact (threaded list).takeOut member link
  · intro other different chain
    rw [setNext_head]
    exact chain.update (elsewhere other different)

theorem Threaded.takeFirst (threaded : ip.Threaded lists) (first : ip.head list = some s) :
    (ip.setHead list (ip.tcpNext s)).Threaded
      (Function.update lists list ((lists list).erase s)) := by
  apply threaded.replace
  · rw [setHead_head, setHead_tcpNext]
    have chain := threaded list
    rw [first] at chain
    exact chain.takeFirst
  · intro other different chain
    rwa [setHead_other _ _ different, setHead_tcpNext]

/-- No socket is in two lists. -/
def Disjoint (lists : TcpList → List SocketId) : Prop :=
  ∀ list other s, s ∈ lists list → s ∈ lists other → list = other

theorem Threaded.absent_erase (threaded : ip.Threaded lists)
    (elsewhere : ∀ other, other ≠ list → s ∉ lists other) (other : TcpList) :
    s ∉ Function.update lists list ((lists list).erase s) other := by
  rcases eq_or_ne other list with rfl | different
  · rw [update_self]
    exact (threaded other).nodup.not_mem_erase
  · rw [update_of_ne different]
    exact elsewhere other different

/-- `tcp_list_remove` takes a socket out of a list, if it is there. -/
theorem Threaded.remove (threaded : ip.Threaded lists) (disjoint : Disjoint lists)
    (elsewhere : ∀ other, other ≠ list → s ∉ lists other)
    (removes : tcpListRemove turns ip list s = some ip') :
    ip'.Threaded (Function.update lists list ((lists list).erase s)) := by
  have absent := threaded.absent_erase elsewhere
  simp only [tcpListRemove] at removes
  split at removes
  · rename_i first
    cases removes
    exact (threaded.takeFirst first).setNext absent none
  rename_i notFirst
  split at removes
  · contradiction
  · rename_i finds
    cases removes
    rcases findBefore_spec (threaded list) finds with ⟨p, -, found, -⟩ | ⟨-, alone⟩
    · contradiction
    -- The socket is not in the list.
    have notMember : s ∉ lists list := by
      intro member
      rcases (threaded list).precedes member with first | ⟨p, found, link⟩
      · exact notFirst first
      · exact alone p found link
    have same : Function.update lists list ((lists list).erase s) = lists := by
      rw [erase_of_not_mem notMember, update_eq_self]
    rw [same] at absent ⊢
    exact threaded.setNext absent none
  · rename_i p finds
    cases removes
    rcases findBefore_spec (threaded list) finds with ⟨q, member, found, link⟩ | ⟨found, -⟩
    · cases found
      have taken := threaded.takeOut member
        (fun other different also => different (disjoint _ _ _ also member)) link
      exact taken.setNext absent none
    · contradiction

theorem WellListed.disjoint (listed : ip.WellListed lists) : Disjoint lists :=
  fun list other s member also =>
    holds_unique ((listed.filed list s).mp member).2 ((listed.filed other s).mp also).2

theorem Outside.alters (outside : Outside s ip lists) (alters : Alters s ip ip') :
    Outside s ip' lists := by
  refine ⟨outside.threaded.congr alters.links, outside.absent, fun list r other => ?_,
    fun r other => ?_⟩
  · rw [outside.filed list r other, Belongs, Belongs, alters.changes.tcpAlive,
      alters.others r other]
  · rw [alters.changes.tcpAlive, alters.changes.tcpFresh]
    exact outside.fresh r other

theorem WellListed.alters (listed : ip.WellListed lists) (alters : Alters s ip ip')
    (kept : ∀ list : TcpList,
      list.Holds (ip'.tcpSocket s).state ↔ list.Holds (ip.tcpSocket s).state) :
    ip'.WellListed lists := by
  refine ⟨listed.threaded.congr alters.links, fun list r => ?_, fun r alive => ?_⟩
  · rw [listed.filed list r, Belongs, Belongs, alters.changes.tcpAlive]
    rcases eq_or_ne r s with rfl | other
    · rw [kept]
    · rw [alters.others r other]
  · rw [alters.changes.tcpAlive] at alive
    rw [alters.changes.tcpFresh]
    exact listed.fresh r alive

theorem WellListed.touches (listed : ip.WellListed lists) (touches : Touches s ip ip') :
    ip'.WellListed lists :=
  listed.alters touches.toAlters fun list => by rw [touches.state]

theorem Outside.settle (outside : Outside s ip lists) (nowhere : ∀ list, ¬ip.Belongs list s)
    (fresh : ip.tcpAlive s = true → s < ip.tcpFresh) : ip.WellListed lists := by
  refine ⟨outside.threaded, fun list r => ?_, fun r alive => ?_⟩
  · rcases eq_or_ne r s with rfl | other
    · exact iff_of_false (outside.absent list) (nowhere list)
    · exact outside.filed list r other
  · rcases eq_or_ne r s with rfl | other
    · exact fresh alive
    · exact outside.fresh r other alive

theorem Outside.closed (outside : Outside s ip lists)
    (closed : (ip.tcpSocket s).state = .closed)
    (fresh : ip.tcpAlive s = true → s < ip.tcpFresh) : ip.WellListed lists :=
  outside.settle (fun list belongs => not_holds_closed list (closed ▸ belongs.2)) fresh

theorem WellListed.outside (listed : ip.WellListed lists)
    (closed : (ip.tcpSocket s).state = .closed) : Outside s ip lists := by
  refine ⟨listed.threaded, fun list member => ?_, fun list r _ => listed.filed list r,
    fun r _ => listed.fresh r⟩
  have holds := ((listed.filed list s).mp member).2
  rw [closed] at holds
  exact not_holds_closed list holds

theorem freeSocket_head (ip : Ip) (s : SocketId) (list : TcpList) :
    (ip.freeSocket s).head list = ip.head list := by
  cases list <;> rfl

theorem Outside.free (outside : Outside s ip lists) : (ip.freeSocket s).WellListed lists := by
  have dead : (ip.freeSocket s).tcpAlive s ≠ true := by simp [freeSocket]
  have alive {r : SocketId} (other : r ≠ s) :
      (ip.freeSocket s).tcpAlive r = ip.tcpAlive r :=
    update_of_ne other _ _
  refine Outside.settle ⟨fun list => ?_, outside.absent, fun list r other => ?_,
    fun r other lives => ?_⟩ (fun list belongs => dead belongs.1) fun lives => absurd lives dead
  · rw [freeSocket_head]
    exact outside.threaded list
  · rw [outside.filed list r other, Belongs, Belongs, alive other]
    rfl
  · rw [alive other] at lives
    exact outside.fresh r other lives

theorem Outside.add (outside : Outside s ip lists) (belongs : ip.Belongs list s)
    (fresh : s < ip.tcpFresh) :
    (ip.tcpListAdd list s).WellListed (Function.update lists list (s :: lists list)) := by
  have relinks := tcpListAdd_relinks ip list s
  refine ⟨outside.threaded.add outside.absent list, fun other r => ?_, fun r alive => ?_⟩
  · rw [Belongs, relinks.tcpAlive, relinks.tcpSocket]
    rcases eq_or_ne r s with rfl | different
    · rcases eq_or_ne other list with rfl | elsewhere
      · rw [update_self]
        exact iff_of_true mem_cons_self belongs
      · rw [update_of_ne elsewhere]
        exact iff_of_false (outside.absent other) fun also =>
          elsewhere (holds_unique also.2 belongs.2)
    · refine Iff.trans ?_ (outside.filed other r different)
      rcases eq_or_ne other list with rfl | elsewhere
      · rw [update_self, mem_cons]
        exact or_iff_right different
      · rw [update_of_ne elsewhere]
  · rw [relinks.tcpAlive] at alive
    rw [relinks.tcpFresh]
    rcases eq_or_ne r s with rfl | different
    · exact fresh
    · exact outside.fresh r different alive

theorem WellListed.erase (listed : ip.WellListed lists) (changes : Changes s ip ip')
    (elsewhere : ∀ other, other ≠ list → s ∉ lists other)
    (threaded : ip'.Threaded (Function.update lists list ((lists list).erase s))) :
    Outside s ip' (Function.update lists list ((lists list).erase s)) := by
  refine ⟨threaded, listed.threaded.absent_erase elsewhere, fun other r different => ?_,
    fun r _ alive => ?_⟩
  · rw [Belongs, changes.tcpAlive, changes.others r different, ← Belongs, ← listed.filed other r]
    rcases eq_or_ne other list with rfl | elsewhere
    · rw [update_self]
      exact mem_erase_of_ne different
    · rw [update_of_ne elsewhere]
  · rw [changes.tcpAlive] at alive
    rw [changes.tcpFresh]
    exact listed.fresh r alive

theorem WellListed.elsewhere (listed : ip.WellListed lists)
    (place : (ip.tcpSocket s).state = .closed ∨ list.Holds (ip.tcpSocket s).state) :
    ∀ other, other ≠ list → s ∉ lists other := by
  intro other different member
  have holds := ((listed.filed other s).mp member).2
  rcases place with closed | also
  · exact not_holds_closed other (closed ▸ holds)
  · exact different (holds_unique holds also)

/-- `tcp_list_remove`, with the list that the state says. -/
theorem WellListed.remove (listed : ip.WellListed lists)
    (place : (ip.tcpSocket s).state = .closed ∨ list.Holds (ip.tcpSocket s).state)
    (removes : tcpListRemove turns ip list s = some ip') :
    Outside s ip' (Function.update lists list ((lists list).erase s)) :=
  listed.erase ((tcpListRemove_relinks removes).changes s) (listed.elsewhere place)
    (listed.threaded.remove listed.disjoint (listed.elsewhere place) removes)

theorem withSocket_head (ip : Ip) (list : TcpList) : ip.withSocket.head list = ip.head list := by
  cases list <;> rfl

theorem WellListed.withSocket (listed : ip.WellListed lists) :
    Outside ip.tcpFresh ip.withSocket lists := by
  have unborn : ip.tcpAlive ip.tcpFresh ≠ true :=
    fun alive => lt_irrefl _ (listed.fresh ip.tcpFresh alive)
  refine ⟨fun list => ?_, fun list member => unborn ((listed.filed list _).mp member).1,
    fun list r other => ?_, fun r other alive => ?_⟩
  · rw [withSocket_head]
    exact listed.threaded list
  · obtain ⟨socket, alive⟩ := ip.withSocket_other other
    rw [listed.filed list r, Belongs, Belongs, socket, alive]
  · rw [(ip.withSocket_other other).2] at alive
    exact (listed.fresh r alive).trans (Nat.lt_succ_self _)

theorem withSocket_alive (ip : Ip) : ip.withSocket.tcpAlive ip.tcpFresh = true := by
  simp [withSocket]

theorem withSocket_fresh (ip : Ip) : ip.tcpFresh < ip.withSocket.tcpFresh :=
  Nat.lt_succ_self _

theorem searchList_passes {valid wanted : TcpSocket → Bool} {first before : Option SocketId}
    (chain : Chain ip.tcpNext first nodes none)
    (finds : ip.searchList valid wanted turns before first = some (some (prev, s))) :
    s ∈ nodes ∧ (prev = before ∧ first = some s ∨
      ∃ p ∈ nodes, prev = some p ∧ ip.tcpNext p = some s) := by
  induction turns generalizing first nodes before with
  | zero => contradiction
  | succ turns ih =>
    cases nodes with
    | nil =>
      rw [Chain.nil_iff] at chain
      subst chain
      simp [searchList] at finds
    | cons p nodes =>
      obtain ⟨rfl, rest⟩ := Chain.cons_iff.mp chain
      rw [searchList] at finds
      split at finds
      · contradiction
      split at finds
      · cases finds
        exact ⟨mem_cons_self, .inl ⟨rfl, rfl⟩⟩
      · obtain ⟨member, place⟩ := ih rest finds
        refine ⟨mem_cons_of_mem _ member, .inr ?_⟩
        rcases place with ⟨found, link⟩ | ⟨q, later, found, link⟩
        · exact ⟨p, mem_cons_self, found, link⟩
        · exact ⟨q, mem_cons_of_mem _ later, found, link⟩

theorem WellListed.front {valid wanted : TcpSocket → Bool} (listed : ip.WellListed lists)
    (finds : ip.searchList valid wanted turns none (ip.head list) = some (some (prev, s))) :
    ∃ lists', (ip.moveToFront list prev s).WellListed lists' := by
  obtain ⟨member, place⟩ := searchList_passes (listed.threaded list) finds
  have belongs := (listed.filed list s).mp member
  rcases place with ⟨rfl, -⟩ | ⟨p, before, rfl, link⟩
  · exact ⟨lists, listed⟩
  have elsewhere := listed.elsewhere (.inr belongs.2)
  have taken := listed.threaded.takeOut before
    (fun other different also => different (listed.disjoint _ _ _ also before)) link
  have outside := listed.erase ((setNext_relinks ip p _).changes s) elsewhere taken
  exact ⟨_, outside.add belongs (listed.fresh s belongs.1)⟩

theorem WellListed.socketRemove (listed : ip.WellListed lists)
    (place : (ip.tcpSocket s).state = .closed ∨ list.Holds (ip.tcpSocket s).state)
    (removes : tcpSocketRemove turns ip list s = some ip') :
    ∃ lists', ip'.WellListed lists' := by
  simp only [tcpSocketRemove, Option.bind_eq_bind, Option.bind_eq_some_iff,
    Option.some.injEq] at removes
  obtain ⟨unlinked, unlinks, flushed, flushes, rfl⟩ := removes
  have outside := listed.remove place unlinks
  have relinks := tcpListRemove_relinks unlinks
  have touches : Touches s unlinked flushed :=
    (tcpSocketPurge_touches unlinked s).trans (flushAck_touches flushes)
  have settled : Outside s (flushed.tcpSetSocketState s .closed)
      (Function.update lists list ((lists list).erase s)) :=
    outside.alters (touches.toAlters.trans (alters_setTcp flushed s _))
  refine ⟨_, settled.closed (by simp [tcpSetSocketState]) fun alive => ?_⟩
  have same : flushed.tcpAlive = ip.tcpAlive := touches.changes.tcpAlive.trans relinks.tcpAlive
  have sameFresh : flushed.tcpFresh = ip.tcpFresh :=
    touches.changes.tcpFresh.trans relinks.tcpFresh
  have lives : ip.tcpAlive s = true := by
    rw [← same]
    exact alive
  exact (listed.fresh s lives).trans_eq sameFresh.symm

theorem WellListed.toClosing (listed : ip.WellListed lists) (belongs : ip.Belongs .active s)
    (moves : moveToClosing turns ip s = some ip') :
    ∃ lists', ip'.WellListed lists' := by
  simp only [moveToClosing, Option.bind_eq_bind, Option.bind_eq_some_iff,
    Option.some.injEq] at moves
  obtain ⟨next, removes, rfl⟩ := moves
  have outside := listed.remove (.inr belongs.2) removes
  have relinks := tcpListRemove_relinks removes
  have settled : Outside s (next.tcpSetSocketState s .timeWait) _ :=
    outside.alters (alters_setTcp next s _)
  have closing : (next.tcpSetSocketState s .timeWait).Belongs .closing s := by
    refine ⟨(congrFun relinks.tcpAlive s).trans belongs.1, ?_⟩
    simp [tcpSetSocketState, TcpList.Holds]
  refine ⟨_, settled.add closing ?_⟩
  exact (listed.fresh s belongs.1).trans_eq relinks.tcpFresh.symm

theorem Opens.holds {change : TcpSocket → TcpSocket} {first : Ip}
    (opens : Opens rules first list change) (socket : TcpSocket) :
    list.Holds (change socket).state := by
  cases opens <;> simp [TcpSocket.connecting, TcpSocket.accepting, listening, TcpList.Holds]

theorem Move.wellListed (orderly : rules.orderly) (move : Move rules s ip ip')
    (listed : ip.WellListed lists) : ∃ lists', ip'.WellListed lists' := by
  cases move with
  | touch touches => exact ⟨lists, listed.touches touches⟩
  | front finds => exact listed.front finds
  | request _ _ _ _ =>
    refine ⟨lists, listed.alters (alters_setTcp ip s _) fun list => ?_⟩
    rw [updateTcp_self]
  | complete alters _ _ _ state identity _ =>
    refine ⟨lists, listed.alters alters fun list => ?_⟩
    have opened : (ip'.tcpSocket s).state = .established := congrArg TcpIdentity.state identity
    rw [opened, state]
    cases list <;> simp [TcpList.Holds]
  | @advance _ _ state active later _ =>
    refine ⟨lists, listed.alters (alters_setTcp ip s _) fun list => ?_⟩
    rw [tcpSetSocketState, updateTcp_self]
    have held := isActive_holds.mp (active orderly)
    obtain ⟨closed, listen, -, -, timeWait⟩ := later
    have holds : TcpList.active.Holds state := ⟨closed, timeWait, listen⟩
    constructor
    · intro also
      rwa [holds_unique also holds]
    · intro also
      rwa [holds_unique also held]
  | enterClosing head active moves =>
    have chain := listed.threaded .active
    rw [Ip.head, head] at chain
    exact listed.toClosing ((listed.filed .active s).mp chain.first_mem) moves
  | remove place removes => exact listed.socketRemove (place orderly) removes
  | enroll allocates opens touches =>
    rename_i first mid list change
    have alters : Alters ip.tcpFresh ip.withSocket mid :=
      allocates.toAlters.trans ((alters_setTcp first ip.tcpFresh _).trans touches.toAlters)
    have outside := listed.withSocket.alters alters
    have state := touches.state
    rw [updateTcp_self] at state
    have belongs : mid.Belongs list ip.tcpFresh := by
      refine ⟨?_, ?_⟩
      · rw [alters.changes.tcpAlive]
        exact ip.withSocket_alive
      · rw [state]
        exact opens.holds _
    refine ⟨_, outside.add belongs ?_⟩
    · rw [alters.changes.tcpFresh]
      exact ip.withSocket_fresh
  | discard alters => exact ⟨lists, (listed.withSocket.alters alters).free⟩
  | free closed => exact ⟨lists, (listed.outside closed).free⟩

end Ip
end Uos
