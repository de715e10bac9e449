import Uos.Net.Tcp.Transitions

/-!
# What the moves of TCP change

A move changes the record of one socket, and sockets are neither revived nor used again.
-/

namespace Uos

open Function Option

namespace Ip

/-- The record of one socket, the pointers and the segments that arrived are all that was
changed. -/
structure Changes (s : SocketId) (ip ip' : Ip) : Prop where
  others : ∀ r, r ≠ s → ip'.tcpSocket r = ip.tcpSocket r
  tcpAlive : ip'.tcpAlive = ip.tcpAlive
  tcpFresh : ip'.tcpFresh = ip.tcpFresh
  arrived : ip.arrived ⊆ ip'.arrived

/-- The pointers are all that was changed. -/
structure Relinks (ip ip' : Ip) : Prop where
  tcpSocket : ip'.tcpSocket = ip.tcpSocket
  tcpAlive : ip'.tcpAlive = ip.tcpAlive
  tcpFresh : ip'.tcpFresh = ip.tcpFresh
  arrived : ip'.arrived = ip.arrived
  tcpTicks : ip'.tcpTicks = ip.tcpTicks

variable {rules : TcpRules} {ip ip' ip'' : Ip} {s r : SocketId} {turns bound : Nat}
  {list : TcpList} {prev prev' : Option SocketId}

theorem Changes.trans (first : Changes s ip ip') (second : Changes s ip' ip'') :
    Changes s ip ip'' := by
  refine ⟨fun r other => ?_, second.tcpAlive.trans first.tcpAlive,
    second.tcpFresh.trans first.tcpFresh, List.Subset.trans first.arrived second.arrived⟩
  rw [second.others r other, first.others r other]

theorem Relinks.trans (first : Relinks ip ip') (second : Relinks ip' ip'') : Relinks ip ip'' :=
  ⟨second.tcpSocket.trans first.tcpSocket, second.tcpAlive.trans first.tcpAlive,
    second.tcpFresh.trans first.tcpFresh, second.arrived.trans first.arrived,
    second.tcpTicks.trans first.tcpTicks⟩

theorem Relinks.changes (relinks : Relinks ip ip') (s : SocketId) : Changes s ip ip' := by
  refine ⟨fun r _ => congrFun relinks.tcpSocket r, relinks.tcpAlive, relinks.tcpFresh, ?_⟩
  rw [relinks.arrived]
  exact List.Subset.refl _

theorem Alters.changes (alters : Alters s ip ip') : Changes s ip ip' :=
  ⟨alters.others, congrArg TcpLinks.tcpAlive alters.links,
    congrArg TcpLinks.tcpFresh alters.links, alters.arrived⟩

theorem setNext_relinks (ip : Ip) (s : SocketId) (next : Option SocketId) :
    Relinks ip (ip.setNext s next) :=
  ⟨rfl, rfl, rfl, rfl, rfl⟩

theorem setHead_relinks (ip : Ip) (list : TcpList) (first : Option SocketId) :
    Relinks ip (ip.setHead list first) := by
  cases list <;> exact ⟨rfl, rfl, rfl, rfl, rfl⟩

theorem tcpListAdd_relinks (ip : Ip) (list : TcpList) (s : SocketId) :
    Relinks ip (ip.tcpListAdd list s) :=
  (setNext_relinks ip s _).trans (setHead_relinks _ list _)

theorem tcpListRemove_relinks (removes : tcpListRemove turns ip list s = some ip') :
    Relinks ip ip' := by
  simp only [tcpListRemove] at removes
  split at removes
  · cases removes
    exact (setHead_relinks ip list _).trans (setNext_relinks _ s _)
  split at removes
  · contradiction
  · cases removes
    exact setNext_relinks ip s _
  · cases removes
    exact (setNext_relinks ip _ _).trans (setNext_relinks _ s _)

theorem unlinkBehind_relinks (unlinks : ip.unlinkBehind list prev s = some ip') :
    Relinks ip ip' := by
  cases prev with
  | none =>
    simp only [unlinkBehind] at unlinks
    split at unlinks
    · cases unlinks
      exact setHead_relinks ip list _
    · contradiction
  | some prev =>
    simp only [unlinkBehind] at unlinks
    split at unlinks
    · contradiction
    · cases unlinks
      exact setNext_relinks ip _ _

theorem moveToFront_relinks (ip : Ip) (list : TcpList) (prev : Option SocketId) (s : SocketId) :
    Relinks ip (ip.moveToFront list prev s) := by
  cases prev with
  | none => exact ⟨rfl, rfl, rfl, rfl, rfl⟩
  | some prev =>
    exact (setNext_relinks ip prev _).trans
      ((setNext_relinks _ s _).trans (setHead_relinks _ list _))

theorem moveToClosing_changes (moves : moveToClosing turns ip s = some ip') :
    Changes s ip ip' ∧ ip'.tcpSocket s = (ip.tcpSetSocketState s .timeWait).tcpSocket s ∧
      ip'.tcpTicks = ip.tcpTicks := by
  simp only [moveToClosing, bind_eq_bind, bind_eq_some_iff,
    Option.some.injEq] at moves
  obtain ⟨next, removes, rfl⟩ := moves
  have removed := tcpListRemove_relinks removes
  have added := tcpListAdd_relinks (next.tcpSetSocketState s .timeWait) .closing s
  refine ⟨.trans (removed.changes s) (.trans ?_ (added.changes s)), ?_,
    added.tcpTicks.trans removed.tcpTicks⟩
  · exact (alters_setTcp next s _).changes
  · rw [added.tcpSocket, tcpSetSocketState, tcpSetSocketState, updateTcp_self, updateTcp_self,
      removed.tcpSocket]

theorem identity_setState (ip : Ip) (s : SocketId) (state : TcpState) :
    ((ip.tcpSetSocketState s state).tcpSocket s).identity =
      { (ip.tcpSocket s).identity with
        state
        opened := (ip.tcpSocket s).history.opened || state = .established } := by
  rw [tcpSetSocketState, updateTcp_self]
  rfl

theorem tcpSocketRemove_changes (removes : tcpSocketRemove turns ip list s = some ip') :
    Changes s ip ip' ∧
      (ip'.tcpSocket s).identity = { (ip.tcpSocket s).identity with state := .closed } ∧
      ((ip.tcpSocket s).localIp = .any ∨
        (ip'.tcpSocket s).localIp = (ip.tcpSocket s).localIp) := by
  simp only [tcpSocketRemove, bind_eq_bind, bind_eq_some_iff,
    Option.some.injEq] at removes
  obtain ⟨unlinked, unlinks, flushed, flushes, rfl⟩ := removes
  have removed := tcpListRemove_relinks unlinks
  have touched : Touches s unlinked flushed :=
    (tcpSocketPurge_touches unlinked s).trans (flushAck_touches flushes)
  refine ⟨?_, ?_, ?_⟩
  · refine .trans (removed.changes s) (.trans touched.changes ?_)
    exact (alters_setTcp flushed s _).changes
  · have opened : (flushed.tcpSocket s).history.opened = (ip.tcpSocket s).history.opened := by
      rw [← removed.tcpSocket]
      exact congrArg TcpIdentity.opened touched.identity
    rw [identity_setState, touched.identity, opened, removed.tcpSocket]
    simp [TcpSocket.identity, TcpSocket.connection, TcpReceiver.connection,
      TcpConnection.identity, TcpSocket.receiver]
  · have kept := touched.localIp
    rw [removed.tcpSocket] at kept
    rw [tcpSetSocketState, updateTcp_self]
    exact kept

/-- Sockets get new addresses, and are not used again when they were freed. -/
structure Grows (ip ip' : Ip) : Prop where
  tcpFresh : ip.tcpFresh ≤ ip'.tcpFresh
  arrived : ip.arrived ⊆ ip'.arrived
  tcpAlive : ∀ r, r < ip.tcpFresh → ip'.tcpAlive r = true → ip.tcpAlive r = true

theorem Grows.refl (ip : Ip) : Grows ip ip :=
  ⟨le_refl _, List.Subset.refl _, fun _ _ alive => alive⟩

theorem Grows.trans (first : Grows ip ip') (second : Grows ip' ip'') : Grows ip ip'' := by
  refine ⟨first.tcpFresh.trans second.tcpFresh, List.Subset.trans first.arrived second.arrived,
    fun r old alive => ?_⟩
  exact first.tcpAlive r old (second.tcpAlive r (old.trans_le first.tcpFresh) alive)

theorem Changes.grows (changes : Changes s ip ip') : Grows ip ip' := by
  refine ⟨changes.tcpFresh.symm.le, changes.arrived, fun r _ alive => ?_⟩
  rwa [changes.tcpAlive] at alive

/-- A new socket is all that was changed. -/
structure Creates (s : SocketId) (ip ip' : Ip) : Prop where
  new : s = ip.tcpFresh
  others : ∀ r, r ≠ s → ip'.tcpSocket r = ip.tcpSocket r
  tcpAlive : ∀ r, r ≠ s → ip'.tcpAlive r = ip.tcpAlive r
  tcpFresh : ip'.tcpFresh = ip.tcpFresh + 1
  arrived : ip.arrived ⊆ ip'.arrived

theorem withSocket_other (ip : Ip) (other : r ≠ ip.tcpFresh) :
    ip.withSocket.tcpSocket r = ip.tcpSocket r ∧ ip.withSocket.tcpAlive r = ip.tcpAlive r :=
  ⟨update_of_ne other _ _, update_of_ne other _ _⟩

theorem Alters.creates (alters : Alters ip.tcpFresh ip.withSocket ip') :
    Creates ip.tcpFresh ip ip' := by
  refine ⟨rfl, fun r other => ?_, fun r other => ?_, alters.changes.tcpFresh, alters.arrived⟩
  · rw [alters.others r other, (ip.withSocket_other other).1]
  · rw [alters.changes.tcpAlive, (ip.withSocket_other other).2]

theorem Creates.relinks (creates : Creates s ip ip') (relinks : Relinks ip' ip'') :
    Creates s ip ip'' := by
  obtain ⟨new, others, alive, fresh, arrived⟩ := creates
  refine ⟨new, ?_, ?_, relinks.tcpFresh.trans fresh, ?_⟩
  · rwa [relinks.tcpSocket]
  · rwa [relinks.tcpAlive]
  · rwa [relinks.arrived]

theorem Creates.free (creates : Creates s ip ip') : Creates s ip (ip'.freeSocket s) := by
  obtain ⟨new, others, alive, fresh, arrived⟩ := creates
  refine ⟨new, others, fun r other => ?_, fresh, arrived⟩
  rw [← alive r other]
  exact update_of_ne other _ _

theorem enroll_creates {first mid : Ip} {change : TcpSocket → TcpSocket}
    (allocates : Touches ip.tcpFresh ip.withSocket first)
    (touches : Touches ip.tcpFresh (first.updateTcp ip.tcpFresh change) mid)
    (list : TcpList) : Creates ip.tcpFresh ip (mid.tcpListAdd list ip.tcpFresh) := by
  have alters : Alters ip.tcpFresh ip.withSocket mid :=
    allocates.toAlters.trans ((alters_setTcp first ip.tcpFresh _).trans touches.toAlters)
  exact alters.creates.relinks (tcpListAdd_relinks mid list ip.tcpFresh)

theorem Move.cases_changes (move : Move rules s ip ip') :
    Changes s ip ip' ∨ Creates s ip ip' ∨ ip' = ip.freeSocket s := by
  cases move with
  | touch touches => exact .inl touches.changes
  | front _ => exact .inl ((moveToFront_relinks ip _ _ s).changes s)
  | request _ _ _ _ => exact .inl (alters_setTcp ip s _).changes
  | complete alters _ _ _ _ _ _ => exact .inl alters.changes
  | advance _ _ _ => exact .inl (alters_setTcp ip s _).changes
  | enterClosing _ _ moves => exact .inl (moveToClosing_changes moves).1
  | remove _ removes => exact .inl (tcpSocketRemove_changes removes).1
  | enroll allocates _ touches => exact .inr (.inl (enroll_creates allocates touches _))
  | discard alters => exact .inr (.inl alters.creates.free)
  | free _ => exact .inr (.inr rfl)

theorem Move.others (move : Move rules s ip ip') (other : r ≠ s) :
    ip'.tcpSocket r = ip.tcpSocket r ∧ ip'.tcpAlive r = ip.tcpAlive r := by
  rcases move.cases_changes with changes | ⟨-, sockets, alive, -⟩ | rfl
  · exact ⟨changes.others r other, congrFun changes.tcpAlive r⟩
  · exact ⟨sockets r other, alive r other⟩
  · exact ⟨rfl, update_of_ne other _ _⟩

theorem Move.grows (move : Move rules s ip ip') : Grows ip ip' := by
  rcases move.cases_changes with changes | ⟨rfl, -, alive, fresh, arrived⟩ | rfl
  · exact changes.grows
  · refine ⟨fresh.symm ▸ Nat.le_succ _, arrived, fun r old lives => ?_⟩
    rwa [alive r old.ne] at lives
  · refine ⟨le_refl _, List.Subset.refl _, fun r _ lives => ?_⟩
    simp only [freeSocket, update_apply] at lives
    split at lives
    · contradiction
    · exact lives

theorem retired_changes (ip : Ip) (s : SocketId) : Changes s ip (ip.retired s) :=
  (tcpSocketPurge_touches ip s).changes.trans (alters_setTcp _ s _).changes

theorem unlinkRetired_changes (unlinks : (ip.retired s).unlinkBehind list prev s = some ip') :
    Changes s ip ip' ∧ ip'.tcpTicks = ip.tcpTicks := by
  have relinks := unlinkBehind_relinks unlinks
  exact ⟨(retired_changes ip s).trans (relinks.changes s), relinks.tcpTicks⟩

theorem SlowTurn.changes (turn : SlowTurn bound prev s ip ip' prev') :
    Changes s ip ip' ∧ ip'.tcpTicks = ip.tcpTicks := by
  have ticks {ip ip' : Ip} (outputs : Outputs s ip ip') : ip'.tcpTicks = ip.tcpTicks :=
    congrArg TcpRegisters.tcpTicks outputs.registers
  cases turn with
  | stays outputs => exact ⟨outputs.touches.changes, ticks outputs⟩
  | moves outputs _ moves =>
    obtain ⟨changes, -, same⟩ := moveToClosing_changes moves
    exact ⟨outputs.touches.changes.trans changes, same.trans (ticks outputs)⟩
  | retires outputs unlinks =>
    obtain ⟨changes, same⟩ := unlinkRetired_changes unlinks
    exact ⟨outputs.touches.changes.trans changes, same.trans (ticks outputs)⟩
  | both outputs _ _ moves unlinks =>
    obtain ⟨changes, -, same⟩ := moveToClosing_changes moves
    obtain ⟨later, kept⟩ := unlinkRetired_changes unlinks
    exact ⟨outputs.touches.changes.trans (changes.trans later),
      kept.trans (same.trans (ticks outputs))⟩

/-- A state that is left for good, and the listening state, which is not reached again. -/
def Ages (r : SocketId) (ip ip' : Ip) : Prop :=
  ((ip.tcpSocket r).state ≠ .listen → (ip'.tcpSocket r).state ≠ .listen) ∧
    ((ip.tcpSocket r).state = .timeWait ∨ (ip.tcpSocket r).state = .closed →
      (ip'.tcpSocket r).state = .timeWait ∨ (ip'.tcpSocket r).state = .closed)

theorem Ages.of_state (same : (ip'.tcpSocket r).state = (ip.tcpSocket r).state) :
    Ages r ip ip' := by
  rw [Ages, same]
  exact ⟨fun other => other, fun ended => ended⟩

theorem Ages.trans (first : Ages r ip ip') (second : Ages r ip' ip'') : Ages r ip ip'' :=
  ⟨second.1 ∘ first.1, second.2 ∘ first.2⟩

theorem Move.ages (orderly : rules.orderly) (move : Move rules s ip ip')
    (old : r < ip.tcpFresh) : Ages r ip ip' := by
  rcases eq_or_ne r s with rfl | other
  swap
  · exact .of_state (congrArg TcpSocket.state (move.others other).1)
  cases move with
  | touch touches => exact .of_state touches.state
  | front _ =>
    exact .of_state (by rw [(moveToFront_relinks ip _ _ r).tcpSocket])
  | request _ _ _ _ => exact .of_state (by rw [updateTcp_self])
  | complete _ _ _ _ state identity _ =>
    have opened : (ip'.tcpSocket r).state = .established := congrArg TcpIdentity.state identity
    simp [Ages, opened, state]
  | advance active later _ =>
    have held := isActive_holds.mp (active orderly)
    rw [Ages, tcpSetSocketState, updateTcp_self]
    exact ⟨fun _ => later.2.1, fun last => absurd last (not_or.mpr ⟨held.2.1, held.1⟩)⟩
  | enterClosing _ _ moves =>
    rw [Ages, (moveToClosing_changes moves).2.1, tcpSetSocketState, updateTcp_self]
    simp
  | remove _ removes =>
    have closed : (ip'.tcpSocket r).state = .closed :=
      congrArg TcpIdentity.state (tcpSocketRemove_changes removes).2.1
    simp [Ages, closed]
  | enroll _ _ _ => exact absurd old (lt_irrefl _)
  | discard _ => exact absurd old (lt_irrefl _)
  | free _ => exact .of_state rfl

variable {sockets : Set SocketId}

theorem Moves.grows (moves : Moves rules sockets ip ip') :
    Grows ip ip' := by
  induction moves with
  | refl => exact .refl ip
  | tail _ last ih =>
    obtain ⟨s, -, move⟩ := last
    exact ih.trans move.grows

theorem Moves.ages (orderly : rules.orderly) (moves : Moves rules sockets ip ip')
    (old : r < ip.tcpFresh) : Ages r ip ip' := by
  induction moves with
  | refl => exact .of_state rfl
  | tail early last ih =>
    obtain ⟨s, -, move⟩ := last
    exact ih.trans (move.ages orderly (old.trans_le (Moves.grows early).tcpFresh))

theorem Moves.others (moves : Moves rules sockets ip ip') (other : r ∉ sockets) :
    ip'.tcpSocket r = ip.tcpSocket r ∧ ip'.tcpAlive r = ip.tcpAlive r := by
  induction moves with
  | refl => exact ⟨rfl, rfl⟩
  | tail _ last ih =>
    obtain ⟨s, member, move⟩ := last
    have different : r ≠ s := fun same => other (same ▸ member)
    obtain ⟨socket, alive⟩ := move.others different
    exact ⟨socket.trans ih.1, alive.trans ih.2⟩

theorem SlowTurn.ages (active : isActive (ip.tcpSocket s) = true)
    (turn : SlowTurn bound prev s ip ip' prev') (r : SocketId) : Ages r ip ip' := by
  rcases eq_or_ne r s with rfl | other
  swap
  · exact .of_state (congrArg TcpSocket.state (turn.changes.1.others r other))
  have held := isActive_holds.mp active
  have last (ends : (ip'.tcpSocket r).state = .timeWait ∨ (ip'.tcpSocket r).state = .closed) :
      Ages r ip ip' := by
    refine ⟨fun _ listens => ?_, fun _ => ends⟩
    rw [listens] at ends
    simp at ends
  have closed {ip : Ip} (unlinks : (ip.retired r).unlinkBehind .active prev r = some ip') :
      (ip'.tcpSocket r).state = .closed := by
    rw [(unlinkBehind_relinks unlinks).tcpSocket, retired, tcpSetSocketState, updateTcp_self]
  cases turn with
  | stays outputs => exact .of_state outputs.touches.state
  | moves _ _ moves =>
    apply last
    left
    rw [(moveToClosing_changes moves).2.1, tcpSetSocketState, updateTcp_self]
  | retires _ unlinks => exact last (.inr (closed unlinks))
  | both _ _ _ _ unlinks => exact last (.inr (closed unlinks))

/-- A socket is left as it was, waits in TIME-WAIT state, or is closed. -/
structure Retires (s : SocketId) (ip ip' : Ip) : Prop extends Changes s ip ip' where
  identity : ∃ state, (state = (ip.tcpSocket s).state ∨ state = .timeWait ∨ state = .closed) ∧
    (ip'.tcpSocket s).identity = { (ip.tcpSocket s).identity with state }
  localIp : (ip.tcpSocket s).localIp = .any ∨
    (ip'.tcpSocket s).localIp = (ip.tcpSocket s).localIp
  queue : (ip'.tcpSocket s).state = .listen → (ip'.tcpSocket s).queue ⊆ (ip.tcpSocket s).queue

theorem Touches.retires (touches : Touches s ip ip') : Retires s ip ip' := by
  refine ⟨touches.changes, ⟨_, .inl rfl, touches.identity⟩, touches.localIp, fun listens => ?_⟩
  exact touches.queue (touches.state ▸ listens)

theorem retires_of_state {state : TcpState} (changes : Changes s ip ip')
    (ends : state = .timeWait ∨ state = .closed)
    (identity : (ip'.tcpSocket s).identity = { (ip.tcpSocket s).identity with state })
    (localIp : (ip.tcpSocket s).localIp = .any ∨
      (ip'.tcpSocket s).localIp = (ip.tcpSocket s).localIp) : Retires s ip ip' := by
  refine ⟨changes, ⟨state, .inr ends, identity⟩, localIp, fun listens => ?_⟩
  have same : (ip'.tcpSocket s).state = state := congrArg TcpIdentity.state identity
  rw [same] at listens
  rw [listens] at ends
  simp at ends

theorem Retires.trans (first : Retires s ip ip') (second : Retires s ip' ip'') :
    Retires s ip ip'' := by
  obtain ⟨state, place, identity⟩ := first.identity
  obtain ⟨later, end', identity'⟩ := second.identity
  have same : (ip'.tcpSocket s).state = state := congrArg TcpIdentity.state identity
  have sameLater : (ip''.tcpSocket s).state = later := congrArg TcpIdentity.state identity'
  refine ⟨first.toChanges.trans second.toChanges, ⟨later, ?_, ?_⟩, ?_, fun listens => ?_⟩
  · rcases end' with kept | ends
    · rw [kept, same]
      exact place
    · exact .inr ends
  · rw [identity', identity]
  · rcases first.localIp with any | kept
    · exact .inl any
    · rcases second.localIp with any | keptLater
      · exact .inl (kept ▸ any)
      · exact .inr (keptLater.trans kept)
  · have between : (ip'.tcpSocket s).state = .listen := by
      rw [sameLater] at listens
      rcases end' with kept | ends | ends
      · exact kept ▸ listens
      · rw [ends] at listens
        contradiction
      · rw [ends] at listens
        contradiction
    exact List.Subset.trans (second.queue listens) (first.queue between)

theorem identity_retired {state : TcpState} (other : state ≠ .established) :
    ((ip.tcpSetSocketState s state).tcpSocket s).identity =
      { (ip.tcpSocket s).identity with state } := by
  rw [identity_setState]
  simp [other, TcpSocket.identity, TcpSocket.connection, TcpReceiver.connection,
    TcpConnection.identity, TcpSocket.receiver]

theorem moveToClosing_retires (moves : moveToClosing turns ip s = some ip') :
    Retires s ip ip' := by
  obtain ⟨changes, record, -⟩ := moveToClosing_changes moves
  refine retires_of_state changes (.inl rfl) ?_ (.inr ?_)
  · rw [record, identity_retired (by simp)]
  · rw [record, tcpSetSocketState, updateTcp_self]

theorem tcpSocketRemove_retires (removes : tcpSocketRemove turns ip list s = some ip') :
    Retires s ip ip' := by
  obtain ⟨changes, identity, localIp⟩ := tcpSocketRemove_changes removes
  exact retires_of_state changes (.inr rfl) identity localIp

theorem unlinkRetired_retires (unlinks : (ip.retired s).unlinkBehind list prev s = some ip') :
    Retires s ip ip' := by
  have purged := (tcpSocketPurge_touches ip s).identity
  refine retires_of_state (unlinkRetired_changes unlinks).1 (.inr rfl) ?_ (.inr ?_)
  · rw [(unlinkBehind_relinks unlinks).tcpSocket, retired, identity_retired (by simp), purged]
  · rw [(unlinkBehind_relinks unlinks).tcpSocket, retired, tcpSetSocketState, updateTcp_self,
      tcpSocketPurge, updateTcp_self]

theorem SlowTurn.retirement (turn : SlowTurn bound prev s ip ip' prev') : Retires s ip ip' := by
  cases turn with
  | stays outputs => exact outputs.touches.retires
  | moves outputs _ moves => exact outputs.touches.retires.trans (moveToClosing_retires moves)
  | retires outputs unlinks =>
    exact outputs.touches.retires.trans (unlinkRetired_retires unlinks)
  | both outputs _ _ moves unlinks =>
    exact outputs.touches.retires.trans
      ((moveToClosing_retires moves).trans (unlinkRetired_retires unlinks))

theorem Retires.localPort (retires : Retires s ip ip') (r : SocketId) :
    (ip'.tcpSocket r).localPort = (ip.tcpSocket r).localPort := by
  rcases eq_or_ne r s with rfl | other
  · obtain ⟨state, -, identity⟩ := retires.identity
    exact congrArg TcpIdentity.localPort identity
  · rw [retires.others r other]

theorem Move.localPort (move : Move rules s ip ip') (old : r < ip.tcpFresh) :
    (ip'.tcpSocket r).localPort = (ip.tcpSocket r).localPort := by
  rcases eq_or_ne r s with rfl | other
  swap
  · rw [(move.others other).1]
  cases move with
  | touch touches => exact touches.retires.localPort r
  | @front _ _ _ _ _ list prev _ => rw [(moveToFront_relinks ip list prev r).tcpSocket]
  | request _ _ _ _ => rw [updateTcp_self]
  | complete _ _ _ _ _ identity _ => exact congrArg TcpIdentity.localPort identity
  | advance _ _ _ => rw [tcpSetSocketState, updateTcp_self]
  | enterClosing _ _ moves => exact (moveToClosing_retires moves).localPort r
  | remove _ removes => exact (tcpSocketRemove_retires removes).localPort r
  | enroll _ _ _ => exact absurd old (lt_irrefl _)
  | discard _ => exact absurd old (lt_irrefl _)
  | free _ => rfl

theorem Moves.localPort (moves : Moves rules sockets ip ip') (old : r < ip.tcpFresh) :
    (ip'.tcpSocket r).localPort = (ip.tcpSocket r).localPort := by
  induction moves with
  | refl => rfl
  | tail early last ih =>
    obtain ⟨s, -, move⟩ := last
    exact (move.localPort (old.trans_le (Moves.grows early).tcpFresh)).trans ih

theorem expire_spec (expires : ip.expire prev s = some (ip', prev')) :
    (ip' = ip ∧ prev' = some s) ∨
      (ip.tcpSocketPurge s).unlinkBehind .closing prev s = some ip' ∧ prev' = prev := by
  rw [expire] at expires
  split at expires
  · obtain ⟨_, unlinks, same⟩ := map_eq_some_iff.mp expires
    cases same
    exact .inr ⟨unlinks, rfl⟩
  · cases expires
    exact .inl ⟨rfl, rfl⟩

theorem expire_retires (expires : ip.expire prev s = some (ip', prev')) :
    Retires s ip ip' := by
  rcases expire_spec expires with ⟨rfl, -⟩ | ⟨unlinks, -⟩
  · exact (Touches.refl s _).retires
  · have relinks := unlinkBehind_relinks unlinks
    have purged := (tcpSocketPurge_touches ip s).retires
    refine ⟨purged.toChanges.trans (relinks.changes s), ?_, ?_, ?_⟩
    · rw [relinks.tcpSocket]
      exact purged.identity
    · rw [relinks.tcpSocket]
      exact purged.localIp
    · rw [relinks.tcpSocket]
      exact purged.queue

def ticked (ip : Ip) : Ip :=
  { ip with tcpTicks := ip.tcpTicks + 1 }

theorem tcpSlowtmr_loops {processed : List SocketId}
    (ticks : tcpSlowtmr turns ip = some (ip', processed)) :
    ∃ walked, slowLoop turns turns ip.ticked none ip.tcpSockets = some (walked, processed) ∧
      closingLoop turns walked none walked.tcpClosingSockets = some ip' := by
  simp only [tcpSlowtmr, bind_eq_bind, bind_eq_some_iff, Option.some.injEq,
    Prod.mk.injEq, Prod.exists] at ticks
  obtain ⟨walked, _, loops, _, closes, rfl, rfl⟩ := ticks
  exact ⟨walked, loops, closes⟩

theorem tcpSlowtmr_invariant {processed : List SocketId} (property : Ip → Prop)
    (kept : ∀ {s ip ip'}, Retires s ip ip' → property ip → property ip')
    (start : property ip.ticked) (ticks : tcpSlowtmr turns ip = some (ip', processed)) :
    property ip' := by
  have slow {bound turns : Nat} {ip ip' : Ip} {prev first : Option SocketId}
      {processed : List SocketId} (start : property ip)
      (loops : slowLoop bound turns ip prev first = some (ip', processed)) : property ip' := by
    induction turns generalizing ip prev first processed with
    | zero => contradiction
    | succ turns ih =>
      cases first with
      | none =>
        cases loops
        exact start
      | some s =>
        obtain ⟨-, ip₁, prev₁, rest, turn, loops₁, rfl⟩ := slowLoop_turn loops
        exact ih (kept turn.retirement start) loops₁
  have closing {turns : Nat} {ip ip' : Ip} {prev first : Option SocketId} (start : property ip)
      (loops : closingLoop turns ip prev first = some ip') : property ip' := by
    induction turns generalizing ip prev first with
    | zero => contradiction
    | succ turns ih =>
      cases first with
      | none =>
        cases loops
        exact start
      | some s =>
        rw [closingLoop] at loops
        split at loops
        · contradiction
        simp only [bind_eq_bind, bind_eq_some_iff, Prod.exists] at loops
        obtain ⟨ip₁, prev₁, expires, loops₁⟩ := loops
        exact ih (kept (expire_retires expires) start) loops₁
  obtain ⟨walked, loops, closes⟩ := tcpSlowtmr_loops ticks
  exact closing (slow start loops) closes

theorem touchesAll_invariant (property : Ip → Prop)
    (kept : ∀ {s ip ip'}, Retires s ip ip' → property ip → property ip') (start : property ip)
    (touches : Relation.ReflTransGen (fun ip ip' => ∃ s, Touches s ip ip') ip ip') :
    property ip' := by
  induction touches with
  | refl => exact start
  | tail _ last ih =>
    obtain ⟨s, touches⟩ := last
    exact kept touches.retires ih

theorem tcpConnect_fresh {ipaddr : IpAddr} {port : UShort} {call : Pending}
    (connects : tcpConnect turns ip ipaddr port = some (ip', some call)) :
    call.socket < ip'.tcpFresh := by
  simp only [tcpConnect] at connects
  cases result : ip.tcpAlloc with
  | mk new allocated =>
  rw [result] at connects
  simp only [bind_eq_bind, bind_eq_some_iff, Prod.exists] at connects
  obtain ⟨s, rfl, localPort, numbered, ports, outputs⟩ := connects
  obtain ⟨-, rfl⟩ := tcpNewPort_spec ports
  rcases tcpAlloc_spec result with ⟨none, -⟩ | ⟨-, fresh, touches, -⟩
  · contradiction
  cases fresh
  simp only [connectOutput, bind_eq_bind, bind_eq_some_iff, Prod.exists] at outputs
  obtain ⟨queued, enqueued, enqueues, outputs⟩ := outputs
  split at outputs
  · simp only [bind_eq_some_iff, Option.some.injEq, Prod.mk.injEq] at outputs
    obtain ⟨sent, sends, rfl, rfl⟩ := outputs
    have enqueued := (tcpEnqueue_touches enqueues).changes.tcpFresh
    have added := (tcpListAdd_relinks queued .active ip.tcpFresh).tcpFresh
    have output := (tcpOutput_outputs sends).touches.changes.tcpFresh
    have allocates : allocated.tcpFresh = ip.tcpFresh + 1 := touches.changes.tcpFresh
    rw [output, added, enqueued]
    exact allocates.symm ▸ Nat.lt_succ_self _
  · cases outputs

end Ip

namespace TcpStack

variable {rules : TcpRules} {stack : TcpStack} {event : TcpEvent} {turns : Nat} {ip' : Ip}
  {next : Option Pending}

theorem Acts.invariant (property : Ip → Prop) (acts : stack.Acts rules event ip' next)
    (moves : ∀ {sockets}, Ip.Moves rules sockets stack.ip ip' → property ip')
    (retires : ∀ {s ip ip'}, Ip.Retires s ip ip' → property ip → property ip')
    (start : property stack.ip) (ticked : property stack.ip.ticked) : property ip' := by
  cases acts with
  | moves _ call =>
    rcases call.moves with made | made
    · exact moves made
    · exact moves made
  | touches touches => exact Ip.touchesAll_invariant property retires start touches
  | slowtmr _ ticks => exact Ip.tcpSlowtmr_invariant property retires ticked ticks

theorem Acts.grows (acts : stack.Acts rules event ip' next) : Ip.Grows stack.ip ip' :=
  acts.invariant (Ip.Grows stack.ip) (fun moves => moves.grows)
    (fun retires grows => grows.trans retires.grows) (.refl _)
    ⟨le_refl _, List.Subset.refl _, fun _ _ lives => lives⟩

theorem Acts.localPort {r : SocketId} (acts : stack.Acts rules event ip' next)
    (old : r < stack.ip.tcpFresh) :
    (ip'.tcpSocket r).localPort = (stack.ip.tcpSocket r).localPort :=
  acts.invariant (fun later => (later.tcpSocket r).localPort = (stack.ip.tcpSocket r).localPort)
    (fun moves => moves.localPort old) (fun retires same => (retires.localPort r).trans same)
    rfl rfl

theorem Acts.caller (acts : stack.Acts rules event ip' next)
    (admitted : stack.admits event = true) (act : stack.act turns event = some (ip', next)) :
    ∀ call ∈ next, stack.ip.tcpAlive call.socket = true ∨
      call = .connectWait stack.ip.tcpFresh ∧ call.socket < ip'.tcpFresh := by
  intro call member
  obtain rfl := mem_def.mp member
  cases acts with
  | moves about moves =>
    rw [moves.socket call rfl]
    cases event with
    | connect ipaddr port =>
      have same : call = .connectWait stack.ip.tcpFresh :=
        (@Ip.tcpConnect_moves rules _ _ _ _ _ _ act).2 call rfl
      refine .inr ⟨same, ?_⟩
      rw [← moves.socket call rfl]
      exact Ip.tcpConnect_fresh act
    | listen ipaddr port =>
      obtain ⟨_, _, same⟩ := map_eq_some_iff.mp act
      cases same
    | accept r =>
      cases about
      exact .inl admitted
    | write r data =>
      cases about
      simp only [admits, Bool.and_eq_true] at admitted
      exact .inl admitted.1
    | readPoll r nonblock =>
      cases about
      exact .inl admitted
    | close r =>
      cases about
      exact .inl admitted
    | abort r =>
      cases about
      exact .inl admitted
    | resume i =>
      obtain ⟨call, found, rfl⟩ := about
      simp only [admits, found, map_some, getD_some] at admitted
      exact .inl admitted
    | segment h p =>
      obtain ⟨_, _, same⟩ := map_eq_some_iff.mp act
      cases same
    | slowtmr => exact absurd about id
    | fasttmr => exact absurd about id

theorem Acts.allocated (acts : stack.Acts rules event ip' next)
    (fresh : ∀ s, stack.ip.tcpAlive s = true → s < stack.ip.tcpFresh)
    (admitted : stack.admits event = true) (act : stack.act turns event = some (ip', next)) :
    ∀ call ∈ next, call.socket < ip'.tcpFresh := by
  intro call member
  rcases acts.caller admitted act call member with alive | ⟨-, new⟩
  · exact (fresh _ alive).trans_le acts.grows.tcpFresh
  · exact new

end TcpStack
end Uos
