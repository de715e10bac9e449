import Uos.Net.Tcp.SlowTimer

/-!
# The axioms about the lists of TCP sockets in any run

Which events leave the sockets in the lists that their states say.
-/

namespace Uos

/-- The axioms about the lists. -/
structure Ip.ListAxioms (ip : Ip) (lists : TcpList → List SocketId) : Prop where
  threaded : ip.Threaded lists
  active : ∀ s ∈ lists .active, (ip.tcpSocket s).state ≠ .closed ∧
    (ip.tcpSocket s).state ≠ .listen ∧ (ip.tcpSocket s).state ≠ .timeWait
  closing : ∀ s ∈ lists .closing, (ip.tcpSocket s).state = .timeWait
  listening : ∀ s ∈ lists .listening, (ip.tcpSocket s).state = .listen
  once : ∀ list, (lists list).Nodup
  disjoint : Ip.Disjoint lists
  listed : ∀ s, ip.tcpAlive s = true → (ip.tcpSocket s).state ≠ .closed →
    ∃! list, s ∈ lists list

/-- What the rest of a call does not break: a FIN is not enqueued for a socket that was closed
while the call waited, and a socket is removed from the list that it is in. -/
def Pending.Orderly (ip : Ip) : Pending → Prop
  | closeRemove s => (ip.tcpSocket s).state ≠ .timeWait
  | closeEnqueue s =>
    Ip.isActive (ip.tcpSocket s) = true ∨
      ∀ queued, ip.tcpEnqueue s [] TcpFlags.fin [] ≠ some (queued, true)
  | abortRemove s _ => (ip.tcpSocket s).state ≠ .listen ∧ (ip.tcpSocket s).state ≠ .timeWait
  | _ => True

def Pending.Kept (ip : Ip) : Pending → Prop
  | closeEnqueue s => (ip.tcpSocket s).state ≠ .listen
  | closeTimeWait s | abortTimeWait s =>
    (ip.tcpSocket s).state = .timeWait ∨ (ip.tcpSocket s).state = .closed
  | _ => True

namespace TcpStack

/-- Whether an event leaves the sockets in the lists that their states say. -/
def Orderly (stack : TcpStack) : TcpEvent → Prop
  | .resume i => ∀ call, stack.calls[i]? = some call → call.Orderly stack.ip
  | .slowtmr => stack.ip.TimerOrderly
  | _ => True

/-- The sockets that an event works on. -/
def Concerns (stack : TcpStack) (event : TcpEvent) (s : SocketId) : Prop :=
  stack.About s event ∨ event = .slowtmr ∧
    ∃ turns ip' processed, Ip.tcpSlowtmr turns stack.ip = some (ip', processed) ∧ s ∈ processed

/-- An event leaves every other socket in its list, and the slow timer processes all active
sockets in their order. -/
structure KeepsOthers (stack : TcpStack) (event : TcpEvent)
    (lists lists' : TcpList → List SocketId) : Prop where
  others : ∀ s list, ¬stack.Concerns event s → s ∈ lists list → s ∈ lists' list
  processed : event = .slowtmr → ∀ turns ip' processed,
    Ip.tcpSlowtmr turns stack.ip = some (ip', processed) → processed = lists .active

/-- The invariant of orderly runs. -/
structure InOrder (stack : TcpStack) (lists : TcpList → List SocketId) : Prop where
  listed : stack.ip.WellListed lists
  allocated : ∀ call ∈ stack.calls, call.socket < stack.ip.tcpFresh
  kept : ∀ call ∈ stack.calls, call.Kept stack.ip

def orderlyRules : TcpRules where
  orderly := True
  arrives _ := True
  completes _ := True
  accepts _ _ _ _ := True

end TcpStack

variable {start stack stack' : TcpStack} {event : TcpEvent} {lists : TcpList → List SocketId}
  {ip ip' : Ip} {s : SocketId}

theorem Ip.WellListed.axioms (listed : ip.WellListed lists) : ip.ListAxioms lists := by
  refine ⟨listed.threaded, fun s member => ?_, fun s member => ?_, fun s member => ?_,
    fun list => (listed.threaded list).nodup, listed.disjoint, fun s alive state => ?_⟩
  · obtain ⟨closed, timeWait, listen⟩ := ((listed.filed .active s).mp member).2
    exact ⟨closed, listen, timeWait⟩
  · exact ((listed.filed .closing s).mp member).2
  · exact ((listed.filed .listening s).mp member).2
  · have somewhere : ∃ list : TcpList, list.Holds (ip.tcpSocket s).state := by
      rcases eq_or_ne (ip.tcpSocket s).state .listen with listens | other
      · exact ⟨.listening, listens⟩
      · rcases eq_or_ne (ip.tcpSocket s).state .timeWait with waits | active
        · exact ⟨.closing, waits⟩
        · exact ⟨.active, state, active, other⟩
    obtain ⟨list, holds⟩ := somewhere
    refine ⟨list, (listed.filed list s).mpr ⟨alive, holds⟩, fun other member => ?_⟩
    exact Ip.holds_unique ((listed.filed other s).mp member).2 holds

theorem Pending.Follows.kept {call : Pending}
    (follows : call.Follows TcpStack.orderlyRules ip ip') : call.Kept ip' := by
  cases call
  case closeEnqueue => exact follows trivial
  case closeTimeWait => exact .inl follows
  case abortTimeWait => exact .inl follows
  all_goals trivial

theorem Pending.Kept.ages {call : Pending} (kept : call.Kept ip)
    (ages : Ip.Ages call.socket ip ip') : call.Kept ip' := by
  cases call
  case closeEnqueue => exact ages.1 kept
  case closeTimeWait => exact ages.2 kept
  case abortTimeWait => exact ages.2 kept
  all_goals trivial

theorem Pending.Orderly.meets {call : Pending} (orderly : call.Orderly ip)
    (kept : call.Kept ip) : call.Meets TcpStack.orderlyRules ip := by
  cases call
  case acceptCreate => exact fun _ _ _ _ _ => trivial
  case closeRemove => exact fun _ => orderly
  case closeEnqueue => exact fun _ => ⟨kept, orderly⟩
  case closeTimeWait => exact fun _ => kept
  case abortTimeWait => exact fun _ => kept
  case abortRemove => exact fun _ => orderly
  all_goals trivial

theorem Ip.Moves.wellListed {rules : TcpRules} {sockets : Set SocketId} (orderly : rules.orderly)
    (moves : Moves rules sockets ip ip') {lists : TcpList → List SocketId}
    (listed : ip.WellListed lists) : ∃ lists', ip'.WellListed lists' := by
  induction moves with
  | refl => exact ⟨lists, listed⟩
  | tail _ last ih =>
    obtain ⟨s, -, move⟩ := last
    obtain ⟨middle, listed⟩ := ih
    exact move.wellListed orderly listed

theorem Ip.WellListed.same {lists lists' : TcpList → List SocketId} (listed : ip.WellListed lists)
    (listed' : ip'.WellListed lists')
    (same : ip'.tcpSocket s = ip.tcpSocket s ∧ ip'.tcpAlive s = ip.tcpAlive s) {list : TcpList}
    (member : s ∈ lists list) : s ∈ lists' list := by
  rw [listed'.filed list s, Ip.Belongs, same.1, same.2]
  exact (listed.filed list s).mp member

theorem Ip.Touches.ages (touches : Touches s ip ip') (r : SocketId) : Ages r ip ip' := by
  rcases eq_or_ne r s with rfl | other
  · exact .of_state touches.state
  · exact .of_state (congrArg TcpSocket.state (touches.others r other))

theorem Ip.WellListed.touchesAll (listed : ip.WellListed lists)
    (touches : Relation.ReflTransGen (fun ip ip' => ∃ s, Touches s ip ip') ip ip') :
    ip'.WellListed lists ∧ ∀ r, Ages r ip ip' := by
  induction touches with
  | refl => exact ⟨listed, fun r => .of_state rfl⟩
  | tail _ last ih =>
    obtain ⟨s, touches⟩ := last
    exact ⟨ih.1.touches touches, fun r => (ih.2 r).trans (touches.ages r)⟩

namespace TcpStack

theorem Acts.wellListed {next : Option Pending} (orderly : stack.Orderly event)
    (listed : stack.ip.WellListed lists)
    (acts : stack.Acts orderlyRules event ip' next) :
    (∃ lists', ip'.WellListed lists' ∧ stack.KeepsOthers event lists lists') ∧
      ∀ r, r < stack.ip.tcpFresh → Ip.Ages r stack.ip ip' := by
  cases acts with
  | @moves s next about call =>
    have notSlow : event ≠ .slowtmr := by
      rintro rfl
      exact about
    have keeps {sockets : Set SocketId} (moves : Ip.Moves orderlyRules sockets stack.ip ip')
        (only : ∀ r list, ¬stack.Concerns event r → r ∈ lists list → r ∉ sockets) :
        (∃ lists', ip'.WellListed lists' ∧ stack.KeepsOthers event lists lists') ∧
          ∀ r, r < stack.ip.tcpFresh → Ip.Ages r stack.ip ip' := by
      obtain ⟨lists', listed'⟩ := moves.wellListed trivial listed
      refine ⟨⟨lists', listed', fun r list other member => ?_,
        fun slow => absurd slow notSlow⟩, fun r old => moves.ages trivial old⟩
      exact listed.same listed' (moves.others (only r list other member)) member
    rcases call.moves with moves | moves
    · refine keeps moves fun r list other _ same => other (.inl ?_)
      rw [Set.mem_singleton_iff.mp same]
      exact about
    · refine keeps moves fun r list _ member same => ?_
      rw [Set.mem_singleton_iff.mp same] at member
      exact lt_irrefl _ (listed.fresh _ ((listed.filed list _).mp member).1)
  | touches touches =>
    obtain ⟨listed', ages⟩ := listed.touchesAll touches
    refine ⟨⟨lists, listed', fun r list _ member => member, fun slow => ?_⟩, fun r _ => ages r⟩
    subst slow
    intro turns ip' processed ticks
    exact (Ip.tcpSlowtmr_wellListed listed orderly ticks).1
  | @slowtmr turns processed slow ticks =>
    subst slow
    obtain ⟨-, ⟨lists', listed'⟩, others, -, alive, ages⟩ :=
      Ip.tcpSlowtmr_wellListed listed orderly ticks
    refine ⟨⟨lists', listed', fun r list other member => ?_, fun _ turns ip' processed ticks =>
      (Ip.tcpSlowtmr_wellListed listed orderly ticks).1⟩, fun r _ => ages r⟩
    have absent : r ∉ processed :=
      fun found => other (.inr ⟨rfl, turns, ip', processed, ticks, found⟩)
    exact listed.same listed' ⟨others r absent, congrFun alive r⟩ member

theorem InOrder.step (inOrder : stack.InOrder lists) (orderly : stack.Orderly event)
    (step : stack.Step event stack') :
    ∃ lists', stack'.InOrder lists' ∧ stack.KeepsOthers event lists lists' := by
  obtain ⟨listed, allocated, kept⟩ := inOrder
  obtain ⟨turns, steps⟩ := step
  obtain ⟨admitted, ip', next, act, rfl⟩ := step_eq_some.mp steps
  have meets : stack.Meets orderlyRules event := by
    cases event with
    | resume i =>
      intro call found
      exact (orderly call found).meets (kept call (List.mem_of_getElem? found))
    | segment h p => exact ⟨trivial, fun _ _ _ => trivial⟩
    | _ => trivial
  have acts := act_cases meets act
  obtain ⟨⟨lists', listed', keeps⟩, ages⟩ := acts.wellListed orderly listed
  have waiting : ∀ call ∈ stack.waiting event, call ∈ stack.calls := by
    cases event with
    | resume i => exact fun call member => List.mem_of_mem_eraseIdx member
    | _ => exact fun call member => member
  refine ⟨lists', ⟨listed', fun call member => ?_, fun call member => ?_⟩, keeps⟩
  · rcases List.mem_append.mp member with old | new
    · exact (allocated call (waiting call old)).trans_le acts.grows.tcpFresh
    · exact acts.allocated listed.fresh admitted act call (Option.mem_toList.mp new)
  · rcases List.mem_append.mp member with old | new
    · have before := waiting call old
      exact (kept call before).ages (ages call.socket (allocated call before))
    · cases acts with
      | moves _ call => exact (call.follows _ (Option.mem_toList.mp new)).kept
      | touches _ => simp at new
      | slowtmr _ _ => simp at new

theorem Initial.inOrder (initial : start.Initial) : start.InOrder fun _ => [] := by
  obtain ⟨ip, calls⟩ := initial
  refine ⟨⟨fun list => ?_, fun list s => ?_, fun s alive => ?_⟩, by simp [calls], by simp [calls]⟩
  · cases list <;> simp [Ip.head, ip.tcpListenSockets, ip.tcpSockets, ip.tcpClosingSockets]
  · simp [Ip.Belongs, ip.tcpAlive]
  · simp [ip.tcpAlive] at alive

/-- In a run of orderly events the lists obey their axioms, and no event drops a socket from its
list that it does not work on. -/
theorem orderlyRun_listAxioms (initial : start.Initial) (run : RunIf Orderly start stack) :
    ∃ lists, stack.ip.ListAxioms lists ∧
      ∀ event stack', stack.Orderly event → stack.Step event stack' →
        ∃ lists', stack'.ip.ListAxioms lists' ∧ stack.KeepsOthers event lists lists' := by
  have inOrder : ∃ lists, stack.InOrder lists := by
    refine run_invariant (fun stack => ∃ lists, stack.InOrder lists) ?_ ⟨_, initial.inOrder⟩ run
    rintro stack stack' ⟨lists, inOrder⟩ ⟨event, orderly, step⟩
    obtain ⟨lists', later, -⟩ := inOrder.step orderly step
    exact ⟨lists', later⟩
  obtain ⟨lists, inOrder⟩ := inOrder
  refine ⟨lists, inOrder.listed.axioms, fun event stack' orderly step => ?_⟩
  obtain ⟨lists', later, keeps⟩ := inOrder.step orderly step
  exact ⟨lists', later.listed.axioms, keeps⟩

def listens : TcpStack :=
  (boot [true]).after 1 [.listen .any 80]

theorem listens_listAxioms :
    ∃ lists, listens.ip.ListAxioms lists ∧
      ∀ event stack', listens.Orderly event → listens.Step event stack' →
        ∃ lists', stack'.ip.ListAxioms lists' ∧ listens.KeepsOthers event lists lists' :=
  orderlyRun_listAxioms (boot_initial [true]) (after_run (by simp [Orderly]) (by rfl))

/-- A socket that listens is aborted: it is closed and stays in its list. -/
theorem abort_listening :
    ¬∀ start stack : TcpStack, start.Initial → RunIf (fun _ _ => True) start stack →
      ∃ lists, stack.ip.ListAxioms lists := by
  intro all
  have run : RunIf (fun _ _ => True) (boot [true])
      ((boot [true]).after 2 [.listen .any 80, .abort 0, .resume 0]) :=
    after_run (fun _ _ _ => trivial) (by rfl)
  obtain ⟨lists, listAxioms⟩ := all _ _ (boot_initial [true]) run
  have chain := listAxioms.threaded .listening
  have first : ((boot [true]).after 2 [.listen .any 80, .abort 0, .resume 0]).ip.head
      .listening = some 0 := by rfl
  rw [first] at chain
  have state := listAxioms.listening 0 chain.first_mem
  contradiction

end TcpStack
end Uos
