import Uos.Kernel.Moves
import Uos.Library.Maximum

/-!
# Transitions as sequences of moves

Every transition from a sound state is a sequence of moves, possibly with a last part that gives
up the processor.  Soundness holds in every reachable state.
-/

namespace Uos

open Option

namespace State

/-- The invariant between two transitions. -/
structure Sound (s : State) : Prop extends Settled s where
  born : s.life s.taskCurrent ≠ .unborn
  unlisted : s.taskCurrent ≠ taskIdle → ∀ g, (s.group g).waiter ≠ some s.taskCurrent
  awake : s.taskCurrent ≠ taskIdle → (s.task s.taskCurrent).wait = none

/-- Take the current task out of all lists, as the waiter of a group. -/
def suspended (s : State) (g : GroupId) : State :=
  ({ s with
      queues := s.queues.unlink s.taskCurrent
      group := Function.update s.group g { s.group g with waiter := some s.taskCurrent } } :
    State).continueAt (.groupWait g)

def Regroups (s : State) : Event → Prop
  | .call (.mutexGroupInit _ _) _ | .call (.mutexGroupAdd _ _) _ | .call (.mutexGroupListen _) _
  | .call (.mutexGroupUnlisten _) _ | .call (.mutexGroupWait _) _ => True
  | .resume _ => ∃ g, s.context s.taskCurrent = .groupWait g
  | _ => False

/-- The groups and the lists of their slots may change, but not the waiters. -/
def Regrouped (s s' : State) (observations : List Observation) : Prop :=
  ∃ group listeners, s' = { s with group, listeners, trace := s.trace ++ observations } ∧
    (∀ m, heard m observations = none) ∧ ∀ g, (group g).waiter = (s.group g).waiter

/-- The current task has joined the waiters of a lock, and released it if it was its owner. -/
structure Slept (s : State) (event : Event) (m : MutexId) (middle after : State) : Prop where
  later : Moves s event (middle.asleep m) after
  joined : after.queues.place s.taskCurrent = some (.waiters m)
  saves : (s.mutex m).master ≠ some s.taskCurrent ∧ after.context s.taskCurrent = .waitMessage ∨
    (s.mutex m).master = some s.taskCurrent ∧ (after.mutex m).master = none ∧
      after.context s.taskCurrent = .relock m (s.mutex m).deep

/-- How a transition ends. -/
inductive Outcome (event : Event) (s : State) : State → Prop
  | stays {s' : State} (moves : Moves s event s s') : Outcome event s s'
  | switches {middle : State} (moves : Moves s event s middle) :
      Outcome event s middle.taskSchedule
  | yields (answer : Answer) (call : event = .call .taskYield answer) :
      Outcome event s
        (({ s with queues := s.queues.append .active s.taskCurrent } : State).continueAt
          (.ret 0)).taskSchedule
  | waits (m : MutexId) (answer : Answer) {middle after : State}
      (call : event = .call (.mutexWait m) answer) (handled : Activated s middle)
      (stops : ∀ irq, (s.mutex m).irq = some irq → (s.mutexIrq irq).pending = true →
        answer.served = true)
      (awake : (s.task s.taskCurrent).wait = none) (slept : Slept s event m middle after) :
      Outcome event s after.taskSchedule
  | blocks (m : MutexId) (owner : TaskId) (again : Context) {s' : State}
      (wanted : s.wanted event = some m) (owned : (s.mutex m).master = some owner)
      (other : owner ≠ s.taskCurrent) (contends : again.ContendsFor m)
      (saved : ∀ deep, again = .relock m deep →
        0 < deep ∧ s.context s.taskCurrent = .relock m deep)
      (result : s.block m owner again = some s') : Outcome event s s'
  | regroups {middle : State} (observations : List Observation) (value : Message)
      (call : s.Regroups event) (regrouped : s.Regrouped middle observations) :
      Outcome event s (middle.continueAt (.ret value))
  | suspends (g : GroupId)
      (call : (∃ answer, event = .call (.mutexGroupWait g) answer) ∨
        (∃ answer, event = .resume answer) ∧ s.context s.taskCurrent = .groupWait g)
      (inactive : ∀ i < (s.group g).num, ((s.group g).slot i).active = false)
      (awake : s.taskCurrent ≠ taskIdle → (s.task s.taskCurrent).wait = none) :
      Outcome event s (s.suspended g).taskSchedule

theorem SmallInt.wrap_one (small : SmallInt) : small.wrap 1 = 1 := by
  cases small <;> decide

section Functions

variable {event : Event} {s s' : State} {m : MutexId}

variable {middle : State} {again : Context} {answer : Answer} {calls : Nat} {message : Message}
  {t : TaskId} {x : State} {observations : List Observation} {g : GroupId}

theorem Moves.leave {start : State} (moves : Moves start event s middle) {context : Context}
    (plain : context.Plain) :
    Moves start event s (middle.continueAt context) :=
  moves.tail (.turn context (fun m deep same => absurd same (plain.not_relock m deep))
    plain.not_groupWait fun t message same => absurd same (plain.not_delete t message))

theorem Outcome.schedule (moves : Moves s event s middle) :
    Outcome event s middle.scheduleIfNeeded := by
  simp only [scheduleIfNeeded]
  split
  · exact .switches moves
  · exact .stays moves

theorem Outcome.leave {middle : State} (moves : Moves s event s middle) {context : Context}
    (plain : context.Plain) :
    Outcome event s (middle.continueAt context).scheduleIfNeeded :=
  .schedule (moves.leave plain)

theorem acquire_move (unowned : (s.mutex m).master = none)
    (free : ¬(s.slaves m ≠ [] ∨ (s.mutex m).deep ≠ 0))
    (fresh : ∀ deep, s.context s.taskCurrent ≠ .relock m deep) :
    Move s event s ((s.acquire m).deepen m) := by
  simp only [ne_eq, not_or, not_not] at free
  have shallow : ((s.acquire m).mutex m).deep = 0 := by
    simp only [acquire]
    split <;> simp [setTask, setMutex, free.2]
  have deepened : (s.acquire m).deepen m =
      (s.acquire m).setMutex m { (s.acquire m).mutex m with deep := 1 } := by
    rw [deepen, shallow, Int.zero_add, SmallInt.wrap_one]
  rw [deepened]
  exact .acquire m 1 unowned free.1 free.2 Int.one_pos (.inl rfl) fresh

theorem lockLoop_outcome {finish : State → State} (finish_moves : ∀ x, Moves s event x (finish x))
    (wanted : s.wanted event = some m) (contends : again.ContendsFor m) (plain : again.Plain)
    (fresh : ∀ deep, s.context s.taskCurrent ≠ .relock m deep)
    (result : s.lockLoop m again finish = some s') : Outcome event s s' := by
  simp only [lockLoop] at result
  split at result
  · rename_i owner owned
    split at result
    · rename_i same
      cases result
      have takes : s.Takes event m := .inl wanted
      exact .stays (.head (.deepen m rfl takes (same ▸ owned)) (finish_moves _))
    · rename_i other
      exact .blocks m owner again wanted owned other contends
        (fun deep same => absurd same (plain.not_relock m deep)) result
  · rename_i unowned
    split at result
    · contradiction
    · rename_i free
      cases result
      exact .stays (.head (acquire_move unowned free fresh) (finish_moves _))

theorem mutexTrylock_outcome (takes : s.Takes event m)
    (fresh : ∀ deep, s.context s.taskCurrent ≠ .relock m deep)
    (result : s.mutexTrylock m = some s') : Outcome event s s' := by
  simp only [mutexTrylock] at result
  split at result
  · rename_i owner owned
    split at result
    · rename_i same
      cases result
      exact .stays (Moves.leave (.single (.deepen m rfl takes (same ▸ owned))) (by trivial))
    · cases result
      exact .stays (Moves.leave .refl (by trivial))
  · rename_i unowned
    split at result
    · contradiction
    · rename_i free
      cases result
      exact .stays (Moves.leave (.single (acquire_move unowned free fresh)) (by trivial))

theorem servePending_activated (links : s.Links) (result : s.servePending m answer = some s') :
    Activated s s' := by
  simp only [servePending] at result
  split at result
  · cases result
    exact .refl s
  · rename_i irq _
    split at result
    · have cleared := activated_setIrq s irq { s.mutexIrq irq with pending := false }
      obtain ⟨middle, called, rest⟩ := bind_eq_some_iff.mp result
      have handled := cleared.trans
        (callHandler_activated (links.woken cleared.toWoken) called)
      split at rest
      · cases rest
        exact handled
      · exact handled.trans (mutexActivate_activated (links.woken handled.toWoken) rest)
    · cases result
      exact .refl s

theorem wakeSlaves_eq {s' : State} (result : s.wakeSlaves m = some s') :
    ∃ ready, s.readySlaves m = some ready ∧
      (s' = ready.setMutex m { ready.mutex m with prio := 0 } ∨ s.slaves m = [] ∧ s' = ready) := by
  simp only [wakeSlaves] at result
  split at result
  · rename_i nobody
    refine ⟨s, ?_, .inr ⟨nobody, (Option.some.inj result).symm⟩⟩
    simp [readySlaves, nobody]
  · obtain ⟨ready, readied, last⟩ := bind_eq_some_iff.mp result
    exact ⟨ready, readied, .inl (Option.some.inj last).symm⟩

theorem mutexUnlock_outcome (midway : s.Midway)
    (leave : ∀ {x}, Moves s event s x → Moves s event s (x.continueAt again))
    (result : mutexUnlock calls s m answer again = some s') : Outcome event s s' := by
  simp only [mutexUnlock] at result
  split at result
  · contradiction
  · rename_i owned
    have owned' : (s.mutex m).master ≠ none := by simpa using owned
    simp only [setMutex, Function.update_self] at result
    split at result
    · rename_i positive
      cases result
      exact .stays (leave (.single (.lower m owned' positive)))
    · rename_i last
      obtain ⟨released, release_eq, result⟩ := bind_eq_some_iff.mp result
      obtain ⟨served, served_eq, result⟩ := bind_eq_some_iff.mp result
      obtain ⟨woken, woken_eq, result⟩ := bind_eq_some_iff.mp result
      obtain ⟨ready, ready_eq, after_eq⟩ := wakeSlaves_eq woken_eq
      cases result
      have releasing := release_releasing midway.links release_eq
      have move : Move s event s woken := .free calls m _ (.inr ⟨rfl, not_lt.mp last⟩) release_eq
        (servePending_activated releasing.links served_eq) (.inl rfl) ready_eq after_eq
      exact .schedule (leave (.single move))

theorem mutexUnlockIrq_outcome (midway : s.Midway)
    (result : mutexUnlockIrq calls s m answer = some s') : Outcome event s s' := by
  simp only [mutexUnlockIrq] at result
  split at result
  · contradiction
  · rename_i owned
    have owned' : (s.mutex m).master ≠ none := by
      simp only [not_or] at owned
      simpa using owned.1
    simp only [setMutex, Function.update_self] at result
    split at result
    · rename_i positive
      cases result
      exact .stays (Moves.leave (.single (.lower m owned' positive)) (by trivial))
    · rename_i last
      obtain ⟨released, release_eq, result⟩ := bind_eq_some_iff.mp result
      obtain ⟨served, served_eq, result⟩ := bind_eq_some_iff.mp result
      obtain ⟨woken, woken_eq, result⟩ := bind_eq_some_iff.mp result
      obtain ⟨ready, ready_eq, after_eq⟩ := wakeSlaves_eq woken_eq
      cases result
      have releasing := release_releasing midway.links release_eq
      have move : Move s event s woken := .free calls m _ (.inr ⟨rfl, not_lt.mp last⟩) release_eq
        (servePending_activated releasing.links served_eq) (.inr rfl) ready_eq after_eq
      exact .leave (.single move) trivial

theorem mutexSignal_outcome {start : State} (moves : Moves s event s start) (midway : start.Midway)
    (plain : again.Plain) (result : start.mutexSignal m message again = some s') :
    Outcome event s s' := by
  have observed := activated_observe start (.signalled m message) fun _ => rfl
  simp only [mutexSignal] at result
  split at result
  · obtain ⟨middle, activated, last⟩ := bind_eq_some_iff.mp result
    cases last
    have activated' := observed.trans
      (mutexActivate_activated (midway.links.woken observed.toWoken) activated)
    exact .leave (moves.tail (.activated activated')) plain
  · cases result
    exact .stays (Moves.leave (moves.tail (.activated observed)) plain)

theorem acquire_continueAt (s : State) (m : MutexId) (context : Context) :
    (s.continueAt context).acquire m = (s.acquire m).continueAt context := by
  rcases em ((s.task s.taskCurrent).prio < (s.mutex m).prio) with raised | kept
  · simp [acquire, continueAt, setContext, setMutex, setTask, raised]
  · simp [acquire, continueAt, setContext, setMutex, kept]

theorem acquire_taskCurrent (s : State) (m : MutexId) :
    (s.acquire m).taskCurrent = s.taskCurrent := by
  simp only [acquire]
  split <;> rfl

theorem relockLoop_outcome {deep : Int} (midway : s.Midway) (wanted : s.wanted event = some m)
    (here : s.context s.taskCurrent = .relock m deep)
    (result : s.relockLoop m deep = some s') : Outcome event s s' := by
  obtain ⟨others, positive⟩ := midway.relocks s.taskCurrent m deep here
  simp only [relockLoop] at result
  split at result
  · rename_i owner owned
    have other : owner ≠ s.taskCurrent := by
      rintro rfl
      exact others owned
    refine .blocks m owner (.relock m deep) wanted owned other rfl (fun saved same => ?_) result
    rw [Context.relock.injEq] at same
    exact same.2 ▸ ⟨positive, here⟩
  · rename_i unowned
    split at result
    · contradiction
    · rename_i shallow
      cases result
      set message := ((s.acquire m).task (s.acquire m).taskCurrent).message
      have turned :
          Move s event s (s.continueAt (.ret message)) := .turn _ (by simp) (by simp) (by simp)
      have acquired : Move s event (s.continueAt (.ret message))
          (((s.acquire m).setMutex m { (s.acquire m).mutex m with deep := deep }).continueAt
            (.ret message)) := by
        have move : Move s event (s.continueAt (.ret message)) _ :=
          .acquire m deep unowned (midway.nobody unowned) (not_not.mp shallow) positive
            (.inr here) (by simp [continueAt, setContext])
        rw [acquire_continueAt] at move
        exact move
      exact .stays (.head turned (.single acquired))

theorem sleep_slept (handled : Activated s middle) (midway : middle.Midway)
    (result : sleep calls middle m = some s') :
    ∃ after, Slept s event m middle after ∧ s' = after.taskSchedule := by
  simp only [sleep] at result
  change (if (middle.mutex m).master ≠ some middle.taskCurrent then
      some ((middle.asleep m).continueAt .waitMessage).taskSchedule else _) = some s' at result
  split at result
  · rename_i others
    rw [handled.mutex, handled.taskCurrent] at others
    cases result
    have plain : Context.waitMessage.Plain := trivial
    refine ⟨_, ⟨Moves.leave .refl plain, ?_, .inl ⟨others, ?_⟩⟩, rfl⟩
    · simp [continueAt, setContext, asleep, setTask, handled.taskCurrent]
    · simp [continueAt, setContext, asleep, setTask, handled.taskCurrent]
  · rename_i owned
    split at result
    · contradiction
    · rename_i positive
      obtain ⟨released, release_eq, result⟩ := bind_eq_some_iff.mp result
      obtain ⟨ready, ready_eq, result⟩ := bind_eq_some_iff.mp result
      cases result
      simp only [handled.mutex, handled.taskCurrent, ne_eq, not_not] at owned
      have asleep := midway.asleep m
      set after := ready.setMutex m { ready.mutex m with prio := 0 } with after_eq
      have move : Move s event (middle.asleep m) after :=
        .free calls m 0 (.inl rfl) release_eq (.refl _) (.inl rfl) ready_eq (.inl rfl)
      have freed := (free_links asleep.links release_eq (.refl _) (.inl rfl) ready_eq
        (.inl after_eq)).2
      have unowned : (after.mutex m).master = none := by
        rw [freed.master, if_pos rfl]
      have deep : (middle.mutex m).deep = (s.mutex m).deep := by rw [handled.mutex]
      have saved : Move s event after (after.continueAt (.relock m (middle.mutex m).deep)) := by
        refine .turn _ (fun n deep same => ?_) (by simp) (by simp)
        rw [Context.relock.injEq] at same
        obtain ⟨rfl, rfl⟩ := same
        rw [unowned]
        exact ⟨by simp, not_le.mp positive, deep⟩
      refine ⟨_, ⟨(Relation.ReflTransGen.single move).tail saved, ?_,
        .inr ⟨owned, unowned, ?_⟩⟩, rfl⟩
      · obtain ⟨-, before, -, ⟨_, _, _, rfl, -⟩, rfl⟩ := State.release_eq release_eq
        obtain ⟨rfl, -⟩ := readySlaves_eq ready_eq
        have placed : (middle.asleep m).queues.place s.taskCurrent = some (.waiters m) := by
          simp [State.asleep, setTask, handled.taskCurrent]
        have absent : s.taskCurrent ∉ (middle.asleep m).slaves m := by
          rw [LinkedLists.mem_nodes, placed]
          simp
        change ((middle.asleep m).queues.appendAll .active
          ((middle.asleep m).slaves m)).place s.taskCurrent = _
        rw [LinkedLists.place_appendAll, if_neg absent]
        exact placed
      have current : after.taskCurrent = s.taskCurrent :=
        freed.taskCurrent.trans handled.taskCurrent
      change Function.update after.context after.taskCurrent
        (.relock m (middle.mutex m).deep) s.taskCurrent = _
      rw [current, deep, Function.update_self]

theorem sleep_outcome (call : event = .call (.mutexWait m) answer) (handled : Activated s middle)
    (midway : middle.Midway) (stops : ∀ irq, (s.mutex m).irq = some irq →
      (s.mutexIrq irq).pending = true → answer.served = true)
    (awake : (s.task s.taskCurrent).wait = none) (result : sleep calls middle m = some s') :
    Outcome event s s' := by
  obtain ⟨after, slept, rfl⟩ := @sleep_slept event s s' m middle calls handled midway result
  exact .waits m answer call handled stops awake slept

theorem mutexWait_outcome (midway : s.Midway) (call : event = .call (.mutexWait m) answer)
    (result : mutexWait calls s m answer = some s') :
    Outcome event s s' := by
  simp only [mutexWait] at result
  split at result
  · contradiction
  · rename_i awake
    have awake : (s.task s.taskCurrent).wait = none := by simpa using awake
    split at result
    · rename_i unattached
      exact sleep_outcome call (.refl s) midway (by simp [unattached]) awake result
    · rename_i irq attached
      split at result
      · have cleared := activated_setIrq s irq { s.mutexIrq irq with pending := false }
        obtain ⟨middle, called, rest⟩ := bind_eq_some_iff.mp result
        have handled := cleared.trans
          (callHandler_activated (midway.links.woken cleared.toWoken) called)
        have midway' := midway.woken handled.toWoken
        split at rest
        · rename_i served
          exact sleep_outcome call handled midway' (fun _ _ _ => served)
            awake rest
        · obtain ⟨after, activated, last⟩ := bind_eq_some_iff.mp rest
          cases last
          have activated' := handled.trans (mutexActivate_activated midway'.links activated)
          exact .leave (.single (.activated activated')) trivial
      · rename_i quiet
        refine sleep_outcome call (.refl s) midway (fun other same pending => ?_) awake result
        rw [attached, Option.some.injEq] at same
        exact absurd (same ▸ pending) quiet

theorem taskCreate_outcome {prio : Int} (call : event = .call (.taskCreate t prio) answer)
    (unborn : s.life t = .unborn) (result : s.taskCreate t prio = some s') :
    Outcome event s s' := by
  simp only [taskCreate] at result
  obtain ⟨created, activated, last⟩ := bind_eq_some_iff.mp result
  cases last
  exact .stays (Moves.leave (.single (.create t prio answer call unborn activated)) (by trivial))

theorem setTask_setTask (s : State) (t : TaskId) (first second : Task) :
    (s.setTask t first).setTask t second = s.setTask t second := by
  simp [setTask]

theorem removed_eq (s : State) (t : TaskId) :
    s.removed t =
      if t = s.taskCurrent then
        { s with
          life := Function.update s.life t .deleted
          queues := s.queues.unlink t
          taskNeedSchedule := true }
      else
        { s with
          life := Function.update s.life t .deleted
          queues := s.queues.unlink t } := by
  rcases em (t = s.taskCurrent) with same | other
  · simp [removed, same]
  · simp [removed, other]

/-- `task_delete` takes a task out of all lists, then recalculates priorities. -/
theorem taskDelete_eq (result : taskDelete calls s t message = some s') :
    ∃ middle,
      ((∃ m, (s.task t).lock = some m ∧ (s.mutex m).prio ≤ (s.task t).prio ∧
          mutexRecalculatePrio calls (s.removed t) m = some middle) ∨
        middle = s.removed t ∧
          ∀ m, (s.task t).lock = some m → (s.task t).prio < (s.mutex m).prio) ∧
      s' = (middle.setTask t { middle.task t with lock := none, wait := none }).continueAt
        (.delete t message) := by
  simp only [taskDelete, ← removed_eq] at result
  split at result
  · rename_i unblocked
    cases result
    have same : ({ (s.removed t).task t with wait := none } : Task) =
        { (s.removed t).task t with lock := none, wait := none } := by simp [unblocked]
    rw [same]
    exact ⟨s.removed t, .inr ⟨rfl, fun m blocked => by simp [removed, blocked] at unblocked⟩, rfl⟩
  · rename_i m blocked
    split at result
    · rename_i lower
      obtain ⟨middle, chain, last⟩ := bind_eq_some_iff.mp result
      cases last
      refine ⟨middle, .inl ⟨m, blocked, lower, chain⟩, ?_⟩
      rw [setTask_setTask]
      simp [setTask]
    · rename_i higher
      cases result
      refine ⟨s.removed t, .inr ⟨rfl, fun n blocked' => ?_⟩, ?_⟩
      · obtain rfl : m = n := Option.some.inj (blocked.symm.trans blocked')
        exact not_le.mp higher
      · rw [setTask_setTask]
        simp [setTask]

theorem taskDelete_outcome (call : event = .call (.taskDelete t message) answer)
    (born : s.life t ≠ .unborn) (result : taskDelete calls s t message = some s') :
    Outcome event s s' := by
  obtain ⟨middle, chain, rfl⟩ := taskDelete_eq result
  set removed := middle.setTask t { middle.task t with lock := none, wait := none } with after_eq
  have deleted : removed.life t = .deleted := by
    have repriced : Repriced (s.removed t) middle := by
      rcases chain with ⟨m, -, -, chain⟩ | ⟨rfl, -⟩
      · exact mutexRecalculatePrio_repriced chain
      · exact .refl _
    obtain ⟨_, _, _, rfl, -⟩ := repriced
    simp [after_eq, setTask, State.reprice, State.removed]
  have move : Move s event s removed := .remove calls t message answer call born chain after_eq
  refine .stays ((Relation.ReflTransGen.single move).tail (.turn _ (by simp) (by simp) ?_))
  rintro u message' same
  rw [Context.delete.injEq] at same
  exact .inr (same.1 ▸ deleted)

theorem deleteLoop_outcome (midway : s.Midway) (here : s.context s.taskCurrent = .delete t message)
    (result : deleteLoop calls s t message answer = some s') : Outcome event s s' := by
  simp only [deleteLoop] at result
  split at result
  · split at result
    · refine mutexUnlock_outcome midway (fun moves => moves.tail ?_) result
      exact .turn _ (by simp) (by simp) fun _ _ _ => .inl here
    · contradiction
  · rename_i last
    have move : Move s event s (s.setTask t { s.task t with basePrio := 0 }) :=
      .bury t message here last
    exact mutexSignal_outcome (.single move) (midway.setBasePrio t 0) (by trivial) result

theorem taskSetPriority_outcome {prio : Int} (call : event = .call (.taskSetPriority t prio) answer)
    (result : taskSetPriority calls s t prio = some s') : Outcome event s s' := by
  simp only [taskSetPriority] at result
  obtain ⟨middle, chain, last⟩ := bind_eq_some_iff.mp result
  cases last
  exact .leave (.single (.prioritize calls t prio answer call chain)) trivial

theorem Regrouped.refl (s : State) : Regrouped s s [] :=
  ⟨s.group, s.listeners, by simp, by simp [heard], fun _ => rfl⟩

theorem Regrouped.setGroup (regrouped : Regrouped s x observations) {record : Group}
    (same : record.waiter = (x.group g).waiter) :
    Regrouped s (x.setGroup g record) observations := by
  obtain ⟨group, listeners, rfl, silent, waiters⟩ := regrouped
  refine ⟨_, _, rfl, silent, fun h => ?_⟩
  obtain rfl | other := eq_or_ne h g
  · simpa [same] using waiters h
  · simpa [other] using waiters h

theorem Regrouped.setSlot (regrouped : Regrouped s x observations) (slot : GroupId × Nat)
    (record : Slot) :
    Regrouped s (x.setSlot slot record) observations :=
  regrouped.setGroup rfl

theorem Regrouped.relist (regrouped : Regrouped s x observations)
    (listeners : LinkedLists MutexId (GroupId × Nat)) :
    Regrouped s { x with listeners := listeners } observations := by
  obtain ⟨group, _, rfl, silent, waiters⟩ := regrouped
  exact ⟨group, listeners, rfl, silent, waiters⟩

theorem Regrouped.observe {x : State} (regrouped : Regrouped s x []) (observation : Observation)
    (silent : ∀ m, heard m [observation] = none) :
    Regrouped s (x.observe observation) [observation] := by
  obtain ⟨group, listeners, rfl, -, waiters⟩ := regrouped
  exact ⟨group, listeners, by simp [State.observe], silent, waiters⟩

theorem mutexGroupAdd_outcome (g : GroupId) (m : MutexId) (call : s.Regroups event) :
    Outcome event s (s.mutexGroupAdd g m) := by
  simp only [mutexGroupAdd]
  split
  · exact .regroups [] 0 call (.refl s)
  · have added := (Regrouped.refl s).setSlot (g, (s.group g).num)
      { (s.group g).slot (s.group g).num with lock := m, message := 0 }
    exact .regroups [] 1 call (added.setGroup rfl)

theorem mutexGroupListen_outcome (call : s.Regroups event)
    (result : s.mutexGroupListen g = some s') : Outcome event s s' := by
  simp only [mutexGroupListen] at result
  obtain ⟨middle, loop, last⟩ := bind_eq_some_iff.mp result
  cases last
  have changed : Regrouped s middle [] :=
    foldlM_invariant (Regrouped s · []) (fun i _ x _ regrouped turn => by
      simp only [listenSlot] at turn
      split at turn
      · contradiction
      · cases turn
        exact (regrouped.setSlot _ _).relist _) (.refl s) loop
  exact .regroups _ 0 call (changed.observe (.listened g (s.group g).num) fun _ => rfl)

theorem mutexGroupUnlisten_outcome (call : s.Regroups event)
    (result : s.mutexGroupUnlisten g = some s') : Outcome event s s' := by
  simp only [mutexGroupUnlisten] at result
  obtain ⟨middle, loop, last⟩ := bind_eq_some_iff.mp result
  cases last
  have changed : Regrouped s middle [] :=
    foldlM_invariant (Regrouped s · []) (fun i _ x _ regrouped turn => by
      simp only [unlistenSlot] at turn
      split at turn
      · cases turn
        exact (regrouped.setSlot _ _).relist _
      · contradiction) (.refl s) loop
  exact .regroups _ 0 call (changed.observe (.unlistened g) fun _ => rfl)

theorem groupWaitLoop_outcome (call : (∃ answer, event = .call (.mutexGroupWait g) answer) ∨
      (∃ answer, event = .resume answer) ∧ s.context s.taskCurrent = .groupWait g)
    (awake : s.taskCurrent ≠ taskIdle → (s.task s.taskCurrent).wait = none) :
    Outcome event s (s.groupWaitLoop g) := by
  have regroups : s.Regroups event := by
    rcases call with ⟨answer, rfl⟩ | ⟨⟨answer, rfl⟩, here⟩
    · trivial
    · exact ⟨g, here⟩
  simp only [groupWaitLoop]
  split
  · rename_i i _
    have changed := (Regrouped.refl s).setSlot (g, i) { (s.group g).slot i with active := false }
    exact .regroups _ 0 regroups (changed.observe (.delivered g i _ _) fun _ => rfl)
  · rename_i none
    refine .suspends g call (fun i bound => ?_) awake
    simpa using List.find?_eq_none.mp none i (by simpa using bound)

theorem serveIrq_activated (links : s.Links) {irq : Irq}
    (result : s.serveIrq irq answer = some s') : Activated s s' := by
  simp only [serveIrq] at result
  split at result
  · cases result
    exact .refl s
  · rename_i m _
    split at result
    · have arrived := activated_observe s (.arrived irq (s.mutex m).master) fun _ => rfl
      split at result
      · cases result
        exact arrived.trans (activated_setIrq _ _ _)
      · obtain ⟨middle, called, rest⟩ := bind_eq_some_iff.mp result
        have handled := arrived.trans
          (callHandler_activated (links.woken arrived.toWoken) called)
        split at rest
        · cases rest
          exact handled
        · exact handled.trans (mutexActivate_activated (links.woken handled.toWoken) rest)
    · exact mutexActivate_activated links result

theorem irqHandler_outcome (links : s.Links) {irqs : List (Irq × Answer)}
    (result : s.irqHandler irqs = some s') : Outcome event s s' := by
  simp only [irqHandler] at result
  obtain ⟨middle, loop, last⟩ := bind_eq_some_iff.mp result
  cases last
  have served : Activated s middle :=
    foldlM_invariant (Activated s) (fun _ _ _ _ activated turn =>
      activated.trans (serveIrq_activated (links.woken activated.toWoken) turn)) (.refl s) loop
  simp only [scheduleIfNeeded]
  split
  · exact .switches (.single (.activated served))
  · exact .stays (.single (.activated served))

end Functions

variable {s : State} {m : MutexId} {again : Context} {s' : State} {calls : Nat} {event : Event}
  {t : TaskId}

theorem Sound.midway (sound : s.Sound) (unblocked : (s.task s.taskCurrent).lock = none) :
    s.Midway :=
  { sound with unblocked }

theorem block_eq_none {owner : TaskId} (blocked : (s.task s.taskCurrent).lock ≠ none) :
    s.block m owner again = none := by
  simp [block, isSome_iff_ne_none, blocked]

theorem Sound.unblocked (sound : s.Sound) (result : State.step calls s event = some s') :
    (s.task s.taskCurrent).lock = none := by
  rcases blocked : (s.task s.taskCurrent).lock with _ | m
  · rfl
  exfalso
  have contends := (sound.links.task s.taskCurrent).contends m blocked
  obtain ⟨owner, other, owned⟩ := sound.kept s.taskCurrent m blocked
  have busy : (s.task s.taskCurrent).lock ≠ none := by simp [blocked]
  have halts : ∀ again, s.block m owner again = none := fun _ => block_eq_none busy
  cases event with
  | call c answer =>
    simp only [step] at result
    split at result
    · rename_i user
      simp [user, Context.ContendsFor] at contends
    · contradiction
  | interrupt irqs =>
    simp only [step] at result
    split at result
    · rename_i user
      simp [user, Context.ContendsFor] at contends
    · contradiction
  | resume answer =>
    simp only [step, State.resume] at result
    split at result <;> rename_i here <;> simp only [here, Context.ContendsFor] at contends
    · subst contends
      simp [lockLoop, owned, other, halts] at result
    · subst contends
      simp [mutexLockIrq, lockLoop, owned, other, halts] at result
    · subst contends
      simp [relockLoop, owned, halts] at result

theorem call_outcome {c : Call} {answer : Answer} (sound : s.Sound) (midway : s.Midway)
    (user : s.context s.taskCurrent = .user) (result : State.call calls s c answer = some s') :
    Outcome (.call c answer) s s' := by
  have fresh : ∀ m deep, s.context s.taskCurrent ≠ .relock m deep := by simp [user]
  simp only [State.call] at result
  split at result
  swap
  · contradiction
  rename_i admitted
  cases c with
  | taskCreate t prio =>
    exact taskCreate_outcome rfl (by simpa [admits] using admitted) result
  | taskDelete t message =>
    exact taskDelete_outcome rfl (by simpa [admits] using admitted) result
  | taskSetPriority t prio => exact taskSetPriority_outcome rfl result
  | taskYield =>
    cases result
    exact .yields answer rfl
  | mutexLock m =>
    simp only [mutexLock] at result
    split at result
    · contradiction
    · refine lockLoop_outcome (fun x => Moves.leave .refl (by trivial)) rfl ?_ ?_ (fresh m) result
      · rfl
      · trivial
  | mutexTrylock m => exact mutexTrylock_outcome (.inr ⟨answer, rfl⟩) (fresh m) result
  | mutexLockIrq m irq handler arg =>
    refine lockLoop_outcome
      (fun x => Moves.leave (.single (.attach m irq handler arg)) (by trivial)) rfl ?_ ?_
      (fresh m) result
    · rfl
    · trivial
  | mutexUnlock m =>
    refine mutexUnlock_outcome midway (fun moves => moves.leave ?_) result
    trivial
  | mutexUnlockIrq m => exact mutexUnlockIrq_outcome midway result
  | mutexAttachIrq m irq handler arg =>
    simp only [mutexAttachIrq] at result
    split at result
    · contradiction
    · cases result
      exact .stays (Moves.leave (.single (.attach m irq handler arg)) (by trivial))
  | mutexSignal m message => exact mutexSignal_outcome .refl midway (by trivial) result
  | mutexWait m => exact mutexWait_outcome midway rfl result
  | mutexGroupInit g size =>
    cases result
    exact .regroups [] 0 trivial ((Regrouped.refl s).setGroup rfl)
  | mutexGroupAdd g m =>
    cases result
    exact mutexGroupAdd_outcome g m trivial
  | mutexGroupListen g => exact mutexGroupListen_outcome trivial result
  | mutexGroupUnlisten g => exact mutexGroupUnlisten_outcome trivial result
  | mutexGroupWait g =>
    simp only [mutexGroupWait] at result
    split at result
    · contradiction
    · cases result
      exact groupWaitLoop_outcome (.inl ⟨answer, rfl⟩) sound.awake
  | taskSchedule =>
    cases result
    exact .switches .refl

theorem resume_outcome {answer : Answer} (sound : s.Sound) (midway : s.Midway)
    (result : State.resume calls s answer = some s') :
    Outcome (.resume answer) s s' := by
  simp only [State.resume] at result
  split at result <;> rename_i here
  · contradiction
  · cases result
    have turned : Moves s (.resume answer) s (s.continueAt .user) := Moves.leave .refl trivial
    exact .stays (turned.tail (.activated (activated_observe _ _ fun _ => rfl)))
  · refine lockLoop_outcome (fun x => Moves.leave .refl (by trivial)) (by simp [wanted, here])
      ?_ ?_ (by simp [here]) result
    · rfl
    · trivial
  · refine lockLoop_outcome (fun x => Moves.leave (.single (.attach _ _ _ _)) (by trivial))
      (by simp [wanted, here]) ?_ ?_ (by simp [here]) result
    · rfl
    · trivial
  · cases result
    exact .stays (Moves.leave .refl (by trivial))
  · exact relockLoop_outcome midway (by simp [wanted, here]) here result
  · cases result
    exact groupWaitLoop_outcome (.inr ⟨⟨answer, rfl⟩, here⟩) sound.awake
  · exact deleteLoop_outcome midway here result
  · cases result
    exact .leave .refl trivial

theorem step_outcome (sound : s.Sound) (result : State.step calls s event = some s') :
    Outcome event s s' := by
  have midway := sound.midway (sound.unblocked result)
  cases event with
  | call c answer =>
    simp only [step] at result
    split at result
    · rename_i user
      exact call_outcome sound midway user result
    · contradiction
  | interrupt irqs =>
    simp only [step] at result
    split at result
    · exact irqHandler_outcome midway.links result
    · contradiction
  | resume answer => exact resume_outcome sound midway result

/-- The scheduler chooses the first ready task of the highest priority, if that is higher than the
priority of the idle task. -/
theorem taskPolicy_firstMaximum (s : State) :
    FirstMaximum (fun t => (s.task t).prio) s.active taskIdle s.taskPolicy :=
  foldl_firstMaximum _ _ _

theorem taskPolicy_cases (s : State) : s.taskPolicy = taskIdle ∨ s.taskPolicy ∈ s.active :=
  s.taskPolicy_firstMaximum.cases

theorem Settled.schedule (settled : s.Settled) : s.taskSchedule.Sound := by
  have linked := settled.links.task s.taskPolicy
  have placed : s.taskPolicy ≠ taskIdle → s.queues.place s.taskPolicy = some .active := fun busy =>
    s.queues.mem_nodes.mp (s.taskPolicy_cases.resolve_left busy)
  constructor
  case toSettled =>
    exact ⟨⟨settled.links.owner, fun t => { settled.links.task t with }⟩, settled.kept,
      settled.relocks⟩
  case born =>
    intro unborn
    obtain ⟨busy, unlinked, -⟩ := linked.unborn unborn
    simp [placed busy] at unlinked
  case unlisted =>
    intro busy g waits
    obtain ⟨-, unlinked, -⟩ := linked.groupWaiter busy g waits
    simp [placed busy] at unlinked
  case awake =>
    intro busy
    rcases waits : (s.task s.taskPolicy).wait with _ | m
    · exact waits
    · have joined := linked.waits busy m waits
      simp [placed busy] at joined

def blocked (s : State) (m : MutexId) (again : Context) : State :=
  ({ s.setTask s.taskCurrent { s.task s.taskCurrent with lock := some m } with
      queues := s.queues.append (.slaves m) s.taskCurrent } : State).continueAt again

theorem block_eq {owner : TaskId} (result : s.block m owner again = some s') :
    0 < (s.mutex m).deep ∧ ∃ middle, Repriced (s.blocked m again) middle ∧
      s' = middle.taskSchedule := by
  simp only [block] at result
  split at result
  · contradiction
  · rename_i free
    simp only [not_or, not_le] at free
    refine ⟨free.2, ?_⟩
    split at result
    · split at result
      · exact ⟨_, (repriced_setMutex _ m _).trans (repriced_setTask _ owner _),
          (Option.some.inj result).symm⟩
      · exact ⟨_, repriced_setMutex _ m _, (Option.some.inj result).symm⟩
    · exact ⟨_, .refl _, (Option.some.inj result).symm⟩

theorem Midway.blocked {s : State} (midway : s.Midway)
    (awake : s.taskCurrent ≠ taskIdle → (s.task s.taskCurrent).wait = none) {m : MutexId}
    {owner : TaskId} (owned : (s.mutex m).master = some owner) (other : owner ≠ s.taskCurrent)
    {again : Context} (contends : again.ContendsFor m)
    (positive : ∀ deep, again = .relock m deep → 0 < deep) : (s.blocked m again).Settled := by
  refine ⟨⟨midway.links.owner, fun t => ?_⟩, fun t n => ?_, fun t n deep => ?_⟩
  · obtain rfl | different := eq_or_ne t s.taskCurrent
    · constructor
      case slave => simp [State.blocked, setTask, continueAt, setContext]
      case waiter => simp [State.blocked, setTask, continueAt, setContext]
      case waits =>
        intro busy n
        simp [State.blocked, setTask, continueAt, setContext, awake busy]
      case groupWaiter => exact fun busy g waits => absurd waits (midway.unlisted busy g)
      case contends =>
        intro n here
        obtain rfl : m = n := by
          simpa [State.blocked, setTask, continueAt, setContext] using here
        simpa [State.blocked, setTask, continueAt, setContext] using contends
      case unborn => exact fun unborn => absurd unborn midway.born
    · apply (midway.links.task t).congr
      case waiter => exact fun _ => id
      case owned => exact fun _ _ => id
      all_goals simp [State.blocked, setTask, continueAt, setContext, different]
  · obtain rfl | different := eq_or_ne t s.taskCurrent
    · intro here
      obtain rfl : m = n := by
        simpa [State.blocked, setTask, continueAt, setContext] using here
      exact ⟨owner, other, owned⟩
    · simpa [State.blocked, setTask, continueAt, setContext, different] using midway.kept t n
  · obtain rfl | different := eq_or_ne t s.taskCurrent
    · intro here
      obtain rfl : again = .relock n deep := by
        simpa [State.blocked, setTask, continueAt, setContext] using here
      obtain rfl : n = m := contends
      refine ⟨?_, positive deep rfl⟩
      change (s.mutex n).master ≠ some s.taskCurrent
      rw [owned]
      simpa using other
    · simpa [State.blocked, setTask, continueAt, setContext, different] using
        midway.relocks t n deep

theorem Midway.suspended {s : State} (midway : s.Midway)
    (awake : s.taskCurrent ≠ taskIdle → (s.task s.taskCurrent).wait = none) (g : GroupId) :
    (s.suspended g).Settled := by
  refine ⟨⟨midway.links.owner, fun t => ?_⟩, fun t n => ?_, fun t n deep => ?_⟩
  · obtain rfl | different := eq_or_ne t s.taskCurrent
    · constructor
      case slave => simp [State.suspended, continueAt, setContext, midway.unblocked]
      case waiter => simp [State.suspended, continueAt, setContext]
      case waits =>
        intro busy n
        simp [State.suspended, continueAt, setContext, awake busy]
      case groupWaiter =>
        intro busy h waits
        obtain rfl | elsewhere := eq_or_ne h g
        · simp [State.suspended, continueAt, setContext, awake busy]
        · refine absurd ?_ (midway.unlisted busy h)
          simpa [State.suspended, continueAt, setContext, elsewhere] using waits
      case contends => simp [State.suspended, continueAt, setContext, midway.unblocked]
      case unborn => exact fun unborn => absurd unborn midway.born
    · apply (midway.links.task t).congr
      case waiter =>
        intro h
        obtain rfl | elsewhere := eq_or_ne h g
        · simp [State.suspended, continueAt, setContext, different.symm]
        · simp [State.suspended, continueAt, setContext, elsewhere]
      case owned => exact fun _ _ => id
      all_goals simp [State.suspended, continueAt, setContext, different]
  · exact midway.kept t n
  · obtain rfl | different := eq_or_ne t s.taskCurrent
    · simp [State.suspended, continueAt, setContext]
    · simpa [State.suspended, continueAt, setContext, different] using midway.relocks t n deep

theorem Moves.taskCurrent {start : State} {event : Event} {s s' : State} (midway : s.Midway)
    (moves : Moves start event s s') : s'.taskCurrent = s.taskCurrent := by
  induction moves with
  | refl => rfl
  | tail moves move ih => exact (move.taskCurrent (Moves.midway midway moves)).trans ih

theorem Moves.wait_none {start : State} {event : Event} {s s' : State} (midway : s.Midway)
    (moves : Moves start event s s') {t : TaskId} (free : (s.task t).wait = none) :
    (s'.task t).wait = none := by
  induction moves with
  | refl => exact free
  | tail moves move ih => exact move.wait_none (Moves.midway midway moves) ih

theorem Regrouped.undisturbed {observations : List Observation}
    (regrouped : Regrouped s s' observations) (t : TaskId) : Undisturbed s s' t := by
  obtain ⟨_, _, rfl, -⟩ := regrouped
  exact ⟨rfl, rfl, rfl, rfl, rfl, rfl⟩

theorem Midway.regrouped {s s' : State} {observations : List Observation} (midway : s.Midway)
    (regrouped : Regrouped s s' observations) : s'.Midway := by
  have same := regrouped.undisturbed
  obtain ⟨group, listeners, rfl, -, waiters⟩ := regrouped
  exact midway.congr rfl rfl rfl waiters same

theorem Sound.step (sound : s.Sound) (result : State.step calls s event = some s') : s'.Sound := by
  have midway := sound.midway (sound.unblocked result)
  cases step_outcome sound result with
  | stays moves =>
    refine { Moves.midway midway moves with awake := fun busy => ?_ }
    rw [Moves.taskCurrent midway moves] at busy ⊢
    exact Moves.wait_none midway moves (sound.awake busy)
  | switches moves => exact (Moves.midway midway moves).toSettled.schedule
  | yields => exact ((midway.yield sound.awake).turn (by simp)).toSettled.schedule
  | waits m answer _ handled _ _ slept =>
    have asleep := (midway.woken handled.toWoken).asleep m
    exact (Moves.midway asleep slept.later).toSettled.schedule
  | blocks m owner again _ owned other contends saved blocked =>
    obtain ⟨-, middle, repriced, rfl⟩ := block_eq blocked
    have settled := midway.blocked sound.awake owned other contends fun deep same =>
      (saved deep same).1
    have links := settled.links.reprice repriced
    obtain ⟨_, _, _, rfl, -⟩ := repriced
    exact Settled.schedule ⟨links, settled.kept, settled.relocks⟩
  | @regroups middle observations value _ regrouped =>
    have turned : (middle.continueAt (.ret value)).Midway :=
      (midway.regrouped regrouped).turn (by simp)
    obtain ⟨_, _, rfl, -⟩ := regrouped
    exact { turned with awake := sound.awake }
  | suspends g _ _ awake => exact (midway.suspended awake g).schedule

theorem sound_init (small : SmallInt) : (init small).Sound := by
  constructor
  case toSettled =>
    refine ⟨⟨fun m => rfl, fun t => ?_⟩, by simp [init], by simp [init]⟩
    constructor
    case slave =>
      intro m
      obtain rfl | other := eq_or_ne t taskIdle
      · simp [init]
      · simp [init, other]
    case waiter =>
      intro m
      obtain rfl | other := eq_or_ne t taskIdle
      · simp [init]
      · simp [init, other]
    case unborn =>
      intro unborn
      obtain rfl | other := eq_or_ne t taskIdle
      · simp [init] at unborn
      · simp [init, other]
    all_goals simp [init]
  all_goals simp [init]

theorem Sound.run {condition : State → Event → Prop} {s s' : State} (sound : s.Sound)
    (run : RunIf condition s s') : s'.Sound :=
  run_invariant Sound (fun sound ⟨_, _, _, result⟩ => Sound.step sound result) sound run

theorem sound_runIf {condition : State → Event → Prop} {small : SmallInt}
    (run : RunIf condition (init small) s) : s.Sound :=
  (sound_init small).run run

/-- An event neither creates nor deletes a task. -/
def Spares (event : Event) (t : TaskId) : Prop :=
  (∀ prio answer, event ≠ .call (.taskCreate t prio) answer) ∧
    ∀ message answer, event ≠ .call (.taskDelete t message) answer

/-- What can happen to a task that does not execute. -/
def Passive (s s' : State) (t : TaskId) : Prop :=
  Undisturbed s s' t ∨ Roused s s' t

theorem Undisturbed.rouse {s'' : State} (first : Undisturbed s s' t) (second : Roused s' s'' t)
    (waiter : ∀ g, (s'.group g).waiter = some t →
      (s.group g).waiter = some t) : Roused s s'' t where
  lock := second.lock
  wait := second.wait
  message free := (second.message (first.wait.trans free)).trans first.message
  place := second.place
  context := second.context.trans first.context
  life := second.life.trans first.life
  cause := by
    rw [← first.lock, ← first.place]
    refine second.cause.imp_right (Or.imp_right ?_)
    rintro ⟨unlinked, g, waits⟩
    exact ⟨unlinked, g, waiter g waits⟩

theorem Roused.undisturbed {s'' : State} (first : Roused s s' t) (second : Undisturbed s' s'' t) :
    Roused s s'' t where
  lock := second.lock.trans first.lock
  wait := second.wait.trans first.wait
  message free := second.message.trans (first.message free)
  place := second.place.trans first.place
  context := second.context.trans first.context
  life := second.life.trans first.life
  cause := first.cause

theorem Passive.trans {s s' s'' : State} {t : TaskId} (first : Passive s s' t)
    (second : Passive s' s'' t) (waiter : ∀ g, (s'.group g).waiter = some t →
      (s.group g).waiter = some t) : Passive s s'' t := by
  rcases first with same | roused
  · exact second.imp same.trans fun roused => same.rouse roused waiter
  · rcases second with same | again
    · exact .inr (roused.undisturbed same)
    · have cause := again.cause
      simp [roused.lock, roused.place] at cause

theorem Move.waiter {start : State} {event : Event} {s s' : State} (midway : s.Midway)
    (move : Move start event s s') (g : GroupId) :
    (s'.group g).waiter = (s.group g).waiter ∨ (s'.group g).waiter = none := by
  cases move with
  | activated activated => exact activated.waiter g
  | acquire m deep =>
    obtain ⟨_, _, _, after, -⟩ := acquire_repriced s m
    exact .inl (by simp [after, setMutex, State.reprice])
  | free calls m deep _ released_eq served_eq detached_eq ready_eq after_eq =>
    exact (free_links midway.links released_eq served_eq detached_eq ready_eq
      after_eq).2.waiter g
  | create u prio answer call unborn result =>
    obtain ⟨-, -, rfl⟩ := taskActivate_eq result
    exact .inl rfl
  | remove calls u message answer call born result after_eq =>
    obtain rfl := after_eq
    rcases result with ⟨m, -, -, chain⟩ | ⟨rfl, -⟩
    · obtain ⟨_, _, _, rfl, -⟩ := mutexRecalculatePrio_repriced chain
      exact .inl rfl
    · exact .inl rfl
  | prioritize calls u prio _ _ result =>
    obtain ⟨_, _, _, rfl, -⟩ := taskRecalculatePrio_repriced result
    exact .inl rfl
  | _ => exact .inl rfl

theorem Moves.waiter {start : State} {event : Event} {s s' : State} (midway : s.Midway)
    (moves : Moves start event s s') (g : GroupId) :
    (s'.group g).waiter = (s.group g).waiter ∨ (s'.group g).waiter = none := by
  induction moves with
  | refl => exact .inl rfl
  | tail moves move ih =>
    rcases move.waiter (Moves.midway midway moves) g with same | gone
    · rw [same]; exact ih
    · exact .inr gone

theorem Moves.kept_waiter {start : State} (midway : s.Midway) (moves : Moves start event s s')
    {g : GroupId} (waits : (s'.group g).waiter = some t) :
    (s.group g).waiter = some t := by
  rcases Moves.waiter midway moves g with kept | gone
  · exact kept ▸ waits
  · rw [gone] at waits
    contradiction

theorem Move.passive {start : State} (midway : s.Midway) (move : Move start event s s')
    (other : t ≠ s.taskCurrent) (spared : Spares event t) : Passive s s' t := by
  cases move.shift midway t with
  | undisturbed same => exact .inl same
  | roused roused => exact .inr roused
  | created call =>
    obtain ⟨prio, answer, same⟩ := call
    exact absurd same (spared.1 prio answer)
  | deleted call =>
    obtain ⟨message, answer, same⟩ := call
    exact absurd same (spared.2 message answer)
  | turned current => exact absurd current other

theorem Moves.passive {start : State} {event : Event} {s s' : State} (midway : s.Midway)
    (moves : Moves start event s s') {t : TaskId} (other : t ≠ s.taskCurrent)
    (spared : Spares event t) : Passive s s' t := by
  induction moves with
  | refl => exact .inl ⟨rfl, rfl, rfl, rfl, rfl, rfl⟩
  | tail moves move ih =>
    have current := Moves.taskCurrent midway moves
    exact ih.trans (move.passive (Moves.midway midway moves) (current ▸ other) spared)
      fun g => Moves.kept_waiter midway moves

theorem taskSchedule_undisturbed (s : State) (t : TaskId) : Undisturbed s s.taskSchedule t :=
  ⟨rfl, rfl, rfl, rfl, rfl, rfl⟩

theorem continueAt_undisturbed {context : Context} (other : t ≠ s.taskCurrent) :
    Undisturbed s (s.continueAt context) t := by
  constructor <;> simp [continueAt, setContext, other]

theorem asleep_undisturbed (other : t ≠ s.taskCurrent) :
    Undisturbed s (s.asleep m) t := by
  constructor <;> simp [asleep, setTask, other]

theorem blocked_undisturbed (other : t ≠ s.taskCurrent) : Undisturbed s (s.blocked m again) t := by
  constructor <;> simp [blocked, setTask, continueAt, setContext, other]

theorem suspended_undisturbed {g : GroupId} (other : t ≠ s.taskCurrent) :
    Undisturbed s (s.suspended g) t := by
  constructor <;> simp [suspended, continueAt, setContext, other]

theorem step_passive (sound : s.Sound) (result : State.step calls s event = some s')
    (other : t ≠ s.taskCurrent) (spared : Spares event t) : Passive s s' t := by
  have midway := sound.midway (sound.unblocked result)
  have scheduled : ∀ {x : State}, Passive s x t → Passive s x.taskSchedule t := fun before =>
    before.imp (·.trans (taskSchedule_undisturbed _ t))
      (·.undisturbed (taskSchedule_undisturbed _ t))
  cases step_outcome sound result with
  | stays moves => exact Moves.passive midway moves other spared
  | switches moves => exact scheduled (Moves.passive midway moves other spared)
  | yields =>
    refine scheduled (.inl ?_)
    constructor <;> simp [continueAt, setContext, other]
  | @waits m answer middle after _ handled _ _ slept =>
    have served : Moves s event s middle := .single (.activated handled)
    have current := Moves.taskCurrent midway served
    have midway' := Moves.midway midway served
    have first := Moves.passive midway served other spared
    rw [← current] at other
    have rest := Moves.passive (midway'.asleep m) slept.later other spared
    refine scheduled (first.trans ?_ fun g => Moves.kept_waiter midway served)
    exact Passive.trans (.inl (asleep_undisturbed other)) rest fun g => id
  | blocks m owner again _ owned other' contends positive blocked =>
    obtain ⟨-, middle, repriced, rfl⟩ := block_eq blocked
    exact scheduled (.inl ((blocked_undisturbed other).trans (repriced.undisturbed t)))
  | regroups observations value _ regrouped =>
    have same := regrouped.undisturbed t
    obtain ⟨_, _, rfl, -⟩ := regrouped
    refine .inl (same.trans ?_)
    constructor <;> simp [continueAt, setContext, other]
  | suspends g => exact scheduled (.inl (suspended_undisturbed other))

end State
end Uos
