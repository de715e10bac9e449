import Uos.Kernel.Effects

/-!
# Links between tasks and locks

`Links` says that the pointers in the records agree with the lists: a lock is in the list of its
master, a blocked task in the list of the lock that blocks it, a waiting task in the list of the
lock it waits for.  The idle task is scheduled when nothing else is ready, so its own waiting ends
without a signal and leaves its pointer `wait` behind; two clauses leave it out.
-/

namespace Uos

/-- Whether a task that continues at this point is in a loop that acquires a lock. -/
def Context.ContendsFor : Context → MutexId → Prop
  | .lock m, n | .lockIrq m _ _ _, n | .relock m _, n => m = n
  | _, _ => False

namespace State

/-- The pointers in the record of a task agree with the list it is in. -/
structure Linked (s : State) (t : TaskId) : Prop where
  slave : ∀ m, s.queues.place t = some (.slaves m) ↔ (s.task t).lock = some m
  waiter : ∀ m, s.queues.place t = some (.waiters m) → (s.task t).wait = some m
  waits : t ≠ taskIdle → ∀ m, (s.task t).wait = some m → s.queues.place t = some (.waiters m)
  groupWaiter : t ≠ taskIdle → ∀ g, (s.group g).waiter = some t →
    s.context t = .groupWait g ∧ s.queues.place t = none ∧ (s.task t).wait = none
  contends : ∀ m, (s.task t).lock = some m → (s.context t).ContendsFor m
  unborn : s.life t = .unborn →
    t ≠ taskIdle ∧ s.queues.place t = none ∧ s.context t = .user ∧ (s.task t).wait = none ∧
      ∀ m, s.owned.place m ≠ some t

/-- The pointers in the records agree with the lists. -/
structure Links (s : State) : Prop where
  owner : ∀ m, s.owned.place m = (s.mutex m).master
  task : ∀ t, s.Linked t

variable {s : State} {t : TaskId} {m : MutexId}

theorem Links.mem_owned (links : s.Links) :
    m ∈ s.owned.nodes t ↔ (s.mutex m).master = some t := by
  rw [s.owned.mem_nodes, links.owner]

theorem Links.mem_slaves (links : s.Links) :
    t ∈ s.slaves m ↔ (s.task t).lock = some m := by
  rw [s.queues.mem_nodes, (links.task t).slave]

theorem Linked.congr {s' : State} (linked : s.Linked t) (lock : (s'.task t).lock = (s.task t).lock)
    (wait : (s'.task t).wait = (s.task t).wait) (place : s'.queues.place t = s.queues.place t)
    (context : s'.context t = s.context t) (life : s'.life t = s.life t)
    (waiter : ∀ g, (s'.group g).waiter = some t → (s.group g).waiter = some t)
    (owned : s.life t = .unborn → ∀ m, s'.owned.place m = some t → s.owned.place m = some t) :
    s'.Linked t where
  slave := by rw [lock, place]; exact linked.slave
  waiter := by rw [wait, place]; exact linked.waiter
  waits := by rw [wait, place]; exact linked.waits
  groupWaiter busy g waits := by
    rw [context, place, wait]
    exact linked.groupWaiter busy g (waiter g waits)
  contends := by rw [lock, context]; exact linked.contends
  unborn unborn := by
    rw [life] at unborn
    obtain ⟨busy, unlinked, user, waitNone, owns⟩ := linked.unborn unborn
    rw [place, context, wait]
    exact ⟨busy, unlinked, user, waitNone, fun m placed => owns m (owned unborn m placed)⟩

theorem Links.reprice {s' : State} (links : s.Links) (repriced : Repriced s s') :
    s'.Links := by
  obtain ⟨_, _, _, rfl, _⟩ := repriced
  exact ⟨links.owner, fun t => { links.task t with }⟩

theorem Links.setMutex (links : s.Links) {record : Mutex}
    (same : record.master = (s.mutex m).master) : (s.setMutex m record).Links := by
  refine ⟨fun n => ?_, fun t => { links.task t with }⟩
  obtain rfl | other := eq_or_ne n m
  · simpa [State.setMutex, same] using links.owner n
  · simpa [State.setMutex, other] using links.owner n

end State
end Uos
