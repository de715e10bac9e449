import Uos.Kernel.Priorities
import Uos.Library.Settling

/-!
# Recalculations

`task_recalculate_prio` and `mutex_recalculate_prio` call each other along the pointers from a
blocked task to the lock and from a lock to its owner.  They settle one holder after the other, end
on every finite graph of blocked tasks, deadlocks included, and leave every priority exact.
-/

namespace Uos
namespace State

/-- The tasks and locks, and where a recalculation of one of them goes on. -/
def forwarding (s : State) (feeds : s.Feeds) : Network.Forwarding Holder Int where
  toNetwork := s.inheritance
  next
    | .task t => (s.task t).lock.map .mutex
    | .mutex m => (s.mutex m).master.map .task
  follows holder source member := by
    cases holder with
    | task t =>
      obtain ⟨m, owned, rfl⟩ := mem_sources_task.mp member
      simp [feeds.owned t m owned]
    | mutex m =>
      obtain ⟨t, joined, rfl⟩ := mem_sources_mutex.mp member
      simp [feeds.slave t m joined]
  next_ne holder := by
    cases holder with
    | task t => cases (s.task t).lock <;> simp
    | mutex m => cases (s.mutex m).master <;> simp

/-- `task_recalculate_prio` or `mutex_recalculate_prio`. -/
def recalculate (calls : Nat) (s : State) : Holder → Option State
  | .task t => taskRecalculatePrio calls s t
  | .mutex m => mutexRecalculatePrio calls s m

def settled (s : State) : Holder → State
  | .task t => s.setTask t { s.task t with prio := s.taskSlavesPrio t }
  | .mutex m => s.setMutex m { s.mutex m with prio := s.mutexSlavesPrio m }

/-- Every task and every lock has the priority it should have. -/
def Consistent (s : State) : Prop :=
  ∀ holder, s.inheritance.Exact s.holderPrio holder

variable {s : State} {holder : Holder} {t : TaskId} {m : MutexId}

theorem settled_feeds (feeds : s.Feeds) (holder : Holder) : (s.settled holder).Feeds := by
  cases holder with
  | task t => exact feeds.setTask rfl
  | mutex m => exact feeds.setMutex rfl

theorem settled_inheritance (s : State) (holder : Holder) :
    (s.settled holder).inheritance = s.inheritance := by
  cases holder with
  | task t => exact s.inheritance_setTask t _
  | mutex m => rfl

variable (feeds : s.Feeds)

theorem settled_holderPrio (holder : Holder) :
    (s.settled holder).holderPrio = (s.forwarding feeds).settle s.holderPrio holder := by
  cases holder with
  | task t =>
    rw [settled, holderPrio_setTask, ← level_task]
    rfl
  | mutex m =>
    rw [settled, holderPrio_setMutex, ← level_mutex]
    rfl

theorem forwarding_congr {s' : State} (feeds' : s'.Feeds)
    (inheritance : s'.inheritance = s.inheritance) (lock : ∀ t, (s'.task t).lock = (s.task t).lock)
    (master : ∀ m, (s'.mutex m).master = (s.mutex m).master) :
    s'.forwarding feeds' = s.forwarding feeds := by
  simp only [forwarding, Network.Forwarding.mk.injEq]
  refine ⟨inheritance, funext fun other => ?_⟩
  cases other with
  | task t => exact congrArg (Option.map _) (lock t)
  | mutex m => exact congrArg (Option.map _) (master m)

theorem settled_lock (s : State) (holder : Holder) (t : TaskId) :
    ((s.settled holder).task t).lock = (s.task t).lock := by
  cases holder with
  | task u =>
    obtain rfl | other := eq_or_ne t u
    · simp [settled, setTask]
    · simp [settled, setTask, other]
  | mutex m => rfl

theorem settled_master (s : State) (holder : Holder) (m : MutexId) :
    ((s.settled holder).mutex m).master = (s.mutex m).master := by
  cases holder with
  | task u => rfl
  | mutex n =>
    obtain rfl | other := eq_or_ne m n
    · simp [settled, setMutex]
    · simp [settled, setMutex, other]

theorem settled_forwarding (holder : Holder) :
    (s.settled holder).forwarding (settled_feeds feeds holder) = s.forwarding feeds :=
  forwarding_congr _ _ (s.settled_inheritance holder) (s.settled_lock holder)
    (s.settled_master holder)

theorem taskRecalculatePrio_step (t : TaskId) :
    (∃ flag, (s.forwarding feeds).Stops s.holderPrio (.task t) ∧ ∀ calls,
        taskRecalculatePrio (calls + 1) s t =
          some { s.settled (.task t) with taskNeedSchedule := flag }) ∨
      ∃ m, (s.forwarding feeds).Goes s.holderPrio (.task t) (.mutex m) ∧ ∀ calls,
        taskRecalculatePrio (calls + 1) s t =
          mutexRecalculatePrio calls (s.settled (.task t)) m := by
  have level : (s.forwarding feeds).level s.holderPrio (.task t) = s.taskSlavesPrio t :=
    s.level_task t
  have next : (s.forwarding feeds).next (.task t) = (s.task t).lock.map .mutex := rfl
  have prio : s.holderPrio (.task t) = (s.task t).prio := rfl
  have lock := s.settled_lock (.task t) t
  simp only [settled] at lock
  simp only [taskRecalculatePrio, Network.Forwarding.Stops, Network.Forwarding.Goes, level, next,
    prio, lock, settled]
  rcases eq_or_ne (s.taskSlavesPrio t) (s.task t).prio with same | changed
  · refine .inl ⟨s.taskNeedSchedule, fun target _ => .inl same, fun calls => ?_⟩
    rw [if_pos same]
    rfl
  simp only [if_neg changed]
  rcases blocked : (s.task t).lock with _ | m
  · have nowhere (target : Holder) : Option.map Holder.mutex none ≠ some target := by simp
    refine .inl ?_
    dsimp only
    split
    · split
      · exact ⟨true, fun target follows => absurd follows (nowhere target), fun calls => rfl⟩
      · exact ⟨s.taskNeedSchedule, fun target follows => absurd follows (nowhere target),
          fun calls => rfl⟩
    · split
      · exact ⟨true, fun target follows => absurd follows (nowhere target), fun calls => rfl⟩
      · exact ⟨s.taskNeedSchedule, fun target follows => absurd follows (nowhere target),
          fun calls => rfl⟩
  · have stops (target : Holder) (follows : some (Holder.mutex m) = some target) :
        s.holderPrio target = (s.mutex m).prio := by
      cases follows
      rfl
    rcases lt_or_gt_of_ne changed with down | up
    · simp only [if_neg down.not_gt]
      rcases em ((s.mutex m).prio ≤ (s.task t).prio) with goes | high
      · exact .inr ⟨m, ⟨rfl, .inr ⟨down, goes⟩⟩, fun calls => if_pos goes⟩
      · refine .inl ⟨s.taskNeedSchedule, fun target follows => ?_, fun calls => if_neg high⟩
        rw [stops target follows]
        exact .inr (.inr ⟨down, .inl (not_le.mp high)⟩)
    · simp only [if_pos up]
      rcases em ((s.mutex m).prio < s.taskSlavesPrio t) with goes | low
      · exact .inr ⟨m, ⟨rfl, .inl ⟨up, goes⟩⟩, fun calls => if_pos goes⟩
      · refine .inl ⟨s.taskNeedSchedule, fun target follows => ?_, fun calls => if_neg low⟩
        rw [stops target follows]
        exact .inr (.inl ⟨up, not_lt.mp low⟩)

theorem mutexRecalculatePrio_step (m : MutexId) :
    (s.forwarding feeds).Stops s.holderPrio (.mutex m) ∧
        (∀ calls, mutexRecalculatePrio (calls + 1) s m = some (s.settled (.mutex m))) ∨
      ∃ t, (s.forwarding feeds).Goes s.holderPrio (.mutex m) (.task t) ∧ ∀ calls,
        mutexRecalculatePrio (calls + 1) s m =
          taskRecalculatePrio calls (s.settled (.mutex m)) t := by
  have level : (s.forwarding feeds).level s.holderPrio (.mutex m) = s.mutexSlavesPrio m :=
    s.level_mutex m
  have next : (s.forwarding feeds).next (.mutex m) = (s.mutex m).master.map .task := rfl
  have prio : s.holderPrio (.mutex m) = (s.mutex m).prio := rfl
  have master := s.settled_master (.mutex m) m
  simp only [settled] at master
  simp only [mutexRecalculatePrio, Network.Forwarding.Stops, Network.Forwarding.Goes, level, next,
    prio, master, settled]
  rcases eq_or_ne (s.mutexSlavesPrio m) (s.mutex m).prio with same | changed
  · exact .inl ⟨fun target _ => .inl same, fun calls => if_pos same⟩
  simp only [if_neg changed]
  rcases owned : (s.mutex m).master with _ | owner
  · exact .inl ⟨fun target follows => (by cases follows), fun calls => rfl⟩
  · have stops (target : Holder) (follows : some (Holder.task owner) = some target) :
        s.holderPrio target = (s.task owner).prio ∧
          (s.forwarding feeds).base target = (s.task owner).basePrio := by
      cases follows
      exact ⟨rfl, rfl⟩
    rcases lt_or_gt_of_ne changed with down | up
    · simp only [if_neg down.not_gt]
      rcases em ((s.task owner).prio ≤ (s.mutex m).prio ∧
          (s.task owner).basePrio < (s.mutex m).prio) with goes | spare
      · exact .inr ⟨owner, ⟨rfl, .inr ⟨down, goes.left⟩⟩, fun calls => if_pos goes⟩
      · refine .inl ⟨fun target follows => ?_, fun calls => if_neg spare⟩
        rw [(stops target follows).left, (stops target follows).right]
        exact .inr (.inr ⟨down, (not_and_or.mp spare).imp not_le.mp not_lt.mp⟩)
    · simp only [if_pos up]
      rcases em ((s.task owner).prio < s.mutexSlavesPrio m) with goes | low
      · exact .inr ⟨owner, ⟨rfl, .inl ⟨up, goes⟩⟩, fun calls => if_pos goes⟩
      · refine .inl ⟨fun target follows => ?_, fun calls => if_neg low⟩
        rw [(stops target follows).left]
        exact .inr (.inl ⟨up, not_lt.mp low⟩)

theorem recalculate_step (holder : Holder) :
    (∃ flag, (s.forwarding feeds).Stops s.holderPrio holder ∧ ∀ calls,
        recalculate (calls + 1) s holder =
          some { s.settled holder with taskNeedSchedule := flag }) ∨
      ∃ target, (s.forwarding feeds).Goes s.holderPrio holder target ∧ ∀ calls,
        recalculate (calls + 1) s holder = recalculate calls (s.settled holder) target := by
  cases holder with
  | task t =>
    rcases taskRecalculatePrio_step feeds t with stop | ⟨m, goes, calls⟩
    · exact .inl stop
    · exact .inr ⟨.mutex m, goes, calls⟩
  | mutex m =>
    rcases mutexRecalculatePrio_step feeds m with ⟨stops, calls⟩ | ⟨t, goes, calls⟩
    · exact .inl ⟨(s.settled (.mutex m)).taskNeedSchedule, stops, calls⟩
    · exact .inr ⟨.task t, goes, calls⟩

theorem recalculate_of_acc {network : Network.Forwarding Holder Int}
    {start : (Holder → Int) × Holder} (acc : Acc network.Step start) :
    ∀ (s : State) (feeds : s.Feeds), s.forwarding feeds = network → s.holderPrio = start.1 →
      network.ExactBut start.1 start.2 →
        ∃ calls s', recalculate calls s start.2 = some s' ∧ s'.Consistent := by
  induction acc with
  | intro start _ ih =>
    rintro s feeds rfl values exact
    obtain ⟨value, holder⟩ := start
    obtain rfl : s.holderPrio = value := values
    rcases recalculate_step feeds holder with ⟨flag, stops, result⟩ | ⟨target, goes, result⟩
    · refine ⟨1, _, result 0, fun other => ?_⟩
      have settled : (s.settled holder).inheritance.Exact (s.settled holder).holderPrio other := by
        rw [settled_inheritance, settled_holderPrio feeds]
        exact exact.stop stops other
      exact settled
    · obtain ⟨calls, s', ends, consistent⟩ := ih (_, target) ⟨goes, rfl⟩ (s.settled holder)
        (settled_feeds feeds holder) (settled_forwarding feeds holder)
        (settled_holderPrio feeds holder) (exact.go goes)
      exact ⟨calls + 1, s', (result calls).trans ends, consistent⟩

/-- The tasks that own a lock and the locks that block a task, a finite number of both. -/
structure Bounded (s : State) (tasks : Finset TaskId) (mutexes : Finset MutexId) : Prop where
  lock : ∀ t m, (s.task t).lock = some m → m ∈ mutexes
  master : ∀ m t, (s.mutex m).master = some t → t ∈ tasks

variable {tasks : Finset TaskId} {mutexes : Finset MutexId}

theorem recalculate_ends (bounded : s.Bounded tasks mutexes)
    (exact : (s.forwarding feeds).ExactBut s.holderPrio holder) :
    ∃ calls s', recalculate calls s holder = some s' ∧ s'.Consistent := by
  have closed : ∀ node target, (s.forwarding feeds).next node = some target →
      target ∈ tasks.image .task ∪ mutexes.image .mutex := by
    intro node target follows
    rw [Finset.mem_union]
    cases node with
    | task t =>
      obtain ⟨m, blocked, rfl⟩ := Option.map_eq_some_iff.mp follows
      exact .inr (Finset.mem_image_of_mem _ (bounded.lock t m blocked))
    | mutex m =>
      obtain ⟨t, owned, rfl⟩ := Option.map_eq_some_iff.mp follows
      exact .inl (Finset.mem_image_of_mem _ (bounded.master m t owned))
  exact recalculate_of_acc (Network.Forwarding.acc closed exact) s feeds rfl rfl exact

theorem Consistent.congr {s' : State} (consistent : s.Consistent)
    (basePrio : ∀ t, (s'.task t).basePrio = (s.task t).basePrio)
    (taskPrio : ∀ t, (s'.task t).prio = (s.task t).prio) (mutex : s'.mutex = s.mutex)
    (owned : s'.owned = s.owned) (queues : s'.queues = s.queues) : s'.Consistent := by
  have values : s'.holderPrio = s.holderPrio := by
    funext holder
    cases holder with
    | task t => exact taskPrio t
    | mutex m => exact congrArg Mutex.prio (congrFun mutex m)
  intro holder
  rw [values]
  cases holder with
  | task t =>
    exact (consistent (.task t)).congr (basePrio t)
      (congrArg (fun owned => (LinkedLists.nodes owned t).map Holder.mutex) owned)
      rfl fun _ _ => rfl
  | mutex m =>
    exact (consistent (.mutex m)).congr rfl
      (congrArg (fun queues => (LinkedLists.nodes queues (Queue.slaves m)).map Holder.task) queues)
      rfl fun _ _ => rfl

theorem Consistent.scheduleIfNeeded (consistent : s.Consistent) :
    s.scheduleIfNeeded.Consistent := by
  rw [State.scheduleIfNeeded]
  split
  · exact consistent.congr (fun _ => rfl) (fun _ => rfl) rfl rfl rfl
  · exact consistent

theorem setTask_of_ne {u : TaskId} (other : u ≠ t) (s : State) (record : Task) :
    (s.setTask t record).task u = s.task u :=
  Function.update_of_ne other ..

theorem setTask_self (s : State) (t : TaskId) (record : Task) :
    (s.setTask t record).task t = record :=
  Function.update_self ..

theorem Consistent.setTask {record : Task} (consistent : s.Consistent)
    (basePrio : record.basePrio = (s.task t).basePrio) (prio : record.prio = (s.task t).prio) :
    (s.setTask t record).Consistent := by
  refine consistent.congr (fun u => ?_) (fun u => ?_) rfl rfl rfl
  · obtain rfl | other := eq_or_ne u t
    · rw [setTask_self, basePrio]
    · rw [setTask_of_ne other]
  · obtain rfl | other := eq_or_ne u t
    · rw [setTask_self, prio]
    · rw [setTask_of_ne other]

theorem Consistent.rebase {prio : Int} (consistent : s.Consistent)
    (feeds : (s.setTask t { s.task t with basePrio := prio }).Feeds) :
    ((s.setTask t { s.task t with basePrio := prio }).forwarding feeds).ExactBut
      (s.setTask t { s.task t with basePrio := prio }).holderPrio (.task t) := by
  have values : (s.setTask t { s.task t with basePrio := prio }).holderPrio = s.holderPrio := by
    funext holder
    cases holder with
    | task u =>
      obtain rfl | other := eq_or_ne u t
      · rw [holderPrio, setTask_self, holderPrio]
      · rw [holderPrio, setTask_of_ne other, holderPrio]
    | mutex m => rfl
  intro holder different
  rw [values]
  refine (consistent holder).congr ?_ rfl rfl fun _ _ => rfl
  cases holder with
  | task u =>
    have other : u ≠ t := fun same => different (congrArg Holder.task same)
    exact congrArg Task.basePrio (setTask_of_ne other s _)
  | mutex m => rfl

/-- `task_set_priority` ends on every finite graph, and all priorities are exact again. -/
theorem taskSetPriority_consistent (s : State) (feeds : s.Feeds) (bounded : s.Bounded tasks mutexes)
    (consistent : s.Consistent) (t : TaskId) (prio : Int) :
    ∃ calls s', taskSetPriority calls s t prio = some s' ∧ s'.Consistent := by
  have feeds' : (s.setTask t { s.task t with basePrio := s.small.wrap prio }).Feeds :=
    feeds.setTask rfl
  have bounded' : (s.setTask t { s.task t with basePrio := s.small.wrap prio }).Bounded tasks
      mutexes := by
    refine ⟨fun u m blocked => bounded.lock u m ?_, bounded.master⟩
    obtain rfl | other := eq_or_ne u t
    · rwa [setTask_self] at blocked
    · rwa [setTask_of_ne other] at blocked
  obtain ⟨calls, middle, ends, after⟩ := recalculate_ends feeds' bounded' (consistent.rebase feeds')
  have continued : (middle.continueAt (.ret 0)).Consistent :=
    after.congr (fun _ => rfl) (fun _ => rfl) rfl rfl rfl
  refine ⟨calls, (middle.continueAt (.ret 0)).scheduleIfNeeded, ?_, continued.scheduleIfNeeded⟩
  exact congrArg (Option.bind · _) ends

section Removal

variable (s t)

theorem removed_slaves (u : TaskId) (m : MutexId) :
    u ∈ (s.removed t).slaves m ↔ u ≠ t ∧ u ∈ s.slaves m := by
  rw [LinkedLists.mem_nodes, LinkedLists.mem_nodes]
  obtain rfl | other := eq_or_ne u t
  · simp [State.removed]
  · simp [State.removed, other]

variable {s t}

theorem removed_feeds (feeds : s.Feeds) : (s.removed t).Feeds :=
  ⟨fun u m member => feeds.slave u m ((removed_slaves s t u m).mp member).right, feeds.owned⟩

theorem Consistent.removed (consistent : s.Consistent) (feeds : s.Feeds)
    (elsewhere : ∀ m, holder = .mutex m → (s.task t).lock ≠ some m) :
    (s.removed t).inheritance.Exact (s.removed t).holderPrio holder := by
  cases holder with
  | task u => exact consistent (.task u)
  | mutex m =>
    refine (consistent (.mutex m)).congr rfl (congrArg (List.map _) ?_) rfl fun _ _ => rfl
    refine s.queues.nodes_unlink_of_ne fun placed => elsewhere m rfl ?_
    exact feeds.slave t m (s.queues.mem_nodes.mpr placed)

theorem Consistent.removed_of_lt (consistent : s.Consistent)
    (higher : (s.task t).prio < (s.mutex m).prio) :
    (s.removed t).inheritance.Exact (s.removed t).holderPrio (.mutex m) := by
  refine (consistent (.mutex m)).change rfl rfl (fun source member other => ?_)
    (fun source member => ?_) (.inl higher : s.holderPrio (.task t) < _ ∨ _)
  · obtain ⟨u, joined, rfl⟩ := mem_sources_mutex.mp member
    have different : u ≠ t := fun same => other (congrArg Holder.task same)
    exact ⟨mem_sources_mutex.mpr ⟨u, (removed_slaves s t u m).mpr ⟨different, joined⟩, rfl⟩, rfl⟩
  · obtain ⟨u, joined, rfl⟩ := mem_sources_mutex.mp member
    have before := ((removed_slaves s t u m).mp joined).right
    exact (consistent (.mutex m)).source_le (mem_sources_mutex.mpr ⟨u, before, rfl⟩)

end Removal

/-- `task_delete` ends its recalculation on every finite graph, and all priorities are exact
again. -/
theorem taskDelete_consistent (s : State) (feeds : s.Feeds) (bounded : s.Bounded tasks mutexes)
    (consistent : s.Consistent) (t : TaskId) (message : Message) :
    ∃ calls s', taskDelete calls s t message = some s' ∧ s'.Consistent := by
  have leave {middle : State} (after : middle.Consistent) (lock : Option MutexId) :
      ((middle.setTask t { middle.task t with lock, wait := none }).continueAt
        (.delete t message)).Consistent :=
    (@Consistent.setTask _ t { middle.task t with lock, wait := none } after rfl rfl).congr
      (fun _ => rfl) (fun _ => rfl) rfl rfl rfl
  have same : (s.removed t).task t = s.task t := rfl
  have same_mutex (m : MutexId) : (s.removed t).mutex m = s.mutex m := rfl
  simp only [taskDelete, ← removed_eq, same]
  rcases blocked : (s.task t).lock with _ | m
  · have exact : (s.removed t).Consistent := fun holder =>
      consistent.removed feeds fun m _ => by simp [blocked]
    exact ⟨0, _, rfl, leave exact _⟩
  · have others : ((s.removed t).forwarding (removed_feeds feeds)).ExactBut
        (s.removed t).holderPrio (.mutex m) := by
      intro holder different
      refine consistent.removed feeds fun n same here => different ?_
      rw [same, Option.some.inj (blocked.symm.trans here)]
    rcases le_or_gt (s.mutex m).prio (s.task t).prio with lower | higher
    · have bounded' : (s.removed t).Bounded tasks mutexes := ⟨bounded.lock, bounded.master⟩
      obtain ⟨calls, middle, ends, after⟩ :=
        recalculate_ends (removed_feeds feeds) bounded' others
      have chain : mutexRecalculatePrio calls (s.removed t) m = some middle := ends
      refine ⟨calls, _, ?_, leave after none⟩
      dsimp only
      rw [same_mutex, if_pos lower, chain]
      simp only [Option.bind_eq_bind, Option.bind_some, setTask_setTask, setTask_self]
    · have exact : (s.removed t).Consistent := by
        intro holder
        obtain rfl | different := eq_or_ne holder (.mutex m)
        · exact consistent.removed_of_lt higher
        · exact others holder different
      refine ⟨0, _, ?_, leave exact none⟩
      dsimp only
      rw [same_mutex, if_neg (not_le.mpr higher)]
      simp only [Option.bind_eq_bind, Option.bind_some, setTask_setTask, setTask_self]

end State

/-- Two tasks, each blocked on the lock that the other one owns. -/
def deadlock : State :=
  { State.init .int32 with
    task := fun t =>
      if t = 1 then { lock := some (.lock 2), basePrio := 5, prio := 5 }
      else if t = 2 then { lock := some (.lock 1), basePrio := 3, prio := 5 }
      else {}
    mutex := fun m =>
      if m = .lock 1 then { master := some 1, prio := 5, deep := 1 }
      else if m = .lock 2 then { master := some 2, prio := 5, deep := 1 }
      else {}
    queues := ((State.init .int32).queues.append (.slaves (.lock 2)) 1).append (.slaves (.lock 1)) 2
    owned := ((State.init .int32).owned.append 1 (.lock 1)).append 2 (.lock 2) }

theorem deadlock_consistent : deadlock.Consistent := by
  intro holder
  cases holder with
  | task t =>
    rw [Network.Exact, State.level_task]
    rcases em (t = 1) with rfl | not_one
    · rfl
    rcases em (t = 2) with rfl | not_two
    · rfl
    simp [State.holderPrio, State.taskSlavesPrio, deadlock, State.init, LinkedLists.append, not_one,
      not_two]
  | mutex m =>
    rw [Network.Exact, State.level_mutex]
    rcases em (m = .lock 1) with rfl | not_one
    · rfl
    rcases em (m = .lock 2) with rfl | not_two
    · rfl
    simp [State.holderPrio, State.mutexSlavesPrio, State.slaves, deadlock, State.init,
      LinkedLists.append, not_one, not_two]

theorem deadlock_feeds : deadlock.Feeds := by
  refine ⟨fun t m member => ?_, fun t m member => ?_⟩
  · have placed := deadlock.queues.mem_nodes.mp member
    simp only [deadlock, LinkedLists.place_append, LinkedLists.place_empty, State.init,
      Function.update_apply] at placed ⊢
    grind
  · have placed := deadlock.owned.mem_nodes.mp member
    simp only [deadlock, LinkedLists.place_append, LinkedLists.place_empty, State.init,
      Function.update_apply] at placed ⊢
    grind

end Uos
