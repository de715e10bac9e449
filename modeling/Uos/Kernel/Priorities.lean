import Uos.Kernel.Steps
import Uos.Library.Propagation

/-!
# Priority inheritance

Tasks and locks are the nodes of a network: a lock takes over the priorities of the tasks it blocks,
a task those of the locks it acquired.  Everyone is exact between two transitions, deleted tasks
aside, as long as no task blocks on a lock whose owner is blocked on a lock of a lower priority.
-/

namespace Uos

open Function

/-- Who has a priority: a task or a lock. -/
inductive Holder
  | task (t : TaskId)
  | mutex (m : MutexId)
  deriving DecidableEq

namespace State

def inheritance (s : State) : Network Holder Int where
  base
    | .task t => (s.task t).basePrio
    | .mutex _ => 0
  sources
    | .task t => (s.owned.nodes t).map .mutex
    | .mutex m => (s.slaves m).map .task
  irreflexive holder := by cases holder <;> simp

def holderPrio (s : State) : Holder → Int
  | .task t => (s.task t).prio
  | .mutex m => (s.mutex m).prio

/-- Everyone but a deleted task should have an exact priority. -/
def Matters (s : State) : Holder → Prop
  | .task t => s.life t ≠ .deleted
  | .mutex _ => True

/-- Everyone is exact, deleted tasks and the odd ones aside. -/
def Balanced (s : State) (odd : List Holder) : Prop :=
  ∀ holder, s.Matters holder → holder ∉ odd → s.inheritance.Exact s.holderPrio holder

/-- The lists agree with the pointers that a recalculation follows. -/
structure Feeds (s : State) : Prop where
  slave : ∀ t m, t ∈ s.slaves m → (s.task t).lock = some m
  owned : ∀ t m, m ∈ s.owned.nodes t → (s.mutex m).master = some t

theorem level_task (s : State) (t : TaskId) :
    s.inheritance.level s.holderPrio (.task t) = s.taskSlavesPrio t := by
  simp only [Network.level, inheritance, taskSlavesPrio, List.map_map]
  rfl

theorem level_mutex (s : State) (m : MutexId) :
    s.inheritance.level s.holderPrio (.mutex m) = s.mutexSlavesPrio m := by
  simp only [Network.level, inheritance, mutexSlavesPrio, List.map_map]
  rfl

variable {s : State}

theorem Links.feeds (links : s.Links) : s.Feeds :=
  ⟨fun _ _ => links.mem_slaves.mp, fun _ _ => links.mem_owned.mp⟩

variable {holder : Holder} {t : TaskId} {odd : List Holder} {calls : Nat} {start : State}
  {event : Event}

@[simp]
theorem mem_sources_task :
    holder ∈ s.inheritance.sources (.task t) ↔ ∃ m ∈ s.owned.nodes t, .mutex m = holder :=
  List.mem_map

@[simp]
theorem mem_sources_mutex {m : MutexId} :
    holder ∈ s.inheritance.sources (.mutex m) ↔ ∃ t ∈ s.slaves m, .task t = holder :=
  List.mem_map

theorem Balanced.congr {s s' : State} (balanced : s.Balanced odd)
    (basePrio : ∀ t, (s'.task t).basePrio = (s.task t).basePrio)
    (taskPrio : ∀ t, (s'.task t).prio = (s.task t).prio)
    (mutexPrio : ∀ m, (s'.mutex m).prio = (s.mutex m).prio)
    (owned : ∀ t, s'.owned.nodes t = s.owned.nodes t) (slaves : ∀ m, s'.slaves m = s.slaves m)
    (life : ∀ t, s.life t = .deleted → s'.life t = .deleted) : s'.Balanced odd := by
  have values : s'.holderPrio = s.holderPrio := by
    funext holder
    cases holder with
    | task t => exact taskPrio t
    | mutex m => exact mutexPrio m
  intro holder matters absent
  rw [values]
  cases holder with
  | task t =>
    have exact := balanced (.task t) (fun gone => matters (life t gone)) absent
    exact exact.congr (basePrio t) (congrArg (List.map _) (owned t)) rfl fun _ _ => rfl
  | mutex m =>
    have exact := balanced (.mutex m) trivial absent
    exact exact.congr rfl (congrArg (List.map _) (slaves m)) rfl fun _ _ => rfl

theorem holderPrio_setTask (s : State) (t : TaskId) (prio : Int) :
    (s.setTask t { s.task t with prio := prio }).holderPrio =
      Function.update s.holderPrio (.task t) prio := by
  funext holder
  cases holder with
  | task u =>
    obtain rfl | other := eq_or_ne u t
    · simp [holderPrio, setTask]
    · simp [holderPrio, setTask, other]
  | mutex m => simp [holderPrio, setTask]

theorem holderPrio_setMutex (s : State) (m : MutexId) (prio : Int) :
    (s.setMutex m { s.mutex m with prio := prio }).holderPrio =
      Function.update s.holderPrio (.mutex m) prio := by
  funext holder
  cases holder with
  | task t => simp [holderPrio, setMutex]
  | mutex n =>
    obtain rfl | other := eq_or_ne n m
    · simp [holderPrio, setMutex]
    · simp [holderPrio, setMutex, other]

theorem inheritance_setTask (s : State) (t : TaskId) (prio : Int) :
    (s.setTask t { s.task t with prio := prio }).inheritance = s.inheritance := by
  simp only [inheritance, setTask, Network.mk.injEq, and_true]
  funext holder
  cases holder with
  | task u =>
    obtain rfl | other := eq_or_ne u t
    · simp
    · simp [other]
  | mutex m => rfl

theorem inheritance_setMutex (s : State) (m : MutexId) (record : Mutex) :
    (s.setMutex m record).inheritance = s.inheritance := rfl

theorem Balanced.close (balanced : s.Balanced [holder])
    (exact : s.Matters holder → s.inheritance.Exact s.holderPrio holder) : s.Balanced [] := by
  intro other matters _
  obtain rfl | different := eq_or_ne other holder
  · exact exact matters
  · exact balanced other matters (by simpa using different)

theorem Balanced.settle_task (balanced : s.Balanced [.task t]) (feeds : s.Feeds) :
    (s.setTask t { s.task t with prio := s.taskSlavesPrio t }).Balanced
      ((s.task t).lock.toList.map .mutex) := by
  intro holder matters absent
  rw [inheritance_setTask, holderPrio_setTask, ← level_task]
  obtain rfl | other := eq_or_ne holder (.task t)
  · exact Network.exact_settle
  · refine Network.Exact.update (balanced holder ?_ (by simpa using other)) other fun member => ?_
    · cases holder <;> exact matters
    · cases holder with
      | task u => simp at member
      | mutex m =>
        have blocked := feeds.slave t m (by simpa using member)
        simp [blocked] at absent

theorem Balanced.settle_mutex {m : MutexId} (balanced : s.Balanced [.mutex m]) (feeds : s.Feeds) :
    (s.setMutex m { s.mutex m with prio := s.mutexSlavesPrio m }).Balanced
      ((s.mutex m).master.toList.map .task) := by
  intro holder matters absent
  rw [inheritance_setMutex, holderPrio_setMutex, ← level_mutex]
  obtain rfl | other := eq_or_ne holder (.mutex m)
  · exact Network.exact_settle
  · refine Network.Exact.update (balanced holder ?_ (by simpa using other)) other fun member => ?_
    · cases holder <;> exact matters
    · cases holder with
      | mutex n => simp at member
      | task t =>
        have owned := feeds.owned t m (by simpa using member)
        simp [owned] at absent

theorem Feeds.setTask {s : State} (feeds : s.Feeds) {record : Task}
    (same : record.lock = (s.task t).lock) : (s.setTask t record).Feeds := by
  refine ⟨fun u m member => ?_, feeds.owned⟩
  obtain rfl | other := eq_or_ne u t
  · simpa [State.setTask, same] using feeds.slave u m member
  · simpa [State.setTask, other] using feeds.slave u m member

theorem Feeds.setMutex (feeds : s.Feeds) {m : MutexId} {record : Mutex}
    (same : record.master = (s.mutex m).master) : (s.setMutex m record).Feeds := by
  refine ⟨feeds.slave, fun t n member => ?_⟩
  rw [setMutex_master same]
  exact feeds.owned t n member

theorem Balanced.stop_task (balanced : s.Balanced [.task t]) (feeds : s.Feeds)
    (stop : ∀ m, (s.task t).lock = some m → s.taskSlavesPrio t = (s.task t).prio ∨
      (s.task t).prio < s.taskSlavesPrio t ∧ s.taskSlavesPrio t ≤ (s.mutex m).prio ∨
        s.taskSlavesPrio t < (s.task t).prio ∧ (s.task t).prio < (s.mutex m).prio) :
    (s.setTask t { s.task t with prio := s.taskSlavesPrio t }).Balanced [] := by
  have settled := balanced.settle_task feeds
  rcases blocked : (s.task t).lock with _ | m
  · simpa [blocked] using settled
  rw [blocked] at settled
  refine Balanced.close settled fun _ => ?_
  have exact : s.inheritance.Exact s.holderPrio (.mutex m) :=
    balanced (.mutex m) trivial (by simp)
  rw [inheritance_setTask, holderPrio_setTask]
  rcases stop m blocked with same | ⟨up, low⟩ | ⟨down, high⟩
  · rw [same]
    have unchanged : Function.update s.holderPrio (.task t) (s.task t).prio = s.holderPrio :=
      update_eq_self _ _
    rwa [unchanged]
  · exact exact.raised (by simp) up low
  · exact exact.lowered (by simp) down high.le (.inl high)

theorem Balanced.stop_mutex {m : MutexId} (balanced : s.Balanced [.mutex m]) (feeds : s.Feeds)
    (stop : ∀ owner, (s.mutex m).master = some owner →
      s.mutexSlavesPrio m = (s.mutex m).prio ∨
      (s.mutex m).prio < s.mutexSlavesPrio m ∧ s.mutexSlavesPrio m ≤ (s.task owner).prio ∨
        s.mutexSlavesPrio m < (s.mutex m).prio ∧ ((s.mutex m).prio < (s.task owner).prio ∨
          (s.mutex m).prio ≤ (s.task owner).basePrio)) :
    (s.setMutex m { s.mutex m with prio := s.mutexSlavesPrio m }).Balanced [] := by
  have settled := balanced.settle_mutex feeds
  rcases owned : (s.mutex m).master with _ | owner
  · simpa [owned] using settled
  rw [owned] at settled
  refine Balanced.close settled fun matters => ?_
  have exact : s.inheritance.Exact s.holderPrio (.task owner) :=
    balanced (.task owner) matters (by simp)
  rw [inheritance_setMutex, holderPrio_setMutex]
  rcases em (.mutex m ∈ s.inheritance.sources (.task owner)) with member | absent
  · rcases stop owner owned with same | ⟨up, low⟩ | ⟨down, spare⟩
    · rw [same]
      have unchanged : Function.update s.holderPrio (.mutex m) (s.mutex m).prio =
          s.holderPrio := update_eq_self _ _
      rwa [unchanged]
    · exact exact.raised (by simp) up low
    · exact exact.lowered (by simp) down (exact.source_le member) spare
  · exact exact.update (by simp) absent

theorem recalculate_balanced (calls : Nat) :
    (∀ s t s', s.Feeds → s.Balanced [.task t] → taskRecalculatePrio calls s t = some s' →
        s'.Balanced []) ∧
      ∀ s m s', s.Feeds → s.Balanced [.mutex m] → mutexRecalculatePrio calls s m = some s' →
        s'.Balanced [] := by
  induction calls with
  | zero => simp [taskRecalculatePrio, mutexRecalculatePrio]
  | succ calls ih =>
    obtain ⟨taskChain, mutexChain⟩ := ih
    constructor
    · intro s t s' feeds balanced result
      have settled := balanced.settle_task feeds
      have feeds' : (s.setTask t { s.task t with prio := s.taskSlavesPrio t }).Feeds :=
        feeds.setTask rfl
      have stop := balanced.stop_task feeds
      have needs : ∀ {x : State} {flag : Bool}, x.Balanced [] →
          ({ x with taskNeedSchedule := flag } : State).Balanced [] := fun exact => exact
      simp only [taskRecalculatePrio] at result
      split at result
      · rename_i same
        cases result
        exact stop fun m _ => .inl same
      rename_i changed
      split at result
      · rename_i m blocked
        have blocked : (s.task t).lock = some m := by simpa [setTask] using blocked
        rw [blocked] at settled stop
        split at result
        · rename_i up
          split at result
          · exact mutexChain _ m s' feeds' settled result
          · rename_i low
            cases result
            refine stop fun n same => .inr (.inl ⟨up, ?_⟩)
            cases same
            exact not_lt.mp low
        · rename_i notUp
          have down := lt_of_le_of_ne (not_lt.mp notUp) changed
          split at result
          · exact mutexChain _ m s' feeds' settled result
          · rename_i high
            cases result
            refine stop fun n same => .inr (.inr ⟨down, ?_⟩)
            cases same
            exact not_le.mp high
      · rename_i unblocked
        have unblocked : (s.task t).lock = none := by simpa [setTask] using unblocked
        have exact := stop (by simp [unblocked])
        split at result
        · split at result
          · cases result
            exact needs exact
          · cases result
            exact exact
        · split at result
          · cases result
            exact needs exact
          · cases result
            exact exact
    · intro s m s' feeds balanced result
      have settled := balanced.settle_mutex feeds
      have stop := balanced.stop_mutex feeds
      have feeds' : (s.setMutex m { s.mutex m with prio := s.mutexSlavesPrio m }).Feeds :=
        feeds.setMutex rfl
      simp only [mutexRecalculatePrio] at result
      split at result
      · rename_i same
        cases result
        exact stop fun owner _ => .inl same
      rename_i changed
      split at result
      · rename_i unowned
        have unowned : (s.mutex m).master = none := by simpa [setMutex] using unowned
        cases result
        exact stop (by simp [unowned])
      · rename_i owner owned
        have owned : (s.mutex m).master = some owner := by simpa [setMutex] using owned
        rw [owned] at settled stop
        split at result
        · rename_i up
          split at result
          · exact taskChain _ owner s' feeds' settled result
          · rename_i low
            cases result
            refine stop fun n same => .inr (.inl ⟨up, ?_⟩)
            cases same
            exact not_lt.mp low
        · rename_i notUp
          have down := lt_of_le_of_ne (not_lt.mp notUp) changed
          split at result
          · exact taskChain _ owner s' feeds' settled result
          · rename_i spare
            cases result
            refine stop fun n same => .inr (.inr ⟨down, ?_⟩)
            cases same
            rcases not_and_or.mp spare with higher | covered
            · exact .inl (not_le.mp higher)
            · exact .inr (not_lt.mp covered)

theorem Woken.balanced {s s' : State} (balanced : s.Balanced odd) (woken : Woken s s') :
    s'.Balanced odd := by
  refine balanced.congr woken.basePrio woken.prio (fun m => by rw [woken.mutex])
    (fun t => by rw [woken.owned]) woken.slaves fun t deleted => ?_
  rw [woken.life]
  exact deleted

theorem Balanced.setMutex {s : State} (balanced : s.Balanced odd) {m : MutexId} {record : Mutex}
    (same : record.prio = (s.mutex m).prio) :
    (s.setMutex m record).Balanced odd := by
  refine balanced.congr (fun _ => rfl) (fun _ => rfl) (fun n => ?_) (fun _ => rfl) (fun _ => rfl)
    fun _ => id
  obtain rfl | other := eq_or_ne n m
  · simpa [State.setMutex] using same
  · simp [State.setMutex, other]

theorem release_balanced {s' : State} {m : MutexId} (links : s.Links) (balanced : s.Balanced [])
    (result : State.release calls s m = some s') :
    s'.Balanced [] := by
  simp only [release] at result
  split at result
  · contradiction
  rename_i owner owned
  have kept : ∀ t n, n ∈ (s.owned.unlink m).nodes t ↔ n ≠ m ∧ n ∈ s.owned.nodes t := by
    intro t n
    rw [LinkedLists.mem_nodes, LinkedLists.mem_nodes, LinkedLists.place_unlink]
    obtain rfl | other := eq_or_ne n m
    · simp
    · simp [other]
  have start : ({ s with owned := s.owned.unlink m } : State).Balanced [.task owner] := by
    intro holder matters absent
    have exact := balanced holder (by cases holder <;> exact matters) (by simp)
    cases holder with
    | mutex n => exact exact
    | task t =>
      have other : owner ≠ t := fun same => absent (by simp [same])
      refine exact.congr rfl (congrArg (List.map _) ?_) rfl fun _ _ => rfl
      refine s.owned.nodes_unlink_of_ne ?_
      rw [links.owner, owned]
      simpa using other
  have feeds : ({ s with owned := s.owned.unlink m } : State).Feeds :=
    ⟨links.feeds.slave, fun t n member => links.feeds.owned t n ((kept t n).mp member).2⟩
  split at result
  · obtain ⟨middle, chain, last⟩ := Option.bind_eq_some_iff.mp result
    cases last
    exact ((recalculate_balanced calls).1 _ owner _ feeds start chain).setMutex rfl
  · rename_i spare
    cases result
    refine Balanced.setMutex (start.close fun matters => ?_) rfl
    have exact := balanced (.task owner) matters (by simp)
    have unchanged : ∀ source ∈ s.inheritance.sources (.task owner), source ≠ .mutex m →
        source ∈ ({ s with owned := s.owned.unlink m } : State).inheritance.sources
          (.task owner) := by
      intro source member other
      obtain ⟨n, owns, rfl⟩ := mem_sources_task.mp member
      exact mem_sources_task.mpr ⟨n, (kept owner n).mpr ⟨by simpa using other, owns⟩, rfl⟩
    refine exact.change rfl rfl (fun source member other => ⟨unchanged source member other, rfl⟩)
      (fun source member => ?_) ((not_and_or.mp spare).imp not_le.mp not_lt.mp)
    obtain ⟨n, owns, rfl⟩ := mem_sources_task.mp member
    exact exact.source_le (mem_sources_task.mpr ⟨n, ((kept owner n).mp owns).2, rfl⟩)

theorem Balanced.readied {s : State} {m : MutexId} (balanced : s.Balanced [])
    (free : s.owned.place m = none) {change : Task → Task}
    (prio : ∀ record, (change record).prio = record.prio)
    (basePrio : ∀ record, (change record).basePrio = record.basePrio) :
    ((s.readied (s.slaves m) change).setMutex m
      { (s.readied (s.slaves m) change).mutex m with prio := 0 }).Balanced [] := by
  set ready := s.readied (s.slaves m) change with ready_eq
  have taskPrio : ∀ t, (ready.task t).prio = (s.task t).prio ∧
      (ready.task t).basePrio = (s.task t).basePrio := by
    intro t
    simp only [ready_eq, State.readied]
    split
    · exact ⟨prio _, basePrio _⟩
    · exact ⟨rfl, rfl⟩
  have nobody : ready.slaves m = [] :=
    s.queues.nodes_appendAll_self (by simp : Queue.slaves m ≠ .active)
  have values : ready.holderPrio = s.holderPrio := by
    funext holder
    cases holder with
    | task t => exact (taskPrio t).1
    | mutex n => rfl
  intro holder matters _
  rw [inheritance_setMutex, holderPrio_setMutex, values]
  cases holder with
  | task t =>
    have exact := balanced (.task t) matters (by simp)
    refine Network.Exact.update ?_ (by simp) ?_
    · exact exact.congr (taskPrio t).2 rfl rfl fun _ _ => rfl
    · rintro member
      obtain ⟨n, owns, same⟩ := mem_sources_task.mp member
      have placed := s.owned.mem_nodes.mp owns
      rw [Holder.mutex.inj same, free] at placed
      contradiction
  | mutex n =>
    obtain rfl | other := eq_or_ne n m
    · rw [Network.Exact, update_self, Network.level]
      simp [inheritance, nobody]
    · have exact := balanced (.mutex n) trivial (by simp)
      refine Network.Exact.update ?_ (by simpa using other) (by simp)
      refine exact.congr rfl (congrArg (List.map _) ?_) rfl fun _ _ => rfl
      refine s.queues.nodes_appendAll_of_ne (by simp) fun t member => ?_
      rw [s.queues.mem_nodes.mp member]
      simpa using other.symm

/-- A task that executes the loop of `task_delete` deletes a task that is marked so. -/
def Deleting (s : State) : Prop :=
  ∀ u t message, s.context u = .delete t message → s.life t = .deleted

theorem Move.deleted {s s' : State} (midway : s.Midway) (move : Move start event s s')
    (deleted : s.life t = .deleted) :
    s'.life t = .deleted := by
  cases move.shift midway t with
  | undisturbed same => exact same.life.trans deleted
  | roused roused => exact roused.life.trans deleted
  | created _ unborn => simp [deleted] at unborn
  | deleted _ _ _ _ _ life => exact life
  | turned _ _ _ _ _ life => exact life.trans deleted

theorem Move.deleting {s s' : State} (midway : s.Midway) (begins : start.Deleting)
    (lasts : ∀ t, start.life t = .deleted → s.life t = .deleted) (deleting : s.Deleting)
    (move : Move start event s s') : s'.Deleting := by
  have kept : (∀ u t message, s'.context u = .delete t message →
      s.context u = .delete t message) → s'.Deleting := fun same u t message here =>
    move.deleted midway (deleting u t message (same u t message here))
  cases move with
  | activated activated => exact kept (by simp [activated.context])
  | acquire m deep =>
    obtain ⟨_, _, _, acquired, -⟩ := acquire_repriced s m
    refine kept ?_
    rw [acquired]
    exact fun _ _ _ => id
  | free calls m deep _ released_eq served_eq detached_eq ready_eq after_eq =>
    have freed := (free_links midway.links released_eq served_eq detached_eq ready_eq
      after_eq).2
    exact kept (by simp [freed.context])
  | create v prio answer call unborn result =>
    obtain ⟨-, -, rfl⟩ := taskActivate_eq result
    refine kept fun u t message here => ?_
    obtain rfl | other := eq_or_ne u v
    · simp [setContext] at here
    · simpa [setContext, setTask, other] using here
  | remove calls v message answer call born result after_eq =>
    obtain rfl := after_eq
    refine kept ?_
    rcases result with ⟨m, -, -, chain⟩ | ⟨rfl, -⟩
    · obtain ⟨_, _, _, rfl, -⟩ := mutexRecalculatePrio_repriced chain
      exact fun _ _ _ => id
    · exact fun _ _ _ => id
  | prioritize calls v prio _ _ result =>
    obtain ⟨_, _, _, rfl, -⟩ := taskRecalculatePrio_repriced result
    exact kept fun _ _ _ => id
  | turn context _ _ ends =>
    intro u t message here
    obtain rfl | other := eq_or_ne u s.taskCurrent
    · have same : context = .delete t message := by simpa [continueAt, setContext] using here
      rcases ends t message same with before | deleted
      · exact lasts t (begins start.taskCurrent t message (before.trans same))
      · exact deleted
    · exact deleting u t message (by simpa [continueAt, setContext, other] using here)
  | _ => exact kept fun _ _ _ => id

theorem Moves.deleting {s s' : State} (midway : s.Midway) (begins : start.Deleting)
    (lasts : ∀ t, start.life t = .deleted → s.life t = .deleted) (deleting : s.Deleting)
    (moves : Moves start event s s') :
    s'.Deleting ∧ ∀ t, start.life t = .deleted → s'.life t = .deleted := by
  induction moves with
  | refl => exact ⟨deleting, lasts⟩
  | tail moves move ih =>
    have midway' := Moves.midway midway moves
    exact ⟨Move.deleting midway' begins ih.2 ih.1 move,
      fun t deleted => move.deleted midway' (ih.2 t deleted)⟩

theorem Deleting.continueAt {s : State} (deleting : s.Deleting) {context : Context}
    (elsewhere : ∀ t message, context ≠ .delete t message) : (s.continueAt context).Deleting := by
  intro u t message here
  obtain rfl | other := eq_or_ne u s.taskCurrent
  · exact absurd (by simpa [State.continueAt, setContext] using here) (elsewhere t message)
  · exact deleting u t message (by simpa [State.continueAt, setContext, other] using here)

theorem Deleting.step {s' : State} (deleting : s.Deleting) (sound : s.Sound)
    (result : State.step calls s event = some s') : s'.Deleting := by
  have midway := sound.midway (sound.unblocked result)
  cases step_outcome sound result with
  | stays moves => exact (Moves.deleting midway deleting (fun _ => id) deleting moves).1
  | switches moves => exact (Moves.deleting midway deleting (fun _ => id) deleting moves).1
  | yields =>
    refine Deleting.continueAt ?_ (by simp)
    exact deleting
  | @waits m answer middle after _ handled _ _ slept =>
    have life : (middle.asleep m).life = s.life := handled.life
    have context : (middle.asleep m).context = s.context := handled.context
    refine (Moves.deleting ((midway.woken handled.toWoken).asleep m) deleting
      (fun t deleted => ?_) (fun u t message here => ?_) slept.later).1
    · rw [life]
      exact deleted
    · rw [life]
      exact deleting u t message (context ▸ here)
  | blocks m owner again _ _ _ contends _ blocked =>
    obtain ⟨-, middle, ⟨_, _, _, rfl, -⟩, rfl⟩ := block_eq blocked
    have joined : (s.blocked m again).Deleting := by
      refine Deleting.continueAt ?_ ?_
      · exact deleting
      · rintro t message rfl
        exact contends
    exact joined
  | regroups observations value _ regrouped =>
    obtain ⟨_, _, rfl, -⟩ := regrouped
    refine Deleting.continueAt ?_ (by simp)
    exact deleting
  | suspends g =>
    refine Deleting.continueAt ?_ (by simp)
    exact deleting

theorem acquire_balanced {m : MutexId} (midway : s.Midway) (balanced : s.Balanced [])
    (unowned : (s.mutex m).master = none) : (s.acquire m).Balanced [] := by
  have links := midway.links
  have place : s.owned.place m = none := (links.owner m).trans unowned
  set owning : State := { s.setMutex m { s.mutex m with master := some s.taskCurrent } with
    owned := s.owned.append s.taskCurrent m } with owning_eq
  have mine : owning.owned.nodes s.taskCurrent = s.owned.nodes s.taskCurrent ++ [m] :=
    s.owned.nodes_append_self (by simp [place])
  have others : ∀ t, t ≠ s.taskCurrent → owning.owned.nodes t = s.owned.nodes t :=
    fun t other => s.owned.nodes_append_of_ne other (by simp [place])
  have values : owning.holderPrio = s.holderPrio := by
    funext holder
    cases holder with
    | task t => rfl
    | mutex n =>
      obtain rfl | other := eq_or_ne n m
      · simp [holderPrio, owning_eq, State.setMutex]
      · simp [holderPrio, owning_eq, State.setMutex, other]
  have start : owning.Balanced [.task s.taskCurrent] := by
    intro holder matters absent
    rw [values]
    have exact := balanced holder (by cases holder <;> exact matters) (by simp)
    cases holder with
    | mutex n => exact exact
    | task t =>
      have other : t ≠ s.taskCurrent := fun same => absent (by simp [same])
      exact exact.congr rfl (congrArg (List.map _) (others t other)) rfl fun _ _ => rfl
  have kept : ∀ source ∈ s.inheritance.sources (.task s.taskCurrent),
      source ∈ owning.inheritance.sources (.task s.taskCurrent) := by
    intro source member
    obtain ⟨n, owns, rfl⟩ := mem_sources_task.mp member
    exact mem_sources_task.mpr ⟨n, by simp [mine, owns], rfl⟩
  have grown : ∀ source ∈ owning.inheritance.sources (.task s.taskCurrent),
      source ∈ s.inheritance.sources (.task s.taskCurrent) ∨ source = .mutex m := by
    intro source member
    obtain ⟨n, owns, rfl⟩ := mem_sources_task.mp member
    rw [mine, List.mem_append, List.mem_singleton] at owns
    exact owns.imp (fun before => mem_sources_task.mpr ⟨n, before, rfl⟩) fun same => by rw [same]
  simp only [acquire]
  split
  · rename_i low
    intro holder matters _
    change (owning.setTask s.taskCurrent { owning.task s.taskCurrent with
      prio := (owning.mutex m).prio }).inheritance.Exact (State.holderPrio (owning.setTask
        s.taskCurrent { owning.task s.taskCurrent with prio := (owning.mutex m).prio })) holder
    rw [inheritance_setTask, holderPrio_setTask]
    obtain rfl | other := eq_or_ne holder (.task s.taskCurrent)
    · have exact := balanced (.task s.taskCurrent) matters (by simp)
      refine exact.rise rfl ?_ (mem_sources_task.mpr ⟨m, by simp [mine], rfl⟩) ?_ ?_
      · rw [update_self]
        exact low
      · rw [update_self]
        rfl
      · intro source member different
        have before := (grown source member).resolve_right different
        obtain ⟨n, -, rfl⟩ := mem_sources_task.mp before
        exact ⟨before, by simp [values]⟩
    · refine Network.Exact.update (start holder ?_ (by simpa using other)) other fun member => ?_
      · cases holder <;> exact matters
      · cases holder with
        | task t => simp at member
        | mutex n =>
          obtain ⟨t, joined, same⟩ := mem_sources_mutex.mp member
          rw [Holder.task.inj same] at joined
          have blocked := links.feeds.slave s.taskCurrent n joined
          simp [midway.unblocked] at blocked
  · rename_i high
    change owning.Balanced []
    refine start.close fun matters => ?_
    rw [values]
    have exact := balanced (.task s.taskCurrent) matters (by simp)
    refine exact.grow rfl rfl (fun source member => ⟨kept source member, rfl⟩)
      fun source member => ?_
    rcases grown source member with before | rfl
    · exact exact.source_le before
    · have same : (owning.mutex m).prio = (s.mutex m).prio := congrFun values (.mutex m)
      change ¬(s.task s.taskCurrent).prio < (owning.mutex m).prio at high
      rw [same] at high
      exact not_lt.mp high

theorem detach_balanced (balanced : s.Balanced []) (m : MutexId) :
    (s.detach m).Balanced [] := by
  obtain ⟨_, _, same, mutexes⟩ := detach_eq s m
  rw [same]
  exact balanced.congr (fun _ => rfl) (fun _ => rfl) (fun n => (mutexes n).2.1) (fun _ => rfl)
    (fun _ => rfl) fun _ => id

theorem create_balanced {prio : Int} {needed : Bool} (midway : s.Midway) (balanced : s.Balanced [])
    (unborn : s.life t = .unborn) :
    ({ (s.setTask t { prio := prio, basePrio := prio }).setContext t .user with
        life := Function.update s.life t .alive
        queues := s.queues.append .active t
        taskNeedSchedule := needed } : State).Balanced [] := by
  obtain ⟨-, unlinked, -, -, owns⟩ := (midway.links.task t).unborn unborn
  have slaves : ∀ n, (s.queues.append .active t).nodes (.slaves n) = s.slaves n := fun n =>
    s.queues.nodes_append_of_ne (by simp) (by simp [unlinked])
  intro holder matters _
  cases holder with
  | task u =>
    obtain rfl | other := eq_or_ne u t
    · have nothing : s.owned.nodes u = [] := LinkedLists.nodes_eq_nil.mpr owns
      simp [Network.Exact, Network.level, inheritance, holderPrio, setTask, setContext, nothing]
    · have exact := balanced (.task u) (by simpa [Matters, other] using matters) (by simp)
      refine exact.congr ?_ rfl ?_ fun source member => ?_
      · simp [inheritance, setTask, setContext, other]
      · simp [holderPrio, setTask, setContext, other]
      · obtain ⟨n, -, rfl⟩ := mem_sources_task.mp member
        rfl
  | mutex n =>
    have exact := balanced (.mutex n) trivial (by simp)
    refine exact.congr rfl (congrArg (List.map _) (slaves n)) rfl fun source member => ?_
    obtain ⟨u, joined, rfl⟩ := mem_sources_mutex.mp member
    have other : u ≠ t := by
      rintro rfl
      have placed := s.queues.mem_nodes.mp joined
      simp [unlinked] at placed
    simp [holderPrio, setTask, setContext, other]

theorem remove_balanced {middle : State} (links : s.Links) (balanced : s.Balanced [])
    (result : (∃ m, (s.task t).lock = some m ∧ (s.mutex m).prio ≤ (s.task t).prio ∧
        mutexRecalculatePrio calls (s.removed t) m = some middle) ∨
      middle = s.removed t ∧
        ∀ m, (s.task t).lock = some m → (s.task t).prio < (s.mutex m).prio) :
    middle.Balanced [] := by
  have kept : ∀ u m, u ∈ (s.removed t).slaves m ↔ u ≠ t ∧ u ∈ s.slaves m := by
    intro u m
    rw [LinkedLists.mem_nodes, LinkedLists.mem_nodes]
    obtain rfl | other := eq_or_ne u t
    · simp [State.removed]
    · simp [State.removed, other]
  have exact_task : ∀ u, (s.removed t).Matters (.task u) →
      (s.removed t).inheritance.Exact (s.removed t).holderPrio (.task u) := by
    intro u matters
    obtain rfl | other := eq_or_ne u t
    · simp [Matters, State.removed] at matters
    · exact balanced (.task u) (by simpa [Matters, State.removed, other] using matters) (by simp)
  have exact_mutex : ∀ m, (s.task t).lock ≠ some m →
      (s.removed t).inheritance.Exact (s.removed t).holderPrio (.mutex m) := by
    intro m elsewhere
    have exact := balanced (.mutex m) trivial (by simp)
    refine exact.congr rfl (congrArg (List.map _) ?_) rfl fun _ _ => rfl
    exact s.queues.nodes_unlink_of_ne fun placed =>
      elsewhere (((links.task t).slave m).mp placed)
  rcases result with ⟨m, blocked, -, chain⟩ | ⟨rfl, higher⟩
  · have feeds : (s.removed t).Feeds :=
      ⟨fun u n member => links.feeds.slave u n ((kept u n).mp member).2, links.feeds.owned⟩
    refine (recalculate_balanced calls).2 _ m _ feeds (fun holder matters absent => ?_) chain
    cases holder with
    | task u => exact exact_task u matters
    | mutex n =>
      refine exact_mutex n fun here => ?_
      obtain rfl : m = n := Option.some.inj (blocked.symm.trans here)
      simp at absent
  · intro holder matters _
    cases holder with
    | task u => exact exact_task u matters
    | mutex n =>
      obtain blocked | elsewhere := eq_or_ne (s.task t).lock (some n)
      · have exact := balanced (.mutex n) trivial (by simp)
        refine exact.change rfl rfl (fun source member other => ?_) (fun source member => ?_)
          (.inl (higher n blocked) : s.holderPrio (.task t) < _ ∨ _)
        · obtain ⟨u, joined, rfl⟩ := mem_sources_mutex.mp member
          have different : u ≠ t := fun same => other (by rw [same])
          exact ⟨mem_sources_mutex.mpr ⟨u, (kept u n).mpr ⟨different, joined⟩, rfl⟩, rfl⟩
        · obtain ⟨u, joined, rfl⟩ := mem_sources_mutex.mp member
          exact exact.source_le (mem_sources_mutex.mpr ⟨u, ((kept u n).mp joined).2, rfl⟩)
      · exact exact_mutex n elsewhere

theorem rebase_balanced (balanced : s.Balanced []) (t : TaskId) (prio : Int) :
    (s.setTask t { s.task t with basePrio := prio }).Balanced [.task t] := by
  have values : (s.setTask t { s.task t with basePrio := prio }).holderPrio = s.holderPrio := by
    funext holder
    cases holder with
    | task u =>
      obtain rfl | other := eq_or_ne u t
      · simp [holderPrio, setTask]
      · simp [holderPrio, setTask, other]
    | mutex n => rfl
  intro holder matters absent
  rw [values]
  have exact := balanced holder (by cases holder <;> exact matters) (by simp)
  cases holder with
  | task u =>
    have other : u ≠ t := fun same => absent (by simp [same])
    refine exact.congr ?_ rfl rfl fun _ _ => rfl
    simp [inheritance, setTask, other]
  | mutex n => exact exact.congr rfl rfl rfl fun _ _ => rfl

theorem Move.balanced {s s' : State} (midway : s.Midway) (deleting : s.Deleting)
    (balanced : s.Balanced []) (move : Move start event s s') :
    s'.Balanced [] := by
  have links := midway.links
  cases move with
  | activated activated => exact activated.toWoken.balanced balanced
  | attach m irq handler arg =>
    have changed : (s.setMutex m { s.mutex m with irq := some irq }).Balanced [] :=
      balanced.setMutex rfl
    exact (woken_setIrq _ irq _).balanced changed
  | deepen m => exact balanced.setMutex rfl
  | lower m => exact balanced.setMutex rfl
  | acquire m deep unowned =>
    exact (acquire_balanced midway balanced unowned).setMutex rfl
  | @free calls m deep released served detached ready _ _ released_eq served_eq detached_eq
      ready_eq after_eq =>
      have lowered : (s.setMutex m { s.mutex m with deep := deep }).Balanced [] :=
        balanced.setMutex rfl
      have links' : (s.setMutex m { s.mutex m with deep := deep }).Links := links.setMutex rfl
      have first := release_balanced links' lowered released_eq
      have second := served_eq.toWoken.balanced first
      have third : detached.Balanced [] := by
        rcases detached_eq with rfl | rfl
        · exact second
        · exact detach_balanced second m
      have free : detached.owned.place m = none := by
        have releasing := (release_releasing links released_eq).activated served_eq
        have owned : detached.owned = s.owned.unlink m := by
          rcases detached_eq with rfl | rfl
          · exact releasing.owned
          · exact releasing.detach.owned
        simp [owned]
      obtain ⟨rfl, -⟩ := readySlaves_eq ready_eq
      rcases after_eq with rfl | ⟨nobody, rfl⟩
      · exact third.readied free (fun _ => rfl) fun _ => rfl
      · refine third.congr (fun t => ?_) (fun t => ?_) (fun _ => rfl) (fun _ => rfl)
          (fun n => ?_) fun _ => id <;> simp [State.readied, nobody]
  | create t prio answer call unborn result =>
    obtain ⟨-, -, rfl⟩ := taskActivate_eq result
    exact create_balanced midway balanced unborn
  | @remove calls t message answer middle _ call born result after_eq =>
    obtain rfl := after_eq
    have removed := remove_balanced links balanced result
    have same : ∀ u, ((middle.setTask t
        { middle.task t with lock := none, wait := none }).task u).prio = (middle.task u).prio ∧
        ((middle.setTask t { middle.task t with lock := none, wait := none }).task u).basePrio =
          (middle.task u).basePrio := by
      intro u
      obtain rfl | other := eq_or_ne u t
      · simp [setTask]
      · simp [setTask, other]
    exact removed.congr (fun u => (same u).2) (fun u => (same u).1) (fun _ => rfl) (fun _ => rfl)
      (fun _ => rfl) fun _ => id
  | bury t message context =>
    exact (rebase_balanced balanced t 0).close fun matters =>
      absurd (deleting _ t message context) matters
  | prioritize calls t prio _ _ result =>
    have feeds : (s.setTask t { s.task t with basePrio := s.small.wrap prio }).Feeds :=
      links.feeds.setTask rfl
    exact (recalculate_balanced calls).1 _ t _ feeds (rebase_balanced balanced t _) result
  | turn context =>
    exact balanced.congr (fun _ => rfl) (fun _ => rfl) (fun _ => rfl) (fun _ => rfl)
      (fun _ => rfl) fun _ => id

theorem Moves.balanced {s s' : State} (midway : s.Midway) (begins : start.Deleting)
    (lasts : ∀ t, start.life t = .deleted → s.life t = .deleted) (deleting : s.Deleting)
    (balanced : s.Balanced []) (moves : Moves start event s s') :
    s'.Balanced [] := by
  induction moves with
  | refl => exact balanced
  | tail moves move ih =>
    have midway' := Moves.midway midway moves
    exact move.balanced midway' (Moves.deleting midway begins lasts deleting moves).1 ih

theorem blocked_task (s : State) (m : MutexId) (again : Context) (t : TaskId) :
    ((s.blocked m again).task t).prio = (s.task t).prio ∧
      ((s.blocked m again).task t).basePrio = (s.task t).basePrio := by
  obtain rfl | other := eq_or_ne t s.taskCurrent
  · simp [State.blocked, continueAt, setContext, setTask]
  · simp [State.blocked, continueAt, setContext, setTask, other]

theorem holderPrio_blocked (s : State) (m : MutexId) (again : Context) :
    (s.blocked m again).holderPrio = s.holderPrio := by
  funext holder
  cases holder with
  | task t => exact (blocked_task s m again t).1
  | mutex n => rfl

section Block

variable {s s' : State} {m : MutexId} {owner : TaskId} {again : Context}

theorem blocked_slaves (midway : s.Midway) :
    (s.blocked m again).slaves m = s.slaves m ++ [s.taskCurrent] ∧
      ∀ n, n ≠ m → (s.blocked m again).slaves n = s.slaves n :=
  ⟨s.queues.nodes_append_self (midway.placed m),
    fun n other => s.queues.nodes_append_of_ne (by simpa using other) (midway.placed n)⟩

theorem blocked_balanced (midway : s.Midway) (balanced : s.Balanced []) :
    (s.blocked m again).Balanced [.mutex m] ∧
      (s.blocked m again).mutexSlavesPrio m =
        max (s.mutex m).prio (s.task s.taskCurrent).prio := by
  obtain ⟨joined, others⟩ := @blocked_slaves s m again midway
  constructor
  · intro holder matters absent
    rw [holderPrio_blocked]
    have exact := balanced holder (by cases holder <;> exact matters) (by simp)
    cases holder with
    | task t => exact exact.congr (blocked_task s m again t).2 rfl rfl fun _ _ => rfl
    | mutex n =>
      have other : n ≠ m := fun same => absent (by simp [same])
      exact exact.congr rfl (congrArg (List.map _) (others n other)) rfl fun _ _ => rfl
  · have exact := balanced (.mutex m) trivial (by simp)
    rw [Network.Exact, level_mutex] at exact
    have prio : (s.mutex m).prio = s.mutexSlavesPrio m := exact
    simp only [mutexSlavesPrio, joined, List.map_append, List.foldl_append, blocked_task]
    rw [prio]
    rfl

theorem blocked_feeds (midway : s.Midway) : (s.blocked m again).Feeds := by
  refine ⟨fun t n member => ?_, midway.links.feeds.owned⟩
  have placed := (s.blocked m again).queues.mem_nodes.mp member
  obtain rfl | other := eq_or_ne t s.taskCurrent
  · have same : m = n := by simpa [State.blocked, continueAt, setContext] using placed
    simp [State.blocked, continueAt, setContext, setTask, same]
  · have same : Undisturbed s (s.blocked m again) t := by
      constructor <;> simp [State.blocked, setTask, continueAt, setContext, other]
    rw [same.place] at placed
    rw [same.lock]
    exact ((midway.links.task t).slave n).mp placed

theorem raise_balanced {x : State} {prio : Int} (balanced : x.Balanced [.task owner])
    (exact : x.Matters (.task owner) → x.inheritance.Exact
      (Function.update x.holderPrio (.task owner) prio) (.task owner))
    (low : (x.task owner).prio < prio) :
    (x.setTask owner { x.task owner with prio := prio }).Balanced [] ↔
      ∀ inner, owner ∈ x.slaves inner → prio ≤ (x.mutex inner).prio := by
  constructor
  · intro after inner joined
    have exact := after (.mutex inner) trivial (by simp)
    rw [inheritance_setTask, holderPrio_setTask] at exact
    have bound := exact.source_le (mem_sources_mutex.mpr ⟨owner, joined, rfl⟩)
    simpa [holderPrio] using bound
  · intro bounded holder matters _
    rw [inheritance_setTask, holderPrio_setTask]
    have matters : x.Matters holder := by cases holder <;> exact matters
    obtain rfl | other := eq_or_ne holder (.task owner)
    · exact exact matters
    have before := balanced holder matters (by simpa using other)
    cases holder with
    | task t => exact before.update other (by simp)
    | mutex n =>
      rcases em (owner ∈ x.slaves n) with joined | absent
      · exact before.raised other low (bounded n joined)
      · exact before.update other (by simpa using absent)

/-- Blocking the current task keeps everyone exact if and only if the owner does not rise above the
lock that blocks it in turn. -/
theorem block_balanced (midway : s.Midway) (balanced : s.Balanced [])
    (owned : (s.mutex m).master = some owner) (other : owner ≠ s.taskCurrent)
    (result : s.block m owner again = some s') :
    s'.Balanced [] ↔
      ((s.mutex m).prio < (s.task s.taskCurrent).prio →
        (s.task owner).prio < (s.task s.taskCurrent).prio →
        ∀ inner, (s.task owner).lock = some inner →
          (s.task s.taskCurrent).prio ≤ (s.mutex inner).prio) := by
  obtain ⟨joined, level⟩ := @blocked_balanced s m again midway balanced
  have feeds := @blocked_feeds s m again midway
  simp only [block] at result
  split at result
  · contradiction
  split at result
  swap
  · rename_i covered
    have covered : ¬(s.mutex m).prio < (s.task s.taskCurrent).prio := covered
    cases result
    rw [max_eq_left (not_lt.mp covered)] at level
    refine ⟨fun _ rises => absurd rises covered, fun _ => ?_⟩
    change (s.blocked m again).Balanced []
    refine joined.close fun _ => ?_
    rw [Network.Exact, level_mutex, level]
    rfl
  rename_i rises
  have rises : (s.mutex m).prio < (s.task s.taskCurrent).prio := rises
  rw [max_eq_right rises.le] at level
  have settled := joined.settle_mutex feeds
  have stop := joined.stop_mutex feeds
  have master : ((s.blocked m again).mutex m).master = some owner := owned
  have same := blocked_task s m again owner
  rw [master] at settled
  rw [level] at settled stop
  set raised := (s.blocked m again).setMutex m
    { (s.blocked m again).mutex m with prio := (s.task s.taskCurrent).prio } with raised_eq
  split at result
  · rename_i low
    have low : ((s.blocked m again).task owner).prio < (s.task s.taskCurrent).prio := low
    rw [same.1] at low
    cases result
    have low' : (raised.task owner).prio < (s.task s.taskCurrent).prio := same.1 ▸ low
    have reaches : ∀ inner, owner ∈ raised.slaves inner ↔ (s.task owner).lock = some inner := by
      intro inner
      have placed : (s.blocked m again).queues.place owner = s.queues.place owner := by
        simp [State.blocked, continueAt, setContext, other]
      change owner ∈ (s.blocked m again).slaves inner ↔ _
      rw [LinkedLists.mem_nodes, placed, (midway.links.task owner).slave]
    have inner_prio : ∀ inner, (s.task owner).lock = some inner →
        (raised.mutex inner).prio = (s.mutex inner).prio := by
      intro inner blocked
      have different : inner ≠ m := by
        rintro rfl
        obtain ⟨holder, elsewhere, owned'⟩ := midway.kept owner inner blocked
        exact elsewhere (Option.some.inj (owned'.symm.trans owned))
      simp [raised_eq, State.setMutex, State.blocked, continueAt, setContext, setTask, different]
    have exact : raised.Matters (.task owner) → raised.inheritance.Exact
        (Function.update raised.holderPrio (.task owner) (s.task s.taskCurrent).prio)
        (.task owner) := by
      intro matters
      have exact := balanced (.task owner) matters (by simp)
      refine exact.rise same.2 ?_ (mem_sources_task.mpr
        ⟨m, midway.links.mem_owned.mpr owned, rfl⟩) ?_ ?_
      · rw [update_self]
        exact low
      · simp [raised_eq, holderPrio, State.setMutex]
      · intro source member different
        obtain ⟨n, owns, rfl⟩ := mem_sources_task.mp member
        refine ⟨mem_sources_task.mpr ⟨n, owns, rfl⟩, ?_⟩
        have apart : n ≠ m := fun same => different (by rw [same])
        simp [raised_eq, holderPrio, State.setMutex, State.blocked, continueAt, setContext,
          setTask, apart]
    refine (raise_balanced settled exact low').trans ?_
    constructor
    · intro bounded _ _ inner blocked
      rw [← inner_prio inner blocked]
      exact bounded inner ((reaches inner).mpr blocked)
    · intro bounded inner joined
      have blocked := (reaches inner).mp joined
      rw [inner_prio inner blocked]
      exact bounded rises low inner blocked
  · rename_i high
    have high : ¬((s.blocked m again).task owner).prio < (s.task s.taskCurrent).prio := high
    cases result
    rw [same.1] at high
    refine ⟨fun _ _ low => absurd low high, fun _ => ?_⟩
    change raised.Balanced []
    refine stop fun u there => .inr (.inl ⟨rises, ?_⟩)
    obtain rfl : owner = u := Option.some.inj (owned.symm.trans there)
    rw [same.1]
    exact not_lt.mp high

end Block

end State
end Uos
