import Uos.Kernel.Activation

/-!
# The moves a transition is made of

Every transition of the kernel is a sequence of the moves below, possibly followed by a switch to
another task.  The code inside one move breaks links between records and repairs them again; at
the ends of a move they hold.
-/

namespace Uos

/-- A point where a task continues without taking back a lock, waiting for a group or deleting. -/
def Context.Plain : Context → Prop
  | .relock _ _ | .groupWait _ | .delete _ _ => False
  | _ => True

theorem Context.Plain.not_relock {context : Context} (plain : context.Plain) (m : MutexId)
    (deep : Int) : context ≠ .relock m deep := by
  rintro rfl
  exact plain

theorem Context.Plain.not_groupWait {context : Context} (plain : context.Plain) (g : GroupId) :
    context ≠ .groupWait g := by
  rintro rfl
  exact plain

theorem Context.Plain.not_delete {context : Context} (plain : context.Plain) (t : TaskId)
    (message : Message) : context ≠ .delete t message := by
  rintro rfl
  exact plain

namespace State

/-- The links hold, and nobody is blocked on a free lock or on a lock of his own. -/
structure Settled (s : State) : Prop where
  links : s.Links
  kept : ∀ t m, (s.task t).lock = some m →
    ∃ owner, owner ≠ t ∧ (s.mutex m).master = some owner
  relocks : ∀ t m deep, s.context t = .relock m deep → (s.mutex m).master ≠ some t ∧ 0 < deep

/-- The state inside a stretch of kernel code that the current task executes. -/
structure Midway (s : State) : Prop extends Settled s where
  born : s.life s.taskCurrent ≠ .unborn
  unlisted : s.taskCurrent ≠ taskIdle → ∀ g, (s.group g).waiter ≠ some s.taskCurrent
  unblocked : (s.task s.taskCurrent).lock = none

def asleep (s : State) (m : MutexId) : State :=
  { s.setTask s.taskCurrent { s.task s.taskCurrent with wait := some m } with
    queues := s.queues.append (.waiters m) s.taskCurrent }

/-- Take a task out of all lists, ask for a switch if it is the current one. -/
def removed (s : State) (t : TaskId) : State :=
  { s with
    life := Function.update s.life t .deleted
    queues := s.queues.unlink t
    taskNeedSchedule := s.taskNeedSchedule || decide (t = s.taskCurrent) }

/-- The lock that the code executed next tries to get, waiting if it is busy. -/
def wanted (s : State) : Event → Option MutexId
  | .call (.mutexLock m) _ | .call (.mutexLockIrq m _ _ _) _ => some m
  | .resume _ =>
    match s.context s.taskCurrent with
    | .lock m | .lockIrq m _ _ _ | .relock m _ => some m
    | _ => none
  | _ => none

/-- Whether the code executed next tries to get a lock. -/
def Takes (s : State) (event : Event) (m : MutexId) : Prop :=
  s.wanted event = some m ∨ ∃ answer, event = .call (.mutexTrylock m) answer

/-- The part of a transition that keeps the links between tasks and locks.  A lock that is freed
is taken from its master, its pending interrupt is served, and the tasks it blocks are made
ready.  The transition starts at `start`. -/
inductive Move (start : State) (event : Event) (s : State) : State → Prop
  | activated {s' : State} (activated : Activated s s') : Move start event s s'
  | attach (m : MutexId) (irq : Irq) (handler : Option Nat) (arg : Nat) :
      Move start event s (s.attach m irq handler arg)
  | deepen (m : MutexId) (first : s = start) (takes : s.Takes event m)
      (owned : (s.mutex m).master = some s.taskCurrent) :
      Move start event s (s.deepen m)
  | lower (m : MutexId) (owned : (s.mutex m).master ≠ none)
      (positive : 0 < s.small.wrap ((s.mutex m).deep - 1)) :
      Move start event s
        (s.setMutex m { s.mutex m with deep := s.small.wrap ((s.mutex m).deep - 1) })
  | acquire (m : MutexId) (deep : Int) (unowned : (s.mutex m).master = none)
      (nobody : s.slaves m = []) (shallow : (s.mutex m).deep = 0)
      (positive : 0 < deep)
      (origin : deep = 1 ∨ start.context start.taskCurrent = .relock m deep)
      (fresh : ∀ deep, s.context s.taskCurrent ≠ .relock m deep) :
      Move start event s
        ((s.acquire m).setMutex m { (s.acquire m).mutex m with deep := deep })
  | free (calls : Nat) (m : MutexId) (deep : Int) {released served detached ready s' : State}
      (last : deep = 0 ∨ deep = s.small.wrap ((s.mutex m).deep - 1) ∧ deep ≤ 0)
      (released_eq : release calls (s.setMutex m { s.mutex m with deep := deep }) m =
        some released)
      (served_eq : Activated released served)
      (detached_eq : detached = served ∨ detached = served.detach m)
      (ready_eq : detached.readySlaves m = some ready)
      (after_eq : s' = ready.setMutex m { ready.mutex m with prio := 0 } ∨
        detached.slaves m = [] ∧ s' = ready) :
      Move start event s s'
  | create (t : TaskId) (prio : Int) (answer : Answer) {s' : State}
      (call : event = .call (.taskCreate t prio) answer) (unborn : s.life t = .unborn)
      (result : taskActivate
        { (s.setTask t { prio := s.small.wrap prio, basePrio := s.small.wrap prio }).setContext t
            .user with life := Function.update s.life t .alive } t = some s') :
      Move start event s s'
  | remove (calls : Nat) (t : TaskId) (message : Message) (answer : Answer) {middle s' : State}
      (call : event = .call (.taskDelete t message) answer) (born : s.life t ≠ .unborn)
      (result : (∃ m, (s.task t).lock = some m ∧ (s.mutex m).prio ≤ (s.task t).prio ∧
          mutexRecalculatePrio calls (s.removed t) m = some middle) ∨
        middle = s.removed t ∧
          ∀ m, (s.task t).lock = some m → (s.task t).prio < (s.mutex m).prio)
      (after_eq : s' = middle.setTask t { middle.task t with lock := none, wait := none }) :
      Move start event s s'
  | bury (t : TaskId) (message : Message)
      (context : s.context s.taskCurrent = .delete t message) (last : s.owned.nodes t = []) :
      Move start event s (s.setTask t { s.task t with basePrio := 0 })
  | prioritize (calls : Nat) (t : TaskId) (prio : Int) (answer : Answer) {s' : State}
      (call : event = .call (.taskSetPriority t prio) answer)
      (result : taskRecalculatePrio calls
        (s.setTask t { s.task t with basePrio := s.small.wrap prio }) t = some s') :
      Move start event s s'
  | turn (context : Context) (free : ∀ m deep, context = .relock m deep →
      (s.mutex m).master ≠ some s.taskCurrent ∧ 0 < deep ∧ deep = (start.mutex m).deep)
      (elsewhere : ∀ g, context ≠ .groupWait g)
      (deleting : ∀ t message, context = .delete t message →
        start.context start.taskCurrent = context ∨ s.life t = .deleted) :
      Move start event s (s.continueAt context)

/-- A sequence of moves within one transition. -/
abbrev Moves (start : State) (event : Event) : State → State → Prop :=
  Relation.ReflTransGen (Move start event)

variable {s : State} {m : MutexId} {calls : Nat} {s' : State} {deep : Int} (t : TaskId)

theorem Settled.nobody (settled : s.Settled) (unowned : (s.mutex m).master = none) :
    s.slaves m = [] := by
  rw [LinkedLists.nodes_eq_nil]
  intro t placed
  obtain ⟨owner, -, owned⟩ := settled.kept t m (((settled.links.task t).slave m).mp placed)
  rw [unowned] at owned
  contradiction

theorem Midway.placed {s : State} (midway : s.Midway) (m : MutexId) :
    s.queues.place s.taskCurrent ≠ some (.slaves m) := fun placed => by
  simpa [midway.unblocked] using ((midway.links.task _).slave m).mp placed

theorem Midway.reprice {s s' : State} (midway : s.Midway) (repriced : Repriced s s') :
    s'.Midway := by
  have links := midway.links.reprice repriced
  obtain ⟨_, _, _, rfl, _⟩ := repriced
  exact ⟨⟨links, midway.kept, midway.relocks⟩, midway.born, midway.unlisted, midway.unblocked⟩

theorem Midway.woken {s s' : State} (midway : s.Midway) (woken : Woken s s') : s'.Midway where
  links := midway.links.woken woken
  kept t m := by rw [woken.lock, woken.mutex]; exact midway.kept t m
  relocks t m deep := by rw [woken.context, woken.mutex]; exact midway.relocks t m deep
  born := by rw [woken.life, woken.taskCurrent]; exact midway.born
  unlisted busy g := by
    rw [woken.taskCurrent] at busy ⊢
    rcases woken.waiter g with same | gone
    · exact same ▸ midway.unlisted busy g
    · simp [gone]
  unblocked := by rw [woken.taskCurrent, woken.lock]; exact midway.unblocked

theorem setMutex_master {record : Mutex} (same : record.master = (s.mutex m).master) (n : MutexId) :
    ((s.setMutex m record).mutex n).master = (s.mutex n).master := by
  obtain rfl | other := eq_or_ne n m
  · simpa [State.setMutex] using same
  · simp [State.setMutex, other]

theorem Settled.setMutex {s : State} (settled : s.Settled) {m : MutexId} {record : Mutex}
    (same : record.master = (s.mutex m).master) : (s.setMutex m record).Settled where
  links := settled.links.setMutex same
  kept t n blocked := by rw [setMutex_master same]; exact settled.kept t n blocked
  relocks t n deep context := by rw [setMutex_master same]; exact settled.relocks t n deep context

theorem Midway.setMutex {s : State} (midway : s.Midway) {m : MutexId} {record : Mutex}
    (same : record.master = (s.mutex m).master) : (s.setMutex m record).Midway where
  toSettled := midway.toSettled.setMutex same
  born := midway.born
  unlisted := midway.unlisted
  unblocked := midway.unblocked

theorem Midway.attach (midway : s.Midway) (m : MutexId) (irq : Irq) (handler : Option Nat)
    (arg : Nat) : (s.attach m irq handler arg).Midway := by
  have changed : (s.setMutex m { s.mutex m with irq := some irq }).Midway := midway.setMutex rfl
  exact changed.woken (woken_setIrq _ irq _)

theorem Midway.own (midway : s.Midway) (unowned : (s.mutex m).master = none)
    (fresh : ∀ deep, s.context s.taskCurrent ≠ .relock m deep) :
    ({ s.setMutex m { s.mutex m with master := some s.taskCurrent } with
        owned := s.owned.append s.taskCurrent m } : State).Midway where
  links := by
    refine ⟨fun n => ?_, fun t => ?_⟩
    · obtain rfl | other := eq_or_ne n m
      · simp [State.setMutex]
      · simpa [State.setMutex, other] using midway.links.owner n
    · refine (midway.links.task t).congr rfl rfl rfl rfl rfl (fun _ => id) fun unborn n => ?_
      have busy : s.taskCurrent ≠ t := by
        rintro rfl
        exact midway.born unborn
      obtain rfl | other := eq_or_ne n m
      · simp [busy]
      · simp [other]
  kept t n blocked := by
    obtain ⟨owner, other, owned⟩ := midway.kept t n blocked
    refine ⟨owner, other, ?_⟩
    have different : n ≠ m := by
      rintro rfl
      rw [unowned] at owned
      contradiction
    simpa [State.setMutex, different] using owned
  relocks t n deep context := by
    obtain rfl | other := eq_or_ne n m
    · have different : t ≠ s.taskCurrent := by
        rintro rfl
        exact fresh deep context
      simpa [State.setMutex, different.symm] using (midway.relocks t n deep context).2
    · simpa [State.setMutex, other] using midway.relocks t n deep context
  born := midway.born
  unlisted := midway.unlisted
  unblocked := midway.unblocked

theorem acquire_repriced (s : State) (m : MutexId) :
    Repriced
      { s.setMutex m { s.mutex m with master := some s.taskCurrent } with
        owned := s.owned.append s.taskCurrent m } (s.acquire m) := by
  simp only [acquire]
  split
  · exact repriced_setTask _ _ _
  · exact Repriced.refl _

theorem Midway.acquire (midway : s.Midway) (unowned : (s.mutex m).master = none)
    (fresh : ∀ deep, s.context s.taskCurrent ≠ .relock m deep) : (s.acquire m).Midway :=
  (midway.own unowned fresh).reprice (acquire_repriced s m)

theorem Links.release (links : s.Links) (result : release calls s m = some s') : s'.Links := by
  obtain ⟨owner, middle, -, ⟨_, _, _, rfl, -⟩, rfl⟩ := release_eq result
  refine ⟨fun n => ?_, fun t => ?_⟩
  · obtain rfl | other := eq_or_ne n m
    · simp [State.setMutex, State.reprice]
    · simpa [State.setMutex, State.reprice, other] using links.owner n
  · refine (links.task t).congr rfl rfl rfl rfl rfl (fun _ => id) fun unborn n => ?_
    obtain rfl | other := eq_or_ne n m
    · simp [State.setMutex, State.reprice]
    · simp [State.setMutex, State.reprice, other]

theorem release_master (result : State.release calls s m = some s') (n : MutexId) :
    (s'.mutex n).master = if n = m then none else (s.mutex n).master := by
  obtain ⟨owner, middle, -, ⟨_, _, _, rfl, -⟩, rfl⟩ := release_eq result
  obtain rfl | other := eq_or_ne n m
  · simp [State.setMutex]
  · simp [State.setMutex, State.reprice, other]

theorem Links.readySlaves (links : s.Links) (result : s.readySlaves m = some s') : s'.Links := by
  obtain ⟨rfl, waitNone⟩ := readySlaves_eq result
  refine ⟨links.owner, fun t => ?_⟩
  have linked := links.task t
  rcases em (t ∈ s.slaves m) with member | absent
  · have placed : s.queues.place t = some (.slaves m) := s.queues.mem_nodes.mp member
    constructor
    case slave => simp [readied, LinkedLists.place_appendAll, member]
    case waiter => simp [readied, LinkedLists.place_appendAll, member]
    case waits => simp [readied, member, waitNone t member]
    case groupWaiter =>
      intro busy g waits
      simpa [placed] using (linked.groupWaiter busy g waits).2.1
    case contends => simp [readied, member]
    case unborn =>
      intro unborn
      simpa [placed] using (linked.unborn unborn).2.1
  · refine linked.congr ?_ ?_ ?_ rfl rfl (fun _ => id) (fun _ _ => id)
    · simp only [readied, if_neg absent]
    · simp only [readied, if_neg absent]
    · simp only [readied, LinkedLists.place_appendAll, if_neg absent]

theorem detach_eq (s : State) (m : MutexId) :
    ∃ mutexIrq mutex, s.detach m = { s with mutexIrq, mutex } ∧
      ∀ n, (mutex n).master = (s.mutex n).master ∧ (mutex n).prio = (s.mutex n).prio ∧
        (mutex n).deep = (s.mutex n).deep := by
  simp only [detach]
  split
  · exact ⟨_, _, rfl, fun n => ⟨rfl, rfl, rfl⟩⟩
  · refine ⟨_, _, rfl, fun n => ?_⟩
    obtain rfl | other := eq_or_ne n m
    · simp [State.setIrq]
    · simp [State.setIrq, other]

/-- A lock loses its master and gets another depth; tasks may be woken, priorities aside. -/
structure Unowned (m : MutexId) (deep : Int) (s s' : State) : Prop where
  small : s'.small = s.small
  taskCurrent : s'.taskCurrent = s.taskCurrent
  context : s'.context = s.context
  life : s'.life = s.life
  owned : s'.owned = s.owned.unlink m
  master : ∀ n, (s'.mutex n).master = if n = m then none else (s.mutex n).master
  deep : ∀ n, (s'.mutex n).deep = if n = m then deep else (s.mutex n).deep
  basePrio : ∀ t, (s'.task t).basePrio = (s.task t).basePrio
  message : ∀ t, (s.task t).wait = none → (s'.task t).message = (s.task t).message
  waiter : ∀ g, (s'.group g).waiter = (s.group g).waiter ∨ (s'.group g).waiter = none
  need : s.taskNeedSchedule = true → s'.taskNeedSchedule = true

/-- A lock that is being released, up to the point where its tasks become ready. -/
structure Releasing (m : MutexId) (deep : Int) (s s' : State) : Prop
    extends Unowned m deep s s' where
  links : s'.Links
  lock : ∀ t, (s'.task t).lock = (s.task t).lock
  slaves : ∀ n, s'.slaves n = s.slaves n
  stirred : ∀ t, Stirred s s' t
  hears : ∃ observations, Hears s s' observations

/-- What freeing a lock does to the tasks. -/
structure Freed (m : MutexId) (deep : Int) (s s' : State) : Prop
    extends Unowned m deep s s' where
  lock : ∀ t, (s'.task t).lock = if t ∈ s.slaves m then none else (s.task t).lock
  place : ∀ t,
    t ∈ s.slaves m ∧ s'.queues.place t = some .active ∧ (s'.task t).wait = none ∨
      t ∉ s.slaves m ∧ Stirred s s' t
  hears : ∃ observations, Hears s s' observations

theorem release_releasing (links : s.Links)
    (result : State.release calls (s.setMutex m { s.mutex m with deep := deep }) m = some s') :
    Releasing m deep s s' := by
  have lowered : (s.setMutex m { s.mutex m with deep := deep }).Links := links.setMutex rfl
  have after := lowered.release result
  have masters := release_master result
  obtain ⟨owner, middle, -, ⟨_, _, need, rfl, kept⟩, rfl⟩ := release_eq result
  refine ⟨⟨rfl, rfl, rfl, rfl, rfl, fun n => ?_, fun n => ?_, fun _ => rfl, fun _ _ => rfl,
    fun _ => .inl rfl, kept⟩, after, fun _ => rfl, fun _ => rfl, fun _ => .inl ⟨rfl, rfl, rfl⟩,
    [], .silent ?_ (fun _ => rfl) rfl (fun _ => rfl) rfl rfl⟩
  · rw [masters]
    obtain rfl | other := eq_or_ne n m
    · simp
    · simp [State.setMutex, other]
  · obtain rfl | other := eq_or_ne n m
    · simp [State.setMutex, State.reprice]
    · simp [State.setMutex, State.reprice, other]
  · simp [State.setMutex, State.reprice]

theorem Releasing.activated {s s' s'' : State} {m : MutexId} {deep : Int}
    (releasing : Releasing m deep s s') (activated : Activated s' s'') :
    Releasing m deep s s'' where
  links := releasing.links.woken activated.toWoken
  small := activated.small.trans releasing.small
  taskCurrent := activated.taskCurrent.trans releasing.taskCurrent
  context := activated.context.trans releasing.context
  life := activated.life.trans releasing.life
  owned := activated.owned.trans releasing.owned
  master n := by rw [activated.mutex]; exact releasing.master n
  deep n := by rw [activated.mutex]; exact releasing.deep n
  lock t := (activated.lock t).trans (releasing.lock t)
  basePrio t := (activated.basePrio t).trans (releasing.basePrio t)
  message t free := (activated.message t ((releasing.stirred t).wait_none free)).trans
    (releasing.message t free)
  waiter g := by
    rcases activated.waiter g with same | gone
    · rw [same]; exact releasing.waiter g
    · exact .inr gone
  slaves n := (activated.slaves n).trans (releasing.slaves n)
  need needed := activated.need (releasing.need needed)
  stirred t := (releasing.stirred t).trans (activated.stirred t) (releasing.lock t)
    releasing.waiter activated.waiter
  hears := by
    obtain ⟨_, hears⟩ := releasing.hears
    obtain ⟨_, hears'⟩ := activated.hears
    exact ⟨_, hears.trans hears' activated.stirred activated.message activated.waiter⟩

theorem Releasing.detach (releasing : Releasing m deep s s') :
    Releasing m deep s (s'.detach m) := by
  obtain ⟨mutexIrq, mutex, same, mutexes⟩ := detach_eq s' m
  rw [same]
  have links : ({ s' with mutexIrq, mutex } : State).Links :=
    ⟨fun n => by rw [(mutexes n).1]; exact releasing.links.owner n,
      fun t => { releasing.links.task t with }⟩
  exact
    { releasing with
      links := links
      master := fun n => by rw [(mutexes n).1]; exact releasing.master n
      deep := fun n => by rw [(mutexes n).2.2]; exact releasing.deep n
      hears := releasing.hears.imp fun _ hears => { hears with } }

theorem Releasing.freed {s'' : State} (releasing : Releasing m deep s s')
    (result : s'.readySlaves m = some s'') :
    Freed m deep s s'' := by
  obtain ⟨rfl, waitNone⟩ := readySlaves_eq result
  have slaves : s'.slaves m = s.slaves m := releasing.slaves m
  rw [slaves] at waitNone
  constructor
  case toUnowned =>
    refine { releasing.toUnowned with basePrio := ?_, message := ?_, need := ?_ }
    · intro t
      simp only [readied]
      split <;> exact releasing.basePrio t
    · intro t free
      simp only [readied]
      split <;> exact releasing.message t free
    · exact fun needed => by simp [readied, releasing.need needed]
  case lock =>
    intro t
    simp only [readied, slaves]
    split
    · rfl
    · exact releasing.lock t
  case place =>
    intro t
    simp only [readied, LinkedLists.place_appendAll, slaves, Stirred]
    split
    · rename_i member
      exact .inl ⟨member, rfl, waitNone t member⟩
    · rename_i absent
      exact .inr ⟨absent, releasing.stirred t⟩
  case hears =>
    obtain ⟨observations, hears⟩ := releasing.hears
    refine ⟨observations, { hears with waiting := fun t n placed => ?_, answered := ?_ }⟩
    · have absent : t ∉ s.slaves m := by
        rw [s.queues.mem_nodes, placed]
        simp
      simpa [readied, LinkedLists.place_appendAll, slaves, absent] using hears.waiting t n placed
    · intro g t waits
      refine (hears.answered g t waits).imp_right fun active => ?_
      simp only [readied, LinkedLists.place_appendAll]
      split
      · rfl
      · exact active

section Free

variable {s released served detached ready s' : State} {calls : Nat} {m : MutexId} {deep : Int}

theorem free_links (links : s.Links)
    (released_eq : release calls (s.setMutex m { s.mutex m with deep := deep }) m =
      some released)
    (served_eq : Activated released served)
    (detached_eq : detached = served ∨ detached = served.detach m)
    (ready_eq : detached.readySlaves m = some ready)
    (after_eq : s' = ready.setMutex m { ready.mutex m with prio := 0 } ∨
      detached.slaves m = [] ∧ s' = ready) :
    s'.Links ∧ Freed m deep s s' := by
  have releasing : Releasing m deep s detached := by
    have first := (release_releasing links released_eq).activated served_eq
    rcases detached_eq with rfl | rfl
    · exact first
    · exact first.detach
  have after : ready.Links := releasing.links.readySlaves ready_eq
  have freed := releasing.freed ready_eq
  rcases after_eq with rfl | ⟨-, rfl⟩
  · have masters := @setMutex_master ready m { ready.mutex m with prio := 0 } rfl
    refine ⟨after.setMutex rfl, { freed with
      master := ?_, deep := ?_, hears := freed.hears.imp fun _ hears => { hears with } }⟩
    · exact fun n => (masters n).trans (freed.master n)
    · intro n
      rw [← freed.deep n]
      obtain rfl | other := eq_or_ne n m
      · simp [State.setMutex]
      · simp [State.setMutex, other]
  · exact ⟨after, freed⟩

theorem Midway.freed (midway : s.Midway) (links : s'.Links) (freed : Freed m deep s s') :
    s'.Midway where
  links := links
  kept t n blocked := by
    rw [freed.lock] at blocked
    split at blocked
    · contradiction
    · rename_i absent
      have other : n ≠ m := by
        rintro rfl
        exact absent (midway.links.mem_slaves.mpr blocked)
      rw [freed.master, if_neg other]
      exact midway.kept t n blocked
  relocks t n saved context := by
    rw [freed.context] at context
    rw [freed.master]
    split
    · exact ⟨by simp, (midway.relocks t n saved context).2⟩
    · exact midway.relocks t n saved context
  born := by rw [freed.life, freed.taskCurrent]; exact midway.born
  unlisted busy g := by
    rw [freed.taskCurrent] at busy ⊢
    rcases freed.waiter g with same | gone
    · rw [same]; exact midway.unlisted busy g
    · simp [gone]
  unblocked := by
    rw [freed.taskCurrent, freed.lock]
    split
    · rfl
    · exact midway.unblocked

end Free

/-- Two states agree on where a task is and goes on, priorities aside. -/
structure Undisturbed (s s' : State) (t : TaskId) : Prop where
  lock : (s'.task t).lock = (s.task t).lock
  wait : (s'.task t).wait = (s.task t).wait
  message : (s'.task t).message = (s.task t).message
  place : s'.queues.place t = s.queues.place t
  context : s'.context t = s.context t
  life : s'.life t = s.life t

theorem Midway.retask (midway : s.Midway) (owned : s'.owned = s.owned) (mutex : s'.mutex = s.mutex)
    (taskCurrent : s'.taskCurrent = s.taskCurrent)
    (waiter : ∀ g, (s'.group g).waiter = (s.group g).waiter)
    (others : ∀ u, u ≠ t → Undisturbed s s' u) (lock : (s'.task t).lock = none)
    (linked : s'.Linked t) (born : s'.life t ≠ .unborn)
    (relocks : ∀ m deep, s'.context t = .relock m deep →
      (s.mutex m).master ≠ some t ∧ 0 < deep) : s'.Midway := by
  constructor
  case toSettled =>
    refine ⟨⟨fun m => ?_, fun u => ?_⟩, fun u m blocked => ?_, fun u m deep context => ?_⟩
    · rw [owned, mutex]
      exact midway.links.owner m
    · obtain rfl | other := eq_or_ne u t
      · exact linked
      · have same := others u other
        exact (midway.links.task u).congr same.lock same.wait same.place same.context same.life
          (fun g => by rw [waiter]; exact id) (fun _ m => by rw [owned]; exact id)
    · have other : u ≠ t := by
        rintro rfl
        rw [lock] at blocked
        contradiction
      rw [(others u other).lock] at blocked
      rw [mutex]
      exact midway.kept u m blocked
    · rw [mutex]
      obtain rfl | other := eq_or_ne u t
      · exact relocks m deep context
      · rw [(others u other).context] at context
        exact midway.relocks u m deep context
  case born =>
    rw [taskCurrent]
    obtain same | other := eq_or_ne s.taskCurrent t
    · rw [same]
      exact born
    · rw [(others _ other).life]
      exact midway.born
  case unlisted =>
    intro busy g
    rw [taskCurrent] at busy ⊢
    rw [waiter]
    exact midway.unlisted busy g
  case unblocked =>
    rw [taskCurrent]
    obtain same | other := eq_or_ne s.taskCurrent t
    · rw [same]
      exact lock
    · rw [(others _ other).lock]
      exact midway.unblocked

theorem Midway.asleep {s : State} (midway : s.Midway) (m : MutexId) : (s.asleep m).Midway := by
  apply midway.retask s.taskCurrent <;> try first | exact rfl | exact fun _ => rfl
  case others =>
    intro u other
    constructor <;> simp [State.asleep, setTask, other]
  case lock => simp [State.asleep, setTask, midway.unblocked]
  case linked =>
    constructor
    case slave => simp [State.asleep, setTask, midway.unblocked]
    case waiter => simp [State.asleep, setTask]
    case waits => simp [State.asleep, setTask]
    case groupWaiter => exact fun busy g waits => absurd waits (midway.unlisted busy g)
    case contends => simp [State.asleep, setTask, midway.unblocked]
    case unborn => exact fun unborn => absurd unborn midway.born
  case born => exact midway.born
  case relocks => exact fun m deep => midway.relocks s.taskCurrent m deep

theorem Midway.create (midway : s.Midway) {t : TaskId} {record : Task} (unborn : s.life t = .unborn)
    (lockNone : record.lock = none) (waitNone : record.wait = none) (result : taskActivate
      { (s.setTask t record).setContext t .user with life := Function.update s.life t .alive }
        t = some s') : s'.Midway := by
  obtain ⟨-, -, rfl⟩ := taskActivate_eq result
  obtain ⟨-, -, user, -, -⟩ := (midway.links.task t).unborn unborn
  have unlisted : t ≠ taskIdle → ∀ g, (s.group g).waiter ≠ some t := by
    intro busy g waits
    rw [((midway.links.task t).groupWaiter busy g waits).1] at user
    contradiction
  apply midway.retask t <;> try first | exact rfl | exact fun _ => rfl
  case others =>
    intro u other
    constructor <;> simp [setTask, setContext, other]
  case lock => simpa [setTask, setContext] using lockNone
  case linked =>
    constructor
    case slave => simp [setTask, setContext, lockNone]
    case waiter => simp [setTask, setContext]
    case waits => simp [setTask, setContext, waitNone]
    case groupWaiter => exact fun busy g waits => absurd waits (unlisted busy g)
    case contends => simp [setTask, setContext, lockNone]
    case unborn => simp
  case born => simp
  case relocks => simp [setContext]

theorem Repriced.unblock (repriced : Repriced s s') (t : TaskId) :
    Repriced (s.setTask t { s.task t with lock := none, wait := none })
      (s'.setTask t { s'.task t with lock := none, wait := none }) := by
  obtain ⟨taskPrio, mutexPrio, need, rfl, kept⟩ := repriced
  refine ⟨taskPrio, mutexPrio, need, ?_, kept⟩
  simp only [setTask, State.reprice, State.mk.injEq, true_and, and_true]
  funext u
  obtain rfl | other := eq_or_ne u t
  · simp
  · simp [other]

theorem Midway.removed {s middle : State} (midway : s.Midway) {t : TaskId}
    (repriced : Repriced (s.removed t) middle) :
    (middle.setTask t { middle.task t with lock := none, wait := none }).Midway := by
  have linked := midway.links.task t
  have start : ((s.removed t).setTask t
      { (s.removed t).task t with lock := none, wait := none }).Midway := by
    apply midway.retask t <;> try first | exact rfl | exact fun _ => rfl
    case others =>
      intro u other
      constructor <;> simp [State.removed, setTask, other]
    case lock => simp [setTask]
    case linked =>
      constructor
      case slave => simp [setTask, State.removed]
      case waiter => simp [setTask, State.removed]
      case waits => simp [setTask]
      case groupWaiter =>
        intro busy g waits
        exact ⟨(linked.groupWaiter busy g waits).1, by simp [setTask, State.removed],
          by simp [setTask]⟩
      case contends => simp [setTask]
      case unborn => simp [setTask, State.removed]
    case born => simp [setTask, State.removed]
    case relocks => exact fun m deep => midway.relocks t m deep
  exact start.reprice (repriced.unblock t)

theorem Midway.turn (midway : s.Midway) {context : Context}
    (free : ∀ m deep, context = .relock m deep →
      (s.mutex m).master ≠ some s.taskCurrent ∧ 0 < deep) : (s.continueAt context).Midway := by
  have linked := midway.links.task s.taskCurrent
  apply midway.retask s.taskCurrent <;> try first | exact rfl | exact fun _ => rfl
  case others =>
    intro u other
    constructor <;> simp [continueAt, setContext, other]
  case lock => exact midway.unblocked
  case linked =>
    constructor
    case slave => exact linked.slave
    case waiter => exact linked.waiter
    case waits => exact linked.waits
    case groupWaiter => exact fun busy g waits => absurd waits (midway.unlisted busy g)
    case contends => simp [continueAt, setContext, midway.unblocked]
    case unborn => exact fun unborn => absurd unborn midway.born
  case born => exact midway.born
  case relocks =>
    intro m deep here
    exact free m deep (by simpa [continueAt, setContext] using here)

theorem Midway.yield (midway : s.Midway)
    (awake : s.taskCurrent ≠ taskIdle → (s.task s.taskCurrent).wait = none) :
    ({ s with queues := s.queues.append .active s.taskCurrent } : State).Midway := by
  apply midway.retask s.taskCurrent <;> try first | exact rfl | exact fun _ => rfl
  case others =>
    intro u other
    constructor <;> simp [other]
  case lock => exact midway.unblocked
  case linked =>
    constructor
    case slave => simp [midway.unblocked]
    case waiter => simp
    case waits => exact fun busy m waits => by simp [awake busy] at waits
    case groupWaiter => exact fun busy g waits => absurd waits (midway.unlisted busy g)
    case contends => simp [midway.unblocked]
    case unborn => exact fun unborn => absurd unborn midway.born
  case born => exact midway.born
  case relocks => exact fun m deep => midway.relocks s.taskCurrent m deep

theorem Midway.congr {s s' : State} (midway : s.Midway)
    (owned : s'.owned = s.owned) (mutex : s'.mutex = s.mutex)
    (taskCurrent : s'.taskCurrent = s.taskCurrent)
    (waiter : ∀ g, (s'.group g).waiter = (s.group g).waiter)
    (same : ∀ t, Undisturbed s s' t) : s'.Midway := by
  have current := same s.taskCurrent
  refine ⟨⟨⟨fun m => ?_, fun t => ?_⟩, fun t m => ?_, fun t m deep => ?_⟩, ?_, ?_, ?_⟩
  · rw [owned, mutex]
    exact midway.links.owner m
  · have same := same t
    exact (midway.links.task t).congr same.lock same.wait same.place same.context same.life
      (fun g => by rw [waiter]; exact id) (fun _ m => by rw [owned]; exact id)
  · rw [(same t).lock, mutex]
    exact midway.kept t m
  · rw [(same t).context, mutex]
    exact midway.relocks t m deep
  · rw [taskCurrent, current.life]
    exact midway.born
  · intro busy g
    rw [taskCurrent] at busy ⊢
    rw [waiter]
    exact midway.unlisted busy g
  · rw [taskCurrent, current.lock]
    exact midway.unblocked

theorem Midway.setBasePrio (midway : s.Midway) (prio : Int) :
    (s.setTask t { s.task t with basePrio := prio }).Midway := by
  refine midway.congr rfl rfl rfl (fun _ => rfl) fun u => ?_
  obtain rfl | other := eq_or_ne u t
  · constructor <;> simp [setTask]
  · constructor <;> simp [setTask, other]

theorem Move.midway {start : State} {event : Event} {s s' : State} (midway : s.Midway)
    (move : Move start event s s') : s'.Midway := by
  cases move with
  | activated activated => exact midway.woken activated.toWoken
  | attach m irq handler arg => exact midway.attach m irq handler arg
  | deepen m => exact midway.setMutex rfl
  | lower m => exact midway.setMutex rfl
  | acquire m deep unowned _ _ _ _ fresh => exact (midway.acquire unowned fresh).setMutex rfl
  | free calls m deep _ released_eq served_eq detached_eq ready_eq after_eq =>
    obtain ⟨links, freed⟩ :=
      free_links midway.links released_eq served_eq detached_eq ready_eq after_eq
    exact midway.freed links freed
  | create t prio answer _ unborn result => exact midway.create unborn rfl rfl result
  | remove calls t message answer _ _ result after_eq =>
    obtain rfl := after_eq
    apply midway.removed
    rcases result with ⟨m, -, -, chain⟩ | ⟨rfl, -⟩
    · exact mutexRecalculatePrio_repriced chain
    · exact Repriced.refl _
  | bury t => exact midway.setBasePrio t 0
  | prioritize calls t prio _ _ result =>
    exact (midway.setBasePrio t _).reprice (taskRecalculatePrio_repriced result)
  | turn context free =>
    exact midway.turn fun m deep same => ⟨(free m deep same).1, (free m deep same).2.1⟩

theorem Moves.midway {start : State} {event : Event} {s s' : State} (midway : s.Midway)
    (moves : Moves start event s s') : s'.Midway :=
  run_invariant Midway (fun midway move => Move.midway midway move) midway moves

/-- A task that waits or is blocked becomes ready. -/
structure Roused (s s' : State) (t : TaskId) : Prop where
  lock : (s'.task t).lock = none
  wait : (s'.task t).wait = none
  message : (s.task t).wait = none → (s'.task t).message = (s.task t).message
  place : s'.queues.place t = some .active
  context : s'.context t = s.context t
  life : s'.life t = s.life t
  cause : (s.task t).lock ≠ none ∨ (∃ m, s.queues.place t = some (.waiters m)) ∨
    s.queues.place t = none ∧ ∃ g, (s.group g).waiter = some t

/-- What a move can do to a task. -/
inductive Shift (event : Event) (s s' : State) (t : TaskId) : Prop
  | undisturbed (undisturbed : Undisturbed s s' t) : Shift event s s' t
  | roused (roused : Roused s s' t) : Shift event s s' t
  | created (call : ∃ prio answer, event = .call (.taskCreate t prio) answer)
      (unborn : s.life t = .unborn) (lock : (s'.task t).lock = none)
      (wait : (s'.task t).wait = none) (place : s'.queues.place t = some .active)
      (context : s'.context t = .user) (life : s'.life t = .alive) : Shift event s s' t
  | deleted (call : ∃ message answer, event = .call (.taskDelete t message) answer)
      (lock : (s'.task t).lock = none) (wait : (s'.task t).wait = none)
      (place : s'.queues.place t = none) (context : s'.context t = s.context t)
      (life : s'.life t = .deleted) (need : t = s.taskCurrent → s'.taskNeedSchedule = true) :
      Shift event s s' t
  | turned (current : t = s.taskCurrent) (lock : (s'.task t).lock = (s.task t).lock)
      (wait : (s'.task t).wait = (s.task t).wait)
      (message : (s'.task t).message = (s.task t).message)
      (place : s'.queues.place t = s.queues.place t) (life : s'.life t = s.life t)
      (elsewhere : ∀ g, s'.context t ≠ .groupWait g) : Shift event s s' t

theorem Repriced.undisturbed (repriced : Repriced s s') (t : TaskId) :
    Undisturbed s s' t := by
  obtain ⟨_, _, _, rfl, -⟩ := repriced
  exact ⟨rfl, rfl, rfl, rfl, rfl, rfl⟩

theorem Undisturbed.trans {s s' s'' : State} {t : TaskId} (first : Undisturbed s s' t)
    (second : Undisturbed s' s'' t) : Undisturbed s s'' t where
  lock := second.lock.trans first.lock
  wait := second.wait.trans first.wait
  message := second.message.trans first.message
  place := second.place.trans first.place
  context := second.context.trans first.context
  life := second.life.trans first.life

theorem undisturbed_setBasePrio (s : State) (t u : TaskId) (prio : Int) :
    Undisturbed s (s.setTask t { s.task t with basePrio := prio }) u := by
  obtain rfl | other := eq_or_ne u t
  · constructor <;> simp [setTask]
  · constructor <;> simp [setTask, other]

theorem Stirred.shift {event : Event} {t : TaskId} (stirred : Stirred s s' t)
    (lock : (s'.task t).lock = (s.task t).lock) (context : s'.context t = s.context t)
    (life : s'.life t = s.life t)
    (message : (s.task t).wait = none → (s'.task t).message = (s.task t).message) :
    Shift event s s' t := by
  rcases stirred with ⟨place, wait, same⟩ | ⟨active, free, unblocked, cause⟩
  · exact .undisturbed ⟨lock, wait, same, place, context, life⟩
  · refine .roused ⟨lock.trans unblocked, free, message, active, context, life, .inr ?_⟩
    exact cause.imp_right fun ⟨unlinked, g, waits, _⟩ => ⟨unlinked, g, waits⟩

theorem Freed.shift {event : Event} {s s' : State} {m : MutexId} {deep : Int} (links : s.Links)
    (freed : Freed m deep s s') (t : TaskId) : Shift event s s' t := by
  have lock := freed.lock t
  rcases freed.place t with ⟨member, active, free⟩ | ⟨absent, stirred⟩
  · rw [if_pos member] at lock
    exact .roused ⟨lock, free, freed.message t, active, congrFun freed.context t,
      congrFun freed.life t, .inl (by simp [links.mem_slaves.mp member])⟩
  · rw [if_neg absent] at lock
    exact stirred.shift lock (congrFun freed.context t) (congrFun freed.life t) (freed.message t)

theorem Move.shift {start : State} {event : Event} {s s' : State} (midway : s.Midway)
    (move : Move start event s s') (t : TaskId) : Shift event s s' t := by
  cases move with
  | activated activated =>
    exact (activated.stirred t).shift (activated.lock t) (congrFun activated.context t)
      (congrFun activated.life t) (activated.message t)
  | attach m irq handler arg => exact .undisturbed ⟨rfl, rfl, rfl, rfl, rfl, rfl⟩
  | deepen m => exact .undisturbed ⟨rfl, rfl, rfl, rfl, rfl, rfl⟩
  | lower m => exact .undisturbed ⟨rfl, rfl, rfl, rfl, rfl, rfl⟩
  | acquire m deep =>
    have same := (acquire_repriced s m).undisturbed t
    exact .undisturbed ⟨same.lock, same.wait, same.message, same.place, same.context, same.life⟩
  | free calls m deep _ released_eq served_eq detached_eq ready_eq after_eq =>
    exact (free_links midway.links released_eq served_eq detached_eq ready_eq after_eq).2.shift
      midway.links t
  | create u prio answer call unborn result =>
    obtain ⟨-, -, rfl⟩ := taskActivate_eq result
    obtain rfl | other := eq_or_ne t u
    · exact .created ⟨prio, answer, call⟩ unborn (by simp [setTask, setContext])
        (by simp [setTask, setContext]) (by simp) (by simp [setContext]) (by simp)
    · refine .undisturbed ?_
      constructor <;> simp [setTask, setContext, other]
  | @remove calls u message answer middle _ call born result after_eq =>
    obtain rfl := after_eq
    have repriced : Repriced (s.removed u) middle := by
      rcases result with ⟨m, -, -, chain⟩ | ⟨rfl, -⟩
      · exact mutexRecalculatePrio_repriced chain
      · exact .refl _
    have same := (repriced.unblock u).undisturbed t
    obtain ⟨_, _, _, after, needed⟩ := repriced.unblock u
    obtain rfl | other := eq_or_ne t u
    · refine .deleted ⟨message, answer, call⟩ (same.lock.trans ?_) (same.wait.trans ?_)
        (same.place.trans ?_) (same.context.trans ?_) (same.life.trans ?_) fun current => ?_
      · simp [setTask]
      · simp [setTask]
      · simp [setTask, State.removed]
      · simp [setTask, State.removed]
      · simp [setTask, State.removed]
      · rw [after]
        exact needed (by simp [setTask, State.removed, current])
    · refine .undisturbed (Undisturbed.trans ?_ same)
      constructor <;> simp [setTask, State.removed, other]
  | bury u => exact .undisturbed (undisturbed_setBasePrio s u t 0)
  | prioritize calls u prio _ _ result =>
    exact .undisturbed ((undisturbed_setBasePrio s u t _).trans
      ((taskRecalculatePrio_repriced result).undisturbed t))
  | turn context free elsewhere =>
    obtain same | other := eq_or_ne t s.taskCurrent
    · refine .turned same rfl rfl rfl rfl rfl fun g => ?_
      simpa [continueAt, setContext, same] using elsewhere g
    · refine .undisturbed ⟨rfl, rfl, rfl, rfl, ?_, rfl⟩
      simp [continueAt, setContext, other]

theorem Move.wait_none {start : State} {event : Event} (midway : s.Midway)
    (move : Move start event s s') {t : TaskId} (free : (s.task t).wait = none) :
    (s'.task t).wait = none := by
  cases move.shift midway t with
  | undisturbed same => exact same.wait.trans free
  | roused roused => exact roused.wait
  | created _ _ _ wait => exact wait
  | deleted _ _ wait => exact wait
  | turned _ _ wait => exact wait.trans free

theorem Move.taskCurrent {start : State} {event : Event} {s s' : State} (midway : s.Midway)
    (move : Move start event s s') : s'.taskCurrent = s.taskCurrent := by
  cases move with
  | activated activated => exact activated.taskCurrent
  | acquire m deep =>
    obtain ⟨_, _, _, after, -⟩ := acquire_repriced s m
    simp [after, setMutex, State.reprice]
  | free calls m deep _ released_eq served_eq detached_eq ready_eq after_eq =>
    exact (free_links midway.links released_eq served_eq detached_eq ready_eq
      after_eq).2.taskCurrent
  | create u prio answer call unborn result =>
    obtain ⟨-, -, rfl⟩ := taskActivate_eq result
    rfl
  | remove calls u message answer call born result after_eq =>
    obtain rfl := after_eq
    rcases result with ⟨m, -, -, chain⟩ | ⟨rfl, -⟩
    · obtain ⟨_, _, _, rfl, -⟩ := mutexRecalculatePrio_repriced chain
      rfl
    · rfl
  | prioritize calls u prio _ _ result =>
    obtain ⟨_, _, _, rfl, -⟩ := taskRecalculatePrio_repriced result
    rfl
  | _ => rfl

end State
end Uos
