import Uos.Kernel.Machine
import Uos.Library.Execution

/-!
# What the loops of the kernel do

Recalculating priorities changes priorities only, and may ask for a switch.  The loops that make
tasks ready have closed forms: every task of the list is changed in the same way and appended to
the list of ready tasks.
-/

namespace Uos
namespace State

/-- Replace all priorities and the flag that asks for a switch. -/
def reprice (s : State) (taskPrio : TaskId → Int) (mutexPrio : MutexId → Int) (need : Bool) :
    State :=
  { s with
    task := fun t => { s.task t with prio := taskPrio t }
    mutex := fun m => { s.mutex m with prio := mutexPrio m }
    taskNeedSchedule := need }

/-- One state is another one with other priorities, and asks for a switch if that did. -/
def Repriced (s s' : State) : Prop :=
  ∃ taskPrio mutexPrio need,
    s' = s.reprice taskPrio mutexPrio need ∧ (s.taskNeedSchedule = true → need = true)

theorem Repriced.refl (s : State) : Repriced s s :=
  ⟨fun t => (s.task t).prio, fun m => (s.mutex m).prio, s.taskNeedSchedule, rfl, id⟩

variable {s s' : State} {calls : Nat} {m : MutexId}

theorem Repriced.trans {s'' : State} (first : Repriced s s') (second : Repriced s' s'') :
    Repriced s s'' := by
  obtain ⟨_, _, _, rfl, firstNeed⟩ := first
  obtain ⟨taskPrio, mutexPrio, need, rfl, secondNeed⟩ := second
  exact ⟨taskPrio, mutexPrio, need, rfl, fun needed => secondNeed (firstNeed needed)⟩

theorem repriced_setTask (s : State) (t : TaskId) (prio : Int) :
    Repriced s (s.setTask t { s.task t with prio := prio }) := by
  refine ⟨Function.update (fun t => (s.task t).prio) t prio, fun m => (s.mutex m).prio,
    s.taskNeedSchedule, ?_, id⟩
  have tasks : Function.update s.task t { s.task t with prio := prio } =
      fun u => { s.task u with prio := Function.update (fun t => (s.task t).prio) t prio u } := by
    funext u
    by_cases same : u = t
    · subst same; simp
    · simp [same]
  simp only [setTask, reprice, tasks]

theorem repriced_setMutex (s : State) (m : MutexId) (prio : Int) :
    Repriced s (s.setMutex m { s.mutex m with prio := prio }) := by
  refine ⟨fun t => (s.task t).prio, Function.update (fun m => (s.mutex m).prio) m prio,
    s.taskNeedSchedule, ?_, id⟩
  have mutexes : Function.update s.mutex m { s.mutex m with prio := prio } =
      fun n => { s.mutex n with prio := Function.update (fun m => (s.mutex m).prio) m prio n } := by
    funext n
    by_cases same : n = m
    · subst same; simp
    · simp [same]
  simp only [setMutex, reprice, mutexes]

theorem repriced_need (s : State) : Repriced s { s with taskNeedSchedule := true } :=
  ⟨fun t => (s.task t).prio, fun m => (s.mutex m).prio, true, rfl, fun _ => rfl⟩

theorem recalculate_repriced (calls : Nat) :
    (∀ s t s', taskRecalculatePrio calls s t = some s' → Repriced s s') ∧
      ∀ s m s', mutexRecalculatePrio calls s m = some s' → Repriced s s' := by
  induction calls with
  | zero => simp [taskRecalculatePrio, mutexRecalculatePrio]
  | succ calls ih =>
    obtain ⟨taskChain, mutexChain⟩ := ih
    constructor
    · intro s t s' result
      have changed := repriced_setTask s t (s.taskSlavesPrio t)
      simp only [taskRecalculatePrio] at result
      repeat' split at result
      all_goals first
        | exact Option.some.inj result ▸ changed
        | exact Option.some.inj result ▸ changed.trans (repriced_need _)
        | exact changed.trans (mutexChain _ _ _ result)
    · intro s m s' result
      have changed := repriced_setMutex s m (s.mutexSlavesPrio m)
      simp only [mutexRecalculatePrio] at result
      repeat' split at result
      all_goals first
        | exact Option.some.inj result ▸ changed
        | exact changed.trans (taskChain _ _ _ result)

theorem taskRecalculatePrio_repriced {t : TaskId}
    (result : taskRecalculatePrio calls s t = some s') : Repriced s s' :=
  (recalculate_repriced calls).1 s t s' result

theorem mutexRecalculatePrio_repriced (result : mutexRecalculatePrio calls s m = some s') :
    Repriced s s' :=
  (recalculate_repriced calls).2 s m s' result

/-- What a loop that makes tasks ready does, when each turn changes one task record. -/
def readied (s : State) (tasks : List TaskId) (change : Task → Task) : State :=
  { s with
    task := fun t => if t ∈ tasks then change (s.task t) else s.task t
    queues := s.queues.appendAll .active tasks
    taskNeedSchedule :=
      s.taskNeedSchedule ||
        tasks.any fun t => decide ((s.task s.taskCurrent).prio < (s.task t).prio) }

theorem taskActivate_eq {t : TaskId} (result : s.taskActivate t = some s') :
    (s.task t).lock = none ∧ (s.task t).wait = none ∧
      s' = { s with
        queues := s.queues.append .active t
        taskNeedSchedule :=
          s.taskNeedSchedule || decide ((s.task s.taskCurrent).prio < (s.task t).prio) } := by
  simp only [taskActivate] at result
  split at result
  · contradiction
  · rename_i ready
    simp only [taskIsWaiting, Bool.or_eq_true, not_or, Option.not_isSome_iff_eq_none] at ready
    exact ⟨ready.1, ready.2, (Option.some.inj result).symm⟩

theorem foldlM_readied {turn : State → TaskId → Option State} (change : Task → Task)
    (keepsPrio : ∀ record, (change record).prio = record.prio)
    (idempotent : ∀ record, change (change record) = change record)
    (turn_eq : ∀ {s s' t}, turn s t = some s' →
      (s.setTask t (change (s.task t))).taskActivate t = some s') {tasks : List TaskId}
    (result : tasks.foldlM turn s = some s') :
    s' = s.readied tasks change ∧
      ∀ t ∈ tasks, (change (s.task t)).lock = none ∧ (change (s.task t)).wait = none := by
  induction tasks generalizing s with
  | nil =>
    obtain rfl : s = s' := by simpa using result
    simp [readied]
  | cons t tasks ih =>
    rw [List.foldlM_cons] at result
    obtain ⟨middle, first, rest⟩ := Option.bind_eq_some_iff.mp result
    obtain ⟨lockNone, waitNone, rfl⟩ := taskActivate_eq (turn_eq first)
    obtain ⟨after, laterFree⟩ := ih rest
    simp only [setTask, Function.update_self] at lockNone waitNone
    refine ⟨?_, ?_⟩
    swap
    · intro u member
      by_cases same : u = t
      · exact same ▸ ⟨lockNone, waitNone⟩
      · simpa [setTask, same] using laterFree u ((List.mem_cons.mp member).resolve_left same)
    rw [after]
    have prios : ∀ u, ((s.setTask t (change (s.task t))).task u).prio = (s.task u).prio := by
      intro u
      by_cases same : u = t
      · subst same; simp [setTask, keepsPrio]
      · simp [setTask, same]
    have tasksEq : (fun u =>
        if u ∈ tasks then change ((s.setTask t (change (s.task t))).task u)
        else (s.setTask t (change (s.task t))).task u) =
        fun u => if u ∈ t :: tasks then change (s.task u) else s.task u := by
      funext u
      by_cases same : u = t
      · subst same; by_cases later : u ∈ tasks <;> simp [setTask, later, idempotent]
      · by_cases later : u ∈ tasks <;> simp [setTask, same, later]
    simp only [readied, tasksEq, prios]
    simp [setTask, Bool.or_assoc]
    rfl

theorem readySlaves_eq (result : s.readySlaves m = some s') :
    s' = s.readied (s.slaves m) (fun record => { record with lock := none }) ∧
      ∀ t ∈ s.slaves m, (s.task t).wait = none := by
  have turn_eq : ∀ {s s' : State} {t : TaskId}, readySlave m s t = some s' →
      (s.setTask t { s.task t with lock := none }).taskActivate t = some s' := by
    intro s s' t turn
    simp only [readySlave] at turn
    split at turn
    · exact turn
    · contradiction
  obtain ⟨after, free⟩ := foldlM_readied (fun record => { record with lock := none })
    (fun _ => rfl) (fun _ => rfl) turn_eq result
  exact ⟨after, fun t member => (free t member).2⟩

theorem wakeWaiters_eq {message : Message} {tasks : List TaskId}
    (result : tasks.foldlM (wakeWaiter m message) s = some s') :
    s' = s.readied tasks (fun record => { record with wait := none, message := message }) ∧
      ∀ t ∈ tasks, (s.task t).lock = none := by
  have turn_eq : ∀ {s s' : State} {t : TaskId}, wakeWaiter m message s t = some s' →
      (s.setTask t { s.task t with wait := none, message := message }).taskActivate t =
        some s' := by
    intro s s' t turn
    simp only [wakeWaiter] at turn
    split at turn
    · exact turn
    · contradiction
  obtain ⟨after, free⟩ := foldlM_readied
    (fun record => { record with wait := none, message := message })
    (fun _ => rfl) (fun _ => rfl) turn_eq result
  exact ⟨after, fun t member => (free t member).1⟩

theorem release_eq (result : release calls s m = some s') :
    ∃ owner middle, (s.mutex m).master = some owner ∧
      Repriced { s with owned := s.owned.unlink m } middle ∧
      s' = middle.setMutex m { middle.mutex m with master := none } := by
  simp only [release] at result
  split at result
  · contradiction
  · rename_i owner owned
    split at result
    · obtain ⟨middle, chain, last⟩ := Option.bind_eq_some_iff.mp result
      exact ⟨owner, middle, owned, taskRecalculatePrio_repriced chain,
        (Option.some.inj last).symm⟩
    · exact ⟨owner, _, owned, Repriced.refl _, (Option.some.inj result).symm⟩

end State
end Uos
