import Uos.Kernel.Priorities

/-!
# Exactness along runs

A transition keeps every priority exact if and only if it does not raise the owner of a lock above
another lock that blocks this owner.
-/

namespace Uos
namespace State

/-- Every lock and every task that was not deleted has the priority it should have. -/
def Exact (s : State) : Prop :=
  (∀ m, (s.mutex m).prio = s.mutexSlavesPrio m) ∧
    ∀ t, s.life t ≠ .deleted → (s.task t).prio = s.taskSlavesPrio t

/-- One task is blocked on a lock of another one. -/
def BlocksOn (s : State) (t owner : TaskId) : Prop :=
  ∃ m, t ∈ s.slaves m ∧ (s.mutex m).master = some owner ∧ s.life owner ≠ .deleted

/-- If the running task is about to block on a lock, and to raise the owner of this lock, then the
owner is not blocked on a lock that is lower. -/
def Spreads (s : State) (event : Event) : Prop :=
  ∀ m ∈ s.wanted event, ∀ owner ∈ (s.mutex m).master, owner ≠ s.taskCurrent →
    (s.mutex m).prio < (s.task s.taskCurrent).prio →
    (s.task owner).prio < (s.task s.taskCurrent).prio →
    ∀ inner ∈ (s.task owner).lock, (s.task s.taskCurrent).prio ≤ (s.mutex inner).prio

instance (s : State) (event : Event) : Decidable (s.Spreads event) := by
  unfold Spreads
  infer_instance

variable {s s' : State} {owner : TaskId} {event : Event}

theorem exact_iff_balanced : s.Exact ↔ s.Balanced [] := by
  constructor
  · intro exact holder matters _
    cases holder with
    | task t => exact (exact.2 t matters).trans (level_task s t).symm
    | mutex m => exact (exact.1 m).trans (level_mutex s m).symm
  · intro balanced
    constructor
    · intro m
      exact (balanced (.mutex m) trivial (by simp)).trans (level_mutex s m)
    · intro t alive
      exact (balanced (.task t) alive (by simp)).trans (level_task s t)

theorem Exact.chain (exact : s.Exact) (links : s.Links) {t : TaskId}
    (chain : Relation.ReflTransGen s.BlocksOn t owner) :
    (s.task t).prio ≤ (s.task owner).prio := by
  have balanced := exact_iff_balanced.mp exact
  induction chain with
  | refl => exact le_rfl
  | tail _ link ih =>
    obtain ⟨m, blocked, owned, alive⟩ := link
    have first := (balanced (.mutex m) trivial (by simp)).source_le
      (mem_sources_mutex.mpr ⟨_, blocked, rfl⟩)
    have second := (balanced (.task _) alive (by simp)).source_le
      (mem_sources_task.mpr ⟨m, links.mem_owned.mpr owned, rfl⟩)
    exact ih.trans (first.trans second)

theorem lockLoop_blocks {m : MutexId} {again : Context} {finish : State → State}
    (owned : (s.mutex m).master = some owner) (other : owner ≠ s.taskCurrent)
    (result : s.lockLoop m again finish = some s') :
    s.block m owner again = some s' := by
  simpa [lockLoop, owned, other] using result

theorem step_blocks {calls : Nat} {m : MutexId} (wanted : s.wanted event = some m)
    (owned : (s.mutex m).master = some owner) (other : owner ≠ s.taskCurrent)
    (result : State.step calls s event = some s') :
    ∃ again, s.block m owner again = some s' := by
  cases event with
  | interrupt irqs => simp [State.wanted] at wanted
  | call c answer =>
    simp only [State.step, State.call] at result
    split at result
    swap
    · contradiction
    split at result
    swap
    · contradiction
    cases c with
    | mutexLock n =>
      obtain rfl : n = m := by simpa [State.wanted] using wanted
      simp only [mutexLock] at result
      split at result
      · contradiction
      · exact ⟨_, lockLoop_blocks owned other result⟩
    | mutexLockIrq n irq handler arg =>
      obtain rfl : n = m := by simpa [State.wanted] using wanted
      exact ⟨_, lockLoop_blocks owned other result⟩
    | _ => simp [State.wanted] at wanted
  | resume answer =>
    simp only [State.step, State.resume] at result
    simp only [State.wanted] at wanted
    cases context : s.context s.taskCurrent with
    | lock n =>
      rw [context] at wanted result
      obtain rfl : n = m := by simpa using wanted
      exact ⟨_, lockLoop_blocks owned other result⟩
    | lockIrq n irq handler arg =>
      rw [context] at wanted result
      obtain rfl : n = m := by simpa using wanted
      exact ⟨_, lockLoop_blocks owned other result⟩
    | relock n deep =>
      rw [context] at wanted result
      obtain rfl : n = m := by simpa using wanted
      exact ⟨.relock n deep, by simpa [relockLoop, owned] using result⟩
    | _ => simp [context] at wanted

theorem Balanced.unblocked (midway : s.Midway) (deleting : s.Deleting) (balanced : s.Balanced [])
    (outcome : Outcome event s s')
    (nowhere : ∀ m owner, s.wanted event = some m → (s.mutex m).master = some owner →
      owner = s.taskCurrent) : s'.Balanced [] := by
  cases outcome with
  | stays moves => exact Moves.balanced midway deleting (fun _ => id) deleting balanced moves
  | @switches middle moves =>
    have ends := Moves.balanced midway deleting (fun _ => id) deleting balanced moves
    exact ends
  | yields =>
    refine balanced.congr (fun _ => rfl) (fun _ => rfl) (fun _ => rfl) (fun _ => rfl)
      (fun m => ?_) fun _ => id
    exact s.queues.nodes_append_of_ne (by simp) (midway.placed m)
  | @waits m answer middle after _ handled _ _ slept =>
    have woken := handled.toWoken
    have midway' := midway.woken woken
    have served : middle.Balanced [] := woken.balanced balanced
    have same : ∀ t, ((middle.asleep m).task t).prio = (middle.task t).prio ∧
        ((middle.asleep m).task t).basePrio = (middle.task t).basePrio := by
      intro t
      obtain rfl | other := eq_or_ne t middle.taskCurrent
      · simp [asleep, setTask]
      · simp [asleep, setTask, other]
    have asleep : (middle.asleep m).Balanced [] := by
      refine served.congr (fun t => (same t).2) (fun t => (same t).1) (fun _ => rfl)
        (fun _ => rfl) (fun n => ?_) fun _ => id
      exact middle.queues.nodes_append_of_ne (by simp) (midway'.placed n)
    have life : (middle.asleep m).life = s.life := handled.life
    have context : (middle.asleep m).context = s.context := handled.context
    have ends := Moves.balanced (midway'.asleep m) deleting
      (fun t deleted => by rw [life]; exact deleted)
      (fun u t message here => by rw [life]; exact deleting u t message (context ▸ here))
      asleep slept.later
    exact ends
  | blocks m owner again wanted owned other => exact absurd (nowhere m owner wanted owned) other
  | regroups observations value _ regrouped =>
    obtain ⟨_, _, rfl, -⟩ := regrouped
    exact balanced.congr (fun _ => rfl) (fun _ => rfl) (fun _ => rfl) (fun _ => rfl)
      (fun _ => rfl) fun _ => id
  | suspends g =>
    refine balanced.congr (fun _ => rfl) (fun _ => rfl) (fun _ => rfl) (fun _ => rfl)
      (fun m => ?_) fun _ => id
    exact s.queues.nodes_unlink_of_ne (midway.placed m)

theorem Exact.step {calls : Nat} (sound : s.Sound) (deleting : s.Deleting) (exact : s.Exact)
    (result : State.step calls s event = some s') :
    s'.Exact ↔ s.Spreads event := by
  have midway := sound.midway (sound.unblocked result)
  have balanced := exact_iff_balanced.mp exact
  rw [exact_iff_balanced]
  rcases em (∃ m owner, s.wanted event = some m ∧ (s.mutex m).master = some owner ∧
    owner ≠ s.taskCurrent) with ⟨m, owner, wanted, owned, other⟩ | nowhere
  · obtain ⟨again, blocks⟩ := step_blocks wanted owned other result
    rw [block_balanced midway balanced owned other blocks]
    simp [Spreads, wanted, owned, other]
  · have nowhere : ∀ m owner, s.wanted event = some m → (s.mutex m).master = some owner →
        owner = s.taskCurrent := by
      intro m owner wanted owned
      rcases eq_or_ne owner s.taskCurrent with same | other
      · exact same
      · exact absurd ⟨m, owner, wanted, owned, other⟩ nowhere
    constructor
    · intro _ m wanted owner owned other
      exact absurd (nowhere m owner wanted owned) other
    · intro _
      exact balanced.unblocked midway deleting (step_outcome sound result) nowhere

theorem init_exact (small : SmallInt) : (init small).Exact := by
  constructor
  · intro m
    have nobody : (init small).slaves m = [] :=
      LinkedLists.empty.nodes_append_of_ne (by simp) (by simp)
    simp only [mutexSlavesPrio, nobody]
    rfl
  · intro t _
    simp [init, taskSlavesPrio]

theorem init_deleting (small : SmallInt) : (init small).Deleting := by
  intro u t message here
  simp [init] at here

end State

/-- As long as no owner rises above the lock that blocks it, every priority is exact and spreads
along the chains of blocked owners; a transition for which this is not so breaks exactness. -/
theorem reachable_exact {small : SmallInt} {s : State}
    (run : RunIf State.Spreads (.init small) s) :
    s.Exact ∧
      (∀ t owner, Relation.ReflTransGen s.BlocksOn t owner →
        (s.task t).prio ≤ (s.task owner).prio) ∧
      ∀ event s', Step s event s' → (s'.Exact ↔ s.Spreads event) := by
  have sound := State.sound_runIf run
  have invariant : s.Deleting ∧ s.Exact := by
    induction run with
    | refl => exact ⟨State.init_deleting small, State.init_exact small⟩
    | tail run last ih =>
      have sound := State.sound_runIf run
      obtain ⟨deleting, exact⟩ := ih sound
      obtain ⟨event, spreads, calls, result⟩ := last
      exact ⟨deleting.step sound result, (exact.step sound deleting result).mpr spreads⟩
  obtain ⟨deleting, exact⟩ := invariant
  refine ⟨exact, fun t owner => exact.chain sound.links, fun event s' last => ?_⟩
  obtain ⟨calls, result⟩ := last
  exact exact.step sound deleting result

/-- Task 2 blocks on a lock of task 1. -/
theorem reachable_exact_blocked :
    let s := State.afterIf State.Spreads 10 (.init .int32)
      [.call (.taskCreate 1 1) {}, .resume {}, .call .taskSchedule {},
        .call (.mutexLock (.lock 0)) {}, .resume {}, .call (.taskCreate 2 2) {}, .resume {},
        .call .taskYield {}, .call (.mutexLock (.lock 0)) {}]
    s.Exact ∧ s.slaves (.lock 0) = [2] ∧ (s.task 2).prio ≤ (s.task 1).prio := by
  intro s
  have run : RunIf State.Spreads (.init .int32) s := State.afterIf_run (by decide)
  obtain ⟨exact, chains, -⟩ := reachable_exact run
  exact ⟨exact, by decide, chains 2 1 (.single ⟨.lock 0, by decide, by decide, by decide⟩)⟩

/-- Task 3 blocks on a lock of task 2, which is blocked on a lock of task 1: this one does not
inherit the priority of task 3, and neither does task 1. -/
theorem mutexLock_chain_stale : ¬∀ s, Reachable s → s.Exact := by
  intro claim
  have run : Run (.init .int32) _ := @State.after_run 10 _
    [.call (.taskCreate 1 1) {}, .resume {}, .call .taskSchedule {},
      .call (.mutexLock (.lock 0)) {}, .resume {}, .call (.taskCreate 2 2) {}, .resume {},
      .call .taskYield {}, .call (.mutexLock (.lock 1)) {}, .resume {},
      .call (.mutexLock (.lock 0)) {}, .resume {}, .call (.taskCreate 3 3) {}, .resume {},
      .call .taskYield {}, .call (.mutexLock (.lock 1)) {}] (by decide)
  exact absurd ((claim _ ⟨.int32, run⟩).1 (.lock 0)) (by decide)

end Uos
