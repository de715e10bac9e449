import Uos.Kernel.Steps

/-!
# Deleted tasks

A task that `task_delete` took out of every list, and that no group remembers as its waiter, never
becomes ready again.  The group is the one place that `task_delete` does not look at.
-/

namespace Uos
namespace State

/-- Nothing in the kernel refers to a deleted task as one that can run. -/
structure Dead (s : State) (t : TaskId) : Prop where
  busy : t ≠ taskIdle
  other : t ≠ s.taskCurrent
  life : s.life t = .deleted
  lock : (s.task t).lock = none
  wait : (s.task t).wait = none
  place : s.queues.place t = none
  unlisted : ∀ g, (s.group g).waiter ≠ some t

variable {event : Event} {s s' : State} {t : TaskId}

theorem Dead.move {start : State} (midway : s.Midway) (dead : s.Dead t)
    (move : Move start event s s') : s'.Dead t := by
  have other : t ≠ s'.taskCurrent := by
    rw [move.taskCurrent midway]
    exact dead.other
  have unlisted : ∀ g, (s'.group g).waiter ≠ some t := by
    intro g
    rcases move.waiter midway g with same | gone
    · rw [same]
      exact dead.unlisted g
    · simp [gone]
  cases move.shift midway t with
  | undisturbed same =>
    exact ⟨dead.busy, other, same.life.trans dead.life, same.lock.trans dead.lock,
      same.wait.trans dead.wait, same.place.trans dead.place, unlisted⟩
  | roused roused =>
    rcases roused.cause with blocked | ⟨m, placed⟩ | ⟨-, g, waits⟩
    · exact absurd dead.lock blocked
    · simp [dead.place] at placed
    · exact absurd waits (dead.unlisted g)
  | created _ unborn => simp [dead.life] at unborn
  | deleted _ lock wait place _ life => exact ⟨dead.busy, other, life, lock, wait, place, unlisted⟩
  | turned current => exact absurd current dead.other

theorem Dead.moves {start : State} (midway : s.Midway) (dead : s.Dead t)
    (moves : Moves start event s s') : s'.Dead t := by
  induction moves with
  | refl => exact dead
  | tail moves move ih => exact ih.move (Moves.midway midway moves) move

theorem Dead.congr (dead : s.Dead t) (same : Undisturbed s s' t) (other : t ≠ s'.taskCurrent)
    (waiter : ∀ g, (s'.group g).waiter = some t → (s.group g).waiter = some t) : s'.Dead t where
  busy := dead.busy
  other := other
  life := same.life.trans dead.life
  lock := same.lock.trans dead.lock
  wait := same.wait.trans dead.wait
  place := same.place.trans dead.place
  unlisted g waits := dead.unlisted g (waiter g waits)

theorem Dead.schedule (dead : s.Dead t) : s.taskSchedule.Dead t := by
  refine dead.congr (taskSchedule_undisturbed s t) ?_ fun _ => id
  change t ≠ s.taskPolicy
  rintro rfl
  have ready := s.queues.mem_nodes.mp (s.taskPolicy_cases.resolve_left dead.busy)
  simp [dead.place] at ready

theorem Dead.step {calls : Nat} (sound : s.Sound) (dead : s.Dead t)
    (result : State.step calls s event = some s') : s'.Dead t := by
  have midway := sound.midway (sound.unblocked result)
  cases step_outcome sound result with
  | stays moves => exact dead.moves midway moves
  | switches moves => exact (dead.moves midway moves).schedule
  | yields =>
    refine Dead.schedule (dead.congr ?_ dead.other fun _ => id)
    constructor <;> simp [continueAt, setContext, dead.other]
  | @waits m answer middle after _ handled _ _ slept =>
    have served : Moves s event s middle := .single (.activated handled)
    have dead' := dead.moves midway served
    have midway' := Moves.midway midway served
    have asleep : (middle.asleep m).Dead t :=
      dead'.congr (asleep_undisturbed dead'.other) dead'.other fun _ => id
    exact (asleep.moves (midway'.asleep m) slept.later).schedule
  | blocks m owner again _ owned other contends positive blocked =>
    obtain ⟨-, middle, repriced, rfl⟩ := block_eq blocked
    have same := (blocked_undisturbed dead.other).trans (repriced.undisturbed t)
    obtain ⟨_, _, _, rfl, -⟩ := repriced
    exact Dead.schedule (dead.congr same dead.other fun _ => id)
  | regroups observations value _ regrouped =>
    have same := regrouped.undisturbed t
    obtain ⟨_, _, rfl, -, waiters⟩ := regrouped
    refine dead.congr (same.trans ?_) dead.other fun g => by
      rw [← waiters g]
      exact id
    constructor <;> simp [continueAt, setContext, dead.other]
  | suspends g =>
    refine Dead.schedule (dead.congr (suspended_undisturbed dead.other) dead.other fun h => ?_)
    obtain rfl | elsewhere := eq_or_ne h g
    · simp [suspended, continueAt, setContext, dead.other.symm]
    · simp [suspended, continueAt, setContext, elsewhere]

theorem Dead.run {condition : State → Event → Prop} (sound : s.Sound) (dead : s.Dead t)
    (run : RunIf condition s s') : s'.Dead t := by
  induction run with
  | refl => exact dead
  | tail run last ih =>
    obtain ⟨event, -, calls, result⟩ := last
    exact ih.step (sound.run run) result

theorem taskDelete_dead {calls : Nat} {message : Message} (busy : t ≠ taskIdle)
    (other : t ≠ s.taskCurrent) (unlisted : ∀ g, (s.group g).waiter ≠ some t)
    (result : taskDelete calls s t message = some s') : s'.Dead t := by
  obtain ⟨middle, chain, rfl⟩ := taskDelete_eq result
  have repriced : Repriced (s.removed t) middle := by
    rcases chain with ⟨m, -, -, chain⟩ | ⟨rfl, -⟩
    · exact mutexRecalculatePrio_repriced chain
    · exact .refl _
  obtain ⟨_, _, _, rfl, -⟩ := repriced
  constructor
  case busy => exact busy
  case other => exact other
  case unlisted => exact unlisted
  all_goals simp [removed, State.reprice, setTask, continueAt, setContext]

end State

theorem step_taskDelete {s s' : State} {t : TaskId} {message : Message} {answer : Answer}
    (step : Step s (.call (.taskDelete t message) answer) s') :
    ∃ calls, State.taskDelete calls s t message = some s' := by
  obtain ⟨calls, result⟩ := step
  simp only [State.step, State.call] at result
  split at result
  · split at result
    · exact ⟨calls, result⟩
    · contradiction
  · contradiction

/-- A task is not ready and does not run, now and in every later state. -/
def NeverRuns (s : State) (t : TaskId) : Prop :=
  ∀ s', Run s s' → t ∉ s'.active ∧ s'.taskCurrent ≠ t

/-- A task deleted by another task never runs again, if no group has it as its waiter. -/
theorem taskDelete_neverRuns {s s' : State} {t : TaskId} {message : Message} {answer : Answer}
    (reachable : Reachable s) (other : t ≠ s.taskCurrent) (busy : t ≠ taskIdle)
    (unlisted : ∀ g, (s.group g).waiter ≠ some t)
    (deleted : Step s (.call (.taskDelete t message) answer) s') : NeverRuns s' t := by
  intro s'' run
  obtain ⟨small, start⟩ := reachable
  obtain ⟨calls, result⟩ := step_taskDelete deleted
  have dead := State.taskDelete_dead busy other unlisted result
  have sound : s'.Sound := by
    obtain ⟨calls, result⟩ := deleted
    exact (State.sound_runIf start).step result
  have later := dead.run sound run
  refine ⟨fun ready => ?_, later.other.symm⟩
  simpa [later.place] using s''.queues.mem_nodes.mp ready

/-- An idle task that deletes the ready task 1. -/
theorem taskDelete_neverRuns_ready :
    ∃ s s', Reachable s ∧ s.active = [0, 1] ∧ Step s (.call (.taskDelete 1 0) {}) s' ∧
      NeverRuns s' 1 := by
  have run : Run (.init .int32) _ :=
    @State.after_run 1 _ [.call (.taskCreate 1 0) {}, .resume {}] (by decide)
  have deleted := @State.after_step 1 (.init .int32) [.call (.taskCreate 1 0) {}, .resume {}]
    (.call (.taskDelete 1 0) {}) (by decide)
  exact ⟨_, _, ⟨.int32, run⟩, by decide, deleted,
    taskDelete_neverRuns ⟨.int32, run⟩ (by decide) (by decide) (fun _ => nofun) deleted⟩

/-- Task 1 waits for a group of one lock, and the idle task goes on. -/
def groupWaiting : State :=
  (State.init .int32).after 1
    [.call (.taskCreate 1 1) {}, .resume {}, .call .taskSchedule {},
      .call (.mutexGroupInit 0 1) {}, .resume {}, .call (.mutexGroupAdd 0 (.lock 0)) {},
      .resume {}, .call (.mutexGroupListen 0) {}, .resume {}, .call (.mutexGroupWait 0) {}]

/-- The task is deleted, the lock of its group is signalled, and the task is ready again. -/
theorem taskDelete_groupWaiter_runs :
    ¬∀ (s s' : State) (t : TaskId) (message : Message) (answer : Answer), Reachable s →
      t ≠ s.taskCurrent → Step s (.call (.taskDelete t message) answer) s' → NeverRuns s' t := by
  intro claim
  have start : Run (.init .int32) groupWaiting := State.after_run (by decide)
  have deleted : Step groupWaiting (.call (.taskDelete 1 0) {}) _ :=
    State.after_step (by decide)
  have later : Run ((groupWaiting.step 1 (.call (.taskDelete 1 0) {})).getD (.init .int32)) _ :=
    @State.after_run 1 _ [.resume {}, .resume {}, .resume {}, .call (.mutexSignal (.lock 0) 7) {}]
      (by decide)
  have gone := claim _ _ 1 0 {} ⟨.int32, start⟩ (by decide) deleted _ later
  exact absurd gone.1 (by decide)

end Uos
