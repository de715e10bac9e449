import Uos.Kernel.Steps

/-!
# No missed preemption

Whenever interrupts are enabled again, a switch is asked for or no ready task has a higher priority
than the running one.  The idle task is the exception: the scheduler falls back on it also when it
blocks, so it runs without being ready, and a signal it did not wait for can be left behind.
-/

namespace Uos
namespace State

/-- A switch is asked for, or the running task has the highest priority of the tasks that are
ready and wait for nothing. -/
def Watchful (s : State) : Prop :=
  s.taskNeedSchedule = true ∨
    (s.taskCurrent = taskIdle ∨ s.queues.place s.taskCurrent = some .active) ∧
      ∀ t, s.queues.place t = some .active → (t = taskIdle → (s.task t).wait = none) →
        (s.task t).prio ≤ (s.task s.taskCurrent).prio

theorem taskSchedule_watchful (s : State) : s.taskSchedule.Watchful := by
  have first := s.taskPolicy_firstMaximum
  refine .inr ⟨?_, fun t ready _ => first.le (s.queues.mem_nodes.mpr ready)⟩
  exact s.taskPolicy_cases.imp_right s.queues.mem_nodes.mp

/-- What recalculating priorities needs to know about the tasks. -/
structure Calm (s : State) : Prop where
  current : (s.task s.taskCurrent).lock = none
  lock : ∀ t, s.queues.place t = some .active → (s.task t).lock = none
  wait : ∀ t, t ≠ taskIdle → s.queues.place t = some .active → (s.task t).wait = none

variable {s s' start : State} {calls : Nat} {event : Event}

theorem Midway.calm (midway : s.Midway) : s.Calm where
  current := midway.unblocked
  lock t ready := by
    rcases blocked : (s.task t).lock with _ | m
    · rfl
    · have placed := ((midway.links.task t).slave m).mpr blocked
      simp [ready] at placed
  wait t busy ready := by
    rcases waits : (s.task t).wait with _ | m
    · rfl
    · have placed := (midway.links.task t).waits busy m waits
      simp [ready] at placed

theorem Calm.reprice (calm : s.Calm) (repriced : Repriced s s') : s'.Calm := by
  obtain ⟨_, _, _, rfl, -⟩ := repriced
  exact ⟨calm.current, calm.lock, calm.wait⟩

theorem setTask_prio_wait (s : State) (t u : TaskId) (prio : Int) :
    ((s.setTask t { s.task t with prio := prio }).task u).wait = (s.task u).wait := by
  obtain rfl | different := eq_or_ne u t
  · simp [setTask]
  · simp [setTask, different]

theorem Watchful.raise (watchful : s.Watchful) {prio : Int}
    (rises : (s.task s.taskCurrent).prio ≤ prio) :
    (s.setTask s.taskCurrent { s.task s.taskCurrent with prio := prio }).Watchful := by
  refine watchful.imp_right fun ⟨running, highest⟩ => ⟨running, fun t ready free => ?_⟩
  rw [setTask_prio_wait] at free
  have bound := highest t ready free
  obtain rfl | different := eq_or_ne t s.taskCurrent
  · exact le_rfl
  · simpa [setTask, different] using bound.trans rises

theorem Watchful.setPrio (watchful : s.Watchful) {t : TaskId} {prio : Int}
    (other : t ≠ s.taskCurrent)
    (bounded : (s.task t).prio < prio → s.queues.place t = some .active →
      (t = taskIdle → (s.task t).wait = none) → prio ≤ (s.task s.taskCurrent).prio) :
    (s.setTask t { s.task t with prio := prio }).Watchful := by
  refine watchful.imp_right fun ⟨running, highest⟩ => ⟨running, fun u ready free => ?_⟩
  rw [setTask_prio_wait] at free
  have bound := highest u ready free
  obtain rfl | different := eq_or_ne u t
  · rcases lt_or_ge (s.task u).prio prio with rises | drops
    · simpa [setTask, other.symm] using bounded rises ready free
    · simpa [setTask, other.symm] using drops.trans bound
  · simpa [setTask, different, other.symm] using bound

theorem Watchful.setMutex (watchful : s.Watchful) (m : MutexId) (record : Mutex) :
    (s.setMutex m record).Watchful := watchful

theorem Calm.setMutexPrio (calm : s.Calm) (m : MutexId) (prio : Int) :
    (s.setMutex m { s.mutex m with prio := prio }).Calm :=
  calm.reprice (repriced_setMutex s m prio)

theorem recalculate_watchful (calls : Nat) :
    (∀ s t s', s.Calm → s.Watchful → taskRecalculatePrio calls s t = some s' → s'.Watchful) ∧
      ∀ s m s', s.Calm → s.Watchful → mutexRecalculatePrio calls s m = some s' →
        s'.Watchful := by
  induction calls with
  | zero => simp [taskRecalculatePrio, mutexRecalculatePrio]
  | succ calls ih =>
    obtain ⟨taskChain, mutexChain⟩ := ih
    constructor
    · intro s t s' calm watchful result
      have calm' := calm.reprice (repriced_setTask s t (s.taskSlavesPrio t))
      simp only [taskRecalculatePrio] at result
      split at result
      · rename_i same
        cases result
        rw [same]
        simpa [setTask] using watchful
      split at result
      · rename_i m blocked
        have blocked' : (s.task t).lock = some m := by simpa [setTask] using blocked
        have other : t ≠ s.taskCurrent := by
          rintro rfl
          simp [calm.current] at blocked'
        have changed : (s.setTask t { s.task t with prio := s.taskSlavesPrio t }).Watchful :=
          watchful.setPrio other fun _ ready => by simp [calm.lock t ready] at blocked'
        repeat' split at result
        all_goals first
          | exact mutexChain _ _ _ calm' changed result
          | exact Option.some.inj result ▸ changed
      · rename_i unblocked
        have unblocked' : (s.task t).lock = none := by simpa [setTask] using unblocked
        split at result
        · rename_i rises
          split at result
          · exact Option.some.inj result ▸ .inl rfl
          · rename_i silent
            cases result
            obtain rfl | other := eq_or_ne t s.taskCurrent
            · exact watchful.raise rises.le
            · refine watchful.setPrio other fun _ ready free => ?_
              have waits : (s.task t).wait = none := by
                rcases eq_or_ne t taskIdle with idle | busy
                · exact free idle
                · exact calm.wait t busy ready
              simp only [taskIsWaiting, setTask, Function.update_self, unblocked', waits,
                Option.isSome_none, Bool.or_self, Bool.false_eq_true, not_false_eq_true,
                and_true, not_lt, Function.update_of_ne other.symm] at silent
              exact silent
        · rename_i kept
          split at result
          · exact Option.some.inj result ▸ .inl rfl
          · rename_i other
            cases result
            exact watchful.setPrio other fun rises => absurd rises kept
    · intro s m s' calm watchful result
      have calm' := calm.setMutexPrio m (s.mutexSlavesPrio m)
      have changed := watchful.setMutex m { s.mutex m with prio := s.mutexSlavesPrio m }
      simp only [mutexRecalculatePrio] at result
      repeat' split at result
      all_goals first
        | exact taskChain _ _ _ calm' changed result
        | exact Option.some.inj result ▸ changed

theorem Woken.watchful (woken : Woken s s') (watchful : s.Watchful) :
    s'.Watchful := by
  rcases watchful with need | ⟨running, highest⟩
  · exact .inl (woken.need need)
  rcases need : s'.taskNeedSchedule
  swap
  · exact .inl need
  refine .inr ⟨?_, fun t ready free => ?_⟩
  · rw [woken.taskCurrent]
    exact running.imp_right (woken.stirred _).active
  rw [woken.prio, woken.taskCurrent, woken.prio]
  rcases em (s.queues.place t = some .active) with before | absent
  · refine highest t before fun idle => ?_
    rcases woken.stirred t with ⟨-, wait, -⟩ | ⟨-, -, -, ⟨m, placed⟩ | ⟨unlinked, -⟩⟩
    · exact wait ▸ free idle
    · simp [before] at placed
    · simp [before] at unlinked
  · exact (woken.noticed t absent ready).resolve_left (by simp [need])

theorem Watchful.readied (watchful : s.Watchful) (tasks : List TaskId) (change : Task → Task)
    (keepsPrio : ∀ record, (change record).prio = record.prio)
    (keepsWait : ∀ record, (change record).wait = record.wait) :
    (s.readied tasks change).Watchful := by
  have prios : ∀ t, ((s.readied tasks change).task t).prio = (s.task t).prio := by
    intro t
    simp only [State.readied]
    split
    · exact keepsPrio _
    · rfl
  have waits : ∀ t, ((s.readied tasks change).task t).wait = (s.task t).wait := by
    intro t
    simp only [State.readied]
    split
    · exact keepsWait _
    · rfl
  rcases watchful with need | ⟨running, highest⟩
  · exact .inl (by simp [State.readied, need])
  rcases need : (s.readied tasks change).taskNeedSchedule
  swap
  · exact .inl need
  refine .inr ⟨?_, fun t ready free => ?_⟩
  · refine running.imp_right fun placed => ?_
    simp only [State.readied, LinkedLists.place_appendAll]
    split
    · rfl
    · exact placed
  rw [prios, prios]
  rw [waits] at free
  simp only [State.readied, LinkedLists.place_appendAll] at ready
  split at ready
  · rename_i member
    simp only [State.readied, Bool.or_eq_false_iff, List.any_eq_false, decide_eq_true_eq,
      not_lt] at need
    exact need.2 t member
  · exact highest t ready free

theorem Watchful.shrink (watchful : s.Watchful)
    (need : s.taskNeedSchedule = true → s'.taskNeedSchedule = true)
    (taskCurrent : s'.taskCurrent = s.taskCurrent) (running : s'.taskNeedSchedule = true ∨
      s'.queues.place s.taskCurrent = s.queues.place s.taskCurrent)
    (prio : (s'.task s.taskCurrent).prio = (s.task s.taskCurrent).prio)
    (ready : ∀ t, s'.queues.place t = some .active → s.queues.place t = some .active ∧
      (s'.task t).wait = (s.task t).wait ∧ (s'.task t).prio = (s.task t).prio) :
    s'.Watchful := by
  rcases watchful with needed | ⟨before, highest⟩
  · exact .inl (need needed)
  rcases running with needed | same
  · exact .inl needed
  refine .inr ⟨?_, fun t placed free => ?_⟩
  · rw [taskCurrent, same]
    exact before
  · obtain ⟨placed', wait, prio'⟩ := ready t placed
    rw [wait] at free
    rw [taskCurrent, prio, prio']
    exact highest t placed' free

theorem Watchful.setBasePrio (watchful : s.Watchful) (t : TaskId) (prio : Int) :
    (s.setTask t { s.task t with basePrio := prio }).Watchful := by
  have same : ∀ u, ((s.setTask t { s.task t with basePrio := prio }).task u).wait =
      (s.task u).wait ∧ ((s.setTask t { s.task t with basePrio := prio }).task u).prio =
        (s.task u).prio := by
    intro u
    obtain rfl | other := eq_or_ne u t
    · simp [setTask]
    · simp [setTask, other]
  exact watchful.shrink id rfl (.inr rfl) (same _).2 fun u placed => ⟨placed, same u⟩

theorem acquire_watchful (watchful : s.Watchful) (m : MutexId) :
    (s.acquire m).Watchful := by
  simp only [acquire]
  split
  · rename_i rises
    have start : ({ s.setMutex m { s.mutex m with master := some s.taskCurrent } with
        owned := s.owned.append s.taskCurrent m } : State).Watchful := watchful
    exact start.raise rises.le
  · exact watchful

theorem release_watchful {m : MutexId} (calm : s.Calm) (watchful : s.Watchful)
    (result : release calls s m = some s') : s'.Watchful := by
  simp only [release] at result
  split at result
  · contradiction
  · rename_i owner owned
    have calm' : ({ s with owned := s.owned.unlink m } : State).Calm :=
      ⟨calm.current, calm.lock, calm.wait⟩
    split at result
    · obtain ⟨middle, chain, last⟩ := Option.bind_eq_some_iff.mp result
      cases last
      exact ((recalculate_watchful calls).1 _ _ _ calm' watchful chain).setMutex m _
    · cases result
      exact watchful

theorem detach_watchful (watchful : s.Watchful) (m : MutexId) :
    (s.detach m).Watchful := by
  obtain ⟨_, _, same, -⟩ := detach_eq s m
  rw [same]
  exact watchful

theorem Move.watchful (midway : s.Midway) (watchful : s.Watchful) (move : Move start event s s') :
    s'.Watchful := by
  cases move with
  | activated activated => exact activated.watchful watchful
  | acquire m deep => exact acquire_watchful watchful m
  | @free calls m deep released served detached ready _ _ released_eq served_eq detached_eq
      ready_eq after_eq =>
      have lowered : (s.setMutex m { s.mutex m with deep := deep }).Midway := midway.setMutex rfl
      have first := served_eq.watchful (release_watchful lowered.calm watchful released_eq)
      have second : detached.Watchful := by
        rcases detached_eq with rfl | rfl
        · exact first
        · exact detach_watchful first m
      obtain ⟨rfl, -⟩ := readySlaves_eq ready_eq
      have third := second.readied (detached.slaves m)
        (fun record => { record with lock := none }) (fun _ => rfl) fun _ => rfl
      rcases after_eq with rfl | ⟨-, rfl⟩
      · exact third
      · exact third
  | create t prio answer call unborn result =>
    obtain ⟨-, -, rfl⟩ := taskActivate_eq result
    obtain ⟨-, unlinked, -⟩ := (midway.links.task t).unborn unborn
    have other : s.taskCurrent ≠ t := by
      rintro rfl
      exact midway.born unborn
    set fresh : Task := { prio := s.small.wrap prio, basePrio := s.small.wrap prio }
    have created : ({ (s.setTask t fresh).setContext t .user with
        life := Function.update s.life t .alive } : State).Watchful := by
      refine watchful.shrink id rfl (.inr rfl) (by simp [setTask, setContext, other]) ?_
      intro u placed
      have different : u ≠ t := by
        rintro rfl
        have placed' : s.queues.place u = some .active := placed
        simp [unlinked] at placed'
      exact ⟨placed, by simp [setTask, setContext, different],
        by simp [setTask, setContext, different]⟩
    have activated := created.readied [t] id (fun _ => rfl) fun _ => rfl
    simpa [State.readied] using activated
  | @remove calls t message answer middle _ call born result after_eq =>
    obtain rfl := after_eq
    have calm : (s.removed t).Calm := by
      have calm := midway.calm
      refine ⟨calm.current, fun u placed => ?_, fun u busy placed => ?_⟩
      · obtain rfl | different := eq_or_ne u t
        · simp [removed] at placed
        · exact calm.lock u (by simpa [removed, different] using placed)
      · obtain rfl | different := eq_or_ne u t
        · simp [removed] at placed
        · exact calm.wait u busy (by simpa [removed, different] using placed)
    have removed : (s.removed t).Watchful := by
      refine watchful.shrink (fun needed => by simp [removed, needed]) rfl ?_ rfl ?_
      · obtain same | other := eq_or_ne t s.taskCurrent
        · exact .inl (by simp [State.removed, same])
        · exact .inr (by simp [State.removed, other.symm])
      · intro u placed
        obtain rfl | different := eq_or_ne u t
        · simp [State.removed] at placed
        · exact ⟨by simpa [State.removed, different] using placed, rfl, rfl⟩
    have repriced : Repriced (s.removed t) middle ∧ middle.Watchful := by
      rcases result with ⟨m, -, -, chain⟩ | ⟨rfl, -⟩
      · exact ⟨mutexRecalculatePrio_repriced chain,
          (recalculate_watchful calls).2 _ _ _ calm removed chain⟩
      · exact ⟨.refl _, removed⟩
    obtain ⟨⟨_, _, _, rfl, -⟩, watchful'⟩ := repriced
    refine watchful'.shrink id rfl (.inr rfl) ?_ fun u placed => ?_
    · obtain same | other := eq_or_ne s.taskCurrent t
      · simp [setTask, State.reprice, State.removed, same]
      · simp [setTask, State.reprice, State.removed, other]
    · obtain rfl | different := eq_or_ne u t
      · simp [setTask, State.reprice, State.removed] at placed
      · exact ⟨placed, by simp [setTask, different], by simp [setTask, different]⟩
  | bury t => exact watchful.setBasePrio t 0
  | prioritize calls t prio _ _ result =>
    exact (recalculate_watchful calls).1 _ _ _ (midway.setBasePrio t _).calm
      (watchful.setBasePrio t _) result
  | _ => exact watchful

theorem Moves.watchful (midway : s.Midway) (watchful : s.Watchful)
    (moves : Moves start event s s') : s'.Watchful := by
  induction moves with
  | refl => exact watchful
  | tail moves move ih => exact move.watchful (Moves.midway midway moves) ih

theorem Watchful.step (sound : s.Sound) (watchful : s.Watchful)
    (result : State.step calls s event = some s') : s'.Watchful := by
  have midway := sound.midway (sound.unblocked result)
  cases step_outcome sound result with
  | stays moves => exact Moves.watchful midway watchful moves
  | switches moves => exact taskSchedule_watchful _
  | yields => exact taskSchedule_watchful _
  | waits => exact taskSchedule_watchful _
  | blocks m owner again _ _ _ _ _ blocked =>
    obtain ⟨-, middle, -, rfl⟩ := block_eq blocked
    exact taskSchedule_watchful middle
  | regroups observations value _ regrouped =>
    obtain ⟨_, _, rfl, -⟩ := regrouped
    exact watchful
  | suspends => exact taskSchedule_watchful _

theorem init_watchful (small : SmallInt) : (init small).Watchful := by
  refine .inr ⟨.inl rfl, fun t ready _ => ?_⟩
  simp [init]

/-- Whether the current task gives up being ready when an event happens: it waits for a signal,
for a group without an active slot, or for a lock that is busy. -/
def Suspends (s : State) (event : Event) : Prop :=
  (∃ m answer, event = .call (.mutexWait m) answer ∧ ∀ irq, (s.mutex m).irq = some irq →
    (s.mutexIrq irq).pending = true → answer.served = true) ∨
  (∃ g, ((∃ answer, event = .call (.mutexGroupWait g) answer) ∨
      (∃ answer, event = .resume answer) ∧ s.context s.taskCurrent = .groupWait g) ∧
    ∀ i < (s.group g).num, ((s.group g).slot i).active = false) ∨
  ∃ m owner, s.wanted event = some m ∧ (s.mutex m).master = some owner ∧ owner ≠ s.taskCurrent

/-- The idle task does not block and is not deleted. -/
def IdleStays (s : State) (event : Event) : Prop :=
  (s.taskCurrent = taskIdle → ¬s.Suspends event) ∧
    ∀ message answer, event ≠ .call (.taskDelete taskIdle message) answer

/-- The idle task is ready and waits for nothing. -/
structure IdleReady (s : State) : Prop where
  place : s.queues.place taskIdle = some .active
  wait : (s.task taskIdle).wait = none

theorem IdleReady.congr (ready : s.IdleReady)
    (place : s'.queues.place taskIdle = s.queues.place taskIdle)
    (wait : (s'.task taskIdle).wait = (s.task taskIdle).wait) : s'.IdleReady :=
  ⟨place.trans ready.place, wait.trans ready.wait⟩

theorem IdleReady.moves (midway : s.Midway) (ready : s.IdleReady)
    (spared : ∀ message answer, event ≠ .call (.taskDelete taskIdle message) answer)
    (moves : Moves start event s s') : s'.IdleReady := by
  induction moves with
  | refl => exact ready
  | tail moves move ih =>
    cases move.shift (Moves.midway midway moves) taskIdle with
    | undisturbed same => exact ih.congr same.place same.wait
    | roused roused => exact ⟨roused.place, roused.wait⟩
    | created _ _ _ wait place => exact ⟨place, wait⟩
    | deleted call =>
      obtain ⟨message, answer, same⟩ := call
      exact absurd same (spared message answer)
    | turned _ _ wait _ place => exact ih.congr place wait

theorem IdleReady.step (sound : s.Sound) (ready : s.IdleReady) (stays : s.IdleStays event)
    (result : State.step calls s event = some s') : s'.IdleReady := by
  have midway := sound.midway (sound.unblocked result)
  obtain ⟨keeps, spared⟩ := stays
  cases step_outcome sound result with
  | stays moves => exact ready.moves midway spared moves
  | switches moves => exact (ready.moves midway spared moves).congr rfl rfl
  | yields =>
    refine ⟨?_, ready.wait⟩
    obtain same | other := eq_or_ne taskIdle s.taskCurrent
    · simp [taskSchedule, continueAt, setContext, same]
    · simpa [taskSchedule, continueAt, setContext, other] using ready.place
  | @waits m answer middle after call handled stops _ slept =>
    have served : Moves s event s middle := .single (.activated handled)
    have busy : taskIdle ≠ s.taskCurrent := fun idle =>
      keeps idle.symm (.inl ⟨m, answer, call, stops⟩)
    have other : taskIdle ≠ middle.taskCurrent := by
      rw [Moves.taskCurrent midway served]
      exact busy
    have midway' := Moves.midway midway served
    have asleep : Undisturbed middle (middle.asleep m) taskIdle := asleep_undisturbed other
    have joined := (ready.moves midway spared served).congr asleep.place asleep.wait
    exact (joined.moves (midway'.asleep m) spared slept.later).congr rfl rfl
  | blocks m owner again wanted owned other _ _ blocked =>
    have busy : taskIdle ≠ s.taskCurrent := fun idle =>
      keeps idle.symm (.inr (.inr ⟨m, owner, wanted, owned, other⟩))
    obtain ⟨-, middle, repriced, rfl⟩ := block_eq blocked
    have same := (blocked_undisturbed busy).trans (repriced.undisturbed taskIdle)
    exact ready.congr same.place same.wait
  | regroups observations value _ regrouped =>
    obtain ⟨_, _, rfl, -⟩ := regrouped
    exact ready.congr rfl rfl
  | suspends g call inactive =>
    have busy : taskIdle ≠ s.taskCurrent := fun idle =>
      keeps idle.symm (.inr (.inl ⟨g, call, inactive⟩))
    have same : Undisturbed s (s.suspended g) taskIdle := suspended_undisturbed busy
    exact ready.congr same.place same.wait

/-- A switch is asked for, or the running task is a ready one of the highest priority. -/
def NoMissedPreemption (s : State) : Prop :=
  s.taskNeedSchedule = true ∨
    s.taskCurrent ∈ s.active ∧
      ∀ t ∈ s.active, (s.task t).prio ≤ (s.task s.taskCurrent).prio

theorem Watchful.noMissedPreemption (watchful : s.Watchful) (ready : s.IdleReady) :
    s.NoMissedPreemption := by
  refine watchful.imp_right fun ⟨running, highest⟩ => ⟨?_, fun t member => ?_⟩
  · refine s.queues.mem_nodes.mpr ?_
    rcases running with idle | placed
    · rw [idle]
      exact ready.place
    · exact placed
  · exact highest t (s.queues.mem_nodes.mp member) fun idle => idle ▸ ready.wait

theorem step_firstMaximum (sound : s.Sound) (result : State.step calls s event = some s') :
    s'.taskCurrent = s.taskCurrent ∨
      FirstMaximum (fun t => (s'.task t).prio) s'.active taskIdle s'.taskCurrent := by
  have midway := sound.midway (sound.unblocked result)
  have chosen : ∀ x : State, FirstMaximum (fun t => (x.taskSchedule.task t).prio)
      x.taskSchedule.active taskIdle x.taskSchedule.taskCurrent := taskPolicy_firstMaximum
  cases step_outcome sound result with
  | stays moves => exact .inl (Moves.taskCurrent midway moves)
  | switches => exact .inr (chosen _)
  | yields => exact .inr (chosen _)
  | waits => exact .inr (chosen _)
  | blocks m owner again _ _ _ _ _ blocked =>
    obtain ⟨-, middle, -, rfl⟩ := block_eq blocked
    exact .inr (chosen middle)
  | regroups observations value _ regrouped =>
    obtain ⟨_, _, rfl, -⟩ := regrouped
    exact .inl rfl
  | suspends => exact .inr (chosen _)

end State

end Uos
