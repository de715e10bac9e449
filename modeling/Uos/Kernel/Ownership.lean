import Uos.Kernel.Slots

/-!
# Ownership and places

Every created task is in one list or recorded by one group, and every lock that is taken is owned
by one task, as long as no task is deleted and no group gets a second waiter.  The idle task is left
out while its pointer `wait` is set: it goes on without a signal.
-/

namespace Uos
namespace State

/-- A created task that is in no list is recorded by the group it waits for, alone. -/
structure Homes (s : State) : Prop where
  home : ∀ t, s.life t ≠ .unborn → s.queues.place t = none →
    ∃ g, (s.group g).waiter = some t ∧ s.context t = .groupWait g
  alone : ∀ t u g, s.context t = .groupWait g → s.context u = .groupWait g → t = u

/-- No task is deleted, and no task starts to wait for a group that another one waits for. -/
def Orderly (s : State) (event : Event) : Prop :=
  (∀ t message answer, event ≠ .call (.taskDelete t message) answer) ∧
    ∀ g answer, event = .call (.mutexGroupWait g) answer → ∀ t, s.context t ≠ .groupWait g

variable {start s s' : State} {event : Event} {g : GroupId} {t : TaskId}

theorem Move.answered (midway : s.Midway) (move : Move start event s s')
    (waits : (s.group g).waiter = some t) :
    (s'.group g).waiter = some t ∨ s'.queues.place t = some .active := by
  cases move with
  | activated activated =>
    obtain ⟨_, hears⟩ := activated.hears
    exact hears.answered g t waits
  | acquire m deep =>
    have group := (acquire_repriced s m).group.1
    exact .inl (by simpa [setMutex, group] using waits)
  | free calls m deep _ released_eq served_eq detached_eq ready_eq after_eq =>
    obtain ⟨_, hears⟩ := (free_links midway.links released_eq served_eq detached_eq ready_eq
      after_eq).2.hears
    exact hears.answered g t waits
  | create u prio answer call unborn result =>
    obtain ⟨-, -, rfl⟩ := taskActivate_eq result
    exact .inl waits
  | remove calls u message answer call born result after_eq =>
    obtain rfl := after_eq
    rcases result with ⟨m, -, -, chain⟩ | ⟨rfl, -⟩
    · obtain ⟨_, _, _, rfl, -⟩ := mutexRecalculatePrio_repriced chain
      exact .inl waits
    · exact .inl waits
  | prioritize calls u prio _ _ result =>
    obtain ⟨_, _, _, rfl, -⟩ := taskRecalculatePrio_repriced result
    exact .inl waits
  | _ => exact .inl waits

/-- A move sends nobody into `mutex_group_wait`. -/
theorem Move.groupWait (midway : s.Midway) (move : Move start event s s')
    (here : s'.context t = .groupWait g) : s.context t = .groupWait g := by
  cases move.shift midway t with
  | undisturbed same => exact same.context ▸ here
  | roused roused => exact roused.context ▸ here
  | created _ _ _ _ _ user => simp [user] at here
  | deleted _ _ _ _ context => exact context ▸ here
  | turned _ _ _ _ _ _ away => exact absurd here (away g)

theorem Move.homes (midway : s.Midway)
    (spares : ∀ t message answer, event ≠ .call (.taskDelete t message) answer) (homes : s.Homes)
    (present : s.queues.place s.taskCurrent ≠ none) (move : Move start event s s') :
    s'.Homes ∧ s'.queues.place s'.taskCurrent ≠ none := by
  have deletes : ∀ {t}, ¬∃ message answer, event = .call (.taskDelete t message) answer :=
    fun ⟨message, answer, same⟩ => spares _ message answer same
  refine ⟨⟨fun t born missing => ?_, fun t u g here there => ?_⟩, ?_⟩
  · cases move.shift midway t with
    | undisturbed same =>
      rw [same.life] at born
      rw [same.place] at missing
      obtain ⟨g, waits, here⟩ := homes.home t born missing
      refine ⟨g, (move.answered midway waits).resolve_right fun active => ?_,
        same.context.trans here⟩
      rw [same.place, missing] at active
      contradiction
    | roused roused => simp [roused.place] at missing
    | created _ _ _ _ place => simp [place] at missing
    | deleted call => exact absurd call deletes
    | turned current _ _ _ place =>
      rw [place, current] at missing
      exact absurd missing present
  · exact homes.alone t u g (move.groupWait midway here) (move.groupWait midway there)
  · rw [move.taskCurrent midway]
    cases move.shift midway s.taskCurrent with
    | undisturbed same => exact same.place ▸ present
    | roused roused => simp [roused.place]
    | created _ _ _ _ place => simp [place]
    | deleted call => exact absurd call deletes
    | turned _ _ _ _ place => exact place ▸ present

theorem Moves.homes (midway : s.Midway)
    (spares : ∀ t message answer, event ≠ .call (.taskDelete t message) answer) (homes : s.Homes)
    (present : s.queues.place s.taskCurrent ≠ none) (moves : Moves start event s s') :
    s'.Homes ∧ s'.queues.place s'.taskCurrent ≠ none := by
  induction moves with
  | refl => exact ⟨homes, present⟩
  | tail moves move ih =>
    exact move.homes (Moves.midway midway moves) spares ih.1 ih.2

theorem Homes.congr (homes : s.Homes) (home : ∀ t, s'.life t ≠ .unborn → s'.queues.place t = none →
      s.life t ≠ .unborn ∧ s.queues.place t = none ∧ ∀ g, (s.group g).waiter = some t →
        s.context t = .groupWait g → (s'.group g).waiter = some t ∧ s'.context t = .groupWait g)
    (context : ∀ t g, s'.context t = .groupWait g → s.context t = .groupWait g) : s'.Homes where
  home t born missing := by
    obtain ⟨born', missing', kept⟩ := home t born missing
    obtain ⟨g, waits, here⟩ := homes.home t born' missing'
    exact ⟨g, kept g waits here⟩
  alone t u g here there := homes.alone t u g (context t g here) (context u g there)

theorem Homes.schedule (homes : s.Homes) : s.taskSchedule.Homes :=
  ⟨homes.home, homes.alone⟩

theorem Homes.moved (homes : s.Homes) (present : s'.queues.place s.taskCurrent ≠ none)
    (group : ∀ g, (s'.group g).waiter = (s.group g).waiter)
    (others : ∀ t, t ≠ s.taskCurrent → Undisturbed s s' t)
    (context : ∀ g, s'.context s.taskCurrent = .groupWait g →
      s.context s.taskCurrent = .groupWait g) : s'.Homes := by
  refine homes.congr (fun t born missing => ?_) fun t g here => ?_
  · have other : t ≠ s.taskCurrent := by
      rintro rfl
      exact present missing
    have same := others t other
    rw [same.life] at born
    rw [same.place] at missing
    exact ⟨born, missing, fun g waits here => ⟨(group g).trans waits, same.context.trans here⟩⟩
  · obtain rfl | other := eq_or_ne t s.taskCurrent
    · exact context g here
    · exact (others t other).context ▸ here

theorem Homes.suspended (homes : s.Homes)
    (nobody : ∀ t, t ≠ s.taskCurrent → s.context t ≠ .groupWait g) : (s.suspended g).Homes := by
  refine ⟨fun t born missing => ?_, fun t u h here there => ?_⟩
  · obtain rfl | other := eq_or_ne t s.taskCurrent
    · exact ⟨g, by simp [State.suspended, continueAt, setContext]⟩
    · have same : Undisturbed s (s.suspended g) t := suspended_undisturbed other
      rw [same.life] at born
      rw [same.place] at missing
      obtain ⟨h, waits, here⟩ := homes.home t born missing
      have elsewhere : h ≠ g := by
        rintro rfl
        exact nobody t other here
      refine ⟨h, ?_, same.context.trans here⟩
      simpa [State.suspended, continueAt, setContext, elsewhere] using waits
  · obtain rfl | other := eq_or_ne t s.taskCurrent
    · obtain rfl | other' := eq_or_ne u s.taskCurrent
      · rfl
      · have same : Undisturbed s (s.suspended g) u := suspended_undisturbed other'
        rw [same.context] at there
        obtain rfl : g = h := by simpa [State.suspended, continueAt, setContext] using here
        exact absurd there (nobody u other')
    · have same : Undisturbed s (s.suspended g) t := suspended_undisturbed other
      rw [same.context] at here
      obtain rfl | other' := eq_or_ne u s.taskCurrent
      · obtain rfl : g = h := by simpa [State.suspended, continueAt, setContext] using there
        exact absurd here (nobody t other)
      · have same' : Undisturbed s (s.suspended g) u := suspended_undisturbed other'
        rw [same'.context] at there
        exact homes.alone t u h here there

theorem Homes.present (homes : s.Homes) (born : s.life s.taskCurrent ≠ .unborn)
    (elsewhere : ∀ g, s.context s.taskCurrent ≠ .groupWait g) :
    s.queues.place s.taskCurrent ≠ none := by
  intro missing
  obtain ⟨g, -, here⟩ := homes.home s.taskCurrent born missing
  exact elsewhere g here

/-- The loop of `mutex_group_wait` finds no active slot as long as the task is recorded. -/
theorem Homes.groupWaitLoop (homes : s.Homes) (slots : s.Slots)
    (born : s.life s.taskCurrent ≠ .unborn) (here : s.context s.taskCurrent = .groupWait g) :
    (s.groupWaitLoop g).Homes := by
  have nobody : ∀ t, t ≠ s.taskCurrent → s.context t ≠ .groupWait g := fun t other there =>
    other (homes.alone t s.taskCurrent g there here)
  simp only [State.groupWaitLoop]
  split
  · rename_i i found
    have active : ((s.group g).slot i).active = true := by
      simpa using List.find?_some found
    have present : s.queues.place s.taskCurrent ≠ none := by
      intro missing
      obtain ⟨h, waits, there⟩ := homes.home s.taskCurrent born missing
      rw [here, Context.groupWait.injEq] at there
      subst there
      simp [slots.quiet g s.taskCurrent waits i] at active
    refine homes.moved present (setSlot_waiter s (g, i) _) (fun t other => ?_) fun h there => ?_
    · refine ⟨rfl, rfl, rfl, rfl, ?_, rfl⟩
      exact Function.update_of_ne other _ _
    · simp [continueAt, setContext, observe, setSlot, setGroup] at there
  · exact (homes.suspended nobody).schedule

theorem Homes.step {calls : Nat} (homes : s.Homes) (sound : s.Sound) (slots : s.Slots)
    (orderly : s.Orderly event) (result : State.step calls s event = some s') : s'.Homes := by
  have midway := sound.midway (sound.unblocked result)
  rcases em ((∃ answer, event = .resume answer) ∧ ∃ g, s.context s.taskCurrent = .groupWait g)
    with ⟨⟨answer, rfl⟩, g, here⟩ | other
  · simp only [State.step, State.resume, here, Option.some.injEq] at result
    subst result
    exact homes.groupWaitLoop slots sound.born here
  have elsewhere : ∀ g, s.context s.taskCurrent ≠ .groupWait g := by
    intro g here
    cases event with
    | call c answer => simp [State.step, here] at result
    | interrupt irqs => simp [State.step, here] at result
    | resume answer => exact other ⟨⟨answer, rfl⟩, g, here⟩
  have present := homes.present sound.born elsewhere
  cases step_outcome sound result with
  | stays moves => exact (Moves.homes midway orderly.1 homes present moves).1
  | switches moves => exact (Moves.homes midway orderly.1 homes present moves).1.schedule
  | yields =>
    refine Homes.schedule (homes.moved ?_ (fun g => rfl) (fun t other => ?_) fun g there => ?_)
    · simp [continueAt, setContext]
    · constructor <;> simp [continueAt, setContext, other]
    · simp [continueAt, setContext] at there
  | @waits m answer middle after _ handled _ _ slept =>
    have served : Moves s event s middle := .single (.activated handled)
    have midway' := Moves.midway midway served
    obtain ⟨homes', -⟩ := Moves.homes midway orderly.1 homes present served
    have joined : (middle.asleep m).queues.place (middle.asleep m).taskCurrent ≠ none := by
      simp [asleep, setTask]
    have asleep : (middle.asleep m).Homes :=
      homes'.moved joined (fun g => rfl) (fun t => asleep_undisturbed) fun g => id
    exact (Moves.homes (midway'.asleep m) orderly.1 asleep joined slept.later).1.schedule
  | blocks m owner again _ _ _ contends _ blocked =>
    obtain ⟨-, middle, repriced, rfl⟩ := block_eq blocked
    have joined : (s.blocked m again).Homes := by
      refine homes.moved ?_ (fun g => rfl) (fun t => blocked_undisturbed) fun g there => ?_
      · simp [State.blocked, continueAt, setContext]
      · have same : again = .groupWait g := by
          simpa [State.blocked, continueAt, setContext, setTask] using there
        subst same
        exact absurd contends id
    obtain ⟨_, _, _, rfl, -⟩ := repriced
    exact ⟨joined.home, joined.alone⟩
  | regroups observations value _ regrouped =>
    have same := regrouped.undisturbed
    obtain ⟨_, _, rfl, -, waiters⟩ := regrouped
    refine homes.moved present waiters (fun t other => ?_) fun g there => ?_
    · refine (same t).trans ⟨rfl, rfl, rfl, rfl, ?_, rfl⟩
      exact Function.update_of_ne other _ _
    · simp [continueAt, setContext] at there
  | suspends g call =>
    rcases call with ⟨answer, call⟩ | ⟨-, here⟩
    · exact (homes.suspended fun t _ => orderly.2 g answer call t).schedule
    · exact absurd here (elsewhere g)

theorem init_homes (small : SmallInt) : (init small).Homes := by
  refine ⟨fun t born missing => ?_, by simp [init]⟩
  obtain rfl | other := eq_or_ne t taskIdle
  · simp [init] at missing
  · simp [init, other] at born

/-- A lock that is free was taken zero times, one that is not was taken at least once, and no
counter has overflowed. -/
structure Counted (s : State) : Prop where
  free : ∀ m, (s.mutex m).master = none → (s.mutex m).deep = 0
  taken : ∀ m, (s.mutex m).master ≠ none → 0 < (s.mutex m).deep
  bounded : ∀ m, (s.mutex m).deep ≤ s.small.max
  saved : ∀ t m deep, s.context t = .relock m deep → deep ≤ s.small.max

/-- Nobody takes a lock once more that he has taken as often as its counter can tell. -/
def Countable (s : State) (event : Event) : Prop :=
  ∀ m, s.Takes event m → (s.mutex m).master = some s.taskCurrent →
    (s.mutex m).deep < s.small.max

theorem Repriced.counted (counted : s.Counted) (repriced : Repriced s s') :
    s'.Counted := by
  obtain ⟨_, _, _, rfl, -⟩ := repriced
  exact ⟨counted.free, counted.taken, counted.bounded, counted.saved⟩

theorem Counted.setMutex (counted : s.Counted) {m : MutexId} {record : Mutex}
    (free : record.master = none → record.deep = 0) (taken : record.master ≠ none → 0 < record.deep)
    (bounded : record.deep ≤ s.small.max) :
    (s.setMutex m record).Counted where
  free n := by
    obtain rfl | other := eq_or_ne n m
    · simpa [State.setMutex] using free
    · simpa [State.setMutex, other] using counted.free n
  taken n := by
    obtain rfl | other := eq_or_ne n m
    · simpa [State.setMutex] using taken
    · simpa [State.setMutex, other] using counted.taken n
  bounded n := by
    obtain rfl | other := eq_or_ne n m
    · simpa [State.setMutex] using bounded
    · simpa [State.setMutex, other] using counted.bounded n
  saved := counted.saved

theorem Counted.woken (counted : s.Counted) (woken : Woken s s') :
    s'.Counted where
  free m := by rw [woken.mutex]; exact counted.free m
  taken m := by rw [woken.mutex]; exact counted.taken m
  bounded m := by rw [woken.mutex, woken.small]; exact counted.bounded m
  saved t m deep := by rw [woken.context, woken.small]; exact counted.saved t m deep

theorem Counted.freed {m : MutexId} {deep : Int} (counted : s.Counted) (freed : Freed m deep s s')
    (zero : deep = 0) : s'.Counted where
  free n unowned := by
    rw [freed.master] at unowned
    rw [freed.deep]
    split
    · exact zero
    · rename_i other
      rw [if_neg other] at unowned
      exact counted.free n unowned
  taken n owned := by
    rw [freed.master] at owned
    rw [freed.deep]
    split
    · rename_i same
      simp [same] at owned
    · rename_i other
      rw [if_neg other] at owned
      exact counted.taken n owned
  bounded n := by
    rw [freed.deep, freed.small]
    have bound := counted.bounded n
    split
    · have positive := s.small.max_pos
      omega
    · exact bound
  saved t n saved := by
    rw [freed.context, freed.small]
    exact counted.saved t n saved

theorem Counted.move (begins : start.Counted) (small : s.small = start.small)
    (countable : start.Countable event) (midway : s.Midway) (counted : s.Counted)
    (move : Move start event s s') : s'.Counted := by
  cases move with
  | activated activated => exact counted.woken activated.toWoken
  | attach m irq handler arg =>
    have changed : (s.setMutex m { s.mutex m with irq := some irq }).Counted :=
      counted.setMutex (counted.free m) (counted.taken m) (counted.bounded m)
    exact changed.woken (woken_setIrq _ irq _)
  | deepen m first takes owned =>
    subst first
    have room := countable m takes owned
    have positive := counted.taken m (by simp [owned])
    have wrapped : s.small.wrap ((s.mutex m).deep + 1) = (s.mutex m).deep + 1 :=
      SmallInt.wrap_eq (by omega) (by omega)
    refine counted.setMutex (fun unowned => ?_) (fun _ => ?_) ?_ <;> simp only [wrapped]
    · simp [owned] at unowned
    · omega
    · omega
  | lower m owned positive =>
    have before := counted.taken m owned
    have bound := counted.bounded m
    have wrapped : s.small.wrap ((s.mutex m).deep - 1) = (s.mutex m).deep - 1 :=
      SmallInt.wrap_eq (by omega) (by omega)
    refine counted.setMutex (fun unowned => absurd unowned owned) (fun _ => positive) ?_
    simp only [wrapped]
    omega
  | acquire m deep unowned _ _ positive origin =>
    have bound : deep ≤ s.small.max := by
      rw [small]
      rcases origin with rfl | saved
      · exact start.small.max_pos
      · exact begins.saved start.taskCurrent m deep saved
    obtain ⟨_, _, _, acquired, -⟩ := acquire_repriced s m
    rw [acquired]
    refine ⟨fun n => ?_, fun n => ?_, fun n => ?_, counted.saved⟩
    · obtain rfl | other := eq_or_ne n m
      · simp [State.setMutex, State.reprice]
      · simpa [State.setMutex, State.reprice, other] using counted.free n
    · obtain rfl | other := eq_or_ne n m
      · simpa [State.setMutex, State.reprice] using positive
      · simpa [State.setMutex, State.reprice, other] using counted.taken n
    · obtain rfl | other := eq_or_ne n m
      · simpa [State.setMutex, State.reprice] using bound
      · simpa [State.setMutex, State.reprice, other] using counted.bounded n
  | @free calls m deep released served detached ready _ last released_eq served_eq detached_eq
      ready_eq after_eq =>
      have freed := (free_links midway.links released_eq served_eq detached_eq ready_eq
        after_eq).2
      refine counted.freed freed ?_
      rcases last with zero | ⟨wrapped, low⟩
      · exact zero
      · obtain ⟨owner, _, owned, -⟩ := release_eq released_eq
        have owned' : (s.mutex m).master = some owner := by
          simpa [State.setMutex] using owned
        have positive := counted.taken m (by simp [owned'])
        have bound := counted.bounded m
        rw [SmallInt.wrap_eq (by omega) (by omega)] at wrapped
        omega
  | create t prio answer call unborn result =>
    obtain ⟨-, -, rfl⟩ := taskActivate_eq result
    refine ⟨counted.free, counted.taken, counted.bounded, fun u m deep saved => ?_⟩
    obtain rfl | other := eq_or_ne u t
    · simp [setContext] at saved
    · exact counted.saved u m deep (by simpa [setContext, setTask, other] using saved)
  | remove calls t message answer call born result after_eq =>
    obtain rfl := after_eq
    rcases result with ⟨m, -, -, chain⟩ | ⟨rfl, -⟩
    · have removed : (s.removed t).Counted :=
        ⟨counted.free, counted.taken, counted.bounded, counted.saved⟩
      have after := (mutexRecalculatePrio_repriced chain).counted removed
      exact ⟨after.free, after.taken, after.bounded, after.saved⟩
    · exact ⟨counted.free, counted.taken, counted.bounded, counted.saved⟩
  | bury t => exact ⟨counted.free, counted.taken, counted.bounded, counted.saved⟩
  | prioritize calls t prio _ _ result =>
    have rebased : (s.setTask t { s.task t with basePrio := s.small.wrap prio }).Counted :=
      ⟨counted.free, counted.taken, counted.bounded, counted.saved⟩
    exact (taskRecalculatePrio_repriced result).counted rebased
  | turn context free =>
    refine ⟨counted.free, counted.taken, counted.bounded, fun t m deep saved => ?_⟩
    obtain rfl | other := eq_or_ne t s.taskCurrent
    · have same : context = .relock m deep := by simpa [continueAt, setContext] using saved
      rw [(free m deep same).2.2]
      exact small ▸ begins.bounded m
    · exact counted.saved t m deep (by simpa [continueAt, setContext, other] using saved)

theorem Move.small (midway : s.Midway) (move : Move start event s s') : s'.small = s.small := by
  cases move with
  | activated activated => exact activated.small
  | acquire m deep =>
    obtain ⟨_, _, _, acquired, -⟩ := acquire_repriced s m
    rw [acquired]
    rfl
  | free calls m deep _ released_eq served_eq detached_eq ready_eq after_eq =>
    exact (free_links midway.links released_eq served_eq detached_eq ready_eq
      after_eq).2.small
  | create u prio answer call unborn result =>
    obtain ⟨-, -, rfl⟩ := taskActivate_eq result
    rfl
  | remove calls u message answer call born result after_eq =>
    obtain rfl := after_eq
    rcases result with ⟨m, -, -, chain⟩ | ⟨rfl, -⟩
    · obtain ⟨_, _, _, rfl, -⟩ := mutexRecalculatePrio_repriced chain
      rfl
    · rfl
  | prioritize calls u prio _ _ result =>
    obtain ⟨_, _, _, rfl, -⟩ := taskRecalculatePrio_repriced result
    rfl
  | _ => rfl

theorem Moves.counted (begins : start.Counted) (small : s.small = start.small)
    (countable : start.Countable event) (midway : s.Midway) (counted : s.Counted)
    (moves : Moves start event s s') : s'.Counted := by
  suffices s'.Counted ∧ s'.small = start.small from this.1
  induction moves with
  | refl => exact ⟨counted, small⟩
  | tail moves move ih =>
    have midway' := Moves.midway midway moves
    exact ⟨Counted.move begins ih.2 countable midway' ih.1 move,
      (move.small midway').trans ih.2⟩

theorem Counted.turn (counted : s.Counted) (small : s'.small = s.small) (mutex : s'.mutex = s.mutex)
    (context : ∀ t m deep, s'.context t = .relock m deep → ∃ u, s.context u = .relock m deep) :
    s'.Counted where
  free m := by rw [mutex]; exact counted.free m
  taken m := by rw [mutex]; exact counted.taken m
  bounded m := by rw [mutex, small]; exact counted.bounded m
  saved t m deep here := by
    obtain ⟨u, saved⟩ := context t m deep here
    rw [small]
    exact counted.saved u m deep saved

theorem Counted.continueAt (counted : s.Counted) {context : Context}
    (known : ∀ m deep, context = .relock m deep → s.context s.taskCurrent = .relock m deep) :
    (s.continueAt context).Counted := by
  refine counted.turn rfl rfl fun t m deep here => ?_
  obtain rfl | other := eq_or_ne t s.taskCurrent
  · exact ⟨s.taskCurrent, known m deep (by simpa [State.continueAt, setContext] using here)⟩
  · exact ⟨t, by simpa [State.continueAt, setContext, other] using here⟩

theorem Counted.schedule (counted : s.Counted) : s.taskSchedule.Counted :=
  ⟨counted.free, counted.taken, counted.bounded, counted.saved⟩

theorem Counted.step {calls : Nat} (counted : s.Counted) (sound : s.Sound)
    (countable : s.Countable event) (result : State.step calls s event = some s') : s'.Counted := by
  have midway := sound.midway (sound.unblocked result)
  cases step_outcome sound result with
  | stays moves => exact Moves.counted counted rfl countable midway counted moves
  | switches moves => exact (Moves.counted counted rfl countable midway counted moves).schedule
  | yields =>
    have queued : ({ s with queues := s.queues.append .active s.taskCurrent } : State).Counted :=
      counted.turn rfl rfl fun t m deep here => ⟨t, here⟩
    exact (queued.continueAt (by simp)).schedule
  | @waits m answer middle after _ handled _ _ slept =>
    have asleep : (middle.asleep m).Counted :=
      (counted.woken handled.toWoken).turn rfl rfl fun t m deep here => ⟨t, here⟩
    have midway' := (midway.woken handled.toWoken).asleep m
    have small : (middle.asleep m).small = s.small := handled.small
    exact (Moves.counted counted small countable midway' asleep slept.later).schedule
  | blocks m owner again _ _ _ contends saved blocked =>
    obtain ⟨-, middle, repriced, rfl⟩ := block_eq blocked
    have listed : ({ s.setTask s.taskCurrent { s.task s.taskCurrent with lock := some m } with
        queues := s.queues.append (.slaves m) s.taskCurrent } : State).Counted :=
      counted.turn rfl rfl fun t m deep here => ⟨t, here⟩
    have joined : (s.blocked m again).Counted := listed.continueAt fun n deep same => by
      obtain rfl : n = m := by simpa [same, Context.ContendsFor] using contends
      exact (saved deep same).2
    exact (repriced.counted joined).schedule
  | regroups observations value _ regrouped =>
    obtain ⟨_, _, rfl, -⟩ := regrouped
    refine Counted.continueAt ?_ (by simp)
    exact counted.turn rfl rfl fun t m deep here => ⟨t, here⟩
  | suspends g =>
    refine Counted.schedule (Counted.continueAt ?_ (by simp))
    exact counted.turn rfl rfl fun t m deep here => ⟨t, here⟩

theorem init_counted (small : SmallInt) : (init small).Counted := by
  constructor <;> simp [init, small.max_pos.le]

/-- A place of a task: one of the lists, or the record of a group. -/
inductive Spot
  | queue (queue : Queue)
  | group (group : GroupId)

def Occupies (s : State) (t : TaskId) : Spot → Prop
  | .queue queue => t ∈ s.queues.nodes queue
  | .group g => (s.group g).waiter = some t

/-- A task is in one place, once, and its pointers agree with that place. -/
structure Located (s : State) (t : TaskId) : Prop where
  spot : ∃! spot, s.Occupies t spot
  once : ∀ queue, (s.queues.nodes queue).count t ≤ 1
  active : t ∈ s.active → (s.task t).lock = none ∧ (s.task t).wait = none
  slave : ∀ m, t ∈ s.slaves m → (s.task t).lock = some m ∧ (s.task t).wait = none
  waiter : ∀ m, t ∈ s.waiters m → (s.task t).lock = none ∧ (s.task t).wait = some m
  recorded : ∀ g, (s.group g).waiter = some t →
    (s.task t).lock = none ∧ (s.task t).wait = none

/-- A lock is in the list of its master, once, and a free lock blocks nobody. -/
structure Kept (s : State) (m : MutexId) : Prop where
  owner : ∀ t, (s.owned.nodes t).count m = if (s.mutex m).master = some t then 1 else 0
  unique : ∀ t u, m ∈ s.owned.nodes t → m ∈ s.owned.nodes u → t = u
  free : (s.mutex m).master = none → s.slaves m = []

theorem Sound.kept_lock (sound : s.Sound) (m : MutexId) : s.Kept m where
  owner t := by
    rw [(s.owned.nodup t).count]
    simp only [sound.links.mem_owned]
  unique t u here there := by
    rw [sound.links.mem_owned] at here there
    exact Option.some.inj (here.symm.trans there)
  free := sound.nobody

theorem Sound.recorded (sound : s.Sound) (slots : s.Slots) (waits : (s.group g).waiter = some t) :
    s.context t = .groupWait g ∧ s.queues.place t = none := by
  obtain rfl | busy := eq_or_ne t taskIdle
  · exact ⟨(slots.idle g waits).1, (slots.idle g waits).2.1⟩
  · obtain ⟨here, unlinked, -⟩ := (sound.links.task t).groupWaiter busy g waits
    exact ⟨here, unlinked⟩

theorem Homes.located (homes : s.Homes) (sound : s.Sound) (slots : s.Slots)
    (born : s.life t ≠ .unborn) (awake : t ≠ taskIdle ∨ (s.task t).wait = none) : s.Located t := by
  have linked := sound.links.task t
  have unblocked : (∀ m, s.queues.place t ≠ some (.slaves m)) → (s.task t).lock = none := by
    intro elsewhere
    rcases blocked : (s.task t).lock with _ | m
    · rfl
    · exact absurd ((linked.slave m).mpr blocked) (elsewhere m)
  have awakened : (∀ m, s.queues.place t ≠ some (.waiters m)) → (s.task t).wait = none := by
    intro elsewhere
    rcases awake with busy | free
    · rcases waits : (s.task t).wait with _ | m
      · rfl
      · exact absurd (linked.waits busy m waits) (elsewhere m)
    · exact free
  constructor
  case spot =>
    rcases place : s.queues.place t with _ | queue
    · obtain ⟨g, waits, here⟩ := homes.home t born place
      refine ⟨.group g, waits, fun spot occupied => ?_⟩
      cases spot with
      | queue queue =>
        have placed := s.queues.mem_nodes.mp occupied
        simp [place] at placed
      | group h =>
        have there := (sound.recorded slots occupied).1
        rw [here, Context.groupWait.injEq] at there
        rw [there]
    · refine ⟨.queue queue, s.queues.mem_nodes.mpr place, fun spot occupied => ?_⟩
      cases spot with
      | queue other =>
        have placed := s.queues.mem_nodes.mp occupied
        rw [place, Option.some.injEq] at placed
        rw [placed]
      | group h =>
        have unlinked := (sound.recorded slots occupied).2
        simp [place] at unlinked
  case once => exact fun queue => List.nodup_iff_count_le_one.mp (s.queues.nodup queue) t
  case active =>
    intro member
    have placed := s.queues.mem_nodes.mp member
    exact ⟨unblocked (by simp [placed]), awakened (by simp [placed])⟩
  case slave =>
    intro m member
    have placed := s.queues.mem_nodes.mp member
    exact ⟨(linked.slave m).mp placed, awakened (by simp [placed])⟩
  case waiter =>
    intro m member
    have placed := s.queues.mem_nodes.mp member
    exact ⟨unblocked (by simp [placed]), linked.waiter m placed⟩
  case recorded =>
    intro g waits
    have unlinked := (sound.recorded slots waits).2
    exact ⟨unblocked (by simp [unlinked]), awakened (by simp [unlinked])⟩

end State

end Uos
