import Uos.Kernel.Progress

/-!
# Nested acquisitions

A task gets a lock any number of times and releases it as often, while other tasks and interrupts
come in between.  The depth of the lock counts what is still to be released.
-/

namespace Uos
namespace State

/-- Whether a task gets a lock in a transition: the call returns, with 1 if it only tries. -/
def Acquires (t : TaskId) (m : MutexId) (s : State) (event : Event) (s' : State) : Prop :=
  s.taskCurrent = t ∧
    match event with
    | .call (.mutexLock n) _ | .call (.mutexLockIrq n _ _ _) _ => n = m ∧ s'.context t = .ret 0
    | .call (.mutexTrylock n) _ => n = m ∧ s'.context t = .ret 1
    | .resume _ =>
      (s.context t = .lock m ∨ ∃ irq handler arg, s.context t = .lockIrq m irq handler arg) ∧
        s'.context t = .ret 0
    | _ => False

/-- Whether a task calls `mutex_unlock` for a lock. -/
def Unlocks (t : TaskId) (m : MutexId) (s : State) (event : Event) : Prop :=
  s.taskCurrent = t ∧ ∃ answer, event = .call (.mutexUnlock m) answer

/-- No counter overflows, and nothing but calls of `mutex_unlock` by the task releases its lock. -/
structure Respects (t : TaskId) (m : MutexId) (s : State) (event : Event) : Prop where
  countable : s.Countable event
  unlock : ∀ answer, event = .call (.mutexUnlock m) answer → s.taskCurrent ≠ t →
    (s.mutex m).master ≠ some t
  unlockIrq : ∀ answer, event = .call (.mutexUnlockIrq m) answer → s.taskCurrent ≠ t ∧
    (s.mutex m).master ≠ some t
  living : ∀ message, s.context s.taskCurrent ≠ .delete t message

/-- A run in which a task got a lock a number of times more often than it unlocked it. -/
inductive Nest (t : TaskId) (m : MutexId) (start : State) : Nat → State → Prop
  | start : Nest t m start 0 start
  | acquire {n : Nat} {s s' : State} {event : Event} (nest : Nest t m start n s)
      (respects : Respects t m s event) (step : Step s event s')
      (acquired : Acquires t m s event s') : Nest t m start (n + 1) s'
  | unlock {n : Nat} {s s' : State} {event : Event} (nest : Nest t m start (n + 1) s)
      (respects : Respects t m s event) (step : Step s event s')
      (unlocks : Unlocks t m s event) : Nest t m start n s'
  | other {n : Nat} {s s' : State} {event : Event} (nest : Nest t m start n s)
      (respects : Respects t m s event) (step : Step s event s')
      (keeps : ¬Acquires t m s event s') (keeps' : ¬Unlocks t m s event) : Nest t m start n s'

/-- A lock that a task has still to release a number of times: the task owns it at that depth, or
waits for a signal and has saved that depth. -/
inductive Held (t : TaskId) (m : MutexId) (s : State) : Nat → Prop
  | free (others : (s.mutex m).master ≠ some t) (steady : ∀ deep, s.context t ≠ .relock m deep) :
      Held t m s 0
  | owner {n : Nat} (owned : (s.mutex m).master = some t) (deep : (s.mutex m).deep = n + 1) :
      Held t m s (n + 1)
  | waits {n : Nat} (saved : s.context t = .relock m (n + 1)) : Held t m s (n + 1)

variable {s s' : State} {t u : TaskId} {m : MutexId} {n : Nat} {event : Event}

theorem Held.untouched {only : MutexId → Prop} (held : Held t m s n)
    (touches : Touches u only s s') (spared : ¬only m) : Held t m s' n := by
  obtain ⟨master, deep⟩ := touches.holding m spared
  cases held with
  | free others steady =>
    refine .free (master ▸ others) fun saved here => steady saved ?_
    exact (touches.relocks t m saved (.inr spared)).mp here
  | owner owned same => exact .owner (master.trans owned) (deep.trans same)
  | waits saved => exact .waits ((touches.relocks t m _ (.inr spared)).mpr saved)

theorem Touched.spares (respects : Respects t m s event) (other : t ≠ s.taskCurrent)
    (touched : s.Touched event m) : (s.mutex m).master ≠ some t := by
  intro owned
  have taken : ∀ n, ¬(m = n ∧ s.Open n) := by
    rintro n ⟨rfl, free | own⟩
    · simp [free] at owned
    · exact other (Option.some.inj (owned.symm.trans own))
  cases event with
  | interrupt irqs => exact touched
  | resume answer =>
    simp only [Touched] at touched
    split at touched
    · exact taken _ touched
    · exact taken _ touched
    · exact taken _ touched
    · rename_i v message here
      obtain rfl : v = t := Option.some.inj (touched.symm.trans owned)
      exact respects.living message here
    · exact touched
  | call c answer =>
    cases c with
    | mutexLock n => exact taken n touched
    | mutexTrylock n => exact taken n touched
    | mutexLockIrq n irq handler arg => exact taken n touched
    | mutexUnlock n =>
      obtain rfl : m = n := touched
      exact respects.unlock answer rfl other.symm owned
    | mutexUnlockIrq n =>
      obtain rfl : m = n := touched
      exact (respects.unlockIrq answer rfl).2 owned
    | mutexWait n =>
      obtain ⟨rfl, own⟩ := touched
      exact other (Option.some.inj (owned.symm.trans own))
    | _ => exact touched

theorem Held.foreign (held : Held t m s n) (respects : Respects t m s event)
    (other : t ≠ s.taskCurrent) (touches : Touches s.taskCurrent (s.Touched event) s s') :
    Held t m s' n := by
  rcases em (s.Touched event m) with touched | spared
  swap
  · exact held.untouched touches spared
  have others := Touched.spares respects other touched
  cases held with
  | free _ steady =>
    refine .free ?_ fun deep here => steady deep ?_
    · rcases touches.master m with same | gone | taken
      · rwa [same]
      · simp [gone]
      · rw [taken]
        simpa using other.symm
    · exact (touches.relocks t m deep (.inl other)).mp here
  | owner owned => exact absurd owned others
  | waits saved => exact .waits ((touches.relocks t m _ (.inl other)).mpr saved)

theorem continueAt_context (s : State) (context : Context) :
    (s.continueAt context).context s.taskCurrent = context := by
  simp [continueAt, setContext]

theorem scheduleIfNeeded_same (s : State) :
    s.scheduleIfNeeded.mutex = s.mutex ∧ s.scheduleIfNeeded.task = s.task ∧
      s.scheduleIfNeeded.queues = s.queues ∧ s.scheduleIfNeeded.context = s.context := by
  rw [scheduleIfNeeded]
  split <;> exact ⟨rfl, rfl, rfl, rfl⟩

theorem deepen_holding (s : State) (m : MutexId) :
    ((s.deepen m).mutex m).master = (s.mutex m).master ∧
      ((s.deepen m).mutex m).deep = s.small.wrap ((s.mutex m).deep + 1) := by
  simp [deepen, setMutex]

theorem acquire_holding (s : State) (m : MutexId) :
    ((s.acquire m).mutex m).master = some s.taskCurrent ∧
      ((s.acquire m).mutex m).deep = (s.mutex m).deep ∧ (s.acquire m).small = s.small := by
  obtain ⟨_, _, _, acquired, -⟩ := acquire_repriced s m
  rw [acquired]
  simp [State.reprice, setMutex]

theorem Held.deeper (held : Held t m s n) (current : s.taskCurrent = t)
    (fresh : ∀ deep, s.context t ≠ .relock m deep)
    (room : (s.mutex m).master = some t → (s.mutex m).deep < s.small.max) {x : State}
    (taken : (s.mutex m).master = some s.taskCurrent ∧ Inert (s.deepen m) x ∨
      (s.mutex m).master = none ∧ (s.mutex m).deep = 0 ∧ Inert ((s.acquire m).deepen m) x) :
    (x.mutex m).master = some t ∧ (x.mutex m).deep = n + 1 := by
  cases held with
  | waits saved => exact absurd saved (fresh _)
  | free others =>
    rcases taken with ⟨owned, -⟩ | ⟨-, shallow, inert⟩
    · exact absurd (current ▸ owned) others
    · obtain ⟨owner, deep, small⟩ := acquire_holding s m
      obtain ⟨owner', deep'⟩ := deepen_holding (s.acquire m) m
      refine ⟨(inert.master m).trans (owner'.trans (owner.trans (by rw [current]))), ?_⟩
      rw [inert.deep, deep', deep, small, shallow, Int.zero_add, SmallInt.wrap_one]
      rfl
  | @owner k owned deep =>
    rcases taken with ⟨-, inert⟩ | ⟨free, -⟩
    · obtain ⟨owner', deep'⟩ := deepen_holding s m
      have bound := room owned
      refine ⟨(inert.master m).trans (owner'.trans owned), ?_⟩
      rw [inert.deep, deep', SmallInt.wrap_eq (by omega) (by omega)]
      omega
    · simp [free] at owned

variable {again : Context} {calls : Nat} {answer : Answer}

theorem lockLoop_counts {finish : State → State} (held : Held s.taskCurrent m s n)
    (fresh : ∀ deep, s.context s.taskCurrent ≠ .relock m deep)
    (room : (s.mutex m).master = some s.taskCurrent → (s.mutex m).deep < s.small.max)
    (finished : ∀ x, ∃ y, Inert x y ∧ finish x = y.continueAt (.ret 0))
    (result : s.lockLoop m again finish = some s') :
    s'.context s.taskCurrent = .ret 0 ∧ Held s.taskCurrent m s' (n + 1) ∨
      ¬s.Open m ∧ s'.context s.taskCurrent = again := by
  rcases lockLoop_cases result with ⟨owner, owned, other, blocked⟩ | ⟨owned, rfl⟩ |
    ⟨unowned, shallow, rfl⟩
  · obtain ⟨-, middle, repriced, rfl⟩ := block_eq blocked
    refine .inr ⟨?_, ?_⟩
    · rintro (free | own)
      · simp [free] at owned
      · exact other (Option.some.inj (owned.symm.trans own))
    · change middle.context s.taskCurrent = again
      rw [repriced.inert.context]
      exact continueAt_context _ _
  · obtain ⟨y, inert, finish_eq⟩ := finished (s.deepen m)
    have taken := held.deeper rfl fresh room (.inl ⟨owned, inert⟩)
    have current : y.taskCurrent = s.taskCurrent := inert.taskCurrent
    rw [finish_eq]
    exact .inl ⟨current ▸ continueAt_context y _, .owner taken.1 taken.2⟩
  · obtain ⟨y, inert, finish_eq⟩ := finished ((s.acquire m).deepen m)
    have taken := held.deeper rfl fresh room (.inr ⟨unowned, shallow, inert⟩)
    have current : y.taskCurrent = s.taskCurrent :=
      inert.taskCurrent.trans (acquire_taskCurrent s m)
    rw [finish_eq]
    exact .inl ⟨current ▸ continueAt_context y _, .owner taken.1 taken.2⟩

theorem mutexTrylock_counts (held : Held s.taskCurrent m s n)
    (fresh : ∀ deep, s.context s.taskCurrent ≠ .relock m deep)
    (room : (s.mutex m).master = some s.taskCurrent → (s.mutex m).deep < s.small.max)
    (result : s.mutexTrylock m = some s') :
    s'.context s.taskCurrent = .ret 1 ∧ Held s.taskCurrent m s' (n + 1) ∨
      ¬s.Open m ∧ s'.context s.taskCurrent = .ret 0 := by
  simp only [mutexTrylock] at result
  split at result
  · rename_i owner owned
    split at result
    · rename_i same
      cases result
      have taken := held.deeper rfl fresh room (.inl ⟨same ▸ owned, .refl _⟩)
      exact .inl ⟨continueAt_context (s.deepen m) _, .owner taken.1 taken.2⟩
    · rename_i other
      cases result
      refine .inr ⟨?_, continueAt_context s _⟩
      rintro (free | own)
      · simp [free] at owned
      · exact other (Option.some.inj (owned.symm.trans own))
  · rename_i unowned
    split at result
    · contradiction
    · rename_i free
      simp only [ne_eq, not_or, not_not] at free
      cases result
      have taken := held.deeper rfl fresh room (.inr ⟨unowned, free.2, .refl _⟩)
      have current : ((s.acquire m).deepen m).taskCurrent = s.taskCurrent :=
        acquire_taskCurrent s m
      exact .inl ⟨current ▸ continueAt_context ((s.acquire m).deepen m) _,
        .owner taken.1 taken.2⟩

/-- `mutex_wait` of the owner keeps the lock, or saves the depth. -/
theorem mutexWait_held (held : Held s.taskCurrent m s n) (owns : s.Owns m)
    (user : s.context s.taskCurrent = .user) (result : mutexWait calls s m answer = some s') :
    Held s.taskCurrent m s' n := by
  have asleep : ∀ {x : State}, Inert s x → sleep calls x m = some s' →
      Held s.taskCurrent m s' n := by
    intro x inert result
    rcases sleep_cases result with ⟨others, -⟩ | ⟨-, released, ready, release_eq, ready_eq, rfl⟩
    · rw [inert.master, inert.taskCurrent] at others
      exact absurd owns others
    · cases held with
      | free others => exact absurd owns others
      | waits saved => simp [user] at saved
      | owner owned deep =>
        have kept := release_taskCurrent release_eq
        have current : ready.taskCurrent = s.taskCurrent :=
          ((readySlaves_inert ready_eq).taskCurrent.trans kept).trans inert.taskCurrent
        apply Held.waits
        simp [taskSchedule, continueAt, setContext, setMutex, current, inert.deep, deep]
  have returned : ∀ {x : State}, Inert s x → Held s.taskCurrent m
      (x.continueAt (.ret 0)).scheduleIfNeeded n := by
    intro x inert
    have left : Touches s.taskCurrent (fun _ => False) s (x.continueAt (.ret 0)) :=
      inert.touches.leave inert.taskCurrent (by simp [user]) (by trivial)
    exact held.untouched left.scheduleIfNeeded id
  simp only [mutexWait] at result
  split at result
  · contradiction
  · split at result
    · exact asleep (.refl s) result
    · rename_i irq _
      split at result
      · obtain ⟨middle, called, rest⟩ := Option.bind_eq_some_iff.mp result
        have handled := (clearPending_inert s irq).trans (callHandler_inert called)
        split at rest
        · exact asleep handled rest
        · obtain ⟨after, activated, last⟩ := Option.bind_eq_some_iff.mp rest
          cases last
          exact returned (handled.trans (mutexActivate_inert activated))
      · exact asleep (.refl s) result

/-- `mutex_wait` takes the lock back at the depth it saved. -/
theorem relockLoop_held {deep : Int} (sound : s.Sound) (held : Held s.taskCurrent m s n)
    (here : s.context s.taskCurrent = .relock m deep) (isOpen : s.Open m)
    (result : s.relockLoop m deep = some s') : Held s.taskCurrent m s' n := by
  have others := (sound.relocks s.taskCurrent m deep here).1
  have unowned := isOpen.resolve_right others
  simp only [relockLoop, unowned] at result
  split at result
  · contradiction
  · cases result
    cases held with
    | free _ steady => exact absurd here (steady deep)
    | owner owned => exact absurd owned others
    | waits saved =>
      rw [here, Context.relock.injEq] at saved
      obtain ⟨owner, -⟩ := acquire_holding s m
      refine .owner ?_ ?_
      · simpa [continueAt, setContext, setMutex] using owner
      · simp [continueAt, setContext, setMutex, saved.2]

theorem mutexUnlock_master (result : mutexUnlock calls s m answer again = some s') :
    ((s'.mutex m).master = (s.mutex m).master ∨ (s'.mutex m).master = none) ∧
      s'.context s.taskCurrent = again := by
  rcases mutexUnlock_cases result with
    ⟨-, rfl⟩ | ⟨-, released, served, woken, release_eq, served_eq, woken_eq, rfl⟩
  · refine ⟨.inl ?_, continueAt_context _ _⟩
    simp [continueAt, setContext, setMutex]
  · have inert := (servePending_inert served_eq).trans (wakeSlaves_inert woken_eq)
    have kept := release_taskCurrent release_eq
    have current : woken.taskCurrent = s.taskCurrent := inert.taskCurrent.trans kept
    obtain ⟨mutexes, -, -, contexts⟩ := scheduleIfNeeded_same (woken.continueAt again)
    rw [mutexes, contexts]
    refine ⟨.inr ?_, current ▸ continueAt_context woken again⟩
    have gone := release_master release_eq m
    rw [if_pos rfl] at gone
    exact (inert.master m).trans gone

theorem deleteLoop_held {v : TaskId} {message : Message} (sound : s.Sound)
    (held : Held s.taskCurrent m s n) (here : s.context s.taskCurrent = .delete v message)
    (owned : (s.mutex m).master = some v)
    (living : s.context s.taskCurrent ≠ .delete s.taskCurrent message)
    (result : deleteLoop calls s v message answer = some s') : Held s.taskCurrent m s' n := by
  have other : v ≠ s.taskCurrent := by
    rintro rfl
    exact living here
  cases held with
  | owner own => exact absurd (Option.some.inj (owned.symm.trans own)) other
  | waits saved => simp [here] at saved
  | free others =>
    simp only [deleteLoop] at result
    split at result
    · rename_i k _ _
      split at result
      · obtain ⟨-, context⟩ := mutexUnlock_master result
        refine .free ?_ (by simp [context])
        obtain rfl | different := eq_or_ne m k
        · rcases (mutexUnlock_master result).1 with same | gone
          · rwa [same]
          · simp [gone]
        · have touches : Touches s.taskCurrent (· = k) s s' :=
            mutexUnlock_touches rfl (by simp [here]) (by simp) result
          rw [(touches.holding m different).1]
          exact others
      · contradiction
    · rename_i nothing
      have member := sound.links.mem_owned.mpr owned
      simp [nothing] at member

/-- A transition of the task itself counts as an acquisition or leaves the number unchanged. -/
def Counts (m : MutexId) (n : Nat) (s : State) (event : Event) (s' : State) : Prop :=
  (Acquires s.taskCurrent m s event s' → Held s.taskCurrent m s' (n + 1)) ∧
    (¬Acquires s.taskCurrent m s event s' → Held s.taskCurrent m s' n)

theorem counts_of_not_acquires (never : ¬Acquires s.taskCurrent m s event s')
    (held : Held s.taskCurrent m s' n) : Counts m n s event s' :=
  ⟨fun acquired => absurd acquired never, fun _ => held⟩

theorem counts_of_ways {k : MutexId} (again : Context) (value : Message)
    (acquires : Acquires s.taskCurrent m s event s' ↔
      k = m ∧ s'.context s.taskCurrent = .ret value)
    (different : again ≠ .ret value) (touched : s.Touched event m → m = k ∧ s.Open k)
    (spared : ¬s.Touched event m → Held s.taskCurrent m s' n)
    (ways : k = m → s'.context s.taskCurrent = .ret value ∧ Held s.taskCurrent m s' (n + 1) ∨
      ¬s.Open m ∧ s'.context s.taskCurrent = again) : Counts m n s event s' := by
  obtain rfl | other := eq_or_ne k m
  · rcases ways rfl with ⟨returned, deeper⟩ | ⟨busy, blocked⟩
    · exact ⟨fun _ => deeper, fun never => absurd (acquires.mpr ⟨rfl, returned⟩) never⟩
    · refine counts_of_not_acquires (fun acquired => ?_) (spared fun here => busy (touched here).2)
      exact different (blocked.symm.trans (acquires.mp acquired).2)
  · refine counts_of_not_acquires (fun acquired => other (acquires.mp acquired).1) (spared ?_)
    exact fun here => other (touched here).1.symm

theorem call_counts {c : Call} (held : Held s.taskCurrent m s n)
    (respects : Respects s.taskCurrent m s (.call c answer))
    (user : s.context s.taskCurrent = .user) (result : State.call calls s c answer = some s')
    (spared : ¬s.Touched (.call c answer) m → Held s.taskCurrent m s' n)
    (unlocks : ¬Unlocks s.taskCurrent m s (.call c answer)) :
    Counts m n s (.call c answer) s' := by
  have fresh : ∀ deep, s.context s.taskCurrent ≠ .relock m deep := by simp [user]
  have room := respects.countable m
  simp only [State.call] at result
  split at result
  swap
  · contradiction
  cases c with
  | mutexLock k =>
    simp only [mutexLock] at result
    split at result
    · contradiction
    refine counts_of_ways (.lock k) 0 ?_ ?_ id spared fun same => ?_
    · simp [Acquires]
    · simp
    · subst same
      exact lockLoop_counts held fresh (room (.inl rfl)) (fun x => ⟨x, .refl x, rfl⟩) result
  | mutexTrylock k =>
    refine counts_of_ways (.ret 0) 1 ?_ ?_ id spared fun same => ?_
    · simp [Acquires]
    · simp
    · subst same
      exact mutexTrylock_counts held fresh (room (.inr ⟨answer, rfl⟩)) result
  | mutexLockIrq k irq handler arg =>
    refine counts_of_ways (.lockIrq k irq handler arg) 0 ?_ ?_ id spared fun same => ?_
    · simp [Acquires]
    · simp
    · subst same
      exact lockLoop_counts held fresh (room (.inl rfl))
        (fun x => ⟨_, attach_inert x k irq handler arg, rfl⟩) result
  | mutexUnlock k =>
    refine counts_of_not_acquires (fun acquired => acquired.2) (spared fun touched => ?_)
    obtain rfl : m = k := touched
    exact unlocks ⟨rfl, answer, rfl⟩
  | mutexUnlockIrq k =>
    refine counts_of_not_acquires (fun acquired => acquired.2) (spared fun touched => ?_)
    obtain rfl : m = k := touched
    exact (respects.unlockIrq answer rfl).1 rfl
  | mutexWait k =>
    refine counts_of_not_acquires (fun acquired => acquired.2) ?_
    rcases em (m = k ∧ s.Owns k) with ⟨rfl, owns⟩ | elsewhere
    · exact mutexWait_held held owns user result
    · exact spared elsewhere
  | _ => exact counts_of_not_acquires (fun acquired => acquired.2) (spared id)

theorem touched_resume (s : State) (answer : Answer) (m : MutexId) :
    s.Touched (.resume answer) m =
      match s.context s.taskCurrent with
      | .lock k | .lockIrq k _ _ _ | .relock k _ => m = k ∧ s.Open k
      | .delete t _ => (s.mutex m).master = some t
      | _ => False :=
  rfl

theorem resume_counts (sound : s.Sound) (held : Held s.taskCurrent m s n)
    (respects : Respects s.taskCurrent m s (.resume answer))
    (result : State.resume calls s answer = some s')
    (spared : ¬s.Touched (.resume answer) m → Held s.taskCurrent m s' n) :
    Counts m n s (.resume answer) s' := by
  have touched := touched_resume s answer m
  have room := respects.countable m
  simp only [State.resume] at result
  split at result <;> rename_i here <;> simp only [here] at touched
  · contradiction
  · refine counts_of_not_acquires (by simp [Acquires, here]) (spared ?_)
    simp [touched]
  · rename_i k
    refine counts_of_ways (.lock k) 0 ?_ ?_ (fun touches => touched ▸ touches) spared fun same => ?_
    · simp [Acquires, here]
    · simp
    · subst same
      exact lockLoop_counts held (by simp [here]) (room (.inl (by simp [wanted, here])))
        (fun x => ⟨x, .refl x, rfl⟩) result
  · rename_i k irq handler arg
    refine counts_of_ways (.lockIrq k irq handler arg) 0 ?_ ?_ (fun touches => touched ▸ touches)
      spared fun same => ?_
    · simp [Acquires, here]
    · simp
    · subst same
      exact lockLoop_counts held (by simp [here]) (room (.inl (by simp [wanted, here])))
        (fun x => ⟨_, attach_inert x k irq handler arg, rfl⟩) result
  · refine counts_of_not_acquires (by simp [Acquires, here]) (spared ?_)
    simp [touched]
  · rename_i k deep
    refine counts_of_not_acquires (by simp [Acquires, here]) ?_
    rcases em (m = k ∧ s.Open k) with ⟨rfl, isOpen⟩ | elsewhere
    · exact relockLoop_held sound held here isOpen result
    · exact spared (touched ▸ elsewhere)
  · refine counts_of_not_acquires (by simp [Acquires, here]) (spared ?_)
    simp [touched]
  · rename_i v message
    refine counts_of_not_acquires (by simp [Acquires, here]) ?_
    rcases em ((s.mutex m).master = some v) with owned | elsewhere
    · exact deleteLoop_held sound held here owned (respects.living message) result
    · exact spared (touched ▸ elsewhere)
  · refine counts_of_not_acquires (by simp [Acquires, here]) (spared ?_)
    simp [touched]

theorem step_counts (sound : s.Sound) (held : Held s.taskCurrent m s n)
    (respects : Respects s.taskCurrent m s event) (result : State.step calls s event = some s')
    (unlocks : ¬Unlocks s.taskCurrent m s event) : Counts m n s event s' := by
  have spared : ¬s.Touched event m → Held s.taskCurrent m s' n :=
    held.untouched (step_touches sound result)
  cases event with
  | interrupt irqs => exact counts_of_not_acquires (fun acquired => acquired.2) (spared id)
  | resume answer => exact resume_counts sound held respects result spared
  | call c answer =>
    simp only [step] at result
    split at result
    · rename_i user
      exact call_counts held respects user result spared unlocks
    · contradiction

theorem mutexUnlock_deeper (counted : s.Counted) (deep : (s.mutex m).deep = n + 2)
    (result : mutexUnlock calls s m answer again = some s') :
    s' = (s.setMutex m { s.mutex m with deep := n + 1 }).continueAt again := by
  have bound := counted.bounded m
  have wrapped : s.small.wrap ((s.mutex m).deep - 1) = n + 1 := by
    rw [SmallInt.wrap_eq (by omega) (by omega)]
    omega
  rcases mutexUnlock_cases result with ⟨-, after⟩ | ⟨last, -⟩
  · rw [after, wrapped]
  · omega

theorem Held.unlock (counted : s.Counted) (held : Held s.taskCurrent m s (n + 1))
    (user : s.context s.taskCurrent = .user)
    (result : mutexUnlock calls s m answer (.ret 0) = some s') : Held s.taskCurrent m s' n := by
  cases held with
  | waits saved => simp [user] at saved
  | owner owned deep =>
    obtain ⟨-, context⟩ := mutexUnlock_master result
    cases n with
    | succ k =>
      have deeper : (s.mutex m).deep = k + 2 := by omega
      rw [mutexUnlock_deeper counted deeper result]
      refine .owner ?_ ?_
      · simpa [continueAt, setContext, setMutex] using owned
      · simp [continueAt, setContext, setMutex]
    | zero =>
      have bound := counted.bounded m
      refine .free ?_ (by simp [context])
      rcases mutexUnlock_cases result with
        ⟨positive, -⟩ | ⟨-, released, served, woken, release_eq, served_eq, woken_eq, rfl⟩
      · rw [SmallInt.wrap_eq (by omega) (by omega)] at positive
        omega
      · have inert := (servePending_inert served_eq).trans (wakeSlaves_inert woken_eq)
        have gone := release_master release_eq m
        rw [if_pos rfl, ← inert.master] at gone
        rw [(scheduleIfNeeded_same (woken.continueAt (.ret 0))).1]
        simp [continueAt, setContext, gone]

/-- What the assertions of the kernel rely on, as long as no counter overflows. -/
structure Regular (s : State) : Prop where
  sound : s.Sound
  counted : s.Counted
  slots : s.Slots
  armed : s.Armed
  unblocked : s.taskCurrent ≠ taskIdle → (s.task s.taskCurrent).lock = none

theorem Settled.unblocked {x : State} (settled : x.Settled)
    (busy : x.taskSchedule.taskCurrent ≠ taskIdle) :
    (x.taskSchedule.task x.taskSchedule.taskCurrent).lock = none := by
  have placed := x.queues.mem_nodes.mp (x.taskPolicy_cases.resolve_left busy)
  change (x.task x.taskPolicy).lock = none
  rcases blocked : (x.task x.taskPolicy).lock with _ | k
  · rfl
  · have joined := ((settled.links.task x.taskPolicy).slave k).mpr blocked
    simp [placed] at joined

theorem Sound.unblocked_step (sound : s.Sound) (result : State.step calls s event = some s')
    (busy : s'.taskCurrent ≠ taskIdle) :
    (s'.task s'.taskCurrent).lock = none := by
  have midway := sound.midway (sound.unblocked result)
  cases step_outcome sound result with
  | stays moves => exact (Moves.midway midway moves).unblocked
  | switches moves => exact (Moves.midway midway moves).toSettled.unblocked busy
  | yields => exact ((midway.yield sound.awake).turn (by simp)).toSettled.unblocked busy
  | waits k answer _ handled _ _ slept =>
    have asleep := (midway.woken handled.toWoken).asleep k
    exact (Moves.midway asleep slept.later).toSettled.unblocked busy
  | blocks k owner again _ owned other contends saved blocked =>
    obtain ⟨-, middle, repriced, rfl⟩ := block_eq blocked
    have settled := midway.blocked sound.awake owned other contends fun deep same =>
      (saved deep same).1
    have links := settled.links.reprice repriced
    obtain ⟨_, _, _, rfl, -⟩ := repriced
    exact Settled.unblocked ⟨links, settled.kept, settled.relocks⟩ busy
  | regroups observations value _ regrouped =>
    exact ((midway.regrouped regrouped).turn (by simp)).unblocked
  | suspends g _ _ awake => exact (midway.suspended awake g).unblocked busy

theorem Regular.step (regular : s.Regular) (countable : s.Countable event)
    (result : State.step calls s event = some s') : s'.Regular where
  sound := regular.sound.step result
  counted := regular.counted.step regular.sound countable result
  slots := regular.slots.step regular.sound result
  armed := (step_touches regular.sound result).armed regular.armed
  unblocked := regular.sound.unblocked_step result

theorem init_regular (small : SmallInt) : (init small).Regular where
  sound := sound_init small
  counted := init_counted small
  slots := init_slots small
  armed irq pending := by simp [init] at pending
  unblocked _ := rfl

theorem Nest.held {start : State} (regular : start.Regular)
    (others : (start.mutex m).master ≠ some t) (user : start.context t = .user)
    (nest : Nest t m start n s) : s.Regular ∧ Held t m s n := by
  induction nest with
  | start => exact ⟨regular, .free others (by simp [user])⟩
  | @acquire k x x' event nest respects step acquired ih =>
    obtain ⟨regular, held⟩ := ih
    obtain ⟨calls, result⟩ := step
    obtain rfl := acquired.1
    have fresh : ¬Unlocks x.taskCurrent m x event := by
      rintro ⟨-, answer, rfl⟩
      exact acquired.2
    exact ⟨regular.step respects.countable result,
      (step_counts regular.sound held respects result fresh).1 acquired⟩
  | unlock nest respects step unlocks ih =>
    obtain ⟨regular, held⟩ := ih
    obtain ⟨calls, result⟩ := step
    obtain ⟨rfl, answer, rfl⟩ := unlocks
    refine ⟨regular.step respects.countable result, ?_⟩
    simp only [State.step, State.call] at result
    split at result
    · rename_i here
      split at result
      · exact held.unlock regular.counted here result
      · contradiction
    · contradiction
  | @other k x x' event nest respects step keeps keeps' ih =>
    obtain ⟨regular, held⟩ := ih
    obtain ⟨calls, result⟩ := step
    refine ⟨regular.step respects.countable result, ?_⟩
    obtain rfl | foreign := eq_or_ne t x.taskCurrent
    · exact (step_counts regular.sound held respects result keeps').2 keeps
    · exact held.foreign respects foreign (step_touches regular.sound result)

theorem lockLoop_succeeds (counted : s.Counted) (sound : s.Sound)
    (unblocked : (s.task s.taskCurrent).lock = none) (m : MutexId) (again : Context)
    (finish : State → State) : ∃ s', s.lockLoop m again finish = some s' := by
  simp only [lockLoop]
  split
  · rename_i owner owned
    split
    · exact ⟨_, rfl⟩
    · have deep := counted.taken m (by simp [owned])
      have free : ¬((s.task s.taskCurrent).lock.isSome = true ∨ (s.mutex m).deep ≤ 0) := by
        simp only [unblocked, Option.isSome_none, not_or, not_le]
        exact ⟨Bool.false_ne_true, deep⟩
      rw [block, if_neg free]
      exact ⟨_, rfl⟩
  · rename_i unowned
    rw [if_neg (by simp [sound.nobody unowned, counted.free m unowned])]
    exact ⟨_, rfl⟩

theorem mutexTrylock_succeeds (counted : s.Counted) (sound : s.Sound) (m : MutexId) :
    ∃ s', s.mutexTrylock m = some s' := by
  simp only [mutexTrylock]
  split
  · split <;> exact ⟨_, rfl⟩
  · rename_i unowned
    rw [if_neg (by simp [sound.nobody unowned, counted.free m unowned])]
    exact ⟨_, rfl⟩

theorem released_slaves {released served : State} (links : s.Links)
    (release_eq : release calls s m = some released)
    (served_eq : released.servePending m answer = some served) :
    served.slaves m = s.slaves m ∧
      ∀ u ∈ s.slaves m, (served.task u).wait = (s.task u).wait ∧
        (served.task u).lock = (s.task u).lock := by
  have links' := links.release release_eq
  have woken := (servePending_activated links' served_eq).toWoken
  obtain ⟨owner, middle, -, ⟨_, _, _, rfl, -⟩, rfl⟩ := State.release_eq release_eq
  refine ⟨woken.slaves m, fun u member => ⟨?_, woken.lock u⟩⟩
  rcases woken.stirred u with ⟨-, same, -⟩ | ⟨active, -⟩
  · exact same
  · have placed := (woken.mem_slaves u m).mpr (s.queues.mem_nodes.mp member)
    simp [active] at placed

theorem wrap_last (deep : (s.mutex m).deep = 1) :
    s.small.wrap ((s.mutex m).deep - 1) = 0 := by
  have positive := s.small.max_pos
  rw [deep]
  exact SmallInt.wrap_eq (by omega) (by omega)

theorem mutexUnlock_last (regular : s.Regular) (owned : (s.mutex m).master = some s.taskCurrent)
    (deep : (s.mutex m).deep = 1) (unblocked : (s.task s.taskCurrent).lock = none)
    (answer : Answer) (again : Context) :
    (∃ calls s', mutexUnlock calls s m answer again = some s') ↔
      ∀ u ∈ s.slaves m, (s.task u).wait = none := by
  have emptied := wrap_last deep
  set shallower := s.setMutex m { s.mutex m with
    deep := s.small.wrap ((s.mutex m).deep - 1) } with shallower_eq
  have links : shallower.Links := regular.sound.links.setMutex rfl
  constructor
  · rintro ⟨calls, s', result⟩ u member
    rcases mutexUnlock_cases result with
      ⟨positive, -⟩ | ⟨-, released, served, woken, release_eq, served_eq, woken_eq, -⟩
    · omega
    · obtain ⟨slaves, same⟩ := released_slaves links release_eq served_eq
      obtain ⟨ready, ready_eq, -⟩ := wakeSlaves_eq woken_eq
      have awake := (readySlaves_eq ready_eq).2 u (slaves ▸ member)
      exact (same u member).1.symm.trans awake
  · intro awake
    have owned' : (shallower.mutex m).master = some s.taskCurrent := by
      simpa [shallower, setMutex] using owned
    obtain ⟨released, release_eq⟩ := release_succeeds owned' unblocked
    have alert : released.Alert := by
      obtain ⟨owner, middle, -, repriced, rfl⟩ := State.release_eq release_eq
      have alert' := regular.sound.alert regular.slots
      have unlinked : ({ shallower with owned := shallower.owned.unlink m } : State).Alert :=
        alert'.congr (fun _ => rfl) (fun _ => rfl) rfl rfl rfl rfl
      exact (repriced.alert unlinked).congr (fun _ => rfl) (fun _ => rfl) rfl rfl rfl rfl
    have armed : released.Armed := by
      have lowered : Touches s.taskCurrent (· = m) s shallower := touches_setMutex rfl (.inl rfl)
      exact (lowered.trans (release_touches rfl release_eq)).armed regular.armed
    obtain ⟨served, served_eq, -⟩ := servePending_succeeds alert armed m answer
    obtain ⟨slaves, same⟩ := released_slaves links release_eq served_eq
    have blocked : ∀ u ∈ served.slaves m, (served.task u).lock = some m := fun u member => by
      rw [(same u (slaves ▸ member)).2]
      exact regular.sound.links.mem_slaves.mp (slaves ▸ member)
    obtain ⟨ready, ready_eq⟩ := readySlaves_succeeds blocked fun u member => by
      rw [(same u (slaves ▸ member)).1]
      exact awake u (slaves ▸ member)
    have woken : ∃ woken, served.wakeSlaves m = some woken := by
      simp only [wakeSlaves, ready_eq]
      split <;> exact ⟨_, rfl⟩
    obtain ⟨woken, woken_eq⟩ := woken
    have busy : ¬(s.mutex m).master.isNone = true := by simp [owned]
    refine ⟨1, (woken.continueAt again).scheduleIfNeeded, ?_⟩
    simp only [mutexUnlock, if_neg busy]
    rw [if_neg (by simp [setMutex, emptied]), ← shallower_eq]
    simp [release_eq, served_eq, woken_eq]

theorem mutexUnlock_wakes (links : s.Links) (deep : (s.mutex m).deep = 1)
    (result : mutexUnlock calls s m answer again = some s') :
    (s'.mutex m).master = none ∧ s'.slaves m = [] ∧
      ∀ u ∈ s.slaves m, (s'.task u).lock = none ∧ u ∈ s'.active := by
  have emptied := wrap_last deep
  rcases mutexUnlock_cases result with
    ⟨positive, -⟩ | ⟨-, released, served, woken, release_eq, served_eq, woken_eq, rfl⟩
  · omega
  set shallower := s.setMutex m { s.mutex m with
    deep := s.small.wrap ((s.mutex m).deep - 1) } with shallower_eq
  have links' : shallower.Links := links.setMutex rfl
  obtain ⟨slaves, -⟩ := released_slaves links' release_eq served_eq
  have inert := (servePending_inert served_eq).trans (wakeSlaves_inert woken_eq)
  have gone := release_master release_eq m
  rw [if_pos rfl, ← inert.master] at gone
  obtain ⟨ready, ready_eq, after⟩ := wakeSlaves_eq woken_eq
  obtain ⟨ready_is, -⟩ := readySlaves_eq ready_eq
  have task : woken.task = ready.task := by rcases after with rfl | ⟨-, rfl⟩ <;> rfl
  have queues : woken.queues = ready.queues := by rcases after with rfl | ⟨-, rfl⟩ <;> rfl
  obtain ⟨mutexes, tasks, lists, -⟩ := scheduleIfNeeded_same (woken.continueAt again)
  rw [mutexes, tasks, State.slaves, State.active, lists]
  change (woken.mutex m).master = none ∧ woken.queues.nodes (.slaves m) = [] ∧
    ∀ u ∈ s.slaves m, (woken.task u).lock = none ∧ u ∈ woken.queues.nodes .active
  rw [queues, task, ready_is]
  refine ⟨gone, ?_, fun u member => ?_⟩
  · exact LinkedLists.nodes_appendAll_self _ (by simp)
  · have member' : u ∈ served.slaves m := slaves ▸ member
    refine ⟨by simp [readied, member'], ?_⟩
    simp [readied, LinkedLists.mem_nodes, LinkedLists.place_appendAll, member']

/-- Which calls of a task that has to release a lock `n` times fail no assertion. -/
structure Accepts (m : MutexId) (n : Nat) (s : State) : Prop where
  lock : ∀ answer, (∃ s', Step s (.call (.mutexLock m) answer) s') ↔ n = 0
  trylock : ∀ answer, ∃ s', Step s (.call (.mutexTrylock m) answer) s'
  lockIrq :
    ∀ irq handler arg answer, ∃ s', Step s (.call (.mutexLockIrq m irq handler arg) answer) s'
  unlock : ∀ answer, 0 < n → ((∃ s', Step s (.call (.mutexUnlock m) answer) s') ↔
    (n = 1 → ∀ u ∈ s.slaves m, (s.task u).wait = none))

/-- What an unlock does when a lock has to be released `n` times. -/
structure Releases (t : TaskId) (m : MutexId) (n : Nat) (s s' : State) : Prop where
  inner : 1 < n → (s'.mutex m).master = some t ∧ s'.queues = s.queues ∧ s'.task = s.task
  last : n = 1 → (s'.mutex m).master = none ∧ s'.slaves m = [] ∧
    ∀ u ∈ s.slaves m, (s'.task u).lock = none ∧ u ∈ s'.active

theorem step_call {c : Call} (user : s.context s.taskCurrent = .user) :
    (∃ s', Step s (.call c answer) s') ↔ ∃ calls s', State.call calls s c answer = some s' := by
  constructor
  · rintro ⟨s', calls, result⟩
    rw [State.step, if_pos user] at result
    exact ⟨calls, s', result⟩
  · rintro ⟨calls, s', result⟩
    exact ⟨s', calls, by rw [State.step, if_pos user]; exact result⟩

theorem Held.user (held : Held t m s n) (user : s.context t = .user) :
    n = 0 ∧ (s.mutex m).master ≠ some t ∨
      0 < n ∧ (s.mutex m).master = some t ∧ (s.mutex m).deep = n := by
  cases held with
  | free others => exact .inl ⟨rfl, others⟩
  | waits saved => simp [user] at saved
  | @owner k owned deep => exact .inr ⟨k.succ_pos, owned, by omega⟩

theorem Regular.user (regular : s.Regular) (user : s.context s.taskCurrent = .user) :
    (s.task s.taskCurrent).lock = none := by
  rcases blocked : (s.task s.taskCurrent).lock with _ | k
  · rfl
  · have contends := (regular.sound.links.task s.taskCurrent).contends k blocked
    simp [user, Context.ContendsFor] at contends

theorem Regular.accepts (regular : s.Regular) (held : Held s.taskCurrent m s n)
    (user : s.context s.taskCurrent = .user) (known : s.knows m = true) : Accepts m n s := by
  have unblocked := regular.user user
  constructor
  case lock =>
    intro answer
    rw [step_call user]
    simp only [State.call, admits, known, if_true, mutexLock]
    rcases held.user user with ⟨free, others⟩ | ⟨taken, owned, -⟩
    · obtain ⟨s', result⟩ := lockLoop_succeeds regular.counted regular.sound unblocked m (.lock m)
        (·.continueAt (.ret 0))
      exact ⟨fun _ => free, fun _ => ⟨0, s', by rw [if_neg others]; exact result⟩⟩
    · refine ⟨?_, fun none => by omega⟩
      rintro ⟨calls, s', result⟩
      simp [owned] at result
  case trylock =>
    intro answer
    rw [step_call user]
    simp only [State.call, admits, known, if_true]
    exact ⟨0, mutexTrylock_succeeds regular.counted regular.sound m⟩
  case lockIrq =>
    intro irq handler arg answer
    rw [step_call user]
    simp only [State.call, admits, known, if_true]
    exact ⟨0, lockLoop_succeeds regular.counted regular.sound unblocked m _ _⟩
  case unlock =>
    intro answer positive
    rw [step_call user]
    simp only [State.call, admits, known, if_true]
    rcases held.user user with ⟨free, -⟩ | ⟨-, owned, deep⟩
    · omega
    obtain rfl | inner := eq_or_ne n 1
    · rw [mutexUnlock_last regular owned deep unblocked answer (.ret 0)]
      simp
    · refine ⟨fun _ last => absurd last inner, fun _ => ?_⟩
      have bound := regular.counted.bounded m
      have busy : ¬(s.mutex m).master.isNone = true := by simp [owned]
      have shallower : 0 < s.small.wrap ((s.mutex m).deep - 1) := by
        rw [SmallInt.wrap_eq (by omega) (by omega)]
        omega
      refine ⟨0, (s.setMutex m { s.mutex m with
        deep := s.small.wrap ((s.mutex m).deep - 1) }).continueAt (.ret 0), ?_⟩
      rw [mutexUnlock, if_neg busy]
      exact if_pos (by simpa [setMutex] using shallower)

theorem Regular.resumes (regular : s.Regular) (busy : s.taskCurrent ≠ taskIdle)
    (here : s.context s.taskCurrent = .lock m ∨
      ∃ irq handler arg, s.context s.taskCurrent = .lockIrq m irq handler arg) (answer : Answer) :
    ∃ s', Step s (.resume answer) s' := by
  have unblocked := regular.unblocked busy
  rcases here with here | ⟨irq, handler, arg, here⟩
  · obtain ⟨s', result⟩ := lockLoop_succeeds regular.counted regular.sound unblocked m (.lock m)
      (·.continueAt (.ret 0))
    exact ⟨s', 0, by simp only [State.step, State.resume, here]; exact result⟩
  · obtain ⟨s', result⟩ := lockLoop_succeeds regular.counted regular.sound unblocked m
      (.lockIrq m irq handler arg)
      fun s => (s.attach m irq handler arg).continueAt (.ret 0)
    exact ⟨s', 0, by simp only [State.step, State.resume, here]; exact result⟩

theorem Regular.releases (regular : s.Regular) (held : Held s.taskCurrent m s n)
    (step : Step s (.call (.mutexUnlock m) answer) s') :
    Releases s.taskCurrent m n s s' := by
  obtain ⟨calls, result⟩ := step
  have user : s.context s.taskCurrent = .user := by
    rcases em (s.context s.taskCurrent = .user) with user | other
    · exact user
    · simp [State.step, other] at result
  simp only [State.step, if_pos user, State.call] at result
  split at result
  swap
  · contradiction
  constructor
  · intro inner
    obtain ⟨k, rfl⟩ : ∃ k, n = k + 2 := ⟨n - 2, by omega⟩
    rcases held.user user with ⟨free, -⟩ | ⟨-, owned, deep⟩
    · omega
    · rw [mutexUnlock_deeper regular.counted (by simpa using deep) result]
      exact ⟨by simpa [continueAt, setContext, setMutex] using owned, rfl, rfl⟩
  · rintro rfl
    rcases held.user user with ⟨free, -⟩ | ⟨-, owned, deep⟩
    · omega
    · exact mutexUnlock_wakes regular.sound.links (by simpa using deep) result

end State

/-- Nested acquisitions balance as long as no counter overflows.  The task owns the lock, at the
depth it has still to release it, or has saved that depth while it waits for a signal.  In its own
code every further acquisition succeeds, except that `mutex_lock` does only when the task does not
own the lock; an unlock succeeds unless it is the last one and a blocked task also waits for a
signal; and only the last unlock frees the lock and makes the blocked tasks ready. -/
theorem nest_balances {small : SmallInt} {t : TaskId} {m : MutexId} {n : Nat} {start s : State}
    (boot : RunIf State.Countable (.init small) start)
    (others : (start.mutex m).master ≠ some t) (user : start.context t = .user)
    (nest : State.Nest t m start n s) :
    State.Held t m s n ∧
      (s.taskCurrent = t → s.context t = .user → s.knows m = true → State.Accepts m n s) ∧
      (s.taskCurrent = t → t ≠ taskIdle → (s.context t = .lock m ∨
        ∃ irq handler arg, s.context t = .lockIrq m irq handler arg) →
          ∀ answer, ∃ s', Step s (.resume answer) s') ∧
      ∀ answer s', s.taskCurrent = t → Step s (.call (.mutexUnlock m) answer) s' →
        State.Releases t m n s s' := by
  have begins : start.Regular :=
    run_invariant State.Regular
      (fun regular ⟨_, countable, _, result⟩ => State.Regular.step regular countable result)
      (State.init_regular small) boot
  obtain ⟨regular, held⟩ := nest.held begins others user
  refine ⟨held, ?_, ?_, ?_⟩
  · rintro rfl user known
    exact regular.accepts held user known
  · rintro rfl busy here answer
    exact regular.resumes busy here answer
  · rintro answer s' rfl step
    exact regular.releases held step

namespace State

/-- The idle task called `mutex_trylock`. -/
def tried : State :=
  (init .int32).after 1 [.call (.mutexTrylock (.lock 0)) {}]

/-- The idle task runs with a lock it got by `mutex_trylock`. -/
def lockTried : State :=
  (init .int32).after 1 [.call (.mutexTrylock (.lock 0)) {}, .resume {}]

theorem lockTried_nest : Nest 0 (.lock 0) (init .int32) 1 lockTried := by
  have first : Step (init .int32) (.call (.mutexTrylock (.lock 0)) {}) tried := ⟨1, rfl⟩
  have second : Step tried (.resume {}) lockTried := ⟨1, rfl⟩
  have taken : Nest 0 (.lock 0) (init .int32) 1 tried := by
    refine .acquire .start ⟨fun k _ owned => ?_, ?_, ?_, ?_⟩ first ⟨rfl, rfl, rfl⟩
    · simp [init] at owned
    all_goals simp [init]
  have here : tried.context tried.taskCurrent = .ret 1 := rfl
  refine .other taken ⟨fun k takes => ?_, ?_, ?_, ?_⟩ second ?_ ?_
  · simp [Takes, wanted, here] at takes
  · simp
  · simp
  · simp [here]
  · rintro ⟨-, blocked, -⟩
    have user : tried.context 0 = .ret 1 := rfl
    simp [user] at blocked
  · simp [Unlocks]

end State

/-- The idle task got a free lock and runs on. -/
theorem nest_balances_tried :
    State.Held 0 (.lock 0) State.lockTried 1 ∧ State.Accepts (.lock 0) 1 State.lockTried := by
  obtain ⟨held, accepts, -⟩ := nest_balances .refl (by simp [State.init]) rfl State.lockTried_nest
  exact ⟨held, accepts rfl rfl rfl⟩

/-- A task that owns a lock fails an assertion when it gets the lock again by `mutex_lock`. -/
theorem mutexLock_nested_halts :
    ¬∀ small t m n s, State.Nest t m (.init small) n s → s.taskCurrent = t →
      s.context t = .user → ∃ s', Step s (.call (.mutexLock m) {}) s' := by
  intro claim
  obtain ⟨s', calls, result⟩ := claim .int32 0 (.lock 0) 1 _ State.lockTried_nest rfl rfl
  have halts : State.step calls State.lockTried (.call (.mutexLock (.lock 0)) {}) = none := rfl
  rw [halts] at result
  contradiction

end Uos
