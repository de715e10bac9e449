import Uos.Kernel.Ownership

/-!
# Which locks a transition touches

Most kernel code keeps the owners and the depths of all locks, and every transition keeps those of
all locks but one.  `Inert` is the first statement for the pieces of a transition, `Touches` the
second one for whole transitions.
-/

namespace Uos

open Option

namespace State

/-- An interrupt is pending only while it has a fast handler. -/
def Armed (s : State) : Prop :=
  ∀ irq, (s.mutexIrq irq).pending = true → (s.mutexIrq irq).handler.isSome = true

/-- A piece of kernel code keeps the owners and the depths of all locks. -/
structure Inert (s s' : State) : Prop where
  taskCurrent : s'.taskCurrent = s.taskCurrent
  context : s'.context = s.context
  master : ∀ m, (s'.mutex m).master = (s.mutex m).master
  deep : ∀ m, (s'.mutex m).deep = (s.mutex m).deep
  armed : s.Armed → s'.Armed

theorem Inert.refl (s : State) : Inert s s :=
  ⟨rfl, rfl, fun _ => rfl, fun _ => rfl, id⟩

theorem Inert.trans {s s' s'' : State} (first : Inert s s') (second : Inert s' s'') :
    Inert s s'' where
  taskCurrent := second.taskCurrent.trans first.taskCurrent
  context := second.context.trans first.context
  master m := (second.master m).trans (first.master m)
  deep m := (second.deep m).trans (first.deep m)
  armed before := second.armed (first.armed before)

section Pieces

variable {s s' : State} {m : MutexId}

theorem inert_setTask (s : State) (t : TaskId) (record : Task) : Inert s (s.setTask t record) :=
  { Inert.refl s with }

theorem inert_observe (s : State) (observation : Observation) :
    Inert s (s.observe observation) :=
  { Inert.refl s with }

theorem inert_setMutex {record : Mutex} (master : record.master = (s.mutex m).master)
    (deep : record.deep = (s.mutex m).deep) : Inert s (s.setMutex m record) where
  taskCurrent := rfl
  context := rfl
  master := setMutex_master master
  deep n := by
    obtain rfl | other := eq_or_ne n m
    · simpa [State.setMutex] using deep
    · simp [State.setMutex, other]
  armed := id

variable {irq : Irq} {answer : Answer}

theorem inert_setIrq {record : MutexIrq}
    (ready : s.Armed → record.pending = true → record.handler.isSome = true) :
    Inert s (s.setIrq irq record) where
  taskCurrent := rfl
  context := rfl
  master _ := rfl
  deep _ := rfl
  armed before other := by
    obtain rfl | different := eq_or_ne other irq
    · simpa [setIrq] using ready before
    · simpa [setIrq, different] using before other

theorem Repriced.inert (repriced : Repriced s s') : Inert s s' := by
  obtain ⟨_, _, _, rfl, -⟩ := repriced
  exact { Inert.refl s with }

theorem taskActivate_inert {t : TaskId} (result : s.taskActivate t = some s') : Inert s s' := by
  obtain ⟨-, -, rfl⟩ := taskActivate_eq result
  exact { Inert.refl s with }

theorem mutexActivate_inert {message : Message}
    (result : s.mutexActivate m message = some s') : Inert s s' := by
  simp only [mutexActivate] at result
  obtain ⟨woken, first, second⟩ := bind_eq_some_iff.mp result
  have waiters : Inert s woken := by
    refine foldlM_invariant (Inert s) (fun t _ x _ inert turn => ?_) (inert_observe s _) first
    simp only [wakeWaiter] at turn
    split at turn
    · exact (inert.trans (inert_setTask x t _)).trans (taskActivate_inert turn)
    · contradiction
  refine foldlM_invariant (Inert s) (fun slot _ x _ inert turn => ?_) waiters second
  simp only [notifySlot] at turn
  split at turn
  · set marked := x.setSlot slot _ with marked_eq
    have changed : Inert x marked := { Inert.refl x with }
    split at turn
    · obtain rfl := Option.some.inj turn
      exact inert.trans changed
    · split at turn
      · contradiction
      · have unwaited : Inert marked (marked.setGroup slot.1
            { marked.group slot.1 with waiter := none }) := { Inert.refl marked with }
        exact ((inert.trans changed).trans unwaited).trans (taskActivate_inert turn)
  · contradiction

theorem callHandler_inert (result : s.callHandler irq m answer = some s') : Inert s s' := by
  simp only [callHandler] at result
  split at result
  · contradiction
  · exact foldlM_invariant (Inert s)
      (fun _ _ _ _ inert turn => inert.trans (mutexActivate_inert turn)) (inert_observe s _) result

theorem clearPending_inert (s : State) (irq : Irq) :
    Inert s (s.setIrq irq { s.mutexIrq irq with pending := false }) :=
  inert_setIrq fun _ pending => by simp at pending

theorem servePending_inert (result : s.servePending m answer = some s') :
    Inert s s' := by
  simp only [servePending] at result
  split at result
  · cases result
    exact .refl s
  · rename_i irq _
    split at result
    · obtain ⟨middle, called, rest⟩ := bind_eq_some_iff.mp result
      have handled := (clearPending_inert s irq).trans (callHandler_inert called)
      split at rest
      · cases rest
        exact handled
      · exact handled.trans (mutexActivate_inert rest)
    · cases result
      exact .refl s

theorem readySlaves_inert (result : s.readySlaves m = some s') : Inert s s' := by
  obtain ⟨rfl, -⟩ := readySlaves_eq result
  exact { Inert.refl s with }

theorem wakeSlaves_inert (result : s.wakeSlaves m = some s') : Inert s s' := by
  obtain ⟨ready, ready_eq, rfl | ⟨-, rfl⟩⟩ := wakeSlaves_eq result
  · exact (readySlaves_inert ready_eq).trans (inert_setMutex rfl rfl)
  · exact readySlaves_inert ready_eq

theorem attach_inert (s : State) (m : MutexId) (irq : Irq) (handler : Option Nat) (arg : Nat) :
    Inert s (s.attach m irq handler arg) := by
  have attached : Inert s (s.setMutex m { s.mutex m with irq := some irq }) :=
    inert_setMutex rfl rfl
  exact attached.trans (inert_setIrq fun _ pending => absurd pending Bool.false_ne_true)

theorem detach_inert (s : State) (m : MutexId) : Inert s (s.detach m) := by
  simp only [detach]
  split
  · exact .refl s
  · rename_i irq _
    have freed : Inert s (s.setIrq irq { s.mutexIrq irq with lock := none }) :=
      inert_setIrq fun armed => armed irq
    refine freed.trans ?_
    apply inert_setMutex <;> rfl

theorem serveIrq_inert (result : s.serveIrq irq answer = some s') : Inert s s' := by
  simp only [serveIrq] at result
  split at result
  · cases result
    exact .refl s
  · rename_i n _
    split at result
    · rename_i handled
      have arrived := inert_observe s (.arrived irq (s.mutex n).master)
      split at result
      · cases result
        exact arrived.trans (inert_setIrq fun _ _ => handled)
      · obtain ⟨middle, called, rest⟩ := bind_eq_some_iff.mp result
        have answered := arrived.trans (callHandler_inert called)
        split at rest
        · cases rest
          exact answered
        · exact answered.trans (mutexActivate_inert rest)
    · exact mutexActivate_inert result

end Pieces

/-- Code that task `u` executes changes the owners and the depths of certain locks only, takes a
lock for `u` only, and sends only `u` back to take such a lock again. -/
structure Touches (u : TaskId) (only : MutexId → Prop) (s s' : State) : Prop where
  holding : ∀ m, ¬only m →
    (s'.mutex m).master = (s.mutex m).master ∧ (s'.mutex m).deep = (s.mutex m).deep
  master : ∀ m, (s'.mutex m).master = (s.mutex m).master ∨ (s'.mutex m).master = none ∨
    (s'.mutex m).master = some u
  relocks : ∀ t m deep, t ≠ u ∨ ¬only m →
    (s'.context t = .relock m deep ↔ s.context t = .relock m deep)
  armed : s.Armed → s'.Armed

section Transitions

variable {s s' s'' : State} {u : TaskId} {only : MutexId → Prop} {m : MutexId}

theorem Inert.touches (inert : Inert s s') : Touches u only s s' where
  holding m _ := ⟨inert.master m, inert.deep m⟩
  master m := .inl (inert.master m)
  relocks t m deep _ := by rw [inert.context]
  armed := inert.armed

theorem Touches.trans (first : Touches u only s s') (second : Touches u only s' s'') :
    Touches u only s s'' where
  holding m other := ⟨(second.holding m other).1.trans (first.holding m other).1,
    (second.holding m other).2.trans (first.holding m other).2⟩
  master m := by
    rcases second.master m with same | changed
    · rw [same]
      exact first.master m
    · exact .inr changed
  relocks t m deep apart := (second.relocks t m deep apart).trans (first.relocks t m deep apart)
  armed before := second.armed (first.armed before)

theorem Touches.schedule (touches : Touches u only s s') : Touches u only s s'.taskSchedule :=
  { touches with }

theorem Touches.scheduleIfNeeded (touches : Touches u only s s') :
    Touches u only s s'.scheduleIfNeeded := by
  rw [State.scheduleIfNeeded]
  split
  · exact touches.schedule
  · exact touches

theorem touches_setMutex {record : Mutex} (touched : only m)
    (master : record.master = (s.mutex m).master ∨ record.master = none ∨
      record.master = some u) : Touches u only s (s.setMutex m record) where
  holding n other := by
    have different : n ≠ m := fun same => other (same ▸ touched)
    simp [State.setMutex, different]
  master n := by
    obtain rfl | different := eq_or_ne n m
    · simpa [State.setMutex] using master
    · simp [State.setMutex, different]
  relocks _ _ _ _ := .rfl
  armed := id

theorem Touches.continueAt (touches : Touches u only s s') (current : s'.taskCurrent = u)
    {context : Context} (agrees : ∀ n deep, ¬only n →
      (context = .relock n deep ↔ s.context u = .relock n deep)) :
    Touches u only s (s'.continueAt context) where
  holding := touches.holding
  master := touches.master
  relocks t n deep apart := by
    obtain rfl | other := eq_or_ne t u
    · have here : (s'.continueAt context).context t = context := by
        simp [State.continueAt, setContext, current]
      rw [here]
      exact agrees n deep (apart.resolve_left fun different => different rfl)
    · have there : (s'.continueAt context).context t = s'.context t := by
        simp [State.continueAt, setContext, current, other]
      rw [there]
      exact touches.relocks t n deep (.inl other)
  armed := touches.armed

theorem Touches.leave (touches : Touches u only s s') (current : s'.taskCurrent = u)
    (fresh : ∀ n deep, s.context u ≠ .relock n deep) {context : Context} (plain : context.Plain) :
    Touches u only s (s'.continueAt context) :=
  touches.continueAt current fun n deep _ =>
    ⟨fun same => absurd same (plain.not_relock n deep), fun same => absurd same (fresh n deep)⟩

theorem acquire_touches (s : State) (touched : only m) :
    Touches s.taskCurrent only s (s.acquire m) := by
  have owned : Touches s.taskCurrent only s
      { s.setMutex m { s.mutex m with master := some s.taskCurrent } with
        owned := s.owned.append s.taskCurrent m } :=
    { touches_setMutex touched (.inr (.inr rfl)) with }
  exact owned.trans (acquire_repriced s m).inert.touches

theorem deepen_touches (s : State) (touched : only m) : Touches u only s (s.deepen m) :=
  touches_setMutex touched (.inl rfl)

variable {again : Context} {calls : Nat} {answer : Answer} {message : Message} {t : TaskId}
  {g : GroupId}

theorem block_touches {owner : TaskId} (agrees : ∀ n deep, ¬only n →
      (again = .relock n deep ↔ s.context s.taskCurrent = .relock n deep))
    (result : s.block m owner again = some s') : Touches s.taskCurrent only s s' := by
  obtain ⟨-, middle, repriced, rfl⟩ := block_eq result
  have listed : Inert s { s.setTask s.taskCurrent { s.task s.taskCurrent with lock := some m } with
      queues := s.queues.append (.slaves m) s.taskCurrent } := { Inert.refl s with }
  exact ((listed.touches.continueAt rfl agrees).trans repriced.inert.touches).schedule

theorem lockLoop_cases {finish : State → State} (result : s.lockLoop m again finish = some s') :
    (∃ owner, (s.mutex m).master = some owner ∧ owner ≠ s.taskCurrent ∧
        s.block m owner again = some s') ∨
      (s.mutex m).master = some s.taskCurrent ∧ s' = finish (s.deepen m) ∨
      (s.mutex m).master = none ∧ (s.mutex m).deep = 0 ∧
        s' = finish ((s.acquire m).deepen m) := by
  simp only [lockLoop] at result
  split at result
  · rename_i owner owned
    split at result
    · rename_i same
      exact .inr (.inl ⟨same ▸ owned, (Option.some.inj result).symm⟩)
    · rename_i other
      exact .inl ⟨owner, owned, other, result⟩
  · rename_i unowned
    split at result
    · contradiction
    · rename_i free
      simp only [ne_eq, not_or, not_not] at free
      exact .inr (.inr ⟨unowned, free.2, (Option.some.inj result).symm⟩)

/-- A lock that the current task can get at once. -/
def Open (s : State) (m : MutexId) : Prop :=
  (s.mutex m).master = none ∨ (s.mutex m).master = some s.taskCurrent

theorem lockLoop_touches {finish : State → State}
    (finished : ∀ x, ∃ y, Inert x y ∧ finish x = y.continueAt (.ret 0))
    (fresh : ∀ n deep, s.context s.taskCurrent ≠ .relock n deep) (plain : again.Plain)
    (result : s.lockLoop m again finish = some s') :
    Touches s.taskCurrent (fun n => n = m ∧ s.Open m) s s' := by
  rcases lockLoop_cases result with ⟨owner, -, -, blocked⟩ | ⟨owned, rfl⟩ | ⟨unowned, -, rfl⟩
  · exact block_touches (fun n deep _ => ⟨fun same => absurd same (plain.not_relock n deep),
      fun same => absurd same (fresh n deep)⟩) blocked
  · have touched : m = m ∧ s.Open m := ⟨rfl, .inr owned⟩
    have deeper : Touches s.taskCurrent (fun n => n = m ∧ s.Open m) s (s.deepen m) :=
      deepen_touches s touched
    obtain ⟨y, inert, finish_eq⟩ := finished (s.deepen m)
    rw [finish_eq]
    exact (deeper.trans inert.touches).leave inert.taskCurrent fresh (by trivial)
  · have touched : m = m ∧ s.Open m := ⟨rfl, .inl unowned⟩
    have taken : Touches s.taskCurrent (fun n => n = m ∧ s.Open m) s ((s.acquire m).deepen m) :=
      (acquire_touches s touched).trans (deepen_touches _ touched)
    obtain ⟨y, inert, finish_eq⟩ := finished ((s.acquire m).deepen m)
    rw [finish_eq]
    exact (taken.trans inert.touches).leave (inert.taskCurrent.trans (acquire_taskCurrent s m))
      fresh (by trivial)

theorem mutexTrylock_touches (fresh : ∀ n deep, s.context s.taskCurrent ≠ .relock n deep)
    (result : s.mutexTrylock m = some s') :
    Touches s.taskCurrent (fun n => n = m ∧ s.Open m) s s' := by
  simp only [mutexTrylock] at result
  split at result
  · rename_i owner owned
    split at result
    · rename_i same
      cases result
      exact Touches.leave (deepen_touches s ⟨rfl, .inr (same ▸ owned)⟩) rfl fresh (by trivial)
    · cases result
      exact (Inert.refl s).touches.leave rfl fresh (by trivial)
  · rename_i unowned
    split at result
    · contradiction
    · cases result
      have touched : m = m ∧ s.Open m := ⟨rfl, .inl unowned⟩
      have taken : Touches s.taskCurrent (fun n => n = m ∧ s.Open m) s
          ((s.acquire m).deepen m) :=
        (acquire_touches s touched).trans (deepen_touches _ touched)
      exact taken.leave (acquire_taskCurrent s m) fresh (by trivial)

theorem release_touches (touched : only m) (result : release calls s m = some s') :
    Touches u only s s' := by
  obtain ⟨owner, middle, -, repriced, rfl⟩ := release_eq result
  have unlinked : Inert s { s with owned := s.owned.unlink m } := { Inert.refl s with }
  exact (unlinked.trans repriced.inert).touches.trans
    (touches_setMutex touched (.inr (.inl rfl)))

theorem release_taskCurrent (result : release calls s m = some s') :
    s'.taskCurrent = s.taskCurrent := by
  obtain ⟨owner, middle, -, repriced, rfl⟩ := release_eq result
  exact repriced.inert.taskCurrent

/-- The two ways through `mutex_unlock`. -/
theorem mutexUnlock_cases (result : mutexUnlock calls s m answer again = some s') :
    0 < s.small.wrap ((s.mutex m).deep - 1) ∧
        s' = (s.setMutex m { s.mutex m with
          deep := s.small.wrap ((s.mutex m).deep - 1) }).continueAt again ∨
      s.small.wrap ((s.mutex m).deep - 1) ≤ 0 ∧ ∃ released served woken,
        release calls (s.setMutex m { s.mutex m with
          deep := s.small.wrap ((s.mutex m).deep - 1) }) m = some released ∧
        released.servePending m answer = some served ∧ served.wakeSlaves m = some woken ∧
        s' = (woken.continueAt again).scheduleIfNeeded := by
  simp only [mutexUnlock] at result
  split at result
  · contradiction
  · simp only [setMutex, Function.update_self] at result
    split at result
    · rename_i positive
      exact .inl ⟨positive, (Option.some.inj result).symm⟩
    · rename_i last
      obtain ⟨released, release_eq, result⟩ := bind_eq_some_iff.mp result
      obtain ⟨served, served_eq, result⟩ := bind_eq_some_iff.mp result
      obtain ⟨woken, woken_eq, result⟩ := bind_eq_some_iff.mp result
      exact .inr ⟨not_lt.mp last, released, served, woken, release_eq, served_eq, woken_eq,
        (Option.some.inj result).symm⟩

theorem mutexUnlock_touches (touched : only m)
    (fresh : ∀ n deep, s.context s.taskCurrent ≠ .relock n deep)
    (free : ∀ n deep, again ≠ .relock n deep)
    (result : mutexUnlock calls s m answer again = some s') :
    Touches s.taskCurrent only s s' := by
  have agrees : ∀ n deep, ¬only n →
      (again = .relock n deep ↔ s.context s.taskCurrent = .relock n deep) := fun n deep _ =>
    ⟨fun same => absurd same (free n deep), fun same => absurd same (fresh n deep)⟩
  set shallower := s.setMutex m { s.mutex m with
    deep := s.small.wrap ((s.mutex m).deep - 1) } with shallower_eq
  have lowered : Touches s.taskCurrent only s shallower := touches_setMutex touched (.inl rfl)
  rcases mutexUnlock_cases result with
    ⟨-, rfl⟩ | ⟨-, released, served, woken, release_eq, served_eq, woken_eq, rfl⟩
  · exact lowered.continueAt rfl agrees
  · have inert := (servePending_inert served_eq).trans (wakeSlaves_inert woken_eq)
    have kept : released.taskCurrent = shallower.taskCurrent := release_taskCurrent release_eq
    have current : woken.taskCurrent = s.taskCurrent := inert.taskCurrent.trans kept
    have freed := lowered.trans (release_touches touched release_eq)
    exact ((freed.trans inert.touches).continueAt current agrees).scheduleIfNeeded

theorem mutexUnlockIrq_touches (touched : only m)
    (fresh : ∀ n deep, s.context s.taskCurrent ≠ .relock n deep)
    (result : mutexUnlockIrq calls s m answer = some s') : Touches s.taskCurrent only s s' := by
  simp only [mutexUnlockIrq] at result
  split at result
  · contradiction
  · set shallower := s.setMutex m { s.mutex m with
      deep := s.small.wrap ((s.mutex m).deep - 1) } with shallower_eq
    have lowered : Touches s.taskCurrent only s shallower := touches_setMutex touched (.inl rfl)
    split at result
    · cases result
      exact lowered.leave rfl fresh (by trivial)
    · obtain ⟨released, release_eq, result⟩ := bind_eq_some_iff.mp result
      obtain ⟨served, served_eq, result⟩ := bind_eq_some_iff.mp result
      obtain ⟨woken, woken_eq, result⟩ := bind_eq_some_iff.mp result
      cases result
      have inert := ((servePending_inert served_eq).trans (detach_inert served m)).trans
        (wakeSlaves_inert woken_eq)
      have kept : released.taskCurrent = shallower.taskCurrent := release_taskCurrent release_eq
      have current : woken.taskCurrent = s.taskCurrent := inert.taskCurrent.trans kept
      have freed := lowered.trans (release_touches touched release_eq)
      exact ((freed.trans inert.touches).leave current fresh (by trivial)).scheduleIfNeeded

theorem mutexSignal_touches {start : State} (inert : Inert s start)
    (fresh : ∀ n deep, s.context s.taskCurrent ≠ .relock n deep) (plain : again.Plain)
    (result : start.mutexSignal m message again = some s') :
    Touches s.taskCurrent only s s' := by
  have observed := inert.trans (inert_observe start (.signalled m message))
  simp only [mutexSignal] at result
  split at result
  · obtain ⟨middle, activated, last⟩ := bind_eq_some_iff.mp result
    cases last
    have woken := observed.trans (mutexActivate_inert activated)
    exact (woken.touches.leave woken.taskCurrent fresh plain).scheduleIfNeeded
  · cases result
    exact observed.touches.leave observed.taskCurrent fresh plain

/-- The lock that the current task gives up when it waits for a signal. -/
def Owns (s : State) (m : MutexId) : Prop :=
  (s.mutex m).master = some s.taskCurrent

theorem asleep_inert (s : State) (m : MutexId) : Inert s (s.asleep m) :=
  { Inert.refl s with }

theorem sleep_cases (result : sleep calls s m = some s') :
    (s.mutex m).master ≠ some s.taskCurrent ∧
        s' = ((s.asleep m).continueAt .waitMessage).taskSchedule ∨
      (s.mutex m).master = some s.taskCurrent ∧ ∃ released ready,
        release calls ((s.asleep m).setMutex m { s.mutex m with deep := 0 }) m = some released ∧
        released.readySlaves m = some ready ∧
        s' = ((ready.setMutex m { ready.mutex m with prio := 0 }).continueAt
          (.relock m (s.mutex m).deep)).taskSchedule := by
  simp only [sleep] at result
  change (if (s.mutex m).master ≠ some s.taskCurrent then
      some ((s.asleep m).continueAt .waitMessage).taskSchedule else _) = some s' at result
  split at result
  · rename_i others
    exact .inl ⟨others, (Option.some.inj result).symm⟩
  · rename_i owned
    split at result
    · contradiction
    · obtain ⟨released, release_eq, result⟩ := bind_eq_some_iff.mp result
      obtain ⟨ready, ready_eq, result⟩ := bind_eq_some_iff.mp result
      exact .inr ⟨not_not.mp owned, released, ready, release_eq, ready_eq,
        (Option.some.inj result).symm⟩

theorem sleep_touches {start : State} (inert : Inert s start)
    (fresh : ∀ n deep, s.context s.taskCurrent ≠ .relock n deep)
    (result : sleep calls start m = some s') :
    Touches s.taskCurrent (fun n => n = m ∧ s.Owns m) s s' := by
  have asleep := inert.trans (asleep_inert start m)
  rcases sleep_cases result with ⟨-, rfl⟩ | ⟨owned, released, ready, release_eq, ready_eq, rfl⟩
  · exact (asleep.touches.leave asleep.taskCurrent fresh (by trivial)).schedule
  · have owns : s.Owns m := by
      rw [Owns, ← inert.taskCurrent, ← inert.master]
      exact owned
    set emptied := (start.asleep m).setMutex m { start.mutex m with deep := 0 } with emptied_eq
    have lowered : Touches s.taskCurrent (fun n => n = m ∧ s.Owns m) s emptied :=
      asleep.touches.trans (touches_setMutex ⟨rfl, owns⟩ (.inl rfl))
    have freed := lowered.trans (release_touches ⟨rfl, owns⟩ release_eq)
    have readied := readySlaves_inert ready_eq
    have reset : Inert ready (ready.setMutex m { ready.mutex m with prio := 0 }) :=
      inert_setMutex rfl rfl
    have kept : released.taskCurrent = emptied.taskCurrent := release_taskCurrent release_eq
    have current : ready.taskCurrent = s.taskCurrent :=
      (readied.taskCurrent.trans kept).trans inert.taskCurrent
    refine Touches.schedule (((freed.trans readied.touches).trans reset.touches).continueAt
      current fun n deep other => ⟨fun same => ?_, fun same => absurd same (fresh n deep)⟩)
    rw [Context.relock.injEq] at same
    exact absurd ⟨same.1.symm, owns⟩ other

theorem mutexWait_touches (fresh : ∀ n deep, s.context s.taskCurrent ≠ .relock n deep)
    (result : mutexWait calls s m answer = some s') :
    Touches s.taskCurrent (fun n => n = m ∧ s.Owns m) s s' := by
  simp only [mutexWait] at result
  split at result
  · contradiction
  · split at result
    · exact sleep_touches (.refl s) fresh result
    · rename_i irq _
      split at result
      · obtain ⟨middle, called, rest⟩ := bind_eq_some_iff.mp result
        have handled := (clearPending_inert s irq).trans (callHandler_inert called)
        split at rest
        · exact sleep_touches handled fresh rest
        · obtain ⟨after, activated, last⟩ := bind_eq_some_iff.mp rest
          cases last
          have woken := handled.trans (mutexActivate_inert activated)
          exact (woken.touches.leave woken.taskCurrent fresh (by trivial)).scheduleIfNeeded
      · exact sleep_touches (.refl s) fresh result

theorem relockLoop_touches {deep : Int} (here : s.context s.taskCurrent = .relock m deep)
    (result : s.relockLoop m deep = some s') :
    Touches s.taskCurrent (fun n => n = m ∧ s.Open m) s s' := by
  simp only [relockLoop] at result
  split at result
  · exact block_touches (fun n saved _ => by rw [here]) result
  · rename_i unowned
    split at result
    · contradiction
    · cases result
      have touched : m = m ∧ s.Open m := ⟨rfl, .inl unowned⟩
      have taken : Touches s.taskCurrent (fun n => n = m ∧ s.Open m) s
          ((s.acquire m).setMutex m { (s.acquire m).mutex m with deep := deep }) :=
        (acquire_touches s touched).trans (touches_setMutex touched (.inl rfl))
      refine taken.continueAt (acquire_taskCurrent s m) fun n saved other => ?_
      rw [here]
      refine ⟨by simp, fun same => ?_⟩
      rw [Context.relock.injEq] at same
      exact absurd ⟨same.1.symm, .inl unowned⟩ other

theorem taskDelete_touches (fresh : ∀ n deep, s.context s.taskCurrent ≠ .relock n deep)
    (result : taskDelete calls s t message = some s') : Touches s.taskCurrent only s s' := by
  obtain ⟨middle, chain, rfl⟩ := taskDelete_eq result
  have removed : Inert s (s.removed t) := { Inert.refl s with }
  have recalculated : Inert s middle := by
    rcases chain with ⟨n, -, -, chain⟩ | ⟨rfl, -⟩
    · exact removed.trans (mutexRecalculatePrio_repriced chain).inert
    · exact removed
  have released := recalculated.trans
    (inert_setTask middle t { middle.task t with lock := none, wait := none })
  refine released.touches.continueAt released.taskCurrent fun n deep _ =>
    ⟨by simp, fun same => absurd same (fresh n deep)⟩

theorem deleteLoop_touches (fresh : ∀ n deep, s.context s.taskCurrent ≠ .relock n deep)
    (result : deleteLoop calls s t message answer = some s') :
    Touches s.taskCurrent (fun n => (s.mutex n).master = some t) s s' := by
  simp only [deleteLoop] at result
  split at result
  · split at result
    · rename_i owned
      exact mutexUnlock_touches owned fresh (by simp) result
    · contradiction
  · exact mutexSignal_touches (inert_setTask s t _) fresh (by trivial) result

theorem taskCreate_touches {prio : Int} (links : s.Links) (unborn : s.life t = .unborn)
    (fresh : ∀ n deep, s.context s.taskCurrent ≠ .relock n deep)
    (result : s.taskCreate t prio = some s') : Touches s.taskCurrent only s s' := by
  simp only [taskCreate] at result
  obtain ⟨created, activated, last⟩ := bind_eq_some_iff.mp result
  cases last
  have user := ((links.task t).unborn unborn).2.2.1
  set zeroed := s.setTask t { prio := s.small.wrap prio, basePrio := s.small.wrap prio }
  have born : Touches s.taskCurrent only s
      { zeroed.setContext t .user with life := Function.update s.life t .alive } := by
    refine ⟨fun _ _ => ⟨rfl, rfl⟩, fun _ => .inl rfl, fun u n deep _ => ?_, id⟩
    obtain rfl | other := eq_or_ne u t
    · simp [setContext, user]
    · simp [setContext, other, zeroed, setTask]
  have ready := taskActivate_inert activated
  exact (born.trans ready.touches).leave ready.taskCurrent fresh (by trivial)

theorem taskSetPriority_touches {prio : Int}
    (fresh : ∀ n deep, s.context s.taskCurrent ≠ .relock n deep)
    (result : taskSetPriority calls s t prio = some s') : Touches s.taskCurrent only s s' := by
  simp only [taskSetPriority] at result
  obtain ⟨middle, chain, last⟩ := bind_eq_some_iff.mp result
  cases last
  have inert := (inert_setTask s t _).trans (taskRecalculatePrio_repriced chain).inert
  exact (inert.touches.leave inert.taskCurrent fresh (by trivial)).scheduleIfNeeded

theorem irqHandler_touches {irqs : List (Irq × Answer)}
    (result : s.irqHandler irqs = some s') : Touches s.taskCurrent only s s' := by
  simp only [irqHandler] at result
  obtain ⟨middle, loop, last⟩ := bind_eq_some_iff.mp result
  cases last
  have served : Inert s middle :=
    foldlM_invariant (Inert s) (fun _ _ _ _ inert turn => inert.trans (serveIrq_inert turn))
      (.refl s) loop
  exact served.touches.scheduleIfNeeded

theorem listenSlot_inert {i : Nat} (result : listenSlot g s i = some s') :
    Inert s s' := by
  simp only [listenSlot] at result
  split at result
  · contradiction
  · cases result
    exact { Inert.refl s with }

theorem unlistenSlot_inert {i : Nat} (result : unlistenSlot g s i = some s') :
    Inert s s' := by
  simp only [unlistenSlot] at result
  split at result
  · cases result
    exact { Inert.refl s with }
  · contradiction

theorem groupWaitLoop_touches (fresh : ∀ n deep, s.context s.taskCurrent ≠ .relock n deep) :
    Touches s.taskCurrent only s (s.groupWaitLoop g) := by
  simp only [groupWaitLoop]
  split
  · rename_i i _
    have delivered : Inert s ((s.setSlot (g, i) { (s.group g).slot i with active := false }).observe
        (.delivered g i ((s.group g).slot i).lock ((s.group g).slot i).message)) :=
      { Inert.refl s with }
    exact delivered.touches.leave rfl fresh (by trivial)
  · set unlisted : State := { s with queues := s.queues.unlink s.taskCurrent } with unlisted_eq
    have waiting : Inert s (unlisted.setGroup g
        { unlisted.group g with waiter := some unlisted.taskCurrent }) := { Inert.refl s with }
    refine Touches.schedule (waiting.touches.continueAt rfl fun n deep _ =>
      ⟨by simp, fun same => ?_⟩)
    exact absurd same (fresh n deep)

/-- The lock whose owner or depth the code executed next may change. -/
def Touched (s : State) : Event → MutexId → Prop
  | .call (.mutexLock n) _, m | .call (.mutexTrylock n) _, m
  | .call (.mutexLockIrq n _ _ _) _, m => m = n ∧ s.Open n
  | .call (.mutexUnlock n) _, m | .call (.mutexUnlockIrq n) _, m => m = n
  | .call (.mutexWait n) _, m => m = n ∧ s.Owns n
  | .resume _, m =>
    match s.context s.taskCurrent with
    | .lock n | .lockIrq n _ _ _ | .relock n _ => m = n ∧ s.Open n
    | .delete t _ => (s.mutex m).master = some t
    | _ => False
  | _, _ => False

theorem call_touches {c : Call} (sound : s.Sound) (user : s.context s.taskCurrent = .user)
    (result : State.call calls s c answer = some s') :
    Touches s.taskCurrent (s.Touched (.call c answer)) s s' := by
  have fresh : ∀ n deep, s.context s.taskCurrent ≠ .relock n deep := by simp [user]
  have plain : ∀ value, (Context.ret value).Plain := fun _ => trivial
  simp only [State.call] at result
  split at result
  swap
  · contradiction
  rename_i admitted
  cases c with
  | taskCreate t prio =>
    exact taskCreate_touches sound.links (by simpa [admits] using admitted) fresh result
  | taskDelete t message => exact taskDelete_touches fresh result
  | taskSetPriority t prio => exact taskSetPriority_touches fresh result
  | taskYield =>
    cases result
    have queued : Inert s { s with queues := s.queues.append .active s.taskCurrent } :=
      { Inert.refl s with }
    exact (queued.touches.leave rfl fresh (plain 0)).schedule
  | mutexLock m =>
    simp only [mutexLock] at result
    split at result
    · contradiction
    · exact lockLoop_touches (fun x => ⟨x, .refl x, rfl⟩) fresh (by trivial) result
  | mutexTrylock m => exact mutexTrylock_touches fresh result
  | mutexLockIrq m irq handler arg =>
    exact lockLoop_touches (fun x => ⟨_, attach_inert x m irq handler arg, rfl⟩) fresh
      (by trivial) result
  | mutexUnlock m => exact mutexUnlock_touches rfl fresh (by simp) result
  | mutexUnlockIrq m => exact mutexUnlockIrq_touches rfl fresh result
  | mutexAttachIrq m irq handler arg =>
    simp only [mutexAttachIrq] at result
    split at result
    · contradiction
    · cases result
      exact (attach_inert s m irq handler arg).touches.leave rfl fresh (plain 0)
  | mutexSignal m message => exact mutexSignal_touches (.refl s) fresh (plain 0) result
  | mutexWait m => exact mutexWait_touches fresh result
  | mutexGroupInit g size =>
    cases result
    have sized : Inert s (s.setGroup g { s.group g with size := size % 2 ^ s.small.bits }) :=
      { Inert.refl s with }
    exact sized.touches.leave rfl fresh (plain 0)
  | mutexGroupAdd g m =>
    cases result
    simp only [mutexGroupAdd]
    split
    · exact (Inert.refl s).touches.leave rfl fresh (plain 0)
    · set marked := s.setSlot (g, (s.group g).num)
        { (s.group g).slot (s.group g).num with lock := m, message := 0 } with marked_eq
      have added : Inert s (marked.setGroup g
          { marked.group g with num := (s.group g).num + 1 }) := { Inert.refl s with }
      exact added.touches.leave rfl fresh (plain 1)
  | mutexGroupListen g =>
    obtain ⟨middle, loop, last⟩ := bind_eq_some_iff.mp result
    cases last
    have listed : Inert s middle := foldlM_invariant (Inert s)
      (fun _ _ _ _ inert turn => inert.trans (listenSlot_inert turn)) (.refl s) loop
    have observed := listed.trans (inert_observe middle (.listened g (s.group g).num))
    exact observed.touches.leave observed.taskCurrent fresh (plain 0)
  | mutexGroupUnlisten g =>
    obtain ⟨middle, loop, last⟩ := bind_eq_some_iff.mp result
    cases last
    have unlisted : Inert s middle := foldlM_invariant (Inert s)
      (fun _ _ _ _ inert turn => inert.trans (unlistenSlot_inert turn)) (.refl s) loop
    have observed := unlisted.trans (inert_observe middle (.unlistened g))
    exact observed.touches.leave observed.taskCurrent fresh (plain 0)
  | mutexGroupWait g =>
    simp only [mutexGroupWait] at result
    split at result
    · contradiction
    · cases result
      exact groupWaitLoop_touches fresh
  | taskSchedule =>
    cases result
    exact (Inert.refl s).touches.schedule

theorem resume_touches (result : State.resume calls s answer = some s') :
    Touches s.taskCurrent (s.Touched (.resume answer)) s s' := by
  have plain : ∀ value, (Context.ret value).Plain := fun _ => trivial
  have touched : ∀ m, s.Touched (.resume answer) m =
      match s.context s.taskCurrent with
      | .lock n | .lockIrq n _ _ _ | .relock n _ => m = n ∧ s.Open n
      | .delete t _ => (s.mutex m).master = some t
      | _ => False := fun _ => rfl
  have only := funext touched
  simp only [State.resume] at result
  split at result <;> rename_i context <;> simp only [context] at only <;> rw [only]
  · contradiction
  · cases result
    have turned : Touches s.taskCurrent (fun _ => False) s (s.continueAt .user) :=
      (Inert.refl s).touches.leave rfl (by simp [context]) (by trivial)
    exact turned.trans (inert_observe _ _).touches
  · exact lockLoop_touches (fun x => ⟨x, .refl x, rfl⟩) (by simp [context]) (by trivial) result
  · exact lockLoop_touches (fun x => ⟨_, attach_inert x _ _ _ _, rfl⟩) (by simp [context])
      (by trivial) result
  · cases result
    exact (Inert.refl s).touches.leave rfl (by simp [context]) (plain _)
  · exact relockLoop_touches context result
  · cases result
    exact groupWaitLoop_touches (by simp [context])
  · exact deleteLoop_touches (by simp [context]) result
  · cases result
    have left : Touches s.taskCurrent (fun _ => False) s (s.continueAt (.ret 0)) :=
      (Inert.refl s).touches.leave rfl (by simp [context]) (plain 0)
    exact left.scheduleIfNeeded

theorem step_touches {event : Event} (sound : s.Sound)
    (result : State.step calls s event = some s') :
    Touches s.taskCurrent (s.Touched event) s s' := by
  cases event with
  | call c answer =>
    simp only [step] at result
    split at result
    · rename_i user
      exact call_touches sound user result
    · contradiction
  | interrupt irqs =>
    simp only [step] at result
    split at result
    · exact irqHandler_touches result
    · contradiction
  | resume answer => exact resume_touches result

end Transitions

end State
end Uos
