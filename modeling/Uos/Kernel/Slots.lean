import Uos.Kernel.Steps

/-!
# Group slots

The slots of a group that listen are the first ones, each in the list of its own lock, and a group
with a recorded waiter has no active slot.  A waiter that finds an active slot is therefore no
longer recorded, also when it is the idle task.
-/

namespace Uos
namespace State

/-- The slots agree with the lists of the locks and with the recorded waiters. -/
structure Slots (s : State) : Prop where
  listed : ∀ g i m, s.listeners.place (g, i) = some m →
    i < (s.group g).num ∧ ((s.group g).slot i).lock = m
  bounded : ∀ g i, ((s.group g).slot i).active = true → i < (s.group g).num
  quiet : ∀ g t, (s.group g).waiter = some t → ∀ i, ((s.group g).slot i).active = false
  idle : ∀ g, (s.group g).waiter = some taskIdle → s.context taskIdle = .groupWait g ∧
    s.queues.place taskIdle = none ∧ (s.task taskIdle).lock = none
  awake : ∀ g, s.context taskIdle = .groupWait g → (s.task taskIdle).wait = none

/-- The idle task executes, and not on behalf of a group. -/
def IdleElsewhere (s : State) : Prop :=
  s.taskCurrent = taskIdle → ∀ g, s.context taskIdle ≠ .groupWait g

theorem hear_lock (slot : Slot) (place : Option MutexId) (observations : List Observation) :
    (hear slot place observations).lock = slot.lock := by
  simp only [hear]
  split <;> rfl

theorem hear_silent {slot : Slot} {place : Option MutexId} {observations : List Observation}
    (silent : (place.bind fun m => told m observations) = none) :
    hear slot place observations = slot := by
  simp only [hear, silent]

variable {s s' start x : State} {event : Event} {calls : Nat} {g : GroupId}

theorem Slots.hears {observations : List Observation} (slots : s.Slots)
    (hears : Hears s s' observations)
    (waiter : ∀ g, (s'.group g).waiter = (s.group g).waiter ∨ (s'.group g).waiter = none)
    (stirred : Stirred s s' taskIdle ∨
      (s.task taskIdle).lock ≠ none ∧ (s'.task taskIdle).wait = none)
    (lock : (s.task taskIdle).lock = none → (s'.task taskIdle).lock = none)
    (context : s'.context taskIdle = s.context taskIdle) : s'.Slots := by
  have waited : ∀ g t, (s'.group g).waiter = some t → (s.group g).waiter = some t := by
    intro g t waits
    rcases waiter g with same | gone
    · exact same ▸ waits
    · rw [gone] at waits; contradiction
  constructor
  case listed =>
    intro g i m placed
    rw [hears.listeners] at placed
    rw [hears.num, hears.slot, hear_lock]
    exact slots.listed g i m placed
  case bounded =>
    intro g i active
    rw [hears.num]
    rw [hears.slot] at active
    rcases placed : s.listeners.place (g, i) with _ | m
    · rw [placed, hear_silent (by rfl)] at active
      exact slots.bounded g i active
    · exact (slots.listed g i m placed).1
  case quiet =>
    intro g t waits i
    rcases hears.quiet g with gone | silent
    · rw [gone] at waits
      contradiction
    · rw [hears.slot, hear_silent (silent i)]
      exact slots.quiet g t (waited g t waits) i
  case idle =>
    intro g waits
    have waits' := waited g taskIdle waits
    obtain ⟨here, unlinked, unblocked⟩ := slots.idle g waits'
    refine ⟨context.trans here, ?_, lock unblocked⟩
    rcases stirred with stirred | ⟨blocked, -⟩
    · rcases stirred with ⟨place, -⟩ | ⟨-, -, -, ⟨m, placed⟩ | ⟨-, h, waits'', gone⟩⟩
      · exact place.trans unlinked
      · simp [unlinked] at placed
      · have there := (slots.idle h waits'').1
        rw [here, Context.groupWait.injEq] at there
        rw [there, gone] at waits
        contradiction
    · exact absurd unblocked blocked
  case awake =>
    intro g here
    rw [context] at here
    rcases stirred with stirred | ⟨-, free⟩
    · exact stirred.wait_none (slots.awake g here)
    · exact free

theorem Slots.congr (slots : s.Slots) (group : s'.group = s.group)
    (listeners : s'.listeners = s.listeners) (idle : (∃ g, (s.group g).waiter = some taskIdle) →
      s'.context taskIdle = s.context taskIdle ∧
        s'.queues.place taskIdle = s.queues.place taskIdle ∧
        ((s.task taskIdle).lock = none → (s'.task taskIdle).lock = none))
    (awake : ∀ g, s'.context taskIdle = .groupWait g → s.context taskIdle = .groupWait g ∧
      ((s.task taskIdle).wait = none → (s'.task taskIdle).wait = none)) : s'.Slots where
  listed := by rw [group, listeners]; exact slots.listed
  bounded := by rw [group]; exact slots.bounded
  quiet := by rw [group]; exact slots.quiet
  idle g waits := by
    rw [group] at waits
    obtain ⟨context, place, lock⟩ := idle ⟨g, waits⟩
    obtain ⟨here, unlinked, unblocked⟩ := slots.idle g waits
    exact ⟨context.trans here, place.trans unlinked, lock unblocked⟩
  awake g here := by
    obtain ⟨here', wait⟩ := awake g here
    exact wait (slots.awake g here')

theorem Slots.undisturbed (slots : s.Slots) (group : s'.group = s.group)
    (listeners : s'.listeners = s.listeners) (same : Undisturbed s s' taskIdle) : s'.Slots :=
  slots.congr group listeners
    (fun _ => ⟨same.context, same.place, fun free => same.lock.trans free⟩)
    fun _ here => ⟨same.context ▸ here, fun free => same.wait.trans free⟩

theorem Move.idleElsewhere (midway : s.Midway) (elsewhere : s.IdleElsewhere)
    (move : Move start event s s') : s'.IdleElsewhere := by
  intro idle g here
  rw [move.taskCurrent midway] at idle
  cases move.shift midway taskIdle with
  | undisturbed same => exact elsewhere idle g (same.context ▸ here)
  | roused roused => exact elsewhere idle g (roused.context ▸ here)
  | created _ unborn => exact ((midway.links.task taskIdle).unborn unborn).1 rfl
  | deleted _ _ _ _ context => exact elsewhere idle g (context ▸ here)
  | turned _ _ _ _ _ _ away => exact away g here

theorem Repriced.group (repriced : Repriced s s') :
    s'.group = s.group ∧ s'.listeners = s.listeners := by
  obtain ⟨_, _, _, rfl, -⟩ := repriced
  exact ⟨rfl, rfl⟩

theorem Move.slots (midway : s.Midway) (slots : s.Slots) (elsewhere : s.IdleElsewhere)
    (move : Move start event s s') : s'.Slots := by
  cases move with
  | activated activated =>
    obtain ⟨_, hears⟩ := activated.hears
    exact slots.hears hears activated.waiter (.inl (activated.stirred taskIdle))
      (fun free => (activated.lock taskIdle).trans free) (congrFun activated.context taskIdle)
  | acquire m deep =>
    have repriced := acquire_repriced s m
    have same := repriced.undisturbed taskIdle
    exact slots.undisturbed repriced.group.1 repriced.group.2
      ⟨same.lock, same.wait, same.message, same.place, same.context, same.life⟩
  | free calls m deep _ released_eq served_eq detached_eq ready_eq after_eq =>
    have freed := (free_links midway.links released_eq served_eq detached_eq ready_eq
      after_eq).2
    obtain ⟨_, hears⟩ := freed.hears
    refine slots.hears hears freed.waiter ?_ (fun free => ?_) (congrFun freed.context taskIdle)
    · rcases freed.place taskIdle with ⟨member, -, free⟩ | ⟨-, stirred⟩
      · exact .inr ⟨by simp [midway.links.mem_slaves.mp member], free⟩
      · exact .inl stirred
    · rw [freed.lock]
      split
      · rfl
      · exact free
  | create t prio answer call unborn result =>
    obtain ⟨-, -, rfl⟩ := taskActivate_eq result
    have other : taskIdle ≠ t := ((midway.links.task t).unborn unborn).1.symm
    refine slots.undisturbed rfl rfl ?_
    constructor <;> simp [setTask, setContext, other]
  | @remove calls t message answer middle _ call born result after_eq =>
    obtain rfl := after_eq
    have repriced : Repriced (s.removed t) middle := by
      rcases result with ⟨m, -, -, chain⟩ | ⟨rfl, -⟩
      · exact mutexRecalculatePrio_repriced chain
      · exact .refl _
    obtain ⟨_, _, _, rfl, -⟩ := repriced
    refine slots.congr rfl rfl ?_ fun g here => ⟨here, fun free => ?_⟩
    · rintro ⟨g, waits⟩
      obtain ⟨-, unlinked, -⟩ := slots.idle g waits
      refine ⟨rfl, ?_, fun free => ?_⟩
      · obtain rfl | other := eq_or_ne taskIdle t
        · simp [setTask, State.reprice, removed, unlinked]
        · simp [setTask, State.reprice, removed, other]
      · obtain rfl | other := eq_or_ne taskIdle t
        · simp [setTask]
        · simpa [setTask, State.reprice, removed, other] using free
    · obtain rfl | other := eq_or_ne taskIdle t
      · simp [setTask]
      · simpa [setTask, State.reprice, removed, other] using free
  | bury t => exact slots.undisturbed rfl rfl (undisturbed_setBasePrio s t taskIdle 0)
  | prioritize calls t prio _ _ result =>
    have repriced := taskRecalculatePrio_repriced result
    exact slots.undisturbed repriced.group.1 repriced.group.2
      ((undisturbed_setBasePrio s t taskIdle _).trans (repriced.undisturbed taskIdle))
  | turn context free away =>
    obtain idle | busy := eq_or_ne s.taskCurrent taskIdle
    · refine slots.congr rfl rfl ?_ fun g here => ?_
      · rintro ⟨g, waits⟩
        exact absurd (slots.idle g waits).1 (elsewhere idle g)
      · refine absurd ?_ (away g)
        simpa [continueAt, setContext, idle] using here
    · refine slots.undisturbed rfl rfl ⟨rfl, rfl, rfl, rfl, ?_, rfl⟩
      simp [continueAt, setContext, busy.symm]
  | _ => exact slots.undisturbed rfl rfl ⟨rfl, rfl, rfl, rfl, rfl, rfl⟩

theorem Moves.slots (midway : s.Midway) (slots : s.Slots) (elsewhere : s.IdleElsewhere)
    (moves : Moves start event s s') :
    s'.Slots ∧ s'.IdleElsewhere := by
  induction moves with
  | refl => exact ⟨slots, elsewhere⟩
  | tail moves move ih =>
    have midway' := Moves.midway midway moves
    exact ⟨move.slots midway' ih.1 ih.2, move.idleElsewhere midway' ih.2⟩

/-- The idle task executes a call, or goes on outside of `mutex_group_wait`. -/
theorem idleElsewhere_of_not_regroups (result : State.step calls s event = some s')
    (other : ¬s.Regroups event) :
    s.IdleElsewhere := by
  intro idle g here
  rw [← idle] at here
  cases event with
  | call c answer => simp [step, here] at result
  | interrupt irqs => simp [step, here] at result
  | resume answer => exact other ⟨g, here⟩

theorem Slots.step_elsewhere (sound : s.Sound) (slots : s.Slots) (other : ¬s.Regroups event)
    (result : State.step calls s event = some s') : s'.Slots := by
  have midway := sound.midway (sound.unblocked result)
  have elsewhere := idleElsewhere_of_not_regroups result other
  have scheduled : ∀ {x : State}, x.Slots → x.taskSchedule.Slots := fun slots =>
    slots.undisturbed rfl rfl (taskSchedule_undisturbed _ _)
  cases step_outcome sound result with
  | stays moves => exact (Moves.slots midway slots elsewhere moves).1
  | switches moves => exact scheduled (Moves.slots midway slots elsewhere moves).1
  | yields =>
    refine scheduled (slots.congr rfl rfl ?_ fun g here => ?_)
    · rintro ⟨g, waits⟩
      obtain ⟨here, unlinked, -⟩ := slots.idle g waits
      have busy : taskIdle ≠ s.taskCurrent := fun idle => elsewhere idle.symm g here
      simp [continueAt, setContext, busy]
    · obtain idle | busy := eq_or_ne taskIdle s.taskCurrent
      · simp [continueAt, setContext, idle] at here
      · exact ⟨by simpa [continueAt, setContext, busy] using here, id⟩
  | @waits m answer middle after call handled stops _ slept =>
    have served : Moves s event s middle := .single (.activated handled)
    have midway' := Moves.midway midway served
    obtain ⟨slots', elsewhere'⟩ := Moves.slots midway slots elsewhere served
    have asleep : (middle.asleep m).Slots := by
      refine slots'.congr rfl rfl ?_ fun g here => ⟨here, fun free => ?_⟩
      · rintro ⟨g, waits⟩
        have busy : taskIdle ≠ middle.taskCurrent := fun idle =>
          elsewhere' idle.symm g (slots'.idle g waits).1
        have same : Undisturbed middle (middle.asleep m) taskIdle := asleep_undisturbed busy
        exact ⟨same.context, same.place, fun free => same.lock.trans free⟩
      · have busy : taskIdle ≠ middle.taskCurrent := fun idle => elsewhere' idle.symm g here
        have same : Undisturbed middle (middle.asleep m) taskIdle := asleep_undisturbed busy
        exact same.wait.trans free
    exact scheduled (Moves.slots (midway'.asleep m) asleep elsewhere' slept.later).1
  | blocks m owner again wanted owned other' contends _ blocked =>
    obtain ⟨-, middle, repriced, rfl⟩ := block_eq blocked
    have joined : (s.blocked m again).Slots := by
      obtain idle | busy := eq_or_ne taskIdle s.taskCurrent
      · refine slots.congr rfl rfl ?_ fun g here => ?_
        · rintro ⟨g, waits⟩
          exact absurd (slots.idle g waits).1 (elsewhere idle.symm g)
        · have again_eq : again = .groupWait g := by
            simpa [State.blocked, continueAt, setContext, setTask, idle] using here
          subst again_eq
          exact absurd contends id
      · exact slots.undisturbed rfl rfl (blocked_undisturbed busy)
    exact scheduled (joined.undisturbed repriced.group.1 repriced.group.2
      (repriced.undisturbed _))
  | regroups _ _ call => exact absurd call other
  | suspends g call =>
    rcases call with ⟨answer, rfl⟩ | ⟨⟨answer, rfl⟩, here⟩
    · exact absurd trivial other
    · exact absurd ⟨g, here⟩ other

theorem Slots.leave (slots : s.Slots) {value : Message}
    (unlisted : s.taskCurrent = taskIdle → ∀ g, (s.group g).waiter ≠ some taskIdle) :
    (s.continueAt (.ret value)).Slots := by
  obtain idle | busy := eq_or_ne taskIdle s.taskCurrent
  · refine slots.congr rfl rfl ?_ fun g here => ?_
    · rintro ⟨g, waits⟩
      exact absurd waits (unlisted idle.symm g)
    · simp [continueAt, setContext, idle] at here
  · refine slots.undisturbed rfl rfl ⟨rfl, rfl, rfl, rfl, ?_, rfl⟩
    simp [continueAt, setContext, busy]

theorem Slots.regroup (slots : s.Slots) (task : s'.task = s.task) (queues : s'.queues = s.queues)
    (context : s'.context = s.context) (waiter : ∀ g, (s'.group g).waiter = (s.group g).waiter)
    (listed : ∀ g i m, s'.listeners.place (g, i) = some m →
      i < (s'.group g).num ∧ ((s'.group g).slot i).lock = m)
    (num : ∀ g, (s.group g).num ≤ (s'.group g).num)
    (active : ∀ g i, ((s'.group g).slot i).active = true →
      ((s.group g).slot i).active = true) : s'.Slots where
  listed := listed
  bounded g i set := (slots.bounded g i (active g i set)).trans_le (num g)
  quiet g t waits i := by
    rw [waiter] at waits
    rw [Bool.eq_false_iff]
    exact fun set => by simpa [slots.quiet g t waits i] using active g i set
  idle g waits := by
    rw [waiter] at waits
    rw [context, queues, task]
    exact slots.idle g waits
  awake g here := by
    rw [context] at here
    rw [task]
    exact slots.awake g here

@[simp]
theorem setSlot_listeners (s : State) (slot : GroupId × Nat) (record : Slot) :
    (s.setSlot slot record).listeners = s.listeners := rfl

theorem setSlot_active {slot : GroupId × Nat} {record : Slot}
    (kept : record.active = true → ((s.group slot.1).slot slot.2).active = true) (g : GroupId)
    (i : Nat) (active : (((s.setSlot slot record).group g).slot i).active = true) :
    ((s.group g).slot i).active = true := by
  rw [setSlot_slot] at active
  split at active
  · rename_i here
    obtain rfl := here
    exact kept active
  · exact active

theorem Slots.mutexGroupAdd (slots : s.Slots) (g : GroupId) (m : MutexId)
    (unlisted : s.taskCurrent = taskIdle → ∀ g, (s.group g).waiter ≠ some taskIdle) :
    (s.mutexGroupAdd g m).Slots := by
  simp only [State.mutexGroupAdd]
  split
  · exact slots.leave unlisted
  · set record : Slot := { (s.group g).slot (s.group g).num with lock := m, message := 0 }
      with record_eq
    set added := (s.setSlot (g, (s.group g).num) record).setGroup g
      { (s.setSlot (g, (s.group g).num) record).group g with num := (s.group g).num + 1 }
      with added_eq
    have num : ∀ h, (added.group h).num = (s.group h).num + if h = g then 1 else 0 := by
      intro h
      obtain rfl | other := eq_or_ne h g
      · simp [added_eq, setGroup]
      · simp [added_eq, setGroup, setSlot, other]
    have slot : ∀ h i, (added.group h).slot i =
        ((s.setSlot (g, (s.group g).num) record).group h).slot i := by
      intro h i
      obtain rfl | other := eq_or_ne h g
      · simp [added_eq, setGroup]
      · simp [added_eq, setGroup, other]
    have waiter : ∀ h, (added.group h).waiter = (s.group h).waiter := by
      intro h
      obtain rfl | other := eq_or_ne h g
      · simp [added_eq, setGroup, setSlot]
      · simp [added_eq, setGroup, setSlot, other]
    have after : added.Slots := by
      refine slots.regroup rfl rfl rfl waiter (fun h i n placed => ?_) (fun h => ?_)
        fun h i active => ?_
      · obtain ⟨bound, lock⟩ := slots.listed h i n placed
        have other : (h, i) ≠ (g, (s.group g).num) := by
          rintro same
          obtain ⟨rfl, rfl⟩ := Prod.mk.inj same
          exact bound.false
        rw [num, slot, setSlot_slot, if_neg other]
        exact ⟨by omega, lock⟩
      · rw [num]
        omega
      · rw [slot] at active
        exact @setSlot_active s (g, (s.group g).num) record (fun kept => kept) h i active
    refine after.leave fun idle h => ?_
    rw [waiter]
    exact unlisted idle h

/-- What the loops that link and unlink the slots of a group keep. -/
structure Relisted (s : State) (g : GroupId) (x : State) : Prop where
  slots : x.Slots
  num : (x.group g).num = (s.group g).num
  waiter : ∀ h, (x.group h).waiter = (s.group h).waiter
  taskCurrent : x.taskCurrent = s.taskCurrent

theorem Relisted.listenSlot {x' : State} (relisted : s.Relisted g x) {i : Nat}
    (bound : i < (s.group g).num) (turn : listenSlot g x i = some x') : s.Relisted g x' := by
  simp only [State.listenSlot] at turn
  split at turn
  · contradiction
  · cases turn
    set record : Slot := { (x.group g).slot i with message := 0 } with record_eq
    have num := setSlot_num x (g, i) record
    have waiter := setSlot_waiter x (g, i) record
    refine ⟨relisted.slots.regroup rfl rfl rfl waiter (fun h j n placed => ?_)
      (fun h => (num h).1.ge) (setSlot_active fun kept => kept), (num g).1.trans relisted.num,
      fun h => (waiter h).trans (relisted.waiter h), relisted.taskCurrent⟩
    change j < ((x.setSlot (g, i) record).group h).num ∧
      (((x.setSlot (g, i) record).group h).slot j).lock = n
    rw [(num h).1, setSlot_slot]
    obtain same | other := eq_or_ne (h, j) (g, i)
    · obtain ⟨rfl, rfl⟩ := Prod.mk.inj same
      have lock : ((x.group h).slot j).lock = n := by simpa using placed
      rw [if_pos rfl, relisted.num]
      exact ⟨bound, lock⟩
    · rw [if_neg other]
      exact relisted.slots.listed h j n (by simpa [other] using placed)

theorem Relisted.unlistenSlot {x' : State} (relisted : s.Relisted g x) {i : Nat}
    (turn : unlistenSlot g x i = some x') : s.Relisted g x' := by
  simp only [State.unlistenSlot] at turn
  split at turn
  · cases turn
    set record : Slot := { (x.group g).slot i with message := 0 } with record_eq
    have num := setSlot_num x (g, i) record
    have waiter := setSlot_waiter x (g, i) record
    refine ⟨relisted.slots.regroup rfl rfl rfl waiter (fun h j n placed => ?_)
      (fun h => (num h).1.ge) (setSlot_active fun kept => kept), (num g).1.trans relisted.num,
      fun h => (waiter h).trans (relisted.waiter h), relisted.taskCurrent⟩
    change j < ((x.setSlot (g, i) record).group h).num ∧
      (((x.setSlot (g, i) record).group h).slot j).lock = n
    have other : (h, j) ≠ (g, i) := by
      intro same
      simp [same] at placed
    rw [(num h).1, setSlot_slot, if_neg other]
    exact relisted.slots.listed h j n (by simpa [other] using placed)
  · contradiction

theorem Relisted.leave (relisted : s.Relisted g x)
    (unlisted : s.taskCurrent = taskIdle → ∀ g, (s.group g).waiter ≠ some taskIdle)
    (observation : Observation) : ((x.observe observation).continueAt (.ret 0)).Slots := by
  have observed : (x.observe observation).Slots :=
    relisted.slots.undisturbed rfl rfl ⟨rfl, rfl, rfl, rfl, rfl, rfl⟩
  refine observed.leave fun idle h => ?_
  change (x.group h).waiter ≠ some taskIdle
  rw [relisted.waiter]
  exact unlisted (relisted.taskCurrent ▸ idle) h

theorem Slots.groupWaitLoop (midway : s.Midway) (slots : s.Slots)
    (awake : s.taskCurrent = taskIdle → (s.task taskIdle).wait = none)
    (here : s.taskCurrent = taskIdle → ∀ h, (s.group h).waiter = some taskIdle → h = g) :
    (s.groupWaitLoop g).Slots := by
  simp only [State.groupWaitLoop]
  split
  · rename_i i found
    have active : ((s.group g).slot i).active = true := by
      simpa using List.find?_some found
    have waiter := setSlot_waiter s (g, i) { (s.group g).slot i with active := false }
    have num := setSlot_num s (g, i) { (s.group g).slot i with active := false }
    have taken : (s.setSlot (g, i) { (s.group g).slot i with active := false }).Slots := by
      refine slots.regroup rfl rfl rfl waiter (fun h j n placed => ?_) (fun h => (num h).1.ge)
        (setSlot_active (by simp))
      rw [(num h).1, setSlot_slot]
      obtain ⟨bound, lock⟩ := slots.listed h j n placed
      refine ⟨bound, ?_⟩
      split
      · rename_i same
        obtain ⟨rfl, rfl⟩ := Prod.mk.inj same
        exact lock
      · exact lock
    have observed : ((s.setSlot (g, i) { (s.group g).slot i with active := false }).observe
        (.delivered g i ((s.group g).slot i).lock ((s.group g).slot i).message)).Slots :=
      taken.undisturbed rfl rfl ⟨rfl, rfl, rfl, rfl, rfl, rfl⟩
    refine observed.leave fun idle h => ?_
    change ((s.setSlot (g, i) { (s.group g).slot i with active := false }).group h).waiter ≠ _
    rw [waiter]
    intro waits
    obtain rfl := here idle h waits
    simp [slots.quiet h taskIdle waits i] at active
  · rename_i none
    have inactive : ∀ i, ((s.group g).slot i).active = false := by
      intro i
      rw [Bool.eq_false_iff]
      intro active
      have bound := slots.bounded g i active
      exact List.find?_eq_none.mp none i (by simpa using bound) active
    have waiter : ∀ h, h ≠ g → ((s.suspended g).group h).waiter = (s.group h).waiter :=
      fun h other => by simp [suspended, continueAt, setContext, other]
    have same : ∀ h, ((s.suspended g).group h).num = (s.group h).num ∧
        ((s.suspended g).group h).slot = (s.group h).slot := fun h => by
      obtain rfl | other := eq_or_ne h g
      · simp [suspended, continueAt, setContext]
      · simp [suspended, continueAt, setContext, other]
    have suspended : (s.suspended g).Slots := by
      constructor
      case listed =>
        intro h i m placed
        rw [(same h).1, (same h).2]
        exact slots.listed h i m placed
      case bounded =>
        intro h i active
        rw [(same h).2] at active
        rw [(same h).1]
        exact slots.bounded h i active
      case quiet =>
        intro h t waits i
        rw [(same h).2]
        obtain rfl | other := eq_or_ne h g
        · exact inactive i
        · rw [waiter h other] at waits
          exact slots.quiet h t waits i
      case idle =>
        intro h waits
        obtain idle | busy := eq_or_ne taskIdle s.taskCurrent
        · have unblocked := midway.unblocked
          obtain rfl | other := eq_or_ne h g
          · simp [State.suspended, continueAt, setContext, idle, unblocked]
          · rw [waiter h other] at waits
            exact absurd (here idle.symm h waits) other
        · have undisturbed := @suspended_undisturbed s taskIdle g busy
          rw [undisturbed.context, undisturbed.place, undisturbed.lock]
          obtain rfl | other := eq_or_ne h g
          · simp [State.suspended, continueAt, setContext, busy.symm] at waits
          · rw [waiter h other] at waits
            exact slots.idle h waits
      case awake =>
        intro h there
        obtain idle | busy := eq_or_ne taskIdle s.taskCurrent
        · exact awake idle.symm
        · have undisturbed := @suspended_undisturbed s taskIdle g busy
          rw [undisturbed.context] at there
          rw [undisturbed.wait]
          exact slots.awake h there
    exact suspended.undisturbed rfl rfl (taskSchedule_undisturbed _ _)

theorem Slots.step (sound : s.Sound) (slots : s.Slots)
    (result : State.step calls s event = some s') : s'.Slots := by
  rcases em (s.Regroups event) with regroups | other
  swap
  · exact slots.step_elsewhere sound other result
  have midway := sound.midway (sound.unblocked result)
  have group : ∀ g, (s.group g).waiter = some taskIdle → s.context taskIdle = .groupWait g :=
    fun g waits => (slots.idle g waits).1
  cases event with
  | interrupt irqs => exact absurd regroups id
  | resume answer =>
    obtain ⟨g, here⟩ := regroups
    simp only [State.step, State.resume, here, Option.some.injEq] at result
    subst result
    refine slots.groupWaitLoop midway (fun idle => ?_) fun idle h waits => ?_
    · rw [idle] at here
      exact slots.awake g here
    · rw [idle, group h waits, Context.groupWait.injEq] at here
      exact here
  | call c answer =>
    simp only [State.step] at result
    split at result
    swap
    · contradiction
    rename_i user
    have unlisted : s.taskCurrent = taskIdle → ∀ g, (s.group g).waiter ≠ some taskIdle := by
      intro idle g waits
      rw [idle, group g waits] at user
      contradiction
    simp only [State.call] at result
    split at result
    swap
    · contradiction
    cases c with
    | mutexGroupInit g size =>
      cases result
      set record : Group := { s.group g with size := size % 2 ^ s.small.bits }
      have same : ∀ h, ((s.setGroup g record).group h).num = (s.group h).num ∧
          ((s.setGroup g record).group h).slot = (s.group h).slot ∧
          ((s.setGroup g record).group h).waiter = (s.group h).waiter := by
        intro h
        obtain rfl | different := eq_or_ne h g
        · simp [setGroup, record]
        · simp [setGroup, different]
      have sized : (s.setGroup g record).Slots := by
        refine slots.regroup rfl rfl rfl (fun h => (same h).2.2) (fun h i m placed => ?_)
          (fun h => (same h).1.ge) fun h i active => ?_
        · rw [(same h).1, (same h).2.1]
          exact slots.listed h i m placed
        · exact (same h).2.1 ▸ active
      refine sized.leave fun idle h => ?_
      rw [(same h).2.2]
      exact unlisted idle h
    | mutexGroupAdd g m =>
      cases result
      exact slots.mutexGroupAdd g m unlisted
    | mutexGroupListen g =>
      simp only [mutexGroupListen] at result
      obtain ⟨middle, loop, last⟩ := Option.bind_eq_some_iff.mp result
      cases last
      have relisted : s.Relisted g middle :=
        foldlM_invariant (s.Relisted g) (fun i member _ _ relisted turn =>
          relisted.listenSlot (by simpa using member) turn)
          ⟨slots, rfl, fun _ => rfl, rfl⟩ loop
      exact relisted.leave unlisted _
    | mutexGroupUnlisten g =>
      simp only [mutexGroupUnlisten] at result
      obtain ⟨middle, loop, last⟩ := Option.bind_eq_some_iff.mp result
      cases last
      have relisted : s.Relisted g middle :=
        foldlM_invariant (s.Relisted g) (fun i _ _ _ relisted turn =>
          relisted.unlistenSlot turn) ⟨slots, rfl, fun _ => rfl, rfl⟩ loop
      exact relisted.leave unlisted _
    | mutexGroupWait g =>
      simp only [mutexGroupWait] at result
      split at result
      · contradiction
      · rename_i free
        cases result
        simp only [not_or, Option.not_isSome_iff_eq_none] at free
        exact slots.groupWaitLoop midway (fun idle => idle ▸ free.1) fun idle h waits =>
          absurd waits (unlisted idle h)
    | _ => exact absurd regroups id

theorem init_slots (small : SmallInt) : (init small).Slots := by
  constructor <;> simp [init]

theorem slots_runIf {condition : State → Event → Prop} {small : SmallInt}
    (run : RunIf condition (init small) s) : s.Slots := by
  induction run with
  | refl => exact init_slots small
  | tail run last ih =>
    obtain ⟨event, -, calls, result⟩ := last
    exact ih.step (sound_runIf run) result

end State
end Uos
