import Uos.Kernel.Links

/-!
# Activation

What activating the waiters of locks and groups does.  `Woken` bounds the effect on the tasks;
`Hears` says exactly what the waiting tasks and the group slots learn from the activations that the
trace records.
-/

namespace Uos

open Option

namespace State

/-- A task stays where it is, or is woken because it waits for a lock or a group. -/
def Stirred (s s' : State) (t : TaskId) : Prop :=
  s'.queues.place t = s.queues.place t ∧ (s'.task t).wait = (s.task t).wait ∧
      (s'.task t).message = (s.task t).message ∨
    s'.queues.place t = some .active ∧ (s'.task t).wait = none ∧ (s.task t).lock = none ∧
      ((∃ m, s.queues.place t = some (.waiters m)) ∨
        s.queues.place t = none ∧
          ∃ g, (s.group g).waiter = some t ∧ (s'.group g).waiter = none)

variable {s s' s'' : State} {t : TaskId} {m : MutexId} {message : Message}
  {observations : List Observation}

theorem Stirred.wait_none (stirred : Stirred s s' t) (free : (s.task t).wait = none) :
    (s'.task t).wait = none := by
  rcases stirred with ⟨-, same, -⟩ | ⟨-, gone, -⟩
  · exact same.trans free
  · exact gone

theorem Stirred.active (stirred : Stirred s s' t) (active : s.queues.place t = some .active) :
    s'.queues.place t = some .active := by
  rcases stirred with ⟨same, -⟩ | ⟨placed, -⟩
  · exact same.trans active
  · exact placed

theorem Stirred.trans (first : Stirred s s' t) (second : Stirred s' s'' t)
    (lock : (s'.task t).lock = (s.task t).lock)
    (waiter : ∀ g, (s'.group g).waiter = (s.group g).waiter ∨ (s'.group g).waiter = none)
    (waiter' : ∀ g, (s''.group g).waiter = (s'.group g).waiter ∨ (s''.group g).waiter = none) :
    Stirred s s'' t := by
  rcases first with ⟨place, wait, message⟩ | ⟨active, free, lock', cause⟩
  · rcases second with ⟨place', wait', message'⟩ | ⟨active, free, lock', cause⟩
    · exact .inl ⟨place'.trans place, wait'.trans wait, message'.trans message⟩
    · rw [lock] at lock'
      rw [place] at cause
      refine .inr ⟨active, free, lock', cause.imp_right ?_⟩
      rintro ⟨unlinked, g, waits, free⟩
      refine ⟨unlinked, g, ?_, free⟩
      rcases waiter g with same | gone
      · exact same ▸ waits
      · rw [gone] at waits; contradiction
  · refine .inr ⟨second.active active, second.wait_none free, lock', cause.imp_right ?_⟩
    rintro ⟨unlinked, g, waits, free⟩
    refine ⟨unlinked, g, waits, ?_⟩
    rcases waiter' g with same | gone
    · exact same.trans free
    · exact gone

/-- What activating the waiters of locks and groups can do. -/
structure Woken (s s' : State) : Prop where
  small : s'.small = s.small
  mutex : s'.mutex = s.mutex
  owned : s'.owned = s.owned
  taskCurrent : s'.taskCurrent = s.taskCurrent
  context : s'.context = s.context
  life : s'.life = s.life
  lock : ∀ t, (s'.task t).lock = (s.task t).lock
  basePrio : ∀ t, (s'.task t).basePrio = (s.task t).basePrio
  prio : ∀ t, (s'.task t).prio = (s.task t).prio
  slaves : ∀ m, s'.slaves m = s.slaves m
  message : ∀ t, (s.task t).wait = none → (s'.task t).message = (s.task t).message
  waiter : ∀ g, (s'.group g).waiter = (s.group g).waiter ∨ (s'.group g).waiter = none
  need : s.taskNeedSchedule = true → s'.taskNeedSchedule = true
  stirred : ∀ t, Stirred s s' t
  noticed : ∀ t, s.queues.place t ≠ some .active → s'.queues.place t = some .active →
    s'.taskNeedSchedule = true ∨ (s.task t).prio ≤ (s.task s.taskCurrent).prio

theorem Woken.refl (s : State) : Woken s s := by
  constructor
  case stirred => exact fun _ => .inl ⟨rfl, rfl, rfl⟩
  case noticed => exact fun _ absent placed => absurd placed absent
  all_goals simp

theorem Woken.trans (first : Woken s s') (second : Woken s' s'') :
    Woken s s'' where
  small := second.small.trans first.small
  mutex := second.mutex.trans first.mutex
  owned := second.owned.trans first.owned
  taskCurrent := second.taskCurrent.trans first.taskCurrent
  context := second.context.trans first.context
  life := second.life.trans first.life
  lock t := (second.lock t).trans (first.lock t)
  basePrio t := (second.basePrio t).trans (first.basePrio t)
  prio t := (second.prio t).trans (first.prio t)
  slaves m := (second.slaves m).trans (first.slaves m)
  message t free := (second.message t ((first.stirred t).wait_none free)).trans
    (first.message t free)
  waiter g := by
    rcases second.waiter g with same | gone
    · rw [same]; exact first.waiter g
    · exact .inr gone
  need needed := second.need (first.need needed)
  stirred t := (first.stirred t).trans (second.stirred t) (first.lock t) first.waiter
    second.waiter
  noticed t absent placed := by
    rcases em (s'.queues.place t = some .active) with here | still
    · exact (first.noticed t absent here).imp_left second.need
    · have noticed := second.noticed t still placed
      rwa [first.prio, first.taskCurrent, first.prio] at noticed

theorem Woken.mem_slaves (woken : Woken s s') (t : TaskId) (m : MutexId) :
    s'.queues.place t = some (.slaves m) ↔ s.queues.place t = some (.slaves m) := by
  have same : s'.slaves m = s.slaves m := woken.slaves m
  simp only [← LinkedLists.mem_nodes, same]

theorem Links.woken (links : s.Links) (woken : Woken s s') : s'.Links := by
  have waiter : ∀ g t, (s'.group g).waiter = some t → (s.group g).waiter = some t := by
    intro g t waits
    rcases woken.waiter g with same | gone
    · exact same ▸ waits
    · rw [gone] at waits; contradiction
  refine ⟨fun m => ?_, fun t => ?_⟩
  · rw [woken.owned, woken.mutex]
    exact links.owner m
  have linked := links.task t
  rcases woken.stirred t with ⟨place, wait, -⟩ | ⟨active, waitNone, lockNone, cause⟩
  · exact linked.congr (woken.lock t) wait place (congrFun woken.context t)
      (congrFun woken.life t) (fun g => waiter g t) (fun _ m => by rw [woken.owned]; exact id)
  have awake : t ≠ taskIdle → ∀ g, (s'.group g).waiter ≠ some t := by
    intro busy g waits
    obtain ⟨context, unlinked, -⟩ := linked.groupWaiter busy g (waiter g t waits)
    rcases cause with ⟨m, placed⟩ | ⟨-, g', waits', gone⟩
    · simp [unlinked] at placed
    · have context' := (linked.groupWaiter busy g' waits').1
      rw [context, Context.groupWait.injEq] at context'
      rw [context', gone] at waits
      contradiction
  constructor
  case slave => simp [active, woken.lock, lockNone]
  case waiter => simp [active]
  case waits => simp [waitNone]
  case groupWaiter => exact fun busy g waits => absurd waits (awake busy g)
  case contends => simp [woken.lock, lockNone]
  case unborn =>
    intro unborn
    rw [woken.life] at unborn
    obtain ⟨busy, unlinked, user, -, -⟩ := linked.unborn unborn
    rcases cause with ⟨m, placed⟩ | ⟨-, g, waits, -⟩
    · simp [unlinked] at placed
    · rw [(linked.groupWaiter busy g waits).1] at user
      contradiction

theorem woken_observe (s : State) (observation : Observation) :
    Woken s (s.observe observation) :=
  { Woken.refl s with }

theorem woken_setIrq (s : State) (irq : Irq) (record : MutexIrq) :
    Woken s (s.setIrq irq record) :=
  { Woken.refl s with }

theorem setSlot_waiter (s : State) (slot : GroupId × Nat) (record : Slot) (g : GroupId) :
    ((s.setSlot slot record).group g).waiter = (s.group g).waiter := by
  obtain rfl | other := eq_or_ne g slot.1
  · simp [setSlot, setGroup]
  · simp [setSlot, setGroup, other]

theorem woken_setSlot (s : State) (slot : GroupId × Nat) (record : Slot) :
    Woken s (s.setSlot slot record) :=
  { Woken.refl s with
    waiter := fun g => .inl (setSlot_waiter s slot record g)
    stirred := fun _ => .inl ⟨rfl, rfl, rfl⟩ }

theorem wakeWaiters_woken (links : s.Links)
    (result : (s.waiters m).foldlM (wakeWaiter m message) s = some s') : Woken s s' := by
  obtain ⟨rfl, lockNone⟩ := wakeWaiters_eq result
  have placed : ∀ t ∈ s.waiters m, s.queues.place t = some (.waiters m) :=
    fun t member => s.queues.mem_nodes.mp member
  constructor
  case lock => intro t; simp only [readied]; split <;> rfl
  case basePrio => intro t; simp only [readied]; split <;> rfl
  case prio => intro t; simp only [readied]; split <;> rfl
  case slaves =>
    intro n
    exact s.queues.nodes_appendAll_of_ne (by simp) fun t member => by simp [placed t member]
  case message =>
    intro t free
    simp only [readied]
    split
    · rename_i member
      simp [(links.task t).waiter m (placed t member)] at free
    · rfl
  case waiter => exact fun _ => .inl rfl
  case need => exact fun needed => by simp [readied, needed]
  case stirred =>
    intro t
    simp only [Stirred, readied, LinkedLists.place_appendAll]
    split
    · rename_i member
      exact .inr ⟨rfl, rfl, lockNone t member, .inl ⟨m, placed t member⟩⟩
    · exact .inl ⟨rfl, rfl, rfl⟩
  case noticed =>
    intro t absent
    simp only [readied, LinkedLists.place_appendAll]
    split
    · rename_i member
      rcases lt_or_ge (s.task s.taskCurrent).prio (s.task t).prio with higher | lower
      · exact fun _ => .inl (by simpa using .inr ⟨t, member, higher⟩)
      · exact fun _ => .inr lower
    · exact fun placed => absurd placed absent
  all_goals rfl

theorem notifySlot_woken {slot : GroupId × Nat} (turn : notifySlot m message s slot = some s') :
    Woken s s' := by
  simp only [notifySlot] at turn
  split at turn
  · set marked := s.setSlot slot _ with marked_eq
    have first : Woken s marked := woken_setSlot s slot _
    split at turn
    · obtain rfl := Option.some.inj turn
      exact first
    · rename_i t waits
      split at turn
      · contradiction
      · rename_i unlinked
        obtain ⟨lockNone, waitNone, rfl⟩ := taskActivate_eq turn
        have placed : marked.queues.place t = none := by
          simpa [LinkedLists.linked] using unlinked
        refine first.trans { Woken.refl marked with
          slaves := ?_, waiter := ?_, need := ?_, stirred := ?_, noticed := ?_ }
        · exact fun n => marked.queues.nodes_append_of_ne (by simp) (by simp [placed])
        · intro g
          obtain rfl | other := eq_or_ne g slot.1
          · exact .inr (by simp [setGroup])
          · exact .inl (by simp [setGroup, other])
        · exact fun needed => by simp [setGroup, needed]
        · intro u
          obtain rfl | other := eq_or_ne u t
          · exact .inr ⟨by simp, waitNone, lockNone,
              .inr ⟨placed, slot.1, waits, by simp [setGroup]⟩⟩
          · exact .inl ⟨by simp [setGroup, other], rfl, rfl⟩
        · intro u absent active
          obtain rfl | other := eq_or_ne u t
          · rcases lt_or_ge (marked.task marked.taskCurrent).prio (marked.task u).prio with
              higher | lower
            · exact .inl (by simp [setGroup, higher])
            · exact .inr lower
          · exact absurd (by simpa [setGroup, other] using active) absent
  · contradiction

/-- The message of the first activation of a lock among some observations. -/
def heard (m : MutexId) (observations : List Observation) : Option Message :=
  observations.findSome? fun
    | .activated n message => if n = m then some message else none
    | _ => none

theorem heard_append (m : MutexId) (first second : List Observation) :
    heard m (first ++ second) = (heard m first).or (heard m second) :=
  List.findSome?_append

/-- The message of the last activation of a lock among some observations. -/
def told (m : MutexId) (observations : List Observation) : Option Message :=
  heard m observations.reverse

theorem told_append (m : MutexId) (first second : List Observation) :
    told m (first ++ second) = (told m second).or (told m first) := by
  rw [told, List.reverse_append, heard_append]
  rfl

theorem told_of_silent (silent : heard m observations = none) : told m observations = none := by
  rw [heard, List.findSome?_eq_none_iff] at silent
  rw [told, heard, List.findSome?_eq_none_iff]
  exact fun observation member => silent observation (List.mem_reverse.mp member)

def hear (slot : Slot) (place : Option MutexId) (observations : List Observation) : Slot :=
  match place.bind fun m => told m observations with
  | none => slot
  | some message => { slot with message := message, active := true }

theorem hear_append (slot : Slot) (place : Option MutexId) (first second : List Observation) :
    hear (hear slot place first) place second = hear slot place (first ++ second) := by
  rcases place with _ | m
  · rfl
  · simp only [hear, bind_some, told_append]
    rcases told m second with _ | message
    · rfl
    · rcases told m first with _ | message' <;> rfl

/-- The tasks and slots that wait for locks learn exactly what some observations say.  A task is
woken by the first activation of its lock, a slot keeps the last one, and the waiter of a group
with a slot that was signalled is woken. -/
structure Hears (s s' : State) (observations : List Observation) : Prop where
  trace : s'.trace = s.trace ++ observations
  waiting : ∀ t m, s.queues.place t = some (.waiters m) →
    s'.queues.place t = some (.waiters m) ∧ (s'.task t).message = (s.task t).message ∧
        heard m observations = none ∨
      s'.queues.place t = some .active ∧ (s'.task t).wait = none ∧
        heard m observations = some (s'.task t).message
  listeners : s'.listeners = s.listeners
  num : ∀ g, (s'.group g).num = (s.group g).num
  size : ∀ g, (s'.group g).size = (s.group g).size
  slot : ∀ g i,
    (s'.group g).slot i = hear ((s.group g).slot i) (s.listeners.place (g, i)) observations
  quiet : ∀ g, (s'.group g).waiter = none ∨
    ∀ i, ((s.listeners.place (g, i)).bind fun m => told m observations) = none
  answered : ∀ g t, (s.group g).waiter = some t →
    (s'.group g).waiter = some t ∨ s'.queues.place t = some .active

theorem Hears.silent (trace : s'.trace = s.trace ++ observations)
    (silent : ∀ m, heard m observations = none) (queues : s'.queues = s.queues)
    (message : ∀ t, (s'.task t).message = (s.task t).message)
    (listeners : s'.listeners = s.listeners) (group : s'.group = s.group) :
    Hears s s' observations where
  trace := trace
  waiting t m placed := by
    rw [queues, message]
    exact .inl ⟨placed, rfl, silent m⟩
  listeners := listeners
  num _ := by rw [group]
  size _ := by rw [group]
  slot g i := by
    rw [group]
    rcases place : s.listeners.place (g, i) with _ | m
    · rfl
    · simp [hear, told_of_silent (silent m)]
  quiet g := by
    refine .inr fun i => ?_
    rcases place : s.listeners.place (g, i) with _ | m
    · rfl
    · simp [told_of_silent (silent m)]
  answered g t waits := by
    rw [group]
    exact .inl waits

theorem Hears.trans {observations' : List Observation} (first : Hears s s' observations)
    (second : Hears s' s'' observations') (stirred : ∀ t, Stirred s' s'' t)
    (message : ∀ t, (s'.task t).wait = none → (s''.task t).message = (s'.task t).message)
    (waiter : ∀ g, (s''.group g).waiter = (s'.group g).waiter ∨ (s''.group g).waiter = none) :
    Hears s s'' (observations ++ observations') where
  trace := by simp [first.trace, second.trace]
  waiting t m placed := by
    rw [heard_append]
    rcases first.waiting t m placed with ⟨placed', same, silent⟩ | ⟨active, free, first⟩
    · rw [silent, none_or, ← same]
      exact second.waiting t m placed'
    · rw [first, some_or, message t free]
      exact .inr ⟨(stirred t).active active, (stirred t).wait_none free, rfl⟩
  listeners := second.listeners.trans first.listeners
  num g := (second.num g).trans (first.num g)
  size g := (second.size g).trans (first.size g)
  slot g i := by rw [second.slot, first.slot, first.listeners, hear_append]
  quiet g := by
    rcases first.quiet g with gone | silent
    · rcases waiter g with same | gone'
      · exact .inl (same.trans gone)
      · exact .inl gone'
    · refine (second.quiet g).imp_right fun silent' i => ?_
      have before := silent i
      have after := silent' i
      rw [first.listeners] at after
      rcases place : s.listeners.place (g, i) with _ | m
      · rfl
      · rw [place, bind_some] at before after
        rw [bind_some, told_append, after, before]
        rfl
  answered g t waits := by
    rcases first.answered g t waits with still | active
    · exact second.answered g t still
    · exact .inr ((stirred t).active active)

/-- A sequence of activations, observed in the trace. -/
structure Activated (s s' : State) : Prop extends Woken s s' where
  hears : ∃ observations, Hears s s' observations

theorem Activated.refl (s : State) : Activated s s :=
  ⟨.refl s, [], .silent (by simp) (fun _ => rfl) rfl (fun _ => rfl) rfl rfl⟩

theorem Activated.trans (first : Activated s s') (second : Activated s' s'') :
    Activated s s'' := by
  obtain ⟨_, hears⟩ := first.hears
  obtain ⟨_, hears'⟩ := second.hears
  exact ⟨first.toWoken.trans second.toWoken, _,
    hears.trans hears' second.stirred second.message second.waiter⟩

theorem activated_observe (s : State) (observation : Observation)
    (silent : ∀ m, heard m [observation] = none) : Activated s (s.observe observation) :=
  ⟨woken_observe s observation, [observation],
    .silent rfl silent rfl (fun _ => rfl) rfl rfl⟩

theorem activated_setIrq (s : State) (irq : Irq) (record : MutexIrq) :
    Activated s (s.setIrq irq record) :=
  ⟨woken_setIrq s irq record, [], .silent (by simp [setIrq]) (fun _ => rfl) rfl (fun _ => rfl)
    rfl rfl⟩

/-- What recording a signal in some slots leaves alone, and what it changes. -/
structure Notified (m : MutexId) (message : Message) (slots : List (GroupId × Nat))
    (s s' : State) : Prop where
  trace : s'.trace = s.trace
  task : s'.task = s.task
  listeners : s'.listeners = s.listeners
  waiting : ∀ t n, s.queues.place t = some (.waiters n) →
    s'.queues.place t = some (.waiters n)
  num : ∀ g, (s'.group g).num = (s.group g).num
  size : ∀ g, (s'.group g).size = (s.group g).size
  slot : ∀ g i, (s'.group g).slot i =
    if (g, i) ∈ slots then { (s.group g).slot i with message := message, active := true }
    else (s.group g).slot i
  quiet : ∀ g i, (g, i) ∈ slots → (s'.group g).waiter = none
  answered : ∀ g t, (s.group g).waiter = some t →
    (s'.group g).waiter = some t ∨ s'.queues.place t = some .active

theorem setSlot_slot (s : State) (slot : GroupId × Nat) (record : Slot) (g : GroupId) (i : Nat) :
    ((s.setSlot slot record).group g).slot i =
      if (g, i) = slot then record else (s.group g).slot i := by
  obtain ⟨h, j⟩ := slot
  obtain rfl | other := eq_or_ne g h
  · obtain rfl | different := eq_or_ne i j
    · simp [setSlot, setGroup]
    · simp [setSlot, setGroup, different]
  · simp [setSlot, setGroup, other]

theorem setSlot_num (s : State) (slot : GroupId × Nat) (record : Slot) (g : GroupId) :
    ((s.setSlot slot record).group g).num = (s.group g).num ∧
      ((s.setSlot slot record).group g).size = (s.group g).size := by
  obtain rfl | other := eq_or_ne g slot.1
  · simp [setSlot, setGroup]
  · simp [setSlot, setGroup, other]

theorem notifySlot_notified {slot : GroupId × Nat} (turn : notifySlot m message s slot = some s') :
    Notified m message [slot] s s' := by
  simp only [notifySlot] at turn
  split at turn
  · set marked := s.setSlot slot _ with marked_eq
    have slots : ∀ g i, (marked.group g).slot i =
        if (g, i) ∈ [slot] then { (s.group g).slot i with message := message, active := true }
        else (s.group g).slot i := by
      intro g i
      rw [marked_eq, setSlot_slot]
      rcases em ((g, i) = slot) with rfl | elsewhere
      · simp
      · simp [elsewhere]
    have waiters : ∀ g, (marked.group g).waiter = (s.group g).waiter := setSlot_waiter s slot _
    have nums : ∀ g, (marked.group g).num = (s.group g).num ∧
        (marked.group g).size = (s.group g).size := setSlot_num s slot _
    split at turn
    · rename_i nobody
      obtain rfl := Option.some.inj turn
      refine ⟨rfl, rfl, rfl, fun _ _ => id, fun g => (nums g).1, fun g => (nums g).2, slots, ?_, ?_⟩
      · intro g i member
        rw [← congrArg Prod.fst (List.mem_singleton.mp member)] at nobody
        exact nobody
      · intro g t waits
        exact .inl ((waiters g).trans waits)
    · rename_i t waits
      split at turn
      · contradiction
      · rename_i unlinked
        obtain ⟨-, -, rfl⟩ := taskActivate_eq turn
        have group : ∀ g, ((marked.setGroup slot.1
            { marked.group slot.1 with waiter := none }).group g).num = (s.group g).num ∧
            ((marked.setGroup slot.1
              { marked.group slot.1 with waiter := none }).group g).size = (s.group g).size ∧
            ((marked.setGroup slot.1
              { marked.group slot.1 with waiter := none }).group g).slot =
                (marked.group g).slot := by
          intro g
          obtain rfl | other := eq_or_ne g slot.1
          · simpa [setGroup] using nums slot.1
          · simpa [setGroup, other] using nums g
        refine ⟨rfl, rfl, rfl, fun u n placed => ?_, fun g => (group g).1, fun g => (group g).2.1,
          fun g i => ?_, fun g i member => ?_, fun g u waits' => ?_⟩
        · have placed' : marked.queues.place u = some (.waiters n) := placed
          have other : u ≠ t := by
            rintro rfl
            simp [LinkedLists.linked, placed'] at unlinked
          simpa [setGroup, other] using placed'
        · exact (congrFun (group g).2.2 i).trans (slots g i)
        · obtain rfl : g = slot.1 := congrArg Prod.fst (List.mem_singleton.mp member)
          simp [setGroup]
        · rw [← waiters g] at waits'
          obtain rfl | other := eq_or_ne g slot.1
          · obtain rfl : t = u := Option.some.inj (waits.symm.trans waits')
            exact .inr (by simp)
          · exact .inl (by simpa [setGroup, other] using waits')
  · contradiction

theorem notifySlots_notified {slots : List (GroupId × Nat)}
    (result : slots.foldlM (notifySlot m message) s = some s') :
    Woken s s' ∧ Notified m message slots s s' := by
  induction slots generalizing s with
  | nil =>
    obtain rfl : s = s' := by simpa using result
    exact ⟨.refl s, rfl, rfl, rfl, fun _ _ => id, fun _ => rfl, fun _ => rfl, by simp, by simp,
      fun _ _ => .inl⟩
  | cons slot slots ih =>
    rw [List.foldlM_cons] at result
    obtain ⟨middle, first, rest⟩ := bind_eq_some_iff.mp result
    have woken := notifySlot_woken first
    have one := notifySlot_notified first
    obtain ⟨later, others⟩ := ih rest
    refine ⟨woken.trans later, ?_⟩
    constructor
    case trace => exact others.trace.trans one.trace
    case task => exact others.task.trans one.task
    case listeners => exact others.listeners.trans one.listeners
    case waiting => exact fun t n placed => others.waiting t n (one.waiting t n placed)
    case num => exact fun g => (others.num g).trans (one.num g)
    case size => exact fun g => (others.size g).trans (one.size g)
    case slot =>
      intro g i
      rw [others.slot, one.slot]
      rcases em ((g, i) = slot) with here | elsewhere
      · simp [here]
      · simp [elsewhere]
    case quiet =>
      intro g i member
      rcases List.mem_cons.mp member with here | later'
      · have gone := one.quiet g i (List.mem_singleton.mpr here)
        rcases later.waiter g with same | gone'
        · exact same.trans gone
        · exact gone'
      · exact others.quiet g i later'
    case answered =>
      intro g t waits
      rcases one.answered g t waits with still | active
      · exact others.answered g t still
      · exact .inr ((later.stirred t).active active)

theorem mutexActivate_activated (links : s.Links) (result : s.mutexActivate m message = some s') :
    Activated s s' := by
  simp only [mutexActivate] at result
  obtain ⟨middle, first, second⟩ := bind_eq_some_iff.mp result
  have start := woken_observe s (.activated m message)
  have startLinks := links.woken start
  have waiters := wakeWaiters_woken startLinks first
  obtain ⟨groups, notified⟩ := notifySlots_notified second
  obtain ⟨rfl, -⟩ := wakeWaiters_eq first
  refine ⟨start.trans (waiters.trans groups), [.activated m message], ?_⟩
  have message_eq : ∀ n, told n [.activated m message] = if m = n then some message else none := by
    intro n
    simp [told, heard]
  constructor
  case trace => exact notified.trace
  case listeners => exact notified.listeners
  case num => exact notified.num
  case size => exact notified.size
  case answered => exact notified.answered
  case waiting =>
    intro t n placed
    simp only [heard, List.findSome?_singleton]
    rw [notified.task]
    obtain rfl | other := eq_or_ne m n
    · have member : t ∈ s.waiters m := s.queues.mem_nodes.mpr placed
      refine .inr ⟨(groups.stirred t).active ?_, ?_, ?_⟩
      · simp [readied, LinkedLists.place_appendAll, State.observe, member]
      · simp [readied, State.observe, member]
      · simp [readied, State.observe, member]
    · have absent : t ∉ s.waiters m := by
        rw [s.queues.mem_nodes, placed]
        simpa using other.symm
      refine .inl ⟨notified.waiting t n ?_, ?_, by simp [other]⟩
      · simpa [readied, LinkedLists.place_appendAll, State.observe, absent] using placed
      · simp [readied, State.observe, absent]
  case slot =>
    intro g i
    rw [notified.slot]
    have listed : (g, i) ∈ s.listeners.nodes m ↔ s.listeners.place (g, i) = some m :=
      s.listeners.mem_nodes
    change (if (g, i) ∈ s.listeners.nodes m then
        { (s.group g).slot i with message := message, active := true }
      else (s.group g).slot i) = hear ((s.group g).slot i) (s.listeners.place (g, i)) _
    rcases place : s.listeners.place (g, i) with _ | n
    · have absent : (g, i) ∉ s.listeners.nodes m := by simp [listed, place]
      rw [if_neg absent]
      rfl
    · simp only [hear, bind_some, message_eq]
      obtain rfl | other := eq_or_ne m n
      · rw [if_pos (listed.mpr place)]
        simp
      · have absent : (g, i) ∉ s.listeners.nodes m := by
          rw [listed, place]
          simpa using other.symm
        rw [if_neg absent]
        simp [other]
  case quiet =>
    intro g
    rcases em (∃ i, s.listeners.place (g, i) = some m) with ⟨i, place⟩ | nowhere
    · exact .inl (notified.quiet g i (s.listeners.mem_nodes.mpr place))
    · refine .inr fun i => ?_
      rcases place : s.listeners.place (g, i) with _ | n
      · rfl
      · have other : m ≠ n := by
          rintro rfl
          exact nowhere ⟨i, place⟩
        simp [message_eq, other]

theorem mutexActivate_trace (result : s.mutexActivate m message = some s') :
    s'.trace = s.trace ++ [.activated m message] ∧ s'.mutexIrq = s.mutexIrq := by
  simp only [mutexActivate] at result
  obtain ⟨middle, first, second⟩ := bind_eq_some_iff.mp result
  obtain ⟨rfl, -⟩ := wakeWaiters_eq first
  refine foldlM_invariant
    (fun x => x.trace = s.trace ++ [.activated m message] ∧ x.mutexIrq = s.mutexIrq)
    (fun slot _ x x' kept turn => ?_) ⟨rfl, rfl⟩ second
  simp only [notifySlot] at turn
  split at turn
  · split at turn
    · cases turn
      exact kept
    · split at turn
      · contradiction
      · obtain ⟨-, -, rfl⟩ := taskActivate_eq turn
        exact kept
  · contradiction

theorem callHandler_activated (links : s.Links) {irq : Irq} {answer : Answer}
    (result : s.callHandler irq m answer = some s') : Activated s s' := by
  simp only [callHandler] at result
  split at result
  · contradiction
  · exact foldlM_invariant (Activated s) (fun _ _ _ _ activated turn =>
      activated.trans (mutexActivate_activated (links.woken activated.toWoken) turn))
      (activated_observe s _ fun _ => rfl) result

end State
end Uos
