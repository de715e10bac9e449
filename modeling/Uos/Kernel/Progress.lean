import Uos.Kernel.Holding

/-!
# What never fails

The assertions in `mutex_activate`, and in the part of `mutex_unlock` up to the point where it makes
the blocked tasks ready, hold whenever the pointers agree with the lists.
-/

namespace Uos

open List

namespace State

/-- The tasks and slots that wait can be activated. -/
structure Alert (s : State) : Prop where
  waiter : ∀ t m, s.queues.place t = some (.waiters m) →
    (s.task t).wait = some m ∧ (s.task t).lock = none
  slot : ∀ g i m, s.listeners.place (g, i) = some m → ((s.group g).slot i).lock = m
  recorded : ∀ g t, (s.group g).waiter = some t →
    s.context t = .groupWait g ∧ s.queues.place t = none ∧ (s.task t).lock = none ∧
      (s.task t).wait = none

variable {s s' : State} {m : MutexId}

theorem Sound.alert (sound : s.Sound) (slots : s.Slots) : s.Alert where
  waiter t m placed := by
    refine ⟨(sound.links.task t).waiter m placed, ?_⟩
    rcases blocked : (s.task t).lock with _ | n
    · rfl
    · have joined := ((sound.links.task t).slave n).mpr blocked
      simp [placed] at joined
  slot g i m placed := (slots.listed g i m placed).2
  recorded g t waits := by
    obtain rfl | busy := eq_or_ne t taskIdle
    · obtain ⟨here, unlinked, unblocked⟩ := slots.idle g waits
      exact ⟨here, unlinked, unblocked, slots.awake g here⟩
    · obtain ⟨here, unlinked, awake⟩ := (sound.links.task t).groupWaiter busy g waits
      refine ⟨here, unlinked, ?_, awake⟩
      rcases blocked : (s.task t).lock with _ | n
      · rfl
      · have joined := ((sound.links.task t).slave n).mpr blocked
        simp [unlinked] at joined

theorem Alert.congr (alert : s.Alert) (lock : ∀ t, (s'.task t).lock = (s.task t).lock)
    (wait : ∀ t, (s'.task t).wait = (s.task t).wait) (queues : s'.queues = s.queues)
    (listeners : s'.listeners = s.listeners) (group : s'.group = s.group)
    (context : s'.context = s.context) : s'.Alert where
  waiter t m placed := by
    rw [lock, wait]
    exact alert.waiter t m (queues ▸ placed)
  slot := by rw [listeners, group]; exact alert.slot
  recorded g t waits := by
    rw [lock, wait, queues, context]
    exact alert.recorded g t (group ▸ waits)

theorem Repriced.alert (repriced : Repriced s s') (alert : s.Alert) : s'.Alert := by
  obtain ⟨_, _, _, rfl, -⟩ := repriced
  exact alert.congr (fun _ => rfl) (fun _ => rfl) rfl rfl rfl rfl

theorem taskActivate_succeeds {t : TaskId} (lock : (s.task t).lock = none)
    (wait : (s.task t).wait = none) :
    s.taskActivate t = some { s with
      queues := s.queues.append .active t
      taskNeedSchedule :=
        s.taskNeedSchedule || decide ((s.task s.taskCurrent).prio < (s.task t).prio) } := by
  simp [taskActivate, taskIsWaiting, lock, wait]

theorem wakeWaiter_succeeds (message : Message) {t : TaskId} {rest : List TaskId}
    (alert : s.Alert) (waiting : ∀ u ∈ t :: rest, s.queues.place u = some (.waiters m))
    (nodup : (t :: rest).Nodup) :
    ∃ s', wakeWaiter m message s t = some s' ∧ s'.Alert ∧ s'.listeners = s.listeners ∧
      ∀ u ∈ rest, s'.queues.place u = some (.waiters m) := by
  have here := waiting t mem_cons_self
  obtain ⟨wait, lock⟩ := alert.waiter t m here
  set roused := s.setTask t { s.task t with wait := none, message := message } with roused_eq
  have ready : roused.taskActivate t = some { roused with
      queues := roused.queues.append .active t
      taskNeedSchedule := roused.taskNeedSchedule ||
        decide ((roused.task roused.taskCurrent).prio < (roused.task t).prio) } :=
    taskActivate_succeeds (by simp [roused, setTask, lock]) (by simp [roused, setTask])
  have turn : wakeWaiter m message s t = roused.taskActivate t := by
    rw [wakeWaiter, if_pos wait, roused_eq]
  refine ⟨_, turn.trans ready, ⟨?_, alert.slot, ?_⟩, rfl, ?_⟩
  · intro u n placed
    obtain rfl | other := eq_or_ne u t
    · simp [roused, setTask] at placed
    · have before : s.queues.place u = some (.waiters n) := by
        simpa [roused, setTask, other] using placed
      simpa [roused, setTask, other] using alert.waiter u n before
  · intro g u waits
    have recorded := alert.recorded g u waits
    have other : u ≠ t := by
      rintro rfl
      simp [here] at recorded
    simpa [roused, setTask, other] using recorded
  · intro u member
    have other : u ≠ t := by
      rintro rfl
      exact (nodup_cons.mp nodup).1 member
    simpa [roused, setTask, other] using waiting u (mem_cons_of_mem t member)

theorem setSlot_alert (alert : s.Alert) {slot : GroupId × Nat} {record : Slot}
    (same : record.lock = ((s.group slot.1).slot slot.2).lock) : (s.setSlot slot record).Alert where
  waiter := alert.waiter
  slot g i m placed := by
    rw [setSlot_slot]
    split
    · rename_i here
      rw [same]
      obtain ⟨rfl, rfl⟩ : g = slot.1 ∧ i = slot.2 := by simpa [Prod.ext_iff] using here
      exact alert.slot slot.1 slot.2 m placed
    · exact alert.slot g i m placed
  recorded g t waits := by
    rw [setSlot_waiter] at waits
    exact alert.recorded g t waits

theorem notifySlot_succeeds (message : Message) {slot : GroupId × Nat} (alert : s.Alert)
    (listed : s.listeners.place slot = some m) :
    ∃ s', notifySlot m message s slot = some s' ∧ s'.Alert ∧ s'.listeners = s.listeners := by
  have related : ((s.group slot.1).slot slot.2).lock = m := alert.slot slot.1 slot.2 m listed
  set marked := s.setSlot slot
    { (s.group slot.1).slot slot.2 with message := message, active := true } with marked_eq
  have alert' : marked.Alert := setSlot_alert alert rfl
  simp only [notifySlot, if_pos related, ← marked_eq]
  split
  · exact ⟨marked, rfl, alert', rfl⟩
  · rename_i t waits
    obtain ⟨here, unlinked, lock, wait⟩ := alert'.recorded slot.1 t waits
    rw [if_neg (by simp [LinkedLists.linked, unlinked])]
    set freed := marked.setGroup slot.1 { marked.group slot.1 with waiter := none } with freed_eq
    refine ⟨_, taskActivate_succeeds (s := freed) lock wait, ⟨?_, ?_, ?_⟩, rfl⟩
    · intro u n placed
      obtain rfl | other := eq_or_ne u t
      · simp at placed
      · exact alert'.waiter u n (by simpa [freed, setGroup, other] using placed)
    · intro g i n placed
      have kept := alert'.slot g i n placed
      obtain rfl | other := eq_or_ne g slot.1
      · simpa [freed, setGroup] using kept
      · simpa [freed, setGroup, other] using kept
    · intro g u waits'
      obtain rfl | elsewhere := eq_or_ne g slot.1
      · simp [freed, setGroup] at waits'
      · have recorded := alert'.recorded g u (by simpa [freed, setGroup, elsewhere] using waits')
        have other : u ≠ t := by
          rintro rfl
          rw [here, Context.groupWait.injEq] at recorded
          exact elsewhere recorded.1.symm
        simpa [freed, setGroup, other] using recorded

theorem mutexActivate_succeeds (alert : s.Alert) (m : MutexId) (message : Message) :
    ∃ s', s.mutexActivate m message = some s' ∧ s'.Alert := by
  set observed := s.observe (.activated m message) with observed_eq
  have alert' : observed.Alert :=
    alert.congr (fun _ => rfl) (fun _ => rfl) rfl rfl rfl rfl
  obtain ⟨woken, first, wokenAlert, -⟩ := foldlM_succeeds
    (fun (x : State) (tasks : List TaskId) => x.Alert ∧
      (∀ u ∈ tasks, x.queues.place u = some (.waiters m)) ∧ tasks.Nodup)
    (fun x t rest ⟨alert, waiting, nodup⟩ => by
      obtain ⟨x', turn, alert', -, later⟩ :=
        wakeWaiter_succeeds message alert waiting nodup
      exact ⟨x', turn, alert', later, (nodup_cons.mp nodup).2⟩)
    (s.waiters m) ⟨alert', fun u member => s.queues.mem_nodes.mp member,
      s.queues.nodup (.waiters m)⟩
  obtain ⟨notified, second, notifiedAlert, -⟩ := foldlM_succeeds
    (fun (x : State) (slots : List (GroupId × Nat)) => x.Alert ∧
      ∀ slot ∈ slots, x.listeners.place slot = some m)
    (fun x slot rest ⟨alert, listed⟩ => by
      obtain ⟨x', turn, alert', same⟩ :=
        notifySlot_succeeds message alert (listed slot mem_cons_self)
      exact ⟨x', turn, alert', fun other member => by
        rw [same]
        exact listed other (mem_cons_of_mem slot member)⟩)
    (woken.listeners.nodes m) ⟨wokenAlert, fun slot member => woken.listeners.mem_nodes.mp member⟩
  refine ⟨notified, ?_, notifiedAlert⟩
  simp only [mutexActivate]
  exact Option.bind_eq_some_iff.mpr ⟨woken, first, second⟩

theorem callHandler_succeeds (alert : s.Alert) (m : MutexId) {irq : Irq} (answer : Answer)
    (handler : (s.mutexIrq irq).handler.isSome = true) :
    ∃ s', s.callHandler irq m answer = some s' ∧ s'.Alert := by
  obtain ⟨code, handler_eq⟩ := Option.isSome_iff_exists.mp handler
  have alert' : (s.observe (.handled irq (s.mutex m).master s.taskCurrent)).Alert :=
    alert.congr (fun _ => rfl) (fun _ => rfl) rfl rfl rfl rfl
  obtain ⟨s', result, last⟩ := foldlM_succeeds
    (fun (x : State) (_ : List (MutexId × Message)) => x.Alert)
    (fun x signal _ alert => mutexActivate_succeeds alert signal.1 signal.2)
    answer.activations alert'
  exact ⟨s', by simp [callHandler, handler_eq, result], last⟩

theorem servePending_succeeds (alert : s.Alert) (armed : s.Armed) (m : MutexId)
    (answer : Answer) : ∃ s', s.servePending m answer = some s' ∧ s'.Alert := by
  simp only [servePending]
  split
  · exact ⟨s, rfl, alert⟩
  · rename_i irq _
    split
    · rename_i pending
      set cleared := s.setIrq irq { s.mutexIrq irq with pending := false } with cleared_eq
      have alert' : cleared.Alert := alert.congr (fun _ => rfl) (fun _ => rfl) rfl rfl rfl rfl
      have handler : (cleared.mutexIrq irq).handler.isSome = true := by
        simpa [cleared, setIrq] using armed irq pending
      obtain ⟨middle, called, middleAlert⟩ := callHandler_succeeds alert' m answer
        handler
      rcases served : answer.served with _ | _
      · obtain ⟨s', activated, last⟩ := mutexActivate_succeeds middleAlert m 0
        exact ⟨s', by simp [called, activated], last⟩
      · exact ⟨middle, by simp [called], middleAlert⟩
    · exact ⟨s, rfl, alert⟩

theorem readySlaves_succeeds (blocked : ∀ t ∈ s.slaves m, (s.task t).lock = some m)
    (awake : ∀ t ∈ s.slaves m, (s.task t).wait = none) :
    ∃ s', s.readySlaves m = some s' := by
  obtain ⟨s', result, -⟩ := foldlM_succeeds
    (fun (x : State) (tasks : List TaskId) => tasks.Nodup ∧
      ∀ t ∈ tasks, (x.task t).lock = some m ∧ (x.task t).wait = none)
    (fun x t rest ⟨nodup, waiting⟩ => by
      obtain ⟨lock, wait⟩ := waiting t mem_cons_self
      set freed := x.setTask t { x.task t with lock := none } with freed_eq
      have ready := taskActivate_succeeds (s := freed) (t := t)
        (by simp [freed, setTask]) (by simp [freed, setTask, wait])
      have turn : readySlave m x t = freed.taskActivate t := by
        simp only [readySlave, if_pos lock, freed]
      refine ⟨_, turn.trans ready, (nodup_cons.mp nodup).2, fun u member => ?_⟩
      have other : u ≠ t := by
        rintro rfl
        exact (nodup_cons.mp nodup).1 member
      simpa [freed, setTask, other] using waiting u (mem_cons_of_mem t member))
    (s.slaves m) ⟨s.queues.nodup (.slaves m), fun t member => ⟨blocked t member, awake t member⟩⟩
  exact ⟨s', result⟩

theorem release_succeeds {owner : TaskId} (owned : (s.mutex m).master = some owner)
    (unblocked : (s.task owner).lock = none) : ∃ s', release 1 s m = some s' := by
  have recalculated : ∀ x : State, (x.task owner).lock = none →
      ∃ x', taskRecalculatePrio 1 x owner = some x' := by
    intro x free
    have same : ((x.setTask owner { x.task owner with prio := x.taskSlavesPrio owner }).task
        owner).lock = none := by simp [setTask, free]
    simp only [taskRecalculatePrio, same]
    repeat' split
    all_goals exact ⟨_, rfl⟩
  simp only [release, owned]
  split
  · obtain ⟨x', recalculated_eq⟩ := recalculated { s with owned := s.owned.unlink m } unblocked
    exact ⟨_, by rw [recalculated_eq]; rfl⟩
  · exact ⟨_, rfl⟩

end State
end Uos
