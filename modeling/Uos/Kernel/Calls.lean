import Uos.Kernel.Scheduler

/-!
# The kernel functions

One definition for each function of the kernel, up to its next call of `task_schedule`; where it
continues after that is left in the context of the calling task.  The answer of a fast interrupt
handler, code of the user, is an argument of every function that can call one.
-/

namespace Uos

/-- What a fast interrupt handler does when it is called. -/
structure Answer where
  /-- The calls of `mutex_activate` it makes. -/
  activations : List (MutexId × Message) := []
  /-- Whether it fully serviced the interrupt. -/
  served : Bool := true

namespace State

def continueAt (s : State) (context : Context) : State :=
  s.setContext s.taskCurrent context

/-- Call the fast handler of an interrupt whose lock is `m`. -/
def callHandler (s : State) (irq : Irq) (m : MutexId) (answer : Answer) : Option State :=
  match (s.mutexIrq irq).handler with
  | none => none
  | some _ =>
    answer.activations.foldlM (fun s signal => s.mutexActivate signal.1 signal.2)
      (s.observe (.handled irq (s.mutex m).master s.taskCurrent))

/-- The loop body of `mutex_lock`, `mutex_lock_irq` and `mutex_wait` that blocks the current task
on a lock kept by `owner`. -/
def block (s : State) (m : MutexId) (owner : TaskId) (again : Context) : Option State :=
  if (s.task s.taskCurrent).lock.isSome ∨ (s.mutex m).deep ≤ 0 then none
  else
    let prio := (s.task s.taskCurrent).prio
    let s := s.setTask s.taskCurrent { s.task s.taskCurrent with lock := some m }
    let s := { s with queues := s.queues.append (.slaves m) s.taskCurrent }
    let s :=
      if (s.mutex m).prio < prio then
        let s := s.setMutex m { s.mutex m with prio := prio }
        if (s.task owner).prio < prio then s.setTask owner { s.task owner with prio := prio }
        else s
      else s
    some (s.continueAt again).taskSchedule

def acquire (s : State) (m : MutexId) : State :=
  let s := s.setMutex m { s.mutex m with master := some s.taskCurrent }
  let s := { s with owned := s.owned.append s.taskCurrent m }
  if (s.task s.taskCurrent).prio < (s.mutex m).prio then
    s.setTask s.taskCurrent { s.task s.taskCurrent with prio := (s.mutex m).prio }
  else s

/-- `++m->deep`. -/
def deepen (s : State) (m : MutexId) : State :=
  s.setMutex m { s.mutex m with deep := s.small.wrap ((s.mutex m).deep + 1) }

/-- `mutex_lock` and `mutex_lock_irq` from the head of their loop. -/
def lockLoop (s : State) (m : MutexId) (again : Context) (finish : State → State) :
    Option State :=
  match (s.mutex m).master with
  | some owner =>
    if owner = s.taskCurrent then some (finish (s.deepen m)) else s.block m owner again
  | none =>
    if s.slaves m ≠ [] ∨ (s.mutex m).deep ≠ 0 then none
    else some (finish ((s.acquire m).deepen m))

def mutexLock (s : State) (m : MutexId) : Option State :=
  if (s.mutex m).master = some s.taskCurrent then none
  else s.lockLoop m (.lock m) (·.continueAt (.ret 0))

def attach (s : State) (m : MutexId) (irq : Irq) (handler : Option Nat) (arg : Nat) : State :=
  (s.setMutex m { s.mutex m with irq := some irq }).setIrq irq
    { lock := some m, handler, arg, irq, pending := false }

def mutexLockIrq (s : State) (m : MutexId) (irq : Irq) (handler : Option Nat) (arg : Nat) :
    Option State :=
  s.lockLoop m (.lockIrq m irq handler arg)
    fun s => (s.attach m irq handler arg).continueAt (.ret 0)

def mutexTrylock (s : State) (m : MutexId) : Option State :=
  match (s.mutex m).master with
  | some owner =>
    if owner = s.taskCurrent then some ((s.deepen m).continueAt (.ret 1))
    else some (s.continueAt (.ret 0))
  | none =>
    if s.slaves m ≠ [] ∨ (s.mutex m).deep ≠ 0 then none
    else some (((s.acquire m).deepen m).continueAt (.ret 1))

def release (calls : Nat) (s : State) (m : MutexId) : Option State :=
  match (s.mutex m).master with
  | none => none
  | some owner => do
    let s := { s with owned := s.owned.unlink m }
    let s ←
      if (s.task owner).prio ≤ (s.mutex m).prio ∧ (s.task owner).basePrio < (s.mutex m).prio
      then taskRecalculatePrio calls s owner
      else some s
    some (s.setMutex m { s.mutex m with master := none })

/-- On pending irq, call the fast handler of a lock that was released. -/
def servePending (s : State) (m : MutexId) (answer : Answer) : Option State :=
  match (s.mutex m).irq with
  | none => some s
  | some irq =>
    if (s.mutexIrq irq).pending then do
      let s := s.setIrq irq { s.mutexIrq irq with pending := false }
      let s ← s.callHandler irq m answer
      if answer.served then some s else s.mutexActivate m 0
    else some s

/-- One turn of the loop that unblocks the tasks waiting for a lock. -/
def readySlave (m : MutexId) (s : State) (t : TaskId) : Option State :=
  if (s.task t).lock = some m then
    (s.setTask t { s.task t with lock := none }).taskActivate t
  else none

/-- Unblock the tasks waiting for a lock, from first to last. -/
def readySlaves (s : State) (m : MutexId) : Option State :=
  (s.slaves m).foldlM (readySlave m) s

/-- The end of `mutex_unlock`: unblock the waiting tasks and reset the priority of the lock. -/
def wakeSlaves (s : State) (m : MutexId) : Option State :=
  if s.slaves m = [] then some s
  else do
    let s ← s.readySlaves m
    some (s.setMutex m { s.mutex m with prio := 0 })

/-- Release the lock, continuing at `again`. -/
def mutexUnlock (calls : Nat) (s : State) (m : MutexId) (answer : Answer) (again : Context) :
    Option State :=
  if (s.mutex m).master.isNone then none
  else
    let s := s.setMutex m { s.mutex m with deep := s.small.wrap ((s.mutex m).deep - 1) }
    if 0 < (s.mutex m).deep then some (s.continueAt again)
    else do
      let s ← release calls s m
      let s ← s.servePending m answer
      let s ← s.wakeSlaves m
      some (s.continueAt again).scheduleIfNeeded

def detach (s : State) (m : MutexId) : State :=
  match (s.mutex m).irq with
  | none => s
  | some irq =>
    (s.setIrq irq { s.mutexIrq irq with lock := none }).setMutex m
      { s.mutex m with irq := none }

def mutexUnlockIrq (calls : Nat) (s : State) (m : MutexId) (answer : Answer) : Option State :=
  if (s.mutex m).master.isNone ∨ (s.mutex m).deep ≤ 0 then none
  else
    let s := s.setMutex m { s.mutex m with deep := s.small.wrap ((s.mutex m).deep - 1) }
    if 0 < (s.mutex m).deep then some (s.continueAt (.ret 0))
    else do
      let s ← release calls s m
      let s ← s.servePending m answer
      let s ← (s.detach m).wakeSlaves m
      some (s.continueAt (.ret 0)).scheduleIfNeeded

def mutexAttachIrq (s : State) (m : MutexId) (irq : Irq) (handler : Option Nat) (arg : Nat) :
    Option State :=
  if (s.mutexIrq irq).lock.isSome then none
  else some ((s.attach m irq handler arg).continueAt (.ret 0))

/-- Send the signal to the lock, continuing at `again`. -/
def mutexSignal (s : State) (m : MutexId) (message : Message) (again : Context) :
    Option State := do
  let s := s.observe (.signalled m message)
  if s.waiters m ≠ [] ∨ s.listeners.nodes m ≠ [] then
    let s ← s.mutexActivate m message
    some (s.continueAt again).scheduleIfNeeded
  else some (s.continueAt again)

/-- `mutex_wait` from the point where the task joins the waiters of the lock. -/
def sleep (calls : Nat) (s : State) (m : MutexId) : Option State :=
  let s := s.setTask s.taskCurrent { s.task s.taskCurrent with wait := some m }
  let s := { s with queues := s.queues.append (.waiters m) s.taskCurrent }
  if (s.mutex m).master ≠ some s.taskCurrent then some (s.continueAt .waitMessage).taskSchedule
  else if (s.mutex m).deep ≤ 0 then none
  else do
    let deep := (s.mutex m).deep
    let s := s.setMutex m { s.mutex m with deep := 0 }
    let s ← release calls s m
    let s ← s.readySlaves m
    let s := s.setMutex m { s.mutex m with prio := 0 }
    some (s.continueAt (.relock m deep)).taskSchedule

def mutexWait (calls : Nat) (s : State) (m : MutexId) (answer : Answer) : Option State :=
  if (s.task s.taskCurrent).wait.isSome then none
  else
    match (s.mutex m).irq with
    | none => sleep calls s m
    | some irq =>
      if (s.mutexIrq irq).pending then do
        let s := s.setIrq irq { s.mutexIrq irq with pending := false }
        let s ← s.callHandler irq m answer
        if answer.served then sleep calls s m
        else
          let s ← s.mutexActivate m 0
          some (s.continueAt (.ret 0)).scheduleIfNeeded
      else sleep calls s m

/-- `mutex_wait` from the head of the loop that acquires the lock again. -/
def relockLoop (s : State) (m : MutexId) (deep : Int) : Option State :=
  match (s.mutex m).master with
  | some owner => s.block m owner (.relock m deep)
  | none =>
    if (s.mutex m).deep ≠ 0 then none
    else
      let s := s.acquire m
      let s := s.setMutex m { s.mutex m with deep := deep }
      some (s.continueAt (.ret (s.task s.taskCurrent).message))

/-- Create a new task.  Its record, and its lock `finish`, are zeroed memory before. -/
def taskCreate (s : State) (t : TaskId) (prio : Int) : Option State := do
  let prio := s.small.wrap prio
  let s := s.setTask t { prio := prio, basePrio := prio }
  let s := { s.setContext t .user with life := Function.update s.life t .alive }
  let s ← s.taskActivate t
  some (s.continueAt (.ret t))

def taskDelete (calls : Nat) (s : State) (t : TaskId) (message : Message) : Option State := do
  let s := { s with life := Function.update s.life t .deleted }
  let s := { s with queues := s.queues.unlink t }
  let s := if t = s.taskCurrent then { s with taskNeedSchedule := true } else s
  let s ←
    match (s.task t).lock with
    | none => some s
    | some m => do
      let s ←
        if (s.mutex m).prio ≤ (s.task t).prio then mutexRecalculatePrio calls s m else some s
      some (s.setTask t { s.task t with lock := none })
  let s := s.setTask t { s.task t with wait := none }
  some (s.continueAt (.delete t message))

/-- `task_delete` from the head of the loop that releases the locks of the task. -/
def deleteLoop (calls : Nat) (s : State) (t : TaskId) (message : Message) (answer : Answer) :
    Option State :=
  match s.owned.nodes t with
  | m :: _ =>
    if (s.mutex m).master = some t then
      mutexUnlock calls s m answer (.delete t message)
    else none
  | [] =>
    (s.setTask t { s.task t with basePrio := 0 }).mutexSignal (.finish t) message .deleted

def taskSetPriority (calls : Nat) (s : State) (t : TaskId) (prio : Int) : Option State := do
  let s := s.setTask t { s.task t with basePrio := s.small.wrap prio }
  let s ← taskRecalculatePrio calls s t
  some (s.continueAt (.ret 0)).scheduleIfNeeded

def taskYield (s : State) : State :=
  let s := { s with queues := s.queues.append .active s.taskCurrent }
  (s.continueAt (.ret 0)).taskSchedule

def mutexGroupInit (s : State) (g : GroupId) (size : Nat) : State :=
  (s.setGroup g { s.group g with size := size % 2 ^ s.small.bits }).continueAt (.ret 0)

def mutexGroupAdd (s : State) (g : GroupId) (m : MutexId) : State :=
  let group := s.group g
  if group.size ≤ group.num then s.continueAt (.ret 0)
  else
    let s := s.setSlot (g, group.num) { group.slot group.num with lock := m, message := 0 }
    (s.setGroup g { s.group g with num := group.num + 1 }).continueAt (.ret 1)

/-- One turn of the loop of `mutex_group_listen`. -/
def listenSlot (g : GroupId) (s : State) (i : Nat) : Option State :=
  if s.listeners.linked (g, i) then none
  else
    let record := (s.group g).slot i
    let s := s.setSlot (g, i) { record with message := 0 }
    some { s with listeners := s.listeners.prepend record.lock (g, i) }

def mutexGroupListen (s : State) (g : GroupId) : Option State := do
  let num := (s.group g).num
  let s ← (List.range num).reverse.foldlM (listenSlot g) s
  some ((s.observe (.listened g num)).continueAt (.ret 0))

/-- One turn of the loop of `mutex_group_unlisten`. -/
def unlistenSlot (g : GroupId) (s : State) (i : Nat) : Option State :=
  if s.listeners.linked (g, i) then
    let s := s.setSlot (g, i) { (s.group g).slot i with message := 0 }
    some { s with listeners := s.listeners.unlink (g, i) }
  else none

def mutexGroupUnlisten (s : State) (g : GroupId) : Option State := do
  let s ← (List.range (s.group g).num).reverse.foldlM (unlistenSlot g) s
  some ((s.observe (.unlistened g)).continueAt (.ret 0))

/-- `mutex_group_wait` from the head of its loop: find an active slot or suspend the task. -/
def groupWaitLoop (s : State) (g : GroupId) : State :=
  match (List.range (s.group g).num).reverse.find? fun i => ((s.group g).slot i).active with
  | some i =>
    let record := (s.group g).slot i
    let s := s.setSlot (g, i) { record with active := false }
    (s.observe (.delivered g i record.lock record.message)).continueAt (.ret 0)
  | none =>
    let s := { s with queues := s.queues.unlink s.taskCurrent }
    let s := s.setGroup g { s.group g with waiter := some s.taskCurrent }
    (s.continueAt (.groupWait g)).taskSchedule

def mutexGroupWait (s : State) (g : GroupId) : Option State :=
  if (s.task s.taskCurrent).wait.isSome ∨ (s.group g).num = 0 then none
  else some (s.groupWaitLoop g)

def serveIrq (s : State) (irq : Irq) (answer : Answer) : Option State :=
  match (s.mutexIrq irq).lock with
  | none => some s
  | some m =>
    if (s.mutexIrq irq).handler.isSome then
      let s := s.observe (.arrived irq (s.mutex m).master)
      if (s.mutex m).master.isSome then
        some (s.setIrq irq { s.mutexIrq irq with pending := true })
      else do
        let s ← s.callHandler irq m answer
        if answer.served then some s else s.mutexActivate m 0
    else s.mutexActivate m 0

/-- The common part of the interrupt handler: serve the interrupts that are raised, then switch to
the most priority task if needed. -/
def irqHandler (s : State) (irqs : List (Irq × Answer)) : Option State := do
  let s ← irqs.foldlM (fun s irq => s.serveIrq irq.1 irq.2) s
  some s.scheduleIfNeeded

end State
end Uos
