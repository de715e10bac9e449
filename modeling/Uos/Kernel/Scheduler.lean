import Mathlib.Order.Lattice
import Mathlib.Order.Defs.LinearOrder
import Uos.Kernel.State

/-!
# Scheduling, priorities and activation

The functions of `internal.h`, `main.c` and the priority functions of `mutex.c`.  A function that
can fail an assertion returns `none` there: the kernel then halts.  The two functions that
recalculate priorities call each other along the chain of locks and owners; they take the number of
calls they may make, and also return `none` when it is used up.
-/

namespace Uos
namespace State

/-- Whether a task is blocked on a lock or waits for a signal. -/
def taskIsWaiting (s : State) (t : TaskId) : Bool :=
  (s.task t).lock.isSome || (s.task t).wait.isSome

def taskActivate (s : State) (t : TaskId) : Option State :=
  if s.taskIsWaiting t then none
  else
    some
      { s with
        queues := s.queues.append .active t
        taskNeedSchedule :=
          s.taskNeedSchedule || decide ((s.task s.taskCurrent).prio < (s.task t).prio) }

/-- Find the task with the biggest priority, the first one in the list of ready tasks. -/
def taskPolicy (s : State) : TaskId :=
  s.active.foldl (fun r t => if (s.task r).prio < (s.task t).prio then t else r) taskIdle

def taskSchedule (s : State) : State :=
  { s with taskNeedSchedule := false, taskCurrent := s.taskPolicy }

/-- The end of most kernel functions: `if (task_need_schedule) task_schedule ()`. -/
def scheduleIfNeeded (s : State) : State :=
  if s.taskNeedSchedule then s.taskSchedule else s

/-- One turn of the first loop of `mutex_activate`. -/
def wakeWaiter (m : MutexId) (message : Message) (s : State) (t : TaskId) : Option State :=
  if (s.task t).wait = some m then
    (s.setTask t { s.task t with wait := none, message := message }).taskActivate t
  else none

def setSlot (s : State) (slot : GroupId × Nat) (record : Slot) : State :=
  s.setGroup slot.1
    { s.group slot.1 with slot := Function.update (s.group slot.1).slot slot.2 record }

/-- One turn of the second loop of `mutex_activate`. -/
def notifySlot (m : MutexId) (message : Message) (s : State) (slot : GroupId × Nat) :
    Option State :=
  let record := (s.group slot.1).slot slot.2
  if record.lock = m then
    let s := s.setSlot slot { record with message := message, active := true }
    match (s.group slot.1).waiter with
    | none => some s
    | some t =>
      if s.queues.linked t then none
      else (s.setGroup slot.1 { s.group slot.1 with waiter := none }).taskActivate t
  else none

def mutexActivate (s : State) (m : MutexId) (message : Message) : Option State := do
  let s := s.observe (.activated m message)
  let s ← (s.waiters m).foldlM (wakeWaiter m message) s
  (s.listeners.nodes m).foldlM (notifySlot m message) s

/-- Maximum of the base priority and the priorities of all acquired locks. -/
def taskSlavesPrio (s : State) (t : TaskId) : Int :=
  ((s.owned.nodes t).map fun m => (s.mutex m).prio).foldl max (s.task t).basePrio

def mutexSlavesPrio (s : State) (m : MutexId) : Int :=
  ((s.slaves m).map fun t => (s.task t).prio).foldl max 0

mutual

/-- Recalculate task priority, based on priorities of acquired locks. -/
def taskRecalculatePrio : Nat → State → TaskId → Option State
  | 0, _, _ => none
  | calls + 1, before, t =>
    let oldPrio := (before.task t).prio
    let prio := before.taskSlavesPrio t
    let s := before.setTask t { before.task t with prio := prio }
    if prio = oldPrio then some s
    else
      match (s.task t).lock with
      | some m =>
        if oldPrio < prio then
          if (s.mutex m).prio < prio then mutexRecalculatePrio calls s m else some s
        else if (s.mutex m).prio ≤ oldPrio then mutexRecalculatePrio calls s m
        else some s
      | none =>
        if oldPrio < prio then
          if (s.task s.taskCurrent).prio < prio ∧ ¬s.taskIsWaiting t then
            some { s with taskNeedSchedule := true }
          else some s
        else if t = s.taskCurrent then some { s with taskNeedSchedule := true }
        else some s

/-- Recalculate lock priority, based on priorities of waiting tasks. -/
def mutexRecalculatePrio : Nat → State → MutexId → Option State
  | 0, _, _ => none
  | calls + 1, before, m =>
    let oldPrio := (before.mutex m).prio
    let prio := before.mutexSlavesPrio m
    let s := before.setMutex m { before.mutex m with prio := prio }
    if prio = oldPrio then some s
    else
      match (s.mutex m).master with
      | none => some s
      | some owner =>
        if oldPrio < prio then
          if (s.task owner).prio < prio then taskRecalculatePrio calls s owner else some s
        else if (s.task owner).prio ≤ oldPrio ∧ (s.task owner).basePrio < oldPrio then
          taskRecalculatePrio calls s owner
        else some s

end

end State
end Uos
