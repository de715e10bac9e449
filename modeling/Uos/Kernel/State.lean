import Mathlib.Algebra.Order.Ring.Int
import Uos.Library.LinkedLists

/-!
# The data of the kernel

The records of `kernel/uos.h` and `kernel/internal.h`.  A list header and the items behind it are
kept together in one family of lists for each kind of item: task items, lock items and group slot
items.  A lock or group that is still zeroed memory and one that its `init` function has set up are
the same record here, so the lazy `if (! m->item.next) mutex_init (m)` changes nothing.
-/

namespace Uos

/-- A `task_t *`.  The idle task is number 0. -/
abbrev TaskId := Nat

/-- A `mutex_group_t *`. -/
abbrev GroupId := Nat

/-- An interrupt number, the index of its entry in `mutex_irq []`. -/
abbrev Irq := Nat

/-- A `void *` passed from a signaller to a waiter; 0 is the null pointer. -/
abbrev Message := Nat

/-- A `mutex_t *`: a lock of the user, or the field `finish` of a task. -/
inductive MutexId
  | lock (number : Nat)
  | finish (task : TaskId)
  deriving DecidableEq

/-- The type `small_int_t` of `runtime/*/types.h`: `signed char` on AVR, `int` elsewhere. -/
inductive SmallInt
  | char8
  | int16
  | int32
  deriving DecidableEq

namespace SmallInt

def bits : SmallInt → Nat
  | char8 => 8
  | int16 => 16
  | int32 => 32

/-- Conversion of an integer to `small_int_t`. -/
def wrap (small : SmallInt) (value : Int) : Int :=
  value.bmod (2 ^ small.bits)

def max (small : SmallInt) : Int :=
  2 ^ (small.bits - 1) - 1

theorem max_pos (small : SmallInt) : 0 < small.max := by
  cases small <;> decide

theorem wrap_eq {small : SmallInt} {value : Int} (low : -small.max ≤ value)
    (high : value ≤ small.max) : small.wrap value = value := by
  cases small <;> simp only [max, bits] at low high <;>
    exact Int.bmod_eq_of_le (by simp [bits]; omega) (by simp [bits]; omega)

end SmallInt

/-- `struct _task_t`, without the fields that no function of the kernel reads. -/
structure Task where
  /-- Lock, blocking the task. -/
  lock : Option MutexId := none
  /-- Lock, the task is waiting for. -/
  wait : Option MutexId := none
  /-- Return value for `mutex_wait`. -/
  message : Message := 0
  /-- Initial task priority. -/
  basePrio : Int := 0
  /-- Current task priority. -/
  prio : Int := 0

/-- `struct _mutex_t`, without its list headers. -/
structure Mutex where
  /-- Task, acquired the lock. -/
  master : Option TaskId := none
  /-- Irq, associated with the lock. -/
  irq : Option Irq := none
  /-- Current lock priority.  Every value comes from a `small_int_t`, which an `int` holds. -/
  prio : Int := 0
  /-- Recursive locking depth. -/
  deep : Int := 0

/-- `struct _mutex_irq_t`. -/
structure MutexIrq where
  /-- Lock, associated with this irq. -/
  lock : Option MutexId := none
  /-- Fast interrupt handler. -/
  handler : Option Nat := none
  /-- Argument for the fast handler. -/
  arg : Nat := 0
  /-- Irq number. -/
  irq : Irq := 0
  /-- Interrupt is pending. -/
  pending : Bool := false

/-- `struct _mutex_slot_t`: a group element. -/
structure Slot where
  /-- Link to the related lock. -/
  lock : MutexId := .lock 0
  /-- Return value for `mutex_group_wait`. -/
  message : Message := 0
  /-- Set when the lock was signalled. -/
  active : Bool := false

/-- `struct _mutex_group_t`: an array of slots. -/
structure Group where
  /-- The waiting task pointer. -/
  waiter : Option TaskId := none
  /-- Size of the array of slots. -/
  size : Nat := 0
  /-- Number of elements in the array of slots. -/
  num : Nat := 0
  /-- The array of slots. -/
  slot : Nat → Slot := fun _ => {}

/-- The lists a task item can be in. -/
inductive Queue
  /-- `task_active`. -/
  | active
  /-- The tasks that wait for a lock to be released. -/
  | slaves (mutex : MutexId)
  /-- The tasks stopped in `mutex_wait`. -/
  | waiters (mutex : MutexId)
  deriving DecidableEq

/-- Where a task continues when the scheduler switches to it.  A task that runs its own code, or
was interrupted there, is at `user`; every other constructor is the point after a call of
`task_schedule` inside a kernel function, or the end of that function, with interrupts disabled. -/
inductive Context
  | user
  /-- The function is about to restore interrupts and return a value. -/
  | ret (value : Message)
  /-- The head of the loop of `mutex_lock`. -/
  | lock (mutex : MutexId)
  /-- The head of the loop of `mutex_lock_irq`. -/
  | lockIrq (mutex : MutexId) (irq : Irq) (handler : Option Nat) (arg : Nat)
  /-- `mutex_wait` of a task that does not keep the lock, after its `task_schedule`. -/
  | waitMessage
  /-- The head of the second loop of `mutex_wait`, with the saved depth. -/
  | relock (mutex : MutexId) (deep : Int)
  /-- The head of the loop of `mutex_group_wait`. -/
  | groupWait (group : GroupId)
  /-- The head of the loop of `task_delete`. -/
  | delete (task : TaskId) (message : Message)
  /-- The end of `task_delete`, after its `mutex_signal`. -/
  | deleted
  deriving DecidableEq

/-- Whether a task was created, and whether `task_delete` was called for it. -/
inductive Life
  | unborn
  | alive
  | deleted
  deriving DecidableEq

/-- What the world outside the kernel can see of a run. -/
inductive Observation
  /-- `mutex_signal` was called. -/
  | signalled (mutex : MutexId) (message : Message)
  /-- `mutex_activate` was called. -/
  | activated (mutex : MutexId) (message : Message)
  /-- An interrupt with a fast handler arrived while its lock had the given master. -/
  | arrived (irq : Irq) (master : Option TaskId)
  /-- A task called the fast handler while the lock had the given master. -/
  | handled (irq : Irq) (master : Option TaskId) (caller : TaskId)
  /-- `mutex_group_listen` attached the first `num` slots of a group. -/
  | listened (group : GroupId) (num : Nat)
  /-- `mutex_group_unlisten` was called. -/
  | unlistened (group : GroupId)
  /-- `mutex_group_wait` returned the lock and the message of a slot. -/
  | delivered (group : GroupId) (slot : Nat) (mutex : MutexId) (message : Message)
  /-- A kernel function returned a value to a task. -/
  | returned (task : TaskId) (value : Message)
  deriving DecidableEq

/-- The global data of the kernel. -/
structure State where
  /-- The width of `small_int_t` on this machine. -/
  small : SmallInt
  /-- The task records. -/
  task : TaskId → Task
  /-- The lock records. -/
  mutex : MutexId → Mutex
  /-- The group records. -/
  group : GroupId → Group
  /-- The table of interrupt handlers. -/
  mutexIrq : Irq → MutexIrq
  /-- `task_active` and the lists `slaves` and `waiters` of every lock. -/
  queues : LinkedLists Queue TaskId
  /-- The list `slaves` of every task: the locks it acquired. -/
  owned : LinkedLists TaskId MutexId
  /-- The list `groups` of every lock: the group slots waiting for a signal. -/
  listeners : LinkedLists MutexId (GroupId × Nat)
  /-- Current running task. -/
  taskCurrent : TaskId
  /-- Global flag set when `task_active` is updated. -/
  taskNeedSchedule : Bool
  /-- Where each task continues. -/
  context : TaskId → Context
  /-- Which tasks exist. -/
  life : TaskId → Life
  /-- What was observed so far, oldest first. -/
  trace : List Observation

/-- `task_idle`. -/
def taskIdle : TaskId := 0

namespace State

/-- The state in which `main` calls `uos_init`: the idle task is the only one. -/
def init (small : SmallInt) : State where
  small := small
  task _ := {}
  mutex _ := {}
  group _ := {}
  mutexIrq _ := {}
  queues := LinkedLists.empty.append .active taskIdle
  owned := .empty
  listeners := .empty
  taskCurrent := taskIdle
  taskNeedSchedule := false
  context _ := .user
  life task := if task = taskIdle then .alive else .unborn
  trace := []

def setTask (s : State) (t : TaskId) (record : Task) : State :=
  { s with task := Function.update s.task t record }

def setMutex (s : State) (m : MutexId) (record : Mutex) : State :=
  { s with mutex := Function.update s.mutex m record }

def setGroup (s : State) (g : GroupId) (record : Group) : State :=
  { s with group := Function.update s.group g record }

def setIrq (s : State) (irq : Irq) (record : MutexIrq) : State :=
  { s with mutexIrq := Function.update s.mutexIrq irq record }

def setContext (s : State) (t : TaskId) (context : Context) : State :=
  { s with context := Function.update s.context t context }

def observe (s : State) (observation : Observation) : State :=
  { s with trace := s.trace ++ [observation] }

/-- The tasks ready to run, in the order of `task_active`. -/
abbrev active (s : State) : List TaskId :=
  s.queues.nodes .active

abbrev slaves (s : State) (m : MutexId) : List TaskId :=
  s.queues.nodes (.slaves m)

/-- The tasks stopped on `mutex_wait`. -/
abbrev waiters (s : State) (m : MutexId) : List TaskId :=
  s.queues.nodes (.waiters m)

end State
end Uos
