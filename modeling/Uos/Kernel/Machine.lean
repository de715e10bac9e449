import Mathlib.Logic.Relation
import Uos.Kernel.Calls

/-!
# The kernel as a state machine

The running task makes a call, an interrupt arrives while the running task executes its own code,
or the running task goes on inside a kernel function.  Each transition is one stretch of kernel
code that runs with interrupts disabled, up to a call of `task_schedule` or to the return to the
task.
-/

namespace Uos

/-- A call of a kernel function with its arguments. -/
inductive Call
  | taskCreate (t : TaskId) (prio : Int)
  | taskDelete (t : TaskId) (message : Message)
  | taskSetPriority (t : TaskId) (prio : Int)
  | taskYield
  | mutexLock (m : MutexId)
  | mutexTrylock (m : MutexId)
  | mutexLockIrq (m : MutexId) (irq : Irq) (handler : Option Nat) (arg : Nat)
  | mutexUnlock (m : MutexId)
  | mutexUnlockIrq (m : MutexId)
  | mutexAttachIrq (m : MutexId) (irq : Irq) (handler : Option Nat) (arg : Nat)
  | mutexSignal (m : MutexId) (message : Message)
  | mutexWait (m : MutexId)
  | mutexGroupInit (g : GroupId) (size : Nat)
  | mutexGroupAdd (g : GroupId) (m : MutexId)
  | mutexGroupListen (g : GroupId)
  | mutexGroupUnlisten (g : GroupId)
  | mutexGroupWait (g : GroupId)
  /-- The call of `task_schedule` in `main`, after `uos_init`. -/
  | taskSchedule
  deriving DecidableEq

/-- What happens next; an answer is that of the fast handler, should one be called. -/
inductive Event
  /-- The running task calls a kernel function. -/
  | call (call : Call) (answer : Answer)
  /-- Interrupts arrive and are served together. -/
  | interrupt (irqs : List (Irq × Answer))
  /-- The running task goes on inside a kernel function. -/
  | resume (answer : Answer)

namespace State

/-- Whether the memory of a lock belongs to an existing object. -/
def knows (s : State) : MutexId → Bool
  | .lock _ => true
  | .finish t => s.life t ≠ .unborn

/-- Whether the objects named by a call exist; a task is created in memory not in use. -/
def admits (s : State) : Call → Bool
  | .taskCreate t _ => s.life t = .unborn
  | .taskDelete t _ | .taskSetPriority t _ => s.life t ≠ .unborn
  | .mutexLock m | .mutexTrylock m | .mutexLockIrq m _ _ _ | .mutexUnlock m
  | .mutexUnlockIrq m | .mutexAttachIrq m _ _ _ | .mutexSignal m _ | .mutexWait m
  | .mutexGroupAdd _ m => s.knows m
  | .taskSchedule => s.taskCurrent = taskIdle
  | _ => true

/-- Execute a call up to its first call of `task_schedule` or its return. -/
def call (calls : Nat) (s : State) (c : Call) (answer : Answer) : Option State :=
  if s.admits c then
    match c with
    | .taskCreate t prio => s.taskCreate t prio
    | .taskDelete t message => taskDelete calls s t message
    | .taskSetPriority t prio => taskSetPriority calls s t prio
    | .taskYield => some s.taskYield
    | .mutexLock m => s.mutexLock m
    | .mutexTrylock m => s.mutexTrylock m
    | .mutexLockIrq m irq handler arg => s.mutexLockIrq m irq handler arg
    | .mutexUnlock m => mutexUnlock calls s m answer (.ret 0)
    | .mutexUnlockIrq m => mutexUnlockIrq calls s m answer
    | .mutexAttachIrq m irq handler arg => s.mutexAttachIrq m irq handler arg
    | .mutexSignal m message => s.mutexSignal m message (.ret 0)
    | .mutexWait m => mutexWait calls s m answer
    | .mutexGroupInit g size => some (s.mutexGroupInit g size)
    | .mutexGroupAdd g m => some (s.mutexGroupAdd g m)
    | .mutexGroupListen g => s.mutexGroupListen g
    | .mutexGroupUnlisten g => s.mutexGroupUnlisten g
    | .mutexGroupWait g => s.mutexGroupWait g
    | .taskSchedule => some s.taskSchedule
  else none

def resume (calls : Nat) (s : State) (answer : Answer) : Option State :=
  match s.context s.taskCurrent with
  | .user => none
  | .ret value => some ((s.continueAt .user).observe (.returned s.taskCurrent value))
  | .lock m => s.lockLoop m (.lock m) (·.continueAt (.ret 0))
  | .lockIrq m irq handler arg => s.mutexLockIrq m irq handler arg
  | .waitMessage => some (s.continueAt (.ret (s.task s.taskCurrent).message))
  | .relock m deep => s.relockLoop m deep
  | .groupWait g => some (s.groupWaitLoop g)
  | .delete t message => deleteLoop calls s t message answer
  | .deleted => some (s.continueAt (.ret 0)).scheduleIfNeeded

/-- One transition, with a bound on the length of a chain of priority recalculations. -/
def step (calls : Nat) (s : State) : Event → Option State
  | .call c answer =>
    if s.context s.taskCurrent = .user then State.call calls s c answer else none
  | .interrupt irqs => if s.context s.taskCurrent = .user then s.irqHandler irqs else none
  | .resume answer => State.resume calls s answer

end State

/-- One transition of the kernel; `none` of `State.step` for every bound is a halt. -/
def Step (s : State) (event : Event) (s' : State) : Prop :=
  ∃ calls, State.step calls s event = some s'

/-- Some transition whose state and event satisfy a condition. -/
def StepIf (condition : State → Event → Prop) (s s' : State) : Prop :=
  ∃ event, condition s event ∧ Step s event s'

/-- A run, all of whose transitions satisfy a condition. -/
abbrev RunIf (condition : State → Event → Prop) : State → State → Prop :=
  Relation.ReflTransGen (StepIf condition)

/-- A run, an interleaving of calls of the tasks and of interrupts. -/
abbrev Run : State → State → Prop :=
  RunIf fun _ _ => True

/-- A state that some run of a kernel reaches from the start of `uos_init`. -/
def Reachable (s : State) : Prop :=
  ∃ small, Run (.init small) s

def State.execute (calls : Nat) (s : State) (events : List Event) : Option State :=
  events.foldlM (State.step calls) s

variable {condition : State → Event → Prop} {calls : Nat} {s : State} {events : List Event}

theorem State.execute_run {s' : State} (holds : ∀ x, ∀ event ∈ events, condition x event)
    (result : s.execute calls events = some s') : RunIf condition s s' := by
  induction events generalizing s with
  | nil =>
    obtain rfl : s = s' := by simpa [State.execute] using result
    exact .refl
  | cons event events ih =>
    rw [State.execute, List.foldlM_cons] at result
    obtain ⟨middle, first, rest⟩ := Option.bind_eq_some_iff.mp result
    have later := ih (fun x other member => holds x other (.tail event member)) rest
    exact .head ⟨event, holds s event (.head events), calls, first⟩ later

def State.after (calls : Nat) (s : State) (events : List Event) : State :=
  (s.execute calls events).getD s

theorem State.after_runIf (holds : ∀ x, ∀ event ∈ events, condition x event)
    (succeeds : (s.execute calls events).isSome = true) :
    RunIf condition s (s.after calls events) := by
  obtain ⟨s', ends⟩ := Option.isSome_iff_exists.mp succeeds
  simpa [after, ends] using execute_run holds ends

theorem State.after_run (succeeds : (s.execute calls events).isSome = true) :
    Run s (s.after calls events) :=
  after_runIf (fun _ _ _ => trivial) succeeds

def State.executeIf (condition : State → Event → Prop) [∀ s event, Decidable (condition s event)]
    (calls : Nat) (s : State) (events : List Event) : Option State :=
  events.foldlM (fun s event => if condition s event then State.step calls s event else none) s

theorem State.executeIf_run [∀ s event, Decidable (condition s event)] {s' : State}
    (result : s.executeIf condition calls events = some s') : RunIf condition s s' := by
  induction events generalizing s with
  | nil =>
    obtain rfl : s = s' := by simpa [State.executeIf] using result
    exact .refl
  | cons event events ih =>
    rw [State.executeIf, List.foldlM_cons] at result
    obtain ⟨middle, first, rest⟩ := Option.bind_eq_some_iff.mp result
    split at first
    · rename_i holds
      exact .head ⟨event, holds, calls, first⟩ (ih rest)
    · contradiction

/-- The state after a list of events, all of which meet a condition. -/
def State.afterIf (condition : State → Event → Prop) [∀ s event, Decidable (condition s event)]
    (calls : Nat) (s : State) (events : List Event) : State :=
  (s.executeIf condition calls events).getD s

theorem State.afterIf_run [∀ s event, Decidable (condition s event)]
    (succeeds : (s.executeIf condition calls events).isSome = true) :
    RunIf condition s (s.afterIf condition calls events) := by
  obtain ⟨s', ends⟩ := Option.isSome_iff_exists.mp succeeds
  simpa [afterIf, ends] using executeIf_run ends

theorem State.after_step {event : Event}
    (succeeds : ((s.after calls events).step calls event).isSome = true) :
    Step (s.after calls events) event (((s.after calls events).step calls event).getD s) := by
  obtain ⟨s', result⟩ := Option.isSome_iff_exists.mp succeeds
  exact ⟨calls, by simp [result]⟩

end Uos
