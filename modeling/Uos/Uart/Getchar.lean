import Uos.Library.Execution
import Uos.Library.Rings
import Uos.Net.Bytes

/-!
# Characters from a UART

The input of the driver `uart/uart.c`: the receive task `uart_receiver` and calls of `uart_getchar`
and `uart_peekchar` by any number of tasks, under the lock `receiver`, which an interrupt without a
handler signals.
-/

namespace Uos

/-- Where a task is in `uart_getchar`. -/
inductive Getchar
  /-- Not in a call. -/
  | idle
  /-- In front of the condition of the loop. -/
  | loop
  /-- In `mutex_wait`, without the lock, and not activated. -/
  | waiting
  /-- In `mutex_wait`, activated, and in need of the lock. -/
  | active
  deriving DecidableEq

/-- `mutex_activate`, for one task. -/
def Getchar.activate : Getchar → Getchar
  | waiting => active
  | state => state

/-- Where the receive task is in `uart_receiver`. -/
inductive Receiver
  /-- In front of `mutex_lock_irq`. -/
  | start
  /-- In front of `mutex_wait`. -/
  | loop
  /-- In `mutex_wait`, without the lock, and not activated. -/
  | waiting
  /-- In `mutex_wait`, activated, and in need of the lock. -/
  | active
  /-- Behind `mutex_wait`. -/
  | body
  deriving DecidableEq

/-- `mutex_activate`, for the receive task. -/
def Receiver.activate : Receiver → Receiver
  | waiting => active
  | state => state

/-- The input of a `uart_t` and its tasks; `free` says that no task has the lock `receiver`.
Besides, the bytes for which the receive task found room, and those that `uart_getchar` returned. -/
structure UartRx (Task : Type*) where
  input : Ring UChar
  free : Bool := true
  receiver : Receiver := .start
  tasks : Task → Getchar := fun _ => .idle
  pending : Bool := false
  accepted : List UChar := []
  returned : List UChar := []

/-- What happens at a UART, one thing at a time. -/
inductive UartRxEvent (Task : Type*)
  /-- The port requests an interrupt. -/
  | request
  /-- The interrupt comes. -/
  | interrupt
  /-- The receive task goes on; the byte that it finds at its port. -/
  | receive (data : Option UChar)
  /-- A task that is not in a call gets the lock in a call of `uart_getchar`. -/
  | call (task : Task)
  /-- A task goes on in `uart_getchar`. -/
  | go (task : Task)
  /-- A task calls `uart_peekchar`. -/
  | peek (task : Task)
  deriving DecidableEq

namespace UartRx

variable {Task : Type*} [DecidableEq Task]

/-- `mutex_activate` -/
def mutexActivate (s : UartRx Task) : UartRx Task :=
  { s with receiver := s.receiver.activate, tasks := fun task => (s.tasks task).activate }

/-- The body of the loop of `uart_receiver`, behind `mutex_wait`. -/
def receiveByte (data : Option UChar) (s : UartRx Task) : UartRx Task :=
  match data with
  | none => s
  | some c =>
    let newlast := s.input.next s.input.last
    if s.input.first = newlast then s
    else { s with input := s.input.put c newlast, accepted := s.accepted ++ [c] }

def uartReceiver (data : Option UChar) (s : UartRx Task) : UartRx Task :=
  match s.receiver with
  | .start => if s.free = true then { s with receiver := .loop, free := false } else s
  | .loop => { s with receiver := .waiting, free := true }
  | .waiting => s
  | .active => if s.free = true then { s with receiver := .body, free := false } else s
  | .body => { s.receiveByte data with receiver := .loop }

/-- What a task does next in `uart_getchar`. -/
def uartGetchar (task : Task) (s : UartRx Task) : UartRx Task :=
  match s.tasks task with
  | .idle | .waiting => s
  | .loop =>
    if s.input.first = s.input.last then
      { s with tasks := Function.update s.tasks task .waiting, free := true }
    else
      { s with
        tasks := Function.update s.tasks task .idle
        free := true
        input := s.input.take
        returned := s.returned ++ [s.input.cells s.input.first] }
  | .active =>
    if s.free = true then
      { s with tasks := Function.update s.tasks task .loop, free := false }
    else s

/-- `uart_peekchar`: the character, if there is one. -/
def uartPeekchar (s : UartRx Task) : Option UChar :=
  if s.input.first = s.input.last then none else some (s.input.cells s.input.first)

/-- One event.  `uart_peekchar` leaves everything as it is; an interrupt in front of
`mutex_lock_irq` is not bound to the lock. -/
def step (s : UartRx Task) : UartRxEvent Task → UartRx Task
  | .request => { s with pending := true }
  | .interrupt =>
    if s.pending = true ∧ s.receiver ≠ .start then { s.mutexActivate with pending := false }
    else s
  | .receive data => s.uartReceiver data
  | .call task =>
    if s.free = true ∧ s.tasks task = .idle then
      { s with tasks := Function.update s.tasks task .loop, free := false }
    else s
  | .go task => s.uartGetchar task
  | .peek _ => s

/-- The characters that were returned are, in order and once each, the bytes for which there was
room, but for those in the ring. -/
def Delivers (s : UartRx Task) : Prop :=
  s.accepted = s.returned ++ s.input.contents

/-- All tasks are blocked, and no interrupt is to come. -/
def Quiet (s : UartRx Task) : Prop :=
  s.pending = false ∧ s.receiver = .waiting ∧ ∀ task, s.tasks task = .idle ∨ s.tasks task = .waiting

/-- No task is left in `uart_getchar` while there is something for it in the ring. -/
def Wakes (s : UartRx Task) : Prop :=
  s.Quiet → ∀ task, s.tasks task = .waiting → s.input.contents = []

/-- Nothing goes wrong at an event: when the receive task goes on behind `mutex_wait` with a byte
from the port, no task waits in `uart_getchar`. -/
def Fits (s : UartRx Task) : UartRxEvent Task → Prop
  | .receive (some _) => s.receiver = .body → ∀ task, s.tasks task ≠ .waiting
  | _ => True

variable {s : UartRx Task}

theorem delivers_step (valid : s.input.Valid) (delivers : s.Delivers) (event : UartRxEvent Task) :
    (s.step event).input.Valid ∧ (s.step event).Delivers := by
  cases event with
  | request | peek => exact ⟨valid, delivers⟩
  | interrupt =>
    rw [step]
    split_ifs <;> exact ⟨valid, delivers⟩
  | call task =>
    rw [step]
    split_ifs <;> exact ⟨valid, delivers⟩
  | receive data =>
    rw [step, uartReceiver]
    split
    · split_ifs <;> exact ⟨valid, delivers⟩
    · exact ⟨valid, delivers⟩
    · exact ⟨valid, delivers⟩
    · split_ifs <;> exact ⟨valid, delivers⟩
    · rw [receiveByte.eq_def]
      split
      · exact ⟨valid, delivers⟩
      · rename_i c
        dsimp only
        split_ifs with full
        · exact ⟨valid, delivers⟩
        · refine ⟨valid.put c (Ring.next_lt (Nat.zero_lt_of_lt valid.first_lt) _), ?_⟩
          rw [Delivers, Ring.contents_put valid full, ← List.append_assoc]
          exact congrArg (· ++ [c]) delivers
  | go task =>
    rw [step, uartGetchar]
    split
    · exact ⟨valid, delivers⟩
    · exact ⟨valid, delivers⟩
    · split_ifs with empty
      · exact ⟨valid, delivers⟩
      · refine ⟨valid.take, ?_⟩
        rw [Delivers, List.append_assoc]
        exact delivers.trans (congrArg (s.returned ++ ·) (Ring.contents_take valid empty))
    · split_ifs <;> exact ⟨valid, delivers⟩

theorem waiting_of_update {tasks : Task → Getchar} {task other : Task} {state : Getchar}
    (goes : state ≠ .waiting) (waits : Function.update tasks task state other = .waiting) :
    tasks other = .waiting := by
  rcases eq_or_ne other task with rfl | ne
  · rw [Function.update_self] at waits
    exact absurd waits goes
  · rwa [Function.update_of_ne ne] at waits

theorem waiting_step (waiting : ∀ task, s.tasks task = .waiting → s.input.first = s.input.last)
    {event : UartRxEvent Task} (fits : s.Fits event) :
    ∀ task, (s.step event).tasks task = .waiting →
      (s.step event).input.first = (s.step event).input.last := by
  cases event with
  | request | peek => exact waiting
  | interrupt =>
    rw [step]
    split_ifs
    · intro task waits
      cases known : s.tasks task with
      | waiting => exact waiting task known
      | idle | loop | active =>
        rw [mutexActivate] at waits
        dsimp only at waits
        rw [known] at waits
        cases waits
    · exact waiting
  | call task =>
    rw [step]
    split_ifs
    · exact fun other waits => waiting other (waiting_of_update (by decide) waits)
    · exact waiting
  | receive data =>
    rw [step, uartReceiver]
    split
    · split_ifs <;> exact waiting
    · exact waiting
    · exact waiting
    · split_ifs <;> exact waiting
    · rename_i body
      cases data with
      | none => exact waiting
      | some c =>
        rw [receiveByte]
        split_ifs
        · exact waiting
        · exact fun task waits => absurd waits (fits body task)
  | go task =>
    rw [step, uartGetchar]
    split
    · exact waiting
    · exact waiting
    · split_ifs with empty
      · exact fun _ _ => empty
      · intro other waits
        exact absurd (waiting other (waiting_of_update (by decide) waits)) empty
    · split_ifs
      · exact fun other waits => waiting other (waiting_of_update (by decide) waits)
      · exact waiting

/-- An event at which nothing goes wrong. -/
def FittingStep (s s' : UartRx Task) : Prop :=
  ∃ event, s.Fits event ∧ s' = s.step event

/-- The input behind `uart_init`, with what happens to be in the ring. -/
def init (size : Nat) (cells : Nat → UChar) : UartRx Task where
  input := { size, cells }

/-- The state behind some events, with one task and eight cells. -/
def after (events : List (UartRxEvent Unit)) : UartRx Unit :=
  events.foldl step (init 8 fun _ => 0)

/-- A task waits, a byte comes, and the task looks at the ring before the receive task has taken the
byte. -/
def early : List (UartRxEvent Unit) :=
  [.receive none, .receive none, .call (), .go (), .request, .interrupt, .go (), .go (),
    .receive none, .receive (some 97), .receive none]

theorem after_early :
    (after early).Quiet ∧ (after early).tasks () = .waiting ∧
      (after early).input.contents = [97] := by
  have waiting : (after early).tasks () = .waiting := by decide +kernel
  exact ⟨⟨by decide +kernel, by decide +kernel, fun _ => .inr waiting⟩, waiting, by decide +kernel⟩

end UartRx
end Uos
