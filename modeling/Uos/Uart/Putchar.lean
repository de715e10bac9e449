import Uos.Library.Execution
import Uos.Library.Rings
import Uos.Net.Bytes

/-!
# Characters for a UART

The output of the driver `uart/uart.c`: calls of `uart_putchar` by any number of tasks, under the
lock `transmitter`, and runs of `uart_transmit_start`, in any order.
-/

namespace Uos

/-- What `uart_transmit_start` finds at its port. -/
structure UartPort where
  transmitter_empty : Bool
  cts : Bool
  deriving DecidableEq

/-- Where a task is in `uart_putchar`, its character, and its `newlast`. -/
inductive Putchar
  /-- Not in a call. -/
  | idle
  /-- At the label `again`. -/
  | again (c : UShort)
  /-- In front of the condition of the loop. -/
  | loop (c : UShort) (newlast : Nat)
  /-- In `mutex_wait`, without the lock, and not activated. -/
  | waiting (c : UShort) (newlast : Nat)
  /-- In `mutex_wait`, activated, and in need of the lock. -/
  | active (c : UShort) (newlast : Nat)
  /-- Behind the loop. -/
  | store (c : UShort) (newlast : Nat)
  /-- In front of the call of `uart_transmit_start`. -/
  | start (c : UShort)
  deriving DecidableEq

/-- The character `'\n'` -/
def newline : UShort := 10

/-- The character `'\r'` -/
def carriageReturn : UShort := 13

namespace Putchar

/-- The task has the lock `transmitter`. -/
def Inside : Putchar → Prop
  | idle | waiting _ _ | active _ _ => False
  | again _ | loop _ _ | store _ _ | start _ => True

/-- `mutex_activate`, for one task. -/
def activate : Putchar → Putchar
  | waiting c newlast => active c newlast
  | state => state

end Putchar

/-- The output of a `uart_t` and its tasks; `expected` is what `uart_transmit_start` returned last,
whether a transmit interrupt is to come.  Besides, the calls of each task, what was stored, by which
task, and what was handed to `transmit_byte`. -/
structure UartTx (Task : Type*) where
  onlcr : Bool
  out : Ring UChar
  master : Option Task := none
  tasks : Task → Putchar := fun _ => .idle
  expected : Bool := false
  calls : Task → List UShort := fun _ => []
  stored : List (Task × UChar) := []
  sent : List UChar := []

/-- What happens at a UART, one thing at a time. -/
inductive UartTxEvent (Task : Type*)
  /-- A task that is not in a call gets the lock in a call of `uart_putchar`. -/
  | call (task : Task) (c : UShort)
  /-- The task goes on; its port if a transmit interrupt is pending in `mutex_wait`, and its port in
  `uart_transmit_start`. -/
  | go (task : Task) (pending : Option UartPort) (port : UartPort)
  /-- A transmit interrupt. -/
  | interrupt (port : UartPort)
  /-- The receive task or `uart_cts_ready` calls `uart_transmit_start`. -/
  | run (port : UartPort)
  deriving DecidableEq

namespace UartTx

variable {Task : Type*} [DecidableEq Task]

/-- `mutex_activate` -/
def mutexActivate (s : UartTx Task) : UartTx Task :=
  { s with tasks := fun task => (s.tasks task).activate }

/-- `uart_transmit_start`; its result is in `expected`. -/
def transmitStart (port : UartPort) (s : UartTx Task) : UartTx Task :=
  let s := if s.out.first = s.out.last then s.mutexActivate else s
  if !port.transmitter_empty then { s with expected := true }
  else if s.out.first = s.out.last ∨ port.cts = false then { s with expected := false }
  else
    { s with sent := s.sent ++ [s.out.cells s.out.first], out := s.out.take, expected := true }

/-- `uart_transmit_start` as the handler of the interrupt. -/
def handler (port : UartPort) (s : UartTx Task) : UartTx Task :=
  let s := s.transmitStart port
  if s.expected then s else s.mutexActivate

def setTask (task : Task) (state : Putchar) (s : UartTx Task) : UartTx Task :=
  { s with tasks := Function.update s.tasks task state }

/-- `mutex_wait` in front of `task_schedule`, in the loop of `uart_putchar`.  Without a need for an
interrupt after a pending one, the task goes on at once. -/
def mutexWait (task : Task) (c : UShort) (newlast : Nat) (pending : Option UartPort)
    (s : UartTx Task) : UartTx Task :=
  let wait (s : UartTx Task) := { s.setTask task (.waiting c newlast) with master := none }
  match pending with
  | none => wait s
  | some port =>
    let s := s.transmitStart port
    if s.expected then wait s else s.mutexActivate

/-- What a task does next in `uart_putchar`. -/
def go (task : Task) (pending : Option UartPort) (port : UartPort) (s : UartTx Task) :
    UartTx Task :=
  match s.tasks task with
  | .idle | .waiting _ _ => s
  | .again c => s.setTask task (.loop c (s.out.next s.out.last))
  | .loop c newlast =>
    if s.out.first = newlast then s.mutexWait task c newlast pending
    else s.setTask task (.store c newlast)
  | .active c newlast =>
    if s.master = none then { s.setTask task (.loop c newlast) with master := some task } else s
  | .store c newlast =>
    let byte : UChar := c.setWidth 8
    { s.setTask task (.start c) with
      out := s.out.put byte newlast, stored := s.stored ++ [(task, byte)] }
  | .start c =>
    let s := s.transmitStart port
    if s.onlcr = true ∧ c = newline then s.setTask task (.again carriageReturn)
    else { s.setTask task .idle with master := none }

def step (s : UartTx Task) : UartTxEvent Task → UartTx Task
  | .call task c =>
    if s.master = none ∧ s.tasks task = .idle then
      { s.setTask task (.again c) with
        master := some task
        calls := Function.update s.calls task (s.calls task ++ [c]) }
    else s
  | .go task pending port => s.go task pending port
  | .interrupt port => s.handler port
  | .run port => s.transmitStart port

end UartTx
end Uos
