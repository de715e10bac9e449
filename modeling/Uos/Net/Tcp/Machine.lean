import Uos.Library.Execution
import Uos.Net.Tcp.User

/-!
# TCP as a state machine

A user calls a function or goes on inside one, a segment arrives, or a timer ticks.  Each transition
is one stretch of code under one lock, up to the next wait or to the lock of something else.
-/

namespace Uos

/-- What happens next; a segment has the header and the data that `tcp_input` found in it. -/
inductive TcpEvent
  | connect (ipaddr : IpAddr) (port : UShort)
  | listen (ipaddr : IpAddr) (port : UShort)
  | accept (s : SocketId)
  | write (s : SocketId) (data : List UChar)
  | readPoll (s : SocketId) (nonblock : Bool)
  | close (s : SocketId)
  | abort (s : SocketId)
  /-- One of the calls that have not returned goes on. -/
  | resume (i : Nat)
  | segment (h : TcpHdr) (p : Buf)
  | slowtmr
  | fasttmr

/-- The stack with the calls that have not returned. -/
structure TcpStack where
  ip : Ip
  calls : List Pending := []

/-- The TCP part of a stack as `ip_init` leaves it. -/
structure Ip.Initial (ip : Ip) : Prop where
  tcpSocket : ip.tcpSocket = fun _ => {}
  tcpNext : ip.tcpNext = fun _ => none
  tcpListenSockets : ip.tcpListenSockets = none
  tcpSockets : ip.tcpSockets = none
  tcpClosingSockets : ip.tcpClosingSockets = none
  tcpTicks : ip.tcpTicks = 0
  tcpPort : ip.tcpPort = tcpLocalPortRangeStart
  tcpSeqno : ip.tcpSeqno = 6510
  tcpInputSocket : ip.tcpInputSocket = none
  tcpAlive : ip.tcpAlive = fun _ => false
  tcpFresh : ip.tcpFresh = 0
  arrived : ip.arrived = []

/-- No user has called a function yet. -/
structure TcpStack.Initial (stack : TcpStack) : Prop where
  ip : stack.ip.Initial
  calls : stack.calls = []

namespace TcpStack

/-- Whether an event can happen: a user has only sockets that were not freed, an `unsigned short`
holds the length of the data, and `tcp_input` drops broadcasts and multicasts. -/
def admits (stack : TcpStack) : TcpEvent → Bool
  | .accept s | .readPoll s _ | .close s | .abort s => stack.ip.tcpAlive s
  | .write s data => stack.ip.tcpAlive s && data.length < 65536
  | .resume i => (stack.calls[i]?.map fun call => stack.ip.tcpAlive call.socket).getD false
  | .segment h _ => !h.destIp.isBroadcast && !h.destIp.isMulticast
  | _ => true

/-- What happens to the stack, and what is left of the call. -/
def act (turns : Nat) (stack : TcpStack) : TcpEvent → Option (Ip × Option Pending)
  | .connect ipaddr port => Ip.tcpConnect turns stack.ip ipaddr port
  | .listen ipaddr port => (Ip.tcpListen turns stack.ip ipaddr port).map (·, none)
  | .accept s => some (stack.ip.acceptWait s)
  | .write s data => stack.ip.tcpWrite s data
  | .readPoll s nonblock => some (stack.ip.tcpReadPoll s nonblock)
  | .close s => stack.ip.tcpClose s
  | .abort s => some (stack.ip.tcpAbort s)
  | .resume i => stack.calls[i]?.bind (Ip.resume turns stack.ip)
  | .segment h p => (Ip.tcpInput turns stack.ip h p).map fun (ip, _) => (ip, none)
  | .slowtmr => (Ip.tcpSlowtmr turns stack.ip).map fun (ip, _) => (ip, none)
  | .fasttmr => (Ip.tcpFasttmr turns stack.ip).map (·, none)

def waiting (stack : TcpStack) : TcpEvent → List Pending
  | .resume i => stack.calls.eraseIdx i
  | _ => stack.calls

/-- One transition, with a bound on the turns of every loop. -/
def step (turns : Nat) (stack : TcpStack) (event : TcpEvent) : Option TcpStack :=
  if stack.admits event then
    (stack.act turns event).map fun (ip, next) =>
      { ip, calls := stack.waiting event ++ next.toList }
  else none

/-- One transition of the stack; `none` of `TcpStack.step` for every bound is a halt. -/
def Step (stack : TcpStack) (event : TcpEvent) (stack' : TcpStack) : Prop :=
  ∃ turns, stack.step turns event = some stack'

/-- Some transition whose state and event satisfy a condition. -/
def StepIf (condition : TcpStack → TcpEvent → Prop) (stack stack' : TcpStack) : Prop :=
  ∃ event, condition stack event ∧ stack.Step event stack'

/-- A run, all of whose transitions satisfy a condition. -/
abbrev RunIf (condition : TcpStack → TcpEvent → Prop) : TcpStack → TcpStack → Prop :=
  Relation.ReflTransGen (StepIf condition)

variable {turns : Nat} {stack : TcpStack}

theorem step_eq_some {stack' : TcpStack} {event : TcpEvent} :
    stack.step turns event = some stack' ↔
      stack.admits event = true ∧ ∃ ip next, stack.act turns event = some (ip, next) ∧
        stack' = { ip, calls := stack.waiting event ++ next.toList } := by
  rw [step]
  split
  · rename_i admitted
    simp [admitted, eq_comm]
  · rename_i refused
    simp [refused]

def execute (turns : Nat) (stack : TcpStack) (events : List TcpEvent) : Option TcpStack :=
  events.foldlM (step turns) stack

theorem execute_run {condition : TcpStack → TcpEvent → Prop} {stack' : TcpStack}
    {events : List TcpEvent} (holds : ∀ x, ∀ event ∈ events, condition x event)
    (result : stack.execute turns events = some stack') : RunIf condition stack stack' := by
  refine foldlM_run (fun x event member x' first => ?_) result
  exact ⟨event, holds x event member, turns, first⟩

def after (turns : Nat) (stack : TcpStack) (events : List TcpEvent) : TcpStack :=
  (stack.execute turns events).getD stack

theorem after_run {condition : TcpStack → TcpEvent → Prop} {events : List TcpEvent}
    (holds : ∀ x, ∀ event ∈ events, condition x event)
    (succeeds : (stack.execute turns events).isSome = true) :
    RunIf condition stack (stack.after turns events) := by
  obtain ⟨stack', ends⟩ := Option.isSome_iff_exists.mp succeeds
  simpa [after, ends] using execute_run holds ends

/-- A stack at the start, with the answers of the memory allocator. -/
def boot (memory : List Bool) : TcpStack where
  ip := { target := .i386, wideShift := fun _ => 0, memory }

theorem boot_initial (memory : List Bool) : (boot memory).Initial :=
  ⟨⟨rfl, rfl, rfl, rfl, rfl, rfl, rfl, rfl, rfl, rfl, rfl, rfl⟩, rfl⟩

end TcpStack
end Uos
