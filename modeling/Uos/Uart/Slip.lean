import Uos.Net.Bytes

/-!
# SLIP

The driver `uart/slip.c`: its transmitter, which runs under the lock `transmitter`, and its
receiver, which is an interrupt handler and a task.
-/

namespace Uos

/-- `SLIP_FLAG` -/
def slipFlag : UChar := 0o300

/-- `SLIP_ESC` -/
def slipEsc : UChar := 0o333

/-- `SLIP_ESC_FLAG` -/
def slipEscFlag : UChar := 0o334

/-- `SLIP_ESC_ESC` -/
def slipEscEsc : UChar := 0o335

/-- A chain of buffers: its address, and the contents of its segments. -/
structure SlipPacket where
  buf : Nat
  first : List UChar
  others : List (List UChar)
  deriving DecidableEq

def SlipPacket.content (p : SlipPacket) : List UChar :=
  (p.first :: p.others).flatten

/-- The number of packets in `outqdata` and in `inqdata`. -/
def slipQueueSize : Nat := 8

/-- The transmitter of a `slip_t`: `outseg` is what lies between `out_first` and `out_limit`, and
`segments` are the segments behind it. -/
structure SlipOut where
  out : Option SlipPacket := none
  outseg : List UChar := []
  segments : List (List UChar) := []
  out_flag : Bool := false
  out_free : Option SlipPacket := none
  outq : List SlipPacket := []
  deriving DecidableEq

/-- What the driver finds at its port, and behind a segment without bytes. -/
structure SlipPort where
  transmitter_empty : Bool
  cts : Bool
  behind : UChar
  deriving DecidableEq

/-- A byte that was handed to the port, and whether it does not come from outside of a segment. -/
structure SlipByte where
  byte : UChar
  inside : Bool
  deriving DecidableEq

namespace SlipOut

/-- What is handed to the port for the byte at `out_first`, and what is left of the segment. -/
def stuffing (behind : UChar) : List UChar → SlipByte × List UChar
  | [] => ({ byte := if behind = slipFlag then slipEsc else behind, inside := false }, [])
  | c :: outseg =>
    if c = slipFlag then ({ byte := slipEsc, inside := true }, slipEscFlag :: outseg)
    else if c = slipEsc then ({ byte := slipEsc, inside := true }, slipEscEsc :: outseg)
    else ({ byte := c, inside := true }, outseg)

def advance (u : SlipOut) (out : SlipPacket) : List UChar → SlipOut
  | [] =>
    match u.segments with
    | outseg :: segments => { u with outseg, segments }
    | [] => { u with outseg := [], out_free := some out, out := none, out_flag := true }
  | c :: outseg => { u with outseg := c :: outseg }

/-- `slip_transmit_start`: whether an interrupt is expected, and the byte that is handed to the
port. -/
def transmitStart (port : SlipPort) (u : SlipOut) : Bool × Option SlipByte × SlipOut :=
  if !port.transmitter_empty then (true, none, u)
  else if !port.cts then (false, none, u)
  else
    match u.out_flag, u.out with
    | true, _ => (true, some { byte := slipFlag, inside := true }, { u with out_flag := false })
    | false, none => (false, none, u)
    | false, some out =>
      let (c, outseg) := stuffing port.behind u.outseg
      (true, some c, u.advance out outseg)

def load (u : SlipOut) (p : SlipPacket) : SlipOut :=
  { u with out := some p, outseg := p.first, segments := p.others, out_flag := true }

def enqueue (port : SlipPort) (p : SlipPacket) (u : SlipOut) : Option SlipByte × SlipOut :=
  match u.out with
  | some _ => (none, { u with outq := u.outq ++ [p] })
  | none => (u.load p |>.transmitStart port).2

/-- `slip_output` has to discard its packet, and `slip_send` has to wait. -/
def Busy (u : SlipOut) : Prop :=
  u.out ≠ none ∧ u.outq.length = slipQueueSize

instance (u : SlipOut) : Decidable u.Busy :=
  inferInstanceAs (Decidable (_ ∧ _))

/-- `slip_output`: whether the packet is accepted; otherwise it is freed. -/
def slipOutput (port : SlipPort) (p : SlipPacket) (u : SlipOut) :
    Bool × Option SlipByte × SlipOut :=
  if u.Busy then (false, none, u)
  else (true, u.enqueue port p)

/-- `slip_send` behind its loop. -/
def slipSend (port : SlipPort) (p : SlipPacket) (u : SlipOut) : Option SlipByte × SlipOut :=
  u.enqueue port p

/-- `slip_out_next` behind the release of `out_free`. -/
def slipOutNext (port : SlipPort) (u : SlipOut) : Option SlipByte × SlipOut :=
  let u := { u with out_free := none }
  match u.out, u.outq with
  | none, p :: outq => ({ u with outq }.load p |>.transmitStart port).2
  | _, _ => (none, u)

/-- `slip_transmit_start` again and again, until no packet is in transmission. -/
def transmitAll : List SlipPort → SlipOut → List SlipByte × SlipOut
  | [], u => ([], u)
  | port :: ports, u =>
    if u.out = none then ([], u)
    else
      let (_, byte, u) := u.transmitStart port
      let (bytes, u) := transmitAll ports u
      (byte.toList ++ bytes, u)

end SlipOut

/-- The receiver of a `slip_t`: `in_ptr` is what lies between the payload of the buffer and
`in_ptr`, and `tot_len` is the length of the buffer. -/
structure SlipIn where
  mtu : Nat
  in_ptr : Option (List UChar) := none
  tot_len : Nat := 0
  in_escape : Bool := false
  inq : List (List UChar) := []
  deriving DecidableEq

namespace SlipIn

def unescape (c : UChar) : UChar :=
  if c = slipEscFlag then slipFlag
  else if c = slipEscEsc then slipEsc
  else c

/-- A turn of the loop of `slip_receive_data`: whether a whole packet is received. -/
def receiveByte (c : UChar) (u : SlipIn) : Bool × SlipIn :=
  match u.in_ptr with
  | none => (false, u)
  | some received =>
    if c = slipFlag then (!received.isEmpty, { u with in_escape := false })
    else if c = slipEsc then (false, { u with in_escape := true })
    else
      let c := if u.in_escape then unescape c else c
      if u.mtu ≤ received.length then
        (false, { u with in_escape := false, in_ptr := some [] })
      else (false, { u with in_escape := false, in_ptr := some (received ++ [c]) })

/-- `slip_receive_data`: whether a whole packet is received, and the bytes that were not looked
at. -/
def receiveData : List UChar → SlipIn → Bool × List UChar × SlipIn
  | [], u => (false, [], u)
  | c :: bytes, u =>
    match u.receiveByte c with
    | (true, u) => (true, bytes, u)
    | (false, u) => receiveData bytes u

/-- The part of a turn of `slip_receiver` behind `mutex_wait`.  A buffer that is used again is as
short as the packet that was in it. -/
def process (u : SlipIn) : SlipIn :=
  match u.in_ptr with
  | none | some [] => u
  | some received =>
    let tot_len := min u.tot_len received.length
    if u.inq.length = slipQueueSize then { u with tot_len, in_ptr := some [] }
    else { u with tot_len, inq := u.inq ++ [received.take tot_len], in_ptr := none }

/-- The part in front of `mutex_wait`. -/
def allocate (granted : Bool) (u : SlipIn) : SlipIn :=
  match u.in_ptr, granted with
  | none, true => { u with in_ptr := some [], tot_len := u.mtu }
  | _, _ => u

/-- `slip_input`: the packet that another task takes. -/
def slipInput (u : SlipIn) : Option (List UChar) × SlipIn :=
  match u.inq with
  | [] => (none, u)
  | p :: inq => (some p, { u with inq })

end SlipIn
end Uos
