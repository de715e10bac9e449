import Mathlib.Data.BitVec
import Uos.Library.Rings

/-!
# The driver of a PS/2 keyboard

Every byte goes through a decoder of scan codes, and the events it makes go to a queue from which
the tasks take them.
-/

namespace Uos

/-- The state of the scan decoder: after no prefix, `E0`, `E1`, or `E1` and a control code. -/
inductive ScanState where
  | base
  | e0
  | e1
  | e11d
  deriving DecidableEq, Repr

/-- `keyboard_event_t` -/
structure KeyboardEvent where
  key : BitVec 16 := 0
  modifiers : BitVec 16 := 0
  release : BitVec 16 := 0
  deriving DecidableEq, Repr

/-- What the driver does besides: commands to the keyboard with their parameter, and reboots. -/
inductive KeyboardCommand where
  | kbdkSetled (param : BitVec 8)
  | kbdkTypematic (param : BitVec 8)
  | reboot (mode : Nat)
  deriving DecidableEq, Repr

/-- The fields of `keyboard_ps2_t` that the decoder uses. -/
structure KeyboardState where
  rate : Int := 20
  delay : Int := 500
  leds : BitVec 32 := 0
  state : ScanState := .base
  modifiers : BitVec 32 := 0
  ctrlAltDel : Nat := 0
  capslock : Bool := false
  numlock : Bool := false
  commands : List KeyboardCommand := []

namespace KeyboardState

def scanCtrl : BitVec 8 := 0x1D
def scanLshift : BitVec 8 := 0x2A
def scanRshift : BitVec 8 := 0x36
def scanAlt : BitVec 8 := 0x38
def scanDel : BitVec 8 := 0x53
def scanCaps : BitVec 8 := 0x3A
def scanNum : BitVec 8 := 0x45
def scanLgui : BitVec 8 := 0x5B
def scanRgui : BitVec 8 := 0x5C

def keymodLshift : BitVec 32 := 0x0001
def keymodRshift : BitVec 32 := 0x0002
def keymodLctrl : BitVec 32 := 0x0040
def keymodRctrl : BitVec 32 := 0x0080
def keymodLalt : BitVec 32 := 0x0100
def keymodRalt : BitVec 32 := 0x0200
def keymodLmeta : BitVec 32 := 0x0400
def keymodRmeta : BitVec 32 := 0x0800
def keymodNum : BitVec 32 := 0x1000
def keymodCaps : BitVec 32 := 0x2000
def keymodCtrl : BitVec 32 := keymodLctrl ||| keymodRctrl
def keymodAlt : BitVec 32 := keymodLalt ||| keymodRalt

def keyledCaps : BitVec 32 := 1
def keyledNum : BitVec 32 := 2
def keyledScroll : BitVec 32 := 4

def keyPause : BitVec 16 := 0xF836

/-- The symbols of the keys: the scan codes without a prefix, and those behind `E0`. -/
def scanToKey : List (BitVec 16) := [
  0, 0x1B, 0x31, 0x32, 0x33, 0x34, 0x35, 0x36,
  0x37, 0x38, 0x39, 0x30, 0x2D, 0x3D, 0x8, 0x9,
  0x51, 0x57, 0x45, 0x52, 0x54, 0x59, 0x55, 0x49,
  0x4F, 0x50, 0x5B, 0x5D, 0xD, 0xF82D, 0x41, 0x53,
  0x44, 0x46, 0x47, 0x48, 0x4A, 0x4B, 0x4C, 0x3B,
  0x27, 0x60, 0xF82B, 0x5C, 0x5A, 0x58, 0x43, 0x56,
  0x42, 0x4E, 0x4D, 0x2C, 0x2E, 0x2F, 0xF82C, 0xF816,
  0xF82F, 0x20, 0xF829, 0xF81B, 0xF81C, 0xF81D, 0xF81E, 0xF81F,
  0xF820, 0xF821, 0xF822, 0xF823, 0xF824, 0xF828, 0xF82A, 0xF811,
  0xF812, 0xF813, 0xF817, 0xF80E, 0xF80F, 0xF810, 0xF818, 0xF80B,
  0xF80C, 0xF80D, 0xF80A, 0xF814, 0, 0, 0, 0xF825,
  0xF827, 0, 0, 0, 0, 0, 0, 0,
  0, 0, 0, 0, 0, 0, 0, 0,
  0, 0, 0, 0, 0, 0, 0, 0,
  0, 0, 0, 0, 0, 0, 0, 0,
  0, 0, 0, 0, 0, 0, 0, 0,
  -- behind `E0`
  0, 0, 0, 0, 0, 0, 0, 0,
  0, 0, 0, 0, 0, 0, 0, 0,
  0xF863, 0, 0, 0, 0, 0, 0, 0,
  0, 0xF864, 0, 0, 0xF819, 0xF82E, 0, 0,
  0xF87C, 0, 0xF85A, 0, 0xF858, 0, 0, 0,
  0, 0, 0, 0, 0, 0, 0xF87B, 0,
  0xF87A, 0, 0, 0, 0, 0xF815, 0, 0xF834,
  0xF830, 0, 0, 0, 0, 0, 0, 0,
  0, 0, 0, 0, 0, 0, 0, 0xF806,
  0xF802, 0xF808, 0, 0xF800, 0, 0xF801, 0, 0xF807,
  0xF803, 0xF809, 0xF804, 0xF805, 0, 0, 0, 0,
  0, 0, 0, 0xF831, 0xF832, 0xF839, 0xF854, 0,
  0, 0, 0, 0, 0, 0, 0, 0,
  0, 0, 0, 0, 0, 0, 0, 0,
  0, 0, 0, 0, 0, 0, 0, 0,
  0, 0, 0, 0, 0, 0, 0, 0]

def keyAt (scan : BitVec 8) : BitVec 16 :=
  scanToKey.getD scan.toNat 0

/-- The parameter for a rate in characters a second and a delay in milliseconds. -/
def rateDelayParam (cps msec : Int) : BitVec 8 :=
  (if cps < 3 then 0x1f
    else if cps < 4 then 0x1a
    else if cps < 5 then 0x17
    else if cps < 6 then 0x14
    else if cps < 7 then 0x12
    else if cps < 10 then 0x0f
    else if cps < 11 then 0x0c
    else if cps < 13 then 0x0a
    else if cps < 16 then 0x08
    else if cps < 20 then 0x06
    else if cps < 23 then 0x04
    else if cps < 26 then 0x02
    else if cps < 29 then 0x01
    else 0x00) |||
  (if 800 < msec then 0x60 else if 600 < msec then 0x40 else if 400 < msec then 0x20 else 0)

def ledsParam (leds : BitVec 32) : BitVec 8 :=
  (if leds &&& keyledNum = 0 then 0 else 0x02) |||
  (if leds &&& keyledCaps = 0 then 0 else 0x04) |||
  (if leds &&& keyledScroll = 0 then 0 else 0x01)

def setRateDelay (u : KeyboardState) : KeyboardState :=
  { u with commands := u.commands ++ [.kbdkTypematic (rateDelayParam u.rate u.delay)] }

def setLeds (u : KeyboardState) : KeyboardState :=
  { u with commands := u.commands ++ [.kbdkSetled (ledsParam u.leds)] }

/-- A modifier key is pressed; the flag is false for a key that repeats. -/
def press (u : KeyboardState) (mask : BitVec 32) : KeyboardState × Bool :=
  if u.modifiers &&& mask = 0 then ({ u with modifiers := u.modifiers ||| mask }, true)
  else (u, false)

/-- A modifier key is released; the flag is false for a key that is not pressed. -/
def release (u : KeyboardState) (mask : BitVec 32) : KeyboardState × Bool :=
  if u.modifiers &&& mask = 0 then (u, false)
  else ({ u with modifiers := u.modifiers &&& ~~~mask }, true)

/-- A control, alt or meta key is released: it ends the count of `Ctrl-Alt-Del`. -/
def releaseCount (u : KeyboardState) (mask : BitVec 32) : KeyboardState × Bool :=
  if u.modifiers &&& mask = 0 then (u, false)
  else ({ u with modifiers := u.modifiers &&& ~~~mask, ctrlAltDel := 0 }, true)

def toggle (u : KeyboardState) (mask led : BitVec 32) : KeyboardState :=
  if u.modifiers &&& mask = 0 then
    { u with modifiers := u.modifiers ||| mask, leds := u.leds ||| led }
  else { u with modifiers := u.modifiers &&& ~~~mask, leds := u.leds &&& ~~~led }

def pressCaps (u : KeyboardState) : KeyboardState × Bool :=
  if u.capslock then (u, false)
  else (({ u with capslock := true }.toggle keymodCaps keyledCaps).setLeds, true)

def pressNum (u : KeyboardState) : KeyboardState × Bool :=
  if u.numlock then (u, false)
  else (({ u with numlock := true }.toggle keymodNum keyledNum).setLeds, true)

/-- Reboot on the third `Ctrl-Alt-Del`. -/
def pressDel (u : KeyboardState) : KeyboardState × Bool :=
  if u.modifiers &&& keymodCtrl = 0 ∨ u.modifiers &&& keymodAlt = 0 then (u, true)
  else if 3 ≤ u.ctrlAltDel + 1 then
    ({ u with ctrlAltDel := u.ctrlAltDel + 1, commands := u.commands ++ [.reboot 0x1234] }, true)
  else ({ u with ctrlAltDel := u.ctrlAltDel + 1 }, true)

/-- The switch of `STATE_BASE`; the flag is false where it returns 0. -/
def switchBase (u : KeyboardState) (byte : BitVec 8) : KeyboardState × Bool :=
  if byte = 0xE0 then ({ u with state := .e0 }, false)
  else if byte = 0xE1 then ({ u with state := .e1 }, false)
  else if byte = scanCtrl then u.press keymodLctrl
  else if byte = scanCtrl ||| 0x80 then u.releaseCount keymodLctrl
  else if byte = scanLshift then u.press keymodLshift
  else if byte = scanRshift then u.press keymodRshift
  else if byte = scanLshift ||| 0x80 then u.release keymodLshift
  else if byte = scanRshift ||| 0x80 then u.release keymodRshift
  else if byte = scanAlt then u.press keymodLalt
  else if byte = scanAlt ||| 0x80 then u.releaseCount keymodLalt
  else if byte = scanCaps then u.pressCaps
  else if byte = scanCaps ||| 0x80 then ({ u with capslock := false }, false)
  else if byte = scanNum then u.pressNum
  else if byte = scanNum ||| 0x80 then ({ u with numlock := false }, false)
  else if byte = scanDel then u.pressDel
  else if byte = scanDel ||| 0x80 then ({ u with ctrlAltDel := 0 }, true)
  else (u, true)

/-- The switch of `STATE_E0`; the flag is false where it returns 0. -/
def switchE0 (u : KeyboardState) (byte : BitVec 8) : KeyboardState × Bool :=
  if byte = scanCtrl then u.press keymodRctrl
  else if byte = scanCtrl ||| 0x80 then u.releaseCount keymodRctrl
  else if byte = scanAlt then u.press keymodRalt
  else if byte = scanAlt ||| 0x80 then u.releaseCount keymodRalt
  else if byte = scanLshift then (u, false)
  else if byte = scanLshift ||| 0x80 then (u, false)
  else if byte = scanLgui then u.press keymodLmeta
  else if byte = scanLgui ||| 0x80 then u.releaseCount keymodLmeta
  else if byte = scanRgui then u.press keymodRmeta
  else if byte = scanRgui ||| 0x80 then u.releaseCount keymodRmeta
  else if byte = scanDel then u.pressDel
  else if byte = scanDel ||| 0x80 then ({ u with ctrlAltDel := 0 }, true)
  else (u, true)

/-- The end of `make_event`: a record needs a key. -/
def finish (u : KeyboardState) (m : KeyboardEvent) (byte : BitVec 8) :
    KeyboardState × KeyboardEvent × Bool :=
  if m.key = 0 then (u, m, false)
  else (u, { m with release := if 0x7f < byte then 1 else 0 }, true)

/-- `make_event`: process a byte, received from keyboard.  The flag is true when a new event record
is generated. -/
def makeEvent (u : KeyboardState) (m : KeyboardEvent) (byte : BitVec 8) :
    KeyboardState × KeyboardEvent × Bool :=
  match u.state with
  | .base =>
    let m := { m with key := keyAt (byte &&& 0x7f) }
    let switched := u.switchBase byte
    if switched.2 then switched.1.finish m byte else (switched.1, m, false)
  | .e0 =>
    let m := { m with key := keyAt (byte ||| 0x80) }
    let switched := { u with state := .base }.switchE0 byte
    if switched.2 then switched.1.finish m byte else (switched.1, m, false)
  | .e1 =>
    if byte = 0x1D ∨ byte = 0x9D then ({ u with state := .e11d }, m, false)
    else ({ u with state := .base }, m, false)
  | .e11d =>
    if byte = 0x45 ∨ byte = 0xC5 then
      { u with state := .base }.finish { m with key := keyPause } byte
    else ({ u with state := .base }, m, false)

end KeyboardState

/-- `keyboard_ps2_t`: the events wait in the `KBD_INBUFSZ` cells of a ring. -/
structure KeyboardPs2 where
  decoder : KeyboardState := {}
  inBuf : Ring KeyboardEvent := { size := 20, cells := fun _ => {} }

namespace KeyboardPs2

open KeyboardState

def newlast (u : KeyboardPs2) : Nat :=
  u.inBuf.next u.inBuf.last

/-- `receive_byte`: process a byte, received from keyboard.  The record is made in the cell behind
the last event. -/
def receiveByte (u : KeyboardPs2) (byte : BitVec 8) : KeyboardPs2 :=
  -- the answer of a new device to its self-test
  if byte = 0xAA ∧ u.decoder.modifiers &&& keymodLshift = 0 ∧ u.decoder.state = .base then
    { decoder := { u.decoder.setLeds.setRateDelay with state := .base }
      inBuf := { u.inBuf with first := 0, last := 0 } }
  else if u.newlast = u.inBuf.first then u
  else
    let (decoder, m, made) := u.decoder.makeEvent (u.inBuf.cells u.inBuf.last) byte
    if made then
      { decoder
        inBuf := u.inBuf.put { m with modifiers := decoder.modifiers.setWidth 16 } u.newlast }
    else { decoder, inBuf := u.inBuf.set u.inBuf.last m }

/-- `keyboard_ps2_get_event` -/
def getEvent (u : KeyboardPs2) : KeyboardPs2 × Option KeyboardEvent :=
  if u.inBuf.first = u.inBuf.last then (u, none)
  else ({ u with inBuf := u.inBuf.take }, some (u.inBuf.cells u.inBuf.first))

/-- `keyboard_ps2_wait_event`, each time it looks at the queue: without an event it waits on. -/
def waitEvent (u : KeyboardPs2) : KeyboardPs2 × Option KeyboardEvent :=
  if u.inBuf.first = u.inBuf.last then (u, none)
  else ({ u with inBuf := u.inBuf.take }, some (u.inBuf.cells u.inBuf.first))

end KeyboardPs2
end Uos
