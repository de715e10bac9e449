import Mathlib.Data.Int.Notation
import Mathlib.Logic.Function.Basic
import Uos.Net.Bytes

/-!
# USB devices

The stack of a USB device from `usbdev.c`: the requests on control endpoints, the transfers that
answer them, and the driver functions that these call.  An access outside an array or outside a
descriptor or a buffer fails.
-/

namespace Uos.Usb

def word (low high : UChar) : Nat :=
  low.toNat + 256 * high.toNat

/-- A descriptor whose first byte is its length. -/
structure Descriptor where
  bytes : List UChar
  nonempty : bytes ≠ []
  length : (bytes.headD 0).toNat = bytes.length

/-- A configuration descriptor, with the descriptors behind it, of `wTotalLength` bytes. -/
structure ConfDesc where
  bytes : List UChar
  header : 9 ≤ bytes.length
  total : word (bytes.getD 2 0) (bytes.getD 3 0) = bytes.length

/-- What a build fixes and a program registers. -/
structure Device where
  /-- `USBDEV_EP0_MAX_SIZE` -/
  ep0MaxSize : Nat
  /-- `USBDEV_NB_ENDPOINTS` -/
  nbEndpoints : Nat
  control : 0 < nbEndpoints
  /-- What `usbdevhal_reset` puts into `first_device_descr`. -/
  resetDescr : Nat
  qualifDesc : Option Descriptor
  /-- The configurations, `USBDEV_NB_CONF` of them. -/
  confDesc : List ConfDesc
  strings : List Descriptor
  /-- For each of the `USBDEV_NB_INTERFACES` interfaces whether it has a handler. -/
  ifaceCtrl : List Bool
  /-- Whether there is a `dev_specific_handler`. -/
  devHandler : Bool
  /-- Whether an endpoint has a `specific_handler`. -/
  outHandler : Nat → Bool
  inHandler : Nat → Bool

/-- What a pointer to data for the host points into. -/
inductive Source
  | null
  | status
  | curConf
  | devDesc
  | qualifDesc
  | confDesc (n : Nat)
  | string (n : Nat)
  /-- As many bytes as a handler returned. -/
  | handler (size : Int)

/-- `USBDEV_DIR_OUT` and `USBDEV_DIR_IN` -/
inductive Dir
  | out
  | into
  deriving DecidableEq

/-- A call of a driver function. -/
inductive Call
  | setAddr (addr : Nat)
  | epAttr (ep : Nat) (dir : Dir) (attr maxSize interval : Nat)
  | epWaitOut (ep : Nat) (ack : Bool)
  | epWaitIn (ep pid : Nat) (data : Source) (offset size : Int) (last : Bool)
  | epStall (ep : Nat) (dir : Dir)

/-- The states of an endpoint, `EP_STATE_DISABLED` and so on. -/
inductive EpState
  | disabled
  | waitSetup
  | waitOut
  | waitOutAck
  | setupDataOut
  | waitIn
  | waitInLast
  | waitInAck
  | nack
  | stall
  deriving DecidableEq

/-- `EP_WAIT_IN_STATES` -/
def EpState.waitsIn : EpState → Bool
  | .waitIn | .waitInLast | .waitInAck => true
  | _ => false

/-- `ep_out_t` -/
structure EpOut where
  state : EpState
  attr : Nat
  maxSize : Nat
  interval : Nat

/-- `ep_in_t`, the field `ptr` as what it points into and an offset. -/
structure EpIn where
  state : EpState
  attr : Nat
  maxSize : Nat
  interval : Nat
  data : Source
  offset : Int
  restLoad : Int
  restAck : Int
  pid : Nat
  shorterLen : Bool

namespace EpIn

/-- The size of the next packet, `in_sz` of `do_in`. -/
def inSz (epi : EpIn) : Int :=
  if epi.restLoad < epi.maxSize then epi.restLoad else epi.maxSize

/-- The state in which `do_in` gives a packet to the driver. -/
def loaded (epi : EpIn) : EpState :=
  if epi.state = .waitIn ∧
      (epi.restLoad < epi.maxSize ∨ epi.restLoad = epi.maxSize ∧ epi.shorterLen = false) then
    .waitInLast
  else epi.state

/-- The endpoint behind `do_in`. -/
def advance (epi : EpIn) : EpIn :=
  { epi with
    state := epi.loaded
    offset := epi.offset + epi.inSz
    restLoad := if epi.inSz = 0 then -1 else epi.restLoad - epi.inSz
    pid := if epi.pid = 0xb then 0x3 else 0xb }

/-- The state in which `start_in` starts a transfer. -/
def startState (epi : EpIn) (reqSize realSize : Int) : EpState :=
  if realSize = 0 ∧ reqSize = 0 then .waitInAck
  else if realSize < epi.maxSize ∨ realSize = epi.maxSize ∧ ¬realSize < reqSize then .waitInLast
  else .waitIn

/-- The endpoint in front of the loop of `start_in`. -/
def start (epi : EpIn) (startPid : Nat) (data : Source) (reqSize realSize : Int) : EpIn :=
  let size := if reqSize < realSize then reqSize else realSize
  { epi with
    shorterLen := realSize < reqSize
    state := epi.startState reqSize realSize
    data := data
    offset := 0
    restAck := size
    restLoad := size
    pid := if startPid ≠ 0 then startPid else epi.pid }

end EpIn

/-- `usb_setup_pkt_t` -/
structure Setup where
  bmRequestType : UChar
  bRequest : UChar
  wValue : UShort
  wIndex : UShort
  wLength : UShort

def Setup.ofBytes (bytes : List UChar) : Setup where
  bmRequestType := bytes.getD 0 0
  bRequest := bytes.getD 1 0
  wValue := .ofBytes (bytes.getD 3 0) (bytes.getD 2 0)
  wIndex := .ofBytes (bytes.getD 5 0) (bytes.getD 4 0)
  wLength := .ofBytes (bytes.getD 7 0) (bytes.getD 6 0)

/-- The functions that an ack handler may be. -/
inductive AckHandler
  /-- `set_address` with its tag. -/
  | setAddress (addr : Nat)
  | other

/-- `usbdev_t`, the static variables of `usbdevhal_out_done` and the calls of the driver. -/
structure Usbdev where
  curConf : Nat
  usbAddr : Nat
  epOut : Nat → EpOut
  epIn : Nat → EpIn
  ackHandlers : Nat → Dir → Option AckHandler
  firstDeviceDescr : Nat
  rxDiscards : Nat
  rxReq : Nat
  rxBadReq : Nat
  rxBadTrans : Nat
  rxBadLen : Nat
  ctrlFailed : Nat
  outOfMemory : Nat
  setup : Setup
  /-- The size of the buffer that `setup_data` points to. -/
  setupData : Option Nat
  setupDataCnt : Nat
  /-- The calls so far, oldest first. -/
  calls : List Call

/-- What a handler returns, `USBDEV_ACK` and so on. -/
inductive Reply
  | ack
  | nack
  | stall
  deriving DecidableEq

/-- What code outside of the stack does during an event. -/
structure Outside where
  /-- Whether `in_avail` finds room, each time it is asked. -/
  room : List Bool
  reply : Reply
  /-- The size of the data that a handler returns. -/
  size : Int
  /-- Whether there is memory. -/
  memory : Bool

/-- `USBDEV_TRANSACTION_OUT` and so on. -/
inductive TransType
  | out
  | setup
  | into
  deriving DecidableEq

namespace Usbdev

def call (u : Usbdev) (c : Call) : Usbdev :=
  { u with calls := u.calls ++ [c] }

def setIn (u : Usbdev) (ep : Nat) (epi : EpIn) : Usbdev :=
  { u with epIn := Function.update u.epIn ep epi }

def setOut (u : Usbdev) (ep : Nat) (epo : EpOut) : Usbdev :=
  { u with epOut := Function.update u.epOut ep epo }

/-- `u->ep_out[ep].state = state` -/
def outState (u : Usbdev) (ep : Nat) (state : EpState) : Usbdev :=
  u.setOut ep { u.epOut ep with state := state }

/-- `u->ep_in[ep].state = state` -/
def inState (u : Usbdev) (ep : Nat) (state : EpState) : Usbdev :=
  u.setIn ep { u.epIn ep with state := state }

end Usbdev

/-- An endpoint descriptor. -/
structure EpDesc where
  bEndpointAddress : UChar
  bmAttributes : UChar
  wMaxPacketSize : Nat
  bInterval : UChar

def readEpDesc (bytes : List UChar) (pos : Nat) : Option EpDesc := do
  let address ← bytes[pos + 2]?
  let attributes ← bytes[pos + 3]?
  let low ← bytes[pos + 4]?
  let high ← bytes[pos + 5]?
  let interval ← bytes[pos + 6]?
  some ⟨address, attributes, word low high, interval⟩

/-- The loop that skips descriptors up to an endpoint descriptor, for some turns. -/
def skipToEndpoint (bytes : List UChar) : Nat → Nat → Option Nat
  | 0, _ => none
  | turns + 1, pos => do
    let type ← bytes[pos + 1]?
    if type = 5 then some pos
    else
      let length ← bytes[pos]?
      skipToEndpoint bytes turns (pos + length.toNat)

namespace Usbdev

def setEndpoint (d : Device) (u : Usbdev) (pep : EpDesc) : Option Usbdev :=
  let ep := pep.bEndpointAddress.toNat &&& 0x7f
  if ep < d.nbEndpoints then
    let attr := pep.bmAttributes.toNat
    let interval := pep.bInterval.toNat
    if pep.bEndpointAddress.toNat >>> 7 = 0 then
      let state := if attr &&& 3 = 0 then .waitSetup else .waitOut
      some ((u.setOut ep
        { u.epOut ep with
          attr := attr, maxSize := pep.wMaxPacketSize, interval := interval
          state := state }).call (.epAttr ep .out attr pep.wMaxPacketSize interval))
    else
      some ((u.setIn ep
        { u.epIn ep with
          attr := attr, maxSize := pep.wMaxPacketSize, interval := interval
          state := .nack }).call (.epAttr ep .into attr pep.wMaxPacketSize interval))
  else none

def setEndpoints (d : Device) (bytes : List UChar) : Nat → Nat → Usbdev → Option Usbdev
  | 0, _, u => some u
  | left + 1, pos, u => do
    let pep ← readEpDesc bytes pos
    let u ← u.setEndpoint d pep
    u.setEndpoints d bytes left (pos + 7)

/-- `set_configuration`, from the interface descriptor on. -/
def setInterface (d : Device) (u : Usbdev) (bytes : List UChar) : Option Usbdev := do
  let number ← bytes[9 + 4]?
  if number ≠ 0 then do
    let pos ← skipToEndpoint bytes (bytes.length + 1) (9 + 9)
    u.setEndpoints d bytes number.toNat pos
  else some u

/-- `set_configuration` -/
def setConfiguration (d : Device) (u : Usbdev) (confNum : Nat) : Option Usbdev :=
  match confNum with
  | 0 => none
  | n + 1 => do
    let conf ← d.confDesc[n]?
    let u ← u.setInterface d conf.bytes
    some { u with curConf := confNum }

/-- `do_in` -/
def doIn (u : Usbdev) (ep : Nat) : Usbdev :=
  let epi := u.epIn ep
  (u.call (.epWaitIn ep epi.pid epi.data epi.offset epi.inSz
    (epi.loaded = .waitInAck ∨ epi.loaded = .waitInLast))).setIn ep epi.advance

/-- The loop of `start_in`. -/
def load (ep : Nat) : List Bool → Usbdev → Usbdev
  | [], u => u
  | room :: more, u =>
    if (u.epIn ep).state.waitsIn ∧ 0 ≤ (u.epIn ep).restLoad ∧ room = true then
      load ep more (u.doIn ep)
    else u

/-- `start_in` -/
def startIn (u : Usbdev) (ep startPid : Nat) (data : Source) (reqSize realSize : Int)
    (outside : Outside) : Usbdev :=
  (u.setIn ep ((u.epIn ep).start startPid data reqSize realSize)).load ep outside.room

/-- `usbdev_set_ack_handler`, and `usbdev_remove_ack_handler` without a handler. -/
def setAckHandler (u : Usbdev) (ep : Nat) (dir : Dir) (handler : Option AckHandler) : Usbdev :=
  { u with
    ackHandlers := Function.update u.ackHandlers ep
      (Function.update (u.ackHandlers ep) dir handler) }

def runAckHandler (u : Usbdev) (ep : Nat) (dir : Dir) : Usbdev :=
  match u.ackHandlers ep dir with
  | some (.setAddress addr) => (u.call (.setAddr addr)).setAckHandler ep dir none
  | _ => u

end Usbdev

/-- `USB_REQ_GET_TYPE` -/
def Setup.type (setup : Setup) : Nat :=
  setup.bmRequestType.toNat >>> 5 &&& 3

/-- `USB_REQ_GET_RCV` -/
def Setup.rcv (setup : Setup) : Nat :=
  setup.bmRequestType.toNat &&& 0x1f

def Setup.descType (setup : Setup) : Nat :=
  setup.wValue.toNat >>> 8

def Setup.descIndex (setup : Setup) : Nat :=
  setup.wValue.toNat &&& 0xff

namespace Usbdev

/-- The answer to `USB_SR_GET_DESCRIPTOR`. -/
def getDescriptor (d : Device) (u : Usbdev) (ep : Nat) (setup : Setup) (outside : Outside) :
    Option Usbdev :=
  match setup.descType with
  | 1 =>
    if u.firstDeviceDescr ≠ 0 then
      let minLen :=
        if setup.wLength.toNat < d.ep0MaxSize then setup.wLength.toNat else d.ep0MaxSize
      let u := u.startIn ep 0xb .devDesc minLen minLen outside
      some { u with firstDeviceDescr := u.firstDeviceDescr - 1 }
    else some (u.startIn ep 0xb .devDesc setup.wLength.toNat 18 outside)
  | 6 =>
    match d.qualifDesc with
    | some qualif =>
      some (u.startIn ep 0xb .qualifDesc setup.wLength.toNat (qualif.bytes.headD 0).toNat
        outside)
    | none => some (u.call (.epStall ep .into))
  | 2 => do
    let confN := setup.descIndex
    let u := if confN ≥ d.confDesc.length then u.call (.epStall ep .into) else u
    let conf ← d.confDesc[confN]?
    some (u.startIn ep 0xb (.confDesc confN) setup.wLength.toNat
      (word (conf.bytes.getD 2 0) (conf.bytes.getD 3 0)) outside)
  | 3 => do
    let string ← d.strings[setup.descIndex]?
    some (u.startIn ep 0xb (.string setup.descIndex) setup.wLength.toNat
      (string.bytes.headD 0).toNat outside)
  | _ => some (u.call (.epStall ep .into))

/-- `process_std_req` -/
def processStdReq (d : Device) (u : Usbdev) (ep : Nat) (setup : Setup) (outside : Outside) :
    Option Usbdev :=
  match setup.bRequest.toNat with
  | 0 => some (u.startIn ep 0xb .status setup.wLength.toNat 2 outside)
  | 5 =>
    let u := { u with usbAddr := setup.wValue.toNat }
    let u := u.setAckHandler ep .out (some (.setAddress setup.wValue.toNat))
    let u := u.startIn ep 0xb .null 0 0 outside
    some { u with firstDeviceDescr := 0 }
  | 6 => u.getDescriptor d ep setup outside
  | 8 =>
    if setup.wLength ≠ 1 then
      some ({ u with rxBadReq := u.rxBadReq + 1 }.call (.epStall ep .into))
    else some (u.startIn ep 0xb .curConf setup.wLength.toNat 1 outside)
  | 9 =>
    if setup.wValue.toNat > d.confDesc.length then
      some ({ u with rxBadReq := u.rxBadReq + 1 }.call (.epStall ep .into))
    else do
      let u ← u.setConfiguration d setup.wValue.toNat
      some (u.startIn ep 0xb .null 0 0 outside)
  | _ => some (u.startIn ep 0xb .null 0 0 outside)

def finishReq (u : Usbdev) (ep : Nat) (setup : Setup) (reply : Reply) (outside : Outside) :
    Usbdev :=
  match reply with
  | .ack =>
    let reqSize : Int :=
      if setup.bmRequestType.toNat &&& 0x80 ≠ 0 then setup.wLength.toNat else 0
    u.startIn ep 0xb (.handler outside.size) reqSize outside.size outside
  | .stall => (u.call (.epStall ep .into)).outState ep .waitSetup
  | .nack => u

/-- The reply of a handler, `USBDEV_NACK` without one. -/
def ask (registered : Bool) (outside : Outside) : Reply :=
  if registered then outside.reply else .nack

/-- `process_setup` -/
def processSetup (d : Device) (u : Usbdev) (ep : Nat) (setup : Setup) (outside : Outside) :
    Option Usbdev :=
  let u := { u with rxReq := u.rxReq + 1 }
  match setup.rcv with
  | 0 =>
    if setup.type = 0 then u.processStdReq d ep setup outside
    else some (u.finishReq ep setup (ask d.devHandler outside) outside)
  | 1 =>
    let num := setup.wIndex.toNat &&& 0xff
    if num ≥ d.ifaceCtrl.length then some u
    else do
      let registered ← d.ifaceCtrl[num]?
      some (u.finishReq ep setup (ask registered outside) outside)
  | 2 =>
    let num := setup.wIndex.toNat &&& 0xf
    if num ≥ d.nbEndpoints then some u
    else if setup.wIndex.toNat &&& 0x80 ≠ 0 then
      some (u.finishReq ep setup (ask (d.inHandler num) outside) outside)
    else some (u.finishReq ep setup (ask (d.outHandler num) outside) outside)
  | _ => some u

/-- `usbdev_init` of a cleared structure. -/
def usbdevInit (d : Device) : Usbdev where
  curConf := 0
  usbAddr := 0
  epOut ep := ⟨.disabled, 0, if ep = 0 then d.ep0MaxSize else 0, 0⟩
  epIn ep := ⟨.disabled, 0, if ep = 0 then d.ep0MaxSize else 0, 0, .null, 0, 0, 0, 0, false⟩
  ackHandlers _ _ := none
  firstDeviceDescr := 1
  rxDiscards := 0
  rxReq := 0
  rxBadReq := 0
  rxBadTrans := 0
  rxBadLen := 0
  ctrlFailed := 0
  outOfMemory := 0
  setup := ⟨0, 0, 0, 0, 0⟩
  setupData := none
  setupDataCnt := 0
  calls := []

/-- `usbdevhal_reset` -/
def usbdevhalReset (d : Device) (u : Usbdev) : Usbdev :=
  let u :=
    { u with
      epOut := fun ep =>
        if ep < d.nbEndpoints then { u.epOut ep with state := .disabled } else u.epOut ep
      epIn := fun ep =>
        if ep < d.nbEndpoints then { u.epIn ep with state := .disabled, pid := 0 } else u.epIn ep }
  ({ u.outState 0 .waitSetup with firstDeviceDescr := d.resetDescr }).call (.epWaitOut 0 false)

/-- `usbdevhal_in_done` -/
def usbdevhalInDone (d : Device) (u : Usbdev) (ep : Nat) (size : Int) (outside : Outside) :
    Usbdev :=
  let epi := u.epIn ep
  match epi.state with
  | .waitIn => (u.setIn ep { epi with restAck := epi.restAck - size }).doIn ep
  | .waitInLast =>
    let u := u.inState ep .nack
    if epi.attr &&& 3 = 0 then (u.outState ep .waitOutAck).call (.epWaitOut ep true)
    else if d.inHandler ep then
      match outside.reply with
      | .ack => u.startIn ep 0 (.handler outside.size) outside.size outside.size outside
      | .stall => (u.inState ep .stall).call (.epStall ep .into)
      | .nack => u
    else u
  | .waitInAck =>
    let u := (u.outState ep .waitSetup).inState ep .nack
    (u.runAckHandler ep .out).call (.epWaitOut ep false)
  | _ => { u with ctrlFailed := u.ctrlFailed + 1 }.call (.epStall ep .into)

def takeSetup (d : Device) (u : Usbdev) (ep : Nat) (data : List UChar) (outside : Outside) :
    Option Usbdev :=
  let psetup := Setup.ofBytes data
  if psetup.bmRequestType.toNat &&& 0x80 ≠ 0 ∨ psetup.wLength = 0 then
    u.processSetup d ep psetup outside
  else
    let u := { u with setup := psetup }
    if outside.memory then
      let u := { u with setupData := some psetup.wLength.toNat, setupDataCnt := 0 }
      some ((u.outState ep .setupDataOut).call (.epWaitOut ep false))
    else
      some ({ u with
        setupData := none
        outOfMemory := u.outOfMemory + 1
        rxDiscards := u.rxDiscards + 1 }.call (.epStall ep .out))

/-- A packet of the data stage of a request; `memcpy` stores its bytes in the buffer. -/
def takeData (d : Device) (u : Usbdev) (ep : Nat) (data : List UChar) (outside : Outside) :
    Option Usbdev :=
  if data ≠ [] ∧ ¬u.setupDataCnt + data.length ≤ u.setupData.getD 0 then none
  else
    let u := { u with setupDataCnt := u.setupDataCnt + data.length }
    if u.setupDataCnt ≥ u.setup.wLength.toNat then do
      let u ← u.processSetup d ep u.setup outside
      some { u with setupData := none }
    else some (u.call (.epWaitOut ep false))

/-- `usbdevhal_out_done`, at a SETUP packet that finds its endpoint in another state. -/
def preempt (u : Usbdev) (ep : Nat) (transType : TransType) : Usbdev :=
  if transType = .setup ∧ (u.epOut ep).attr &&& 3 = 0 ∧ (u.epOut ep).state ≠ .waitSetup then
    { u with rxBadTrans := u.rxBadTrans + 1 }.outState ep .waitSetup
  else u

/-- `usbdevhal_out_done` -/
def usbdevhalOutDone (d : Device) (u : Usbdev) (ep : Nat) (transType : TransType)
    (data : List UChar) (outside : Outside) : Option Usbdev :=
  let u := u.preempt ep transType
  match (u.epOut ep).state with
  | .waitSetup =>
    if transType ≠ .setup then
      some ({ u with rxBadTrans := u.rxBadTrans + 1 }.call (.epWaitOut ep false))
    else if data.length ≠ 8 then
      some ({ u with rxBadLen := u.rxBadLen + 1 }.call (.epStall ep .out))
    else u.takeSetup d ep data outside
  | .setupDataOut =>
    if transType ≠ .out then
      some (({ u with rxBadTrans := u.rxBadTrans + 1 }.outState ep .waitSetup).call
        (.epStall ep .out))
    else u.takeData d ep data outside
  | .waitOut =>
    if transType ≠ .out then
      some ({ u with rxBadTrans := u.rxBadTrans + 1 }.call (.epStall ep .out))
    else
      match ask (d.outHandler ep) outside with
      | .ack => some (u.call (.epWaitOut ep false))
      | .stall => some (u.call (.epStall ep .out))
      | .nack => some u
  | .waitOutAck =>
    some (((u.outState ep .waitSetup).runAckHandler ep .into).call (.epWaitOut ep false))
  | _ => some { u with rxBadTrans := u.rxBadTrans + 1 }

end Usbdev

/-- What happens on the bus, and `usbdev_ack_in` once it stops waiting. -/
inductive Event
  | reset
  | outDone (ep : Nat) (transType : TransType) (data : List UChar) (outside : Outside)
  | inDone (ep : Nat) (size : Int) (outside : Outside)
  | ackIn (ep : Nat) (size : Int) (outside : Outside)

/-- Handle an event; the driver names endpoints in the arrays. -/
def step (d : Device) (u : Usbdev) : Event → Option Usbdev
  | .reset => some (u.usbdevhalReset d)
  | .outDone ep transType data outside =>
    if ep < d.nbEndpoints then u.usbdevhalOutDone d ep transType data outside else none
  | .inDone ep size outside =>
    if ep < d.nbEndpoints then some (u.usbdevhalInDone d ep size outside) else none
  | .ackIn ep size outside =>
    if ep < d.nbEndpoints then
      if (u.epIn ep).state = .nack then
        some (u.startIn ep 0 (.handler size) size size outside)
      else some u
    else none

end Uos.Usb
