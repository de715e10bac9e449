import Uos.Flash.Spi

/-!
# SDHC cards on an SPI

The driver `flash/sdhc-spi.c`.  A card answers a command after some words, and then sends or takes
pages until it is stopped; `state` remembers which of the two it does.
-/

namespace Uos

/-- The states `SDHC_STATE_…` -/
inductive SdhcState
  | idle
  | multiread
  | multiwrite
  deriving DecidableEq

/-- What a `sdhc_spi_t` has besides a `flashif_t` and `databuf`, with its message: `tx_data` is
`none` if it points to `databuf`, and the words it points to otherwise; `rx_data` tells whether it
points to `databuf`. -/
structure SdhcOwn where
  state : SdhcState := .idle
  next_page : Nat := 0
  word_count : Nat := 0
  tx_data : Option (Nat → UChar) := some fun _ => 0
  rx_data : Bool := false
  cs_hold : Bool := false
  cs_high : Bool := false
  freq : Nat := 0

/-- The memory where pointers of the driver go astray: at its begin, and in front of `databuf`. -/
structure Surroundings where
  low : Nat → UChar
  front : Nat → UChar

namespace SdhcSpi

open Command SpiFlash

variable {Device : Type}

/-- A `sdhc_spi_t`. -/
abbrev Driver (Device : Type) := SpiFlash Device SdhcOwn

def set (function : SdhcOwn → SdhcOwn) : Command (Driver Device) FlashExit Unit :=
  change fun m => { m with own := function m.own }

/-- `memset` of the first bytes of `databuf`. -/
def fill (count : Nat) : Command (Driver Device) FlashExit Unit :=
  store (List.replicate count 0xFF)

variable (spi : Spi Device)

/-- `spim_trx` of the message of the driver. -/
def trx : Command (Driver Device) FlashExit (List UChar) := do
  let m ← state
  spimTrx spi
    { tx_data := some ((List.range m.own.word_count).map (m.own.tx_data.getD m.databuf))
      word_count := m.own.word_count
      cs_hold := m.own.cs_hold
      cs_high := m.own.cs_high
      freq := m.own.freq } m.own.rx_data

def readWord : Command (Driver Device) FlashExit UChar := do
  store [0xFF]
  let _ ← trx spi
  let m ← state
  pure (m.databuf 0)

/-- The place of a `START_BLOCK_TOKEN` in what was read. -/
def tokenIn (databuf : Nat → UChar) (start word_count : Nat) : Option Nat :=
  (List.range' start (word_count - start)).find? fun i => databuf i = 0xFE

/-- `wait_data_token` -/
def waitDataToken (limit : Nat) (start : Option Nat) :
    Command (Driver Device) FlashExit (Option Nat) := do
  let m ← state
  match start.bind fun start => tokenIn m.databuf start m.own.word_count with
  | some i => pure (some i)
  | none =>
    set fun own => { own with word_count := 1 }
    poll (readWord spi) (· = 0xFE) limit
    pure none

/-- `wait_line_free` -/
def waitLineFree (limit : Nat) : Command (Driver Device) FlashExit Unit := do
  set fun own => { own with word_count := 1 }
  poll (readWord spi) (· ≠ 0) limit

/-- `send_command`: the place of the answer. -/
def sendCommand : Command (Driver Device) FlashExit Nat := do
  let _ ← trx spi
  let m ← state
  match (List.range' 7 (m.own.word_count - 7)).find? fun i => m.databuf i ≠ 0xFF with
  | some r1 => pure r1
  | none => leave .io

def command (bytes : List UChar) : Command (Driver Device) FlashExit Nat := do
  store bytes
  sendCommand spi

def accepted (bytes : List UChar) : Command (Driver Device) FlashExit Nat := do
  let r1 ← command spi bytes
  demand (fun databuf => databuf r1 &&& 0x7E = 0) .io
  pure r1

/-- The loop of `sd_connect` that waits until the card is ready. -/
def initializeCard : Nat → Command (Driver Device) FlashExit Unit
  | 0 => leave .hangs
  | limit + 1 => do
    let r1 ← command spi [0x77, 0x00, 0x00, 0x00, 0x00, 0xFF]
    demand (fun databuf => databuf r1 &&& 0x7E = 0) .notSupp
    let r1 ← command spi [0x69, 0x40, 0x00, 0x00, 0x00, 0xFF]
    let m ← state
    if m.databuf r1 = 0 then pure () else initializeCard limit

/-- `sd_connect` from its begin to the first call of `wait_data_token`. -/
def connectToCsd (limit : Nat) : Command (Driver Device) FlashExit Nat := do
  lock
  fill 40
  set fun own =>
    { own with
      freq := 400000
      cs_high := true
      cs_hold := true
      tx_data := none
      rx_data := true
      word_count := 10 }
  let _ ← unlocking (trx spi)
  set fun own => { own with cs_high := false, cs_hold := false, word_count := 16 }
  let r1 ← unlocking (command spi [0x40, 0x00, 0x00, 0x00, 0x00, 0x95])
  unlocking (demand (fun databuf => databuf r1 = 0x01) .notConn)
  set fun own => { own with word_count := 20 }
  let r1 ← unlocking (command spi [0x48, 0x00, 0x00, 0x01, 0xAA, 0x87])
  unlocking (demand (fun databuf => databuf (r1 + 4) = 0xAA) .notConn)
  unlocking (demand (fun databuf => databuf r1 = 0x01) .notSupp)
  fill 20
  set fun own => { own with word_count := 16 }
  unlocking (initializeCard spi limit)
  set fun own => { own with word_count := 20 }
  let r1 ← unlocking (command spi [0x7A, 0x00, 0x00, 0x00, 0x00, 0xFF])
  unlocking (demand (fun databuf => databuf r1 = 0) .badAnswer)
  unlocking (demand (fun databuf => databuf (r1 + 1) &&& 0x40 ≠ 0) .notSupp)
  set fun own => { own with freq := 25000000, word_count := 40 }
  fill 40
  let r1 ← unlocking (command spi [0x49, 0x00, 0x00, 0x00, 0x00])
  unlocking (demand (fun databuf => databuf r1 = 0) .badAnswer)
  pure (r1 + 1)

/-- The field `c_size` of a `csd_v2_t`. -/
def cSize (csd : Nat → UChar) : Nat :=
  (csd 9).toNat + 2 ^ 8 * (csd 8).toNat + 2 ^ 16 * ((csd 7).toNat % 2 ^ 6)

variable (around : Surroundings)

/-- `sd_connect` between the two calls of `wait_data_token`.  Where the token did not come with the
answer, the CSD is taken from the begin of the memory. -/
def connectToSwitch (start : Option Nat) : Command (Driver Device) FlashExit Nat := do
  change fun m =>
    { m with
      page_size := 512
      nb_pages_in_sector := 4 * 1024 * 1024 / 512
      nb_sectors := (cSize (match start with
        | some i => fun j => m.databuf (i + 1 + j)
        | none => fun j => around.low (1 + j)) + 1) / 8 }
  fill 16
  set fun own => { own with word_count := 16 }
  let r1 ← unlocking (command spi [0x46, 0x80, 0xFF, 0xFF, 0xF1])
  unlocking (demand (fun databuf => databuf r1 = 0) .badAnswer)
  pure (r1 + 1)

/-- `sd_connect` behind the second call of `wait_data_token`. -/
def connectToEnd (start : Option Nat) : Command (Driver Device) FlashExit Unit := do
  let m ← state
  let offset := match start with
    | some i => i + m.own.word_count
    | none => 0
  set fun own => { own with word_count := 40 }
  fill 40
  let _ ← unlocking (trx spi)
  let m ← state
  let group := if offset ≤ 16 then m.databuf (16 - offset) else around.front (offset - 16)
  fill 40
  let _ ← unlocking (trx spi)
  set fun own => if group &&& 0xF = 1 then { own with freq := 50000000 } else own
  unlock

/-- `sd_connect` -/
def connect (limit : Nat) : Command (Driver Device) FlashExit Unit := do
  let r1 ← connectToCsd spi limit
  let start ← waitDataToken spi limit (some r1)
  let r1 ← connectToSwitch spi around start
  let start ← waitDataToken spi limit (some r1)
  connectToEnd spi around start

/-- `stop_multiple_read` -/
def stopMultipleRead : Command (Driver Device) FlashExit Unit := do
  fill 16
  set fun own => { own with word_count := 16 }
  let _ ← accepted spi [0x4C]

/-- `stop_multiple_write` -/
def stopMultipleWrite (limit : Nat) : Command (Driver Device) FlashExit Unit := do
  waitLineFree spi limit
  set fun own => { own with word_count := 2 }
  store [0xFD, 0xFF]
  let _ ← trx spi
  waitLineFree spi limit

/-- `init_multiple_op` -/
def initMultipleOp (page_num : Nat) (read : Bool) : Command (Driver Device) FlashExit Nat := do
  fill 16
  set fun own => { own with word_count := 16 }
  accepted spi ((if read = true then 0x52 else 0x59) :: addressBytes 4 page_num)

/-- In one state of the card: it is stopped, and is idle then. -/
def ending (current : SdhcState) (stop : Command (Driver Device) FlashExit Unit) :
    Command (Driver Device) FlashExit Unit := do
  let m ← state
  if m.own.state = current then do
    stop
    set fun own => { own with state := .idle }
  else pure ()

/-- The case `SDHC_STATE_IDLE` of `sd_read`. -/
def beginReading (page_num : Nat) (r1 : Option Nat) :
    Command (Driver Device) FlashExit (Option Nat) := do
  let m ← state
  if m.own.state = .idle then do
    let r1 ← initMultipleOp spi page_num true
    set fun own => { own with state := .multiread, next_page := page_num }
    pure (some (r1 + 1))
  else pure r1

/-- The case `SDHC_STATE_IDLE` of `sd_write`. -/
def beginWriting (page_num : Nat) : Command (Driver Device) FlashExit Unit := do
  let m ← state
  if m.own.state = .idle then do
    let _ ← initMultipleOp spi page_num false
    set fun own => { own with state := .multiwrite, next_page := page_num }
  else pure ()

/-- The sizes of the transfers in which `databuf` makes up a page. -/
def portions (size : Nat) : List Nat :=
  List.replicate (size / 40) 40 ++ if size % 40 = 0 then [] else [size % 40]

def transfers (sizes : List Nat) : Command (Driver Device) FlashExit Unit :=
  each sizes fun word_count => do
    set fun own => { own with word_count }
    let _ ← trx spi

/-- `do_read_one_page`: what has been read.  If more was read already than is wanted, `memset` is
given a size below zero. -/
def doReadOnePage (size : Nat) (existing_data : Option Nat) :
    Command (Driver Device) FlashExit (List UChar) := do
  let m ← state
  let existing := match existing_data with
    | some i => (List.range (i + m.own.word_count)).map fun j => m.databuf (i + j)
    | none => []
  if size < existing.length then leave .hangs
  else
    set fun own =>
      { own with
        rx_data := false
        tx_data := some fun _ => 0xFF
        word_count := size - existing.length }
    let words ← trx spi
    set fun own => { own with tx_data := none }
    fill 40
    transfers spi (portions (m.page_size - size + 3))
    set fun own => { own with rx_data := true }
    pure (existing ++ words)

/-- `do_write_one_page` -/
def doWriteOnePage (limit : Nat) (data : List UChar) : Command (Driver Device) FlashExit Unit := do
  waitLineFree spi limit
  set fun own => { own with word_count := 1 }
  store [0xFC]
  let _ ← trx spi
  set fun own =>
    { own with
      rx_data := false
      tx_data := some fun i => data.getD i 0
      word_count := data.length }
  let _ ← trx spi
  set fun own => { own with tx_data := none }
  let m ← state
  let size := m.page_size - data.length
  store (List.replicate (if size > 0 then 40 else 0) 0)
  transfers spi (portions size)
  set fun own => { own with rx_data := true, word_count := 1 }
  poll (readWord spi) (fun word => word &&& 0x1F = 0x05 ∨ word &&& 0x1F = 0x0D) limit
  demand (fun databuf => databuf 0 &&& 0x1F ≠ 0x0D) .io

/-- `sd_erase` -/
def erase (limit start_page end_page : Nat) : Command (Driver Device) FlashExit Unit := do
  lock
  ending .multiwrite (ignoring (stopMultipleWrite spi limit))
  ending .multiread (ignoring (stopMultipleRead spi))
  set fun own => { own with word_count := 16 }
  fill 16
  let _ ← unlocking (accepted spi (0x60 :: addressBytes 4 start_page))
  fill 16
  let _ ← unlocking (accepted spi (0x61 :: addressBytes 4 end_page))
  fill 16
  set fun own => { own with cs_hold := true }
  let drop (m : Driver Device) : Driver Device := { m with own := { m.own with cs_hold := false } }
  let _ ← unlocking (cleaning drop (accepted spi [0x66]))
  unlocking (cleaning drop (waitLineFree spi limit))
  change drop
  unlock

/-- `sd_erase_all` -/
def eraseAll (limit : Nat) : Command (Driver Device) FlashExit Unit := do
  let m ← state
  erase spi limit 0 ((m.nb_sectors * m.nb_pages_in_sector + (2 ^ 32 - 1)) % 2 ^ 32)

/-- `sd_erase_sectors` -/
def eraseSectors (limit sector_num nb_sectors : Nat) :
    Command (Driver Device) FlashExit Unit := do
  let m ← state
  erase spi limit (sector_num * m.nb_pages_in_sector % 2 ^ 32)
    (((sector_num + nb_sectors) * m.nb_pages_in_sector + (2 ^ 32 - 1)) % 2 ^ 32)

/-- The loop of `sd_read` over pages. -/
def readPages (existing_data : Option Nat) :
    Nat → Nat → Command (Driver Device) FlashExit (List UChar)
  | 0, _ => leave .hangs
  | limit + 1, size => do
    let m ← state
    let cur_size := if size ≤ m.page_size then size else m.page_size
    let page ← doReadOnePage spi cur_size existing_data
    set fun own => { own with next_page := (own.next_page + 1) % 2 ^ 32 }
    if size - cur_size = 0 then pure page
    else
      let rest ← readPages existing_data limit (size - cur_size)
      pure (page ++ rest)

/-- The loop of `sd_read` over states. -/
def readLoop (limit page_num size : Nat) :
    Nat → Option Nat → Command (Driver Device) FlashExit (List UChar)
  | 0, _ => leave .hangs
  | turns + 1, r1 => do
    ending .multiwrite (stopMultipleWrite spi limit)
    let r1 ← beginReading spi page_num r1
    let m ← state
    if page_num = m.own.next_page then
      let r1 ← waitDataToken spi limit r1
      readPages spi r1 limit size
    else
      stopMultipleRead spi
      set fun own => { own with state := .idle }
      readLoop limit page_num size turns r1

/-- `sd_read` -/
def read (limit page_num size : Nat) : Command (Driver Device) FlashExit (List UChar) :=
  if size = 0 then pure []
  else do
    lock
    let data ← unlocking (readLoop spi limit page_num size limit none)
    unlock
    pure data

/-- The loop of `sd_write` over pages. -/
def writePages (limit : Nat) : Nat → List UChar → Command (Driver Device) FlashExit Unit
  | 0, _ => leave .hangs
  | turns + 1, data => do
    let m ← state
    let cur_size := if data.length ≤ m.page_size then data.length else m.page_size
    doWriteOnePage spi limit (data.take cur_size)
    set fun own => { own with next_page := (own.next_page + 1) % 2 ^ 32 }
    if data.length - cur_size = 0 then pure ()
    else writePages limit turns (data.drop cur_size)

/-- The loop of `sd_write` over states. -/
def writeLoop (limit page_num : Nat) (data : List UChar) :
    Nat → Command (Driver Device) FlashExit Unit
  | 0 => leave .hangs
  | turns + 1 => do
    ending .multiread (stopMultipleRead spi)
    beginWriting spi page_num
    let m ← state
    if page_num = m.own.next_page then writePages spi limit limit data
    else
      stopMultipleWrite spi limit
      set fun own => { own with state := .idle }
      writeLoop limit page_num data turns

/-- `sd_write` -/
def write (limit page_num : Nat) (data : List UChar) : Command (Driver Device) FlashExit Unit :=
  if data.length = 0 then pure ()
  else do
    lock
    unlocking (writeLoop spi limit page_num data limit)
    unlock

/-- `sd_flush` -/
def flush (limit : Nat) : Command (Driver Device) FlashExit Unit := do
  lock
  ending .multiread (unlocking (stopMultipleRead spi))
  ending .multiwrite (unlocking (stopMultipleWrite spi limit))
  unlock

end SdhcSpi
end Uos
