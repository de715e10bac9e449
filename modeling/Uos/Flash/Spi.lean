import Uos.Library.Commands
import Uos.Net.Bytes

/-!
# Flash memories on an SPI

What the drivers in `flash/` have in common: the lock of the device, the transfers, and the division
of data into pages by `cyclic_func`.
-/

namespace Uos

/-- How a function of `flash/flash-interface.h` fails, or that it does not return. -/
inductive FlashExit
  | notConn
  | notSupp
  | io
  | invalSize
  | badAnswer
  | hangs
  deriving DecidableEq

/-- What a `spi_message_t` makes a SPI master do; without `tx_data` zeroes are sent. -/
structure SpiMessage where
  tx_data : Option (List UChar)
  word_count : Nat
  cs_hold : Bool
  cs_high : Bool := false
  freq : Nat := 0

/-- A SPI master with a slave: whether a transfer succeeds, and which words are received. -/
abbrev Spi (Device : Type) := SpiMessage → Device → Bool × (Nat → UChar) × Device

/-- A `flashif_t` with its driver, which has some fields of its own.  `depth` counts how often the
calling task holds the lock, and `strays` how often it released the lock without holding it. -/
structure SpiFlash (Device Own : Type) where
  nb_sectors : Nat := 0
  nb_pages_in_sector : Nat := 0
  page_size : Nat := 0
  databuf : Nat → UChar := fun _ => 0
  own : Own
  device : Device
  depth : Nat := 0
  strays : Nat := 0

def addressBytes (count address : Nat) : List UChar :=
  (List.range count).reverse.map fun i => .ofNat 8 (address / 2 ^ (8 * i))

namespace SpiFlash

open Command

variable {Device Own Result : Type}

/-- `mutex_lock` of a recursive lock. -/
def lock : Command (SpiFlash Device Own) FlashExit Unit :=
  change fun m => { m with depth := m.depth + 1 }

/-- `mutex_unlock` -/
def unlock : Command (SpiFlash Device Own) FlashExit Unit :=
  change fun m =>
    if m.depth = 0 then { m with strays := m.strays + 1 } else { m with depth := m.depth - 1 }

def cleaning (cleanup : SpiFlash Device Own → SpiFlash Device Own)
    (command : Command (SpiFlash Device Own) FlashExit Result) :
    Command (SpiFlash Device Own) FlashExit Result :=
  fun m =>
    match command m with
    | (.ok value, m) => (.ok value, m)
    | (.error .hangs, m) => (.error .hangs, m)
    | (.error e, m) => (.error e, cleanup m)

def unlocking (command : Command (SpiFlash Device Own) FlashExit Result) :
    Command (SpiFlash Device Own) FlashExit Result :=
  cleaning (fun m => (unlock m).2) command

def ignoring (command : Command (SpiFlash Device Own) FlashExit Unit) :
    Command (SpiFlash Device Own) FlashExit Unit :=
  fun m =>
    match command m with
    | (.error .hangs, m) => (.error .hangs, m)
    | (_, m) => (.ok (), m)

/-- Fail if a condition on `databuf` does not hold. -/
def demand (condition : (Nat → UChar) → Bool) (exit : FlashExit) :
    Command (SpiFlash Device Own) FlashExit Unit := do
  let m ← state
  if condition m.databuf = true then pure () else leave exit

/-- The first bytes of `databuf` change. -/
def store (bytes : List UChar) : Command (SpiFlash Device Own) FlashExit Unit :=
  change fun m =>
    { m with databuf := fun i => if i < bytes.length then bytes.getD i 0 else m.databuf i }

/-- The first bytes of `databuf`. -/
def part (m : SpiFlash Device Own) (count : Nat) : List UChar :=
  (List.range count).map m.databuf

variable (spi : Spi Device)

/-- `spim_trx`: the words that are received come into `databuf` if `rx_data` points there. -/
def spimTrx (message : SpiMessage) (rx_data : Bool) :
    Command (SpiFlash Device Own) FlashExit (List UChar) :=
  fun m =>
    let (ok, words, device) := spi message m.device
    let databuf := if rx_data = true then
        fun i => if i < message.word_count then words i else m.databuf i
      else m.databuf
    (if ok = true then .ok ((List.range message.word_count).map words) else .error .io,
      { m with device, databuf })

/-- A transfer of `databuf`, of which nothing is received. -/
def send (word_count : Nat) (cs_hold : Bool) : Command (SpiFlash Device Own) FlashExit Unit := do
  let m ← state
  let _ ← spimTrx spi { tx_data := some (m.part word_count), word_count, cs_hold } false

/-- A transfer into `databuf`. -/
def receive (word_count : Nat) (cs_hold : Bool) : Command (SpiFlash Device Own) FlashExit Unit := do
  let _ ← spimTrx spi { tx_data := none, word_count, cs_hold } true

/-- A transfer of `databuf` into `databuf`. -/
def exchange (word_count : Nat) (cs_hold : Bool) :
    Command (SpiFlash Device Own) FlashExit Unit := do
  let m ← state
  let _ ← spimTrx spi { tx_data := some (m.part word_count), word_count, cs_hold } true

def poll (query : Command (SpiFlash Device Own) FlashExit UChar) (fits : UChar → Bool) :
    Nat → Command (SpiFlash Device Own) FlashExit Unit
  | 0 => leave .hangs
  | limit + 1 => do
    let status ← query
    if fits status = true then pure () else poll query fits limit

/-- The loop of `cyclic_func`: `func` is given the address, the position in the data, and the
size, and returns what it has read. -/
def cyclicLoop (func : Nat → Nat → Nat → Command (SpiFlash Device Own) FlashExit (List UChar)) :
    Nat → Nat → Nat → Nat → Command (SpiFlash Device Own) FlashExit (List UChar)
  | 0, _, _, _ => leave .hangs
  | limit + 1, address, cur_data, size => do
    if size = 0 then pure []
    else
      let m ← state
      let cur_size := if size < m.page_size then size else m.page_size
      let first ← unlocking (func address cur_data cur_size)
      let rest ← cyclicLoop func limit ((address + cur_size) % 2 ^ 32) (cur_data + cur_size)
        (size - cur_size)
      pure (first ++ rest)

/-- `cyclic_func` -/
def cyclicFunc (limit address size : Nat)
    (func : Nat → Nat → Nat → Command (SpiFlash Device Own) FlashExit (List UChar)) :
    Command (SpiFlash Device Own) FlashExit (List UChar) := do
  lock
  let data ← cyclicLoop func limit address 0 size
  unlock
  pure data

end SpiFlash
end Uos
