import Uos.Flash.At45dbxx
import Uos.Flash.M25pxx
import Uos.Library.BigEndian

/-!
# Flash memories with pages

Devices for the drivers `at45dbxx`, `m25pxx` and `s25fl`: what they answer to the words of a
command, and what a command does when the chip is released.
-/

namespace Uos

open Command SpiFlash

/-- A device: how many bytes an address has, how far apart the addresses of pages are, how many
bytes a page has, and how often the status says that a page is still being programmed. -/
structure ChipShape where
  width : Nat
  stride : Nat
  page_size : Nat
  delay : Nat → Nat

/-- The memory of a device by addresses, the buffer of an AT45DBxx, the write enable latch of the
others, how often the status will say that the device works, and the words since it was selected. -/
structure Chip where
  cells : Nat → UChar
  buffer : Nat → UChar := fun _ => 0
  enabled : Bool := false
  busy : Nat := 0
  held : List UChar := []

namespace ChipShape

variable (shape : ChipShape)

/-- The address that is read behind another one: a page follows the one before it. -/
def next (address : Nat) : Nat :=
  if address % shape.stride + 1 = shape.page_size then (address / shape.stride + 1) * shape.stride
  else address + 1

def after (address : Nat) : Nat → Nat
  | 0 => address
  | count + 1 => shape.next (after address count)

def address (words : List UChar) : Nat :=
  bigEndian ((words.drop 1).take shape.width)

def data (words : List UChar) : List UChar :=
  words.drop (1 + shape.width)

end ChipShape

/-- Bytes come into memory one behind the other, from the begin of a page again behind its end. -/
def inPage (page_size base : Nat) (merge : UChar → UChar → UChar) :
    List UChar → Nat → (Nat → UChar) → Nat → UChar
  | [], _, memory => memory
  | byte :: bytes, place, memory =>
    inPage page_size base merge bytes (place + 1) fun address =>
      if address = base + place % page_size then merge (memory address) byte else memory address

/-- A device with what it answers to words, and what it does when it is released behind them. -/
def chipSpi (reply : Chip → List UChar → Nat → UChar) (release : Chip → List UChar → Chip) :
    Spi Chip :=
  fun message chip =>
    let words := chip.held ++ message.tx_data.getD (List.replicate message.word_count 0)
    (true, fun i => reply chip words (chip.held.length + i),
      if message.cs_hold = true then { chip with held := words }
      else { release chip words with held := [] })

def Chip.idly (chip changed : Chip) : Chip :=
  if chip.busy = 0 then changed else chip

namespace At45dbxx

variable (shape : ChipShape)

/-- The words of a command are answered: its status is read, or its memory. -/
def reply (chip : Chip) (words : List UChar) (i : Nat) : UChar :=
  if words.getD 0 0 = 0xD7 ∧ 1 ≤ i then
    (if chip.busy = 0 then 0x9C else 0x1C) ||| (if shape.page_size = 256 then 1 else 0)
  else if words.getD 0 0 = 0x0B ∧ 5 ≤ i ∧ chip.busy = 0 then
    chip.cells (shape.after (shape.address words) (i - 5))
  else 0

/-- A command ends: its buffer is written, or programmed into a page. -/
def release (chip : Chip) (words : List UChar) : Chip :=
  let address := shape.address words
  if words.getD 0 0 = 0xD7 then { chip with busy := chip.busy - 1 }
  else if words.getD 0 0 = 0x84 then
    chip.idly
      { chip with
        buffer := inPage shape.page_size 0 (fun _ byte => byte) (shape.data words)
          (address % shape.stride) chip.buffer }
  else if words.getD 0 0 = 0x88 then
    chip.idly
      { chip with
        cells := inPage shape.page_size (address / shape.stride * shape.stride) (· &&& ·)
          ((List.range shape.page_size).map chip.buffer) 0 chip.cells
        busy := shape.delay address }
  else chip

def chip : Spi Chip :=
  chipSpi (reply shape) (release shape)

end At45dbxx

namespace NorFlash

variable (shape : ChipShape)

/-- The words of a command are answered: its status is read, or its memory. -/
def reply (chip : Chip) (words : List UChar) (i : Nat) : UChar :=
  if words.getD 0 0 = 0x05 ∧ 1 ≤ i then
    (if chip.busy = 0 then 0 else 1) ||| (if chip.enabled = true then 2 else 0)
  else if words.getD 0 0 = 0x03 ∧ 1 + shape.width ≤ i ∧ chip.busy = 0 then
    chip.cells (shape.after (shape.address words) (i - (1 + shape.width)))
  else 0

/-- A command ends: writes are enabled, or a page is programmed. -/
def release (chip : Chip) (words : List UChar) : Chip :=
  let address := shape.address words
  if words.getD 0 0 = 0x05 then { chip with busy := chip.busy - 1 }
  else if words.getD 0 0 = 0x06 then chip.idly { chip with enabled := true }
  else if words.getD 0 0 = 0x02 ∧ chip.enabled = true then
    chip.idly
      { chip with
        cells := inPage shape.page_size (address / shape.stride * shape.stride) (· &&& ·)
          (shape.data words) (address % shape.stride) chip.cells
        enabled := false
        busy := shape.delay address }
  else chip

def chip : Spi Chip :=
  chipSpi (reply shape) (release shape)

end NorFlash

/-- The drivers of flash memories with pages. -/
inductive PageDriver
  | at45dbxx
  | m25pxx
  | s25fl

namespace PageDriver

def pageSizes : PageDriver → List Nat
  | at45dbxx => [256, 264]
  | m25pxx => [256]
  | s25fl => [256, 512]

def width : PageDriver → Nat
  | s25fl => 4
  | _ => 3

def pageAddress : PageDriver → Nat → Nat → Nat
  | at45dbxx => At45dbxx.pageAddress
  | _ => NorFlash.pageAddress

/-- A device that decodes addresses as its driver lays them out. -/
def shape (driver : PageDriver) (page_size : Nat) (delay : Nat → Nat) : ChipShape where
  width := driver.width
  stride := driver.pageAddress page_size 1
  page_size := page_size
  delay := delay

def chip (driver : PageDriver) (shape : ChipShape) : Spi Chip :=
  match driver with
  | at45dbxx => At45dbxx.chip shape
  | _ => NorFlash.chip shape

/-- `flash_write` -/
def write (driver : PageDriver) (shape : ChipShape) (limit page_num : Nat) (data : List UChar) :
    Command (SpiFlash Chip Unit) FlashExit Unit :=
  match driver with
  | at45dbxx => At45dbxx.write (At45dbxx.chip shape) limit page_num data
  | m25pxx => M25pxx.write (NorFlash.chip shape) limit page_num data
  | s25fl => S25fl.write (NorFlash.chip shape) limit page_num data

/-- `flash_read` -/
def read (driver : PageDriver) (shape : ChipShape) (limit page_num size : Nat) :
    Command (SpiFlash Chip Unit) FlashExit (List UChar) :=
  match driver with
  | at45dbxx => At45dbxx.read (At45dbxx.chip shape) limit page_num size
  | m25pxx => M25pxx.read (NorFlash.chip shape) limit page_num size
  | s25fl => S25fl.read (NorFlash.chip shape) limit page_num size

/-- Calls of `flash_read` for some numbers of pages, and one for what is left. -/
def readParts (driver : PageDriver) (shape : ChipShape) (limit : Nat) :
    Nat → List Nat → Nat → Command (SpiFlash Chip Unit) FlashExit (List UChar)
  | page_num, [], size => driver.read shape limit page_num size
  | page_num, pages :: parts, size => do
    let first ← driver.read shape limit page_num (pages * shape.page_size)
    let rest ← driver.readParts shape limit (page_num + pages) parts size
    pure (first ++ rest)

end PageDriver

def ChipShape.contents (shape : ChipShape) (cells : Nat → UChar) (page_num size : Nat) :
    List UChar :=
  (List.range size).map fun i =>
    cells ((page_num + i / shape.page_size) * shape.stride + i % shape.page_size)

/-- A driver that may call its device. -/
structure Ready (page_size : Nat) (m : SpiFlash Chip Unit) : Prop where
  page_size : m.page_size = page_size
  released : m.device.held = []
  idle : m.device.busy = 0

/-- The bytes of the data belong to the pages from the first one on: they are read from there, they
are written there, and any division of the same pages into calls reads what one call has written
into erased pages. -/
structure Paged (driver : PageDriver) (page_size page_num size : Nat) : Prop where
  reads : ∀ delay limit m, Ready page_size m → size < limit →
    ∃ m', driver.read (driver.shape page_size delay) limit page_num size m =
        (.ok ((driver.shape page_size delay).contents m.device.cells page_num size), m') ∧
      m'.device.cells = m.device.cells
  writes : ∀ delay limit data m, Ready page_size m → data.length = size → size < limit →
    (∀ address, delay address < limit) →
    (driver.shape page_size delay).contents m.device.cells page_num size =
      List.replicate size 0xFF →
    ∃ m', driver.write (driver.shape page_size delay) limit page_num data m = (.ok (), m') ∧
      (driver.shape page_size delay).contents m'.device.cells page_num size = data
  back : ∀ delay limit data m parts rest, Ready page_size m → data.length = size →
    size < limit → (∀ address, delay address < limit) →
    (driver.shape page_size delay).contents m.device.cells page_num size =
      List.replicate size 0xFF →
    parts.sum * page_size + rest = size →
    ∃ m', (do
        driver.write (driver.shape page_size delay) limit page_num data
        driver.readParts (driver.shape page_size delay) limit page_num parts rest) m =
      (.ok data, m')

end Uos
