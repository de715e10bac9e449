import Uos.Flash.Spi

/-!
# M25Pxx and S25FL

The drivers `flash/m25pxx.c` and `flash/s25fl.c`, which differ in their commands and in the number
of bytes of an address.
-/

namespace Uos

open Command SpiFlash

/-- An `m25pxx_t` or an `s25fl_t`. -/
abbrev NorFlash (Device : Type) := SpiFlash Device Unit

namespace NorFlash

variable {Device : Type} (spi : Spi Device) (limit : Nat)

/-- `enable_write` -/
def enableWrite : Command (NorFlash Device) FlashExit Unit := do
  store [0x06]
  send spi 1 false

/-- `read_status` and `read_sr1` -/
def readStatus : Command (NorFlash Device) FlashExit UChar := do
  store [0x05]
  send spi 1 true
  receive spi 1 false
  let m ← state
  pure (m.databuf 0)

def waitDone : Command (NorFlash Device) FlashExit Unit :=
  poll (readStatus spi) (fun status => status &&& 1 = 0) limit

/-- The identity of a device: the command is sent, and whether the transfers fail is not
checked. -/
def readId (word_count : Nat) : Command (NorFlash Device) FlashExit Unit := do
  store [0x9F]
  ignoring (send spi 1 true)
  ignoring (receive spi word_count false)

/-- `erase_all`, with the command for it. -/
def eraseAllBy (command : UChar) : Command (NorFlash Device) FlashExit Unit := do
  lock
  unlocking (enableWrite spi)
  store [command]
  unlocking (send spi 1 false)
  unlocking (waitDone spi limit)
  unlock

/-- `erase_sector`, for addresses of some bytes: it releases the lock that its caller holds. -/
def eraseSectorBy (width sector_num : Nat) : Command (NorFlash Device) FlashExit Unit := do
  unlocking (enableWrite spi)
  let m ← state
  store (0xD8 :: addressBytes width (sector_num * (m.page_size * m.nb_pages_in_sector) % 2 ^ 32))
  unlocking (send spi (width + 1) false)
  unlocking (waitDone spi limit)

/-- `erase_sectors`, for addresses of some bytes. -/
def eraseSectorsBy (width sector_num nb_sectors : Nat) :
    Command (NorFlash Device) FlashExit Unit := do
  lock
  each (List.range nb_sectors) fun i => eraseSectorBy spi limit width ((sector_num + i) % 2 ^ 32)
  unlock

/-- `write_one_page`, for addresses of some bytes. -/
def writeOnePageBy (width address : Nat) (data : List UChar) :
    Command (NorFlash Device) FlashExit Unit := do
  enableWrite spi
  store (0x02 :: addressBytes width address)
  send spi (width + 1) true
  let _ ← spimTrx spi { tx_data := some data, word_count := data.length, cs_hold := false } false
  waitDone spi limit

/-- `read_one_page`, for addresses of some bytes. -/
def readOnePageBy (width address size : Nat) :
    Command (NorFlash Device) FlashExit (List UChar) := do
  store (0x03 :: addressBytes width address)
  send spi (width + 1) true
  spimTrx spi { tx_data := none, word_count := size, cs_hold := false } false

/-- The address of a page, as the arguments of `cyclic_func` give it. -/
def pageAddress (page_size page_num : Nat) : Nat :=
  page_num * page_size % 2 ^ 32

/-- `write`, for addresses of some bytes. -/
def writeBy (width page_num : Nat) (data : List UChar) :
    Command (NorFlash Device) FlashExit Unit := do
  let m ← state
  let _ ← cyclicFunc limit (pageAddress m.page_size page_num) data.length
    fun address cur_data size => do
      writeOnePageBy spi limit width address ((data.drop cur_data).take size)
      pure []

/-- `read`, for addresses of some bytes. -/
def readBy (width page_num size : Nat) : Command (NorFlash Device) FlashExit (List UChar) := do
  let m ← state
  cyclicFunc limit (pageAddress m.page_size page_num) size
    fun address _ size => readOnePageBy spi width address size

end NorFlash

open NorFlash

namespace M25pxx

variable {Device : Type} (spi : Spi Device) (limit : Nat)

/-- `m25pxx_connect`: `shifted` is the value of `1 << databuf[2]`, which C leaves undefined for more
than 31 bits.  It divides by the number of sectors. -/
def connect (shifted : UChar → Nat) : Command (NorFlash Device) FlashExit Unit := do
  lock
  readId spi 3
  let m ← state
  if m.databuf 0 ≠ 0x20 ∨ m.databuf 1 ≠ 0x20 then unlocking (leave .notConn)
  else
    let size := shifted (m.databuf 2)
    let nb_sectors := size / 2 ^ 16
    change fun m => { m with nb_sectors, nb_pages_in_sector := 256 }
    if nb_sectors = 0 then leave .hangs
    else
      change fun m => { m with page_size := size / nb_sectors / 256 }
      unlock

/-- `m25pxx_erase_all` -/
def eraseAll : Command (NorFlash Device) FlashExit Unit := eraseAllBy spi limit 0xC7

/-- `m25pxx_erase_sectors` -/
def eraseSectors (sector_num nb_sectors : Nat) : Command (NorFlash Device) FlashExit Unit :=
  eraseSectorsBy spi limit 3 sector_num nb_sectors

/-- `m25pxx_write` -/
def write (page_num : Nat) (data : List UChar) : Command (NorFlash Device) FlashExit Unit :=
  writeBy spi limit 3 page_num data

/-- `m25pxx_read` -/
def read (page_num size : Nat) : Command (NorFlash Device) FlashExit (List UChar) :=
  readBy spi limit 3 page_num size

end M25pxx

namespace S25fl

variable {Device : Type} (spi : Spi Device) (limit : Nat)

def sizeOf (high low : UChar) : Option Nat :=
  if high = 0x20 ∧ low = 0x18 then some (16 * 1024 * 1024)
  else if high = 0x02 ∧ low = 0x19 then some (32 * 1024 * 1024)
  else none

/-- The number of sectors, the size of a page and the number of pages in a sector. -/
def geometry (size : Nat) (code : UChar) : Option (Nat × Nat × Nat) :=
  if code = 0x00 then some (size / (256 * 1024), 512, 512)
  else if code = 0x01 then some (size / (64 * 1024), 256, 256)
  else none

/-- `s25fl_connect` -/
def connect : Command (NorFlash Device) FlashExit Unit := do
  lock
  readId spi 5
  let m ← state
  if m.databuf 0 ≠ 0x01 then unlocking (leave .notConn)
  else
    match sizeOf (m.databuf 1) (m.databuf 2) with
    | none => unlocking (leave .notConn)
    | some size =>
      match geometry size (m.databuf 4) with
      | none => unlocking (leave .notConn)
      | some (nb_sectors, page_size, nb_pages_in_sector) =>
        change fun m => { m with nb_sectors, page_size, nb_pages_in_sector }
        store [0x17, 0x80]
        unlocking (send spi 2 false)
        unlock

/-- `s25fl_erase_all` -/
def eraseAll : Command (NorFlash Device) FlashExit Unit := eraseAllBy spi limit 0x60

/-- `s25fl_erase_sectors` -/
def eraseSectors (sector_num nb_sectors : Nat) : Command (NorFlash Device) FlashExit Unit :=
  eraseSectorsBy spi limit 4 sector_num nb_sectors

/-- `s25fl_write` -/
def write (page_num : Nat) (data : List UChar) : Command (NorFlash Device) FlashExit Unit :=
  writeBy spi limit 4 page_num data

/-- `s25fl_read` -/
def read (page_num size : Nat) : Command (NorFlash Device) FlashExit (List UChar) :=
  readBy spi limit 4 page_num size

end S25fl
end Uos
