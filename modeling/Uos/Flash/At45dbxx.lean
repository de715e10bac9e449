import Uos.Flash.Spi

/-!
# AT45DBxx

The driver `flash/at45dbxx.c`.
-/

namespace Uos
namespace At45dbxx

open Command SpiFlash

variable {Device : Type} (spi : Spi Device) (limit : Nat)

/-- An `at45dbxx_t`. -/
abbrev Driver (Device : Type) := SpiFlash Device Unit

/-- `read_status`: some bits of a status are fixed. -/
def readStatus : Command (Driver Device) FlashExit UChar := do
  store [0xD7]
  exchange spi 2 false
  let m ← state
  if m.databuf 1 &&& 0x3C ≠ 0x1C then leave .io else pure (m.databuf 1)

/-- The loops that wait for `AT45_STATUS_RDY`. -/
def waitReady : Command (Driver Device) FlashExit Unit :=
  poll (readStatus spi) (fun status => status &&& 0x80 ≠ 0) limit

/-- What `at45dbxx_connect` makes of the status and the identity.  It divides by the number of
sectors. -/
def configure (status id : UChar) : Command (Driver Device) FlashExit Unit := do
  let small := status &&& 1 ≠ 0
  let size := (if small then 32768 else 33792) * 2 ^ (id &&& 0x1F).toNat % 2 ^ 32
  let nb_sectors := size / if small then 2048 else 2112
  change fun m => { m with nb_sectors, nb_pages_in_sector := 8 }
  if nb_sectors = 0 then leave .hangs
  else change fun m => { m with page_size := size / nb_sectors / 8 }

/-- `at45dbxx_connect` -/
def connect : Command (Driver Device) FlashExit Unit := do
  lock
  store [0x9F]
  unlocking (exchange spi 3 false)
  let m ← state
  if m.databuf 1 ≠ 0x1F ∨ m.databuf 2 &&& 0xE0 ≠ 0x20 then unlocking (leave .notConn)
  else
    let status ← unlocking (readStatus spi)
    let m ← state
    configure status (m.databuf 2)
    unlock

/-- `at45dbxx_page_address` -/
def pageAddress (page_size page_num : Nat) : Nat :=
  if page_size = 264 then page_num * 2 ^ 9 % 2 ^ 32 else page_num * 2 ^ 8 % 2 ^ 32

/-- `at45dbxx_sector_address` -/
def sectorAddress (page_size sector_num : Nat) : Nat :=
  if page_size = 264 then sector_num * 2 ^ 12 % 2 ^ 32 else sector_num * 2 ^ 11 % 2 ^ 32

/-- `at45dbxx_erase_all` -/
def eraseAll : Command (Driver Device) FlashExit Unit := do
  lock
  store [0xC7, 0x94, 0x80, 0x9A]
  unlocking (send spi 4 false)
  unlocking (waitReady spi limit)
  unlock

/-- `erase_sector`: the command, and the wait for its end. -/
def eraseSector (sector_num : Nat) : Command (Driver Device) FlashExit Unit := do
  lock
  let m ← state
  store (0x50 :: addressBytes 3 (sectorAddress m.page_size sector_num))
  unlocking (send spi 4 false)
  unlocking (waitReady spi limit)
  unlock

/-- `at45dbxx_erase_sectors` -/
def eraseSectors (sector_num nb_sectors : Nat) : Command (Driver Device) FlashExit Unit := do
  lock
  each (List.range nb_sectors) fun i => eraseSector spi limit ((sector_num + i) % 2 ^ 32)
  unlock

/-- `write_one_page`: through the first buffer of the device. -/
def writeOnePage (address : Nat) (data : List UChar) :
    Command (Driver Device) FlashExit Unit := do
  store (0x84 :: addressBytes 3 address)
  send spi 4 true
  let _ ← spimTrx spi { tx_data := some data, word_count := data.length, cs_hold := false } false
  store [0x88]
  send spi 4 false
  waitReady spi limit

/-- `read_one_page` -/
def readOnePage (address size : Nat) : Command (Driver Device) FlashExit (List UChar) := do
  store (0x0B :: addressBytes 3 address ++ [0])
  send spi 5 true
  spimTrx spi { tx_data := none, word_count := size, cs_hold := false } false

/-- `at45dbxx_write` -/
def write (page_num : Nat) (data : List UChar) : Command (Driver Device) FlashExit Unit := do
  let m ← state
  let _ ← cyclicFunc limit (pageAddress m.page_size page_num) data.length
    fun address cur_data size => do
      writeOnePage spi limit address ((data.drop cur_data).take size)
      pure []

/-- `at45dbxx_read` -/
def read (page_num size : Nat) : Command (Driver Device) FlashExit (List UChar) := do
  let m ← state
  cyclicFunc limit (pageAddress m.page_size page_num) size
    fun address _ size => readOnePage spi address size

end At45dbxx
end Uos
