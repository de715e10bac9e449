import Mathlib.Logic.Function.Basic
import Uos.Library.Commands
import Uos.Net.Bytes

/-!
# The buffer of a sector

The flash under the file system of `fs/fat32-fast-write.c`, and the buffer through which its sectors
of 512 bytes are read and written.
-/

namespace Uos

/-- The result of a function of the file system. -/
inductive FsErr
  | ok
  | smallBuf
  | badFormat
  | io
  | noMem
  | eof
  | badArg
  | badState
  | prohibited
  deriving DecidableEq

/-- Where a byte comes from: it was read from a sector, or it is meant for a sector of a file, of
the root directory or of a FAT, or for `FSInfo`. -/
inductive FatHome
  | unknown
  | stored (sector : Nat)
  | file (sector : Nat)
  | directory (sector : Nat)
  | table (sector : Nat)
  | info
  deriving DecidableEq

/-- What happens at the flash: bytes are written to a sector, or `fat_read_sector` succeeds. -/
inductive FatEvent
  | write (sector size : Nat) (home : Nat → FatHome)
  | served (sector : Nat) (buffer content : Nat → UChar)

/-- Which operations of the flash succeed, and what a failing one leaves behind; the pointers it
wants; what an erased sector holds; and the byte behind a `fat32_fw_t`. -/
structure FlashEnv where
  ok : Nat → Bool
  junk : Nat → Nat → UChar
  data_align : Nat
  erased : Nat → UChar
  behind : UChar

/-- `FAT_SECTOR_SIZE` -/
def fatSectorSize : Nat := 512

/-- The buffer of a `fat32_fw_t`, with its flash.  `home` says where the bytes of `sector` come
from, and `ops` and `events` are what was done with the flash. -/
structure FatBuffer where
  flash : Nat → Nat → UChar
  cached_sector : Nat := 0
  cached_sector_size : Nat := 0
  sector : Nat → UChar := fun _ => 0
  home : Nat → FatHome := fun _ => .unknown
  ops : Nat := 0
  events : List FatEvent := []

namespace FatBuffer

open Command

variable (env : FlashEnv)

/-- `flash_write`: the bytes behind `size` stay. -/
def flashWrite (sector : Nat) (data : Nat → UChar) (home : Nat → FatHome) (size : Nat) :
    Command FatBuffer FsErr Unit :=
  fun b =>
    let content := if env.ok b.ops = true then
      fun i => if i < size then data i else b.flash sector i
    else env.junk b.ops
    (if env.ok b.ops = true then .ok () else .error .io, { b with
      flash := Function.update b.flash sector content
      ops := b.ops + 1
      events := b.events ++ [.write sector size home] })

/-- `flash_read` into the buffer. -/
def flashRead (sector : Nat) : Command FatBuffer FsErr Unit :=
  fun b =>
    if env.ok b.ops = true then
      (.ok (), { b with
        sector := b.flash sector, home := fun _ => .stored sector, ops := b.ops + 1 })
    else
      (.error .io, { b with
        sector := env.junk b.ops, home := fun _ => .unknown, ops := b.ops + 1 })

/-- `flash_flush` -/
def flashFlush : Command FatBuffer FsErr Unit :=
  fun b => (if env.ok b.ops = true then .ok () else .error .io, { b with ops := b.ops + 1 })

/-- `flash_erase_all` -/
def flashEraseAll : Command FatBuffer FsErr Unit :=
  fun b =>
    (if env.ok b.ops = true then .ok () else .error .io, { b with
      flash := fun _ => if env.ok b.ops = true then env.erased else env.junk b.ops
      ops := b.ops + 1 })

def hold (sector : Nat) (b : FatBuffer) : FatBuffer :=
  { b with cached_sector := sector, cached_sector_size := 0 }

/-- `fat_write_sector` -/
def fatWriteSector (sector size : Nat) : Command FatBuffer FsErr Unit := do
  let b ← state
  flashWrite env sector b.sector b.home size
  change (hold sector)

/-- The first step of `fat_read_sector`, for a buffer with another sector. -/
def flush : Command FatBuffer FsErr Unit :=
  fun b =>
    if b.cached_sector_size ≠ 0 then
      flashWrite env b.cached_sector b.sector b.home fatSectorSize b
    else (.ok (), b)

/-- `fat_read_sector` succeeds. -/
def serve (sector : Nat) : Command FatBuffer FsErr Unit :=
  change fun b => { b with events := b.events ++ [.served sector b.sector (b.flash sector)] }

/-- `fat_read_sector` -/
def fatReadSector (sector : Nat) : Command FatBuffer FsErr Unit :=
  fun b =>
    if b.cached_sector = sector then serve sector b
    else
      (do
        flush env
        flashRead env sector
        change (hold sector)
        serve sector) b

/-- `memcpy` into the buffer. -/
def store (offset : Nat) (data : List UChar) (home : FatHome) (b : FatBuffer) : FatBuffer :=
  { b with
    sector := fun i =>
      if offset ≤ i ∧ i < offset + data.length then data.getD (i - offset) 0 else b.sector i
    home := fun i => if offset ≤ i ∧ i < offset + data.length then home else b.home i }

end FatBuffer
end Uos
