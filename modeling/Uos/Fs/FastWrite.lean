import Uos.Fs.Buffer

/-!
# FAT32 with fast writing

The file system `fs/fat32-fast-write.c` with clusters of 64 sectors.  Words of 32 bits are numbers
below `2 ^ 32`.
-/

namespace Uos

/-- `FAT_SEC_PER_CLUSTER` -/
def fatSecPerCluster : Nat := 64

/-- `FAT_SECTOR_SIZE * FAT_SEC_PER_CLUSTER` -/
def fatClusterSize : Nat := fatSectorSize * fatSecPerCluster

def entriesPerSector : Nat := fatSectorSize / 32

/-- `FAT32_FILE_END` -/
def fat32FileEnd : Nat := 0x0FFFFFFF

/-- `O_READ` -/
def oRead : Nat := 1

/-- `O_WRITE` -/
def oWrite : Nat := 2

def word (n : Nat) : Nat :=
  n % 2 ^ 32

def shortBytes (n : Nat) : List UChar :=
  [.ofNat 8 n, .ofNat 8 (n / 2 ^ 8)]

def wordBytes (n : Nat) : List UChar :=
  [.ofNat 8 n, .ofNat 8 (n / 2 ^ 8), .ofNat 8 (n / 2 ^ 16), .ofNat 8 (n / 2 ^ 24)]

def shortAt (bytes : Nat → UChar) (offset : Nat) : Nat :=
  (bytes offset).toNat + (bytes (offset + 1)).toNat * 2 ^ 8

def wordAt (bytes : Nat → UChar) (offset : Nat) : Nat :=
  shortAt bytes offset + shortAt bytes (offset + 2) * 2 ^ 16

/-- What is used of an `fs_entry_t`. -/
structure FsEntry where
  name : List UChar := []
  size : Nat := 0
  year : Nat := 0
  month : Nat := 0
  day : Nat := 0
  hour : Nat := 0
  minute : Nat := 0
  second : Nat := 0
  attr : Nat := 0
  cur_pos : Nat := 0
  deriving DecidableEq

/-- A `fat32_fw_entry_t`. -/
structure Fat32FwEntry where
  base : FsEntry := {}
  first_clus : Nat := 0
  cur_sector : Nat := 0
  mode : Nat := 0
  deriving DecidableEq

/-- What a `fat32_fw_t` knows about its volume. -/
structure FatVolume where
  rsvd_sec_cnt : Nat := 0
  fat_sz32 : Nat := 0
  tot_sec32 : Nat := 0
  tot_clus : Nat := 0
  deriving DecidableEq

/-- A `fat32_fw_t`. -/
structure Fat32Fw where
  volume : FatVolume := {}
  last_error : FsErr := .ok
  nb_entries : Nat := 0
  nxt_free : Nat := 0
  cur_parent_pos : Nat := 0
  cur_dir_entry : Fat32FwEntry := {}
  buffer : FatBuffer

def FatVolume.rootSector (v : FatVolume) : Nat :=
  word (v.rsvd_sec_cnt + 2 * v.fat_sz32)

def FatVolume.fileStart (v : FatVolume) (first_clus : Nat) : Nat :=
  word (v.rootSector + word (first_clus + 2 ^ 32 - 2) * fatSecPerCluster)

def FatVolume.fileSector (v : FatVolume) (first_clus pos : Nat) : Nat :=
  word (v.fileStart first_clus + pos / fatSectorSize)

def FatVolume.recordSector (v : FatVolume) (record : Nat) : Nat :=
  word (v.rootSector + record / entriesPerSector)

/-- The sector of the last record of the root directory, whose number may be -1. -/
def FatVolume.lastRecordSector (v : FatVolume) (nb_entries : Nat) : Nat :=
  word (v.rootSector + (nb_entries + entriesPerSector - 1) / entriesPerSector + 2 ^ 32 - 1)

def lastCluster (first_clus size : Nat) : Nat :=
  word (first_clus + word (size + fatClusterSize - 1) / fatClusterSize + 2 ^ 32 - 1)

def FatVolume.linkSector (v : FatVolume) (cluster : Nat) : Nat :=
  word (v.rsvd_sec_cnt + cluster / (fatSectorSize / 4))

/-- The name in a directory entry.  Behind a short name one blank is stored, and the extension of
a name begins behind its full stop. -/
def dirEntName (name : List UChar) : List UChar :=
  let stem := (name.take 8).takeWhile (· ≠ 46)
  let first := if stem.length < 8 then stem ++ [32] else stem
  let rest := name.drop stem.length
  let extension := (if rest.head? = some 46 then rest.tail else rest).take 3
  first ++ .replicate (8 - first.length) 0 ++ extension ++ .replicate (3 - extension.length) 0

/-- `fs_entry_to_dir_ent` -/
def fsEntryToDirEnt (entry : FsEntry) (first_clus : Nat) : List UChar :=
  dirEntName entry.name ++ [0, 0, if entry.second % 2 = 1 then 99 else 0] ++
    .replicate 6 0 ++ shortBytes (first_clus / 2 ^ 16) ++
    shortBytes (entry.second / 2 ||| entry.minute * 2 ^ 5 ||| entry.hour * 2 ^ 11) ++
    shortBytes (entry.day ||| entry.month * 2 ^ 5 ||| word (entry.year + 2 ^ 32 - 1980) * 2 ^ 9) ++
    shortBytes first_clus ++ [0, 0, 0, 0]

/-- `dir_ent_to_fs_entry`, for the record at an offset. -/
def dirEntToFsEntry (bytes : Nat → UChar) (offset : Nat) (entry : Fat32FwEntry) : Fat32FwEntry :=
  let stem := ((List.range 8).map fun i => bytes (offset + i)).takeWhile (· ≠ 32)
  let extension := (List.range 3).map fun i => bytes (offset + 8 + i)
  let wrt_time := shortAt bytes (offset + 22)
  let wrt_date := shortAt bytes (offset + 24)
  { entry with
    base := { entry.base with
      name := if bytes (offset + 8) ≠ 32 then stem ++ 46 :: extension else stem
      attr := (bytes (offset + 11)).toNat
      size := wordAt bytes (offset + 28)
      day := wrt_date % 2 ^ 5
      month := wrt_date / 2 ^ 5 % 2 ^ 4
      year := 1980 + wrt_date / 2 ^ 9 % 2 ^ 7
      second := wrt_time % 2 ^ 5 * 2 + (bytes (offset + 13)).toNat / 100
      minute := wrt_time / 2 ^ 5 % 2 ^ 6
      hour := wrt_time / 2 ^ 11 % 2 ^ 5 }
    first_clus := shortAt bytes (offset + 26) + shortAt bytes (offset + 20) * 2 ^ 16 }

/-- The number of records in front of the first free one in a sector. -/
def usedRecords (bytes : Nat → UChar) : Nat :=
  ((List.range entriesPerSector).takeWhile fun record => bytes (32 * record) ≠ 0).length

namespace Fat32Fw

open Command

variable (env : FlashEnv)

def access {Result : Type} (command : Command FatBuffer FsErr Result) :
    Command Fat32Fw FsErr Result :=
  within buffer (fun buffer s => { s with buffer }) command

def finish (s : Except FsErr Unit × Fat32Fw) : Fat32Fw :=
  match s with
  | (.ok (), s) => { s with last_error := .ok }
  | (.error e, s) => { s with last_error := e }

def posSector (s : Fat32Fw) : Nat :=
  s.volume.fileSector s.cur_dir_entry.first_clus s.cur_dir_entry.base.cur_pos

/-- `cur_pos` changes. -/
def setPos (cur_pos : Nat) (s : Fat32Fw) : Fat32Fw :=
  { s with cur_dir_entry := { s.cur_dir_entry with base := { s.cur_dir_entry.base with cur_pos } } }

/-- `cur_pos` changes, and is the size of the file. -/
def setEnd (cur_pos : Nat) (s : Fat32Fw) : Fat32Fw :=
  { s with
    cur_dir_entry := { s.cur_dir_entry with
      base := { s.cur_dir_entry.base with cur_pos, size := cur_pos } } }

/-- `cur_sector` changes. -/
def setSector (cur_sector : Nat) (s : Fat32Fw) : Fat32Fw :=
  { s with cur_dir_entry := { s.cur_dir_entry with cur_sector } }

/-- `cached_sector_size` changes. -/
def setCached (cached_sector_size : Nat) (s : Fat32Fw) : Fat32Fw :=
  { s with buffer := { s.buffer with cached_sector_size } }

def fill (offset : Nat) (data : List UChar) (home : FatHome) (s : Fat32Fw) : Fat32Fw :=
  { s with buffer := s.buffer.store offset data home }

/-- `cur_pos` moves on, and the size of the file with it. -/
def moveOn (size : Nat) (s : Fat32Fw) : Fat32Fw :=
  let cur_pos := word (s.cur_dir_entry.base.cur_pos + size)
  { s with
    cur_dir_entry := { s.cur_dir_entry with
      base := { s.cur_dir_entry.base with
        cur_pos, size := max s.cur_dir_entry.base.size cur_pos } } }

/-- At the end of a sector `cur_sector` is the next one. -/
def nextSector (s : Fat32Fw) : Fat32Fw :=
  if s.cur_dir_entry.base.cur_pos % fatSectorSize = 0 then
    s.setSector (word (s.cur_dir_entry.cur_sector + 1))
  else s

/-- The loop of `fat32_fw_nb_entries`.  The byte that is looked at behind a full sector lies behind
the buffer. -/
def countEntries : Nat → Nat → Command Fat32Fw FsErr Unit
  | 0, _ => leave .eof
  | n + 1, nb_sec => do
    access (FatBuffer.fatReadSector env nb_sec)
    let s ← state
    let used := usedRecords s.buffer.sector
    change fun s => { s with nb_entries := (s.nb_entries + used) % 2 ^ 16 }
    if used < entriesPerSector ∨ env.behind = 0 then pure ()
    else countEntries n (nb_sec + 1)

/-- `fat32_fw_nb_entries`, without its result. -/
def nbEntries : Command Fat32Fw FsErr Unit := do
  let s ← state
  if s.nb_entries ≠ 0 then pure () else countEntries env fatSecPerCluster s.volume.rootSector

/-- `fat32_fw_nb_entries` -/
def fatFwNbEntries (s : Fat32Fw) : Nat × Fat32Fw :=
  let s := finish (nbEntries env s)
  (if s.last_error = .io then 0 else s.nb_entries, s)

/-- The new file of `fat32_fw_create`, in a buffer with a sector of the directory. -/
def addRecord (entry : FsEntry) (s : Fat32Fw) : Fat32Fw :=
  let s := { s with
    cur_dir_entry := { s.cur_dir_entry with base := entry, first_clus := s.nxt_free } }
  { s.fill (s.nb_entries % entriesPerSector * 32) (fsEntryToDirEnt entry s.nxt_free)
      (.directory (s.volume.recordSector s.nb_entries)) with
    nb_entries := (s.nb_entries + 1) % 2 ^ 16 }

/-- `fat32_fw_create`, without `last_error`. -/
def create (entry : FsEntry) : Command Fat32Fw FsErr Unit := do
  let s ← state
  if s.cur_dir_entry.mode ≠ 0 then leave .prohibited
  else
    nbEntries env
    let s ← state
    let nb_sec := s.volume.recordSector s.nb_entries
    access (FatBuffer.fatReadSector env nb_sec)
    change (addRecord entry)
    access (FatBuffer.fatWriteSector env nb_sec (s.nb_entries % entriesPerSector * 32 + 32))

/-- `fat32_fw_create` -/
def fatFwCreate (entry : FsEntry) (s : Fat32Fw) : Fat32Fw :=
  finish (create env entry s)

/-- `fat32_fw_open` -/
def fatFwOpen (file_mode : Nat) (s : Fat32Fw) : Fat32Fw :=
  if s.cur_dir_entry.mode ≠ 0 then { s with last_error := .prohibited }
  else if file_mode = oRead ∨ file_mode = oWrite then
    { s with
      cur_dir_entry := { s.cur_dir_entry with
        base := { s.cur_dir_entry.base with cur_pos := 0 }
        cur_sector := s.volume.fileStart s.cur_dir_entry.first_clus
        mode := file_mode } }
  else { s with last_error := .badArg }

/-- `fat32_fw_seek_start` -/
def fatFwSeekStart (s : Fat32Fw) : Fat32Fw :=
  if s.cur_dir_entry.mode = 0 then { s with last_error := .prohibited }
  else
    { (s.setPos 0).setSector (s.volume.fileStart s.cur_dir_entry.first_clus) with
      last_error := .ok }

/-- Whether `fat32_fw_advance` comes to the end of a file that is read. -/
def EndOfFile (size : Nat) (s : Fat32Fw) : Prop :=
  s.cur_dir_entry.mode = oRead ∧
    s.cur_dir_entry.base.size ≤ word (s.cur_dir_entry.base.cur_pos + size)

/-- Whether `fat32_fw_advance` comes to the end of the volume. -/
def EndOfVolume (size : Nat) (s : Fat32Fw) : Prop :=
  s.cur_dir_entry.mode = oWrite ∧
    s.volume.tot_clus <
      lastCluster s.cur_dir_entry.first_clus (s.cur_dir_entry.base.cur_pos + size)

instance (size : Nat) (s : Fat32Fw) : Decidable (EndOfFile size s) :=
  inferInstanceAs (Decidable (_ ∧ _))

instance (size : Nat) (s : Fat32Fw) : Decidable (EndOfVolume size s) :=
  inferInstanceAs (Decidable (_ ∧ _))

/-- The size at which `fat32_fw_advance` ends the file in that case. -/
def sizeLimit (s : Fat32Fw) : Nat :=
  word (word (s.volume.tot_clus + 2 ^ 32 - s.cur_dir_entry.first_clus + 1) * fatClusterSize)

/-- `fat32_fw_advance` -/
def fatFwAdvance (size : Nat) (s : Fat32Fw) : Fat32Fw :=
  if s.cur_dir_entry.mode = 0 then { s with last_error := .prohibited }
  else if EndOfFile size s then
    { s.setPos s.cur_dir_entry.base.size with last_error := .eof }
  else if EndOfVolume size s then
    { s.setEnd (sizeLimit s) with last_error := .eof }
  else
    let s := s.moveOn size
    { s.setSector s.posSector with last_error := .ok }

def part (offset size : Nat) (s : Fat32Fw) : List UChar :=
  (List.range size).map fun i => s.buffer.sector (offset + i)

/-- The loop of `fat32_fw_read`, behind the copy of a part: the bytes of the other parts. -/
def readLoop : Nat → Nat → Fat32Fw → List UChar × Fat32Fw
  | 0, _, s => ([], s)
  | n + 1, size, s =>
    let s := s.nextSector
    if size = 0 then ([], { s with last_error := .ok })
    else
      let cur_size := min size fatSectorSize
      match access (FatBuffer.fatReadSector env s.cur_dir_entry.cur_sector) s with
      | (.ok (), s) =>
        let rest := readLoop n (size - cur_size)
          (s.setPos (word (s.cur_dir_entry.base.cur_pos + cur_size)))
        (s.part 0 cur_size ++ rest.1, rest.2)
      | (.error e, s) => ([], { s with last_error := e })

/-- `fat32_fw_read`: the bytes that are read. -/
def fatFwRead (size : Nat) (s : Fat32Fw) : List UChar × Fat32Fw :=
  if s.cur_dir_entry.mode ≠ oRead then ([], { s with last_error := .badState })
  else
    let size :=
      min size (word (s.cur_dir_entry.base.size + 2 ^ 32 - s.cur_dir_entry.base.cur_pos))
    let sector_offset := s.cur_dir_entry.base.cur_pos % fatSectorSize
    let cur_size := min size (fatSectorSize - sector_offset)
    match access (FatBuffer.fatReadSector env s.cur_dir_entry.cur_sector) s with
    | (.ok (), s) =>
      let rest := readLoop env (size + 1) (size - cur_size)
        (s.setPos (word (s.cur_dir_entry.base.cur_pos + cur_size)))
      (s.part sector_offset cur_size ++ rest.1, rest.2)
    | (.error e, s) => ([], { s with last_error := e })

/-- A whole sector of `fat32_fw_write`, from the address `p`. -/
def writeWhole (p : Nat) (data : List UChar) : Command Fat32Fw FsErr Unit := do
  let s ← state
  if p &&& env.data_align = 0 then
    access (FatBuffer.flashWrite env s.cur_dir_entry.cur_sector (data.getD · 0)
      (fun _ => .file s.posSector) fatSectorSize)
  else
    change (fill 0 data (.file s.posSector))
    access (FatBuffer.fatWriteSector env s.cur_dir_entry.cur_sector fatSectorSize)

/-- The last part of `fat32_fw_write`, less than a sector. -/
def writeRest (data : List UChar) : Command Fat32Fw FsErr Unit :=
  change fun s => (s.fill 0 data (.file s.posSector)).setCached data.length

/-- The loop of `fat32_fw_write`, behind a part that was written: `data` is the rest, which lies at
the address `p`. -/
def writeLoop : Nat → Nat → List UChar → Command Fat32Fw FsErr Unit
  | 0, _, _ => pure ()
  | n + 1, p, data => do
    change nextSector
    let s ← state
    if s.volume.tot_sec32 ≤ s.cur_dir_entry.cur_sector then leave .eof
    else if data.length = 0 then pure ()
    else
      let now := data.take fatSectorSize
      if now.length = fatSectorSize then writeWhole env p now else writeRest now
      change (moveOn now.length)
      writeLoop n (p + now.length) (data.drop fatSectorSize)

/-- `fat32_fw_write`, for bytes at the address `p`, without `last_error`. -/
def write (p : Nat) (data : List UChar) : Command Fat32Fw FsErr Unit := do
  let s ← state
  if s.cur_dir_entry.mode ≠ oWrite then leave .badState
  else
    let sector_offset := s.cur_dir_entry.base.cur_pos % fatSectorSize
    let bytes_to_end_of_sector := fatSectorSize - sector_offset
    let now := data.take bytes_to_end_of_sector
    change (fill sector_offset now (.file s.posSector))
    change (moveOn now.length)
    if now.length < bytes_to_end_of_sector then
      change (setCached (sector_offset + now.length))
    else
      access (FatBuffer.fatWriteSector env s.cur_dir_entry.cur_sector fatSectorSize)
      writeLoop env (data.length + 1) (p + now.length) (data.drop bytes_to_end_of_sector)

/-- `fat32_fw_write` -/
def fatFwWrite (p : Nat) (data : List UChar) (s : Fat32Fw) : Fat32Fw :=
  finish (write env p data s)

/-- Step 1 of `fat32_fw_close`. -/
def closeData : Command Fat32Fw FsErr Unit := do
  let s ← state
  if s.buffer.cached_sector_size ≠ 0 then
    access (FatBuffer.fatWriteSector env s.cur_dir_entry.cur_sector s.buffer.cached_sector_size)
  else pure ()

/-- A word of a sector is changed: the sector is read, and written back. -/
def patch (sector offset value : Nat) (home : FatHome) : Command Fat32Fw FsErr Unit := do
  access (FatBuffer.fatReadSector env sector)
  change (fill offset (wordBytes value) home)
  access (FatBuffer.fatWriteSector env sector fatSectorSize)

/-- Step 2 of `fat32_fw_close`. -/
def closeTable (last_cluster : Nat) : Command Fat32Fw FsErr Unit := do
  let s ← state
  let sector := s.volume.linkSector last_cluster
  patch env sector (last_cluster % (fatSectorSize / 4) * 4) fat32FileEnd (.table sector)

/-- Step 3 of `fat32_fw_close`. -/
def closeRecord : Command Fat32Fw FsErr Unit := do
  let s ← state
  let nb_sec := s.volume.lastRecordSector s.nb_entries
  patch env nb_sec ((s.nb_entries + entriesPerSector - 1) % entriesPerSector * 32 + 28)
    s.cur_dir_entry.base.size (.directory nb_sec)
  let s ← state
  access (FatBuffer.flashWrite env nb_sec s.buffer.sector s.buffer.home fatSectorSize)

/-- Step 4 of `fat32_fw_close`. -/
def closeInfo (last_cluster : Nat) : Command Fat32Fw FsErr Unit := do
  change fun s => { s with nxt_free := word (last_cluster + 1) }
  patch env 1 492 (word (last_cluster + 1)) .info
  access (FatBuffer.fatWriteSector env 7 fatSectorSize)

/-- What `fat32_fw_close` does with a file that was written. -/
def closeWritten : Command Fat32Fw FsErr Unit := do
  let s ← state
  let last_cluster := lastCluster s.cur_dir_entry.first_clus s.cur_dir_entry.base.size
  closeData env
  closeTable env last_cluster
  closeRecord env
  closeInfo env last_cluster

/-- `fat32_fw_close`, without `last_error`. -/
def close : Command Fat32Fw FsErr Unit := do
  let s ← state
  if s.cur_dir_entry.mode = oWrite then closeWritten env else pure ()
  change fun s => { s with cur_dir_entry := { s.cur_dir_entry with mode := 0 } }
  access (FatBuffer.flashFlush env)

/-- `fat32_fw_close` -/
def fatFwClose (s : Fat32Fw) : Fat32Fw :=
  finish (close env s)

/-- `get_first_entry`, without `last_error`. -/
def firstEntry : Command Fat32Fw FsErr Unit := do
  let s ← state
  access (FatBuffer.fatReadSector env s.volume.rootSector)
  change fun s => { s with
    cur_parent_pos := 0, cur_dir_entry := dirEntToFsEntry s.buffer.sector 0 s.cur_dir_entry }

/-- `get_first_entry` -/
def getFirstEntry (s : Fat32Fw) : Fat32Fw :=
  finish (firstEntry env s)

/-- `get_next_entry`, without `last_error`. -/
def nextEntry : Command Fat32Fw FsErr Unit := do
  let s ← state
  if s.cur_parent_pos = fatClusterSize then leave .eof
  else
    let pos := word (s.cur_parent_pos + 32)
    access (FatBuffer.fatReadSector env (word (s.volume.rootSector + pos / fatSectorSize)))
    change fun s => { s with cur_parent_pos := pos }
    let s ← state
    if s.buffer.sector (pos % fatSectorSize) = 0 then leave .eof
    else
      change fun s => { s with
        cur_dir_entry := dirEntToFsEntry s.buffer.sector (pos % fatSectorSize) s.cur_dir_entry }

/-- `get_next_entry` -/
def getNextEntry (s : Fat32Fw) : Fat32Fw :=
  finish (nextEntry env s)

/-- `FAT32_FW_FS_TYPE` -/
def fat32FwFsType : List UChar := [70, 65, 84, 51, 50, 32, 70, 87]

/-- What `fat32_fw_init` finds in the boot sector. -/
def FatVolume.ofBootSector (bytes : Nat → UChar) : FatVolume :=
  let rsvd_sec_cnt := shortAt bytes 14
  let fat_sz32 := wordAt bytes 36
  let tot_sec32 := wordAt bytes 32
  { rsvd_sec_cnt, fat_sz32, tot_sec32
    tot_clus := word (tot_sec32 + 2 ^ 33 - rsvd_sec_cnt - word (2 * fat_sz32)) / fatSecPerCluster }

/-- Whether a boot sector is one of this file system. -/
def BootSector (bytes : Nat → UChar) : Prop :=
  (List.range 8).map (fun i => bytes (82 + i)) = fat32FwFsType ∧
    shortAt bytes 11 = fatSectorSize ∧ (bytes 13).toNat = fatSecPerCluster

/-- Whether a sector is an `FSInfo`. -/
def InfoSector (bytes : Nat → UChar) : Prop :=
  wordAt bytes 0 = 0x41615252 ∧ wordAt bytes 484 = 0x61417272 ∧ wordAt bytes 508 = 0xAA550000

instance (bytes : Nat → UChar) : Decidable (BootSector bytes) :=
  inferInstanceAs (Decidable (_ ∧ _))

instance (bytes : Nat → UChar) : Decidable (InfoSector bytes) :=
  inferInstanceAs (Decidable (_ ∧ _))

/-- `fat32_fw_init`, without `last_error`.  Of `cur_dir_entry` only the `fs_entry_t` is cleared. -/
def init : Command Fat32Fw FsErr Unit := do
  change fun s => { s with buffer := { s.buffer with cached_sector := 2 ^ 32 - 1 } }
  access (FatBuffer.fatReadSector env 0)
  let s ← state
  if ¬ BootSector s.buffer.sector then leave .badFormat
  else
    change fun s => { s with volume := FatVolume.ofBootSector s.buffer.sector }
    access (FatBuffer.fatReadSector env 1)
    let s ← state
    if ¬ InfoSector s.buffer.sector then leave .badFormat
    else
      change fun s => { s with
        nxt_free := wordAt s.buffer.sector 492
        nb_entries := 0
        cur_parent_pos := 0
        cur_dir_entry := { s.cur_dir_entry with base := {} } }
      change (setCached 0)

/-- `fat32_fw_init` -/
def fatFwInit (s : Fat32Fw) : Fat32Fw :=
  finish (init env s)

end Fat32Fw
end Uos
