import Uos.Fs.Buffer

/-!
# FAT volumes

Reading the directories of a FAT32 volume, from `fs/fat.c` and `fs/fat-private.c`.  A store into a
name outside of its block fails.
-/

namespace Uos.Fat

def shortAt (bytes : Nat → UChar) (offset : Nat) : UShort :=
  .ofBytes (bytes (offset + 1)) (bytes offset)

def wordAt (bytes : Nat → UChar) (offset : Nat) : ULong :=
  shortAt bytes (offset + 2) ++ shortAt bytes offset

/-- What a driver of a flash does with a sector: whether `flash_read` succeeds, and the bytes that
it puts into the buffer. -/
abbrev Flash := ULong → Bool × (Nat → UChar)

/-- What a `fat_fs_t` knows about its volume. -/
structure Volume where
  sec_per_clus : UChar
  bytes_per_sec : UShort
  first_fat_sec : ULong
  first_data_sec : ULong
  root_clus : ULong
  deriving DecidableEq

/-- `FAT_MAX_BYTES_PER_SECTOR` -/
def fatMaxBytesPerSector : Nat := 512

/-- `common_check_fat_bs` -/
def commonCheckFatBs (bs : Nat → UChar) : Bool :=
  (bs 0 = 0xeb || bs 0 = 0xe9) &&
    [512, 1024, 2048, 4096].contains (shortAt bs 11) &&
    [1, 2, 4, 8, 16, 32, 64, 128].contains (bs 13) &&
    shortAt bs 14 ≠ 0 && bs 16 ≠ 0 && 0xf0 ≤ (bs 21).toNat

/-- Whether `check_fat_type` returns `FS_TYPE_FAT32`. -/
def isFat32 (bs : Nat → UChar) : Bool :=
  !(bs 510 ≠ 0x55 && bs 511 ≠ 0xaa) && commonCheckFatBs bs && shortAt bs 22 = 0 &&
    wordAt bs 36 ≠ 0 && bs 66 = 0x29

/-- `fat_fs_init`, for a volume of type FAT32. -/
def fatFsInit (flash : Flash) (first_sector : ULong) : Except FsErr Volume :=
  if (flash first_sector).1 then
    let bs := (flash first_sector).2
    if ¬isFat32 bs then .error .badFormat
    else if (shortAt bs 11).toNat > fatMaxBytesPerSector then .error .smallBuf
    else
      let first_fat_sec := first_sector + (shortAt bs 14).setWidth 32
      .ok {
        sec_per_clus := bs 13
        bytes_per_sec := shortAt bs 11
        first_fat_sec := first_fat_sec
        first_data_sec := first_fat_sec + (bs 16).setWidth 32 * wordAt bs 36
        root_clus := wordAt bs 44 }
  else .error .io

/-- A buffer after `flash_read` of some bytes. -/
def filled (size : Nat) (data old : Nat → UChar) : Nat → UChar :=
  fun i => if i < size then data i else old i

/-- A directory that is read, with the `fat_fs_t` below: the caches, where the directory is read,
and the error of the last call.  `cache_p` is an offset in `cache_data`. -/
structure Dir where
  fat_cache : Nat → UChar
  cached_sector : ULong
  last_error : FsErr
  attr : ULong
  first_clus : ULong
  cur_clus : ULong
  cur_sec : UChar
  cur_pos : ULong
  cache : Nat → UChar
  cache_p : Nat
  cache_valid : Bool

namespace Dir

variable (v : Volume) (flash : Flash)

/-- The byte of the directory entry that `cache_p` points to. -/
def byte (d : Dir) (i : Nat) : UChar :=
  d.cache (d.cache_p + i)

/-- `do_fat_seek_start` -/
def doFatSeekStart (d : Dir) : Dir :=
  { d with
    cur_clus := d.first_clus
    cur_sec := 0
    cache_p := 0
    cache_valid := false
    cur_pos := 0 }

/-- `move_to_next_cluster` -/
def moveToNextCluster (d : Dir) : Dir :=
  let bytes_per_sec : ULong := v.bytes_per_sec.setWidth 32
  let req_sec := v.first_fat_sec + d.cur_clus * 4 / bytes_per_sec
  let (read, data) := flash req_sec
  let size := v.bytes_per_sec.toNat
  if req_sec ≠ d.cached_sector ∧ read = false then
    { d with fat_cache := filled size data d.fat_cache, last_error := .io }
  else
    let d :=
      if req_sec ≠ d.cached_sector then
        { d with fat_cache := filled size data d.fat_cache, cached_sector := req_sec }
      else d
    { d with
      cur_clus := wordAt d.fat_cache (d.cur_clus * 4 % bytes_per_sec).toNat
      cur_sec := 0 }

/-- `move_to_next_sector` -/
def moveToNextSector (d : Dir) : Dir :=
  let d := { d with cache_valid := false, cur_sec := d.cur_sec + 1 }
  let d := if v.sec_per_clus.toNat ≤ d.cur_sec.toNat then d.moveToNextCluster v flash else d
  { d with cache_p := 0 }

/-- `do_fat_update_cache` -/
def doFatUpdateCache (d : Dir) : Dir :=
  if d.cache_valid then { d with last_error := .ok }
  else
    let (read, data) := flash (v.first_data_sec +
      ((d.cur_clus &&& 0x0fffffff) - 2) * v.sec_per_clus.setWidth 32 + d.cur_sec.setWidth 32)
    let d := { d with cache := filled v.bytes_per_sec.toNat data d.cache }
    if read then { d with cache_valid := true, last_error := .ok } else { d with last_error := .io }

/-- `do_fat_advance` of a directory by `sizeof (fat_dir_ent_t)`. -/
def doFatAdvance (d : Dir) : Dir :=
  let d := { d with last_error := .ok }
  if d.byte 0 = 0 then { d with last_error := .eof }
  else
    let d := { d with cur_pos := d.cur_pos + 32, cache_p := d.cache_p + 32 }
    let d := if d.cur_pos % v.bytes_per_sec.setWidth 32 = 0 then d.moveToNextSector v flash else d
    if d.last_error ≠ .ok then d else d.doFatUpdateCache v flash

/-- `move_to_next_dir_entry`, which returns 0 with an error. -/
def moveToNextDirEntry (d : Dir) : Dir :=
  let d := d.doFatAdvance v flash
  if d.last_error ≠ .ok then d else d.doFatUpdateCache v flash

/-- The loop of `next_child` over deleted entries, for some turns: whether there is an entry. -/
def skipDeleted : Nat → Dir → Option (Bool × Dir)
  | 0, _ => none
  | turns + 1, d =>
    if d.byte 0 = 0xe5 then
      let d := d.moveToNextDirEntry v flash
      if d.last_error ≠ .ok then some (false, d)
      else if d.byte 0 = 0 then some (false, { d with last_error := .eof })
      else skipDeleted turns d
    else some (true, d)

end Dir

/-- The memory of a pool: the blocks that are in use, and which requests will be granted. -/
structure Pool where
  live : List Nat
  next : Nat
  grants : List Bool
  /-- The block of the cache of the directory. -/
  cache_data : Option Nat

/-- `mem_alloc` -/
def Pool.alloc (p : Pool) : Option Nat × Pool :=
  if p.grants.headD false then
    (some p.next, { p with
      live := p.next :: p.live, next := p.next + 1, grants := p.grants.tail })
  else (none, { p with grants := p.grants.tail })

/-- `mem_free` -/
def Pool.free (p : Pool) (block : Nat) : Pool :=
  { p with live := p.live.erase block }

/-- A new `fat_fs_entry_t`, with its block and the block of its name. -/
structure Child where
  block : Nat
  name_block : Nat
  name_size : Nat
  name : Nat → UChar
  attr : UChar := 0
  size : ULong := 0
  day : Nat := 0
  month : Nat := 0
  year : Nat := 0
  second : Nat := 0
  minute : Nat := 0
  hour : Nat := 0
  first_clus : ULong := 0
  parent_clus : ULong := 0
  parent_pos : ULong := 0

/-- `alloc_fs_entry`; `dirt` is what the block of the name holds. -/
def allocFsEntry (p : Pool) (dirt : Nat → UChar) (name_size : Nat) : Option Child × Pool :=
  match p.alloc with
  | (none, p) => (none, p)
  | (some e, p) =>
    match p.alloc with
    | (none, p) => (none, p.free e)
    | (some name, p) =>
      (some { block := e, name_block := name, name_size := name_size, name := dirt }, p)

def Child.store (child : Child) (i : ULong) (c : UChar) : Option Child :=
  if i.toNat < child.name_size then
    some { child with name := Function.update child.name i.toNat c }
  else none

def Child.storeAll (child : Child) (i : ULong) : List UChar → Option Child
  | [] => some child
  | c :: chars => do
    let child ← child.store i c
    child.storeAll (i + 1) chars

def Dir.longChars (d : Dir) : List UChar :=
  [1, 3, 5, 7, 9, 14, 16, 18, 20, 22, 24, 28, 30].map d.byte

/-- The loop of `next_child` over the parts of a long name: the new entry if all parts are there. -/
def longParts (v : Volume) (flash : Flash) : Nat → Child → Dir → Option (Option Child × Dir)
  | nb_ent, child, d => do
    let child ← child.storeAll (.ofNat 32 (nb_ent * 13)) d.longChars
    let d := d.moveToNextDirEntry v flash
    if d.last_error ≠ .ok then some (none, d)
    else
      match nb_ent with
      | 0 => some (some child, d)
      | n + 1 =>
        if (d.byte 0).toNat ≠ n + 1 then some (none, { d with last_error := .badFormat })
        else longParts v flash n child d

def Dir.dirChars (d : Dir) : List UChar :=
  ((List.range 11).map d.byte).takeWhile (· ≠ 0x20) ++ [0]

def Dir.fileChars (d : Dir) : List UChar :=
  ((List.range 8).map d.byte).takeWhile (· ≠ 0x20) ++
    if d.byte 8 ≠ 0x20 then [0x2e, d.byte 8, d.byte 9, d.byte 10, 0] else [0]

def Child.describe (child : Child) (v : Volume) (d : Dir) : Child :=
  let wrt_date := (shortAt d.byte 24).toNat
  let wrt_time := (shortAt d.byte 22).toNat
  let first_clus : ULong := shortAt d.byte 20 ++ shortAt d.byte 26
  { child with
    attr := d.byte 11
    size := wordAt d.byte 28
    day := wrt_date &&& 0x1f
    month := wrt_date >>> 5 &&& 0x0f
    year := 1980 + (wrt_date >>> 9 &&& 0x7f)
    second := (wrt_time &&& 0x1f) <<< 1 + (d.byte 13).toNat / 100
    minute := wrt_time >>> 5 &&& 0x3f
    hour := wrt_time >>> 11 &&& 0x1f
    first_clus := if first_clus = 0 then v.root_clus else first_clus
    parent_clus := d.first_clus
    parent_pos := d.cur_pos }

/-- How a call ends. -/
inductive Result
  /-- A store outside of a block. -/
  | outside
  /-- The call returns 0. -/
  | null (d : Dir) (p : Pool)
  | child (child : Child) (d : Dir) (p : Pool)

/-- The end of `next_child`, with the new entry. -/
def finishChild (v : Volume) (flash : Flash) (child : Child) (d : Dir) (p : Pool) : Result :=
  .child (child.describe v d) (d.doFatAdvance v flash) p

/-- `next_child` behind the loop over deleted entries. -/
def readChild (v : Volume) (flash : Flash) (dirt : Nat → UChar) (d : Dir) (p : Pool) : Result :=
  if d.byte 11 &&& 0x3f = 0x0f then
    if d.byte 0 &&& 0x40 = 0 then .null { d with last_error := .badFormat } p
    else
      let nb_ent : ULong := (d.byte 0 &&& 0x3f).setWidth 32
      match allocFsEntry p dirt (nb_ent * 13 + 1).toNat with
      | (none, p) => .null { d with last_error := .noMem } p
      | (some child, p) =>
        match child.store (nb_ent * 13) 0 with
        | none => .outside
        | some child =>
          match longParts v flash (nb_ent - 1).toNat child d with
          | none => .outside
          | some (none, d) => .null d p
          | some (some child, d) => finishChild v flash child d p
  else
    let (size, chars) := if d.byte 11 &&& 0x10 ≠ 0 then (12, d.dirChars) else (13, d.fileChars)
    match allocFsEntry p dirt size with
    | (none, p) => .null { d with last_error := .noMem } p
    | (some child, p) =>
      match child.storeAll 0 chars with
      | none => .outside
      | some child => finishChild v flash child d p

/-- `next_child`, with some turns for the loop over deleted entries. -/
def nextChild (v : Volume) (flash : Flash) (dirt : Nat → UChar) (turns : Nat) (d : Dir) (p : Pool) :
    Option Result :=
  let d := d.doFatUpdateCache v flash
  if d.last_error ≠ .ok then some (.null d p)
  else if d.byte 0 = 0 then some (.null { d with last_error := .eof } p)
  else
    match d.skipDeleted v flash turns with
    | none => none
    | some (false, d) => some (.null d p)
    | some (true, d) => some (readChild v flash dirt d p)

/-- `do_fat_open` -/
def doFatOpen (d : Dir) (p : Pool) : Dir × Pool :=
  match p.alloc with
  | (none, p) => ({ d with last_error := .noMem }, p)
  | (some block, p) =>
    ({ d.doFatSeekStart with last_error := .ok }, { p with cache_data := some block })

/-- `do_fat_first_child` -/
def doFatFirstChild (v : Volume) (flash : Flash) (dirt : Nat → UChar) (turns : Nat) (d : Dir)
    (p : Pool) : Option Result :=
  let d := { d with last_error := .ok }
  if d.attr &&& 0x10 = 0 then some (.null { d with last_error := .badArg } p)
  else
    let (d, p) := if p.cache_data = none then doFatOpen d p else (d, p)
    if d.last_error ≠ .ok then some (.null d p)
    else nextChild v flash dirt turns d.doFatSeekStart p

/-- `do_fat_next_child` -/
def doFatNextChild (v : Volume) (flash : Flash) (dirt : Nat → UChar) (turns : Nat) (d : Dir)
    (p : Pool) : Option Result :=
  let d := { d with last_error := .ok }
  if d.attr &&& 0x10 = 0 then some (.null { d with last_error := .badArg } p)
  else if p.cache_data = none then some (.null { d with last_error := .badState } p)
  else nextChild v flash dirt turns d p

end Uos.Fat
