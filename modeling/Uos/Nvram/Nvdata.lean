import Mathlib.Data.Int.Notation
import Mathlib.Logic.Function.Basic
import Uos.Net.Bytes

/-!
# Data in non-volatile memory

The record that `nvdata.c` keeps in a region of the non-volatile memory: a header of 10 bytes (the
offset of a second copy, the signature, the length, a checksum) and the data.  The task that works
on the record owns its lock.  A failed assertion is not modelled: the code behind it runs.
-/

namespace Uos

/-- `crc32_vak_byte`. -/
def crc32VakByte (sum : ULong) (byte : UChar) : ULong :=
  let sum := sum + byte.setWidth 32
  sum - sum.rotateLeft 13

namespace Nvram

/-- The results of the functions that begin and finalize a transaction, `NVDATA_OK` and so on. -/
inductive Reason
  | ok
  | empty
  | dead
  | different
  | invalid
  | eof
  deriving DecidableEq

/-- What a build of the module fixes. -/
structure Config where
  /-- `NVDATA_WRITE_TAINT` -/
  writeTaint : Bool
  /-- `NVDATA_READ_TAINT` -/
  readTaint : Bool
  /-- `nvdata_is_compatible`, which a program may replace. -/
  isCompatible : Nat → Nat → Bool

/-- `nvdata_is_compatible` of `nvdata-opt.c`. -/
def nvdataIsCompatible (nvram soft : Nat) : Bool :=
  nvram ^^^ soft ≤ 0x0f

/-- `NVDATA_HEADER_SIZE` -/
def headerSize : Nat := 10

/-- `nvdata_t`, and the memory itself.  The region ends at or below `NVDATA_BAD_ADDRESS`, so no sum
of an address in it with a 16-bit number that wraps is an address in it. -/
structure Nvdata where
  /-- The contents of the memory. -/
  byte : Nat → UChar
  /-- The bytes written so far with their addresses, oldest first. -/
  writes : List (Nat × UChar)
  crc : ULong
  /-- The field `__addr`; none stands for `NVDATA_BAD_ADDRESS`. -/
  addr : Option Nat
  begin : Nat
  limit : Nat
  /-- The field `end`. -/
  endAddr : Nat
  sign : Nat

namespace Nvdata

/-- `nvdata_init`, in front of a memory with these contents. -/
def nvdataInit (byte : Nat → UChar) (regionBegin regionEnd : Nat) : Nvdata where
  byte := byte
  writes := []
  crc := 0
  addr := none
  begin := regionBegin
  limit := regionEnd
  endAddr := regionBegin
  sign := 0

/-- `__nvdata_is_valid_addr` -/
def isValidAddr (v : Nvdata) (addr : Nat) : Bool :=
  v.begin ≤ addr && v.limit > addr

def seek (v : Nvdata) (addr : Nat) : Nvdata :=
  { v with addr := some addr }

def leave (v : Nvdata) : Nvdata :=
  { v with addr := none }

/-- `nvdata_write_byte` -/
def writeByte (v : Nvdata) (c : UChar) : Nvdata :=
  match v.addr with
  | none => v
  | some addr =>
    if v.isValidAddr addr then
      { v with
        byte := Function.update v.byte addr c
        writes := v.writes ++ [(addr, c)]
        crc := crc32VakByte v.crc c
        addr := some (addr + 1) }
    else v

/-- `nvdata_read_byte` -/
def readByte (v : Nvdata) : UChar × Nvdata :=
  match v.addr with
  | none => (0xff, v)
  | some addr =>
    if v.isValidAddr addr then
      (v.byte addr,
        { v with
          crc := crc32VakByte v.crc (v.byte addr)
          addr := some (addr + 1) })
    else (0xff, v)

/-- `nvdata_write_word` -/
def writeWord (v : Nvdata) (val : UShort) : Nvdata :=
  (v.writeByte (UShort.low val)).writeByte (UShort.high val)

/-- `nvdata_read_word` -/
def readWord (v : Nvdata) : Nat × Nvdata :=
  let (low, v) := v.readByte
  let (high, v) := v.readByte
  (low.toNat + high.toNat <<< 8, v)

/-- `nvdata_write_dword` -/
def writeDword (v : Nvdata) (val : ULong) : Nvdata :=
  (v.writeWord (val.setWidth 16)).writeWord ((val >>> 16).setWidth 16)

/-- `nvdata_read_dword` -/
def readDword (v : Nvdata) : Nat × Nvdata :=
  let (low, v) := v.readWord
  let (high, v) := v.readWord
  (low + high <<< 16, v)

/-- `nvdata_write_bool` -/
def writeBool (v : Nvdata) (b : Bool) : Nvdata :=
  v.writeByte (if b then 0xa5 else 0x5a)

/-- `nvdata_read_bool` -/
def readBool (v : Nvdata) : Bool × Nvdata :=
  let (c, v) := v.readByte
  (c = 0xa5, v)

/-- `nvdata_write_mem` -/
def writeMem (v : Nvdata) : List UChar → Nvdata
  | [] => v
  | c :: buf => (v.writeByte c).writeMem buf

/-- `nvdata_read_mem` -/
def readMem (v : Nvdata) : Nat → List UChar × Nvdata
  | 0 => ([], v)
  | len + 1 =>
    let (c, v) := v.readByte
    let (buf, v) := v.readMem len
    (c :: buf, v)

/-- `nvdata_write_str`: the pointer stays at the zero that ends the string. -/
def writeStr (v : Nvdata) (str : List UChar) : Nat → Nvdata
  | 0 => v
  | maxlen + 1 =>
    let c := str.headD 0
    (v.writeByte c).writeStr (if c ≠ 0 then str.tail else str) maxlen

/-- Whether `nvdata_read_str` takes a byte for a damaged one. -/
def isDamaged (c : UChar) : Bool :=
  c ≠ 0 && c.toInt < 0x20

/-- `nvdata_read_str` -/
def readStr (v : Nvdata) : Nat → List UChar × Nvdata
  | 0 => ([], v)
  | maxlen + 1 =>
    let (c, v) := v.readByte
    let (c, v) := if isDamaged c then (0, { v with crc := v.crc ^^^ 0xdead }) else (c, v)
    let (str, v) := v.readStr maxlen
    (c :: str, v)

def crcStart : ULong := 0x517cc1b7

def skipHeader (v : Nvdata) : Nvdata :=
  { v with addr := some (v.begin + headerSize), crc := crcStart }

def writeSign (v : Nvdata) (val : Nat) : Nvdata :=
  (v.seek (v.begin + 2)).writeWord (.ofNat 16 val)

def addSign (v : Nvdata) : Nvdata :=
  { v with crc := crc32VakByte (crc32VakByte v.crc (.ofNat 8 v.sign)) (.ofNat 8 (v.sign >>> 8)) }

/-- `nvdata_begin_read` -/
def beginRead (config : Config) (v : Nvdata) (sign : Nat) : Reason × Nvdata :=
  let v := { v with endAddr := v.begin, sign := 0, addr := some v.begin }
  let (offset, v) := v.readWord
  if offset ≠ 0 then (.different, v.leave)
  else
    let (nvdataSign, v) := v.readWord
    if nvdataSign = 0 ∨ nvdataSign = 0xffff then (.empty, v.leave)
    else
      let nvdataSign := nvdataSign ^^^ 0xdead
      if nvdataSign = 0 then (.dead, v.leave)
      else if ¬config.isCompatible nvdataSign sign then (.different, v.leave)
      else
        let (len, v) := v.readWord
        if ¬v.isValidAddr (len + v.begin) ∨ len + v.begin < v.begin + headerSize then
          (.invalid, v.leave)
        else
          let v := { v with sign := nvdataSign }
          let v := if config.readTaint then v.writeSign 0xdead else v
          (.ok, v.skipHeader)

/-- `nvdata_finalize_read` -/
def finalizeRead (config : Config) (v : Nvdata) : Reason × Nvdata :=
  match v.addr with
  | none => (.invalid, v)
  | some addr =>
    let v := { v with endAddr := v.begin }
    if addr ≥ v.limit then (.eof, v.leave)
    else
      let len := addr - v.begin
      let (nvdataLen, v) := (v.addSign.seek (v.begin + 4)).readWord
      if nvdataLen ≠ len then (.invalid, v.leave)
      else
        let crc := v.crc
        let (nvdataCrc, v) := v.readDword
        if nvdataCrc ≠ crc.toNat then (.invalid, v.leave)
        else
          let v := if config.readTaint then v.writeSign (v.sign ^^^ 0xdead) else v
          (.ok, { v with endAddr := v.begin + len }.leave)

/-- `nvdata_begin_write` -/
def beginWrite (config : Config) (v : Nvdata) : Nvdata :=
  let v := ({ v with endAddr := v.begin }.seek v.begin).writeWord 0
  let v := if config.writeTaint then v.writeWord 0xdead else v
  v.skipHeader

/-- `nvdata_finalize_write` -/
def finalizeWrite (v : Nvdata) (sign : Nat) : Reason × Nvdata :=
  match v.addr with
  | none => (.invalid, v)
  | some addr =>
    let v := { v with endAddr := v.begin }
    if addr ≥ v.limit then (.eof, v.leave)
    else
      let v := { v with sign := sign }.addSign
      let len := addr - v.begin
      let v := (v.seek (v.begin + 4)).writeWord (.ofNat 16 len)
      let v := v.writeDword v.crc
      let v := v.writeSign (v.sign ^^^ 0xdead)
      (.ok, { v with endAddr := v.begin + len }.leave)

/-- `while (v->__addr < target) nvdata_read_byte (v)`, up to a number of turns. -/
def readTo (target : Nat) : Nat → Nvdata → Option Nvdata
  | 0, v => if v.addr.any (· < target) then none else some v
  | turns + 1, v => if v.addr.any (· < target) then readTo target turns v.readByte.2 else some v

/-- `nvdata_begin_update`.  A turn of the loop that does not advance is repeated for ever. -/
def beginUpdate (config : Config) (v : Nvdata) (addr : Nat) : Option (Reason × Nvdata) :=
  if v.addr ≠ none ∨ v.endAddr = v.begin then some (.invalid, v)
  else if ¬(headerSize ≤ addr ∧ addr ≤ v.endAddr - v.begin) then some (.eof, v)
  else
    let v := if config.writeTaint then v.writeSign 0xdead else v
    let target := addr + v.begin
    (readTo target target v.skipHeader).map fun v => (.ok, v)

/-- `nvdata_finalize_update` -/
def finalizeUpdate (config : Config) (v : Nvdata) : Option (Reason × Nvdata) :=
  match v.addr with
  | none => some (.invalid, v)
  | some addr =>
    if v.endAddr = v.begin then some (.invalid, v)
    else if addr < v.begin + headerSize ∨ addr > v.endAddr then some (.eof, v.leave)
    else
      (readTo v.endAddr v.endAddr v).map fun v =>
        let v := (v.addSign.seek (v.begin + 4)).readWord.2
        let v := v.writeDword v.crc
        let v := if config.writeTaint then v.writeSign (v.sign ^^^ 0xdead) else v
        (.ok, v.leave)

end Nvdata

/-- A typed write. -/
inductive Item
  | byte (c : UChar)
  | bool (b : Bool)
  | word (val : UShort)
  | dword (val : ULong)
  | mem (buf : List UChar)
  | str (str : List UChar) (maxlen : Nat)

/-- A typed read. -/
inductive Field
  | byte
  | bool
  | word
  | dword
  | mem (len : Nat)
  | str (maxlen : Nat)

/-- What a typed read returns. -/
inductive Value
  | byte (c : UChar)
  | bool (b : Bool)
  | word (val : Nat)
  | dword (val : Nat)
  | buf (bytes : List UChar)
  deriving DecidableEq

namespace Nvdata

def write (v : Nvdata) : Item → Nvdata
  | .byte c => v.writeByte c
  | .bool b => v.writeBool b
  | .word val => v.writeWord val
  | .dword val => v.writeDword val
  | .mem buf => v.writeMem buf
  | .str str maxlen => v.writeStr str maxlen

def read (v : Nvdata) : Field → Value × Nvdata
  | .byte => (.byte v.readByte.1, v.readByte.2)
  | .bool => (.bool v.readBool.1, v.readBool.2)
  | .word => (.word v.readWord.1, v.readWord.2)
  | .dword => (.dword v.readDword.1, v.readDword.2)
  | .mem len => (.buf (v.readMem len).1, (v.readMem len).2)
  | .str maxlen => (.buf (v.readStr maxlen).1, (v.readStr maxlen).2)

def writeAll (v : Nvdata) (items : List Item) : Nvdata :=
  items.foldl write v

def readAll (v : Nvdata) : List Field → List Value × Nvdata
  | [] => ([], v)
  | field :: fields =>
    let (value, v) := v.read field
    let (values, v) := v.readAll fields
    (value :: values, v)

def writeTransaction (config : Config) (v : Nvdata) (items : List Item) (sign : Nat) :
    Reason × Nvdata :=
  ((v.beginWrite config).writeAll items).finalizeWrite sign

/-- A whole update transaction; one that cannot begin writes nothing. -/
def updateTransaction (config : Config) (v : Nvdata) (addr : Nat) (items : List Item) :
    Option (Reason × Nvdata) := do
  let (reason, v) ← v.beginUpdate config addr
  if reason = .ok then (v.writeAll items).finalizeUpdate config else some (reason, v)

/-- A whole read transaction, with the values if it succeeds. -/
def readTransaction (config : Config) (v : Nvdata) (sign : Nat) (fields : List Field) :
    Option (List Value) :=
  let (reason, v) := v.beginRead config sign
  if reason = .ok then
    let (values, v) := v.readAll fields
    if (v.finalizeRead config).1 = .ok then some values else none
  else none

end Nvdata
end Nvram
end Uos
