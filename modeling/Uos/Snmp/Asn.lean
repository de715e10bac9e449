import Mathlib.Data.List.Basic
import Uos.Net.Bytes

/-!
# ASN.1 trees

The data of `snmp/asn.h`, and the functions of `snmp/asn.c` that build, copy and release it, on a
machine with an `unsigned int` of 32 bits.  A tree carries the addresses of its blocks of memory, so
that it can be seen which of them are released.
-/

namespace Uos

abbrev Block := Nat

/-- What happens to a block of memory. -/
inductive MemEvent
  | alloc (block : Block)
  | free (block : Block)
  deriving DecidableEq

/-- A memory pool: the answers it gives, and what an observer remembers.  No address is used
again. -/
structure MemPool where
  /-- Whether the request with this number is granted. -/
  grants : Nat → Bool
  requests : Nat := 0
  log : List MemEvent := []

namespace MemPool

/-- `mem_alloc`, or a null pointer. -/
def alloc (pool : MemPool) : Option Block × MemPool :=
  if pool.grants pool.requests then
    (some pool.requests,
      { pool with
        requests := pool.requests + 1
        log := pool.log ++ [.alloc pool.requests] })
  else (none, { pool with requests := pool.requests + 1 })

/-- `mem_free` of a block. -/
def free (pool : MemPool) (block : Block) : MemPool :=
  { pool with log := pool.log ++ [.free block] }

/-- `mem_realloc` of a block that is too small: the old block is released even if there is no new
one. -/
def realloc (pool : MemPool) (block : Block) : Option Block × MemPool :=
  (pool.alloc.1, pool.alloc.2.free block)

end MemPool

/-- The exceptions of SNMPv2. -/
inductive AsnException
  | noSuchObject
  | noSuchInstance
  | endOfMibView
  deriving DecidableEq

/-- The types with an unsigned number. -/
inductive AsnUnsigned
  | counter
  | gauge
  | timeTicks
  | ipAddress
  deriving DecidableEq

/-- The types with a string of bytes. -/
inductive AsnText
  | string
  | opaqueString
  deriving DecidableEq

/-- `ASN_EXCEPTION` types: their identifiers. -/
def AsnException.type : AsnException → UChar
  | noSuchObject => 0x80
  | noSuchInstance => 0x81
  | endOfMibView => 0x82

def AsnUnsigned.type : AsnUnsigned → UChar
  | ipAddress => 0x40
  | counter => 0x41
  | gauge => 0x42
  | timeTicks => 0x43

def AsnText.type : AsnText → UChar
  | string => 0x04
  | opaqueString => 0x44

/-- `ASN_INTEGER` -/
def asnInteger : UChar := 0x02

/-- `ASN_NULL` -/
def asnNull : UChar := 0x05

/-- `ASN_OID` -/
def asnOid : UChar := 0x06

/-- A type with the bit `ASN_CONSTRUCTED`. -/
abbrev AsnConstructed := { type : UChar // type &&& 0x20 ≠ 0 }

/-- An `asn_t *`, with the memory that it leads to. -/
inductive Asn
  /-- The null pointer. -/
  | nil
  /-- `&asn_null` -/
  | null
  | exception (block : Block) (type : AsnException)
  | integer (block : Block) (val : ULong)
  | unsigned (block : Block) (type : AsnUnsigned) (val : ULong)
  /-- A string; a length that does not fit into the field `len` is cut off there. -/
  | string (block : Block) (type : AsnText) (len : UShort) (str : List UChar)
  | oid (block : Block) (len : UShort) (id : List UShort)
  | seq (block : Block) (type : AsnConstructed) (count : UShort) (arr : List Asn)

namespace Asn

/-- The field `type`, which a null pointer has not. -/
def type? : Asn → Option UChar
  | nil => none
  | null => some asnNull
  | exception _ type => some type.type
  | integer _ _ => some asnInteger
  | unsigned _ type _ => some type.type
  | string _ type _ _ => some type.type
  | oid _ _ _ => some asnOid
  | seq _ type _ _ => some type.1

mutual

/-- `asn_free` -/
def free : Asn → MemPool → MemPool
  | nil, pool | null, pool => pool
  | exception block _, pool | integer block _, pool | unsigned block _ _, pool
  | string block _ _ _, pool | oid block _ _, pool => pool.free block
  | seq block _ count arr, pool => (freeArr count.toNat arr pool).free block

/-- `asn_free` of the first nodes of an array. -/
def freeArr : Nat → List Asn → MemPool → MemPool
  | 0, _, pool | _, [], pool => pool
  | n + 1, e :: arr, pool => freeArr n arr (e.free pool)

end

/-- `asn_make_int` for an exception. -/
def makeException (pool : MemPool) (type : AsnException) : Asn × MemPool :=
  match pool.alloc with
  | (none, pool) => (nil, pool)
  | (some block, pool) => (exception block type, pool)

/-- `ASN_SEQUENCE` -/
def sequence : AsnConstructed := ⟨0x30, by decide⟩

def freeBack (arr : List Asn) (pool : MemPool) : MemPool :=
  arr.foldr free pool

mutual

/-- `asn_copy`; a copy of a sequence with a null pointer fails. -/
def copy : Asn → MemPool → Asn × MemPool
  | nil, pool => (nil, pool)
  | null, pool => (null, pool)
  | exception _ type, pool =>
    match pool.alloc with
    | (none, pool) => (nil, pool)
    | (some block, pool) => (exception block type, pool)
  | integer _ val, pool =>
    match pool.alloc with
    | (none, pool) => (nil, pool)
    | (some block, pool) => (integer block val, pool)
  | unsigned _ type val, pool =>
    match pool.alloc with
    | (none, pool) => (nil, pool)
    | (some block, pool) => (unsigned block type val, pool)
  | string _ type len str, pool =>
    match pool.alloc with
    | (none, pool) => (nil, pool)
    | (some block, pool) => (string block type len (str.take len.toNat), pool)
  | oid _ len id, pool =>
    match pool.alloc with
    | (none, pool) => (nil, pool)
    | (some block, pool) => (oid block len (id.take len.toNat), pool)
  | seq _ type count arr, pool =>
    match pool.alloc with
    | (none, pool) => (nil, pool)
    | (some block, pool) =>
      match copyArr count.toNat arr [] pool with
      | (none, pool) => (nil, pool.free block)
      | (some arr, pool) => (seq block type count arr, pool)

/-- Copy the first nodes of an array behind those copied before, or release all of these. -/
def copyArr : Nat → List Asn → List Asn → MemPool → Option (List Asn) × MemPool
  | 0, _, copied, pool | _, [], copied, pool => (some copied, pool)
  | n + 1, e :: arr, copied, pool =>
    match e.copy pool with
    | (nil, pool) => (none, freeBack copied pool)
    | (e, pool) => copyArr n arr (copied ++ [e]) pool

end

end Asn
end Uos
