import Uos.Library.BigEndian
import Uos.Snmp.Asn

/-!
# Parsing

`asn_parse` and the functions that it calls.  Their recursion goes along the bytes; its bound is
their number, which is enough.
-/

namespace Uos
namespace Asn

/-- `asn_get_length`: the length, and the bytes behind it. -/
def getLength : List UChar → Option (Nat × List UChar)
  | [] => none
  | n :: input =>
    if n = 0xff then none
    else if n &&& 0x80 = 0 then some (n.toNat, input)
    else
      let count := (n &&& 0x7f).toNat
      if 4 < count ∨ input.length < count then none
      else some ((foldBytes (0 : BitVec 32) (input.take count)).toNat, input.drop count)

/-- `asn_get_int` -/
def getInt (pool : MemPool) (input : List UChar) : Asn × MemPool :=
  if 4 < input.length then (nil, pool)
  else
    match pool.alloc with
    | (none, pool) => (nil, pool)
    | (some block, pool) =>
      match input with
      | [] => (integer block 0, pool)
      | first :: rest => (integer block (foldBytes (first.signExtend 32) rest), pool)

/-- `asn_get_uint` -/
def getUint (pool : MemPool) (type : AsnUnsigned) (input : List UChar) : Asn × MemPool :=
  if 4 < input.length then (nil, pool)
  else
    match pool.alloc with
    | (none, pool) => (nil, pool)
    | (some block, pool) => (unsigned block type (foldBytes 0 input), pool)

/-- `asn_get_string` -/
def getString (pool : MemPool) (type : AsnText) (input : List UChar) : Asn × MemPool :=
  match pool.alloc with
  | (none, pool) => (nil, pool)
  | (some block, pool) => (string block type (.ofNat 16 input.length) input, pool)

/-- The loop of `asn_get_oid`, which may stand inside of a component. -/
def getIds : Option UShort → List UChar → Option (List UShort)
  | none, [] => some []
  | some _, [] => none
  | id, byte :: input =>
    let id := id.getD 0
    if byte &&& 0x80 ≠ 0 then
      getIds (some ((id ||| (byte &&& 0x7f).setWidth 16) <<< 7)) input
    else (getIds none input).map ((id ||| byte.setWidth 16) :: ·)

/-- `asn_get_oid` -/
def getOid (pool : MemPool) (input : List UChar) : Asn × MemPool :=
  match pool.alloc with
  | (none, pool) => (nil, pool)
  | (some block, pool) =>
    match input with
    | [] => (oid block 0 [], pool)
    | first :: input =>
      match getIds none input with
      | none => (nil, pool.free block)
      | some ids =>
        (oid block (.ofNat 16 (ids.length + 2))
          (.ofNat 16 (first.toNat / 40) :: .ofNat 16 (first.toNat % 40) :: ids), pool)

/-- Put a node into an array at an index that was used before, or is the first unused one. -/
def putAt (arr : List Asn) (index : UShort) (e : Asn) : List Asn :=
  if index.toNat < arr.length then arr.set index.toNat e else arr ++ [e]

def enlarge (pool : MemPool) (block : Block) (count : UShort) (nelem : Nat) :
    Option (Block × Nat) × MemPool :=
  if nelem ≤ count.toNat then
    match pool.realloc block with
    | (none, pool) => (none, pool)
    | (some block, pool) => (some (block, nelem + 10), pool)
  else (some (block, nelem), pool)

/-- The type of a node. -/
inductive AsnKind
  | null
  | exception (type : AsnException)
  | integer
  | unsigned (type : AsnUnsigned)
  | string (type : AsnText)
  | oid
  | constructed (type : AsnConstructed)
  | unknown
  deriving DecidableEq

/-- The `switch` of `asn_parse`. -/
def kindOf (type : UChar) : AsnKind :=
  if type = asnNull then .null
  else if type = AsnException.noSuchObject.type then .exception .noSuchObject
  else if type = AsnException.noSuchInstance.type then .exception .noSuchInstance
  else if type = AsnException.endOfMibView.type then .exception .endOfMibView
  else if type = asnInteger then .integer
  else if type = AsnUnsigned.counter.type then .unsigned .counter
  else if type = AsnUnsigned.gauge.type then .unsigned .gauge
  else if type = AsnUnsigned.timeTicks.type then .unsigned .timeTicks
  else if type = AsnUnsigned.ipAddress.type then .unsigned .ipAddress
  else if type = AsnText.string.type then .string .string
  else if type = AsnText.opaqueString.type then .string .opaqueString
  else if type = asnOid then .oid
  else if constructed : type &&& 0x20 ≠ 0 then .constructed ⟨type, constructed⟩
  else .unknown

/-- The node of a type; the nodes in a constructed one are got in a given way. -/
def getNode (getSequence : MemPool → AsnConstructed → Block → List UChar → Asn × MemPool)
    (pool : MemPool) (inp : List UChar) : AsnKind → Asn × MemPool
  | .unknown => (nil, pool)
  | .null => (null, pool)
  | .exception type => makeException pool type
  | .integer => getInt pool inp
  | .unsigned type =>
    if type = .ipAddress ∧ inp.length ≠ 4 then (nil, pool) else getUint pool type inp
  | .string type => getString pool type inp
  | .oid => getOid pool inp
  | .constructed type =>
    match pool.alloc with
    | (none, pool) => (nil, pool)
    | (some block, pool) => getSequence pool type block inp

mutual

/-- `asn_parse`, with a bound on its recursion: the node, and the bytes behind it. -/
def parseWith : Nat → MemPool → List UChar → Option (Asn × List UChar) × MemPool
  | 0, pool, _ => (none, pool)
  | _ + 1, pool, [] => (none, pool)
  | turns + 1, pool, type :: input =>
    match getLength input with
    | none => (none, pool)
    | some (len, inp) =>
      if inp.length < len then (none, pool)
      else
        match getNode (fun pool type block inp => getSequence turns pool type block 0 5 [] inp)
          pool (inp.take len) (kindOf type) with
        | (nil, pool) => (none, pool)
        | (b, pool) => (some (b, inp.drop len), pool)

/-- The loop of `asn_get_sequence`: a node that cannot be enlarged is released, the nodes in it are
not. -/
def getSequence : Nat → MemPool → AsnConstructed → Block → UShort → Nat → List Asn → List UChar →
    Asn × MemPool
  | _, pool, type, block, count, _, arr, [] => (seq block type count arr, pool)
  | 0, pool, _, _, _, _, _, _ :: _ => (nil, pool)
  | turns + 1, pool, type, block, count, nelem, arr, byte :: input =>
    match enlarge pool block count nelem with
    | (none, pool) => (nil, pool)
    | (some (block, nelem), pool) =>
      match parseWith turns pool (byte :: input) with
      | (none, pool) => (nil, (freeArr count.toNat arr pool).free block)
      | (some (e, rest), pool) =>
        getSequence turns pool type block (count + 1) nelem (putAt arr count e) rest

end

/-- `asn_parse` -/
def parse (pool : MemPool) (input : List UChar) : Option (Asn × List UChar) × MemPool :=
  parseWith input.length pool input

end Asn
end Uos
