import Uos.Snmp.Asn

/-!
# What a tree stands for

The values of ASN.1 trees, without addresses and without what lies behind the lengths.
-/

namespace Uos

/-- The value of an ASN.1 tree. -/
inductive AsnValue
  | null
  | exception (type : AsnException)
  | integer (val : ULong)
  | unsigned (type : AsnUnsigned) (val : ULong)
  | string (type : AsnText) (str : List UChar)
  | oid (id : List UShort)
  | seq (type : AsnConstructed) (arr : List AsnValue)

namespace Asn

mutual

def value : Asn → AsnValue
  | nil | null => .null
  | exception _ type => .exception type
  | integer _ val => .integer val
  | unsigned _ type val => .unsigned type val
  | string _ type len str => .string type (str.take len.toNat)
  | oid _ len id => .oid (id.take len.toNat)
  | seq _ type count arr => .seq type (values count.toNat arr)

def values : Nat → List Asn → List AsnValue
  | 0, _ | _, [] => []
  | n + 1, e :: arr => e.value :: values n arr

end

mutual

/-- A tree of the types that the module supports, whose lengths are those of its contents, and whose
object identifiers have a first byte. -/
def Regular : Asn → Prop
  | nil | null | exception _ _ | integer _ _ | unsigned _ _ _ => True
  | string _ _ len str => str.length = len.toNat
  | oid _ len id =>
    id.length = len.toNat ∧
      ∃ first second rest, id = first :: second :: rest ∧ second.toNat < 40 ∧
        first.toNat * 40 + second.toNat < 256
  | seq _ _ count arr => arr.length = count.toNat ∧ AllRegular arr

def AllRegular : List Asn → Prop
  | [] => True
  | e :: arr => e.Regular ∧ AllRegular arr

end

end Asn

namespace AsnValue

mutual

/-- Whether a value has no string of the type `ASN_OPAQUE`. -/
def Transparent : AsnValue → Prop
  | null | exception _ | integer _ | unsigned _ _ | oid _ => True
  | string type _ => type = .string
  | seq _ arr => AllTransparent arr

def AllTransparent : List AsnValue → Prop
  | [] => True
  | value :: arr => value.Transparent ∧ AllTransparent arr

end

mutual

/-- The value that is written for a value: every string has the type `ASN_STRING`. -/
def written : AsnValue → AsnValue
  | null => null
  | exception type => exception type
  | integer val => integer val
  | unsigned type val => unsigned type val
  | string _ str => string .string str
  | oid id => oid id
  | seq type arr => seq type (allWritten arr)

def allWritten : List AsnValue → List AsnValue
  | [] => []
  | value :: arr => value.written :: allWritten arr

end

mutual

/-- A value is written as it is exactly if it has no string of the type `ASN_OPAQUE`. -/
theorem written_eq_self : ∀ value : AsnValue, value.written = value ↔ value.Transparent
  | null | exception _ | integer _ | unsigned _ _ | oid _ => by simp [written, Transparent]
  | string type str => by simp [written, Transparent, eq_comm]
  | seq type arr => by simp [written, Transparent, allWritten_eq_self arr]

theorem allWritten_eq_self : ∀ arr : List AsnValue, allWritten arr = arr ↔ AllTransparent arr
  | [] => by simp [allWritten, AllTransparent]
  | value :: arr => by
    simp [allWritten, AllTransparent, written_eq_self value, allWritten_eq_self arr]

end

end AsnValue
end Uos
