import Mathlib.Algebra.Ring.Nat

/-!
# Machine integers and addresses

The integer types of the protocol headers.  An `unsigned long` has 32 bits on all machines of the
kernel.
-/

namespace Uos

/-- An `unsigned char`. -/
abbrev UChar := BitVec 8

/-- An `unsigned short`. -/
abbrev UShort := BitVec 16

/-- An `unsigned long`. -/
abbrev ULong := BitVec 32

/-- An IP address, an `unsigned char [4]`. -/
abbrev IpAddr := Vector UChar 4

def UShort.high (value : UShort) : UChar :=
  value.extractLsb' 8 8

def UShort.low (value : UShort) : UChar :=
  value.setWidth 8

/-- The number that two bytes are read as: `high << 8 | low`. -/
def UShort.ofBytes (high low : UChar) : UShort :=
  high ++ low

def UShort.swap (value : UShort) : UShort :=
  UShort.ofBytes (UShort.low value) (UShort.high value)

variable (value : UShort) (high low : UChar)

theorem UShort.high_toNat : value.high.toNat = value.toNat / 256 := by
  have bound := value.isLt
  simp [UShort.high, BitVec.extractLsb'_toNat, Nat.shiftRight_eq_div_pow]
  omega

theorem UShort.low_toNat : value.low.toNat = value.toNat % 256 := by
  simp [UShort.low]

theorem UShort.ofBytes_toNat :
    (UShort.ofBytes high low).toNat = high.toNat * 256 + low.toNat := by
  have bound := low.isLt
  rw [UShort.ofBytes, BitVec.toNat_append, ← Nat.shiftLeft_add_eq_or_of_lt bound,
    Nat.shiftLeft_eq]

theorem UShort.high_ofBytes : (UShort.ofBytes high low).high = high := by
  apply BitVec.eq_of_toNat_eq
  have bound := low.isLt
  rw [UShort.high_toNat, UShort.ofBytes_toNat]
  omega

theorem UShort.low_ofBytes : (UShort.ofBytes high low).low = low := by
  apply BitVec.eq_of_toNat_eq
  have bound := low.isLt
  rw [UShort.low_toNat, UShort.ofBytes_toNat]
  omega

theorem UShort.ofBytes_high_low : UShort.ofBytes value.high value.low = value := by
  apply BitVec.eq_of_toNat_eq
  have bound := value.isLt
  rw [UShort.ofBytes_toNat, UShort.high_toNat, UShort.low_toNat]
  omega

theorem UShort.swap_toNat :
    (UShort.swap value).toNat = value.toNat % 256 * 256 + value.toNat / 256 := by
  rw [UShort.swap, UShort.ofBytes_toNat, UShort.low_toNat, UShort.high_toNat]

namespace IpAddr

/-- `IP_ADDR (0)`. -/
def any : IpAddr := #v[0, 0, 0, 0]

/-- `IS_BROADCAST`. -/
def isBroadcast (ipaddr : IpAddr) : Bool :=
  ipaddr = #v[255, 255, 255, 255] || ipaddr = any

theorem lt₀ : 0 < 4 := by decide

theorem lt₁ : 1 < 4 := by decide

theorem lt₂ : 2 < 4 := by decide

theorem lt₃ : 3 < 4 := by decide

variable (ipaddr : IpAddr)

abbrev b₀ : UChar := getElem ipaddr 0 lt₀

abbrev b₁ : UChar := getElem ipaddr 1 lt₁

abbrev b₂ : UChar := getElem ipaddr 2 lt₂

abbrev b₃ : UChar := getElem ipaddr 3 lt₃

/-- `IS_MULTICAST`. -/
def isMulticast (ipaddr : IpAddr) : Bool :=
  ipaddr.b₀ &&& 0xf0 = 0xe0

theorem toList_eq (a : IpAddr) : a.toList = [a.b₀, a.b₁, a.b₂, a.b₃] := by
  obtain ⟨⟨bytes⟩, size⟩ := a
  match bytes, size with
  | [_, _, _, _], _ => rfl

end IpAddr
end Uos
