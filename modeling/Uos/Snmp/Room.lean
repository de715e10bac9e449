import Uos.Library.Traced
import Uos.Snmp.Echo

/-!
# The room of the encoder

`asn_encode` and the functions that it calls, with their pointers into the buffer, the number of
bytes that are left, and what they store, also where they fail in the end.
-/

namespace Uos

open List BitVec

namespace Asn

/-- A function that stores bytes, each at an address, and returns no result if it returns a null
pointer. -/
abbrev Put := Traced (Int × UChar)

section Put

/-- `*--p = byte` -/
def store (p : Int) (byte : UChar) : Put Int := do
  Traced.emit (p - 1, byte)
  return p - 1

/-- `*--p = byte` for several bytes. -/
def stores (p : Int) : List UChar → Put Int
  | [] => pure p
  | byte :: bytes => do
    let p ← store p byte
    stores p bytes

/-- `if (sz < n) return 0` -/
def room (sz n : BitVec 32) : Put Unit :=
  .ofOption (if sz < n then none else some ())

def placed (p : Int) : List UChar → List (Int × UChar)
  | [] => []
  | byte :: bytes => (p, byte) :: placed (p + 1) bytes

/-- `memcpy` -/
def copyTo (p : Int) (bytes : List UChar) : Put Unit where
  events := placed p bytes
  result := some ()

/-- The number of bytes that are left behind those between two pointers. -/
def left (sz : BitVec 32) (op p : Int) : BitVec 32 :=
  sz - .ofInt 32 (op - p)

end Put

def byteOf (val : ULong) (shift : Nat) : UChar :=
  (val >>> shift).setWidth 8

/-- `asn_put_int` -/
def asnPutInt (val : ULong) (p : Int) (sz : BitVec 32) : Put Int :=
  if val.toInt < 0x80 ∧ -0x80 ≤ val.toInt then do
    room sz 3
    stores p [byteOf val 0, 1, asnInteger]
  else if val.toInt < 0x8000 ∧ -0x8000 ≤ val.toInt then do
    room sz 4
    stores p [byteOf val 0, byteOf val 8, 2, asnInteger]
  else if val.toInt < 0x800000 ∧ -0x800000 ≤ val.toInt then do
    room sz 5
    stores p [byteOf val 0, byteOf val 8, byteOf val 16, 3, asnInteger]
  else do
    room sz 6
    stores p [byteOf val 0, byteOf val 8, byteOf val 16, byteOf val 24, 4, asnInteger]

/-- `asn_put_uint` -/
def asnPutUint (val : ULong) (p : Int) (sz : BitVec 32) (type : AsnUnsigned) : Put Int :=
  if type = .ipAddress ∨ 0x7FFFFF < val.toNat then do
    room sz 6
    stores p [byteOf val 0, byteOf val 8, byteOf val 16, byteOf val 24, 4, type.type]
  else if val.toNat ≤ 0x7F then do
    room sz 3
    stores p [byteOf val 0, 1, type.type]
  else if val.toNat ≤ 0x7FFF then do
    room sz 4
    stores p [byteOf val 0, byteOf val 8, 2, type.type]
  else do
    room sz 5
    stores p [byteOf val 0, byteOf val 8, byteOf val 16, 3, type.type]

/-- `asn_put_length` -/
def asnPutLength (val : ULong) (p : Int) (sz : BitVec 32) : Put Int :=
  if val.toNat < 0x80 then do
    room sz 1
    stores p [byteOf val 0]
  else if val.toNat < 0x100 then do
    room sz 2
    stores p [byteOf val 0, 0x81]
  else if val.toNat < 0x10000 then do
    room sz 3
    stores p [byteOf val 0, byteOf val 8, 0x82]
  else if val.toNat < 0x1000000 then do
    room sz 4
    stores p [byteOf val 0, byteOf val 8, byteOf val 16, 0x83]
  else do
    room sz 5
    stores p [byteOf val 0, byteOf val 8, byteOf val 16, byteOf val 24, 0x84]

/-- The end of `asn_put_string`, `asn_put_oid` and `asn_put_sequence`. -/
def asnPutHeader (type : UChar) (len : BitVec 32) (op : Int) (sz : BitVec 32) : Put Int := do
  let p ← asnPutLength len op sz
  room (left sz op p) 1
  store p type

/-- `asn_put_string` -/
def asnPutString (len : UShort) (str : List UChar) (p : Int) (sz : BitVec 32) : Put Int := do
  room sz (len.setWidth 32)
  copyTo (p - len.toNat) (str.take len.toNat)
  asnPutHeader AsnText.string.type (len.setWidth 32) (p - len.toNat) (sz - len.setWidth 32)

/-- The loop of `asn_put_id1`. -/
def asnPutGroups (val : Nat) (p : Int) (sz : BitVec 32) : Put Int :=
  if 0x80 ≤ val then do
    room sz 1
    let p ← store p (0x80 ||| .ofNat 8 (val >>> 7 &&& 0x7f))
    asnPutGroups (val >>> 7) p (sz - 1)
  else pure p
termination_by val
decreasing_by
  rw [Nat.shiftRight_eq_div_pow]
  omega

/-- `asn_put_id1` -/
def asnPutId1 (val : UShort) (p : Int) (sz : BitVec 32) : Put Int := do
  room sz 1
  let p ← store p (.ofNat 8 (val.toNat &&& 0x7f))
  asnPutGroups val.toNat p (sz - 1)

/-- The loop of `asn_put_oid` from the component with this index down to the third one. -/
def asnPutIds (id : List UShort) : Nat → Int → BitVec 32 → Put (Int × BitVec 32)
  | 0, p, sz | 1, p, sz => pure (p, sz)
  | i + 2, op, sz => do
    let val ← Traced.ofOption id[i + 2]?
    let p ← asnPutId1 val op sz
    asnPutIds id (i + 1) p (left sz op p)

/-- `asn_put_oid` -/
def asnPutOid (len : UShort) (id : List UShort) (bp : Int) (sz : BitVec 32) : Put Int := do
  let (p, sz) ← asnPutIds id (len.setWidth 32 - 1 : BitVec 32).toNat bp sz
  room sz 1
  let first ← Traced.ofOption id[0]?
  let second ← Traced.ofOption id[1]?
  let p ← store p (.ofNat 8 (first.toNat * 40 + second.toNat))
  asnPutHeader asnOid (.ofInt 32 (bp - p)) p (sz - 1)

mutual

/-- `asn_encode` -/
def asnEncode : Asn → Int → BitVec 32 → Put Int
  | nil, p, sz | null, p, sz => do
    room sz 2
    stores p [0, asnNull]
  | exception _ type, p, sz => do
    room sz 2
    stores p [0, type.type]
  | integer _ val, p, sz => asnPutInt val p sz
  | unsigned _ type val, p, sz => asnPutUint val p sz type
  | string _ _ len str, p, sz => asnPutString len str p sz
  | oid _ len id, p, sz => asnPutOid len id p sz
  | seq _ type count arr, bp, sz => do
    let (p, sz) ← asnPutArr count.toNat arr bp sz
    asnPutHeader type.1 (.ofInt 32 (bp - p)) p sz

/-- The loop of `asn_put_sequence`, from the last node to the first. -/
def asnPutArr : Nat → List Asn → Int → BitVec 32 → Put (Int × BitVec 32)
  | 0, _, p, sz => pure (p, sz)
  | _ + 1, [], _, _ => .ofOption none
  | n + 1, e :: arr, p, sz => do
    let (op, sz) ← asnPutArr n arr p sz
    let p ← e.asnEncode op sz
    return (p, left sz op p)

end

section Bytes

def intBytes (val : ULong) : List UChar :=
  if val.toInt < 0x80 ∧ -0x80 ≤ val.toInt then 1 :: lowBytes val.toNat 1
  else if val.toInt < 0x8000 ∧ -0x8000 ≤ val.toInt then 2 :: lowBytes val.toNat 2
  else if val.toInt < 0x800000 ∧ -0x800000 ≤ val.toInt then 3 :: lowBytes val.toNat 3
  else 4 :: lowBytes val.toNat 4

def uintBytes (type : AsnUnsigned) (val : ULong) : List UChar :=
  if type = .ipAddress ∨ 0x7FFFFF < val.toNat then 4 :: lowBytes val.toNat 4
  else if val.toNat ≤ 0x7F then 1 :: lowBytes val.toNat 1
  else if val.toNat ≤ 0x7FFF then 2 :: lowBytes val.toNat 2
  else 3 :: lowBytes val.toNat 3

def lengthBytes (val : Nat) : List UChar :=
  if val < 0x80 then lowBytes val 1
  else if val < 0x100 then 0x81 :: lowBytes val 1
  else if val < 0x10000 then 0x82 :: lowBytes val 2
  else if val < 0x1000000 then 0x83 :: lowBytes val 3
  else 0x84 :: lowBytes val 4

def groupBytes (val : Nat) : List UChar :=
  if 0x80 ≤ val then groupBytes (val >>> 7) ++ [0x80 ||| .ofNat 8 (val >>> 7 &&& 0x7f)] else []
termination_by val
decreasing_by
  rw [Nat.shiftRight_eq_div_pow]
  omega

def idBytes (val : UShort) : List UChar :=
  groupBytes val.toNat ++ [.ofNat 8 (val.toNat &&& 0x7f)]

/-- The bytes of the first components of an identifier, at least two. -/
def oidBytes (len : Nat) : List UShort → List UChar
  | first :: second :: ids =>
    .ofNat 8 (first.toNat * 40 + second.toNat) :: (ids.take (len - 2)).flatMap idBytes
  | _ => []

def framed (type : UChar) (contents : List UChar) : List UChar :=
  type :: lengthBytes contents.length ++ contents

mutual

def encoding : Asn → List UChar
  | nil | null => [asnNull, 0]
  | exception _ type => [type.type, 0]
  | integer _ val => asnInteger :: intBytes val
  | unsigned _ type val => type.type :: uintBytes type val
  | string _ _ len str => framed AsnText.string.type (str.take len.toNat)
  | oid _ len id => framed asnOid (oidBytes len.toNat id)
  | seq _ type count arr => framed type.1 (encodings count.toNat arr)

def encodings : Nat → List Asn → List UChar
  | 0, _ | _, [] => []
  | n + 1, e :: arr => e.encoding ++ encodings n arr

end

end Bytes

/-- The bytes are stored in front of the pointer, each of them once, if there is room for them;
otherwise nothing is stored outside of the room. -/
def Filled {Result : Type} (put : Put Result) (result : Result) (contents : List UChar) (p : Int)
    (sz : Nat) : Prop :=
  if contents.length ≤ sz then
    put.result = some result ∧ put.events.Perm (placed (p - contents.length) contents)
  else put.result = none ∧ ∀ event ∈ put.events, p - sz ≤ event.1 ∧ event.1 < p

section Filled

variable {First Second : Type} {contents front : List UChar} {p : Int} {sz n : BitVec 32}

theorem placed_append (p : Int) (front back : List UChar) :
    placed p (front ++ back) = placed p front ++ placed (p + front.length) back := by
  induction front generalizing p with
  | nil => simp [placed]
  | cons byte front ih =>
    rw [List.cons_append, placed, placed, ih, List.cons_append, length_cons]
    congr 3
    omega

theorem mem_placed {p : Int} {event : Int × UChar} (member : event ∈ placed p contents) :
    p ≤ event.1 ∧ event.1 < p + contents.length := by
  induction contents generalizing p with
  | nil => simp [placed] at member
  | cons byte contents ih =>
    rw [length_cons]
    rcases mem_cons.mp member with rfl | member
    · omega
    · have := ih member
      omega

theorem read_placed {memory : Int → UChar}
    (stored : ∀ event ∈ placed p contents, memory event.1 = event.2) :
    (range contents.length).map (fun i : Nat => memory (p + i)) = contents := by
  induction contents generalizing p with
  | nil => rfl
  | cons byte contents ih =>
    rw [placed, forall_mem_cons] at stored
    rw [length_cons, range_succ_eq_map, map_cons, map_map]
    refine congrArg₂ _ ?_ ((map_congr_left fun i _ => ?_).trans (ih stored.2))
    · simpa using stored.1
    · simp [Int.add_assoc, Int.add_comm 1]

theorem filled_pure (value : First) (sz : Nat) : Filled (pure value) value [] p sz := by
  rw [Filled]
  exact (if_pos (Nat.zero_le sz)).mpr ⟨rfl, .refl _⟩

variable {put : Put First} {value : First} {id : List UShort}

theorem Filled.bind {next : First → Put Second} {result : Second} {sz : Nat}
    (first : Filled put value contents p sz) (second : contents.length ≤ sz →
      Filled (next value) result front (p - contents.length) (sz - contents.length)) :
    Filled (put >>= next) result (front ++ contents) p sz := by
  rw [Filled] at first ⊢
  rw [length_append]
  rcases Nat.lt_or_ge sz contents.length with small | enough
  · rw [if_neg small.not_ge] at first
    obtain ⟨fails, within⟩ := first
    rw [if_neg (by omega), Traced.result_bind, Traced.events_bind, fails]
    exact ⟨rfl, by simpa using within⟩
  · rw [if_pos enough] at first
    obtain ⟨succeeds, stored⟩ := first
    have after := second enough
    rw [Filled] at after
    rw [Traced.result_bind, Traced.events_bind, succeeds, Option.elim_some, Option.bind_some]
    split_ifs at after ⊢ with fits total total
    · obtain ⟨result_eq, events_eq⟩ := after
      refine ⟨result_eq, ?_⟩
      have start : p - contents.length - front.length =
          p - (front.length + contents.length : Nat) := by omega
      have start' : p - (front.length + contents.length : Nat) + front.length =
          p - contents.length := by omega
      rw [start] at events_eq
      rw [placed_append, start']
      exact (stored.append events_eq).trans perm_append_comm
    · omega
    · omega
    · obtain ⟨result_eq, within⟩ := after
      refine ⟨result_eq, fun event member => ?_⟩
      rcases mem_append.mp member with member | member
      · have := mem_placed (stored.mem_iff.mp member)
        omega
      · have := within event member
        omega

theorem filled_room {next : Unit → Put First} (needs : n.toNat ≤ contents.length)
    (after : n.toNat ≤ sz.toNat → Filled (next ()) value contents p sz.toNat) :
    Filled (room sz n >>= next) value contents p sz.toNat := by
  rw [room]
  split_ifs with small
  · have small : sz.toNat < n.toNat := small
    rw [Filled, if_neg (by omega)]
    exact ⟨rfl, fun event member => absurd member not_mem_nil⟩
  · exact after (Nat.le_of_not_lt small)

theorem filled_store (byte : UChar) {sz : Nat} (positive : 1 ≤ sz) :
    Filled (store p byte) (p - 1) [byte] p sz := by
  rw [Filled]
  exact (if_pos positive).mpr ⟨rfl, .refl _⟩

variable (bytes : List UChar) (val : ULong)

theorem filled_stores {sz : Nat} (fits : bytes.length ≤ sz) :
    Filled (stores p bytes) (p - bytes.length) bytes.reverse p sz := by
  induction bytes generalizing p sz with
  | nil => simpa [stores] using filled_pure p sz
  | cons byte bytes ih =>
    rw [length_cons] at fits
    have rest := @ih (p - 1) (sz - 1) (by omega)
    have start : p - (byte :: bytes).length = p - 1 - bytes.length := by
      rw [length_cons]
      omega
    rw [stores, reverse_cons, start]
    exact (filled_store byte (by omega)).bind fun _ => rest

theorem filled_put (needs : bytes.length = n.toNat) (same : bytes.reverse = contents) :
    Filled (room sz n >>= fun _ => stores p bytes) (p - contents.length) contents p sz.toNat := by
  subst same
  rw [length_reverse]
  refine filled_room (by rw [length_reverse, needs]) fun fits => ?_
  exact filled_stores bytes (by omega)

theorem byteOf_eq (shift : Nat) :
    byteOf val shift = .ofNat 8 (val.toNat >>> shift) := by
  apply eq_of_toNat_eq
  rw [byteOf, toNat_setWidth, toNat_ushiftRight, toNat_ofNat]

theorem filled_putInt (p : Int) (sz : BitVec 32) :
    Filled (asnPutInt val p sz) (p - (asnInteger :: intBytes val).length)
      (asnInteger :: intBytes val) p sz.toNat := by
  rw [asnPutInt, intBytes]
  split_ifs
  · exact filled_put _ rfl (by simp [byteOf_eq, lowBytes])
  · exact filled_put _ rfl (by simp [byteOf_eq, lowBytes])
  · exact filled_put _ rfl (by simp [byteOf_eq, lowBytes])
  · exact filled_put _ rfl (by simp [byteOf_eq, lowBytes])

theorem filled_putUint (p : Int) (sz : BitVec 32) (type : AsnUnsigned) :
    Filled (asnPutUint val p sz type) (p - (type.type :: uintBytes type val).length)
      (type.type :: uintBytes type val) p sz.toNat := by
  rw [asnPutUint, uintBytes]
  split_ifs
  · exact filled_put _ rfl (by simp [byteOf_eq, lowBytes])
  · exact filled_put _ rfl (by simp [byteOf_eq, lowBytes])
  · exact filled_put _ rfl (by simp [byteOf_eq, lowBytes])
  · exact filled_put _ rfl (by simp [byteOf_eq, lowBytes])

theorem filled_putLength (p : Int) (sz : BitVec 32) :
    Filled (asnPutLength val p sz) (p - (lengthBytes val.toNat).length)
      (lengthBytes val.toNat) p sz.toNat := by
  rw [asnPutLength, lengthBytes]
  split_ifs
  · exact filled_put _ rfl (by simp [byteOf_eq, lowBytes])
  · exact filled_put _ rfl (by simp [byteOf_eq, lowBytes])
  · exact filled_put _ rfl (by simp [byteOf_eq, lowBytes])
  · exact filled_put _ rfl (by simp [byteOf_eq, lowBytes])
  · exact filled_put _ rfl (by simp [byteOf_eq, lowBytes])

theorem left_eq (sz : BitVec 32) (p : Int) (used : Nat) :
    left sz p (p - used) = sz - .ofNat 32 used := by
  rw [left, sub_sub_cancel]
  rfl

theorem rest_toNat {sz : BitVec 32} {used : Nat} (fits : used ≤ sz.toNat) :
    (sz - .ofNat 32 used).toNat = sz.toNat - used := by
  have small := sz.isLt
  have same : (BitVec.ofNat 32 used).toNat = used := by
    rw [toNat_ofNat, Nat.mod_eq_of_lt (by omega)]
  rw [toNat_sub_of_le (by rw [le_def, same]; exact fits), same]

theorem Filled.next {next : First → Put Second} {result : Second} (front : List UChar)
    (first : Filled put value contents p sz.toNat)
    (second : contents.length ≤ sz.toNat → Filled (next value) result front (p - contents.length)
      (sz - .ofNat 32 contents.length).toNat) :
    Filled (put >>= next) result (front ++ contents) p sz.toNat :=
  first.bind fun fits => rest_toNat fits ▸ second fits

theorem filled_header (type : UChar) (len : BitVec 32) (p : Int) (sz : BitVec 32) :
    Filled (asnPutHeader type len p sz) (p - (lengthBytes len.toNat).length - 1)
      (type :: lengthBytes len.toNat) p sz.toNat := by
  rw [asnPutHeader]
  refine Filled.next [type] (filled_putLength len p sz) fun _ => ?_
  rw [left_eq]
  exact filled_room le_rfl fun needs => filled_store type needs

theorem Filled.framed {next : First → Put Int} {type : UChar}
    (first : Filled put value contents p sz.toNat)
    (same : contents.length < 2 ^ 32 → next value = asnPutHeader type (.ofNat 32 contents.length)
      (p - contents.length) (sz - .ofNat 32 contents.length)) :
    Filled (put >>= next) (p - (framed type contents).length) (framed type contents) p
      sz.toNat := by
  have length : p - (Asn.framed type contents).length =
      p - contents.length - (lengthBytes contents.length).length - 1 := by
    rw [Asn.framed, length_append, length_cons]
    omega
  rw [length]
  refine Filled.next (type :: lengthBytes contents.length) first fun fits => ?_
  have small : contents.length < 2 ^ 32 := fits.trans_lt sz.isLt
  have header := filled_header type (.ofNat 32 contents.length) (p - contents.length)
    (sz - .ofNat 32 contents.length)
  rw [toNat_ofNat, Nat.mod_eq_of_lt small] at header
  rw [same small]
  exact header

theorem filled_copyTo (p : Int) (sz : Nat) (fits : bytes.length ≤ sz) :
    Filled (copyTo (p - bytes.length) bytes) () bytes p sz := by
  rw [Filled, if_pos fits]
  exact ⟨rfl, .refl _⟩

theorem filled_putString {len : UShort} {str : List UChar} (holds : len.toNat ≤ str.length)
    (p : Int) (sz : BitVec 32) :
    Filled (asnPutString len str p sz)
      (p - (framed AsnText.string.type (str.take len.toNat)).length)
      (framed AsnText.string.type (str.take len.toNat)) p sz.toNat := by
  have length : (str.take len.toNat).length = len.toNat := length_take_of_le holds
  have wide : (len.setWidth 32 : BitVec 32) = .ofNat 32 (str.take len.toNat).length := by
    rw [length, ofNat_toNat]
  have number : (len.setWidth 32 : BitVec 32).toNat = len.toNat :=
    toNat_setWidth_of_le (by decide)
  rw [asnPutString]
  refine filled_room ?_ fun fits => ?_
  · rw [number, framed, length_append, length]
    exact Nat.le_add_left _ _
  · rw [number] at fits
    have copied := filled_copyTo (str.take len.toNat) p sz.toNat (by rwa [length])
    rw [length] at copied
    refine copied.framed fun _ => ?_
    rw [wide, length]

theorem filled_putGroups (val : Nat) (p : Int) (sz : BitVec 32) :
    Filled (asnPutGroups val p sz) (p - (groupBytes val).length) (groupBytes val) p
      sz.toNat := by
  induction val using Nat.strong_induction_on generalizing p sz with
  | h val ih =>
    rw [asnPutGroups, groupBytes]
    split_ifs with more
    · have less : val >>> 7 < val := by
        rw [Nat.shiftRight_eq_div_pow]
        omega
      have length : ∀ byte : UChar, p - (groupBytes (val >>> 7) ++ [byte]).length =
          p - 1 - (groupBytes (val >>> 7)).length := by
        intro byte
        rw [length_append, length_singleton]
        omega
      rw [length]
      refine filled_room ?_ fun needs => ?_
      · rw [length_append]
        exact Nat.le_add_left _ _
      · exact Filled.next _ (filled_store _ needs) fun _ => ih _ less (p - 1) (sz - 1)
    · simpa using filled_pure p sz.toNat

theorem filled_putId1 (val : UShort) (p : Int) (sz : BitVec 32) :
    Filled (asnPutId1 val p sz) (p - (idBytes val).length) (idBytes val) p sz.toNat := by
  have length : p - (idBytes val).length = p - 1 - (groupBytes val.toNat).length := by
    rw [idBytes, length_append, length_singleton]
    omega
  rw [asnPutId1, length]
  refine filled_room ?_ fun needs => ?_
  · rw [idBytes, length_append]
    exact Nat.le_add_left _ _
  · exact Filled.next _ (filled_store _ needs) fun _ =>
      filled_putGroups val.toNat (p - 1) (sz - 1)

/-- What a loop has after contents: the pointer in front of them, and the bytes that are left. -/
def ahead (p : Int) (sz : BitVec 32) (contents : List UChar) : Int × BitVec 32 :=
  (p - contents.length, sz - .ofNat 32 contents.length)

theorem ahead_append (p : Int) (sz : BitVec 32) (front back : List UChar) :
    ahead (ahead p sz back).1 (ahead p sz back).2 front = ahead p sz (front ++ back) := by
  rw [ahead, ahead, ahead, length_append]
  refine Prod.ext ?_ ?_
  · dsimp only
    omega
  · dsimp only
    bv_omega

theorem take_ids {i : Nat} (inside : i + 2 < id.length) :
    (id.drop 2).take (i + 2 - 1) = (id.drop 2).take (i + 1 - 1) ++ [id[i + 2]] := by
  rw [Nat.add_sub_cancel, Nat.add_succ_sub_one, take_add_one, List.getElem?_drop,
    Nat.add_comm 2 i, List.getElem?_eq_getElem inside]
  rfl

theorem filled_putIds {i : Nat} (holds : i < id.length ∨ i < 2) (p : Int) (sz : BitVec 32) :
    Filled (asnPutIds id i p sz) (ahead p sz (((id.drop 2).take (i - 1)).flatMap idBytes))
      (((id.drop 2).take (i - 1)).flatMap idBytes) p sz.toNat := by
  induction i using Nat.twoStepInduction generalizing p sz with
  | zero | one =>
    rw [asnPutIds]
    simpa [ahead] using filled_pure (p, sz) sz.toNat
  | more i _ ih =>
    have inside : i + 2 < id.length := by omega
    rw [asnPutIds, List.getElem?_eq_getElem inside, take_ids inside, flatMap_append,
      ← ahead_append, flatMap_singleton]
    change Filled (asnPutId1 id[i + 2] p sz >>= fun p' =>
      asnPutIds id (i + 1) p' (left sz p p')) _ _ _ _
    refine Filled.next _ (filled_putId1 id[i + 2] p sz) fun _ => ?_
    rw [left_eq]
    exact ih (by omega) _ _

theorem filled_octet (octet : UChar) (p : Int) {sz : BitVec 32} {n : Nat} (needs : 1 ≤ sz.toNat)
    (small : n + 1 < 2 ^ 32) :
    Filled (store (p - n) octet >>= fun p' =>
        asnPutHeader asnOid (.ofInt 32 (p - p')) p' (sz - 1))
      (p - n - 1 - (lengthBytes (n + 1)).length - 1) (asnOid :: lengthBytes (n + 1) ++ [octet])
      (p - n) sz.toNat := by
  have number : (BitVec.ofInt 32 (p - (p - n - 1))).toNat = n + 1 := by
    have difference : p - (p - n - 1) = (n + 1 : Nat) := by omega
    rw [difference]
    change (BitVec.ofNat 32 (n + 1)).toNat = _
    rw [toNat_ofNat, Nat.mod_eq_of_lt small]
  refine Filled.next _ (filled_store octet needs) fun _ => ?_
  have header := filled_header asnOid (.ofInt 32 (p - (p - n - 1))) (p - n - 1) (sz - 1)
  rw [number] at header
  exact header

theorem filled_putOid {len : UShort} (holds : len.toNat ≤ id.length) (two : 2 ≤ id.length)
    (named : len ≠ 0) (p : Int) (sz : BitVec 32) :
    Filled (asnPutOid len id p sz) (p - (framed asnOid (oidBytes len.toNat id)).length)
      (framed asnOid (oidBytes len.toNat id)) p sz.toNat := by
  have positive := toNat_pos named
  have index : (len.setWidth 32 - 1 : BitVec 32).toNat = len.toNat - 1 := by bv_omega
  match id, two with
  | first :: second :: id, _ =>
    have ids_filled := @filled_putIds (first :: second :: id) (len.toNat - 1) (by omega) p sz
    have ids_eq : ((first :: second :: id).drop 2).take (len.toNat - 1 - 1) =
        id.take (len.toNat - 2) := rfl
    rw [ids_eq] at ids_filled
    rw [asnPutOid, index, oidBytes]
    generalize (id.take (len.toNat - 2)).flatMap idBytes = ids at ids_filled
    have shape : ∀ octet : UChar, framed asnOid (octet :: ids) =
        (asnOid :: lengthBytes (ids.length + 1) ++ [octet]) ++ ids := by
      intro octet
      simp [framed]
    have result : ∀ octet : UChar, p - (framed asnOid (octet :: ids)).length =
        p - ids.length - 1 - (lengthBytes (ids.length + 1)).length - 1 := by
      intro octet
      rw [shape, length_append, length_append, length_cons, length_singleton]
      omega
    rw [result, shape]
    refine Filled.next _ ids_filled fun fits => ?_
    refine filled_room (by simp) fun needs => ?_
    have room := sz.isLt
    have used := rest_toNat fits
    exact filled_octet _ p needs (by
      rw [used] at needs
      have one : (1 : BitVec 32).toNat = 1 := rfl
      omega)

end Filled

mutual

/-- What `asn_encode` stores for a tree. -/
theorem filled_encode : ∀ (t : Asn) (p : Int) (sz : BitVec 32), t.Holds → t.Named →
    Filled (t.asnEncode p sz) (p - t.encoding.length) t.encoding p sz.toNat
  | nil, p, sz, _, _ | null, p, sz, _, _ | exception _ _, p, sz, _, _ =>
    filled_put _ rfl rfl
  | integer _ val, p, sz, _, _ => filled_putInt val p sz
  | unsigned _ type val, p, sz, _, _ => filled_putUint val p sz type
  | string _ _ _ _, p, sz, holds, _ => filled_putString holds p sz
  | oid _ _ _, p, sz, holds, named =>
    filled_putOid holds.1 (holds.2.1 named) named p sz
  | seq _ type count arr, p, sz, holds, named =>
    (filled_putArr count.toNat arr p sz holds.1 holds.2 named).framed fun _ => by
      dsimp only [ahead]
      rw [sub_sub_cancel]
      rfl

/-- What the loop of `asn_put_sequence` stores. -/
theorem filled_putArr : ∀ (n : Nat) (arr : List Asn) (p : Int) (sz : BitVec 32),
    n ≤ arr.length → AllHold arr → AllNamed n arr →
    Filled (asnPutArr n arr p sz) (ahead p sz (encodings n arr)) (encodings n arr) p sz.toNat
  | 0, _, p, sz, _, _, _ => by
    rw [asnPutArr, encodings]
    simpa [ahead] using filled_pure (p, sz) sz.toNat
  | n + 1, e :: arr, p, sz, within, holds, named => by
    have back := filled_putArr n arr p sz (Nat.le_of_succ_le_succ within) holds.2 named.2
    rw [asnPutArr, encodings, ← ahead_append]
    refine Filled.next _ back fun _ => ?_
    have front := filled_encode e (p - (encodings n arr).length)
      (sz - .ofNat 32 (encodings n arr).length) holds.1 named.1
    dsimp only [ahead]
    refine Filled.next [] front fun _ => ?_
    rw [left_eq]
    exact filled_pure _ _

end

section Lists

variable {sz : Nat} {contents : List UChar}

theorem put_bind (front : List UChar) {next : List UChar → Encoding}
    (after : contents.length ≤ sz → next contents = Encoding.put (front ++ contents) sz) :
    (Encoding.put contents sz >>= next) = Encoding.put (front ++ contents) sz := by
  rw [Encoding.put]
  split_ifs with small
  · rw [Encoding.put, if_pos (by rw [length_append]; omega)]
    rfl
  · exact after (Nat.le_of_not_lt small)

theorem put_front (front contents : List UChar) (fits : contents.length ≤ sz) :
    (Encoding.put front (sz - contents.length) >>= fun front => .ok (front ++ contents)) =
      Encoding.put (front ++ contents) sz := by
  rw [Encoding.put, Encoding.put, length_append]
  split_ifs
  · rfl
  · omega
  · omega
  · rfl

theorem put_guard {n : Nat} {part : Encoding} (needs : n ≤ contents.length)
    (same : n ≤ sz → part = Encoding.put contents sz) :
    (if sz < n then .error .overflow else part) = Encoding.put contents sz := by
  split_ifs with small
  · rw [Encoding.put, if_pos (by omega)]
  · exact same (Nat.le_of_not_lt small)

theorem putInt_eq (val : ULong) : putInt val sz = .put (asnInteger :: intBytes val) sz := by
  rw [putInt, intBytes]
  split_ifs <;> rfl

theorem putUint_eq (val : ULong) (type : AsnUnsigned) :
    putUint val sz type = .put (type.type :: uintBytes type val) sz := by
  rw [putUint, uintBytes]
  split_ifs <;> rfl

theorem putLength_eq (val : Nat) : putLength val sz = .put (lengthBytes val) sz := by
  rw [putLength, lengthBytes]
  split_ifs <;> rfl

theorem putHeader_eq (type : UChar) (fits : contents.length ≤ sz) :
    putHeader type contents sz = .put (framed type contents) sz := by
  have length : (framed type contents).length =
      (lengthBytes contents.length).length + 1 + contents.length := by
    rw [framed, length_append, length_cons]
  rw [putHeader, putLength_eq, Encoding.put, Encoding.put, length]
  have room := Nat.lt_or_ge (sz - contents.length) (lengthBytes contents.length).length
  rcases room with small | enough
  · rw [if_pos small, if_pos (by omega)]
    rfl
  · rw [if_neg enough.not_gt]
    change (if sz - contents.length - (lengthBytes contents.length).length < 1 then
      Except.error AsnFailure.overflow else Except.ok (framed type contents)) = _
    exact if_congr (by omega) rfl rfl

theorem putGroups_eq (turns : Nat) {val : Nat} (few : val < 128 ^ (turns + 1)) :
    putGroups turns val sz = .put (groupBytes val) sz := by
  induction turns generalizing val sz with
  | zero =>
    rw [putGroups, groupBytes, if_neg (by omega)]
    rfl
  | succ turns ih =>
    rw [putGroups, groupBytes]
    split_ifs with small one more more
    · omega
    · rfl
    · rw [Encoding.put, if_pos (by rw [length_append, length_singleton]; omega)]
    · omega
    · have less : val >>> 7 < 128 ^ (turns + 1) := by
        rw [Nat.shiftRight_eq_div_pow]
        rw [Nat.pow_succ] at few
        omega
      dsimp only
      rw [ih less]
      exact put_front _ [_] (by rw [length_singleton]; omega)
    · omega

theorem putId1_eq (val : UShort) : putId1 val sz = .put (idBytes val) sz := by
  have small := val.isLt
  refine put_guard (by simp [idBytes]) fun needs => ?_
  rw [putGroups_eq 5 (by omega)]
  exact put_front _ [_] needs

theorem putString_eq {len : UShort} {str : List UChar} (holds : len.toNat ≤ str.length) :
    putString len str sz = .put (framed AsnText.string.type (str.take len.toNat)) sz := by
  have length : (str.take len.toNat).length = len.toNat := length_take_of_le holds
  rw [putString, if_neg holds.not_gt]
  refine put_guard ?_ fun needs => putHeader_eq _ (by rwa [length])
  rw [framed, length_append, length]
  exact Nat.le_add_left _ _

theorem putIds_eq {id : List UShort} {i : Nat} (holds : i < id.length ∨ i < 2) :
    putIds id i sz = .put (((id.drop 2).take (i - 1)).flatMap idBytes) sz := by
  induction i using Nat.twoStepInduction generalizing sz with
  | zero | one => rfl
  | more i _ ih =>
    have inside : i + 2 < id.length := by omega
    rw [putIds, List.getElem?_eq_getElem inside, take_ids inside, flatMap_append,
      flatMap_singleton]
    dsimp only
    rw [putId1_eq]
    refine put_bind _ fun fits => ?_
    rw [ih (by omega)]
    exact put_front _ _ fits

theorem putOid_eq {len : UShort} {id : List UShort} (holds : len.toNat ≤ id.length)
    (two : 2 ≤ id.length) (named : len ≠ 0) :
    putOid len id sz = .put (framed asnOid (oidBytes len.toNat id)) sz := by
  have positive := toNat_pos named
  have index : (len.setWidth 32 - 1 : BitVec 32).toNat = len.toNat - 1 := by bv_omega
  match id, two with
  | first :: second :: id, _ =>
    have ids_eq : ((first :: second :: id).drop 2).take (len.toNat - 1 - 1) =
        id.take (len.toNat - 2) := rfl
    rw [putOid, index, putIds_eq (by omega), oidBytes, ids_eq]
    generalize (id.take (len.toNat - 2)).flatMap idBytes = ids
    set octet := BitVec.ofNat 8 (first.toNat * 40 + second.toNat)
    have shape : framed asnOid (octet :: ids) =
        (asnOid :: lengthBytes (octet :: ids).length ++ [octet]) ++ ids := by
      simp [framed]
    rw [shape]
    refine put_bind _ fun fits => ?_
    rw [← shape]
    change (if sz - ids.length < 1 then Except.error AsnFailure.overflow else
      putHeader asnOid (octet :: ids) sz) = _
    split_ifs with full
    · rw [Encoding.put, if_pos]
      rw [shape, length_append, length_append, length_singleton]
      omega
    · exact putHeader_eq asnOid (by rw [length_cons]; omega)

end Lists

mutual

theorem encode_eq : ∀ (t : Asn) (sz : Nat), t.Holds → t.Named →
    t.encode sz = .put t.encoding sz
  | nil, _, _, _ | null, _, _, _ | exception _ _, _, _, _ => rfl
  | integer _ val, _, _, _ => putInt_eq val
  | unsigned _ type val, _, _, _ => putUint_eq val type
  | string _ _ _ _, _, holds, _ => putString_eq holds
  | oid _ _ _, _, holds, named => putOid_eq holds.1 (holds.2.1 named) named
  | seq _ type count arr, sz, holds, named => by
    rw [encode, putArr_eq count.toNat arr sz holds.1 holds.2 named]
    exact put_bind (type.1 :: lengthBytes (encodings count.toNat arr).length)
      fun fits => putHeader_eq type.1 fits

theorem putArr_eq : ∀ (n : Nat) (arr : List Asn) (sz : Nat), n ≤ arr.length → AllHold arr →
    AllNamed n arr → putArr n arr sz = .put (encodings n arr) sz
  | 0, _, _, _, _, _ => by
    rw [putArr, encodings]
    rfl
  | n + 1, e :: arr, sz, within, holds, named => by
    rw [putArr, putArr_eq n arr sz (Nat.le_of_succ_le_succ within) holds.2 named.2, encodings]
    refine put_bind _ fun fits => ?_
    rw [encode_eq e _ holds.1 named.1]
    exact put_front _ _ fits

end

/-- For a tree whose identifiers have components, `asn_encode` succeeds if and only if its encoding
fits into the room; then it returns the pointer in front of the encoding, and has stored exactly its
bytes; and it never stores anything outside of the room. -/
theorem asnEncode_exact {t : Asn} (holds : t.Holds) (named : t.Named) (p : Int) (sz : BitVec 32) :
    ((t.asnEncode p sz).result.isSome ↔ t.encoding.length ≤ sz.toNat) ∧
      ((t.asnEncode p sz).result.isSome →
        (t.asnEncode p sz).result = some (p - t.encoding.length) ∧
          (t.asnEncode p sz).events.Perm (placed (p - t.encoding.length) t.encoding)) ∧
        ∀ event ∈ (t.asnEncode p sz).events, p - sz.toNat ≤ event.1 ∧ event.1 < p := by
  have filled := filled_encode t p sz holds named
  rw [Filled] at filled
  split_ifs at filled with fits
  · obtain ⟨result, stored⟩ := filled
    refine ⟨by simp [result, fits], fun _ => ⟨result, stored⟩, fun event member => ?_⟩
    have := mem_placed (stored.mem_iff.mp member)
    omega
  · obtain ⟨result, within⟩ := filled
    exact ⟨by simp [result, fits], by simp [result], within⟩

def oneRequest : Asn :=
  seq 0 sequence 2 [integer 1 0, seq 2 sequence 2 [oid 3 3 [1, 3, 200], null]]

/-- The request fits into 14 bytes; where there are only 13 nothing is stored outside of them. -/
theorem asnEncode_request :
    (oneRequest.asnEncode 100 14).result = some 86 ∧
      ∀ event ∈ (oneRequest.asnEncode 100 13).events, 87 ≤ event.1 ∧ event.1 < 100 := by
  have holds : oneRequest.Holds := by simp [oneRequest, Holds, AllHold]
  have named : oneRequest.Named := by simp [oneRequest, Named, AllNamed]
  have length : oneRequest.encoding.length = 14 := by decide +kernel
  have fits := asnEncode_exact holds named 100 14
  rw [length] at fits
  exact ⟨(fits.2.1 (fits.1.mpr le_rfl)).1, (asnEncode_exact holds named 100 13).2.2⟩

/-- `asn_parse` reads what `asn_encode` has written. -/
theorem asnEncode_parses {t : Asn} {p q : Int} {pool : MemPool} {memory : Int → UChar}
    {sz : BitVec 32}
    (regular : t.Regular) (holds : t.Holds) (named : t.Named) (generous : Generous pool)
    (returned : (t.asnEncode p sz).result = some q)
    (stored : ∀ event ∈ (t.asnEncode p sz).events, memory event.1 = event.2) :
    ∃ t' pool', parse pool ((range (p - q).toNat).map fun i : Nat => memory (q + i)) =
      (some (t', []), pool') ∧ t'.value = t.value.written := by
  have filled := filled_encode t p sz holds named
  rw [Filled, returned] at filled
  split_ifs at filled with fits
  · cases filled.1
    rw [sub_sub_cancel, Int.toNat_natCast,
      read_placed fun event member => stored event (filled.2.mem_iff.mpr member)]
    have written : t.encode sz.toNat = .ok t.encoding := by
      rw [encode_eq t _ holds named, Encoding.put, if_neg (Nat.not_lt.mpr fits)]
    obtain ⟨back, pool', parsed, -, same⟩ :=
      @parse_encode t sz.toNat _ pool _ [] regular written sz.isLt le_rfl generous
    rw [append_nil] at parsed
    exact ⟨back, pool', parsed, same⟩
  · cases filled.1

theorem asnEncode_parses_binding :
    ∃ t' pool', parse plenty [0x30, 10, 6, 4, 43, 0x82, 0xb8, 0x40, 4, 2, 65, 66] =
      (some (t', []), pool') ∧ t'.value = binding.value.written := by
  simpa [range_succ] using @asnEncode_parses binding 12 0 plenty
    (fun a => [0x30, 10, 6, 4, 43, 0x82, 0xb8, 0x40, 4, 2, 65, 66].getD a.toNat 0) 20
    ⟨rfl, ⟨rfl, 1, 3, [40000], rfl, by decide, by decide⟩, rfl, trivial⟩
    (by simp [binding, Holds, AllHold]) (by simp [binding, Named, AllNamed]) (fun _ => rfl)
    (by decide +kernel) (by decide +kernel)

end Asn
end Uos
