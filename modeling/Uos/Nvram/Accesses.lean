import Mathlib.Tactic.Ring
import Uos.Nvram.Nvdata

/-!
# Typed accesses as bytes

A typed write puts bytes behind each other into the memory, a typed read takes bytes from it, and
both add these bytes to the checksum.
-/

namespace Uos.Nvram

open List

def overlay (byte : Nat → UChar) : Nat → List UChar → Nat → UChar
  | _, [] => byte
  | addr, c :: bytes => overlay (Function.update byte addr c) (addr + 1) bytes

def contents (byte : Nat → UChar) : Nat → Nat → List UChar
  | _, 0 => []
  | addr, n + 1 => byte addr :: contents byte (addr + 1) n

def placed : Nat → List UChar → List (Nat × UChar)
  | _, [] => []
  | addr, c :: bytes => (addr, c) :: placed (addr + 1) bytes

def crcAll (sum : ULong) (bytes : List UChar) : ULong :=
  bytes.foldl crc32VakByte sum

section Memory

variable {byte other : Nat → UChar} {addr x n m : Nat} {bytes more : List UChar}

theorem overlay_of_lt (below : x < addr) : overlay byte addr bytes x = byte x := by
  induction bytes generalizing byte addr with
  | nil => rfl
  | cons c bytes ih =>
    have different : x ≠ addr := by omega
    rw [overlay, ih (by omega), Function.update_of_ne different]

theorem overlay_of_ge (above : addr + bytes.length ≤ x) : overlay byte addr bytes x = byte x := by
  induction bytes generalizing byte addr with
  | nil => rfl
  | cons c bytes ih =>
    rw [length_cons] at above
    have different : x ≠ addr := by omega
    rw [overlay, ih (by omega), Function.update_of_ne different]

theorem overlay_append :
    overlay byte addr (bytes ++ more) =
      overlay (overlay byte addr bytes) (addr + bytes.length) more := by
  induction bytes generalizing byte addr with
  | nil => rfl
  | cons c bytes ih =>
    have next : addr + (c :: bytes).length = addr + 1 + bytes.length := by
      rw [length_cons]
      omega
    rw [cons_append, overlay, ih, overlay, next]

@[simp] theorem length_contents : (contents byte addr n).length = n := by
  induction n generalizing addr with
  | zero => rfl
  | succ n ih => rw [contents, length_cons, ih]

theorem contents_add :
    contents byte addr (n + m) = contents byte addr n ++ contents byte (addr + n) m := by
  induction n generalizing addr with
  | zero => rw [Nat.zero_add, contents, nil_append, Nat.add_zero]
  | succ n ih =>
    have next : addr + (n + 1) = addr + 1 + n := by omega
    rw [Nat.succ_add, contents, ih, contents, cons_append, next]

theorem contents_congr (same : ∀ x, addr ≤ x → x < addr + n → byte x = other x) :
    contents byte addr n = contents other addr n := by
  induction n generalizing addr with
  | zero => rfl
  | succ n ih =>
    rw [contents, contents, same addr (by omega) (by omega),
      ih fun x low high => same x (by omega) (by omega)]

theorem contents_overlay : contents (overlay byte addr bytes) addr bytes.length = bytes := by
  induction bytes generalizing byte addr with
  | nil => rfl
  | cons c bytes ih =>
    have first : overlay (Function.update byte addr c) (addr + 1) bytes addr = c := by
      rw [overlay_of_lt (by omega), Function.update_self]
    rw [overlay, length_cons, contents, first, ih]

theorem contents_overlay_of_disjoint (apart : x + n ≤ addr ∨ addr + bytes.length ≤ x) :
    contents (overlay byte addr bytes) x n = contents byte x n := by
  refine contents_congr fun y low high => ?_
  rcases apart with below | above
  · exact overlay_of_lt (by omega)
  · exact overlay_of_ge (by omega)

end Memory

theorem crcAll_append (sum : ULong) (bytes more : List UChar) :
    crcAll sum (bytes ++ more) = crcAll (crcAll sum bytes) more :=
  foldl_append ..

def strBytes (str : List UChar) : Nat → List UChar
  | 0 => []
  | maxlen + 1 => str.headD 0 :: strBytes (if str.headD 0 ≠ 0 then str.tail else str) maxlen

def wordBytes (val : UShort) : List UChar :=
  [UShort.low val, UShort.high val]

def dwordBytes (val : ULong) : List UChar :=
  wordBytes (val.setWidth 16) ++ wordBytes ((val >>> 16).setWidth 16)

def wordValue (bytes : List UChar) : Nat :=
  (bytes.getD 0 0).toNat + (bytes.getD 1 0).toNat <<< 8

def dwordValue (bytes : List UChar) : Nat :=
  wordValue bytes + wordValue (bytes.drop 2) <<< 16

def Item.bytes : Item → List UChar
  | .byte c => [c]
  | .bool b => [if b then 0xa5 else 0x5a]
  | .word val => wordBytes val
  | .dword val => dwordBytes val
  | .mem buf => buf
  | .str text maxlen => strBytes text maxlen

def Item.field : Item → Field
  | .byte _ => .byte
  | .bool _ => .bool
  | .word _ => .word
  | .dword _ => .dword
  | .mem buf => .mem buf.length
  | .str _ maxlen => .str maxlen

def Field.size : Field → Nat
  | .byte | .bool => 1
  | .word => 2
  | .dword => 4
  | .mem len | .str len => len

def Field.decode (field : Field) (bytes : List UChar) : Value :=
  match field with
  | .byte => .byte (bytes.getD 0 0)
  | .bool => .bool (bytes.getD 0 0 = 0xa5)
  | .word => .word (wordValue bytes)
  | .dword => .dword (dwordValue bytes)
  | .mem _ | .str _ => .buf bytes

def cleaned (c : UChar) : UChar :=
  if Nvdata.isDamaged c then 0 else c

def Field.filter (field : Field) (bytes : List UChar) : List UChar :=
  match field with
  | .str _ => bytes.map cleaned
  | _ => bytes

def crcStr (sum : ULong) (c : UChar) : ULong :=
  if Nvdata.isDamaged c then crc32VakByte sum c ^^^ 0xdead else crc32VakByte sum c

def Field.sum (field : Field) (sum : ULong) (bytes : List UChar) : ULong :=
  match field with
  | .str _ => bytes.foldl crcStr sum
  | _ => crcAll sum bytes

theorem length_strBytes (str : List UChar) (maxlen : Nat) :
    (strBytes str maxlen).length = maxlen := by
  induction maxlen generalizing str with
  | zero => rfl
  | succ maxlen ih => rw [strBytes, length_cons, ih]

theorem Item.length_bytes (item : Item) : item.bytes.length = item.field.size := by
  cases item with
  | str text maxlen => exact length_strBytes text maxlen
  | _ => rfl

theorem wordValue_wordBytes (val : UShort) : wordValue (wordBytes val) = val.toNat := by
  have bound := val.isLt
  simp only [wordValue, wordBytes, getD_cons_zero, getD_cons_succ, UShort.low_toNat,
    UShort.high_toNat, Nat.shiftLeft_eq]
  omega

theorem dwordValue_dwordBytes (val : ULong) : dwordValue (dwordBytes val) = val.toNat := by
  have bound := val.isLt
  have low : wordValue (dwordBytes val) = (val.setWidth 16).toNat := wordValue_wordBytes _
  have high : wordValue ((dwordBytes val).drop 2) = ((val >>> 16).setWidth 16).toNat :=
    wordValue_wordBytes _
  rw [dwordValue, low, high, Nat.shiftLeft_eq]
  simp only [BitVec.toNat_setWidth, BitVec.toNat_ushiftRight, Nat.shiftRight_eq_div_pow]
  omega

namespace Nvdata

def writeBytes (v : Nvdata) (bytes : List UChar) : Nvdata :=
  bytes.foldl writeByte v

variable {v : Nvdata} {addr n : Nat} {bytes : List UChar}

theorem writeStr_eq (str : List UChar) (maxlen : Nat) :
    v.writeStr str maxlen = v.writeBytes (strBytes str maxlen) := by
  induction maxlen generalizing v str with
  | zero => rfl
  | succ maxlen ih => rw [writeStr, ih, strBytes, writeBytes, writeBytes, foldl_cons]

theorem writeMem_eq : v.writeMem bytes = v.writeBytes bytes := by
  induction bytes generalizing v with
  | nil => rfl
  | cons c bytes ih => rw [writeMem, ih, writeBytes, writeBytes, foldl_cons]

theorem write_eq (item : Item) : v.write item = v.writeBytes item.bytes := by
  cases item with
  | mem buf => exact writeMem_eq
  | str text maxlen => exact writeStr_eq text maxlen
  | _ => rfl

theorem writeBytes_append (more : List UChar) :
    v.writeBytes (bytes ++ more) = (v.writeBytes bytes).writeBytes more :=
  foldl_append ..

theorem writeAll_eq (items : List Item) :
    v.writeAll items = v.writeBytes (items.flatMap Item.bytes) := by
  induction items generalizing v with
  | nil => rfl
  | cons item items ih =>
    rw [writeAll, foldl_cons, flatMap_cons, writeBytes_append, write_eq]
    exact ih

theorem writeBytes_fits (here : v.addr = some addr) (low : v.begin ≤ addr)
    (fits : addr + bytes.length ≤ v.limit) :
    v.writeBytes bytes =
      { v with
        byte := overlay v.byte addr bytes
        writes := v.writes ++ placed addr bytes
        crc := crcAll v.crc bytes
        addr := some (addr + bytes.length) } := by
  induction bytes generalizing v addr with
  | nil => simp [writeBytes, overlay, placed, crcAll, ← here]
  | cons c bytes ih =>
    rw [length_cons] at fits
    have valid : v.isValidAddr addr = true := by
      simp only [isValidAddr, Bool.and_eq_true, decide_eq_true_eq]
      omega
    have first : v.writeByte c =
        { v with
          byte := Function.update v.byte addr c
          writes := v.writes ++ [(addr, c)]
          crc := crc32VakByte v.crc c
          addr := some (addr + 1) } := by simp [writeByte, here, valid]
    have further : addr + 1 + bytes.length ≤ v.limit := by omega
    have rest := @ih (v.writeByte c) (addr + 1) (by rw [first])
      (by rw [first]; exact Nat.le_succ_of_le low) (by rw [first]; exact further)
    have next : addr + (c :: bytes).length = addr + 1 + bytes.length := by
      rw [length_cons]
      omega
    rw [writeBytes, foldl_cons]
    refine rest.trans ?_
    rw [first, next]
    simp [overlay, placed, crcAll]

theorem writeBytes_stuck (here : v.addr = some addr) (high : v.limit ≤ addr) :
    v.writeBytes bytes = v := by
  induction bytes with
  | nil => rfl
  | cons c bytes ih =>
    have stuck : v.writeByte c = v := by
      have invalid : ¬v.isValidAddr addr = true := by
        simp only [isValidAddr, Bool.and_eq_true, decide_eq_true_eq]
        omega
      simp [writeByte, here, invalid]
    rw [writeBytes, foldl_cons, stuck]
    exact ih

theorem writeBytes_take (here : v.addr = some addr) (low : v.begin ≤ addr)
    (high : addr ≤ v.limit) :
    v.writeBytes bytes = v.writeBytes (bytes.take (v.limit - addr)) := by
  rcases le_total bytes.length (v.limit - addr) with fits | excess
  · rw [take_of_length_le fits]
  · have length : (bytes.take (v.limit - addr)).length = v.limit - addr := by
      rw [length_take]
      omega
    have taken := @writeBytes_fits v addr (bytes.take (v.limit - addr)) here low
      (by rw [length]; omega)
    calc v.writeBytes bytes
        = v.writeBytes (bytes.take (v.limit - addr) ++ bytes.drop (v.limit - addr)) := by
          rw [take_append_drop]
      _ = v.writeBytes (bytes.take (v.limit - addr)) := by
          rw [writeBytes_append, taken]
          apply writeBytes_stuck rfl
          rw [length]
          show v.limit ≤ addr + (v.limit - addr)
          omega

def passed (v : Nvdata) (addr : Nat) (sum : ULong) : Nvdata :=
  { v with crc := sum, addr := some addr }

theorem readByte_valid (here : v.addr = some addr) (low : v.begin ≤ addr)
    (high : addr < v.limit) :
    v.readByte = (v.byte addr, v.passed (addr + 1) (crc32VakByte v.crc (v.byte addr))) := by
  have valid : v.isValidAddr addr = true := by
    simp only [isValidAddr, Bool.and_eq_true, decide_eq_true_eq]
    omega
  simp [readByte, here, valid, passed]

theorem readMem_valid (here : v.addr = some addr) (low : v.begin ≤ addr)
    (fits : addr + n ≤ v.limit) :
    v.readMem n =
      (contents v.byte addr n, v.passed (addr + n) (crcAll v.crc (contents v.byte addr n))) := by
  induction n generalizing v addr with
  | zero => simp [readMem, contents, crcAll, passed, ← here]
  | succ n ih =>
    have first := readByte_valid here low (by omega)
    have next : addr + (n + 1) = addr + 1 + n := by omega
    set rest := v.passed (addr + 1) (crc32VakByte v.crc (v.byte addr)) with rest_eq
    have later := @ih rest (addr + 1) rfl (Nat.le_succ_of_le low)
      (show addr + 1 + n ≤ v.limit by omega)
    rw [readMem, first]
    simp only [later]
    rw [next]
    rfl

theorem cleaned_readByte (here : v.addr = some addr) (low : v.begin ≤ addr)
    (inside : addr + 1 ≤ v.limit) :
    (let (c, v) := v.readByte
      if isDamaged c then ((0 : UChar), { v with crc := v.crc ^^^ 0xdead }) else (c, v)) =
      (cleaned (v.byte addr), v.passed (addr + 1) (crcStr v.crc (v.byte addr))) := by
  rw [readByte_valid here low inside]
  simp only [cleaned, crcStr]
  split <;> rfl

theorem readStr_valid (here : v.addr = some addr) (low : v.begin ≤ addr)
    (fits : addr + n ≤ v.limit) :
    v.readStr n = ((contents v.byte addr n).map cleaned,
      v.passed (addr + n) ((contents v.byte addr n).foldl crcStr v.crc)) := by
  induction n generalizing v addr with
  | zero => simp [readStr, contents, passed, ← here]
  | succ n ih =>
    have step := cleaned_readByte here low (by omega)
    have next : addr + (n + 1) = addr + 1 + n := by omega
    have later := @ih (v.passed (addr + 1) (crcStr v.crc (v.byte addr))) (addr + 1) rfl
      (Nat.le_succ_of_le low) (show addr + 1 + n ≤ v.limit by omega)
    rw [readStr]
    simp only at step
    simp only [step, later, next]
    rfl

theorem readWord_valid (here : v.addr = some addr) (low : v.begin ≤ addr)
    (fits : addr + 2 ≤ v.limit) :
    v.readWord = (wordValue (contents v.byte addr 2),
      v.passed (addr + 2) (crcAll v.crc (contents v.byte addr 2))) := by
  have first := readByte_valid here low (by omega)
  set rest := v.passed (addr + 1) (crc32VakByte v.crc (v.byte addr)) with rest_eq
  have second := @readByte_valid rest (addr + 1) rfl (Nat.le_succ_of_le low)
    (show addr + 1 < v.limit by omega)
  rw [readWord, first]
  simp only [second]
  rfl

theorem readDword_valid (here : v.addr = some addr) (low : v.begin ≤ addr)
    (fits : addr + 4 ≤ v.limit) :
    v.readDword = (dwordValue (contents v.byte addr 4),
      v.passed (addr + 4) (crcAll v.crc (contents v.byte addr 4))) := by
  have first := readWord_valid here low (by omega)
  set rest := v.passed (addr + 2) (crcAll v.crc (contents v.byte addr 2)) with rest_eq
  have second := @readWord_valid rest (addr + 2) rfl (show v.begin ≤ addr + 2 by omega)
    (show addr + 2 + 2 ≤ v.limit by omega)
  have whole : contents v.byte addr 4 = contents v.byte addr 2 ++ contents v.byte (addr + 2) 2 :=
    @contents_add v.byte addr 2 2
  have value : dwordValue (contents v.byte addr 4) =
      wordValue (contents v.byte addr 2) + wordValue (contents v.byte (addr + 2) 2) <<< 16 := rfl
  rw [readDword, first]
  simp only [second]
  rw [value, whole, crcAll_append]
  rfl

theorem read_valid (field : Field) (here : v.addr = some addr) (low : v.begin ≤ addr)
    (fits : addr + field.size ≤ v.limit) :
    v.read field = (field.decode (field.filter (contents v.byte addr field.size)),
      v.passed (addr + field.size) (field.sum v.crc (contents v.byte addr field.size))) := by
  cases field with
  | byte => rw [read, readByte_valid here low (by exact fits)]; rfl
  | bool => rw [read, readBool, readByte_valid here low (by exact fits)]; rfl
  | word => rw [read, readWord_valid here low fits]; rfl
  | dword => rw [read, readDword_valid here low fits]; rfl
  | mem len => rw [read, readMem_valid here low (show addr + len ≤ v.limit from fits)]; rfl
  | str maxlen =>
    rw [read, readStr_valid here low (show addr + maxlen ≤ v.limit from fits)]
    rfl

end Nvdata

def sizeAll (fields : List Field) : Nat :=
  (fields.map Field.size).sum

def decodeAll : List Field → List UChar → List Value
  | [], _ => []
  | field :: fields, bytes =>
    field.decode (bytes.take field.size) :: decodeAll fields (bytes.drop field.size)

/-- The values that typed reads return for the bytes of fields. -/
def receiveAll : List Field → List UChar → List Value
  | [], _ => []
  | field :: fields, bytes =>
    field.decode (field.filter (bytes.take field.size)) ::
      receiveAll fields (bytes.drop field.size)

def sumAll (sum : ULong) : List Field → List UChar → ULong
  | [], _ => sum
  | field :: fields, bytes =>
    sumAll (field.sum sum (bytes.take field.size)) fields (bytes.drop field.size)

/-- No string has a byte that typed reads take for a damaged one. -/
def Intact : List Field → List UChar → Prop
  | [], _ => True
  | field :: fields, bytes =>
    field.filter (bytes.take field.size) = bytes.take field.size ∧
      Intact fields (bytes.drop field.size)

theorem Field.decode_filter (field : Field) (bytes : List UChar) :
    field.decode (field.filter bytes) = field.decode bytes ↔ field.filter bytes = bytes := by
  cases field with
  | str maxlen => exact ⟨Value.buf.inj, congrArg Value.buf⟩
  | _ => exact ⟨fun _ => rfl, fun _ => rfl⟩

variable {bytes : List UChar} {sum : ULong}

theorem receiveAll_eq_iff {fields : List Field} :
    receiveAll fields bytes = decodeAll fields bytes ↔ Intact fields bytes := by
  induction fields generalizing bytes with
  | nil => exact ⟨fun _ => trivial, fun _ => rfl⟩
  | cons field fields ih =>
    rw [receiveAll, decodeAll, List.cons.injEq, ih, Field.decode_filter, Intact]

theorem crcStr_eq (same : bytes.map cleaned = bytes) :
    bytes.foldl crcStr sum = crcAll sum bytes := by
  induction bytes generalizing sum with
  | nil => rfl
  | cons c bytes ih =>
    rw [map_cons, List.cons.injEq] at same
    have healthy : Nvdata.isDamaged c = false := by
      rcases damaged : Nvdata.isDamaged c with _ | _
      · rfl
      · have zero : c = 0 := by simpa [cleaned, damaged] using same.1.symm
        rw [zero] at damaged
        exact absurd damaged (by decide)
    rw [foldl_cons, crcAll, foldl_cons, ih same.2]
    simp [crcStr, healthy, crcAll]

theorem Field.sum_eq {field : Field} (same : field.filter bytes = bytes) :
    field.sum sum bytes = crcAll sum bytes := by
  cases field with
  | str maxlen => exact crcStr_eq same
  | _ => rfl

theorem sumAll_eq {fields : List Field} (intact : Intact fields bytes)
    (length : bytes.length = sizeAll fields) :
    sumAll sum fields bytes = crcAll sum bytes := by
  induction fields generalizing sum bytes with
  | nil =>
    obtain rfl : bytes = [] := eq_nil_of_length_eq_zero length
    rfl
  | cons field fields ih =>
    have rest : (bytes.drop field.size).length = sizeAll fields := by
      rw [length_drop, length, sizeAll, sizeAll, map_cons, sum_cons]
      omega
    rw [sumAll, Field.sum_eq intact.1, ih intact.2 rest, ← crcAll_append, take_append_drop]

namespace Nvdata

variable {v : Nvdata} {addr n : Nat}

theorem readAll_valid (fields : List Field) (here : v.addr = some addr) (low : v.begin ≤ addr)
    (fits : addr + sizeAll fields ≤ v.limit) :
    v.readAll fields = (receiveAll fields (contents v.byte addr (sizeAll fields)),
      v.passed (addr + sizeAll fields)
        (sumAll v.crc fields (contents v.byte addr (sizeAll fields)))) := by
  induction fields generalizing v addr with
  | nil => simp [readAll, receiveAll, sumAll, sizeAll, passed, ← here]
  | cons field fields ih =>
    have total : sizeAll (field :: fields) = field.size + sizeAll fields := by
      simp [sizeAll]
    rw [total] at fits ⊢
    have first := read_valid field here low (by omega)
    set rest := v.passed (addr + field.size)
      (field.sum v.crc (contents v.byte addr field.size)) with rest_eq
    have later := @ih rest (addr + field.size) rfl (show v.begin ≤ addr + field.size by omega)
      (show addr + field.size + sizeAll fields ≤ v.limit by omega)
    rw [readAll, first]
    simp only [later]
    rw [contents_add, receiveAll, sumAll, take_left' length_contents,
      drop_left' length_contents, ← Nat.add_assoc]
    rfl

/-- Where a byte read ends, and that it changes nothing but the checksum. -/
structure Advances (v : Nvdata) (n : Nat) (v' : Nvdata) : Prop where
  addr : ∀ addr, v.addr = some addr → v.begin ≤ addr → addr ≤ v.limit →
    v'.addr = some (min (addr + n) v.limit)
  begin : v'.begin = v.begin
  limit : v'.limit = v.limit

theorem Advances.refl (v : Nvdata) : Advances v 0 v where
  addr addr here _ high := by rw [here, Nat.add_zero, Nat.min_eq_left high]
  begin := rfl
  limit := rfl

theorem Advances.trans {v' v'' : Nvdata} {m : Nat} (first : Advances v n v')
    (second : Advances v' m v'') : Advances v (n + m) v'' where
  addr addr here low high := by
    have middle := first.addr addr here low high
    rw [second.addr _ middle (by rw [first.begin]; omega) (by rw [first.limit]; omega),
      first.limit]
    congr 1
    omega
  begin := second.begin.trans first.begin
  limit := second.limit.trans first.limit

theorem readByte_advances (v : Nvdata) : Advances v 1 v.readByte.2 := by
  rcases here : v.addr with _ | addr
  · simp only [readByte, here]
    exact ⟨fun addr same => by simp [here] at same, rfl, rfl⟩
  · rcases valid : v.isValidAddr addr with _ | _
    · simp only [readByte, here, valid, Bool.false_eq_true, if_false]
      refine ⟨fun other same low high => ?_, rfl, rfl⟩
      obtain rfl : addr = other := Option.some.inj (here.symm.trans same)
      have outside : ¬(v.begin ≤ addr ∧ addr < v.limit) := by
        simpa [isValidAddr] using valid
      rw [here]
      congr 1
      omega
    · simp only [readByte, here, valid, if_true]
      refine ⟨fun other same low high => ?_, rfl, rfl⟩
      obtain rfl : addr = other := Option.some.inj (here.symm.trans same)
      have inside : v.begin ≤ addr ∧ addr < v.limit := by
        simpa [isValidAddr] using valid
      change some (addr + 1) = _
      congr 1
      omega

theorem readWord_advances (v : Nvdata) : Advances v 2 v.readWord.2 :=
  (readByte_advances v).trans (readByte_advances _)

theorem readMem_advances (v : Nvdata) (n : Nat) : Advances v n (v.readMem n).2 := by
  induction n generalizing v with
  | zero => exact .refl v
  | succ n ih =>
    have whole := (readByte_advances v).trans (ih v.readByte.2)
    rw [Nat.add_comm 1 n] at whole
    exact whole

theorem readStr_advances (v : Nvdata) (n : Nat) : Advances v n (v.readStr n).2 := by
  induction n generalizing v with
  | zero => exact .refl v
  | succ n ih =>
    set turn := if isDamaged v.readByte.1 then
      ((0 : UChar), { v.readByte.2 with crc := v.readByte.2.crc ^^^ 0xdead }) else v.readByte
      with turn_eq
    have first : Advances v 1 turn.2 := by
      rw [turn_eq]
      split
      · exact { readByte_advances v with }
      · exact readByte_advances v
    have whole := first.trans (ih turn.2)
    rw [Nat.add_comm 1 n] at whole
    exact whole

theorem read_advances (v : Nvdata) (field : Field) : Advances v field.size (v.read field).2 := by
  cases field with
  | byte => exact readByte_advances v
  | bool => exact readByte_advances v
  | word => exact readWord_advances v
  | dword => exact (readWord_advances v).trans (readWord_advances _)
  | mem len => exact readMem_advances v len
  | str maxlen => exact readStr_advances v maxlen

theorem readAll_advances (v : Nvdata) (fields : List Field) :
    Advances v (sizeAll fields) (v.readAll fields).2 := by
  induction fields generalizing v with
  | nil => exact .refl v
  | cons field fields ih =>
    have total : sizeAll (field :: fields) = field.size + sizeAll fields := by
      simp [sizeAll]
    rw [total]
    exact (read_advances v field).trans (ih _)

end Nvdata
end Uos.Nvram
