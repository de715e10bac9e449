import Uos.Nvram.Transactions

/-!
# Records that are read back

A write transaction and the update transactions behind it leave a record that a read transaction
accepts, with the bytes that were written last at each place.
-/

namespace Uos.Nvram

open List

def patched (data : List UChar) (offset : Nat) (bytes : List UChar) : List UChar :=
  data.take offset ++ bytes ++ data.drop (offset + bytes.length)

theorem length_patched {data bytes : List UChar} {offset : Nat}
    (fits : offset + bytes.length ≤ data.length) :
    (patched data offset bytes).length = data.length := by
  rw [patched, length_append, length_append, length_take, length_drop]
  omega

/-- The bytes behind some updates, each at its address in the record. -/
def patchedAll (data : List UChar) (updates : List (Nat × List Item)) : List UChar :=
  updates.foldl (fun data update => patched data (update.1 - headerSize) (bytesOf update.2)) data

/-- The updates stay in a record with this much data. -/
def Within (length : Nat) (updates : List (Nat × List Item)) : Prop :=
  ∀ update ∈ updates,
    headerSize ≤ update.1 ∧ update.1 + (bytesOf update.2).length ≤ headerSize + length

section Memory

variable {byte : Nat → UChar} {start offset n m : Nat} {data bytes : List UChar}

theorem contents_split (below : n ≤ m) :
    contents byte start m = contents byte start n ++ contents byte (start + n) (m - n) := by
  rw [← contents_add, Nat.add_sub_cancel' below]

theorem take_contents (below : n ≤ m) :
    (contents byte start m).take n = contents byte start n := by
  rw [contents_split below, take_left' length_contents]

theorem drop_contents (below : n ≤ m) :
    (contents byte start m).drop n = contents byte (start + n) (m - n) := by
  rw [contents_split below, drop_left' length_contents]

theorem contents_patched (before : contents byte start data.length = data)
    (fits : offset + bytes.length ≤ data.length) :
    contents (overlay byte (start + offset) bytes) start data.length =
      patched data offset bytes := by
  have first : contents byte start offset = data.take offset := by
    rw [← @take_contents byte start offset data.length (by omega), before]
  have last : contents byte (start + (offset + bytes.length))
      (data.length - (offset + bytes.length)) = data.drop (offset + bytes.length) := by
    rw [← drop_contents fits, before]
  rw [contents_split fits, contents_add, contents_overlay_of_disjoint (.inl le_rfl),
    contents_overlay, contents_overlay_of_disjoint (.inr (by omega)), first, last, patched]

end Memory

namespace Nvdata

/-- A region holds data and its length. -/
structure Laid (v : Nvdata) (data : List UChar) : Prop where
  room : v.begin + headerSize + data.length < v.limit
  length : contents v.byte (v.begin + 4) 2 = wordBytes (.ofNat 16 (headerSize + data.length))
  holds : v.dataOf data.length = data

/-- A region holds a record. -/
structure Stored (v : Nvdata) (sign : Nat) (data : List UChar) : Prop extends Laid v data where
  offset : v.offsetOf = 0
  signed : v.signOf = sign ^^^ 0xdead
  crc : v.crcOf = (crcAll crcStart (data ++ trailer sign (headerSize + data.length))).toNat

/-- A signature whose stored form means neither an empty nor a dead record. -/
def Usable (sign : Nat) : Prop :=
  sign < 65536 ∧ sign ≠ 0 ∧ sign ≠ 0xdead ∧ sign ≠ 0x2152

variable {config : Config} {v v' : Nvdata} {sign soft addr : Nat} {data : List UChar}
  {items : List Item} {fields : List Field}

theorem Laid.lengthOf (laid : Laid v data) :
    v.lengthOf = (headerSize + data.length) % 65536 := by
  rw [Nvdata.lengthOf, laid.length, wordValue_wordBytes, BitVec.toNat_ofNat]

theorem signOf_xor (stored : v.signOf = sign ^^^ 0xdead) : v.signOf ^^^ 0xdead = sign := by
  rw [stored, Nat.xor_assoc, Nat.xor_self, Nat.xor_zero]

theorem Usable.opens (usable : Usable sign) (stored : v.signOf = sign ^^^ 0xdead) :
    (v.signOf ≠ 0 ∧ v.signOf ≠ 0xffff) ∧ v.signOf ^^^ 0xdead ≠ 0 := by
  obtain ⟨-, positive, alive, written⟩ := usable
  have back := signOf_xor stored
  refine ⟨⟨fun zero => ?_, fun ones => ?_⟩, fun zero => ?_⟩
  · rw [zero] at back
    exact alive back.symm
  · rw [ones] at back
    exact written back.symm
  · rw [back] at zero
    exact positive zero

theorem Stored.reads (stored : Stored v sign data) (usable : Usable sign)
    (small : headerSize + data.length < 65536) (compatible : config.isCompatible sign soft = true)
    (size : sizeAll fields = data.length) :
    v.readTransaction config soft fields = some (decodeAll fields data) ↔ Intact fields data := by
  have room := stored.room
  have length := stored.lengthOf
  rw [Nat.mod_eq_of_lt small] at length
  rw [readTransaction_eq_some (by omega), size, stored.holds, receiveAll_eq_iff]
  refine ⟨fun success => success.2.2.2.2, fun intact => ?_⟩
  obtain ⟨written, alive⟩ := usable.opens stored.signed
  have opens : Opens config v soft :=
    ⟨stored.offset, written, alive, by rw [signOf_xor stored.signed]; exact compatible,
      by omega, by omega⟩
  refine ⟨opens, room, length, ?_, intact⟩
  have trailers : v.readTrailer = trailer sign (headerSize + data.length) := by
    rw [readTrailer, signOf_xor stored.signed, stored.length, trailer]
  rw [stored.crc, crcAll_append, sumAll_eq intact size.symm, trailers]

theorem Stored.unreadable (stored : Stored v sign data)
    (long : 65536 ≤ headerSize + data.length) (size : sizeAll fields = data.length) :
    v.readTransaction config soft fields = none := by
  have room := stored.room
  have short : v.lengthOf < 65536 := by
    rw [stored.lengthOf]
    exact Nat.mod_lt _ (by decide)
  rw [Option.eq_none_iff_forall_ne_some]
  intro values success
  have length := ((readTransaction_eq_some (by omega)).mp success).2.2.1
  omega

theorem taint_length : (taint config).length ≤ 2 := by
  rw [taint]
  split <;> simp [wordBytes]

theorem healed_length : (healed config sign).length ≤ 2 := by
  rw [healed]
  split <;> simp [wordBytes]

theorem wordBytes_length (val : UShort) : (wordBytes val).length = 2 :=
  rfl

theorem dwordBytes_length (val : ULong) : (dwordBytes val).length = 4 :=
  rfl

theorem signed_word (bounded : sign < 65536) :
    (BitVec.ofNat 16 (sign ^^^ 0xdead)).toNat = sign ^^^ 0xdead := by
  rw [BitVec.toNat_ofNat]
  exact Nat.mod_eq_of_lt (@Nat.xor_lt_two_pow sign 0xdead 16 bounded (by decide))

theorem writeTransaction_byte
    (fits : v.begin + headerSize + (bytesOf items).length < v.limit) :
    (v.writeTransaction config items sign).2.byte =
      overlay (overlay (overlay (overlay (overlay (overlay v.byte v.begin (wordBytes 0))
        (v.begin + 2) (taint config)) (v.begin + headerSize) (bytesOf items))
        (v.begin + 4) (wordBytes (.ofNat 16 (headerSize + (bytesOf items).length))))
        (v.begin + 6) (dwordBytes (crcAll (crcAll crcStart (bytesOf items))
          (trailer sign (headerSize + (bytesOf items).length)))))
        (v.begin + 2) (wordBytes (.ofNat 16 (sign ^^^ 0xdead))) := by
  have logs := (@writeTransaction_fits config v sign items (by omega) fits).2.1
  rw [logs.byte, sealing, applied_append, applied_append, applied_append, applied_append,
    applied_placed, applied_placed, applied_placed, applied_placed, applied_placed, overlay_append]
  rfl

theorem writeTransaction_laid
    (fits : v.begin + headerSize + (bytesOf items).length < v.limit) :
    Laid (v.writeTransaction config items sign).2 (bytesOf items) := by
  have header : headerSize = 10 := rfl
  have logs := (@writeTransaction_fits config v sign items (by omega) fits).2.1
  have bytes := @writeTransaction_byte config v sign items fits
  refine ⟨by rw [logs.begin, logs.limit]; exact fits, ?_, ?_⟩
  · rw [logs.begin, bytes, contents_overlay_of_disjoint (.inr (by rw [wordBytes_length])),
      contents_overlay_of_disjoint (.inl (by omega))]
    exact contents_overlay
  · rw [dataOf, logs.begin, bytes,
      contents_overlay_of_disjoint (.inr (by rw [wordBytes_length]; omega)),
      contents_overlay_of_disjoint (.inr (by rw [dwordBytes_length]; omega)),
      contents_overlay_of_disjoint (.inr (by rw [wordBytes_length]; omega))]
    exact contents_overlay

theorem writeTransaction_stored (bounded : sign < 65536)
    (fits : v.begin + headerSize + (bytesOf items).length < v.limit) :
    Stored (v.writeTransaction config items sign).2 sign (bytesOf items) := by
  have header : headerSize = 10 := rfl
  have logs := (@writeTransaction_fits config v sign items (by omega) fits).2.1
  have bytes := @writeTransaction_byte config v sign items fits
  refine ⟨writeTransaction_laid fits, ?_, ?_, ?_⟩
  · rw [offsetOf, logs.begin, bytes, contents_overlay_of_disjoint (.inl (by omega)),
      contents_overlay_of_disjoint (.inl (by omega)),
      contents_overlay_of_disjoint (.inl (by omega)),
      contents_overlay_of_disjoint (.inl (by omega)),
      contents_overlay_of_disjoint (.inl le_rfl)]
    exact (congrArg wordValue contents_overlay).trans (wordValue_wordBytes 0)
  · rw [signOf, logs.begin, bytes]
    exact ((congrArg wordValue contents_overlay).trans (wordValue_wordBytes _)).trans
      (signed_word bounded)
  · rw [crcOf, logs.begin, bytes,
      contents_overlay_of_disjoint (.inr (by rw [wordBytes_length]; omega)), crcAll_append]
    exact (congrArg dwordValue contents_overlay).trans (dwordValue_dwordBytes _)

/-- The state between transactions that keep a record. -/
structure Keeps (v : Nvdata) (sign : Nat) (data : List UChar) : Prop where
  stored : Stored v sign data
  idle : v.addr = none
  ends : v.endAddr = v.begin + headerSize + data.length
  sign : v.sign = sign

def updating (config : Config) (begin sign addr : Nat) (bytes data : List UChar) :
    List (Nat × UChar) :=
  placed (begin + 2) (taint config) ++ placed (begin + addr) bytes ++
    resealing config begin sign (crcAll crcStart
      (patched data (addr - headerSize) bytes ++ trailer sign (headerSize + data.length)))

theorem updateTransaction_logs (laid : Laid v data) (idle : v.addr = none)
    (ends : v.endAddr = v.begin + headerSize + data.length) (low : headerSize ≤ addr)
    (high : addr + (bytesOf items).length ≤ headerSize + data.length) :
    ∃ v', v.updateTransaction config addr items = some (.ok, v') ∧
      Logs v (updating config v.begin v.sign addr (bytesOf items) data) v' ∧
      v'.addr = none ∧ v'.endAddr = v.endAddr ∧ v'.sign = v.sign := by
  have header : headerSize = 10 := rfl
  have room := laid.room
  obtain ⟨v₁, begins, marks, here, sum, end₁, sign₁⟩ :=
    @beginUpdate_logs config v addr (by omega) idle low (by omega) (by omega)
  have low₁ : v₁.begin ≤ v.begin + addr := by
    rw [marks.begin]
    exact Nat.le_add_right ..
  have fits₁ : v.begin + addr + (bytesOf items).length ≤ v₁.limit := by
    rw [marks.limit]
    omega
  have fills := writeBytes_logs here low₁ fits₁
  have filled := writeBytes_fits here low₁ fits₁
  set v₂ := v₁.writeBytes (bytesOf items)
  have logs₂ := marks.trans fills
  have end₂ : v₂.endAddr = v.endAddr := by rw [filled]; exact end₁
  have sign₂ : v₂.sign = v.sign := by rw [filled]; exact sign₁
  have sum₂ : v₂.crc = crcAll v₁.crc (bytesOf items) := by rw [filled]
  have stop₂ : v₂.addr = some (v.begin + addr + (bytesOf items).length) := by rw [filled]
  have begin₂ : v₂.begin = v.begin := logs₂.begin
  have limit₂ : v₂.limit = v.limit := logs₂.limit
  obtain ⟨v₃, finalizes, seals, idle₃, end₃, sign₃⟩ :=
    @finalizeUpdate_logs config v₂ _ (by omega) stop₂ (by omega) (by omega) (by omega)
  have first : v.dataOf (addr - headerSize) = data.take (addr - headerSize) := by
    conv_rhs => rw [← laid.holds, dataOf, take_contents (by omega)]
    rfl
  have bytes₂ : v₂.byte = overlay (overlay v.byte (v.begin + 2) (taint config))
      (v.begin + addr) (bytesOf items) := by
    rw [logs₂.byte, applied_append, applied_placed, applied_placed]
  have short := @taint_length config
  have last : contents v₂.byte (v.begin + addr + (bytesOf items).length)
      (v₂.endAddr - (v.begin + addr + (bytesOf items).length)) =
      data.drop (addr - headerSize + (bytesOf items).length) := by
    rw [bytes₂, contents_overlay_of_disjoint (.inr le_rfl),
      contents_overlay_of_disjoint (.inr (by omega))]
    conv_rhs => rw [← laid.holds, dataOf, drop_contents (by omega)]
    congr 1 <;> omega
  have length : contents v₂.byte (v.begin + 4) 2 =
      wordBytes (.ofNat 16 (headerSize + data.length)) := by
    rw [bytes₂, contents_overlay_of_disjoint (.inl (by omega)),
      contents_overlay_of_disjoint (.inr (by omega)), laid.length]
  have whole : crcAll v₂.crc (contents v₂.byte (v.begin + addr + (bytesOf items).length)
      (v₂.endAddr - (v.begin + addr + (bytesOf items).length)) ++
        ([.ofNat 8 v₂.sign, .ofNat 8 (v₂.sign >>> 8)] ++ contents v₂.byte (v₂.begin + 4) 2)) =
      crcAll crcStart (patched data (addr - headerSize) (bytesOf items) ++
        trailer v.sign (headerSize + data.length)) := by
    rw [sum₂, sum, first, last, begin₂, length, sign₂, ← crcAll_append, ← crcAll_append, patched,
      trailer]
    simp only [append_assoc]
  rw [whole, begin₂, sign₂] at seals
  refine ⟨v₃, ?_, logs₂.trans seals, idle₃, end₃.trans end₂, sign₃.trans sign₂⟩
  rw [updateTransaction, begins]
  show (v₁.writeAll items).finalizeUpdate config = _
  rw [writeAll_eq]
  exact finalizes

theorem updating_byte {byte : Nat → UChar} {begin : Nat} {bytes : List UChar} :
    applied byte (updating config begin sign addr bytes data) =
      overlay (overlay (overlay (overlay byte (begin + 2) (taint config)) (begin + addr) bytes)
        (begin + 6) (dwordBytes (crcAll crcStart (patched data (addr - headerSize) bytes ++
          trailer sign (headerSize + data.length)))))
        (begin + 2) (healed config sign) := by
  rw [updating, resealing, applied_append, applied_append, applied_append, applied_placed,
    applied_placed, applied_placed, applied_placed]

theorem Laid.updated (laid : Laid v data) {v' : Nvdata} {bytes : List UChar}
    (logs : Logs v (updating config v.begin sign addr bytes data) v') (low : headerSize ≤ addr)
    (high : addr + bytes.length ≤ headerSize + data.length) :
    Laid v' (patched data (addr - headerSize) bytes) := by
  have header : headerSize = 10 := rfl
  have inside : addr - headerSize + bytes.length ≤ data.length := by omega
  have size := @length_patched data bytes (addr - headerSize) inside
  have memory := logs.byte
  rw [updating_byte] at memory
  have short := @taint_length config
  have short' := @healed_length config sign
  refine ⟨?_, ?_, ?_⟩
  · rw [logs.begin, logs.limit, size]
    exact laid.room
  · rw [logs.begin, memory, size, contents_overlay_of_disjoint (.inr (by omega)),
      contents_overlay_of_disjoint (.inl (by omega)),
      contents_overlay_of_disjoint (.inl (by omega)),
      contents_overlay_of_disjoint (.inr (by omega))]
    exact laid.length
  · have before : contents (overlay v.byte (v.begin + 2) (taint config)) (v.begin + headerSize)
        data.length = data := by
      rw [contents_overlay_of_disjoint (.inr (by omega))]
      exact laid.holds
    have place : v.begin + addr = v.begin + headerSize + (addr - headerSize) := by omega
    rw [dataOf, logs.begin, memory, size, contents_overlay_of_disjoint (.inr (by omega)),
      contents_overlay_of_disjoint (.inr (by rw [dwordBytes_length]; omega)), place]
    exact contents_patched before inside

theorem updateTransaction_keeps (keeps : Keeps v sign data) (bounded : sign < 65536)
    (low : headerSize ≤ addr)
    (high : addr + (bytesOf items).length ≤ headerSize + data.length) :
    ∃ v', v.updateTransaction config addr items = some (.ok, v') ∧
      Keeps v' sign (patched data (addr - headerSize) (bytesOf items)) := by
  have header : headerSize = 10 := rfl
  have laid := keeps.stored.toLaid
  obtain ⟨v', updates, logs, idle, ends, signed⟩ :=
    @updateTransaction_logs config v addr data items laid keeps.idle keeps.ends low high
  rw [keeps.sign] at logs signed
  have inside : addr - headerSize + (bytesOf items).length ≤ data.length := by omega
  have size := @length_patched data (bytesOf items) (addr - headerSize) inside
  have memory := logs.byte
  rw [updating_byte] at memory
  have short := @taint_length config
  have short' := @healed_length config sign
  refine ⟨v', updates, ⟨⟨laid.updated logs low high, ?_, ?_, ?_⟩, idle, ?_, signed⟩⟩
  · rw [offsetOf, logs.begin, memory, contents_overlay_of_disjoint (.inl le_rfl),
      contents_overlay_of_disjoint (.inl (by omega)),
      contents_overlay_of_disjoint (.inl (by omega)), contents_overlay_of_disjoint (.inl le_rfl)]
    exact keeps.stored.offset
  · rw [signOf, logs.begin, memory, healed, taint]
    split
    · exact ((congrArg wordValue contents_overlay).trans (wordValue_wordBytes _)).trans
        (signed_word bounded)
    · rw [overlay, overlay, contents_overlay_of_disjoint (.inl (by omega)),
        contents_overlay_of_disjoint (.inl (by omega))]
      exact keeps.stored.signed
  · rw [crcOf, logs.begin, memory, size, contents_overlay_of_disjoint (.inr (by omega))]
    exact (congrArg dwordValue contents_overlay).trans (dwordValue_dwordBytes _)
  · rw [ends, logs.begin, size]
    exact keeps.ends

def updateAll (config : Config) (v : Nvdata) : List (Nat × List Item) → Option Nvdata
  | [] => some v
  | (addr, items) :: updates => do
    let (reason, v) ← v.updateTransaction config addr items
    if reason = .ok then v.updateAll config updates else none

theorem updateAll_keeps {updates : List (Nat × List Item)} (keeps : Keeps v sign data)
    (bounded : sign < 65536) (within : Within data.length updates) :
    ∃ v', v.updateAll config updates = some v' ∧ Keeps v' sign (patchedAll data updates) ∧
      (patchedAll data updates).length = data.length := by
  induction updates generalizing v data with
  | nil => exact ⟨v, rfl, keeps, rfl⟩
  | cons update updates ih =>
    obtain ⟨addr, items⟩ := update
    have header : headerSize = 10 := rfl
    have low : headerSize ≤ addr := (within (addr, items) mem_cons_self).1
    have high : addr + (bytesOf items).length ≤ headerSize + data.length :=
      (within (addr, items) mem_cons_self).2
    have size := @length_patched data (bytesOf items) (addr - headerSize) (by omega)
    obtain ⟨v₁, first, keeps₁⟩ :=
      @updateTransaction_keeps config v sign addr data items keeps bounded low high
    have within₁ : Within (patched data (addr - headerSize) (bytesOf items)).length updates := by
      intro update member
      rw [size]
      exact within update (mem_cons_of_mem _ member)
    obtain ⟨v', rest, keeps', size'⟩ := ih keeps₁ within₁
    refine ⟨v', ?_, keeps', size'.trans size⟩
    rw [updateAll, first]
    exact rest

theorem bytesOf_length : (bytesOf items).length = sizeAll (items.map Item.field) := by
  induction items with
  | nil => rfl
  | cons item items ih =>
    rw [bytesOf, flatMap_cons, length_append, Item.length_bytes]
    rw [bytesOf] at ih
    rw [ih, map_cons, sizeAll, sizeAll, map_cons, sum_cons]

theorem writeTransaction_keeps (bounded : sign < 65536) (room : v.begin + headerSize ≤ v.limit)
    (success : (v.writeTransaction config items sign).1 = .ok) :
    Keeps (v.writeTransaction config items sign).2 sign (bytesOf items) := by
  rcases lt_or_ge (v.begin + headerSize + (bytesOf items).length) v.limit with fits | excess
  · obtain ⟨-, logs, idle, ends, signed⟩ := @writeTransaction_fits config v sign items room fits
    exact ⟨writeTransaction_stored bounded fits, idle, by rw [ends, logs.begin], signed⟩
  · have full := (@writeTransaction_excess config v sign items room excess).1
    rw [full] at success
    contradiction

end Nvdata

open Nvdata

/-- Transactions round-trip: behind a write that succeeds and updates that stay in the data, a
reader of the same fields gets the bytes written last at each place, exactly when these leave no
damaged string.  The record is to be shorter than its length word can tell. -/
theorem reads_written_last {config : Config} {v : Nvdata} {items : List Item} {sign soft : Nat}
    {updates : List (Nat × List Item)} (region : v.begin + 255 < v.limit) (usable : Usable sign)
    (compatible : config.isCompatible sign soft = true)
    (success : (v.writeTransaction config items sign).1 = .ok)
    (within : Within (bytesOf items).length updates)
    (small : headerSize + (bytesOf items).length < 65536) :
    ∃ v', (v.writeTransaction config items sign).2.updateAll config updates = some v' ∧
      (v'.readTransaction config soft (items.map Item.field) =
          some (decodeAll (items.map Item.field) (patchedAll (bytesOf items) updates)) ↔
        Intact (items.map Item.field) (patchedAll (bytesOf items) updates)) := by
  have header : headerSize = 10 := rfl
  have keeps := writeTransaction_keeps usable.1 (by omega) success
  obtain ⟨v', updated, keeps', size⟩ := @updateAll_keeps config _ _ _ updates keeps usable.1 within
  refine ⟨v', updated, keeps'.stored.reads usable ?_ compatible ?_⟩
  · rw [size]
    exact small
  · rw [size, bytesOf_length]

def plain : Config where
  writeTaint := true
  readTaint := false
  isCompatible := nvdataIsCompatible

def blank : Nvdata :=
  nvdataInit (fun _ => 0xff) 0 256

/-- A record with a string and a word, and an update of the word. -/
theorem reads_written_last_word :
    ∃ v', (blank.writeTransaction plain [.str [0x41] 2, .word 0x1234] 0x10).2.updateAll plain
        [(12, [.word 0xbeef])] = some v' ∧
      (v'.readTransaction plain 0x11 ([Item.str [0x41] 2, .word 0x1234].map Item.field) =
          some (decodeAll ([Item.str [0x41] 2, .word 0x1234].map Item.field)
            (patchedAll (bytesOf [.str [0x41] 2, .word 0x1234]) [(12, [.word 0xbeef])])) ↔
        Intact ([Item.str [0x41] 2, .word 0x1234].map Item.field)
          (patchedAll (bytesOf [.str [0x41] 2, .word 0x1234]) [(12, [.word 0xbeef])])) := by
  apply reads_written_last
  · decide
  · exact ⟨by decide, by decide, by decide, by decide⟩
  · decide
  · decide +kernel
  · intro update member
    obtain rfl : update = (12, [.word 0xbeef]) := mem_singleton.mp member
    exact ⟨by decide, by decide⟩
  · decide

/-- A byte below the printable ones in the place of a string makes a record unreadable, and so does
a length that its word cannot tell. -/
theorem unreadable_records :
    ((blank.writeTransaction plain [.str [0x41] 2] 0x10).1 = .ok ∧
      Within (bytesOf [.str [0x41] 2]).length [(10, [.byte 1])] ∧
      ((blank.writeTransaction plain [.str [0x41] 2] 0x10).2.updateAll plain
        [(10, [.byte 1])]).isSome ∧
      ((blank.writeTransaction plain [.str [0x41] 2] 0x10).2.updateAll plain
        [(10, [.byte 1])]).bind (fun v => v.readTransaction plain 0x10 [.str 2]) = none) ∧
    (((nvdataInit (fun _ => 0xff) 0 0x20000).writeTransaction plain
        (.replicate 16382 (.dword 7)) 0x10).1 = .ok ∧
      ((nvdataInit (fun _ => 0xff) 0 0x20000).writeTransaction plain
        (.replicate 16382 (.dword 7)) 0x10).2.readTransaction plain 0x10
          (.replicate 16382 .dword) = none) := by
  refine ⟨⟨by decide +kernel, ?_, by decide +kernel, by decide +kernel⟩, ?_⟩
  · intro update member
    obtain rfl : update = (10, [.byte 1]) := mem_singleton.mp member
    exact ⟨by decide, by decide⟩
  · have size : sizeAll (.replicate 16382 .dword) = 65528 := by
      rw [sizeAll, map_replicate, sum_replicate_nat]
      rfl
    have length : (bytesOf (.replicate 16382 (.dword 7))).length = 65528 := by
      rw [bytesOf_length, map_replicate]
      exact size
    have header : headerSize = 10 := rfl
    set large := nvdataInit (fun _ => 0xff) 0 0x20000
    have begins : large.begin = 0 := rfl
    have ends : large.limit = 0x20000 := rfl
    have success := (@writeTransaction_fits plain large 0x10 (.replicate 16382 (.dword 7))
      (by omega) (by omega)).1
    have keeps := @writeTransaction_keeps plain large 0x10 _ (by omega) (by omega) success
    exact ⟨success, keeps.stored.unreadable (by omega) (by rw [size, length])⟩

end Uos.Nvram
