import Uos.Nvram.Roundtrip

/-!
# Interrupted transactions

A transaction marks the record as dead before it touches it, and signs it as its last step.  A loss
of power between two bytes leaves the old data, a record that a reader refuses, or the new data.
-/

namespace Uos.Nvram

open List

def deadWord : List UChar :=
  wordBytes 0xdead

section Prefixes

variable {byte : Nat → UChar} {writes mark body close : List (Nat × UChar)} {begin x addr : Nat}
  {bytes : List UChar}

theorem applied_apart (apart : ∀ write ∈ writes, write.1 ≠ x) :
    applied byte writes x = byte x := by
  induction writes generalizing byte with
  | nil => rfl
  | cons write writes ih =>
    have other : x ≠ write.1 := (apart write mem_cons_self).symm
    have rest := @ih (Function.update byte write.1 write.2)
      fun write member => apart write (mem_cons_of_mem _ member)
    exact rest.trans (Function.update_of_ne other ..)

theorem mem_placed {write : Nat × UChar} (member : write ∈ placed addr bytes) :
    addr ≤ write.1 ∧ write.1 < addr + bytes.length := by
  induction bytes generalizing addr with
  | nil => exact absurd member not_mem_nil
  | cons c bytes ih =>
    rw [length_cons]
    rcases mem_cons.mp member with rfl | later
    · omega
    · obtain ⟨low, high⟩ := ih later
      omega

/-- Writes that mark a record as dead before they touch it. -/
structure Marks (begin : Nat) (mark body : List (Nat × UChar)) : Prop where
  before : ∀ write ∈ mark, write.1 < begin + 4
  dead : ∀ byte, contents (applied byte mark) (begin + 2) 2 = deadWord
  behind : ∀ write ∈ body, begin + 4 ≤ write.1

theorem Marks.dead_behind (marks : Marks begin mark body) {part : List (Nat × UChar)}
    (inside : ∀ write ∈ part, write ∈ body) :
    contents (applied byte (mark ++ part)) (begin + 2) 2 = deadWord := by
  rw [applied_append, ← marks.dead byte]
  refine contents_congr fun x _ high => applied_apart fun write member => ?_
  have above := marks.behind write (inside write member)
  omega

theorem Marks.loss (marks : Marks begin mark body)
    (closes : ∀ write ∈ close, write.1 < begin + 4) (byte : Nat → UChar) (k : Nat) :
    (∀ x, begin + 4 ≤ x → applied byte ((mark ++ (body ++ close)).take k) x = byte x) ∨
      contents (applied byte ((mark ++ (body ++ close)).take k)) (begin + 2) 2 = deadWord ∨
      close ≠ [] ∧ ∀ x, begin + 4 ≤ x → applied byte ((mark ++ (body ++ close)).take k) x =
        applied byte (mark ++ (body ++ close)) x := by
  rw [take_append]
  rcases lt_or_ge k mark.length with early | marked
  · have none : k - mark.length = 0 := by omega
    rw [none, take_zero, append_nil]
    refine .inl fun x above => applied_apart fun write member => ?_
    have below := marks.before write (mem_of_mem_take member)
    omega
  rw [take_of_length_le marked, take_append]
  rcases le_or_gt (k - mark.length) body.length with writing | closing
  · have none : k - mark.length - body.length = 0 := by omega
    rw [none, take_zero, append_nil]
    exact .inr (.inl (marks.dead_behind fun write => mem_of_mem_take))
  rw [take_of_length_le closing.le]
  rcases eq_or_ne close [] with rfl | signs
  · rw [take_nil, append_nil]
    exact .inr (.inl (marks.dead_behind fun write => id))
  · refine .inr (.inr ⟨signs, fun x above => ?_⟩)
    have part : ∀ write ∈ close.take (k - mark.length - body.length), write.1 ≠ x := by
      intro write member
      have below := closes write (mem_of_mem_take member)
      omega
    have whole : ∀ write ∈ close, write.1 ≠ x := by
      intro write member
      have below := closes write member
      omega
    rw [← append_assoc, ← append_assoc, applied_append, applied_append _ _ close,
      applied_apart part, applied_apart whole]

/-- Writes after which a region holds a record only if they are all done. -/
inductive Guarded (begin : Nat) (reason : Reason) : List (Nat × UChar) → Prop
  | untouched : Guarded begin reason []
  | marked {mark body close : List (Nat × UChar)} (marks : Marks begin mark body)
      (closes : ∀ write ∈ close, write.1 < begin + 4) (signs : close ≠ [] → reason = .ok) :
      Guarded begin reason (mark ++ (body ++ close))

theorem Guarded.loss {reason : Reason} (guarded : Guarded begin reason writes)
    (byte : Nat → UChar) (k : Nat) :
    (∀ x, begin + 4 ≤ x → applied byte (writes.take k) x = byte x) ∨
      contents (applied byte (writes.take k)) (begin + 2) 2 = deadWord ∨
      reason = .ok ∧
        ∀ x, begin + 4 ≤ x → applied byte (writes.take k) x = applied byte writes x := by
  cases guarded with
  | untouched =>
    rw [take_nil]
    exact .inl fun x _ => rfl
  | marked marks closes signs =>
    rcases marks.loss closes byte k with old | dead | ⟨closed, new⟩
    · exact .inl old
    · exact .inr (.inl dead)
    · exact .inr (.inr ⟨signs closed, new⟩)

end Prefixes

theorem wordBytes_wordValue (low high : UChar) :
    wordBytes (.ofNat 16 (wordValue [low, high])) = [low, high] := by
  have bound := low.isLt
  have bound' := high.isLt
  have value : wordValue [low, high] = low.toNat + high.toNat * 256 := by
    rw [wordValue, Nat.shiftLeft_eq]
    rfl
  rw [wordBytes, value]
  congr 1
  · apply BitVec.eq_of_toNat_eq
    rw [UShort.low_toNat, BitVec.toNat_ofNat]
    omega
  · congr 1
    apply BitVec.eq_of_toNat_eq
    rw [UShort.high_toNat, BitVec.toNat_ofNat]
    omega

namespace Nvdata

variable {config : Config} {v v' r : Nvdata} {sign soft addr : Nat} {data : List UChar}
  {items : List Item} {fields : List Field} {values : List Value}

/-- Fields of data, as long as the length word tells, have these values. -/
def Returns (data : List UChar) (fields : List Field) (values : List Value) : Prop :=
  headerSize + sizeAll fields = (headerSize + data.length) % 65536 ∧
    receiveAll fields (data.take (sizeAll fields)) = values

theorem Laid.returns (laid : Laid v data) (begins : r.begin = v.begin) (ends : r.limit = v.limit)
    (same : ∀ x, v.begin + 4 ≤ x → r.byte x = v.byte x)
    (success : r.readTransaction config soft fields = some values) :
    Returns data fields values := by
  have header : headerSize = 10 := rfl
  have room := laid.room
  obtain ⟨-, -, length, -, received⟩ := (readTransaction_eq_some (by omega)).mp success
  have lengths : r.lengthOf = v.lengthOf := by
    rw [Nvdata.lengthOf, Nvdata.lengthOf, begins, contents_congr fun x low _ => same x low]
  have size : headerSize + sizeAll fields = (headerSize + data.length) % 65536 := by
    rw [← length, lengths, laid.lengthOf]
  have most := Nat.mod_le (headerSize + data.length) 65536
  have read : r.dataOf (sizeAll fields) = data.take (sizeAll fields) := by
    rw [← laid.holds, dataOf, dataOf, take_contents (by omega), begins]
    exact contents_congr fun x low _ => same x (by omega)
  rw [read] at received
  exact ⟨size, received⟩

theorem dead_unreadable (room : r.begin + headerSize ≤ r.limit)
    (dead : contents r.byte (r.begin + 2) 2 = deadWord) :
    r.readTransaction config soft fields = none := by
  rw [Option.eq_none_iff_forall_ne_some]
  intro values success
  obtain ⟨opens, -⟩ := (readTransaction_eq_some room).mp success
  apply opens.alive
  rw [signOf, dead]
  rfl

theorem laid_of_reads (room : v.begin + headerSize ≤ v.limit)
    (success : v.readTransaction config soft fields = some values) :
    Laid v (v.dataOf (sizeAll fields)) := by
  obtain ⟨-, fits, length, -, -⟩ := (readTransaction_eq_some room).mp success
  have size : (v.dataOf (sizeAll fields)).length = sizeAll fields := length_contents
  refine ⟨by rw [size]; exact fits, ?_, by rw [size]⟩
  rw [size, ← length, lengthOf]
  exact (wordBytes_wordValue ..).symm

theorem taint_dead (tainted : config.writeTaint = true) : taint config = deadWord :=
  if_pos tainted

theorem writeTransaction_guarded (tainted : config.writeTaint = true)
    (room : v.begin + headerSize ≤ v.limit) :
    ∃ writes, Logs v writes (v.writeTransaction config items sign).2 ∧
      Guarded v.begin (v.writeTransaction config items sign).1 writes ∧
      ((v.writeTransaction config items sign).1 = .ok →
        Laid (v.writeTransaction config items sign).2 (bytesOf items)) := by
  have header : headerSize = 10 := rfl
  have marks : ∀ body : List (Nat × UChar), (∀ write ∈ body, v.begin + 4 ≤ write.1) →
      Marks v.begin (placed v.begin (wordBytes 0 ++ taint config)) body := by
    intro body behind
    refine ⟨fun write member => (mem_placed member).2.trans_le ?_, fun byte => ?_, behind⟩
    · rw [length_append, wordBytes_length]
      have short := @taint_length config
      omega
    · rw [applied_placed, overlay_append, taint_dead tainted]
      exact contents_overlay
  rcases lt_or_ge (v.begin + headerSize + (bytesOf items).length) v.limit with fits | excess
  · obtain ⟨ok, logs, -, -, -⟩ := @writeTransaction_fits config v sign items room fits
    refine ⟨_, logs, ?_, fun _ => writeTransaction_laid fits⟩
    rw [sealing, append_assoc, ← append_assoc (placed (v.begin + headerSize) _)]
    refine .marked (marks _ fun write member => ?_) (fun write member => ?_) fun _ => ok
    · rcases mem_append.mp member with data | header
      · have low := (mem_placed data).1
        omega
      · rcases mem_append.mp header with length | sum
        · exact (mem_placed length).1
        · have low := (mem_placed sum).1
          omega
    · exact (mem_placed member).2
  · obtain ⟨eof, logs⟩ := @writeTransaction_excess config v sign items room excess
    refine ⟨_, logs, ?_, fun ok => ?_⟩
    · rw [← append_nil (placed (v.begin + headerSize) _)]
      refine .marked (marks _ fun write member => ?_) (fun write member => ?_) fun closed => ?_
      · have low := (mem_placed member).1
        omega
      · exact absurd member not_mem_nil
      · exact absurd rfl closed
    · rw [eof] at ok
      contradiction

theorem updateTransaction_excess (laid : Laid v data) (idle : v.addr = none)
    (ends : v.endAddr = v.begin + headerSize + data.length) (low : headerSize ≤ addr)
    (valid : addr ≤ headerSize + data.length)
    (excess : headerSize + data.length < addr + (bytesOf items).length) :
    ∃ v' part, v.updateTransaction config addr items = some (.eof, v') ∧
      Logs v (placed (v.begin + 2) (taint config) ++ placed (v.begin + addr) part) v' := by
  have header : headerSize = 10 := rfl
  have room := laid.room
  obtain ⟨v₁, begins, marks, here, -, end₁, -⟩ :=
    @beginUpdate_logs config v addr (by omega) idle low (by omega) (by omega)
  have low₁ : v₁.begin ≤ v.begin + addr := by
    rw [marks.begin]
    exact Nat.le_add_right ..
  have high₁ : v.begin + addr ≤ v₁.limit := by
    rw [marks.limit]
    omega
  have taken := @writeBytes_take v₁ (v.begin + addr) (bytesOf items) here low₁ high₁
  rw [marks.limit] at taken
  set part := (bytesOf items).take (v.limit - (v.begin + addr)) with part_eq
  have size : part.length = min (v.limit - (v.begin + addr)) (bytesOf items).length :=
    length_take
  have fits : v.begin + addr + part.length ≤ v₁.limit := by
    rw [marks.limit]
    omega
  have fills := writeBytes_logs here low₁ fits
  have filled := writeBytes_fits here low₁ fits
  set v₂ := v₁.writeBytes part
  have logs₂ := marks.trans fills
  have end₂ : v₂.endAddr = v.endAddr := by rw [filled]; exact end₁
  have stop₂ : v₂.addr = some (v.begin + addr + part.length) := by rw [filled]
  have begin₂ : v₂.begin = v.begin := logs₂.begin
  have ended : v₂.finalizeUpdate config = some (.eof, v₂.leave) := by
    rw [finalizeUpdate]
    split
    · rename_i gone
      rw [gone] at stop₂
      contradiction
    · rename_i stop same
      obtain rfl : stop = v.begin + addr + part.length := Option.some.inj (same.symm.trans stop₂)
      rw [if_neg (show ¬v₂.endAddr = v₂.begin by omega), if_pos (.inr (by omega))]
  refine ⟨v₂.leave, part, ?_, logs₂.still rfl rfl rfl rfl⟩
  rw [updateTransaction, begins]
  show (v₁.writeAll items).finalizeUpdate config = _
  rw [writeAll_eq, ← ended]
  exact congrArg (finalizeUpdate config) taken

theorem updateTransaction_refused
    (refused : v.endAddr = v.begin ∨ ¬(headerSize ≤ addr ∧ addr ≤ v.endAddr - v.begin)) :
    ∃ reason, reason ≠ .ok ∧ v.updateTransaction config addr items = some (reason, v) := by
  rw [updateTransaction, beginUpdate]
  split
  · exact ⟨.invalid, by decide, rfl⟩
  · rename_i ready
    rcases refused with unread | outside
    · exact absurd (.inr unread) ready
    · rw [if_pos outside]
      exact ⟨.eof, by decide, rfl⟩

theorem updateTransaction_guarded (tainted : config.writeTaint = true) (laid : Laid v data)
    (idle : v.addr = none)
    (ends : v.endAddr = v.begin ∨ v.endAddr = v.begin + headerSize + data.length) :
    ∃ reason v' writes, v.updateTransaction config addr items = some (reason, v') ∧
      Logs v writes v' ∧ Guarded v.begin reason writes ∧
      (reason = .ok → Laid v' (patched data (addr - headerSize) (bytesOf items))) := by
  have header : headerSize = 10 := rfl
  have refuse : (v.endAddr = v.begin ∨ ¬(headerSize ≤ addr ∧ addr ≤ v.endAddr - v.begin)) →
      ∃ reason v' writes, v.updateTransaction config addr items = some (reason, v') ∧
        Logs v writes v' ∧ Guarded v.begin reason writes ∧
        (reason = .ok → Laid v' (patched data (addr - headerSize) (bytesOf items))) := by
    intro refused
    obtain ⟨reason, failed, same⟩ := @updateTransaction_refused config v addr items refused
    exact ⟨reason, v, [], same, ⟨rfl, (append_nil _).symm, rfl, rfl⟩, .untouched,
      fun ok => absurd ok failed⟩
  have marks : ∀ body : List (Nat × UChar), (∀ write ∈ body, v.begin + 4 ≤ write.1) →
      Marks v.begin (placed (v.begin + 2) (taint config)) body := by
    intro body behind
    refine ⟨fun write member => (mem_placed member).2.trans_le ?_, fun byte => ?_, behind⟩
    · have short := @taint_length config
      omega
    · rw [applied_placed, taint_dead tainted]
      exact contents_overlay
  rcases ends with unread | ends
  · exact refuse (.inl unread)
  rcases lt_or_ge addr headerSize with early | low
  · exact refuse (.inr (by omega))
  rcases lt_or_ge (headerSize + data.length) addr with late | valid
  · exact refuse (.inr (by omega))
  rcases le_or_gt (addr + (bytesOf items).length) (headerSize + data.length) with high | excess
  · obtain ⟨v', updates, logs, -, -, -⟩ :=
      @updateTransaction_logs config v addr data items laid idle ends low high
    refine ⟨.ok, v', _, updates, logs, ?_, fun _ => laid.updated logs low high⟩
    rw [updating, resealing, append_assoc, ← append_assoc (placed (v.begin + addr) _)]
    refine .marked (marks _ fun write member => ?_) (fun write member => ?_) fun _ => rfl
    · rcases mem_append.mp member with data | sum
      · have above := (mem_placed data).1
        omega
      · have above := (mem_placed sum).1
        omega
    · have below := (mem_placed member).2
      have short := @healed_length config v.sign
      omega
  · obtain ⟨v', part, updates, logs⟩ :=
      @updateTransaction_excess config v addr data items laid idle ends low valid excess
    refine ⟨.eof, v', _, updates, logs, ?_, fun ok => by contradiction⟩
    rw [← append_nil (placed (v.begin + addr) _)]
    refine .marked (marks _ fun write member => ?_) (fun write member => ?_) fun closed => ?_
    · have above := (mem_placed member).1
      omega
    · exact absurd member not_mem_nil
    · exact absurd rfl closed

end Nvdata

/-- A whole transaction that writes. -/
inductive Transaction
  | write (items : List Item) (sign : Nat)
  | update (addr : Nat) (items : List Item)

def Transaction.run (config : Config) (v : Nvdata) : Transaction → Option (Reason × Nvdata)
  | .write items sign => some (v.writeTransaction config items sign)
  | .update addr items => v.updateTransaction config addr items

def Transaction.data (old : List UChar) : Transaction → List UChar
  | .write items _ => bytesOf items
  | .update addr items => patched old (addr - headerSize) (bytesOf items)

open Nvdata

/-- A transaction that a loss of power cuts at any byte leaves a region from which a reader gets
nothing, the old data, or the new data. -/
theorem interrupted_never_mixes {config later : Config} {v : Nvdata} {sign : Nat}
    {fields : List Field} {values : List Value} (tainted : config.writeTaint = true)
    (region : v.begin + 255 < v.limit)
    (valid : v.readTransaction config sign fields = some values) (idle : v.addr = none)
    (ends : v.endAddr = v.begin ∨ v.endAddr = v.begin + headerSize + sizeAll fields)
    (transaction : Transaction) :
    ∃ reason v' writes, transaction.run config v = some (reason, v') ∧ Logs v writes v' ∧
      ∀ k soft fields' values',
        (nvdataInit (applied v.byte (writes.take k)) v.begin v.limit).readTransaction later soft
            fields' = some values' →
          (sizeAll fields' = sizeAll fields ∧
              values' = receiveAll fields' (v.dataOf (sizeAll fields))) ∨
            reason = .ok ∧
              Returns (transaction.data (v.dataOf (sizeAll fields))) fields' values' := by
  have header : headerSize = 10 := rfl
  have room : v.begin + headerSize ≤ v.limit := by omega
  have laid := laid_of_reads room valid
  have size : (v.dataOf (sizeAll fields)).length = sizeAll fields := length_contents
  have length := ((readTransaction_eq_some room).mp valid).2.2.1
  have small : headerSize + sizeAll fields < 65536 := by
    rw [← length, laid.lengthOf]
    exact Nat.mod_lt _ (by decide)
  have guarded : ∃ reason v' writes, transaction.run config v = some (reason, v') ∧
      Logs v writes v' ∧ Guarded v.begin reason writes ∧
      (reason = .ok → Laid v' (transaction.data (v.dataOf (sizeAll fields)))) := by
    cases transaction with
    | write items sign =>
      obtain ⟨writes, logs, guarded, new⟩ :=
        @writeTransaction_guarded config v sign items tainted room
      exact ⟨_, _, writes, rfl, logs, guarded, new⟩
    | update addr items =>
      rw [← size] at ends
      exact updateTransaction_guarded tainted laid idle ends
  obtain ⟨reason, v', writes, runs, logs, guarded, new⟩ := guarded
  refine ⟨reason, v', writes, runs, logs, fun k soft fields' values' success => ?_⟩
  set left := nvdataInit (applied v.byte (writes.take k)) v.begin v.limit
  have byte : left.byte = applied v.byte (writes.take k) := rfl
  have begins : left.begin = v.begin := rfl
  have limits : left.limit = v.limit := rfl
  rcases guarded.loss v.byte k with same | dead | ⟨ok, same⟩
  · rw [← byte] at same
    obtain ⟨sizes, received⟩ := laid.returns begins limits same success
    rw [size, Nat.mod_eq_of_lt small] at sizes
    have equal : sizeAll fields' = sizeAll fields := by omega
    rw [equal, take_of_length_le size.le] at received
    exact .inl ⟨equal, received.symm⟩
  · rw [← byte, ← begins] at dead
    have room' : left.begin + headerSize ≤ left.limit := room
    rw [dead_unreadable room' dead] at success
    contradiction
  · rw [← logs.byte, ← byte, ← logs.begin] at same
    exact .inr ⟨ok, (new ok).returns (begins.trans logs.begin.symm)
      (limits.trans logs.limit.symm) same success⟩

def filled : Nvdata :=
  (blank.writeTransaction plain [.word 0x1234] 0x10).2

/-- An update of the word. -/
theorem interrupted_never_mixes_word :
    ∃ reason v' writes, (Transaction.update 10 [.word 0xbeef]).run plain filled =
        some (reason, v') ∧ Logs filled writes v' ∧
      ∀ k soft fields' values',
        (nvdataInit (applied filled.byte (writes.take k)) filled.begin
            filled.limit).readTransaction plain soft fields' = some values' →
          (sizeAll fields' = sizeAll [.word] ∧
              values' = receiveAll fields' (filled.dataOf (sizeAll [.word]))) ∨
            reason = .ok ∧ Returns ((Transaction.update 10 [.word 0xbeef]).data
              (filled.dataOf (sizeAll [.word]))) fields' values' := by
  have valid : filled.readTransaction plain 0x10 [.word] = some [.word 0x1234] := by
    decide +kernel
  apply interrupted_never_mixes rfl _ valid
  · decide +kernel
  · exact .inr (by decide +kernel)
  · decide +kernel

end Uos.Nvram
