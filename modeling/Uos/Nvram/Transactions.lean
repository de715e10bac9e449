import Uos.Nvram.Records

/-!
# Writing and updating a record

A write transaction that fits leaves a record with its data behind, an update transaction one with
some of the data replaced.
-/

namespace Uos.Nvram

def applied (byte : Nat → UChar) (writes : List (Nat × UChar)) : Nat → UChar :=
  writes.foldl (fun byte write => Function.update byte write.1 write.2) byte

theorem applied_append (byte : Nat → UChar) (first second : List (Nat × UChar)) :
    applied byte (first ++ second) = applied (applied byte first) second :=
  List.foldl_append ..

theorem applied_placed (byte : Nat → UChar) (addr : Nat) (bytes : List UChar) :
    applied byte (placed addr bytes) = overlay byte addr bytes := by
  induction bytes generalizing byte addr with
  | nil => rfl
  | cons c bytes ih =>
    rw [placed, overlay, ← ih]
    rfl

def bytesOf (items : List Item) : List UChar :=
  items.flatMap Item.bytes

namespace Nvdata

/-- Code makes some writes in a region. -/
structure Logs (v : Nvdata) (writes : List (Nat × UChar)) (v' : Nvdata) : Prop where
  byte : v'.byte = applied v.byte writes
  log : v'.writes = v.writes ++ writes
  begin : v'.begin = v.begin
  limit : v'.limit = v.limit

variable {config : Config} {v v' v'' : Nvdata} {addr sign : Nat} {bytes : List UChar}
  {items : List Item} {writes more : List (Nat × UChar)}

theorem Logs.trans (first : Logs v writes v') (second : Logs v' more v'') :
    Logs v (writes ++ more) v'' where
  byte := by rw [second.byte, first.byte, applied_append]
  log := by rw [second.log, first.log, List.append_assoc]
  begin := second.begin.trans first.begin
  limit := second.limit.trans first.limit

theorem Logs.still (first : Logs v writes v') (byte : v''.byte = v'.byte)
    (log : v''.writes = v'.writes) (begin : v''.begin = v'.begin)
    (limit : v''.limit = v'.limit) : Logs v writes v'' where
  byte := byte.trans first.byte
  log := log.trans first.log
  begin := begin.trans first.begin
  limit := limit.trans first.limit

theorem writeBytes_logs (here : v.addr = some addr) (low : v.begin ≤ addr)
    (fits : addr + bytes.length ≤ v.limit) : Logs v (placed addr bytes) (v.writeBytes bytes) := by
  rw [writeBytes_fits here low fits]
  exact ⟨(applied_placed ..).symm, rfl, rfl, rfl⟩

theorem writeSign_logs (room : v.begin + headerSize ≤ v.limit) (val : Nat) :
    Logs v (placed (v.begin + 2) (wordBytes (.ofNat 16 val))) (v.writeSign val) := by
  have header : headerSize = 10 := rfl
  rw [writeSign_fits (by omega)]
  exact ⟨(applied_placed ..).symm, rfl, rfl, rfl⟩

def taint (config : Config) : List UChar :=
  if config.writeTaint then wordBytes 0xdead else []

theorem beginWrite_logs (room : v.begin + headerSize ≤ v.limit) :
    Logs v (placed v.begin (wordBytes 0 ++ taint config)) (v.beginWrite config) ∧
      (v.beginWrite config).addr = some (v.begin + headerSize) ∧
      (v.beginWrite config).crc = crcStart := by
  have header : headerSize = 10 := rfl
  set start := { v with endAddr := v.begin }.seek v.begin with start_eq
  have size : (wordBytes 0 ++ taint config).length ≤ 4 := by
    rw [taint]
    split <;> simp [wordBytes]
  have marked : v.beginWrite config =
      (start.writeBytes (wordBytes 0 ++ taint config)).skipHeader := by
    rw [beginWrite, writeBytes_append, taint]
    split
    · rfl
    · rfl
  have logs := @writeBytes_logs start v.begin (wordBytes 0 ++ taint config) rfl le_rfl
    (show v.begin + _ ≤ v.limit by omega)
  rw [marked]
  refine ⟨⟨logs.byte, logs.log, logs.begin, logs.limit⟩, ?_, rfl⟩
  exact congrArg (fun begin => some (begin + headerSize)) logs.begin

/-- The bytes of the length, the checksum and the signature, in the order they are written. -/
def sealing (begin sign length : Nat) (sum : ULong) : List (Nat × UChar) :=
  placed (begin + 4) (wordBytes (.ofNat 16 length)) ++
    placed (begin + 6) (dwordBytes (crcAll sum (trailer sign length))) ++
      placed (begin + 2) (wordBytes (.ofNat 16 (sign ^^^ 0xdead)))

/-- `nvdata_finalize_write` behind data that leaves room seals the record. -/
theorem finalizeWrite_logs (here : v.addr = some addr) (low : v.begin + headerSize ≤ addr)
    (fits : addr < v.limit) :
    (v.finalizeWrite sign).1 = .ok ∧
      Logs v (sealing v.begin sign (addr - v.begin) v.crc) (v.finalizeWrite sign).2 ∧
      (v.finalizeWrite sign).2.addr = none ∧ (v.finalizeWrite sign).2.endAddr = addr ∧
      (v.finalizeWrite sign).2.sign = sign := by
  have header : headerSize = 10 := rfl
  rw [finalizeWrite]
  split
  · rename_i gone
    rw [gone] at here
    contradiction
  rename_i other same
  obtain rfl : addr = other := Option.some.inj (here.symm.trans same)
  simp only
  rw [if_neg (show ¬addr ≥ v.limit by omega)]
  set v₀ := ({ v with endAddr := v.begin, sign := sign }.addSign).seek (v.begin + 4) with v₀_eq
  have first := @writeBytes_logs v₀ (v.begin + 4) (wordBytes (.ofNat 16 (addr - v.begin))) rfl
    (show v.begin ≤ v.begin + 4 by omega) (show v.begin + 4 + 2 ≤ v.limit by omega)
  have written := @writeWord_fits v₀ (v.begin + 4) (.ofNat 16 (addr - v.begin)) rfl
    (show v.begin ≤ v.begin + 4 by omega) (show v.begin + 4 + 2 ≤ v.limit by omega)
  set v₁ := v₀.writeWord (.ofNat 16 (addr - v.begin)) with v₁_eq
  have sum : v₁.crc = crcAll v.crc (trailer sign (addr - v.begin)) := by
    rw [written, trailer, crcAll_append]
    rfl
  have at₁ : v₁.addr = some (v.begin + 6) := by rw [written]
  have begin₁ : v₁.begin = v.begin := by rw [written]; rfl
  have limit₁ : v₁.limit = v.limit := by rw [written]; rfl
  have second := @writeBytes_logs v₁ (v.begin + 6) (dwordBytes v₁.crc) at₁
    (by rw [begin₁]; omega) (show v.begin + 6 + 4 ≤ v₁.limit by omega)
  have written' := @writeDword_fits v₁ (v.begin + 6) v₁.crc at₁ (by rw [begin₁]; omega)
    (show v.begin + 6 + 4 ≤ v₁.limit by omega)
  set v₂ := v₁.writeDword v₁.crc with v₂_eq
  have begin₂ : v₂.begin = v.begin := by rw [written', ← begin₁]
  have limit₂ : v₂.limit = v.limit := by rw [written', ← limit₁]
  have sign₂ : v₂.sign = sign := by rw [written', written]; rfl
  have room₂ : v₂.begin + headerSize ≤ v₂.limit := by omega
  have third := @writeSign_logs v₂ room₂ (v₂.sign ^^^ 0xdead)
  obtain ⟨begin₃, -, sign₃⟩ := @writeSign_keeps v₂ (by omega) (v₂.sign ^^^ 0xdead)
  have logs := (first.trans second).trans third
  have sealed : placed (v.begin + 4) (wordBytes (.ofNat 16 (addr - v.begin))) ++
      placed (v.begin + 6) (dwordBytes v₁.crc) ++
        placed (v₂.begin + 2) (wordBytes (.ofNat 16 (v₂.sign ^^^ 0xdead))) =
      sealing v.begin sign (addr - v.begin) v.crc := by
    rw [sum, begin₂, sign₂]
    rfl
  rw [sealed] at logs
  refine ⟨rfl, ⟨logs.byte, logs.log, logs.begin, logs.limit⟩, rfl, ?_, sign₃.trans sign₂⟩
  show (v₂.writeSign (v₂.sign ^^^ 0xdead)).begin + (addr - v.begin) = addr
  rw [begin₃, begin₂]
  omega

theorem writeTransaction_fits (room : v.begin + headerSize ≤ v.limit)
    (fits : v.begin + headerSize + (bytesOf items).length < v.limit) :
    (v.writeTransaction config items sign).1 = .ok ∧
      Logs v (placed v.begin (wordBytes 0 ++ taint config) ++
          placed (v.begin + headerSize) (bytesOf items) ++
        sealing v.begin sign (headerSize + (bytesOf items).length)
          (crcAll crcStart (bytesOf items))) (v.writeTransaction config items sign).2 ∧
      (v.writeTransaction config items sign).2.addr = none ∧
      (v.writeTransaction config items sign).2.endAddr =
        v.begin + headerSize + (bytesOf items).length ∧
      (v.writeTransaction config items sign).2.sign = sign := by
  obtain ⟨begins, here, sum⟩ := @beginWrite_logs config v room
  rw [writeTransaction, writeAll_eq]
  set start := v.beginWrite config with start_eq
  have low : start.begin ≤ v.begin + headerSize := by
    rw [begins.begin]
    exact Nat.le_add_right ..
  have high : v.begin + headerSize + (bytesOf items).length ≤ start.limit := by
    rw [begins.limit]
    exact fits.le
  have logs := writeBytes_logs here low high
  have written := writeBytes_fits here low high
  set filled := start.writeBytes (bytesOf items) with filled_eq
  have begin' : filled.begin = v.begin := logs.begin.trans begins.begin
  have limit' : filled.limit = v.limit := logs.limit.trans begins.limit
  have stops : filled.addr = some (v.begin + headerSize + (bytesOf items).length) := by
    rw [written]
  have sums : filled.crc = crcAll crcStart (bytesOf items) := by rw [written, sum]
  have length : v.begin + headerSize + (bytesOf items).length - filled.begin =
      headerSize + (bytesOf items).length := by omega
  obtain ⟨ok, seals, idle, ends, signs⟩ := @finalizeWrite_logs filled
    (v.begin + headerSize + (bytesOf items).length) sign stops (by omega) (by omega)
  rw [length, begin', sums] at seals
  exact ⟨ok, (begins.trans logs).trans seals, idle, ends, signs⟩

theorem writeTransaction_excess (room : v.begin + headerSize ≤ v.limit)
    (excess : v.limit ≤ v.begin + headerSize + (bytesOf items).length) :
    (v.writeTransaction config items sign).1 = .eof ∧
      Logs v (placed v.begin (wordBytes 0 ++ taint config) ++
        placed (v.begin + headerSize) ((bytesOf items).take (v.limit - (v.begin + headerSize))))
        (v.writeTransaction config items sign).2 := by
  obtain ⟨begins, here, -⟩ := @beginWrite_logs config v room
  rw [writeTransaction, writeAll_eq]
  set start := v.beginWrite config with start_eq
  have low : start.begin ≤ v.begin + headerSize := by
    rw [begins.begin]
    exact Nat.le_add_right ..
  have high : v.begin + headerSize ≤ start.limit := by
    rw [begins.limit]
    exact room
  have taken := @writeBytes_take start (v.begin + headerSize) (bytesOf items) here low high
  rw [begins.limit] at taken
  set part := (bytesOf items).take (v.limit - (v.begin + headerSize)) with part_eq
  have length : v.begin + headerSize + part.length = v.limit := by
    rw [part_eq, List.length_take]
    omega
  have fits : v.begin + headerSize + part.length ≤ start.limit := by
    rw [length, begins.limit]
  have logs := writeBytes_logs here low fits
  have written := writeBytes_fits here low fits
  have all : start.writeBytes (items.flatMap Item.bytes) = start.writeBytes part := taken
  rw [all]
  set filled := start.writeBytes part with filled_eq
  have stops : filled.addr = some v.limit := by rw [written, length]
  have limit' : filled.limit = v.limit := logs.limit.trans begins.limit
  have ended :
      filled.finalizeWrite sign = (.eof, { filled with endAddr := filled.begin }.leave) := by
    rw [finalizeWrite]
    split
    · rename_i gone
      rw [gone] at stops
      contradiction
    · rename_i addr here
      obtain rfl : addr = v.limit := Option.some.inj (here.symm.trans stops)
      exact if_pos limit'.le
  rw [ended]
  exact ⟨rfl, (begins.trans logs).still rfl rfl rfl rfl⟩

theorem readTo_here {target turns : Nat} (here : v.addr = some target) :
    readTo target turns v = some (v.passed target v.crc) := by
  have stop : v.addr.any (· < target) = false := by simp [here]
  have same : v.passed target v.crc = v := by rw [passed, ← here]
  cases turns with
  | zero =>
    rw [readTo, stop, same]
    rfl
  | succ turns =>
    rw [readTo, stop, same]
    rfl

theorem readTo_eq {target turns : Nat} (here : v.addr = some addr) (low : v.begin ≤ addr)
    (ahead : addr ≤ target) (high : target ≤ v.limit) (enough : target ≤ addr + turns) :
    readTo target turns v =
      some (v.passed target (crcAll v.crc (contents v.byte addr (target - addr)))) := by
  induction turns generalizing v addr with
  | zero =>
    obtain rfl : addr = target := by omega
    rw [readTo_here here, Nat.sub_self]
    rfl
  | succ turns ih =>
    rcases eq_or_lt_of_le ahead with rfl | behind
    · rw [readTo_here here, Nat.sub_self]
      rfl
    · have more : v.addr.any (· < target) = true := by simpa [here] using behind
      have first := readByte_valid here low (by omega)
      set rest := v.passed (addr + 1) (crc32VakByte v.crc (v.byte addr)) with rest_eq
      have later := @ih rest (addr + 1) rfl (Nat.le_succ_of_le low) behind high (by omega)
      have size : target - addr = target - (addr + 1) + 1 := by omega
      rw [readTo, if_pos more, first, later, size]
      rfl

theorem beginUpdate_logs (room : v.begin + headerSize ≤ v.limit) (idle : v.addr = none)
    (low : headerSize ≤ addr) (high : v.begin + addr ≤ v.endAddr) (inside : v.endAddr ≤ v.limit) :
    ∃ v', v.beginUpdate config addr = some (.ok, v') ∧
      Logs v (placed (v.begin + 2) (taint config)) v' ∧ v'.addr = some (v.begin + addr) ∧
      v'.crc = crcAll crcStart (v.dataOf (addr - headerSize)) ∧ v'.endAddr = v.endAddr ∧
      v'.sign = v.sign := by
  have header : headerSize = 10 := rfl
  set marked := if config.writeTaint then v.writeSign 0xdead else v with marked_eq
  have logs : Logs v (placed (v.begin + 2) (taint config)) marked := by
    rw [marked_eq, taint]
    split
    · exact writeSign_logs room 0xdead
    · exact ⟨rfl, (List.append_nil _).symm, rfl, rfl⟩
  have kept : marked.endAddr = v.endAddr ∧ marked.sign = v.sign := by
    rw [marked_eq]
    split
    · rw [writeSign_fits (by omega)]
      exact ⟨rfl, rfl⟩
    · exact ⟨rfl, rfl⟩
  have data : contents marked.byte (v.begin + headerSize) (addr - headerSize) =
      v.dataOf (addr - headerSize) := by
    have short : (taint config).length ≤ 2 := by
      rw [taint]
      split <;> simp [wordBytes]
    rw [logs.byte, applied_placed, contents_overlay_of_disjoint (.inr (by omega))]
    rfl
  have loop := @readTo_eq marked.skipHeader (v.begin + headerSize) (addr + v.begin) (addr + v.begin)
    (congrArg (fun begin => some (begin + headerSize)) logs.begin)
    (show marked.begin ≤ v.begin + headerSize by rw [logs.begin]; omega) (by omega)
    (show addr + v.begin ≤ marked.limit by rw [logs.limit]; omega) (by omega)
  have size : addr + v.begin - (v.begin + headerSize) = addr - headerSize := by omega
  have sum : crcAll marked.skipHeader.crc (contents marked.skipHeader.byte (v.begin + headerSize)
      (addr - headerSize)) = crcAll crcStart (v.dataOf (addr - headerSize)) :=
    congrArg (crcAll crcStart) data
  rw [size, sum] at loop
  refine ⟨marked.skipHeader.passed (addr + v.begin) (crcAll crcStart
    (v.dataOf (addr - headerSize))), ?_, logs.still rfl rfl rfl rfl,
    congrArg some (Nat.add_comm ..), rfl, kept.1, kept.2⟩
  have busy : ¬(v.addr ≠ none ∨ v.endAddr = v.begin) := by
    rw [not_or, not_not]
    exact ⟨idle, by omega⟩
  have valid : headerSize ≤ addr ∧ addr ≤ v.endAddr - v.begin := ⟨low, by omega⟩
  rw [beginUpdate, if_neg busy, if_neg (not_not.mpr valid)]
  show (readTo (addr + marked.begin) (addr + marked.begin) marked.skipHeader).map _ = _
  rw [logs.begin, loop]
  rfl

def healed (config : Config) (sign : Nat) : List UChar :=
  if config.writeTaint then wordBytes (.ofNat 16 (sign ^^^ 0xdead)) else []

/-- The bytes of the checksum and of the signature at the end of an update. -/
def resealing (config : Config) (begin sign : Nat) (sum : ULong) : List (Nat × UChar) :=
  placed (begin + 6) (dwordBytes sum) ++ placed (begin + 2) (healed config sign)

theorem finalizeUpdate_logs (room : v.begin + headerSize ≤ v.limit) (here : v.addr = some addr)
    (low : v.begin + headerSize ≤ addr) (high : addr ≤ v.endAddr) (inside : v.endAddr ≤ v.limit) :
    ∃ v', v.finalizeUpdate config = some (.ok, v') ∧
      Logs v (resealing config v.begin v.sign (crcAll v.crc
        (contents v.byte addr (v.endAddr - addr) ++
          ([.ofNat 8 v.sign, .ofNat 8 (v.sign >>> 8)] ++ contents v.byte (v.begin + 4) 2)))) v' ∧
      v'.addr = none ∧ v'.endAddr = v.endAddr ∧ v'.sign = v.sign := by
  have header : headerSize = 10 := rfl
  set last := v.passed v.endAddr (crcAll v.crc (contents v.byte addr (v.endAddr - addr)))
    with last_eq
  have loop := @readTo_eq v addr v.endAddr v.endAddr here (by omega) high inside (by omega)
  set v₀ := last.addSign.seek (v.begin + 4) with v₀_eq
  have reads := @readWord_valid v₀ (v.begin + 4) rfl (show v.begin ≤ v.begin + 4 by omega)
    (show v.begin + 4 + 2 ≤ v.limit by omega)
  set v₁ := v₀.passed (v.begin + 4 + 2) (crcAll v₀.crc (contents v₀.byte (v.begin + 4) 2))
    with v₁_eq
  set sum := crcAll v.crc (contents v.byte addr (v.endAddr - addr) ++
    ([.ofNat 8 v.sign, .ofNat 8 (v.sign >>> 8)] ++ contents v.byte (v.begin + 4) 2)) with sum_eq
  have sums : v₁.crc = sum := by
    rw [sum_eq, crcAll_append, crcAll_append]
    rfl
  have written := @writeBytes_logs v₁ (v.begin + 6) (dwordBytes v₁.crc) rfl
    (show v.begin ≤ v.begin + 6 by omega) (show v.begin + 6 + 4 ≤ v.limit by omega)
  have fits := @writeDword_fits v₁ (v.begin + 6) v₁.crc rfl
    (show v.begin ≤ v.begin + 6 by omega) (show v.begin + 6 + 4 ≤ v.limit by omega)
  set v₂ := v₁.writeDword v₁.crc with v₂_eq
  have begin₂ : v₂.begin = v.begin := by rw [fits]; rfl
  have limit₂ : v₂.limit = v.limit := by rw [fits]; rfl
  have end₂ : v₂.endAddr = v.endAddr := by rw [fits]; rfl
  have sign₂ : v₂.sign = v.sign := by rw [fits]; rfl
  have bytes : placed (v.begin + 6) (dwordBytes v₁.crc) =
      placed (v.begin + 6) (dwordBytes sum) := by rw [sums]
  have logs₂ : Logs v (placed (v.begin + 6) (dwordBytes sum)) v₂ := by
    rw [← bytes]
    exact ⟨written.byte, written.log, written.begin, written.limit⟩
  set v₃ := if config.writeTaint then v₂.writeSign (v₂.sign ^^^ 0xdead) else v₂ with v₃_eq
  have room₂ : v₂.begin + headerSize ≤ v₂.limit := by omega
  have logs₃ : Logs v (resealing config v.begin v.sign sum) v₃ := by
    rw [v₃_eq, resealing, healed]
    split
    · have signs := @writeSign_logs v₂ room₂ (v₂.sign ^^^ 0xdead)
      have same : placed (v₂.begin + 2) (wordBytes (.ofNat 16 (v₂.sign ^^^ 0xdead))) =
          placed (v.begin + 2) (wordBytes (.ofNat 16 (v.sign ^^^ 0xdead))) := by
        rw [begin₂, sign₂]
      rw [same] at signs
      exact logs₂.trans signs
    · rw [placed, List.append_nil]
      exact logs₂
  have kept : v₃.endAddr = v.endAddr ∧ v₃.sign = v.sign := by
    rw [v₃_eq]
    split
    · rw [writeSign_fits (by omega)]
      exact ⟨end₂, sign₂⟩
    · exact ⟨end₂, sign₂⟩
  refine ⟨v₃.leave, ?_, logs₃.still rfl rfl rfl rfl, rfl, kept.1, kept.2⟩
  rw [finalizeUpdate]
  split
  · rename_i gone
    rw [gone] at here
    contradiction
  rename_i other same
  obtain rfl : addr = other := Option.some.inj (here.symm.trans same)
  rw [if_neg (show ¬v.endAddr = v.begin by omega),
    if_neg (show ¬(addr < v.begin + headerSize ∨ addr > v.endAddr) by omega), loop]
  show some _ = _
  rw [← last_eq]
  show some (Reason.ok, _) = _
  have next : (last.addSign.seek (last.begin + 4)).readWord.2 = v₁ := congrArg Prod.snd reads
  simp only [next]
  rfl

end Nvdata
end Uos.Nvram
