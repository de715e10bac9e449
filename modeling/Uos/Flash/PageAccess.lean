import Mathlib.Data.List.GetD
import Uos.Flash.Chips
import Uos.Flash.LockBalance

/-!
# One page of a flash memory

What the devices do with the words of `write_one_page` and `read_one_page`: a page is programmed
where the address tells, and nothing else changes.
-/

namespace Uos

open List

open Command SpiFlash

theorem addressBytes_eq (count address : Nat) :
    addressBytes count address = lowBytes address count := by
  induction count with
  | zero => rfl
  | succ count ih =>
    rw [addressBytes, range_succ, reverse_append, reverse_singleton,
      singleton_append, map_cons, lowBytes, Nat.shiftRight_eq_div_pow, ← ih]
    rfl

theorem length_addressBytes (count address : Nat) :
    (addressBytes count address).length = count := by
  rw [addressBytes_eq, length_lowBytes]

namespace ChipShape

variable {shape : ChipShape}

theorem address_words (command : UChar) (address : Nat) (rest : List UChar) :
    shape.address (command :: (addressBytes shape.width address ++ rest)) =
      address % 2 ^ (8 * shape.width) := by
  have taken : (addressBytes shape.width address ++ rest).take shape.width =
      addressBytes shape.width address :=
    take_left' (length_addressBytes shape.width address)
  rw [ChipShape.address, drop_one, tail_cons, taken, addressBytes_eq,
    bigEndian_lowBytes, Nat.pow_mul]

theorem data_words (command : UChar) (address : Nat) (rest : List UChar) :
    shape.data (command :: (addressBytes shape.width address ++ rest)) = rest := by
  rw [ChipShape.data, Nat.add_comm, drop_succ_cons]
  exact drop_left' (length_addressBytes shape.width address)

theorem after_start (fits : shape.page_size ≤ shape.stride) (page : Nat) {i : Nat}
    (inside : i < shape.page_size) :
    shape.after (page * shape.stride) i = page * shape.stride + i := by
  induction i with
  | zero => rfl
  | succ i ih =>
    have rest : (page * shape.stride + i) % shape.stride = i := by
      rw [Nat.mul_add_mod_self_right, Nat.mod_eq_of_lt (by omega)]
    rw [ChipShape.after, ih (by omega), next, rest, if_neg (by omega), Nat.add_assoc]

end ChipShape

theorem inPage_apply {page_size base place : Nat} {merge : UChar → UChar → UChar}
    {bytes : List UChar} {memory : Nat → UChar} (fits : place + bytes.length ≤ page_size)
    (address : Nat) :
    inPage page_size base merge bytes place memory address =
      if base + place ≤ address ∧ address < base + place + bytes.length then
        merge (memory address) (bytes.getD (address - (base + place)) 0)
      else memory address := by
  induction bytes generalizing place memory with
  | nil =>
    rw [if_neg (by simp)]
    rfl
  | cons byte bytes ih =>
    have small : place < page_size := by
      rw [length_cons] at fits
      omega
    rw [inPage, ih (by rw [length_cons] at fits; omega), Nat.mod_eq_of_lt small,
      length_cons]
    by_cases first : address = base + place
    · subst first
      rw [if_neg (by omega), if_pos rfl, if_pos (by omega), Nat.sub_self, getD_cons_zero]
    · by_cases later : base + (place + 1) ≤ address ∧ address < base + (place + 1) + bytes.length
      · obtain ⟨j, index⟩ : ∃ j, address - (base + place) = j + 1 :=
          ⟨address - (base + place) - 1, by omega⟩
        rw [if_pos later, if_neg first, if_pos (by omega), index, getD_cons_succ]
        congr 2
        omega
      · rw [if_neg later, if_neg first, if_neg (by omega)]

section Transfers

variable {reply : Chip → List UChar → Nat → UChar} {release : Chip → List UChar → Chip}

/-- The device when words have been sent, and it has been released or not. -/
def Chip.told (release : Chip → List UChar → Chip) (chip : Chip) (words : List UChar)
    (cs_hold : Bool) : Chip :=
  if cs_hold = true then { chip with held := chip.held ++ words }
  else { release chip (chip.held ++ words) with held := [] }

theorem store_databuf (bytes : List UChar) (m : SpiFlash Chip Unit) (i : Nat) :
    (store bytes m).2.databuf i = if i < bytes.length then bytes.getD i 0 else m.databuf i :=
  rfl

theorem part_store (bytes : List UChar) (m : SpiFlash Chip Unit) :
    (store bytes m).2.part bytes.length = bytes := by
  change (List.range bytes.length).map (store bytes m).2.databuf = bytes
  apply ext_getElem
  · rw [length_map, length_range]
  · intro i inside inside'
    rw [getElem_map, getElem_range, store_databuf, if_pos inside',
      getD_eq_getElem bytes 0 inside']

theorem part_store_head (byte : UChar) (count : Nat) (m : SpiFlash Chip Unit) :
    (store [byte] m).2.part (count + 1) = byte :: (m.part (count + 1)).drop 1 := by
  have rest (i : Nat) : (store [byte] m).2.databuf (i + 1) = m.databuf (i + 1) := by
    rw [store_databuf, if_neg (by simp)]
  change (List.range (count + 1)).map (store [byte] m).2.databuf =
    byte :: ((List.range (count + 1)).map m.databuf).drop 1
  rw [range_succ_eq_map, map_cons, map_cons, drop_one, tail_cons,
    map_map, map_map]
  exact congrArg _ (map_congr_left fun i _ => rest i)

theorem send_chip (count : Nat) (cs_hold : Bool) (m : SpiFlash Chip Unit) :
    send (chipSpi reply release) count cs_hold m =
      (.ok (), { m with device := m.device.told release (m.part count) cs_hold }) :=
  rfl

theorem send_stored {bytes : List UChar} {count : Nat} (length : bytes.length = count)
    (cs_hold : Bool) (m : SpiFlash Chip Unit) :
    send (chipSpi reply release) count cs_hold (store bytes m).2 =
      (.ok (), { (store bytes m).2 with device := m.device.told release bytes cs_hold }) := by
  rw [← length, send_chip, part_store]
  rfl

theorem spimTrx_send_chip (data : List UChar) (m : SpiFlash Chip Unit) :
    ∃ received, spimTrx (chipSpi reply release)
        { tx_data := some data, word_count := data.length, cs_hold := false } false m =
      (.ok received, { m with device := m.device.told release data false }) :=
  ⟨_, rfl⟩

theorem spimTrx_receive_chip (count : Nat) (m : SpiFlash Chip Unit) :
    spimTrx (chipSpi reply release) { tx_data := none, word_count := count, cs_hold := false }
        false m =
      (.ok ((List.range count).map fun i =>
          reply m.device (m.device.held ++ List.replicate count 0) (m.device.held.length + i)),
        { m with device := m.device.told release (List.replicate count 0) false }) :=
  rfl

end Transfers

/-- One page, or a part of it, is read from an address. -/
def ReadsAt (shape : ChipShape)
    (func : Nat → Nat → Nat → Command (SpiFlash Chip Unit) FlashExit (List UChar)) : Prop :=
  ∀ address cur_data size m, Ready shape.page_size m →
    ∃ m', func address cur_data size m =
        (.ok ((List.range size).map fun i =>
          m.device.cells (shape.after (address % 2 ^ (8 * shape.width)) i)), m') ∧
      m'.device = m.device ∧ Ready shape.page_size m'

/-- A part of the data is written into a page, and into no other one. -/
def WritesAt (shape : ChipShape) (data : List UChar)
    (func : Nat → Nat → Nat → Command (SpiFlash Chip Unit) FlashExit (List UChar)) : Prop :=
  ∀ page cur_data size m, Ready shape.page_size m → cur_data + size ≤ data.length →
    size ≤ shape.page_size → (page + 1) * shape.stride ≤ 2 ^ (8 * shape.width) →
    ∃ m', func (page * shape.stride) cur_data size m = (.ok [], m') ∧ Ready shape.page_size m' ∧
      (∀ i < size, m'.device.cells (page * shape.stride + i) =
        m.device.cells (page * shape.stride + i) &&& data.getD (cur_data + i) 0) ∧
      ∀ address, address / shape.stride ≠ page →
        m'.device.cells address = m.device.cells address

namespace At45dbxx

variable {shape : ChipShape}

theorem readOnePage_chip (three : shape.width = 3) (address size : Nat)
    (m : SpiFlash Chip Unit) (ready : Ready shape.page_size m) :
    ∃ m', readOnePage (chip shape) address size m =
        (.ok ((List.range size).map fun i =>
          m.device.cells (shape.after (address % 2 ^ (8 * shape.width)) i)), m') ∧
      m'.device = m.device ∧ Ready shape.page_size m' := by
  let bytes := 0x0B :: (addressBytes 3 address ++ [0])
  have told : m.device.told (release shape) bytes true = { m.device with held := bytes } := by
    rw [Chip.told, if_pos rfl, ready.released, nil_append]
  have sent : send (chip shape) 5 true (store bytes m).2 =
      (.ok (), { (store bytes m).2 with device := { m.device with held := bytes } }) := by
    rw [← told]
    exact send_stored rfl true m
  have ended : { m.device with held := bytes }.told (release shape) (List.replicate size 0) false =
      m.device := by
    rw [Chip.told, if_neg (by simp), ← ready.released]
    rfl
  refine ⟨{ (store bytes m).2 with device := m.device }, ?_, rfl,
    ready.page_size, ready.released, ready.idle⟩
  change (send (chip shape) 5 true >>= fun _ => spimTrx (chip shape) _ false) (store bytes m).2 = _
  rw [bind_ok sent, chip, spimTrx_receive_chip, ended]
  congr 2
  refine map_congr_left fun i _ => ?_
  have words : shape.address (bytes ++ List.replicate size 0) =
      address % 2 ^ (8 * shape.width) := by
    rw [← shape.address_words 0x0B address ([0] ++ List.replicate size 0), three]
    simp only [bytes, cons_append, append_assoc]
  have behind : 5 ≤ bytes.length + i := Nat.le_add_right 5 i
  change (if _ then _ else if _ then m.device.cells (shape.after (shape.address _) (5 + i - 5))
    else _) = _
  rw [words, Nat.add_sub_cancel_left]
  rw [if_neg (by simp [bytes]), if_pos ⟨by simp [bytes], behind, ready.idle⟩]

theorem status_chip (rest : UChar) (chip' : Chip) (released : chip'.held = []) :
    ∃ status, ((chip shape) (statusMessage rest) chip').1 = true ∧
      ((chip shape) (statusMessage rest) chip').2.1 1 = status ∧
      ((chip shape) (statusMessage rest) chip').2.2 = { chip' with busy := chip'.busy - 1 } ∧
      status &&& 0x3C = 0x1C ∧ (status &&& 0x80 ≠ 0 ↔ chip'.busy = 0) := by
  obtain ⟨cells, buffer, enabled, busy, held⟩ := chip'
  obtain rfl : held = [] := released
  refine ⟨_, rfl, rfl, rfl, ?_⟩
  change ((if busy = 0 then 0x9C else 0x1C) |||
    (if shape.page_size = 256 then 1 else 0) : UChar) &&&
    0x3C = 0x1C ∧ (((if busy = 0 then 0x9C else 0x1C) |||
      (if shape.page_size = 256 then 1 else 0) : UChar) &&& 0x80 ≠ 0 ↔ busy = 0)
  by_cases idle : busy = 0
  · rw [if_pos idle]
    refine ⟨?_, iff_of_true ?_ idle⟩
    all_goals split_ifs <;> decide
  · rw [if_neg idle]
    refine ⟨?_, iff_of_false ?_ idle⟩
    all_goals split_ifs <;> decide

theorem waitReady_chip (limit : Nat) (m : SpiFlash Chip Unit) (released : m.device.held = [])
    (soon : m.device.busy < limit) :
    ∃ m', waitReady (chip shape) limit m = (.ok (), m') ∧ m'.page_size = m.page_size ∧
      m'.device = { m.device with busy := 0 } := by
  induction limit generalizing m with
  | zero => exact absurd soon (Nat.not_lt_zero _)
  | succ limit ih =>
    obtain ⟨m', byte, device, size, turn⟩ := waitReady_succ (chip shape) limit m
    obtain ⟨status, taken, answer, device', bits, ready⟩ :=
      status_chip (m.databuf 1) m.device released
    rw [byte, answer, if_pos ⟨taken, bits⟩] at turn
    rw [device'] at device
    by_cases idle : m.device.busy = 0
    · rw [if_pos (ready.mpr idle)] at turn
      refine ⟨m', turn, size, device.trans ?_⟩
      rw [idle]
    · rw [if_neg (mt ready.mp idle)] at turn
      obtain ⟨m'', goes, size', device''⟩ := ih m' (by rw [device, ← released]) (by
        rw [device]
        change m.device.busy - 1 < limit
        omega)
      exact ⟨m'', turn.trans goes, size'.trans size, by rw [device'', device]⟩

theorem buffer_told (three : shape.width = 3) {page : Nat} {data : List UChar} {chip' : Chip}
    (released : chip'.held = []) (idle : chip'.busy = 0)
    (inside : page * shape.stride < 2 ^ (8 * shape.width)) :
    (chip'.told (release shape) (0x84 :: addressBytes 3 (page * shape.stride)) true).told
        (release shape) data false =
      { chip' with
        buffer := inPage shape.page_size 0 (fun _ byte => byte) data 0 chip'.buffer } := by
  have address : shape.address (0x84 :: (addressBytes 3 (page * shape.stride) ++ data)) =
      page * shape.stride := by
    rw [← three, shape.address_words, Nat.mod_eq_of_lt inside]
  have content : shape.data (0x84 :: (addressBytes 3 (page * shape.stride) ++ data)) = data := by
    rw [← three, shape.data_words]
  obtain ⟨cells, buffer, enabled, busy, held⟩ := chip'
  obtain rfl : held = [] := released
  obtain rfl : busy = 0 := idle
  change Chip.mk cells (inPage shape.page_size 0 (fun _ byte => byte)
    (shape.data (0x84 :: (addressBytes 3 (page * shape.stride) ++ data)))
    (shape.address (0x84 :: (addressBytes 3 (page * shape.stride) ++ data)) % shape.stride)
    buffer) enabled 0 [] = _
  rw [content, address, Nat.mul_mod_left]

theorem program_told (three : shape.width = 3) (positive : 0 < shape.stride) {page : Nat}
    {chip' : Chip} (released : chip'.held = []) (idle : chip'.busy = 0)
    (inside : page * shape.stride < 2 ^ (8 * shape.width)) :
    chip'.told (release shape) (0x88 :: addressBytes 3 (page * shape.stride)) false =
      { chip' with
        cells := inPage shape.page_size (page * shape.stride) (· &&& ·)
          ((List.range shape.page_size).map chip'.buffer) 0 chip'.cells
        busy := shape.delay (page * shape.stride) } := by
  have address : shape.address (0x88 :: addressBytes 3 (page * shape.stride)) =
      page * shape.stride := by
    have words := shape.address_words 0x88 (page * shape.stride) []
    rwa [append_nil, Nat.mod_eq_of_lt inside, three] at words
  obtain ⟨cells, buffer, enabled, busy, held⟩ := chip'
  obtain rfl : held = [] := released
  obtain rfl : busy = 0 := idle
  change Chip.mk (inPage shape.page_size
    (shape.address (0x88 :: addressBytes 3 (page * shape.stride)) / shape.stride * shape.stride)
    (· &&& ·) ((List.range shape.page_size).map buffer) 0 cells) buffer enabled
    (shape.delay (shape.address (0x88 :: addressBytes 3 (page * shape.stride)))) [] = _
  rw [address, Nat.mul_div_cancel page positive]

theorem writeOnePage_chip (three : shape.width = 3) (positive : 0 < shape.page_size)
    (fits : shape.page_size ≤ shape.stride) {limit : Nat}
    (soon : ∀ address, shape.delay address < limit) (page : Nat)
    (data : List UChar) (m : SpiFlash Chip Unit) (ready : Ready shape.page_size m)
    (small : data.length ≤ shape.page_size)
    (inside : (page + 1) * shape.stride ≤ 2 ^ (8 * shape.width)) :
    ∃ m', writeOnePage (chip shape) limit (page * shape.stride) data m = (.ok (), m') ∧
      Ready shape.page_size m' ∧
      (∀ i < data.length, m'.device.cells (page * shape.stride + i) =
        m.device.cells (page * shape.stride + i) &&& data.getD i 0) ∧
      ∀ address, address / shape.stride ≠ page →
        m'.device.cells address = m.device.cells address := by
  have inside' : page * shape.stride < 2 ^ (8 * shape.width) := by
    rw [Nat.succ_mul] at inside
    omega
  let bytes := 0x84 :: addressBytes 3 (page * shape.stride)
  let filled : Chip :=
    { m.device with
      buffer := inPage shape.page_size 0 (fun _ byte => byte) data 0 m.device.buffer }
  let programmed : Chip :=
    { filled with
      cells := inPage shape.page_size (page * shape.stride) (· &&& ·)
        ((List.range shape.page_size).map filled.buffer) 0 filled.cells
      busy := shape.delay (page * shape.stride) }
  let m₁ : SpiFlash Chip Unit :=
    { (store bytes m).2 with device := m.device.told (release shape) bytes true }
  let m₂ : SpiFlash Chip Unit := { m₁ with device := filled }
  have sent : send (chip shape) 4 true (store bytes m).2 = (.ok (), m₁) :=
    send_stored rfl true m
  obtain ⟨received, trx⟩ : ∃ received, spimTrx (chip shape)
      { tx_data := some data, word_count := data.length, cs_hold := false } false m₁ =
        (.ok received, m₂) := by
    obtain ⟨received, trx⟩ := @spimTrx_send_chip (reply shape) (release shape) data m₁
    rw [buffer_told three ready.released ready.idle inside'] at trx
    exact ⟨received, trx⟩
  have again : (store [0x88] m₂).2.part 4 = 0x88 :: addressBytes 3 (page * shape.stride) := by
    have kept : m₂.part 4 = bytes := part_store bytes m
    rw [part_store_head 0x88 3 m₂, kept]
    rfl
  have sent' : send (chip shape) 4 false (store [0x88] m₂).2 =
      (.ok (), { (store [0x88] m₂).2 with device := programmed }) := by
    have told : filled.told (release shape) (0x88 :: addressBytes 3 (page * shape.stride)) false =
        programmed :=
      program_told three (Nat.lt_of_lt_of_le positive fits) ready.released ready.idle inside'
    rw [chip, send_chip, again]
    exact congrArg (fun device => (Except.ok (), { (store [0x88] m₂).2 with device })) told
  obtain ⟨m', waits, size, device⟩ := waitReady_chip limit
    { (store [0x88] m₂).2 with device := programmed } ready.released (soon _)
  have whole : ((List.range shape.page_size).map filled.buffer).length = shape.page_size := by
    rw [length_map, length_range]
  refine ⟨m', ?_, ⟨size.trans ready.page_size, ?_, ?_⟩, ?_, ?_⟩
  · change (send (chip shape) 4 true >>= fun _ => spimTrx (chip shape) _ false >>= fun _ =>
      store [0x88] >>= fun _ => send (chip shape) 4 false >>= fun _ =>
      waitReady (chip shape) limit) (store bytes m).2 = _
    rw [bind_ok sent, bind_ok trx]
    change (send (chip shape) 4 false >>= fun _ => waitReady (chip shape) limit)
      (store [0x88] m₂).2 = _
    rw [bind_ok sent', waits]
  · rw [device]
    exact ready.released
  · rw [device]
  · intro i inside
    rw [device]
    change inPage _ _ _ ((List.range shape.page_size).map filled.buffer) 0 m.device.cells _ = _
    have buffered : filled.buffer i = data.getD i 0 := by
      change inPage _ _ _ data 0 m.device.buffer i = _
      rw [inPage_apply (by omega), if_pos (by omega), Nat.add_zero, Nat.sub_zero]
    rw [inPage_apply (by rw [whole]; omega), whole, if_pos (by omega),
      show page * shape.stride + i - (page * shape.stride + 0) = i by omega,
      getD_eq_getElem _ 0 (by rw [whole]; omega), getElem_map, getElem_range,
      buffered]
  · intro address elsewhere
    rw [device]
    change inPage _ _ _ ((List.range shape.page_size).map filled.buffer) 0 m.device.cells _ = _
    rw [inPage_apply (by rw [whole]; omega), whole, if_neg]
    rintro ⟨lower, upper⟩
    apply elsewhere
    rw [Nat.div_eq_of_lt_le]
    · omega
    · rw [Nat.succ_mul]
      omega

end At45dbxx

namespace NorFlash

variable {shape : ChipShape}

theorem length_command (command : UChar) (address : Nat) :
    (command :: addressBytes shape.width address).length = shape.width + 1 := by
  rw [length_cons, length_addressBytes]

theorem readOnePageBy_chip (address size : Nat) (m : SpiFlash Chip Unit)
    (ready : Ready shape.page_size m) :
    ∃ m', readOnePageBy (chip shape) shape.width address size m =
        (.ok ((List.range size).map fun i =>
          m.device.cells (shape.after (address % 2 ^ (8 * shape.width)) i)), m') ∧
      m'.device = m.device ∧ Ready shape.page_size m' := by
  let bytes := 0x03 :: addressBytes shape.width address
  have told : m.device.told (release shape) bytes true = { m.device with held := bytes } := by
    rw [Chip.told, if_pos rfl, ready.released, nil_append]
  have sent : send (chip shape) (shape.width + 1) true (store bytes m).2 =
      (.ok (), { (store bytes m).2 with device := { m.device with held := bytes } }) := by
    rw [← told]
    exact send_stored (length_command 0x03 address) true m
  have ended : { m.device with held := bytes }.told (release shape) (List.replicate size 0) false =
      m.device := by
    rw [Chip.told, if_neg (by simp), ← ready.released]
    rfl
  refine ⟨{ (store bytes m).2 with device := m.device }, ?_, rfl,
    ready.page_size, ready.released, ready.idle⟩
  change (send (chip shape) (shape.width + 1) true >>= fun _ => spimTrx (chip shape) _ false)
    (store bytes m).2 = _
  rw [bind_ok sent, chip, spimTrx_receive_chip, ended]
  congr 2
  refine map_congr_left fun i _ => ?_
  have words : shape.address (bytes ++ List.replicate size 0) =
      address % 2 ^ (8 * shape.width) :=
    shape.address_words 0x03 address (List.replicate size 0)
  have length : bytes.length = 1 + shape.width := by
    rw [length_command, Nat.add_comm]
  change (if _ then _ else if _ then
    m.device.cells (shape.after (shape.address _) (bytes.length + i - (1 + shape.width))) else _) =
      _
  rw [words, length, Nat.add_sub_cancel_left, if_neg (by simp [bytes]),
    if_pos ⟨by simp [bytes], Nat.le_add_right _ i, ready.idle⟩]

theorem readStatus_chip (m : SpiFlash Chip Unit) (released : m.device.held = []) :
    ∃ status m', readStatus (chip shape) m = (.ok status, m') ∧ m'.page_size = m.page_size ∧
      m'.device = { m.device with busy := m.device.busy - 1 } ∧
      (status &&& 1 = 0 ↔ m.device.busy = 0) := by
  obtain ⟨nb_sectors, nb_pages, page_size, databuf, own, device, depth, strays⟩ := m
  obtain ⟨cells, buffer, enabled, busy, held⟩ := device
  obtain rfl : held = [] := released
  refine ⟨_, _, rfl, rfl, rfl, ?_⟩
  change ((if busy = 0 then 0 else 1) ||| (if enabled = true then 2 else 0) : UChar) &&& 1 = 0 ↔
    busy = 0
  by_cases idle : busy = 0
  · rw [if_pos idle]
    refine iff_of_true ?_ idle
    split_ifs <;> decide
  · rw [if_neg idle]
    refine iff_of_false ?_ idle
    split_ifs <;> decide

theorem waitDone_chip (limit : Nat) (m : SpiFlash Chip Unit) (released : m.device.held = [])
    (soon : m.device.busy < limit) :
    ∃ m', waitDone (chip shape) limit m = (.ok (), m') ∧ m'.page_size = m.page_size ∧
      m'.device = { m.device with busy := 0 } := by
  induction limit generalizing m with
  | zero => exact absurd soon (Nat.not_lt_zero _)
  | succ limit ih =>
    obtain ⟨status, m', read, size, device, ready⟩ := readStatus_chip m released
    change ∃ m', (readStatus (chip shape) >>= fun status =>
      if decide (status &&& 1 = 0) = true then pure () else waitDone (chip shape) limit) m =
        (.ok (), m') ∧ _
    rw [bind_ok read]
    by_cases idle : m.device.busy = 0
    · rw [if_pos (decide_eq_true (ready.mpr idle))]
      refine ⟨m', rfl, size, device.trans ?_⟩
      rw [idle]
    · rw [if_neg (by simpa using mt ready.mp idle)]
      obtain ⟨m'', goes, size', device''⟩ := ih m' (by rw [device, ← released]) (by
        rw [device]
        change m.device.busy - 1 < limit
        omega)
      exact ⟨m'', goes, size'.trans size, by rw [device'', device]⟩

theorem program_told (positive : 0 < shape.stride) {page : Nat} {data : List UChar} {chip' : Chip}
    (released : chip'.held = []) (idle : chip'.busy = 0) (enabled : chip'.enabled = true)
    (inside : page * shape.stride < 2 ^ (8 * shape.width)) :
    (chip'.told (release shape) (0x02 :: addressBytes shape.width (page * shape.stride)) true).told
        (release shape) data false =
      { chip' with
        cells := inPage shape.page_size (page * shape.stride) (· &&& ·) data 0 chip'.cells
        enabled := false
        busy := shape.delay (page * shape.stride) } := by
  have address : shape.address (0x02 :: (addressBytes shape.width (page * shape.stride) ++ data)) =
      page * shape.stride := by
    rw [shape.address_words, Nat.mod_eq_of_lt inside]
  obtain ⟨cells, buffer, enabled', busy, held⟩ := chip'
  obtain rfl : held = [] := released
  obtain rfl : busy = 0 := idle
  obtain rfl : enabled' = true := enabled
  let words := 0x02 :: (addressBytes shape.width (page * shape.stride) ++ data)
  change Chip.mk (inPage shape.page_size (shape.address words / shape.stride * shape.stride)
    (· &&& ·) (shape.data words) (shape.address words % shape.stride) cells) buffer false
    (shape.delay (shape.address words)) [] = _
  rw [shape.data_words, address, Nat.mul_div_cancel page positive, Nat.mul_mod_left]

theorem writeOnePageBy_chip (positive : 0 < shape.page_size)
    (fits : shape.page_size ≤ shape.stride) {limit : Nat}
    (soon : ∀ address, shape.delay address < limit) (page : Nat)
    (data : List UChar) (m : SpiFlash Chip Unit) (ready : Ready shape.page_size m)
    (small : data.length ≤ shape.page_size)
    (inside : (page + 1) * shape.stride ≤ 2 ^ (8 * shape.width)) :
    ∃ m', writeOnePageBy (chip shape) limit shape.width (page * shape.stride) data m =
        (.ok (), m') ∧
      Ready shape.page_size m' ∧
      (∀ i < data.length, m'.device.cells (page * shape.stride + i) =
        m.device.cells (page * shape.stride + i) &&& data.getD i 0) ∧
      ∀ address, address / shape.stride ≠ page →
        m'.device.cells address = m.device.cells address := by
  have inside' : page * shape.stride < 2 ^ (8 * shape.width) := by
    rw [Nat.succ_mul] at inside
    omega
  let bytes := 0x02 :: addressBytes shape.width (page * shape.stride)
  let enabled : Chip := { m.device with enabled := true }
  let programmed : Chip :=
    { m.device with
      cells := inPage shape.page_size (page * shape.stride) (· &&& ·) data 0 m.device.cells
      enabled := false
      busy := shape.delay (page * shape.stride) }
  let m₁ : SpiFlash Chip Unit := { (store [0x06] m).2 with device := enabled }
  let m₂ : SpiFlash Chip Unit :=
    { (store bytes m₁).2 with device := enabled.told (release shape) bytes true }
  have enables : enableWrite (chip shape) m = (.ok (), m₁) := by
    have told : m.device.told (release shape) [0x06] false = enabled := by
      rw [Chip.told, if_neg (by simp), ready.released]
      change { m.device.idly { m.device with enabled := true } with held := [] } = enabled
      rw [Chip.idly, if_pos ready.idle, ← ready.released]
    exact (send_stored rfl false m).trans
      (congrArg (fun device => (Except.ok (), { (store [0x06] m).2 with device })) told)
  have sent : send (chip shape) (shape.width + 1) true (store bytes m₁).2 = (.ok (), m₂) :=
    send_stored (length_command 0x02 _) true m₁
  obtain ⟨received, trx⟩ : ∃ received, spimTrx (chip shape)
      { tx_data := some data, word_count := data.length, cs_hold := false } false m₂ =
        (.ok received, { m₂ with device := programmed }) := by
    have told : (enabled.told (release shape) bytes true).told (release shape) data false =
        programmed :=
      program_told (Nat.lt_of_lt_of_le positive fits) ready.released ready.idle rfl inside'
    obtain ⟨received, trx⟩ := @spimTrx_send_chip (reply shape) (release shape) data m₂
    exact ⟨received, trx.trans (congrArg
      (fun device => (Except.ok received, { m₂ with device })) told)⟩
  obtain ⟨m', waits, size, device⟩ := waitDone_chip limit { m₂ with device := programmed }
    ready.released (soon _)
  refine ⟨m', ?_, ⟨size.trans ready.page_size, ?_, ?_⟩, ?_, ?_⟩
  · change (enableWrite (chip shape) >>= fun _ => store bytes >>= fun _ =>
      send (chip shape) (shape.width + 1) true >>= fun _ =>
        spimTrx (chip shape) _ false >>= fun _ =>
      waitDone (chip shape) limit) m = _
    rw [bind_ok enables]
    change (send (chip shape) (shape.width + 1) true >>= fun _ =>
      spimTrx (chip shape) _ false >>= fun _ => waitDone (chip shape) limit) (store bytes m₁).2 = _
    rw [bind_ok sent, bind_ok trx, waits]
  · rw [device]
    exact ready.released
  · rw [device]
  · intro i inside
    rw [device]
    change inPage _ _ _ data 0 m.device.cells _ = _
    rw [inPage_apply (by omega), if_pos (by omega),
      show page * shape.stride + i - (page * shape.stride + 0) = i by omega]
  · intro address elsewhere
    rw [device]
    change inPage _ _ _ data 0 m.device.cells _ = _
    rw [inPage_apply (by omega), if_neg]
    rintro ⟨lower, upper⟩
    apply elsewhere
    rw [Nat.div_eq_of_lt_le]
    · omega
    · rw [Nat.succ_mul]
      omega

end NorFlash

end Uos
