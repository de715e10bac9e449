import Uos.Flash.PageAccess

/-!
# Where pages are written and read

The loop of `cyclic_func` adds the number of bytes of a page to an address, which is the address of
the next page unless pages are further apart than they are long.
-/

namespace Uos

open List

open Command SpiFlash

section Loops

variable {shape : ChipShape} {func : Nat → Nat → Nat →
  Command (SpiFlash Chip Unit) FlashExit (List UChar)}

variable {address cur_data : Nat} {data : List UChar}

variable {limit size : Nat} {m : SpiFlash Chip Unit}

/-- A turn of `cyclic_func`. -/
theorem cyclicLoop_turn {cur_size : Nat} {m₁ m₂ : SpiFlash Chip Unit} {first rest : List UChar}
    (some : size ≠ 0) (portion : cur_size = min size m.page_size)
    (turn : func address cur_data cur_size m = (.ok first, m₁))
    (later : cyclicLoop func limit ((address + cur_size) % 2 ^ 32) (cur_data + cur_size)
      (size - cur_size) m₁ = (.ok rest, m₂)) :
    cyclicLoop func (limit + 1) address cur_data size m = (.ok (first ++ rest), m₂) := by
  have same : (if size < m.page_size then size else m.page_size) = cur_size := by
    rw [portion]
    split_ifs <;> omega
  have unlocked : unlocking (func address cur_data cur_size) m = (.ok first, m₁) := by
    rw [SpiFlash.unlocking, cleaning, turn]
  rw [cyclicLoop, if_neg some, state_bind]
  simp only [same]
  rw [bind_ok unlocked, bind_ok later]
  rfl

theorem add_mod_address (narrow : shape.width ≤ 4) (address more : Nat) :
    (address % 2 ^ 32 + more) % 2 ^ (8 * shape.width) =
      (address + more) % 2 ^ (8 * shape.width) := by
  have divides : 2 ^ (8 * shape.width) ∣ 2 ^ 32 := Nat.pow_dvd_pow 2 (by omega)
  rw [Nat.add_mod, Nat.mod_mod_of_dvd _ divides, ← Nat.add_mod]

/-- What `cyclic_func` reads comes from the addresses that it adds up. -/
theorem cyclicLoop_reads (reads : ReadsAt shape func) (positive : 0 < shape.page_size)
    (narrow : shape.width ≤ 4) (address cur_data : Nat) (ready : Ready shape.page_size m)
    (enough : size < limit) :
    ∃ m', cyclicLoop func limit address cur_data size m =
        (.ok ((List.range size).map fun i => m.device.cells (shape.after
          ((address + i / shape.page_size * shape.page_size) % 2 ^ (8 * shape.width))
          (i % shape.page_size))), m') ∧
      m'.device = m.device ∧ Ready shape.page_size m' := by
  induction limit generalizing address cur_data size m with
  | zero => exact absurd enough (Nat.not_lt_zero _)
  | succ limit ih =>
    by_cases empty : size = 0
    · subst empty
      exact ⟨m, rfl, rfl, ready⟩
    · let cur_size := min size shape.page_size
      have less : size - cur_size < limit := by omega
      obtain ⟨m₁, turn, device₁, ready₁⟩ := reads address cur_data cur_size m ready
      obtain ⟨m₂, later, device₂, ready₂⟩ := @ih (size - cur_size) m₁
        ((address + cur_size) % 2 ^ 32) (cur_data + cur_size) ready₁ less
      refine ⟨m₂, ?_, device₂.trans device₁, ready₂⟩
      rw [cyclicLoop_turn empty (by rw [ready.page_size]) turn later, device₁]
      congr 2
      have split : List.range size =
          List.range cur_size ++ (List.range (size - cur_size)).map (cur_size + ·) := by
        rw [← range_add, Nat.add_sub_cancel' (Nat.min_le_left _ _)]
      rw [split, map_append, map_map]
      congr 1
      · refine map_congr_left fun i member => ?_
        have small : i < shape.page_size := by
          have := mem_range.mp member
          omega
        rw [Nat.div_eq_of_lt small, Nat.mod_eq_of_lt small, Nat.zero_mul, Nat.add_zero]
      · refine map_congr_left fun i member => ?_
        have full : cur_size = shape.page_size := by
          have := mem_range.mp member
          omega
        rw [add_mod_address narrow, Function.comp_apply, full, Nat.add_div_left _ positive,
          Nat.add_mod_left, Nat.succ_mul]
        congr 3
        ring

theorem contents_add (positive : 0 < shape.page_size) (cells : Nat → UChar)
    (page_num pages size : Nat) :
    shape.contents cells page_num (pages * shape.page_size + size) =
      shape.contents cells page_num (pages * shape.page_size) ++
        shape.contents cells (page_num + pages) size := by
  rw [ChipShape.contents, range_add, map_append, map_map]
  congr 1
  refine map_congr_left fun i _ => ?_
  rw [Function.comp_apply, Nat.add_comm (pages * shape.page_size) i,
    Nat.add_mul_div_right _ _ positive, Nat.add_mul_mod_self_right]
  congr 3
  ring

theorem getElem_contents (cells : Nat → UChar) (page_num : Nat) {i : Nat}
    (inside : i < (shape.contents cells page_num size).length) :
    (shape.contents cells page_num size)[i] =
      cells ((page_num + i / shape.page_size) * shape.stride + i % shape.page_size) := by
  simp only [ChipShape.contents, getElem_map, getElem_range]

theorem page_of_address (positive : 0 < shape.page_size) (fits : shape.page_size ≤ shape.stride)
    (page i : Nat) : (page * shape.stride + i % shape.page_size) / shape.stride = page := by
  have small := Nat.mod_lt i positive
  rw [Nat.add_comm, Nat.add_mul_div_right _ _ (by omega), Nat.div_eq_of_lt (by omega), Nat.zero_add]

theorem contents_congr (positive : 0 < shape.page_size) (fits : shape.page_size ≤ shape.stride)
    {cells cells' : Nat → UChar} {page_num : Nat}
    (same : ∀ address, page_num ≤ address / shape.stride →
      address / shape.stride < page_num + (size + shape.page_size - 1) / shape.page_size →
      cells' address = cells address) :
    shape.contents cells' page_num size = shape.contents cells page_num size := by
  refine map_congr_left fun i member => ?_
  apply same
  · rw [page_of_address positive fits]
    exact Nat.le_add_right _ _
  · rw [page_of_address positive fits]
    apply Nat.add_lt_add_left
    have inside := mem_range.mp member
    rw [Nat.div_lt_iff_lt_mul positive]
    have turns := Nat.div_add_mod (size + shape.page_size - 1) shape.page_size
    have rest := Nat.mod_lt (size + shape.page_size - 1) positive
    rw [Nat.mul_comm]
    omega

theorem contents_written {cells cells' : Nat → UChar} {page : Nat} (small : size ≤ shape.page_size)
    (whole : cur_data + size ≤ data.length)
    (erased : shape.contents cells page size = List.replicate size 0xFF)
    (put : ∀ i < size, cells' (page * shape.stride + i) =
      cells (page * shape.stride + i) &&& data.getD (cur_data + i) 0) :
    shape.contents cells' page size = (data.drop cur_data).take size := by
  have length (cells : Nat → UChar) : (shape.contents cells page size).length = size := by
    rw [ChipShape.contents, length_map, length_range]
  apply ext_getElem
  · rw [length, length_take, length_drop]
    omega
  · intro i inside inside'
    rw [length] at inside
    have before := getElem_of_eq erased (by rwa [length])
    rw [getElem_contents, getElem_replicate] at before
    rw [getElem_contents, Nat.div_eq_of_lt (by omega), Nat.mod_eq_of_lt (by omega),
      Nat.add_zero] at *
    rw [put i inside, before, getElem_take, getElem_drop,
      getD_eq_getElem data 0 (by omega)]
    exact BitVec.allOnes_and

/-- What `cyclic_func` writes comes into pages that follow each other, if they are as far apart as
they are long. -/
theorem cyclicLoop_writes (writes : WritesAt shape data func) (positive : 0 < shape.page_size)
    (fits : shape.page_size ≤ shape.stride) (narrow : shape.width ≤ 4) {page : Nat}
    (ready : Ready shape.page_size m) (enough : size < limit)
    (start : size ≠ 0 → address = page * shape.stride) (whole : cur_data + size = data.length)
    (dense : shape.stride = shape.page_size ∨ size ≤ shape.page_size)
    (inside : ∀ k, k * shape.page_size < size →
      (page + k + 1) * shape.stride ≤ 2 ^ (8 * shape.width))
    (erased : shape.contents m.device.cells page size = List.replicate size 0xFF) :
    ∃ m', cyclicLoop func limit address cur_data size m = (.ok [], m') ∧
      Ready shape.page_size m' ∧
      shape.contents m'.device.cells page size = data.drop cur_data ∧
      ∀ address, address / shape.stride < page →
        m'.device.cells address = m.device.cells address := by
  induction limit generalizing address page cur_data size m with
  | zero => exact absurd enough (Nat.not_lt_zero _)
  | succ limit ih =>
    by_cases empty : size = 0
    · subst empty
      refine ⟨m, rfl, ready, ?_, fun _ _ => rfl⟩
      rw [Nat.add_zero] at whole
      rw [whole, drop_length]
      rfl
    · obtain rfl := start empty
      by_cases last : size ≤ shape.page_size
      · obtain ⟨m₁, turn, ready₁, put, other⟩ := writes page cur_data size m ready (by omega) last
          (inside 0 (by omega))
        have later : cyclicLoop func limit ((page * shape.stride + size) % 2 ^ 32)
            (cur_data + size) (size - size) m₁ = (.ok [], m₁) := by
          obtain ⟨more, rfl⟩ : ∃ more, limit = more + 1 := ⟨limit - 1, by omega⟩
          rw [Nat.sub_self]
          rfl
        refine ⟨m₁, ?_, ready₁, ?_, fun address below => other address (by omega)⟩
        · refine cyclicLoop_turn empty ?_ turn later
          rw [ready.page_size, Nat.min_eq_left last]
        · rw [contents_written last (by omega) erased put, take_of_length_le]
          rw [length_drop]
          omega
      · have stride : shape.stride = shape.page_size := dense.resolve_right last
        obtain ⟨m₁, turn, ready₁, put, other⟩ := writes page cur_data shape.page_size m ready
          (by omega) (Nat.le_refl _) (inside 0 (by omega))
        obtain ⟨more, rfl⟩ : ∃ more, size = 1 * shape.page_size + more :=
          ⟨size - shape.page_size, by omega⟩
        rw [contents_add positive, replicate_add] at erased
        have lengths : (shape.contents m.device.cells page (1 * shape.page_size)).length =
            (List.replicate (1 * shape.page_size) (0xFF : UChar)).length := by
          rw [ChipShape.contents, length_map, length_range, length_replicate]
        obtain ⟨erased₁, erased₂⟩ := append_inj erased lengths
        rw [Nat.one_mul] at *
        have untouched : shape.contents m₁.device.cells (page + 1) more =
            List.replicate more 0xFF := by
          rw [← erased₂]
          exact contents_congr positive fits fun address above _ => other address (by omega)
        have next : (page * shape.stride + shape.page_size) % 2 ^ 32 =
            (page + 1) * shape.stride := by
          have far := inside 1 (by omega)
          have wide : 2 ^ (8 * shape.width) ≤ 2 ^ 32 := Nat.pow_le_pow_right (by omega) (by omega)
          rw [Nat.succ_mul (page + 1)] at far
          rw [← stride, ← Nat.add_one_mul, Nat.mod_eq_of_lt (by omega)]
        have inside' : ∀ k, k * shape.page_size < more →
            (page + 1 + k + 1) * shape.stride ≤ 2 ^ (8 * shape.width) := by
          intro k below
          rw [show page + 1 + k + 1 = page + (k + 1) + 1 by omega]
          exact inside (k + 1) (by rw [Nat.succ_mul]; omega)
        obtain ⟨m₂, later, ready₂, put₂, other₂⟩ := ih ready₁ (by omega) (fun _ => next)
          (show cur_data + shape.page_size + more = data.length by omega) (.inl stride) inside'
          untouched
        refine ⟨m₂, ?_, ready₂, ?_, fun address below => ?_⟩
        · refine cyclicLoop_turn empty ?_ turn ?_
          · rw [ready.page_size, Nat.min_eq_right (by omega)]
          · rwa [Nat.add_sub_cancel_left]
        · rw [← Nat.one_mul shape.page_size, contents_add positive, Nat.one_mul, put₂]
          have kept : shape.contents m₂.device.cells page shape.page_size =
              shape.contents m₁.device.cells page shape.page_size := by
            have one : (shape.page_size + shape.page_size - 1) / shape.page_size = 1 :=
              Nat.div_eq_of_lt_le (by omega) (by omega)
            refine contents_congr positive fits fun address _ above => other₂ address ?_
            rwa [one] at above
          rw [kept, contents_written (Nat.le_refl _) (by omega) erased₁ put, ← drop_drop,
            take_append_drop]
        · rw [other₂ address (by omega), other address (by omega)]

theorem Ready.unlock {page_size : Nat} (ready : Ready page_size m) :
    Ready page_size (SpiFlash.unlock m).2 := by
  obtain ⟨device, size⟩ := unlock_device m
  exact ⟨size.trans ready.page_size, by rw [device, ready.released], by rw [device, ready.idle]⟩

theorem cyclicFunc_of_loop {m' : SpiFlash Chip Unit}
    (loop : cyclicLoop func limit address 0 size (lock m).2 = (.ok data, m')) :
    cyclicFunc limit address size func m = (.ok data, (unlock m').2) :=
  bind_ok loop

end Loops

namespace PageDriver

variable {page_size page_num size limit : Nat} {delay : Nat → Nat} {m : SpiFlash Chip Unit}

/-- The pages that the data need have addresses that can be sent. -/
def Inside (driver : PageDriver) (page_size page_num size : Nat) : Prop :=
  ∀ k, k * page_size < size →
    (page_num + k + 1) * driver.pageAddress page_size 1 ≤ 2 ^ (8 * driver.width)

variable (driver : PageDriver)

theorem stride_eq (reported : page_size ∈ driver.pageSizes) :
    0 < page_size ∧ page_size ≤ driver.pageAddress page_size 1 ∧
      (driver.pageAddress page_size 1 = page_size ∨ driver = at45dbxx ∧ page_size = 264) := by
  cases driver <;> simp only [pageSizes, mem_cons, not_mem_nil, or_false] at reported
  · rcases reported with rfl | rfl
    · exact ⟨by decide, by decide, .inl (by decide)⟩
    · exact ⟨by decide, by decide, .inr ⟨rfl, rfl⟩⟩
  · subst reported
    exact ⟨by decide, by decide, .inl (by decide)⟩
  · rcases reported with rfl | rfl
    · exact ⟨by decide, by decide, .inl (by decide)⟩
    · exact ⟨by decide, by decide, .inl (by decide)⟩

theorem pageAddress_eq (page_size page_num : Nat) :
    driver.pageAddress page_size page_num =
      page_num * driver.pageAddress page_size 1 % 2 ^ 32 := by
  cases driver with
  | at45dbxx =>
    change (if page_size = 264 then _ else _) = page_num * (if page_size = 264 then _ else _) % _
    split_ifs
    · simp only [Nat.one_mul, Nat.mul_mod_mod]
    · simp only [Nat.one_mul, Nat.mul_mod_mod]
  | _ =>
    change page_num * page_size % 2 ^ 32 = page_num * (1 * page_size % 2 ^ 32) % 2 ^ 32
    rw [Nat.one_mul, Nat.mul_mod_mod]

theorem width_le : driver.width ≤ 4 := by
  cases driver <;> decide

section Reports

variable {Device : Type} (spi : Spi Device)

end Reports

def readPage (driver : PageDriver) (shape : ChipShape) (address size : Nat) :
    Command (SpiFlash Chip Unit) FlashExit (List UChar) :=
  match driver with
  | at45dbxx => At45dbxx.readOnePage (At45dbxx.chip shape) address size
  | m25pxx => NorFlash.readOnePageBy (NorFlash.chip shape) 3 address size
  | s25fl => NorFlash.readOnePageBy (NorFlash.chip shape) 4 address size

def writePage (driver : PageDriver) (shape : ChipShape) (limit address : Nat)
    (data : List UChar) : Command (SpiFlash Chip Unit) FlashExit Unit :=
  match driver with
  | at45dbxx => At45dbxx.writeOnePage (At45dbxx.chip shape) limit address data
  | m25pxx => NorFlash.writeOnePageBy (NorFlash.chip shape) limit 3 address data
  | s25fl => NorFlash.writeOnePageBy (NorFlash.chip shape) limit 4 address data

theorem read_eq (shape : ChipShape) (limit page_num size : Nat) (m : SpiFlash Chip Unit) :
    driver.read shape limit page_num size m =
      cyclicFunc limit (driver.pageAddress m.page_size page_num) size
        (fun address _ size => driver.readPage shape address size) m := by
  cases driver <;> rfl

theorem write_eq (shape : ChipShape) (limit page_num : Nat) (data : List UChar)
    (m : SpiFlash Chip Unit) :
    driver.write shape limit page_num data m =
      (cyclicFunc limit (driver.pageAddress m.page_size page_num) data.length
        (fun address cur_data size =>
          driver.writePage shape limit address ((data.drop cur_data).take size) >>= fun _ =>
            pure []) >>= fun _ => pure ()) m := by
  cases driver <;> rfl

theorem readPage_readsAt (page_size : Nat) (delay : Nat → Nat) :
    ReadsAt (driver.shape page_size delay) fun address _ size =>
      driver.readPage (driver.shape page_size delay) address size := by
  intro address _ size m ready
  cases driver with
  | at45dbxx => exact At45dbxx.readOnePage_chip rfl address size m ready
  | m25pxx => exact NorFlash.readOnePageBy_chip address size m ready
  | s25fl => exact NorFlash.readOnePageBy_chip address size m ready

theorem writePage_writesAt (reported : page_size ∈ driver.pageSizes)
    (soon : ∀ address, delay address < limit) (data : List UChar) :
    WritesAt (driver.shape page_size delay) data (fun address cur_data size =>
      driver.writePage (driver.shape page_size delay) limit address
        ((data.drop cur_data).take size) >>= fun _ => pure []) := by
  intro page cur_data size m ready whole small inside
  obtain ⟨positive, fits, -⟩ := driver.stride_eq reported
  have length : ((data.drop cur_data).take size).length = size := by
    rw [length_take, length_drop]
    omega
  have written : ∃ m', driver.writePage (driver.shape page_size delay) limit
        (page * (driver.shape page_size delay).stride) ((data.drop cur_data).take size) m =
          (.ok (), m') ∧
      Ready page_size m' ∧
      (∀ i < ((data.drop cur_data).take size).length,
        m'.device.cells (page * (driver.shape page_size delay).stride + i) =
          m.device.cells (page * (driver.shape page_size delay).stride + i) &&&
            ((data.drop cur_data).take size).getD i 0) ∧
      ∀ address, address / (driver.shape page_size delay).stride ≠ page →
        m'.device.cells address = m.device.cells address := by
    rw [← length] at small
    cases driver with
    | at45dbxx =>
      exact At45dbxx.writeOnePage_chip rfl positive fits soon page _ m ready small inside
    | m25pxx => exact NorFlash.writeOnePageBy_chip positive fits soon page _ m ready small inside
    | s25fl => exact NorFlash.writeOnePageBy_chip positive fits soon page _ m ready small inside
  obtain ⟨m', writes, ready', put, other⟩ := written
  refine ⟨m', bind_ok writes, ready', fun i below => ?_, other⟩
  rw [put i (by rwa [length])]
  congr 1
  rw [getD_eq_getElem _ 0 (by rwa [length]), getElem_take, getElem_drop,
    getD_eq_getElem data 0 (by omega)]

theorem read_addresses (reported : page_size ∈ driver.pageSizes) (delay : Nat → Nat)
    (page_num : Nat) (ready : Ready page_size m) (enough : size < limit) :
    ∃ m', driver.read (driver.shape page_size delay) limit page_num size m =
        (.ok ((List.range size).map fun i =>
          m.device.cells ((driver.shape page_size delay).after
            ((page_num * driver.pageAddress page_size 1 + i / page_size * page_size) %
              2 ^ (8 * driver.width)) (i % page_size))), m') ∧
      m'.device.cells = m.device.cells ∧ Ready page_size m' := by
  have locked : Ready page_size (lock m).2 := ⟨ready.page_size, ready.released, ready.idle⟩
  obtain ⟨m', loop, device, ready'⟩ := cyclicLoop_reads
    (driver.readPage_readsAt page_size delay) (driver.stride_eq reported).1 driver.width_le
    (driver.pageAddress m.page_size page_num) 0 locked enough
  refine ⟨(unlock m').2, ?_, ?_, ?_⟩
  · rw [read_eq, cyclicFunc_of_loop loop, ready.page_size, pageAddress_eq]
    congr 2
    refine map_congr_left fun i _ => ?_
    rw [add_mod_address driver.width_le]
    rfl
  · rw [(unlock_device m').1, device]
    rfl
  · exact ready'.unlock

theorem read_contents (reported : page_size ∈ driver.pageSizes) (delay : Nat → Nat)
    (ready : Ready page_size m) (enough : size < limit)
    (inside : driver.Inside page_size page_num size)
    (dense : driver.pageAddress page_size 1 = page_size ∨ size ≤ page_size) :
    ∃ m', driver.read (driver.shape page_size delay) limit page_num size m =
        (.ok ((driver.shape page_size delay).contents m.device.cells page_num size), m') ∧
      m'.device.cells = m.device.cells ∧ Ready page_size m' := by
  obtain ⟨positive, fits, -⟩ := driver.stride_eq reported
  obtain ⟨m', reads, cells, ready'⟩ := driver.read_addresses reported delay page_num ready enough
  refine ⟨m', ?_, cells, ready'⟩
  rw [reads]
  congr 2
  refine map_congr_left fun i member => ?_
  have below := mem_range.mp member
  have turns := Nat.div_add_mod i page_size
  have start : page_num * driver.pageAddress page_size 1 + i / page_size * page_size =
      (page_num + i / page_size) * driver.pageAddress page_size 1 := by
    rcases dense with stride | small
    · rw [stride, Nat.add_mul]
    · rw [Nat.div_eq_of_lt (by omega), Nat.zero_mul, Nat.add_zero, Nat.add_zero]
  have far := inside (i / page_size) (by rw [Nat.mul_comm]; omega)
  rw [Nat.add_one_mul] at far
  rw [start, Nat.mod_eq_of_lt (by omega)]
  exact congrArg _ (ChipShape.after_start fits _ (Nat.mod_lt i positive))

theorem write_contents (reported : page_size ∈ driver.pageSizes)
    (soon : ∀ address, delay address < limit) {data : List UChar} (ready : Ready page_size m)
    (length : data.length = size) (enough : size < limit)
    (inside : driver.Inside page_size page_num size)
    (dense : driver.pageAddress page_size 1 = page_size ∨ size ≤ page_size)
    (erased : (driver.shape page_size delay).contents m.device.cells page_num size =
      List.replicate size 0xFF) :
    ∃ m', driver.write (driver.shape page_size delay) limit page_num data m = (.ok (), m') ∧
      (driver.shape page_size delay).contents m'.device.cells page_num size = data ∧
      Ready page_size m' := by
  obtain ⟨positive, fits, -⟩ := driver.stride_eq reported
  have locked : Ready page_size (lock m).2 := ⟨ready.page_size, ready.released, ready.idle⟩
  have whole : 0 + size = data.length := by omega
  have start : size ≠ 0 → driver.pageAddress m.page_size page_num =
      page_num * driver.pageAddress page_size 1 := by
    intro some
    have far := inside 0 (by omega)
    have wide : 2 ^ (8 * driver.width) ≤ 2 ^ 32 :=
      Nat.pow_le_pow_right (by decide) (by have := driver.width_le; omega)
    rw [Nat.add_one_mul] at far
    rw [ready.page_size, pageAddress_eq, Nat.mod_eq_of_lt]
    exact Nat.lt_of_lt_of_le (by omega) wide
  obtain ⟨m', loop, ready', put, -⟩ := cyclicLoop_writes
    (driver.writePage_writesAt reported soon data) positive fits driver.width_le locked enough
    start whole dense inside erased
  refine ⟨(unlock m').2, ?_, ?_, ready'.unlock⟩
  · rw [write_eq, length]
    exact bind_ok (cyclicFunc_of_loop loop)
  · rw [(unlock_device m').1]
    exact put

theorem readParts_contents (reported : page_size ∈ driver.pageSizes) (delay : Nat → Nat)
    (parts : List Nat) {rest : Nat} (ready : Ready page_size m)
    (enough : parts.sum * page_size + rest < limit)
    (inside : driver.Inside page_size page_num (parts.sum * page_size + rest))
    (dense : driver.pageAddress page_size 1 = page_size ∨
      parts.sum * page_size + rest ≤ page_size) :
    ∃ m', driver.readParts (driver.shape page_size delay) limit page_num parts rest m =
      (.ok ((driver.shape page_size delay).contents m.device.cells page_num
        (parts.sum * page_size + rest)), m') := by
  induction parts generalizing page_num m with
  | nil =>
    rw [sum_nil, Nat.zero_mul, Nat.zero_add] at *
    obtain ⟨m', reads, -⟩ := driver.read_contents reported delay ready enough inside dense
    exact ⟨m', reads⟩
  | cons pages parts ih =>
    have total : (pages :: parts).sum * page_size + rest =
        pages * page_size + (parts.sum * page_size + rest) := by
      rw [sum_cons]
      ring
    rw [total] at enough inside dense ⊢
    have positive := (driver.stride_eq reported).1
    have inside₁ : driver.Inside page_size page_num (pages * page_size) :=
      fun k below => inside k (by omega)
    have inside₂ : driver.Inside page_size (page_num + pages)
        (parts.sum * page_size + rest) := by
      intro k below
      have far := inside (pages + k) (by rw [Nat.add_mul]; omega)
      rwa [← Nat.add_assoc] at far
    obtain ⟨m₁, first, cells, ready₁⟩ := driver.read_contents reported delay ready
      (show pages * page_size < limit by omega) inside₁ (dense.imp_right (by omega))
    obtain ⟨m₂, later⟩ := ih ready₁ (by omega) inside₂ (dense.imp_right (by omega))
    refine ⟨m₂, ?_⟩
    rw [cells] at later
    have joined : (driver.shape page_size delay).contents m.device.cells page_num
        (pages * page_size + (parts.sum * page_size + rest)) = _ :=
      contents_add positive m.device.cells page_num pages (parts.sum * page_size + rest)
    change (driver.read (driver.shape page_size delay) limit page_num (pages * page_size) >>=
      fun first => driver.readParts (driver.shape page_size delay) limit (page_num + pages) parts
        rest >>= fun rest => pure (first ++ rest)) m = _
    rw [bind_ok first, bind_ok later, joined]
    rfl

theorem not_paged (more : 264 < size) (inside : at45dbxx.Inside 264 page_num size) :
    ¬ Paged at45dbxx 264 page_num size := by
  intro paged
  let m : SpiFlash Chip Unit :=
    { own := ()
      page_size := 264
      device := { cells := fun address => if address = (page_num + 1) * 512 then 1 else 0 } }
  have ready : Ready 264 m := ⟨rfl, rfl, rfl⟩
  obtain ⟨m', reads, -⟩ := paged.reads (fun _ => 0) (size + 1) m ready (by omega)
  obtain ⟨m'', addresses, -⟩ := at45dbxx.read_addresses (by decide) (fun _ => 0) page_num ready
    (show size < size + 1 by omega)
  rw [addresses] at reads
  have same := congrArg (fun read => read.getD 264 0) (Except.ok.inj (Prod.mk.inj reads).1)
  have far : (page_num + 1 + 1) * 512 ≤ 2 ^ 24 := inside 1 (by omega)
  have wrong : (page_num * 512 + 264) % 2 ^ 24 ≠ (page_num + 1) * 512 := by
    rw [Nat.mod_eq_of_lt (by omega)]
    omega
  have element (bytes : Nat → UChar) : ((List.range size).map bytes).getD 264 0 = bytes 264 := by
    rw [getD_eq_getElem _ 0 (by rwa [length_map, length_range]), getElem_map,
      getElem_range]
  rw [ChipShape.contents, element, element] at same
  change (if (page_num * 512 + 264) % 2 ^ 24 = (page_num + 1) * 512 then 1 else 0 : UChar) =
    if (page_num + 1) * 512 + 0 = (page_num + 1) * 512 then 1 else 0 at same
  rw [if_neg wrong, if_pos (Nat.add_zero _)] at same
  exact absurd same (by decide)

/-- The bytes belong to the pages from the first one on, unless pages of 264 bytes are longer than
what `cyclic_func` adds to their address, and there is more than one of them. -/
theorem paged_iff (driver : PageDriver) (reported : page_size ∈ driver.pageSizes)
    (inside : driver.Inside page_size page_num size) :
    Paged driver page_size page_num size ↔
      ¬ (driver = at45dbxx ∧ page_size = 264 ∧ 264 < size) := by
  constructor
  · rintro paged ⟨rfl, rfl, more⟩
    exact not_paged more inside paged
  · intro single
    have dense : driver.pageAddress page_size 1 = page_size ∨ size ≤ page_size := by
      rcases (driver.stride_eq reported).2.2 with stride | ⟨same, long⟩
      · exact .inl stride
      · refine .inr ?_
        by_contra more
        exact single ⟨same, long, by omega⟩
    refine ⟨?_, ?_, ?_⟩
    · intro delay limit m ready enough
      obtain ⟨m', reads, cells, -⟩ := driver.read_contents reported delay ready enough inside dense
      exact ⟨m', reads, cells⟩
    · intro delay limit data m ready length enough soon erased
      obtain ⟨m', writes, put, -⟩ := driver.write_contents reported soon ready length enough
        inside dense erased
      exact ⟨m', writes, put⟩
    · intro delay limit data m parts rest ready length enough soon erased total
      obtain ⟨m', writes, put, ready'⟩ := driver.write_contents reported soon ready length enough
        inside dense erased
      subst total
      obtain ⟨m'', reads⟩ := driver.readParts_contents reported delay parts ready' enough
        inside dense
      rw [put] at reads
      exact ⟨m'', (bind_ok writes).trans reads⟩

theorem paged_three_hundred : Paged m25pxx 256 7 300 :=
  (m25pxx.paged_iff (by decide) (by
    intro k below
    change (7 + k + 1) * 256 ≤ 2 ^ 24
    omega)).mpr fun impossible => by cases impossible.1

/-- The second page of 264 bytes is sought 264 addresses behind the first one, and lies 512
addresses behind it. -/
theorem at45dbxx_not_paged : ¬ Paged at45dbxx 264 0 265 :=
  not_paged (by decide) (by
    intro k below
    change (0 + k + 1) * 512 ≤ 2 ^ 24
    omega)

end PageDriver

end Uos
