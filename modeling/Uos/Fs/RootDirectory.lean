import Uos.Fs.Calls

/-!
# The root directory

What `fat32_fw_nb_entries` counts, what `get_first_entry` and `get_next_entry` return one after the
other, and which bytes and sectors they look at.
-/

namespace Uos

open List

open Command

/-- The `while` loop of `fat32_fw_nb_entries`, from an entry on: the offsets of the bytes that it
reads.  It reads a byte before it compares the offset. -/
def scan (byteAt : Nat → UChar) : Nat → Nat → List Nat
  | 0, _ => []
  | n + 1, e =>
    32 * e :: if byteAt (32 * e) ≠ 0 ∧ 32 * e < fatSectorSize then scan byteAt n (e + 1) else []

def memoryFrom (buffer : Nat → UChar) (behind : UChar) (i : Nat) : UChar :=
  if i < fatSectorSize then buffer i else behind

/-- The offsets that the loop reads when a sector was served. -/
def FatEvent.scanned (behind : UChar) : FatEvent → List Nat
  | .served _ buffer _ => scan (memoryFrom buffer behind) (entriesPerSector + 1) 0
  | .write .. => []

/-- What happens to the flash happens in the cluster of the root directory. -/
def FatEvent.Inside (v : FatVolume) : FatEvent → Prop
  | .served sector _ _ | .write sector _ _ =>
    v.rootSector ≤ sector ∧ sector < v.rootSector + fatSecPerCluster

def FatVolume.recordByte (v : FatVolume) (flash : Nat → Nat → UChar) (record i : Nat) : UChar :=
  flash (v.rootSector + record / entriesPerSector) (record % entriesPerSector * 32 + i)

/-- The directory has some records, and the first empty one stands behind them. -/
structure FatVolume.Filled (v : FatVolume) (flash : Nat → Nat → UChar) (records : Nat) : Prop where
  pos : 0 < records
  le : records ≤ 1024
  used : ∀ record < records, v.recordByte flash record 0 ≠ 0
  empty : records < 1024 → v.recordByte flash records 0 = 0

section Scan

variable {bytes : Nat → UChar} {behind : UChar} {flash : Nat → Nat → UChar} {v : FatVolume}
  {records sector : Nat}

theorem scan_eq {byteAt : Nat → UChar} {e used n : Nat}
    (full : ∀ i, e ≤ i → i < used → byteAt (32 * i) ≠ 0 ∧ 32 * i < fatSectorSize)
    (ends : byteAt (32 * used) = 0 ∨ fatSectorSize ≤ 32 * used) (le : e ≤ used)
    (enough : used < e + n) : scan byteAt n e = (List.range' e (used + 1 - e)).map (32 * ·) := by
  induction n generalizing e with
  | zero => omega
  | succ n ih =>
    have some : used + 1 - e = used + 1 - (e + 1) + 1 := by omega
    rw [scan, some, range'_succ, map_cons]
    rcases le.eq_or_lt with rfl | less
    · have stops : ¬(byteAt (32 * e) ≠ 0 ∧ 32 * e < fatSectorSize) := by
        rintro ⟨nonzero, inside⟩
        rcases ends with zero | outside
        · exact nonzero zero
        · omega
      rw [if_neg stops, Nat.sub_self, range'_zero, map_nil]
    · rw [if_pos (full e le_rfl less),
        ih (fun i above => full i (Nat.le_of_succ_le above)) less (by omega)]

theorem usedRecords_eq {used : Nat} (le : used ≤ entriesPerSector)
    (full : ∀ i < used, bytes (32 * i) ≠ 0)
    (ends : used < entriesPerSector → bytes (32 * used) = 0) : usedRecords bytes = used := by
  obtain ⟨rest, split⟩ : ∃ rest, entriesPerSector = used + rest := Nat.exists_eq_add_of_le le
  have pass : ∀ i ∈ List.range used, decide (bytes (32 * i) ≠ 0) = true :=
    fun i member => decide_eq_true (full i (mem_range.mp member))
  rw [usedRecords, split, range_add, takeWhile_append_of_pos pass]
  cases rest with
  | zero => simp
  | succ rest =>
    have zero := ends (by omega)
    rw [range_succ_eq_map]
    simp [zero]

theorem usedRecords_sector {buffer : Nat → UChar} (filled : v.Filled flash records)
    (same : ∀ i < fatSectorSize, buffer i = flash (v.rootSector + sector) i)
    (before : sector * entriesPerSector ≤ records) (inside : sector < fatSecPerCluster) :
    usedRecords buffer = min entriesPerSector (records - sector * entriesPerSector) ∧
      FatEvent.scanned behind (.served (v.rootSector + sector) buffer
        (flash (v.rootSector + sector)))
        = (List.range (min entriesPerSector (records - sector * entriesPerSector) + 1)).map
            (32 * ·) := by
  have place (i : Nat) (small : i < entriesPerSector) :
      v.recordByte flash (sector * entriesPerSector + i) 0 = buffer (32 * i) := by
    have bound : 32 * i < fatSectorSize := by
      change i < 16 at small
      change 32 * i < 512
      omega
    have div : (sector * entriesPerSector + i) / entriesPerSector = sector := by
      change (sector * 16 + i) / 16 = sector
      change i < 16 at small
      omega
    have mod : (sector * entriesPerSector + i) % entriesPerSector = i := by
      rw [Nat.add_comm, Nat.add_mul_mod_self_right, Nat.mod_eq_of_lt small]
    rw [FatVolume.recordByte, div, mod, same _ bound, Nat.mul_comm, Nat.add_zero]
  generalize counted : min entriesPerSector (records - sector * entriesPerSector) = used
  have le : used ≤ entriesPerSector := by omega
  have full : ∀ i < used, buffer (32 * i) ≠ 0 := by
    intro i small
    rw [← place i (by omega)]
    exact filled.used _ (by omega)
  have ends : used < entriesPerSector → buffer (32 * used) = 0 := by
    intro less
    have all : sector * entriesPerSector + used = records := by omega
    rw [← place used less, all]
    apply filled.empty
    change sector < 64 at inside
    change sector * 16 + used = records at all
    change used < 16 at less
    omega
  refine ⟨usedRecords_eq le full ends, ?_⟩
  have bound (i : Nat) (small : i < entriesPerSector) : 32 * i < fatSectorSize := by
    change i < 16 at small
    change 32 * i < 512
    omega
  have scanned := @scan_eq (memoryFrom buffer behind) 0 used (entriesPerSector + 1) ?_ ?_
    (Nat.zero_le _) (by omega)
  · rwa [← range_eq_range'] at scanned
  · intro i _ small
    rw [memoryFrom, if_pos (bound i (by omega))]
    exact ⟨full i small, bound i (by omega)⟩
  · rcases le.eq_or_lt with rfl | less
    · exact .inr le_rfl
    · rw [memoryFrom, if_pos (bound used less)]
      exact .inl (ends less)

end Scan

namespace FatBuffer

/-- The buffer holds what the flash has in its sector, and nothing waits to be written. -/
structure Faithful (b : FatBuffer) : Prop where
  size : b.cached_sector_size = 0
  same : ∀ i < fatSectorSize, b.sector i = b.flash b.cached_sector i

/-- The buffer was only read through since another one, by some events. -/
structure Reads (b : FatBuffer) (more : List FatEvent) (b' : FatBuffer) : Prop where
  faithful : b'.Faithful
  flash : b'.flash = b.flash
  events : b'.events = b.events ++ more

theorem Reads.trans {b b' b'' : FatBuffer} {more more' : List FatEvent} (first : b.Reads more b')
    (second : b'.Reads more' b'') : b.Reads (more ++ more') b'' where
  faithful := second.faithful
  flash := second.flash.trans first.flash
  events := by rw [second.events, first.events, List.append_assoc]

/-- `fat_read_sector` of a faithful buffer. -/
theorem fatReadSector_faithful {env : FlashEnv} {b : FatBuffer} (works : ∀ op, env.ok op = true)
    (faithful : b.Faithful) (sector : Nat) :
    ∃ b', fatReadSector env sector b = (.ok (), b') ∧
      b.Reads [.served sector b'.sector (b.flash sector)] b' ∧
        ∀ i < fatSectorSize, b'.sector i = b.flash sector i := by
  rw [fatReadSector]
  split_ifs with here
  · subst here
    exact ⟨_, rfl, ⟨⟨faithful.size, faithful.same⟩, rfl, rfl⟩, faithful.same⟩
  · have flushed : flush env b = (.ok (), b) := by
      rw [flush, if_neg (not_not.mpr faithful.size)]
    have read := @flashRead_eq env b sector works
    rw [bind_ok flushed, bind_ok read, change_bind]
    exact ⟨_, rfl, ⟨⟨rfl, fun _ _ => rfl⟩, rfl, rfl⟩, fun _ _ => rfl⟩

end FatBuffer

namespace Fat32Fw

/-- A volume that was just mounted, and whose flash works. -/
structure Mounted (env : FlashEnv) (records : Nat) (s : Fat32Fw) : Prop where
  works : ∀ op, env.ok op = true
  sound : s.volume.Sound
  faithful : s.buffer.Faithful
  filled : s.volume.Filled s.buffer.flash records

variable {env : FlashEnv} {s : Fat32Fw} {records : Nat}

theorem Mounted.reads (mounted : s.Mounted env records) {s' : Fat32Fw} {more : List FatEvent}
    (reads : s.buffer.Reads more s'.buffer) (volume : s'.volume = s.volume) :
    s'.Mounted env records where
  works := mounted.works
  sound := volume ▸ mounted.sound
  faithful := reads.faithful
  filled := by
    rw [reads.flash, volume]
    exact mounted.filled

/-- Every byte that the loop reads behind these events lies in the buffer. -/
def InBuffer (behind : UChar) (events : List FatEvent) : Prop :=
  ∀ event ∈ events, ∀ offset ∈ event.scanned behind, offset < fatSectorSize

theorem scanned_inside_iff {used : Nat} (le : used ≤ entriesPerSector) :
    (∀ offset ∈ (List.range (used + 1)).map (32 * ·), offset < fatSectorSize) ↔
      used < entriesPerSector := by
  change used ≤ 16 at le
  change _ ↔ used < 16
  simp only [mem_map, mem_range, forall_exists_index, and_imp, forall_apply_eq_imp_iff₂]
  constructor
  · intro inside
    have last := inside used (Nat.lt_succ_self used)
    change 32 * used < 512 at last
    omega
  · intro less e small
    change 32 * e < 512
    omega

/-- What the loop of `fat32_fw_nb_entries` counts from a sector on; if the byte behind the buffer is
zero, it stops behind this sector. -/
def countFrom (behind : UChar) (records sector : Nat) : Nat :=
  if behind = 0 then min records ((sector + 1) * entriesPerSector) else records

/-- A turn of the loop of `fat32_fw_nb_entries`. -/
theorem countEntries_turn (mounted : s.Mounted env records) {sector : Nat} (n : Nat)
    (before : sector * entriesPerSector ≤ records) (inside : sector < fatSecPerCluster)
    (count : s.nb_entries = sector * entriesPerSector) :
    ∃ b event, s.buffer.Reads [event] b ∧ event.Inside s.volume ∧
      (InBuffer env.behind [event] ↔ records < (sector + 1) * entriesPerSector) ∧
      countEntries env (n + 1) (s.volume.rootSector + sector) s =
        if records < (sector + 1) * entriesPerSector ∨ env.behind = 0 then
          (.ok (), { s with buffer := b, nb_entries := countFrom env.behind records sector })
        else
          countEntries env n (s.volume.rootSector + (sector + 1)) { s with
            buffer := b, nb_entries := (sector + 1) * entriesPerSector } := by
  obtain ⟨b, read, reads, same⟩ := FatBuffer.fatReadSector_faithful mounted.works mounted.faithful
    (s.volume.rootSector + sector)
  obtain ⟨used, scanned⟩ :=
    @usedRecords_sector env.behind _ _ _ _ _ mounted.filled same before inside
  have le : usedRecords b.sector ≤ entriesPerSector := usedRecords_le b.sector
  have short : usedRecords b.sector < entriesPerSector ↔
      records < (sector + 1) * entriesPerSector := by
    rw [used, Nat.succ_mul]
    omega
  have counted : (s.nb_entries + usedRecords b.sector) % 2 ^ 16 =
      min records ((sector + 1) * entriesPerSector) := by
    rw [count, used, Nat.succ_mul]
    change sector < 64 at inside
    change (sector * 16 + min 16 (records - sector * 16)) % 2 ^ 16 = min records (sector * 16 + 16)
    change sector * 16 ≤ records at before
    omega
  refine ⟨b, _, reads, ⟨Nat.le_add_right .., Nat.add_lt_add_left inside _⟩, ?_, ?_⟩
  · rw [InBuffer, forall_mem_singleton, scanned, ← used, scanned_inside_iff le, short]
  · rw [countEntries, bind_ok (access_ok read), state_bind, change_bind]
    simp only [short, counted]
    by_cases stops : records < (sector + 1) * entriesPerSector ∨ env.behind = 0
    · have all : countFrom env.behind records sector =
          min records ((sector + 1) * entriesPerSector) := by
        rw [countFrom]
        split_ifs with zero
        · rfl
        · exact (Nat.min_eq_left (stops.resolve_right zero).le).symm
      rw [if_pos stops, all]
      exact (if_pos stops).symm
    · have whole := not_lt.mp (not_or.mp stops).1
      rw [if_neg stops, Nat.min_eq_right whole]
      exact (if_neg stops).symm

/-- The loop of `fat32_fw_nb_entries`, from a sector on. -/
theorem countEntries_run {n : Nat} : ∀ {sector : Nat} {s : Fat32Fw}, s.Mounted env records →
    sector + (n + 1) = fatSecPerCluster → sector * entriesPerSector ≤ records →
    s.nb_entries = sector * entriesPerSector →
    ∃ b more, s.buffer.Reads more b ∧ (∀ event ∈ more, event.Inside s.volume) ∧
      (InBuffer env.behind more ↔ records < (sector + 1) * entriesPerSector) ∧
      countEntries env (n + 1) (s.volume.rootSector + sector) s =
        (if records = 1024 ∧ env.behind ≠ 0 then .error .eof else .ok (),
          { s with buffer := b, nb_entries := countFrom env.behind records sector }) := by
  induction n with
  | zero =>
    intro sector s mounted last before count
    have full := mounted.filled.le
    change sector + 1 = 64 at last
    obtain ⟨b, event, reads, here, bytes, turn⟩ :=
      countEntries_turn mounted 0 before (by change sector < 64; omega) count
    refine ⟨b, [event], reads, forall_mem_singleton.mpr here, bytes, turn.trans ?_⟩
    have room : (sector + 1) * entriesPerSector = 1024 := by rw [last]; rfl
    by_cases stops : records < (sector + 1) * entriesPerSector ∨ env.behind = 0
    · rw [if_pos stops, if_neg]
      rintro ⟨all, nonzero⟩
      have less := stops.resolve_right nonzero
      omega
    · obtain ⟨whole, nonzero⟩ := not_or.mp stops
      have all : records = 1024 := by omega
      rw [if_neg stops, if_pos ⟨all, nonzero⟩, countFrom, if_neg nonzero, all, room]
      rfl
  | succ n ih =>
    intro sector s mounted room before count
    obtain ⟨b, event, reads, here, bytes, turn⟩ :=
      countEntries_turn mounted (n + 1) before (by omega) count
    by_cases stops : records < (sector + 1) * entriesPerSector ∨ env.behind = 0
    · refine ⟨b, [event], reads, forall_mem_singleton.mpr here, bytes, turn.trans ?_⟩
      rw [if_pos stops, if_neg]
      rintro ⟨all, nonzero⟩
      have less := stops.resolve_right nonzero
      change sector + (n + 1 + 1) = 64 at room
      change records < (sector + 1) * 16 at less
      omega
    · obtain ⟨whole, nonzero⟩ := not_or.mp stops
      obtain ⟨b', more, reads', there, -, rest⟩ := @ih (sector + 1)
        { s with buffer := b, nb_entries := (sector + 1) * entriesPerSector }
        (mounted.reads reads rfl) (by omega) (not_lt.mp whole) rfl
      refine ⟨b', event :: more, reads.trans reads', forall_mem_cons.mpr ⟨here, there⟩,
        iff_of_false (fun inside => ?_) whole, ?_⟩
      · refine absurd (bytes.mp fun e member => ?_) whole
        exact inside e (mem_cons.mpr (.inl (mem_singleton.mp member)))
      · rw [turn, if_neg stops, rest, countFrom, countFrom, if_neg nonzero, if_neg nonzero]

/-- `fat32_fw_nb_entries` on a volume that was just mounted. -/
theorem fatFwNbEntries_run (mounted : s.Mounted env records) (unknown : s.nb_entries = 0) :
    ∃ b more, s.buffer.Reads more b ∧ (∀ event ∈ more, event.Inside s.volume) ∧
      (InBuffer env.behind more ↔ records < entriesPerSector) ∧
      fatFwNbEntries env s = (countFrom env.behind records 0, { s with
        buffer := b, nb_entries := countFrom env.behind records 0,
        last_error := if records = 1024 ∧ env.behind ≠ 0 then .eof else .ok }) := by
  obtain ⟨b, more, reads, inside, bytes, run⟩ := @countEntries_run env records 63 0 s mounted rfl
    (Nat.zero_le _) unknown
  refine ⟨b, more, reads, inside, by rwa [Nat.zero_add, Nat.one_mul] at bytes, ?_⟩
  have counted : nbEntries env s =
      (if records = 1024 ∧ env.behind ≠ 0 then .error .eof else .ok (),
        { s with buffer := b, nb_entries := countFrom env.behind records 0 }) := by
    rw [nbEntries, state_bind, if_neg (not_not.mpr unknown)]
    exact run
  rw [fatFwNbEntries, counted]
  by_cases full : records = 1024 ∧ env.behind ≠ 0
  · rw [if_pos full, if_pos full]
    rfl
  · rw [if_neg full, if_neg full]
    rfl

theorem counts_iff (mounted : s.Mounted env records) (unknown : s.nb_entries = 0) :
    (fatFwNbEntries env s).1 = records ∧
        (fatFwNbEntries env s).2.last_error = (if records = 1024 then .eof else .ok) ↔
      records ≤ entriesPerSector ∨ env.behind ≠ 0 := by
  obtain ⟨b, more, -, -, -, run⟩ := fatFwNbEntries_run mounted unknown
  rw [run, countFrom, Nat.zero_add, Nat.one_mul]
  have other : entriesPerSector ≠ 1024 := by decide
  rcases eq_or_ne env.behind 0 with zero | nonzero
  · simp only [zero, if_true, ne_eq, not_true_eq_false, and_false, if_false, or_false]
    constructor
    · rintro ⟨same, -⟩
      omega
    · intro few
      have less : records ≠ 1024 := by
        change records ≤ 16 at few
        omega
      rw [if_neg less]
      exact ⟨Nat.min_eq_left few, rfl⟩
  · rw [if_neg nonzero]
    simp only [ne_eq, nonzero, not_false_eq_true, and_true, or_true]

def recordEntry (s : Fat32Fw) (record : Nat) : Fat32FwEntry :=
  dirEntToFsEntry (s.buffer.flash (s.volume.rootSector + record / entriesPerSector))
    (record % entriesPerSector * 32) s.cur_dir_entry

/-- The entries that `get_next_entry` returns until it comes to the end. -/
inductive Listed (env : FlashEnv) : Fat32Fw → List Fat32FwEntry → Fat32Fw → Prop
  | ends {s : Fat32Fw} (eof : (getNextEntry env s).last_error = .eof) :
      Listed env s [] (getNextEntry env s)
  | more {s final : Fat32Fw} {entries : List Fat32FwEntry}
      (ok : (getNextEntry env s).last_error = .ok)
      (rest : Listed env (getNextEntry env s) entries final) :
      Listed env s ((getNextEntry env s).cur_dir_entry :: entries) final

/-- `get_first_entry` and then `get_next_entry` return each record once and in order, and read no
sector of another cluster. -/
def ListsExactly (env : FlashEnv) (records : Nat) (s : Fat32Fw) : Prop :=
  (getFirstEntry env s).last_error = .ok ∧
    ∃ entries final, Listed env (getFirstEntry env s) entries final ∧
      (getFirstEntry env s).cur_dir_entry :: entries = (List.range records).map s.recordEntry ∧
      ∀ event ∈ final.buffer.events.drop s.buffer.events.length, event.Inside s.volume

theorem dirEntToFsEntry_congr {bytes bytes' : Nat → UChar} {offset : Nat} (entry : Fat32FwEntry)
    (same : ∀ i < 32, bytes (offset + i) = bytes' (offset + i)) :
    dirEntToFsEntry bytes offset entry = dirEntToFsEntry bytes' offset entry := by
  have name : (List.range 8).map (fun i => bytes (offset + i)) =
      (List.range 8).map fun i => bytes' (offset + i) :=
    map_congr_left fun i member => same i ((mem_range.mp member).trans (by decide))
  have ext : (List.range 3).map (fun i => bytes (offset + 8 + i)) =
      (List.range 3).map fun i => bytes' (offset + 8 + i) :=
    map_congr_left fun i member => by
      have small := mem_range.mp member
      rw [Nat.add_assoc]
      exact same _ (by omega)
  have short (i : Nat) (small : i < 31) :
      shortAt bytes (offset + i) = shortAt bytes' (offset + i) := by
    rw [shortAt, shortAt, same i (by omega), Nat.add_assoc, same _ (by omega)]
  have word : wordAt bytes (offset + 28) = wordAt bytes' (offset + 28) := by
    rw [wordAt, wordAt, short 28 (by decide), Nat.add_assoc, short 30 (by decide)]
  simp only [dirEntToFsEntry, name, ext, word, short 20 (by decide), short 22 (by decide),
    short 24 (by decide), short 26 (by decide), same 8 (by decide), same 11 (by decide),
    same 13 (by decide)]

/-- `get_first_entry` on a mounted volume. -/
theorem getFirstEntry_run (mounted : s.Mounted env records) :
    ∃ b event, s.buffer.Reads [event] b ∧ event.Inside s.volume ∧
      getFirstEntry env s = { s with
        buffer := b, cur_parent_pos := 0, cur_dir_entry := s.recordEntry 0,
        last_error := .ok } := by
  obtain ⟨b, read, reads, same⟩ := FatBuffer.fatReadSector_faithful mounted.works mounted.faithful
    s.volume.rootSector
  refine ⟨b, _, reads, ⟨le_rfl, Nat.lt_add_of_pos_right (by decide)⟩, ?_⟩
  have entry : dirEntToFsEntry b.sector 0 s.cur_dir_entry = s.recordEntry 0 :=
    dirEntToFsEntry_congr _ fun i small => same _ (by change 0 + i < 512; omega)
  rw [getFirstEntry, firstEntry, state_bind, bind_ok (access_ok read), ← entry]
  rfl

/-- `get_next_entry` behind a record. -/
theorem getNextEntry_run (mounted : s.Mounted env records) {record : Nat}
    (here : s.cur_parent_pos = 32 * record) (small : record < 1024) :
    ∃ b event, s.buffer.Reads [event] b ∧ (event.Inside s.volume ↔ record + 1 < 1024) ∧
      getNextEntry env s =
        if s.volume.recordByte s.buffer.flash (record + 1) 0 = 0 then { s with
          buffer := b, cur_parent_pos := 32 * (record + 1), last_error := .eof }
        else { s with
          buffer := b, cur_parent_pos := 32 * (record + 1),
          cur_dir_entry := s.recordEntry (record + 1), last_error := .ok } := by
  have area := mounted.sound.area
  have bound := mounted.sound.bound
  have root := mounted.sound.rootSector
  change _ + 64 ≤ _ at area
  have pos : word (s.cur_parent_pos + 32) = 32 * (record + 1) := by
    rw [word, here]
    omega
  have sector : 32 * (record + 1) / fatSectorSize = (record + 1) / entriesPerSector := by
    change 32 * (record + 1) / 512 = (record + 1) / 16
    omega
  have offset : 32 * (record + 1) % fatSectorSize = (record + 1) % entriesPerSector * 32 := by
    change 32 * (record + 1) % 512 = (record + 1) % 16 * 32
    omega
  have room : (record + 1) % entriesPerSector * 32 + 32 ≤ fatSectorSize := by
    change (record + 1) % 16 * 32 + 32 ≤ 512
    omega
  have whole : word (s.volume.rootSector + (record + 1) / entriesPerSector) =
      s.volume.rootSector + (record + 1) / entriesPerSector := by
    apply Nat.mod_eq_of_lt
    change _ + (record + 1) / 16 < _
    omega
  obtain ⟨b, read, reads, same⟩ := FatBuffer.fatReadSector_faithful mounted.works mounted.faithful
    (s.volume.rootSector + (record + 1) / entriesPerSector)
  refine ⟨b, _, reads, ?_, ?_⟩
  · change s.volume.rootSector ≤ s.volume.rootSector + (record + 1) / 16 ∧
      s.volume.rootSector + (record + 1) / 16 < s.volume.rootSector + 64 ↔ _
    clear whole offset sector
    omega
  · have first : b.sector ((record + 1) % entriesPerSector * 32) =
        s.volume.recordByte s.buffer.flash (record + 1) 0 := by
      rw [FatVolume.recordByte, Nat.add_zero]
      exact same _ (by omega)
    have entry : dirEntToFsEntry b.sector ((record + 1) % entriesPerSector * 32) s.cur_dir_entry =
        s.recordEntry (record + 1) :=
      dirEntToFsEntry_congr _ fun i small => same _ (by omega)
    have more : s.cur_parent_pos ≠ fatClusterSize := by
      rw [here]
      change 32 * record ≠ 512 * 64
      omega
    have run : nextEntry env s =
        if s.volume.recordByte s.buffer.flash (record + 1) 0 = 0 then
          (.error .eof, { s with buffer := b, cur_parent_pos := 32 * (record + 1) })
        else (.ok (), { s with
          buffer := b, cur_parent_pos := 32 * (record + 1),
          cur_dir_entry := s.recordEntry (record + 1) }) := by
      rw [nextEntry, state_bind, if_neg more]
      simp only [pos, sector, whole]
      rw [bind_ok (access_ok read), change_bind, state_bind]
      simp only [offset, first]
      split_ifs
      · rfl
      · rw [← entry]
        rfl
    rw [getNextEntry, run]
    split_ifs <;> rfl

/-- `get_next_entry` goes on from a record to the next one. -/
theorem getNextEntry_used (mounted : s.Mounted env records) {record : Nat}
    (here : s.cur_parent_pos = 32 * record) (more : record + 1 < records) :
    ∃ b event, s.buffer.Reads [event] b ∧ event.Inside s.volume ∧
      getNextEntry env s = { s with
        buffer := b, cur_parent_pos := 32 * (record + 1),
        cur_dir_entry := s.recordEntry (record + 1), last_error := .ok } := by
  have le := mounted.filled.le
  obtain ⟨b, event, reads, inside, run⟩ := getNextEntry_run mounted here (by omega)
  rw [if_neg (mounted.filled.used _ more)] at run
  exact ⟨b, event, reads, inside.mpr (by omega), run⟩

theorem listed_rest (mounted : s.Mounted env records) (few : records < 1024) {record : Nat}
    (here : s.cur_parent_pos = 32 * record) (less : record < records) :
    ∃ final more, Listed env s ((List.range' (record + 1) (records - (record + 1))).map
        s.recordEntry) final ∧
      s.buffer.Reads more final.buffer ∧ ∀ event ∈ more, event.Inside s.volume := by
  induction left : records - (record + 1) generalizing s record with
  | zero =>
    have last : record + 1 = records := by omega
    obtain ⟨b, event, reads, inside, run⟩ := getNextEntry_run mounted here (by omega)
    rw [last, if_pos (mounted.filled.empty few)] at run
    have ends : (getNextEntry env s).last_error = .eof := by rw [run]
    refine ⟨_, [event], .ends ends, ?_, forall_mem_singleton.mpr (inside.mpr (by omega))⟩
    rw [run]
    exact reads
  | succ n ih =>
    obtain ⟨b, event, reads, inside, run⟩ := getNextEntry_used mounted here (by omega)
    have goesOn : (getNextEntry env s).last_error = .ok := by rw [run]
    have mounted' : (getNextEntry env s).Mounted env records := by
      rw [run]
      exact mounted.reads reads rfl
    have pos : (getNextEntry env s).cur_parent_pos = 32 * (record + 1) := by rw [run]
    obtain ⟨final, more, listed, reads', inside'⟩ := ih mounted' pos (by omega) (by omega)
    refine ⟨final, event :: more, ?_, ?_, forall_mem_cons.mpr ⟨inside, ?_⟩⟩
    · have entry : (getNextEntry env s).cur_dir_entry = s.recordEntry (record + 1) := by rw [run]
      have entries : (getNextEntry env s).recordEntry = s.recordEntry := by
        funext r
        rw [run, recordEntry, recordEntry, reads.flash]
        rfl
      have next := Listed.more goesOn listed
      rwa [entry, entries, ← map_cons, ← range'_succ] at next
    · have first : s.buffer.Reads [event] (getNextEntry env s).buffer := by
        rw [run]
        exact reads
      exact first.trans reads'
    · intro event' member
      have there := inside' event' member
      rwa [run] at there

/-- Behind the cluster `get_next_entry` reads nothing. -/
theorem getNextEntry_full (last : s.cur_parent_pos = fatClusterSize) :
    getNextEntry env s = { s with last_error := .eof } := by
  rw [getNextEntry, nextEntry, state_bind, if_pos last]
  rfl

/-- Behind the last record of a full cluster `get_next_entry` reads a sector of the next cluster. -/
theorem Listed.leaves {entries : List Fat32FwEntry} {final : Fat32Fw}
    (listed : Listed env s entries final) (mounted : s.Mounted env 1024) {record : Nat}
    (here : s.cur_parent_pos = 32 * record) (le : record ≤ 1024) :
    ∃ more, final.buffer.events = s.buffer.events ++ more ∧
      (record < 1024 → ∃ event ∈ more, ¬event.Inside s.volume) := by
  induction listed generalizing record with
  | @ends s eof =>
    rcases le.eq_or_lt with full | less
    · rw [getNextEntry_full (here.trans (full ▸ rfl))]
      exact ⟨[], (append_nil _).symm, fun less => absurd full less.ne⟩
    · obtain ⟨b, event, reads, inside, run⟩ := getNextEntry_run mounted here less
      rcases Nat.lt_or_ge (record + 1) 1024 with more | last
      · rw [run, if_neg (mounted.filled.used _ more)] at eof
        cases eof
      · refine ⟨[event], ?_, fun _ => ⟨event, .head _, fun there => ?_⟩⟩
        · rw [run]
          split_ifs <;> exact reads.events
        · have impossible := inside.mp there
          omega
  | @more s final entries ok rest ih =>
    rcases le.eq_or_lt with full | less
    · rw [getNextEntry_full (here.trans (full ▸ rfl))] at ok
      cases ok
    · obtain ⟨b, event, reads, inside, run⟩ := getNextEntry_run mounted here less
      obtain ⟨volume, buffer, pos⟩ : (getNextEntry env s).volume = s.volume ∧
          (getNextEntry env s).buffer = b ∧
          (getNextEntry env s).cur_parent_pos = 32 * (record + 1) := by
        rw [run]
        split_ifs <;> exact ⟨rfl, rfl, rfl⟩
      obtain ⟨more, events, outside⟩ := ih (mounted.reads (buffer ▸ reads) volume) pos less
      refine ⟨event :: more, ?_, fun _ => ?_⟩
      · rw [events, buffer, reads.events, append_assoc, singleton_append]
      · rcases Nat.lt_or_ge (record + 1) 1024 with goesOn | last
        · obtain ⟨event', member, leaves⟩ := outside goesOn
          exact ⟨event', .tail _ member, volume ▸ leaves⟩
        · refine ⟨event, .head _, fun there => ?_⟩
          have impossible := inside.mp there
          omega

theorem listsExactly_iff (mounted : s.Mounted env records) :
    ListsExactly env records s ↔ records < 1024 := by
  obtain ⟨b, event, reads, inside, run⟩ := getFirstEntry_run mounted
  have mounted' : (getFirstEntry env s).Mounted env records := by
    rw [run]
    exact mounted.reads reads rfl
  have start : (getFirstEntry env s).cur_parent_pos = 32 * 0 := by rw [run]
  have volume : (getFirstEntry env s).volume = s.volume := by rw [run]
  have events : (getFirstEntry env s).buffer.events = s.buffer.events ++ [event] := by
    rw [run]
    exact reads.events
  constructor
  · rintro ⟨-, entries, final, listed, -, clean⟩
    by_contra full
    have all : records = 1024 := le_antisymm mounted.filled.le (not_lt.mp full)
    subst all
    obtain ⟨more, happened, outside⟩ := listed.leaves mounted' start (by decide)
    obtain ⟨event', member, leaves⟩ := outside (by decide)
    apply leaves
    rw [volume]
    apply clean
    rw [happened, events, append_assoc, drop_left]
    exact mem_append_right _ member
  · intro few
    obtain ⟨final, more, listed, reads', inside'⟩ :=
      listed_rest mounted' few start mounted.filled.pos
    refine ⟨by rw [run], _, final, listed, ?_, fun event' member => ?_⟩
    · have entries : (getFirstEntry env s).recordEntry = s.recordEntry := by
        funext r
        rw [run, recordEntry, recordEntry, reads.flash]
        rfl
      have first : (getFirstEntry env s).cur_dir_entry = s.recordEntry 0 := by rw [run]
      obtain ⟨n, rfl⟩ := Nat.exists_eq_succ_of_ne_zero mounted.filled.pos.ne'
      rw [entries, first, ← map_cons, range_eq_range', range'_succ]
      rfl
    · rw [reads'.events, events, append_assoc, drop_left] at member
      rcases mem_cons.mp member with rfl | later
      · exact inside
      · exact volume ▸ inside' event' later

/-- The enumeration of the directory: the number of the records and the list of them are right, and
no byte behind the buffer and no sector of another cluster is read. -/
structure Enumerates (env : FlashEnv) (records : Nat) (s : Fat32Fw) : Prop where
  count : (fatFwNbEntries env s).1 = records
  error : (fatFwNbEntries env s).2.last_error = if records = 1024 then .eof else .ok
  bytes : InBuffer env.behind
    ((fatFwNbEntries env s).2.buffer.events.drop s.buffer.events.length)
  sectors : ∀ event ∈ (fatFwNbEntries env s).2.buffer.events.drop s.buffer.events.length,
    event.Inside s.volume
  lists : ListsExactly env records s

/-- A directory is enumerated as it should be if and only if its records do not fill a sector. -/
theorem enumerates_iff (mounted : s.Mounted env records) (unknown : s.nb_entries = 0) :
    Enumerates env records s ↔ records < 16 := by
  obtain ⟨b, more, reads, inside, bytes, run⟩ := fatFwNbEntries_run mounted unknown
  have happened : (fatFwNbEntries env s).2.buffer.events.drop s.buffer.events.length = more := by
    rw [run, reads.events, drop_left]
  constructor
  · intro enumerates
    have within := enumerates.bytes
    rw [happened] at within
    exact bytes.mp within
  · intro few
    obtain ⟨count, error⟩ := (counts_iff mounted unknown).mpr (.inl few.le)
    refine ⟨count, error, ?_, ?_, (listsExactly_iff mounted).mpr (by omega)⟩
    · rw [happened]
      exact bytes.mpr few
    · rw [happened]
      exact inside

theorem unmounted_mounted : (fatFwInit workingFlash unmounted).Mounted workingFlash 1 where
  works _ := rfl
  sound := by
    constructor <;> decide +kernel
  faithful := ⟨rfl, fun _ _ => rfl⟩
  filled := ⟨by decide, by decide, by decide +kernel, by decide +kernel⟩

theorem enumerates_one :
    Enumerates workingFlash 1 (fatFwInit workingFlash unmounted) ↔ 1 < 16 :=
  enumerates_iff unmounted_mounted rfl

def seventeen (sector : Nat) (i : Nat) : UChar :=
  if sector = 11 ∧ i % 32 = 0 ∨ sector = 12 ∧ i = 0 then 70 else formatted sector i

/-- Its directory goes on behind a full sector, but the byte behind the buffer is zero. -/
theorem seventeen_stops :
    ¬∀ (env : FlashEnv) (records : Nat) (s : Fat32Fw), s.Mounted env records → s.nb_entries = 0 →
      Enumerates env records s := by
  intro all
  have mounted : (fatFwInit workingFlash { buffer := { flash := seventeen } }).Mounted workingFlash
      17 :=
    { works := fun _ => rfl
      sound := by constructor <;> decide +kernel
      faithful := ⟨rfl, fun _ _ => rfl⟩
      filled := ⟨by decide, by decide, by decide +kernel, by decide +kernel⟩ }
  have enumerates := all _ _ _ mounted rfl
  have few := (counts_iff mounted rfl).mp ⟨enumerates.count, enumerates.error⟩
  exact absurd few (by decide)

end Fat32Fw

end Uos
