import Uos.Fs.Homes

/-!
# The buffer between the calls

Between two calls the buffer is what the flash holds, or the beginning of the sector of the file
that is written.  Each call keeps this, and does what is proper with the flash, if it comes in a
state that suits it.
-/

namespace Uos

open List

open Command

/-- The buffer begins with bytes for a sector of a file. -/
structure FatBuffer.Pending (v : FatVolume) (sector : Nat) (b : FatBuffer) : Prop where
  proper : b.Proper v
  size : b.cached_sector_size ≠ 0
  bound : b.cached_sector_size ≤ fatSectorSize
  belongs : b.Belongs v sector b.cached_sector_size
  area : v.rootSector + fatSecPerCluster ≤ sector
  held : b.cached_sector = sector → b.Belongs v sector fatSectorSize

namespace Fat32Fw

/-- The buffer is clean, or begins with what is written. -/
inductive Coherent (v : FatVolume) (s : Fat32Fw) : Prop
  | clean (volume : s.volume = v) (clean : s.buffer.Clean v s.buffer.cached_sector)
  | pending (volume : s.volume = v) (mode : s.cur_dir_entry.mode = oWrite)
      (pending : s.buffer.Pending v s.cur_dir_entry.cur_sector)

variable {v : FatVolume} {env : FlashEnv} {s : Fat32Fw}

theorem Coherent.volume (coherent : s.Coherent v) : s.volume = v := by
  cases coherent with
  | clean volume => exact volume
  | pending volume => exact volume

theorem Coherent.proper (coherent : s.Coherent v) : s.buffer.Proper v := by
  cases coherent with
  | clean _ clean => exact clean.proper
  | pending _ _ pending => exact pending.proper

theorem Coherent.of_mode (coherent : s.Coherent v) (mode : s.cur_dir_entry.mode ≠ oWrite) :
    s.buffer.Clean v s.buffer.cached_sector := by
  cases coherent with
  | clean _ clean => exact clean
  | pending _ mode' => exact absurd mode' mode

theorem Coherent.of_size (coherent : s.Coherent v) (size : s.buffer.cached_sector_size = 0) :
    s.buffer.Clean v s.buffer.cached_sector := by
  cases coherent with
  | clean _ clean => exact clean
  | pending _ _ pending => exact absurd size pending.size

/-- A sector may be read: nothing is pending, or it is pending for the sector that the buffer
holds, and another sector is read. -/
def Ready (sector : Nat) (s : Fat32Fw) : Prop :=
  s.buffer.cached_sector_size = 0 ∨
    s.buffer.cached_sector = s.cur_dir_entry.cur_sector ∧ sector ≠ s.cur_dir_entry.cur_sector

theorem Coherent.loadable {sector : Nat} (coherent : s.Coherent v) (ready : s.Ready sector) :
    s.buffer.Loadable v sector := by
  rcases ready with size | ⟨held, other⟩
  · exact (coherent.of_size size).loadable
  · cases coherent with
    | clean _ clean => exact clean.loadable
    | pending _ _ pending =>
      exact {
        proper := pending.proper
        found := fun same => absurd (same.symm.trans held) other
        flushed := fun _ _ => by
          rw [held]
          exact pending.held held }

theorem Coherent.of_clean {sector : Nat} (volume : s.volume = v)
    (clean : s.buffer.Clean v sector) : s.Coherent v := by
  refine .clean volume ?_
  rw [clean.cached]
  exact clean

theorem finish_coherent {command : Command Fat32Fw FsErr Unit} {before : Fat32Fw → Prop}
    (meets : Meets before command (fun _ => Coherent v) fun _ => Coherent v) (start : before s) :
    (finish (command s)).Coherent v := by
  have result := meets s start
  generalize command s = outcome at result ⊢
  rcases outcome with ⟨e | ⟨⟩, s'⟩ <;>
    · cases result with
      | clean volume clean => exact .clean volume clean
      | pending volume mode pending => exact .pending volume mode pending

theorem access_ok {Result : Type} {command : Command FatBuffer FsErr Result} {value : Result}
    {b : FatBuffer} (result : command s.buffer = (.ok value, b)) :
    access command s = (.ok value, { s with buffer := b }) := by
  rw [access, within, result]

theorem usedRecords_le (bytes : Nat → UChar) : usedRecords bytes ≤ entriesPerSector := by
  calc usedRecords bytes ≤ (List.range entriesPerSector).length :=
        (takeWhile_sublist _).length_le
    _ = entriesPerSector := length_range

section Works

variable (works : ∀ op, env.ok op = true)

include works

variable {sector size : Nat} {e : Fat32FwEntry}

/-- `fat_read_sector` only changes the buffer. -/
theorem read_ok (loadable : s.buffer.Loadable v sector) :
    ∃ b, access (FatBuffer.fatReadSector env sector) s = (.ok (), { s with buffer := b }) ∧
      b.Clean v sector := by
  have result := FatBuffer.meets_fatReadSector works s.buffer loadable
  split at result
  · rename_i b same
    exact ⟨b, access_ok same, result⟩
  · exact result.elim

/-- `fat_write_sector` only changes the buffer. -/
theorem write_ok (bound : size ≤ fatSectorSize) (proper : s.buffer.Proper v)
    (belongs : s.buffer.Belongs v sector fatSectorSize) (agrees : s.buffer.Agrees sector size) :
    ∃ b, access (FatBuffer.fatWriteSector env sector size) s = (.ok (), { s with buffer := b }) ∧
      b.Clean v sector := by
  have result := FatBuffer.meets_fatWriteSector works s.buffer ⟨proper, belongs, agrees, bound⟩
  split at result
  · rename_i b same
    exact ⟨b, access_ok same, result⟩
  · exact result.elim

theorem meets_read {before after : Fat32Fw → Prop} {left : FsErr → Fat32Fw → Prop}
    (loadable : ∀ s, before s → s.buffer.Loadable v sector)
    (holds : ∀ s b, before s → b.Clean v sector → after { s with buffer := b }) :
    Meets before (access (FatBuffer.fatReadSector env sector)) (fun _ => after) left := by
  intro s start
  obtain ⟨b, read, clean⟩ := read_ok works (loadable s start)
  rw [read]
  exact holds s b start clean

/-- The records that are counted fit into the directory.  A full first sector ends the count if the
byte behind the buffer is zero. -/
theorem meets_countEntries {n nb_sec first : Nat} (bound : first + entriesPerSector * n ≤ 1024) :
    Meets
      (fun s => s.volume = v ∧ s.cur_dir_entry = e ∧ s.nb_entries = first ∧
        s.buffer.Loadable v nb_sec ∧ (n = 0 → s.Coherent v))
      (countEntries env n nb_sec)
      (fun _ s => s.volume = v ∧ s.cur_dir_entry = e ∧
        s.buffer.Clean v s.buffer.cached_sector ∧
        (env.behind = 0 → s.nb_entries ≤ first + entriesPerSector) ∧
        (env.behind ≠ 0 → s.nb_entries < first + entriesPerSector * n))
      fun _ => Coherent v := by
  induction n generalizing nb_sec first with
  | zero => exact meets_leave fun s ⟨_, _, _, _, coherent⟩ => coherent rfl
  | succ n ih =>
    rw [Nat.mul_succ] at bound ⊢
    refine meets_seq (fun s => s.volume = v ∧ s.cur_dir_entry = e ∧
      s.nb_entries = first ∧ s.buffer.Clean v nb_sec) ?_ ?_
    · refine meets_read works (fun s start => start.2.2.2.1) ?_
      exact fun s b start clean => ⟨start.1, start.2.1, start.2.2.1, clean⟩
    · refine meets_state fun s₀ => ?_
      have full := usedRecords_le s₀.buffer.sector
      have small : first + usedRecords s₀.buffer.sector < 2 ^ 16 := by omega
      refine meets_seq (fun s => s.volume = v ∧ s.cur_dir_entry = e ∧
        s.nb_entries = first + usedRecords s₀.buffer.sector ∧ s.buffer.Clean v nb_sec)
        (meets_change ?_) ?_
      · rintro s ⟨⟨volume, entry, count, clean⟩, -⟩
        refine ⟨volume, entry, ?_, clean⟩
        rw [← count] at small ⊢
        exact Nat.mod_eq_of_lt small
      · refine meets_ite (fun ends => meets_pure ?_) fun goesOn => ?_
        · rintro s ⟨volume, entry, count, clean⟩
          rw [count, clean.cached]
          refine ⟨volume, entry, clean, fun _ => by omega, fun nonzero => ?_⟩
          have short := ends.resolve_right nonzero
          omega
        · obtain ⟨same, nonzero⟩ := not_or.mp goesOn
          have whole : usedRecords s₀.buffer.sector = entriesPerSector := by omega
          rw [whole]
          refine meets_weaken (@ih (nb_sec + 1) (first + entriesPerSector) (by omega)) ?_ ?_
            fun _ _ left => left
          · rintro s ⟨volume, entry, count, clean⟩
            exact ⟨volume, entry, count, clean.loadable, fun _ => .of_clean volume clean⟩
          · rintro _ s ⟨volume, entry, clean, -, count⟩
            refine ⟨volume, entry, clean, fun zero => absurd zero nonzero, fun _ => ?_⟩
            have counted := count nonzero
            omega

theorem meets_counted :
    Meets
      (fun s => s.volume = v ∧ s.cur_dir_entry = e ∧ s.nb_entries = 0 ∧
        s.buffer.Loadable v v.rootSector)
      (countEntries env fatSecPerCluster v.rootSector)
      (fun _ s => s.volume = v ∧ s.cur_dir_entry = e ∧
        s.buffer.Clean v s.buffer.cached_sector ∧ s.nb_entries < 1024)
      fun _ => Coherent v := by
  have room : 0 + entriesPerSector * fatSecPerCluster ≤ 1024 := by decide
  refine meets_weaken (@meets_countEntries v env works e fatSecPerCluster v.rootSector 0 room) ?_ ?_
    fun _ _ left => left
  · rintro s ⟨volume, entry, count, loadable⟩
    exact ⟨volume, entry, count, loadable, fun none => absurd none (by decide)⟩
  · rintro _ s ⟨volume, entry, clean, zero, nonzero⟩
    refine ⟨volume, entry, clean, ?_⟩
    rcases eq_or_ne env.behind 0 with same | other
    · exact Nat.lt_of_le_of_lt (zero same) (by decide)
    · exact Nat.lt_of_lt_of_le (nonzero other) (by decide)

theorem meets_nbEntries :
    Meets
      (fun s => s.Coherent v ∧ s.cur_dir_entry = e ∧ s.nb_entries < 1024 ∧
        (s.nb_entries = 0 → s.Ready v.rootSector))
      (nbEntries env)
      (fun _ s => s.Coherent v ∧ s.cur_dir_entry = e ∧ s.nb_entries < 1024)
      fun _ => Coherent v := by
  refine meets_state fun s₀ => meets_ite (fun known => ?_) fun unknown => ?_
  · exact meets_pure fun s ⟨⟨coherent, entry, few, _⟩, _⟩ => ⟨coherent, entry, few⟩
  · have count := not_not.mp unknown
    rintro s ⟨⟨coherent, entry, few, ready⟩, rfl⟩
    rw [coherent.volume]
    refine meets_weaken (meets_counted works)
      (fun _ start => start) ?_ (fun _ _ left => left) s
      ⟨coherent.volume, entry, count, coherent.loadable (ready count)⟩
    rintro _ s ⟨volume, entry, clean, few⟩
    exact ⟨.of_clean volume clean, entry, few⟩

theorem addRecord_coherent (entry : FsEntry) (sound : v.Sound) (few : s.nb_entries < 1024)
    (volume : s.volume = v) (clean : s.buffer.Clean v (v.recordSector s.nb_entries)) :
    ∃ s', access (FatBuffer.fatWriteSector env (v.recordSector s.nb_entries)
      (s.nb_entries % entriesPerSector * 32 + 32)) (addRecord entry s) = (.ok (), s') ∧
        s'.Coherent v := by
  obtain ⟨place, inside⟩ := sound.recordSector few
  have fits : (FatHome.directory (v.recordSector s.nb_entries)).Fits v
      (v.recordSector s.nb_entries) := ⟨rfl, by rw [place]; exact Nat.le_add_right _ _, inside⟩
  have slot : s.nb_entries % entriesPerSector < 16 := Nat.mod_lt s.nb_entries (by decide)
  have short : s.nb_entries % entriesPerSector * 32 + 32 ≤ fatSectorSize := by
    change _ ≤ 512
    omega
  have stored : (addRecord entry s).buffer =
      s.buffer.store (s.nb_entries % entriesPerSector * 32) (fsEntryToDirEnt entry s.nxt_free)
        (.directory (v.recordSector s.nb_entries)) := by
    rw [← volume]
    rfl
  have agrees : (addRecord entry s).buffer.Agrees (v.recordSector s.nb_entries)
      (s.nb_entries % entriesPerSector * 32 + 32) := by
    rw [stored, ← fsEntryToDirEnt_length entry s.nxt_free]
    exact clean.agrees.store
  have belongs : (addRecord entry s).buffer.Belongs v (v.recordSector s.nb_entries)
      fatSectorSize := by
    rw [stored]
    exact clean.belongs.store_whole fits
  obtain ⟨b, write, clean'⟩ := write_ok works short (by rw [stored]; exact clean.proper)
    belongs agrees
  exact ⟨_, write, .of_clean volume clean'⟩

theorem meets_create {entry : FsEntry} (sound : v.Sound) :
    Meets
      (fun s => s.Coherent v ∧ (s.cur_dir_entry.mode ≠ 0 ∨ s.nb_entries < 1024))
      (create env entry) (fun _ => Coherent v) fun _ => Coherent v := by
  refine meets_state fun s₀ => meets_ite (fun _ => ?_) fun closed => ?_
  · exact meets_leave fun s start => start.1.1
  · have written : s₀.cur_dir_entry.mode ≠ oWrite := by
      rw [not_not.mp closed]
      decide
    refine meets_seq (fun s => s.Coherent v ∧ s.cur_dir_entry = s₀.cur_dir_entry ∧
      s.nb_entries < 1024) ?_ (meets_state fun s₁ => ?_)
    · refine meets_weaken (meets_nbEntries works) ?_
        (fun _ _ counted => counted) fun _ _ left => left
      rintro s ⟨⟨coherent, room⟩, rfl⟩
      exact ⟨coherent, rfl, room.resolve_left closed, fun _ => .inl (coherent.of_mode written).size⟩
    · rintro s ⟨⟨coherent, same, few⟩, rfl⟩
      have clean := coherent.of_mode (by rw [same]; exact written)
      obtain ⟨b, read, clean⟩ := @read_ok v env s works (v.recordSector s.nb_entries) clean.loadable
      rw [coherent.volume, bind_ok read, change_bind]
      obtain ⟨s', write, coherent'⟩ := addRecord_coherent works (s := { s with buffer := b }) entry
        sound few coherent.volume clean
      rw [write]
      exact coherent'

theorem meets_firstEntry :
    Meets (fun s => s.Coherent v ∧ s.Ready v.rootSector) (firstEntry env)
      (fun _ => Coherent v) fun _ => Coherent v := by
  refine meets_state fun s₀ => ?_
  rintro s ⟨⟨coherent, ready⟩, rfl⟩
  obtain ⟨b, read, clean⟩ := read_ok works (coherent.loadable ready)
  rw [coherent.volume, bind_ok read]
  exact .of_clean coherent.volume clean

def nextRecordSector (s : Fat32Fw) : Nat :=
  word (s.volume.rootSector + word (s.cur_parent_pos + 32) / fatSectorSize)

theorem meets_nextEntry :
    Meets
      (fun s => s.Coherent v ∧
        (s.cur_parent_pos = fatClusterSize ∨ s.Ready s.nextRecordSector))
      (nextEntry env) (fun _ => Coherent v) fun _ => Coherent v := by
  refine meets_state fun s₀ => meets_ite (fun _ => ?_) fun inside => ?_
  · exact meets_leave fun s start => start.1.1
  · rintro s ⟨⟨coherent, room⟩, rfl⟩
    have ready := room.resolve_left inside
    obtain ⟨b, read, clean⟩ := read_ok works (coherent.loadable ready)
    dsimp only
    rw [← nextRecordSector, bind_ok read, change_bind, state_bind]
    split_ifs
    · exact .of_clean coherent.volume clean
    · exact .of_clean coherent.volume clean

/-- The loop of `fat32_fw_read` keeps the buffer clean. -/
theorem readLoop_coherent {n : Nat} (coherent : s.Coherent v)
    (mode : s.cur_dir_entry.mode ≠ oWrite) : (readLoop env n size s).2.Coherent v := by
  induction n generalizing size s with
  | zero => exact coherent
  | succ n ih =>
    have clean := coherent.of_mode mode
    have start : s.nextSector.volume = v ∧ s.nextSector.cur_dir_entry.mode ≠ oWrite ∧
        s.nextSector.buffer = s.buffer := by
      rw [nextSector]
      split_ifs <;> exact ⟨coherent.volume, mode, rfl⟩
    obtain ⟨volume, mode', same⟩ := start
    rw [← same] at clean
    rw [readLoop]
    dsimp only
    split_ifs with done
    · exact .of_clean volume clean
    · obtain ⟨b, read, clean'⟩ :=
        @read_ok v env s.nextSector works s.nextSector.cur_dir_entry.cur_sector clean.loadable
      rw [read]
      exact ih (.of_clean volume clean') mode'

theorem fatFwRead_coherent (coherent : s.Coherent v) :
    (fatFwRead env size s).2.Coherent v := by
  rw [fatFwRead]
  split_ifs with mode
  · cases coherent with
    | clean volume clean => exact .clean volume clean
    | pending volume mode' pending => exact .pending volume mode' pending
  · have read_mode := not_not.mp mode
    have mode' : s.cur_dir_entry.mode ≠ oWrite := by
      rw [read_mode]
      decide
    obtain ⟨b, read, clean⟩ := @read_ok v env s works s.cur_dir_entry.cur_sector
      (coherent.of_mode mode').loadable
    dsimp only
    rw [read]
    exact readLoop_coherent works (.of_clean coherent.volume clean) mode'

end Works

theorem Coherent.of_same {s' : Fat32Fw} (coherent : s.Coherent v) (volume : s'.volume = s.volume)
    (buffer : s'.buffer = s.buffer)
    (stays : s.buffer.cached_sector_size = 0 ∨ s'.cur_dir_entry.mode = s.cur_dir_entry.mode ∧
      s'.cur_dir_entry.cur_sector = s.cur_dir_entry.cur_sector) : s'.Coherent v := by
  cases coherent with
  | clean volume' clean => exact .clean (volume.trans volume') (by rw [buffer]; exact clean)
  | pending volume' mode pending =>
    obtain ⟨mode', sector⟩ := stays.resolve_left pending.size
    exact .pending (volume.trans volume') (mode'.trans mode)
      (by rw [buffer, sector]; exact pending)

theorem Coherent.fail {e : FsErr} (coherent : s.Coherent v) :
    ({ s with last_error := e } : Fat32Fw).Coherent v :=
  coherent.of_same rfl rfl (.inr ⟨rfl, rfl⟩)

theorem Coherent.setPos {pos : Nat} (coherent : s.Coherent v) : (s.setPos pos).Coherent v :=
  coherent.of_same rfl rfl (.inr ⟨rfl, rfl⟩)

theorem Coherent.setEnd {pos : Nat} (coherent : s.Coherent v) : (s.setEnd pos).Coherent v :=
  coherent.of_same rfl rfl (.inr ⟨rfl, rfl⟩)

theorem fatFwOpen_coherent {file_mode : Nat} (coherent : s.Coherent v) :
    (fatFwOpen file_mode s).Coherent v := by
  rw [fatFwOpen]
  split_ifs with mode valid
  · exact coherent.fail
  · refine coherent.of_same rfl rfl (.inl (coherent.of_mode ?_).size)
    rw [not_not.mp mode]
    decide
  · exact coherent.fail

theorem fatFwSeekStart_coherent (coherent : s.Coherent v)
    (stays : s.buffer.cached_sector_size = 0 ∨
      s.cur_dir_entry.cur_sector = s.volume.fileStart s.cur_dir_entry.first_clus) :
    s.fatFwSeekStart.Coherent v := by
  rw [fatFwSeekStart]
  split_ifs with mode
  · exact coherent.fail
  · exact coherent.of_same rfl rfl (stays.imp_right fun same => ⟨rfl, same.symm⟩)

/-- The sector to which `fat32_fw_advance` goes. -/
def advanceSector (size : Nat) (s : Fat32Fw) : Nat :=
  s.volume.fileSector s.cur_dir_entry.first_clus (word (s.cur_dir_entry.base.cur_pos + size))

theorem posSector_moveOn (size : Nat) (s : Fat32Fw) :
    (s.moveOn size).posSector = s.advanceSector size := by
  simp only [posSector, moveOn, advanceSector]

theorem fatFwAdvance_coherent {size : Nat} (coherent : s.Coherent v)
    (stays : s.buffer.cached_sector_size = 0 ∨ s.EndOfVolume size ∨
      s.cur_dir_entry.cur_sector = s.advanceSector size) :
    (s.fatFwAdvance size).Coherent v := by
  rw [fatFwAdvance]
  split_ifs with mode eof full
  · exact coherent.fail
  · exact coherent.setPos.fail
  · exact coherent.setEnd.fail
  · refine coherent.of_same rfl rfl (stays.imp_right fun room => ⟨rfl, ?_⟩)
    change (s.moveOn size).posSector = _
    rw [posSector_moveOn, room.resolve_left full]

/-- `fat32_fw_write` suits a state in which the position is in a sector of the data area, without a
gap behind what is pending in the buffer. -/
structure WriteFits (data : List UChar) (s : Fat32Fw) : Prop where
  sector : s.cur_dir_entry.cur_sector = s.posSector
  area : s.volume.rootSector + fatSecPerCluster ≤ s.cur_dir_entry.cur_sector
  inside : s.cur_dir_entry.cur_sector < s.volume.tot_sec32
  gapless : s.cur_dir_entry.base.cur_pos % fatSectorSize ≤ s.buffer.cached_sector_size ∨
    s.buffer.cached_sector = s.cur_dir_entry.cur_sector
  kept : s.buffer.cached_sector_size = 0 ∨ s.cur_dir_entry.base.cur_pos % fatSectorSize ≠ 0 ∨
    data ≠ []
  bound : s.cur_dir_entry.base.cur_pos + data.length ≤ 2 ^ 32

theorem Coherent.belongs {data : List UChar} (coherent : s.Coherent v) (fits : s.WriteFits data) :
    s.buffer.Belongs v s.cur_dir_entry.cur_sector
        (s.cur_dir_entry.base.cur_pos % fatSectorSize) ∧
      (s.buffer.cached_sector = s.cur_dir_entry.cur_sector →
        s.buffer.Belongs v s.cur_dir_entry.cur_sector fatSectorSize) := by
  have held : s.buffer.cached_sector = s.cur_dir_entry.cur_sector →
      s.buffer.Belongs v s.cur_dir_entry.cur_sector fatSectorSize := by
    intro same
    cases coherent with
    | clean _ clean =>
      rw [← same]
      exact clean.belongs
    | pending _ _ pending => exact pending.held same
  refine ⟨?_, held⟩
  intro i before
  rcases fits.gapless with gapless | same
  · cases coherent with
    | clean _ clean =>
      rw [clean.size] at gapless
      omega
    | pending _ _ pending => exact pending.belongs i (by omega)
  · exact held same i (Nat.lt_trans before (Nat.mod_lt _ (by decide)))

/-- In the loop of `fat32_fw_write` a sector was written, and the next one is to come. -/
structure Writing (v : FatVolume) (data : List UChar) (s : Fat32Fw) : Prop where
  volume : s.volume = v
  mode : s.cur_dir_entry.mode = oWrite
  clean : s.buffer.Clean v s.buffer.cached_sector
  behind : s.buffer.cached_sector ≤ s.cur_dir_entry.cur_sector
  aligned : s.cur_dir_entry.base.cur_pos % fatSectorSize = 0
  next : data ≠ [] → s.posSector = s.cur_dir_entry.cur_sector + 1
  area : v.rootSector + fatSecPerCluster ≤ s.cur_dir_entry.cur_sector
  inside : s.cur_dir_entry.cur_sector < v.tot_sec32
  bound : s.cur_dir_entry.base.cur_pos + data.length ≤ 2 ^ 32

theorem fileSector_next {first_clus pos next : Nat}
    (follows : next / fatSectorSize = pos / fatSectorSize + 1) :
    v.fileSector first_clus next = word (v.fileSector first_clus pos + 1) := by
  simp only [FatVolume.fileSector, follows, word, Nat.mod_add_mod, Nat.add_assoc]

/-- The end of the loop of `fat32_fw_write`. -/
theorem meets_writeLoop_nil {n p : Nat} :
    Meets
      (fun s => s.Coherent v ∧ (s.buffer.cached_sector_size = 0 ∨
        s.cur_dir_entry.base.cur_pos % fatSectorSize ≠ 0))
      (writeLoop env n p []) (fun _ => Coherent v) fun _ => Coherent v := by
  cases n with
  | zero => exact meets_pure fun s start => start.1
  | succ n =>
    refine meets_seq (Coherent v) (meets_change ?_) (meets_state fun s₀ => ?_)
    · rintro s ⟨coherent, still⟩
      rw [nextSector]
      split_ifs with aligned
      · exact coherent.of_same rfl rfl (.inl (still.resolve_right fun other => other aligned))
      · exact coherent
    · refine meets_ite (fun _ => ?_) fun _ => ?_
      · exact meets_leave fun s start => start.1
      · exact meets_pure fun s start => start.1

section Works

variable (works : ∀ op, env.ok op = true)

include works

variable {p : Nat} {data : List UChar}

theorem writeWhole_ok {s₀ : Fat32Fw} (whole : data.length = fatSectorSize)
    (fits : (FatHome.file s₀.posSector).Fits v s₀.cur_dir_entry.cur_sector)
    (clean : s₀.buffer.Clean v s₀.buffer.cached_sector)
    (other : s₀.buffer.cached_sector < s₀.cur_dir_entry.cur_sector) :
    ∃ b, writeWhole env p data s₀ = (.ok (), { s₀ with buffer := b }) ∧
      b.Clean v b.cached_sector ∧ b.cached_sector ≤ s₀.cur_dir_entry.cur_sector := by
  rw [writeWhole, state_bind]
  split_ifs with direct
  · refine ⟨_, access_ok (FatBuffer.flashWrite_eq works _ _), ?_, other.le⟩
    have kept : Function.update s₀.buffer.flash s₀.cur_dir_entry.cur_sector (fun i =>
        if i < fatSectorSize then data.getD i 0
        else s₀.buffer.flash s₀.cur_dir_entry.cur_sector i) s₀.buffer.cached_sector =
          s₀.buffer.flash s₀.buffer.cached_sector :=
      Function.update_of_ne other.ne _ _
    exact {
      proper := clean.proper.append fun _ _ => fits
      cached := rfl
      size := clean.size
      belongs := clean.belongs
      agrees := fun i bound behind => (clean.agrees i bound behind).trans (congrFun kept i).symm }
  · rw [change_bind]
    have filled : (s₀.fill 0 data (.file s₀.posSector)).buffer.Belongs v
        s₀.cur_dir_entry.cur_sector fatSectorSize := by
      have none : s₀.buffer.Belongs v s₀.cur_dir_entry.cur_sector 0 :=
        fun i impossible => absurd impossible (Nat.not_lt_zero i)
      have stored : (s₀.fill 0 data (.file s₀.posSector)).buffer.Belongs v
          s₀.cur_dir_entry.cur_sector (0 + data.length) := none.store fits
      rwa [whole, Nat.zero_add] at stored
    obtain ⟨b, write, clean'⟩ := write_ok works (Nat.le_refl fatSectorSize)
      (s := s₀.fill 0 data (.file s₀.posSector)) clean.proper filled
      (fun i bound behind => absurd bound (Nat.not_lt.mpr behind))
    refine ⟨b, write, ?_, ?_⟩
    · rw [clean'.cached]
      exact clean'
    · exact clean'.cached.le

omit works in
theorem Writing.moveOn {b : FatBuffer} (sound : v.Sound) (writing : s.Writing v data)
    (more : data ≠ []) (inside : s.cur_dir_entry.cur_sector + 1 < v.tot_sec32)
    (clean : b.Clean v b.cached_sector)
    (behind : b.cached_sector ≤ s.cur_dir_entry.cur_sector + 1) :
    (Fat32Fw.moveOn fatSectorSize
      { s.setSector (s.cur_dir_entry.cur_sector + 1) with buffer := b }).Writing v
        (data.drop fatSectorSize) := by
  have aligned := writing.aligned
  have bound := writing.bound
  have next := writing.next more
  have top := sound.bound
  refine ⟨writing.volume, writing.mode, clean, behind, ?_, fun rest => ?_,
    Nat.le_succ_of_le writing.area, inside, ?_⟩
  · change word (s.cur_dir_entry.base.cur_pos + 512) % 512 = 0
    change s.cur_dir_entry.base.cur_pos % 512 = 0 at aligned
    rw [word]
    omega
  · have long : 512 < data.length := by
      by_contra short
      exact rest (drop_eq_nil_of_le (Nat.le_of_not_lt short))
    have small : word (s.cur_dir_entry.base.cur_pos + 512) = s.cur_dir_entry.base.cur_pos + 512 :=
      Nat.mod_eq_of_lt (by omega)
    have follows : (s.cur_dir_entry.base.cur_pos + 512) / fatSectorSize =
        s.cur_dir_entry.base.cur_pos / fatSectorSize + 1 :=
      Nat.add_div_right _ (by decide)
    calc
      _ = s.volume.fileSector s.cur_dir_entry.first_clus
          (word (s.cur_dir_entry.base.cur_pos + 512)) := posSector_moveOn fatSectorSize _
      _ = word (s.posSector + 1) := by
          rw [small, fileSector_next follows]
          rfl
      _ = s.cur_dir_entry.cur_sector + 1 + 1 := by
          rw [next]
          exact Nat.mod_eq_of_lt (by omega)
  · change word (s.cur_dir_entry.base.cur_pos + 512) + (data.drop 512).length ≤ 2 ^ 32
    rw [length_drop, word]
    omega

omit works in
theorem Writing.rest (writing : s.Writing v data) (more : data ≠ [])
    (short : data.length < fatSectorSize) (inside : s.cur_dir_entry.cur_sector + 1 < v.tot_sec32) :
    let s₁ := s.setSector (s.cur_dir_entry.cur_sector + 1)
    let s₂ := Fat32Fw.moveOn data.length
      ((s₁.fill 0 data (.file s₁.posSector)).setCached data.length)
    s₂.Coherent v ∧
      (s₂.buffer.cached_sector_size = 0 ∨ s₂.cur_dir_entry.base.cur_pos % fatSectorSize ≠ 0) := by
  intro s₁ s₂
  have some : 0 < data.length := length_pos_of_ne_nil more
  have aligned : s.cur_dir_entry.base.cur_pos % 512 = 0 := writing.aligned
  have fits : (FatHome.file s₁.posSector).Fits v (s.cur_dir_entry.cur_sector + 1) :=
    ⟨writing.next more, Nat.le_succ_of_le writing.area, inside⟩
  have stored : (s.buffer.store 0 data (.file s₁.posSector)).Belongs v
      (s.cur_dir_entry.cur_sector + 1) (0 + data.length) :=
    FatBuffer.Belongs.store (fun i impossible => absurd impossible (Nat.not_lt_zero i)) fits
  rw [Nat.zero_add] at stored
  refine ⟨.pending writing.volume writing.mode ?_, .inr ?_⟩
  · exact {
      proper := writing.clean.proper
      size := some.ne'
      bound := short.le
      belongs := stored
      area := Nat.le_succ_of_le writing.area
      held := fun same => absurd (same ▸ writing.behind) (Nat.not_succ_le_self _) }
  · change word (s.cur_dir_entry.base.cur_pos + data.length) % 512 ≠ 0
    change data.length < 512 at short
    rw [word]
    omega

/-- The loop of `fat32_fw_write` writes one sector behind the other. -/
theorem meets_writeLoop {n : Nat} (sound : v.Sound) :
    Meets (Writing v data) (writeLoop env n p data) (fun _ => Coherent v) fun _ => Coherent v := by
  induction n generalizing p data with
  | zero => exact meets_pure fun s writing => .clean writing.volume writing.clean
  | succ n ih =>
    rintro s writing
    have top : s.cur_dir_entry.cur_sector + 1 < 2 ^ 32 :=
      Nat.lt_of_le_of_lt writing.inside sound.bound
    have moved : s.nextSector = s.setSector (s.cur_dir_entry.cur_sector + 1) := by
      rw [nextSector, if_pos writing.aligned, word, Nat.mod_eq_of_lt top]
    rw [writeLoop, change_bind, state_bind, moved]
    dsimp only
    split_ifs with full none whole
    · exact .clean writing.volume writing.clean
    · exact .clean writing.volume writing.clean
    · have more : data ≠ [] := fun empty => none (by rw [empty]; rfl)
      have inside : s.cur_dir_entry.cur_sector + 1 < v.tot_sec32 := by
        rw [← writing.volume]
        exact Nat.lt_of_not_le full
      obtain ⟨b, write, clean, behind⟩ := @writeWhole_ok v env works p
        (data.take fatSectorSize) (s.setSector (s.cur_dir_entry.cur_sector + 1)) whole
        ⟨writing.next more, Nat.le_succ_of_le writing.area, inside⟩ writing.clean
        (Nat.lt_succ_of_le writing.behind)
      rw [bind_ok write, change_bind, whole]
      exact ih _ (writing.moveOn sound more inside clean behind)
    · have more : data ≠ [] := fun empty => none (by rw [empty]; rfl)
      have inside : s.cur_dir_entry.cur_sector + 1 < v.tot_sec32 := by
        rw [← writing.volume]
        exact Nat.lt_of_not_le full
      have short : data.length < fatSectorSize := by
        rw [length_take] at whole
        omega
      rw [take_of_length_le short.le, drop_eq_nil_of_le short.le, writeRest,
        change_bind,
        change_bind]
      exact meets_writeLoop_nil _ (writing.rest more short inside)

omit works in
theorem Coherent.part (coherent : s.Coherent v) (mode : s.cur_dir_entry.mode = oWrite)
    (fits : s.WriteFits data)
    (short : s.cur_dir_entry.base.cur_pos % fatSectorSize + data.length < fatSectorSize) :
    (((s.fill (s.cur_dir_entry.base.cur_pos % fatSectorSize) data
      (.file s.posSector)).moveOn data.length).setCached
        (s.cur_dir_entry.base.cur_pos % fatSectorSize + data.length)).Coherent v := by
  obtain ⟨before, held⟩ := coherent.belongs fits
  have home : (FatHome.file s.posSector).Fits v s.cur_dir_entry.cur_sector := by
    rw [← coherent.volume]
    exact ⟨fits.sector.symm, fits.area, fits.inside⟩
  rcases eq_or_ne (s.cur_dir_entry.base.cur_pos % fatSectorSize + data.length) 0 with zero | some
  · have empty : data = [] := length_eq_zero_iff.mp (by omega)
    have size : s.buffer.cached_sector_size = 0 := by
      refine fits.kept.resolve_right ?_
      rintro (inside | more)
      · exact inside (by omega)
      · exact more empty
    refine coherent.of_same rfl ?_ (.inl size)
    rw [zero, empty, ← size]
    change ({ s.buffer.store _ [] _ with
      cached_sector_size := s.buffer.cached_sector_size } : FatBuffer) = s.buffer
    rw [FatBuffer.store_nil]
  · refine .pending coherent.volume mode ?_
    exact {
      proper := coherent.proper
      size := some
      bound := short.le
      belongs := before.store home
      area := by
        rw [← coherent.volume]
        exact fits.area
      held := fun same => (held same).store_whole home }

omit works in
theorem Coherent.writing {now : List UChar} {b : FatBuffer} (coherent : s.Coherent v)
    (sound : v.Sound) (mode : s.cur_dir_entry.mode = oWrite) (fits : s.WriteFits (now ++ data))
    (whole : s.cur_dir_entry.base.cur_pos % fatSectorSize + now.length = fatSectorSize)
    (clean : b.Clean v s.cur_dir_entry.cur_sector) :
    Writing v data { s.moveOn now.length with buffer := b } := by
  have bound := fits.bound
  have top := sound.bound
  have area := fits.area
  have inside := fits.inside
  have volume := coherent.volume
  rw [volume] at area inside
  rw [length_append] at bound
  change s.cur_dir_entry.base.cur_pos % 512 + now.length = 512 at whole
  refine ⟨volume, mode, ?_, clean.cached.le, ?_, fun rest => ?_, area, inside, ?_⟩
  · change b.Clean v b.cached_sector
    rw [clean.cached]
    exact clean
  · change word (s.cur_dir_entry.base.cur_pos + now.length) % 512 = 0
    rw [word]
    omega
  · have some : 0 < data.length := length_pos_of_ne_nil rest
    have small : word (s.cur_dir_entry.base.cur_pos + now.length) =
        s.cur_dir_entry.base.cur_pos + now.length := Nat.mod_eq_of_lt (by omega)
    have follows : (s.cur_dir_entry.base.cur_pos + now.length) / fatSectorSize =
        s.cur_dir_entry.base.cur_pos / fatSectorSize + 1 := by
      change (s.cur_dir_entry.base.cur_pos + now.length) / 512 =
        s.cur_dir_entry.base.cur_pos / 512 + 1
      omega
    calc
      _ = s.volume.fileSector s.cur_dir_entry.first_clus
          (word (s.cur_dir_entry.base.cur_pos + now.length)) := posSector_moveOn now.length s
      _ = word (s.posSector + 1) := by
          rw [small, fileSector_next follows]
          rfl
      _ = s.cur_dir_entry.cur_sector + 1 := by
          rw [← fits.sector]
          exact Nat.mod_eq_of_lt (by omega)
  · change word (s.cur_dir_entry.base.cur_pos + now.length) + data.length ≤ 2 ^ 32
    rw [word]
    omega

/-- `fat32_fw_write` keeps the buffer, and writes each sector of the file to its place. -/
theorem meets_write (sound : v.Sound) :
    Meets
      (fun s => s.Coherent v ∧ (s.cur_dir_entry.mode ≠ oWrite ∨ s.WriteFits data))
      (write env p data) (fun _ => Coherent v) fun _ => Coherent v := by
  rintro s ⟨coherent, fits⟩
  rw [write, state_bind]
  split_ifs with mode
  · exact coherent
  · have fits := fits.resolve_left mode
    have mode := not_not.mp mode
    dsimp only
    rw [change_bind, change_bind]
    have offset : s.cur_dir_entry.base.cur_pos % fatSectorSize < fatSectorSize :=
      Nat.mod_lt _ (by decide)
    split_ifs with short
    · rw [length_take] at short
      rw [take_of_length_le (by omega)]
      exact coherent.part mode fits (by omega)
    · have whole : s.cur_dir_entry.base.cur_pos % fatSectorSize +
          (data.take (fatSectorSize - s.cur_dir_entry.base.cur_pos % fatSectorSize)).length =
            fatSectorSize := by
        rw [length_take] at short ⊢
        omega
      have home : (FatHome.file s.posSector).Fits v s.cur_dir_entry.cur_sector := by
        rw [← coherent.volume]
        exact ⟨fits.sector.symm, fits.area, fits.inside⟩
      have filled : (s.buffer.store (s.cur_dir_entry.base.cur_pos % fatSectorSize)
          (data.take (fatSectorSize - s.cur_dir_entry.base.cur_pos % fatSectorSize))
          (.file s.posSector)).Belongs v s.cur_dir_entry.cur_sector
            (s.cur_dir_entry.base.cur_pos % fatSectorSize + (data.take (fatSectorSize -
              s.cur_dir_entry.base.cur_pos % fatSectorSize)).length) :=
        (coherent.belongs fits).1.store home
      rw [whole] at filled
      obtain ⟨b, written, clean⟩ := write_ok works (Nat.le_refl fatSectorSize)
        (s := (s.fill (s.cur_dir_entry.base.cur_pos % fatSectorSize)
          (data.take (fatSectorSize - s.cur_dir_entry.base.cur_pos % fatSectorSize))
          (.file s.posSector)).moveOn
            (data.take (fatSectorSize - s.cur_dir_entry.base.cur_pos % fatSectorSize)).length)
        coherent.proper filled (fun i bound behind => absurd bound (Nat.not_lt.mpr behind))
      rw [bind_ok written]
      rw [← take_append_drop
        (fatSectorSize - s.cur_dir_entry.base.cur_pos % fatSectorSize) data] at fits
      exact meets_writeLoop works sound _ (coherent.writing sound mode fits whole clean)

end Works

end Fat32Fw
end Uos
