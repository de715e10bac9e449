import Uos.Fs.Coherence

/-!
# Calls on a volume

A file that was written is closed, and calls follow each other.  As long as every call suits its
state, each sector gets only what belongs to it, and is read as it is.
-/

namespace Uos

open Command

namespace FatHome

variable {v : FatVolume} {home : FatHome}

/-- What belongs into `FSInfo` belongs into its copy. -/
theorem Fits.copy (sound : v.Sound) (fits : home.Fits v 1) : home.Fits v 7 := by
  have reserved := sound.reserved
  have root := sound.rootSector
  cases home with
  | unknown => exact fits
  | stored sector =>
    rcases fits with same | same
    · exact .inr ⟨same, rfl⟩
    · exact .inr ⟨same.1, rfl⟩
  | file sector =>
    obtain ⟨-, area, -⟩ := fits
    omega
  | directory sector =>
    obtain ⟨-, area, -⟩ := fits
    omega
  | table sector =>
    obtain ⟨-, area, -⟩ := fits
    omega
  | info => exact .inr rfl

end FatHome

theorem FatBuffer.Clean.rewrite {v : FatVolume} {env : FlashEnv} {sector : Nat} {b : FatBuffer}
    (works : ∀ op, env.ok op = true) (clean : b.Clean v sector) :
    ∃ b', flashWrite env sector b.sector b.home fatSectorSize b = (.ok (), b') ∧
      b'.Clean v sector := by
  refine ⟨_, flashWrite_eq works _ _, ?_⟩
  exact {
    proper := clean.proper.append clean.belongs
    cached := clean.cached
    size := clean.size
    belongs := clean.belongs
    agrees := fun i bound _ => by
      have stored (content : Nat → UChar) :
          Function.update b.flash sector content sector i = content i :=
        congrFun (Function.update_self _ content b.flash) i
      exact ((stored _).trans (if_pos bound)).symm }

namespace Fat32Fw

def last (s : Fat32Fw) : Nat :=
  lastCluster s.cur_dir_entry.first_clus s.cur_dir_entry.base.size

/-- `fat32_fw_close` suits a state in which the number of records is known, and the FATs have a link
for the last cluster. -/
structure CloseFits (s : Fat32Fw) : Prop where
  known : s.nb_entries ≠ 0
  few : s.nb_entries ≤ 1024
  above : s.volume.rsvd_sec_cnt ≤ s.volume.linkSector s.last
  below : s.volume.linkSector s.last < s.volume.rootSector

variable {v : FatVolume} {env : FlashEnv} {s : Fat32Fw}

theorem lastRecordSector_inside (sound : v.Sound) {nb_entries : Nat} (known : nb_entries ≠ 0)
    (few : nb_entries ≤ 1024) :
    v.rootSector ≤ v.lastRecordSector nb_entries ∧
      v.lastRecordSector nb_entries < v.rootSector + fatSecPerCluster := by
  have area := sound.area
  have bound := sound.bound
  have root := sound.rootSector
  change _ + 2 * _ + 64 ≤ _ at area
  have records : (nb_entries + entriesPerSector - 1) / entriesPerSector =
      (nb_entries - 1) / 16 + 1 := by
    change (nb_entries + 16 - 1) / 16 = _
    omega
  rw [FatVolume.lastRecordSector, records, word]
  change _ ∧ _ < _ + 64
  omega

section Works

variable (works : ∀ op, env.ok op = true)

include works

theorem patch_ok {sector offset value : Nat} {home : FatHome}
    (loadable : s.buffer.Loadable v sector) (fits : home.Fits v sector) :
    ∃ b, patch env sector offset value home s = (.ok (), { s with buffer := b }) ∧
      b.Clean v sector := by
  obtain ⟨b, read, clean⟩ := read_ok works loadable
  obtain ⟨b', written, clean'⟩ := write_ok works (Nat.le_refl fatSectorSize)
    (s := fill offset (wordBytes value) home { s with buffer := b }) clean.proper
    (clean.belongs.store_whole fits) (fun i bound behind => absurd bound (Nat.not_lt.mpr behind))
  refine ⟨b', ?_, clean'⟩
  rw [patch, bind_ok read, change_bind]
  exact written

theorem closeData_ok (coherent : s.Coherent v) :
    ∃ b, closeData env s = (.ok (), { s with buffer := b }) ∧
      ∀ sector < v.rootSector, b.Loadable v sector := by
  rw [closeData, state_bind]
  cases coherent with
  | clean volume clean =>
    rw [if_neg (not_not.mpr clean.size)]
    exact ⟨s.buffer, rfl, fun sector _ => clean.loadable⟩
  | pending volume mode pending =>
    rw [if_pos pending.size]
    have written := @FatBuffer.fatWriteSector_eq env s.buffer s.cur_dir_entry.cur_sector
      s.buffer.cached_sector_size works
    refine ⟨_, access_ok written, fun sector below => ?_⟩
    exact {
      proper := pending.proper.append pending.belongs
      found := fun same => by
        have area := pending.area
        change s.cur_dir_entry.cur_sector = sector at same
        omega
      flushed := fun _ dirty => absurd rfl dirty }

theorem closeTable_ok {last_cluster : Nat}
    (loadable : s.buffer.Loadable v (s.volume.linkSector last_cluster))
    (above : v.rsvd_sec_cnt ≤ s.volume.linkSector last_cluster)
    (below : s.volume.linkSector last_cluster < v.rootSector) :
    ∃ b, closeTable env last_cluster s = (.ok (), { s with buffer := b }) ∧
      b.Clean v (s.volume.linkSector last_cluster) := by
  rw [closeTable, state_bind]
  exact patch_ok works loadable ⟨rfl, above, below⟩

theorem closeRecord_ok {sector : Nat} (sound : v.Sound) (volume : s.volume = v)
    (clean : s.buffer.Clean v sector) (known : s.nb_entries ≠ 0) (few : s.nb_entries ≤ 1024) :
    ∃ b, closeRecord env s = (.ok (), { s with buffer := b }) ∧
      b.Clean v (v.lastRecordSector s.nb_entries) := by
  subst volume
  obtain ⟨above, below⟩ := lastRecordSector_inside sound known few
  obtain ⟨b, patched, clean⟩ := @patch_ok s.volume env s works
    (s.volume.lastRecordSector s.nb_entries)
    ((s.nb_entries + entriesPerSector - 1) % entriesPerSector * 32 + 28)
    s.cur_dir_entry.base.size (.directory (s.volume.lastRecordSector s.nb_entries)) clean.loadable
    ⟨rfl, above, below⟩
  rw [closeRecord, state_bind, bind_ok patched, state_bind]
  obtain ⟨b', written, clean'⟩ := clean.rewrite works
  exact ⟨b', access_ok written, clean'⟩

/-- The next free cluster is stored in `FSInfo`, and in its copy. -/
theorem closeInfo_ok {sector last_cluster : Nat} (sound : v.Sound)
    (clean : s.buffer.Clean v sector) :
    ∃ b, closeInfo env last_cluster s =
        (.ok (), { s with nxt_free := word (last_cluster + 1), buffer := b }) ∧ b.Clean v 7 := by
  obtain ⟨b, patched, clean⟩ := @patch_ok v env
    { s with nxt_free := word (last_cluster + 1) } works 1 492 (word (last_cluster + 1)) .info
    clean.loadable (.inl rfl)
  obtain ⟨b', written, clean'⟩ := write_ok works (Nat.le_refl fatSectorSize)
    (s := { s with nxt_free := word (last_cluster + 1), buffer := b }) clean.proper
    (fun i bound => (clean.belongs i bound).copy sound)
    (fun i bound behind => absurd bound (Nat.not_lt.mpr behind))
  refine ⟨b', ?_, clean'⟩
  rw [closeInfo, change_bind, bind_ok patched]
  exact written

/-- `fat32_fw_close` of a file that was written. -/
theorem closeWritten_ok (sound : v.Sound) (coherent : s.Coherent v) (fits : s.CloseFits) :
    ∃ s', closeWritten env s = (.ok (), s') ∧ s'.volume = v ∧
      s'.buffer.Clean v s'.buffer.cached_sector := by
  obtain rfl := coherent.volume
  obtain ⟨b₁, data, loadable⟩ := closeData_ok works coherent
  obtain ⟨b₂, table, clean₂⟩ := closeTable_ok works
    (s := { s with buffer := b₁ }) (loadable _ fits.below) fits.above fits.below
  obtain ⟨b₃, record, clean₃⟩ := closeRecord_ok works (s := { s with buffer := b₂ }) sound rfl
    clean₂ fits.known fits.few
  obtain ⟨b₄, info, clean₄⟩ := @closeInfo_ok s.volume env { s with buffer := b₃ } works _ s.last
    sound clean₃
  rw [← clean₄.cached] at clean₄
  refine ⟨{ s with nxt_free := word (s.last + 1), buffer := b₄ }, ?_, rfl, clean₄⟩
  rw [closeWritten, state_bind, bind_ok data]
  exact (bind_ok table).trans ((bind_ok record).trans info)

/-- `flash_flush` keeps the buffer clean. -/
theorem meets_flush :
    Meets (fun s => s.volume = v ∧ s.buffer.Clean v s.buffer.cached_sector)
      (access (FatBuffer.flashFlush env)) (fun _ => Coherent v) fun _ => Coherent v := by
  rintro s ⟨volume, clean⟩
  have flushed : FatBuffer.flashFlush env s.buffer =
      (.ok (), { s.buffer with ops := s.buffer.ops + 1 }) := by
    rw [FatBuffer.flashFlush, if_pos (works _)]
  rw [access_ok flushed]
  exact .clean volume ⟨clean.proper, rfl, clean.size, clean.belongs, clean.agrees⟩

/-- The end of `fat32_fw_close`. -/
theorem meets_closeEnd :
    Meets (fun s => s.volume = v ∧ s.buffer.Clean v s.buffer.cached_sector)
      (do
        change fun s => { s with cur_dir_entry := { s.cur_dir_entry with mode := 0 } }
        access (FatBuffer.flashFlush env))
      (fun _ => Coherent v) fun _ => Coherent v :=
  meets_seq (fun s => s.volume = v ∧ s.buffer.Clean v s.buffer.cached_sector)
    (meets_change fun _ start => start) (meets_flush works)

/-- `fat32_fw_close` -/
theorem meets_close (sound : v.Sound) :
    Meets (fun s => s.Coherent v ∧ (s.cur_dir_entry.mode ≠ oWrite ∨ s.CloseFits))
      (close env) (fun _ => Coherent v) fun _ => Coherent v := by
  rintro s ⟨coherent, fits⟩
  rw [close, state_bind]
  split_ifs with mode
  · obtain ⟨s', written, volume, clean⟩ :=
      closeWritten_ok works sound coherent (fits.resolve_left fun other => other mode)
    rw [bind_ok written]
    exact meets_closeEnd works s' ⟨volume, clean⟩
  · exact meets_closeEnd works s ⟨coherent.volume, coherent.of_mode mode⟩

end Works

/-- A call of the file system. -/
inductive Call
  | create (entry : FsEntry)
  | open (file_mode : Nat)
  | write (p : Nat) (data : List UChar)
  | read (size : Nat)
  | advance (size : Nat)
  | seekStart
  | close
  | nbEntries
  | getFirstEntry
  | getNextEntry

def Call.run (env : FlashEnv) (s : Fat32Fw) : Call → Fat32Fw
  | create entry => fatFwCreate env entry s
  | .open file_mode => fatFwOpen file_mode s
  | write p data => fatFwWrite env p data s
  | read size => (fatFwRead env size s).2
  | advance size => s.fatFwAdvance size
  | seekStart => s.fatFwSeekStart
  | close => fatFwClose env s
  | nbEntries => (fatFwNbEntries env s).2
  | getFirstEntry => Fat32Fw.getFirstEntry env s
  | getNextEntry => Fat32Fw.getNextEntry env s

/-- A call suits its state: nothing that is pending in the buffer is lost for its sector. -/
def Call.Fits (s : Fat32Fw) : Call → Prop
  | create _ => s.cur_dir_entry.mode ≠ 0 ∨ s.nb_entries < 1024
  | .open _ => True
  | write _ data => s.cur_dir_entry.mode ≠ oWrite ∨ s.WriteFits data
  | read _ => True
  | advance size =>
    s.buffer.cached_sector_size = 0 ∨ s.EndOfVolume size ∨
      s.cur_dir_entry.cur_sector = s.advanceSector size
  | seekStart =>
    s.buffer.cached_sector_size = 0 ∨
      s.cur_dir_entry.cur_sector = s.volume.fileStart s.cur_dir_entry.first_clus
  | close => s.cur_dir_entry.mode ≠ oWrite ∨ s.CloseFits
  | nbEntries => s.nb_entries ≠ 0 ∨ s.Ready s.volume.rootSector
  | getFirstEntry => s.Ready s.volume.rootSector
  | getNextEntry => s.cur_parent_pos = fatClusterSize ∨ s.Ready s.nextRecordSector

section Works

variable (works : ∀ op, env.ok op = true)

include works

theorem Call.run_coherent {c : Call} (sound : v.Sound) (coherent : s.Coherent v) (fits : c.Fits s) :
    (c.run env s).Coherent v := by
  cases c with
  | create entry => exact finish_coherent (meets_create works sound) ⟨coherent, fits⟩
  | «open» file_mode => exact fatFwOpen_coherent coherent
  | write p data => exact finish_coherent (meets_write works sound) ⟨coherent, fits⟩
  | read size => exact fatFwRead_coherent works coherent
  | advance size => exact fatFwAdvance_coherent coherent fits
  | seekStart => exact fatFwSeekStart_coherent coherent fits
  | close => exact finish_coherent (meets_close works sound) ⟨coherent, fits⟩
  | nbEntries =>
    rcases eq_or_ne s.nb_entries 0 with unknown | known
    · refine finish_coherent (meets_weaken (meets_nbEntries works (e := s.cur_dir_entry))
        (fun _ start => start) (fun _ s counted => counted.1) fun _ _ left => left)
        ⟨coherent, rfl, ?_, fun _ => ?_⟩
      · rw [unknown]
        decide
      · rw [← coherent.volume]
        exact fits.resolve_left fun known => known unknown
    · have same : (fatFwNbEntries env s).2 = { s with last_error := .ok } := by
        rw [fatFwNbEntries, Fat32Fw.nbEntries, state_bind, if_pos known]
        rfl
      exact (congrArg (Coherent v) same).mpr coherent.fail
  | getFirstEntry =>
    rw [Call.Fits, coherent.volume] at fits
    exact finish_coherent (meets_firstEntry works) ⟨coherent, fits⟩
  | getNextEntry => exact finish_coherent (meets_nextEntry works) ⟨coherent, fits⟩

end Works

def runs (env : FlashEnv) : List Call → Fat32Fw → Fat32Fw
  | [], s => s
  | c :: calls, s => runs env calls (c.run env s)

def Suited (env : FlashEnv) : List Call → Fat32Fw → Prop
  | [], _ => True
  | c :: calls, s => c.Fits s ∧ Suited env calls (c.run env s)

theorem runs_coherent {calls : List Call} (works : ∀ op, env.ok op = true) (sound : v.Sound)
    (coherent : s.Coherent v) (suited : Suited env calls s) : (runs env calls s).Coherent v := by
  induction calls generalizing s with
  | nil => exact coherent
  | cons c calls ih =>
    obtain ⟨fits, suited⟩ := suited
    exact ih (c.run_coherent works sound coherent fits) suited

/-- A structure that is new: nothing is pending, and nothing was done with the flash. -/
structure Fresh (s : Fat32Fw) : Prop where
  events : s.buffer.events = []
  size : s.buffer.cached_sector_size = 0

theorem read_any {sector : Nat} (works : ∀ op, env.ok op = true)
    (loadable : ∀ v, s.buffer.Loadable v sector) :
    ∃ b, access (FatBuffer.fatReadSector env sector) s = (.ok (), { s with buffer := b }) ∧
      ∀ v, b.Clean v sector := by
  obtain ⟨b, read, -⟩ := read_ok works (loadable {})
  refine ⟨b, read, fun v => ?_⟩
  obtain ⟨b', read', clean⟩ := read_ok works (loadable v)
  rw [read] at read'
  injection read' with _ states
  injection states with _ _ _ _ _ _ buffers
  rwa [buffers]

/-- `fat32_fw_init` -/
theorem meets_init (works : ∀ op, env.ok op = true) :
    Meets Fresh (init env) (fun _ s => s.Coherent s.volume) fun e _ => e ≠ .ok := by
  rintro s ⟨events, size⟩
  obtain ⟨b, read, clean⟩ := @read_any env
    { s with buffer := { s.buffer with cached_sector := 2 ^ 32 - 1 } } 0 works (fun v => {
      proper := fun event member => absurd (events ▸ member) (List.not_mem_nil)
      found := fun same => absurd (show 2 ^ 32 - 1 = 0 from same) (by decide)
      flushed := fun _ dirty => absurd size dirty })
  have bad : FsErr.badFormat ≠ .ok := by decide
  rw [init, change_bind, bind_ok read, state_bind]
  split_ifs
  swap
  · exact bad
  rw [change_bind]
  obtain ⟨b', read', clean'⟩ := read_ok works
    (s := { s with volume := FatVolume.ofBootSector b.sector, buffer := b })
    (clean (FatVolume.ofBootSector b.sector)).loadable
  rw [bind_ok read', state_bind]
  split_ifs
  · exact @Coherent.of_clean _ _ 1 rfl
      ⟨clean'.proper, clean'.cached, rfl, clean'.belongs, clean'.agrees⟩
  · exact bad

/-- On a flash that works, calls that suit their states write only what belongs to a sector, and
serve only what it holds. -/
theorem sectors_keep_their_data {calls : List Call} (works : ∀ op, env.ok op = true)
    (fresh : s.Fresh) (mounted : (fatFwInit env s).last_error = .ok)
    (sound : (fatFwInit env s).volume.Sound) (suited : Suited env calls (fatFwInit env s)) :
    ∀ event ∈ (runs env calls (fatFwInit env s)).buffer.events,
      event.Proper (fatFwInit env s).volume := by
  have coherent : (fatFwInit env s).Coherent (fatFwInit env s).volume := by
    have result := meets_init works s fresh
    rw [fatFwInit] at mounted ⊢
    generalize init env s = outcome at result mounted ⊢
    rcases outcome with ⟨e | ⟨⟩, s'⟩
    · exact absurd mounted result
    · exact result.fail
  exact (runs_coherent works sound coherent suited).proper

def workingFlash : FlashEnv where
  ok := fun _ => true
  junk := fun _ _ => 0
  data_align := 0
  erased := fun _ => 0xff
  behind := 0

/-- A volume with four clusters, of which the root directory has one with a single record. -/
def formatted (sector : Nat) : Nat → UChar :=
  let bytes : List (Nat × UChar) :=
    match sector with
    | 0 => [(12, 2), (13, 64), (14, 9), (32, 44), (33, 1), (36, 1), (82, 70), (83, 65), (84, 84),
        (85, 51), (86, 50), (87, 32), (88, 70), (89, 87)]
    | 1 => [(0, 0x52), (1, 0x52), (2, 0x61), (3, 0x41), (484, 0x72), (485, 0x72), (486, 0x41),
        (487, 0x61), (492, 3), (510, 0x55), (511, 0xaa)]
    | 11 => [(0, 70)]
    | _ => []
  fun i => (bytes.lookup i).getD 0

def unmounted : Fat32Fw where
  buffer := { flash := formatted }

theorem sectors_keep_their_data_byte :
    (runs workingFlash [.create {}, .open oWrite, .write 0 [65], .close]
        (fatFwInit workingFlash unmounted)).buffer.events.Forall
      fun event => event.Proper (fatFwInit workingFlash unmounted).volume := by
  refine List.forall_iff_forall_mem.mpr <|
    sectors_keep_their_data (fun _ => rfl) ⟨rfl, rfl⟩ (by decide +kernel) ⟨?_, ?_, ?_⟩
      ⟨.inr ?_, trivial, .inr ⟨?_, ?_, ?_, .inl ?_, .inl ?_, ?_⟩, .inr ⟨?_, ?_, ?_, ?_⟩, trivial⟩
  all_goals decide +kernel

/-- The first byte that is written to a sector is meant for the next sector of a file, or the first
byte that is served is another than the first one of the sector. -/
def Strays : FatEvent → Prop
  | .write sector size home => 0 < size ∧ home 0 = .file (sector + 1)
  | .served _ buffer content => buffer 0 ≠ content 0

instance : DecidablePred Strays
  | .write _ _ _ => inferInstanceAs (Decidable (_ ∧ _))
  | .served _ _ _ => inferInstanceAs (Decidable (_ ≠ _))

theorem Strays.improper {event : FatEvent} (strays : Strays event) : ¬ event.Proper v := by
  intro proper
  cases event with
  | write sector size home =>
    have fits := proper 0 strays.1
    rw [strays.2] at fits
    exact absurd fits.1 (Nat.succ_ne_self sector)
  | served sector buffer content => exact strays (proper 0 (by decide))

/-- A part of a sector that is written stays in the buffer, which holds another sector: if the first
record is read then, the part goes to this sector, or is read as the record. -/
theorem sectors_lose_their_data :
    (¬ ∀ event ∈ (runs workingFlash
          [.create {}, .open oWrite, .write 0 (.replicate 513 65), .getFirstEntry]
          (fatFwInit workingFlash unmounted)).buffer.events,
        event.Proper (fatFwInit workingFlash unmounted).volume) ∧
      ¬ ∀ event ∈ (runs workingFlash [.create {}, .open oWrite, .write 0 [65], .getFirstEntry]
          (fatFwInit workingFlash unmounted)).buffer.events,
        event.Proper (fatFwInit workingFlash unmounted).volume := by
  have lost : ∀ {events : List FatEvent} {v : FatVolume}, (∃ event ∈ events, Strays event) →
      ¬ ∀ event ∈ events, event.Proper v :=
    fun ⟨event, member, strays⟩ proper => strays.improper (proper event member)
  exact ⟨lost (by decide +kernel), lost (by decide +kernel)⟩

end Fat32Fw
end Uos
