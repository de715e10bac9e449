import Mathlib.Data.Nat.Basic
import Mathlib.Order.Basic
import Uos.Fs.FastWrite

/-!
# Where the bytes of a sector belong

Which bytes may be written to which sector, and what the buffer has to be like when a sector is read
or written through it.
-/

namespace Uos

open List

open Command

/-- A volume with all its regions: the boot sectors and `FSInfo`, two FATs, and the data area, which
begins with the root directory. -/
structure FatVolume.Sound (v : FatVolume) : Prop where
  reserved : 8 < v.rsvd_sec_cnt
  area : v.rsvd_sec_cnt + 2 * v.fat_sz32 + fatSecPerCluster ≤ v.tot_sec32
  bound : v.tot_sec32 < 2 ^ 32

theorem FatVolume.Sound.rootSector {v : FatVolume} (sound : v.Sound) :
    v.rootSector = v.rsvd_sec_cnt + 2 * v.fat_sz32 := by
  have area := sound.area
  have bound := sound.bound
  exact Nat.mod_eq_of_lt (by omega)

theorem FatVolume.Sound.recordSector {v : FatVolume} (sound : v.Sound) {record : Nat}
    (few : record < 1024) :
    v.recordSector record = v.rootSector + record / entriesPerSector ∧
      v.recordSector record < v.rootSector + fatSecPerCluster := by
  have area := sound.area
  have bound := sound.bound
  have inside : record / entriesPerSector < fatSecPerCluster := Nat.div_lt_of_lt_mul few
  have same : v.recordSector record = v.rootSector + record / entriesPerSector :=
    Nat.mod_eq_of_lt (by rw [sound.rootSector]; omega)
  exact ⟨same, by omega⟩

theorem dirEntName_length (name : List UChar) : (dirEntName name).length = 11 := by
  have short : ((name.take 8).takeWhile (· ≠ 46)).length ≤ 8 :=
    Nat.le_trans (takeWhile_sublist _).length_le (length_take_le 8 name)
  unfold dirEntName
  generalize (name.take 8).takeWhile (· ≠ 46) = stem at short ⊢
  have first : (if stem.length < 8 then stem ++ [32] else stem).length ≤ 8 := by
    split_ifs with blank
    · rw [length_append]
      exact blank
    · exact short
  have extension (rest : List UChar) : (rest.take 3).length ≤ 3 := length_take_le 3 rest
  dsimp only
  generalize (if stem.length < 8 then stem ++ [32] else stem) = first' at first ⊢
  simp only [length_append, length_replicate]
  have last := extension (if (name.drop stem.length).head? = some 46 then
    (name.drop stem.length).tail else name.drop stem.length)
  omega

theorem fsEntryToDirEnt_length (entry : FsEntry) (first_clus : Nat) :
    (fsEntryToDirEnt entry first_clus).length = 32 := by
  simp [fsEntryToDirEnt, shortBytes, dirEntName_length]

/-- Whether a byte from a place belongs to a sector.  The copy of `FSInfo` is in sector 7. -/
def FatHome.Fits (v : FatVolume) (sector : Nat) : FatHome → Prop
  | .unknown => False
  | .stored from_sector => from_sector = sector ∨ from_sector = 1 ∧ sector = 7
  | .file file_sector =>
    file_sector = sector ∧ v.rootSector + fatSecPerCluster ≤ sector ∧ sector < v.tot_sec32
  | .directory nb_sec =>
    nb_sec = sector ∧ v.rootSector ≤ sector ∧ sector < v.rootSector + fatSecPerCluster
  | .table fat_sec => fat_sec = sector ∧ v.rsvd_sec_cnt ≤ sector ∧ sector < v.rootSector
  | .info => sector = 1 ∨ sector = 7

/-- Whether what is written to a sector belongs to it, and what is served is what the sector
holds. -/
def FatEvent.Proper (v : FatVolume) : FatEvent → Prop
  | .write sector size home => ∀ i < size, (home i).Fits v sector
  | .served _ buffer content => ∀ i < fatSectorSize, buffer i = content i

namespace FatBuffer

variable (v : FatVolume)

/-- Everything that was done with the flash so far was proper. -/
def Proper (b : FatBuffer) : Prop :=
  ∀ event ∈ b.events, event.Proper v

/-- The bytes in front of `size` belong to a sector. -/
def Belongs (sector size : Nat) (b : FatBuffer) : Prop :=
  ∀ i < size, (b.home i).Fits v sector

/-- From an offset on the buffer is as the sector in the flash. -/
def Agrees (sector offset : Nat) (b : FatBuffer) : Prop :=
  ∀ i < fatSectorSize, offset ≤ i → b.sector i = b.flash sector i

/-- The buffer holds what the flash has in its sector. -/
structure Clean (sector : Nat) (b : FatBuffer) : Prop where
  proper : b.Proper v
  cached : b.cached_sector = sector
  size : b.cached_sector_size = 0
  belongs : b.Belongs v sector fatSectorSize
  agrees : b.Agrees sector 0

/-- `fat_read_sector` may be called: if it finds the sector in the buffer, this is up to date, and
if it writes the buffer back, the bytes belong where they go. -/
structure Loadable (sector : Nat) (b : FatBuffer) : Prop where
  proper : b.Proper v
  found : b.cached_sector = sector → b.Clean v sector
  flushed : b.cached_sector ≠ sector → b.cached_sector_size ≠ 0 →
    b.Belongs v b.cached_sector fatSectorSize

variable {v} {env : FlashEnv} {b : FatBuffer} {sector size : Nat}

theorem Clean.loadable {held : Nat} (clean : b.Clean v held) : b.Loadable v sector where
  proper := clean.proper
  found same := by
    obtain rfl : held = sector := clean.cached.symm.trans same
    exact clean
  flushed _ dirty := absurd clean.size dirty

theorem Proper.append {event : FatEvent} (proper : b.Proper v) (last : event.Proper v) :
    ∀ other ∈ b.events ++ [event], other.Proper v := by
  intro other member
  rcases mem_append.mp member with member | member
  · exact proper other member
  · rwa [mem_singleton.mp member]

section Works

variable (works : ∀ op, env.ok op = true)

include works

/-- What a successful `flash_write` does. -/
theorem flashWrite_eq (data : Nat → UChar) (home : Nat → FatHome) :
    flashWrite env sector data home size b = (.ok (), { b with
      flash := Function.update b.flash sector fun i => if i < size then data i else b.flash sector i
      ops := b.ops + 1
      events := b.events ++ [.write sector size home] }) := by
  simp only [flashWrite, works, if_true]

/-- What a successful `flash_read` does. -/
theorem flashRead_eq :
    flashRead env sector b = (.ok (), { b with
      sector := b.flash sector, home := fun _ => .stored sector, ops := b.ops + 1 }) := by
  simp only [flashRead, works, if_true]

/-- What a successful `fat_write_sector` does. -/
theorem fatWriteSector_eq :
    fatWriteSector env sector size b = (.ok (), { b with
      flash := Function.update b.flash sector fun i =>
        if i < size then b.sector i else b.flash sector i
      ops := b.ops + 1
      events := b.events ++ [.write sector size b.home]
      cached_sector := sector
      cached_sector_size := 0 }) := by
  rw [fatWriteSector, state_bind, bind_ok (flashWrite_eq works b.sector b.home)]
  rfl

theorem meets_fatReadSector :
    Meets (Loadable v sector) (fatReadSector env sector) (fun _ => Clean v sector)
      fun _ _ => False := by
  intro b loadable
  rw [fatReadSector]
  rcases eq_or_ne b.cached_sector sector with same | other
  · rw [if_pos same]
    have clean := loadable.found same
    exact {
      proper := clean.proper.append fun i bound => clean.agrees i bound (Nat.zero_le i)
      cached := clean.cached
      size := clean.size
      belongs := clean.belongs
      agrees := clean.agrees }
  · rw [if_neg other]
    obtain ⟨b', flushed, proper⟩ : ∃ b', flush env b = (.ok (), b') ∧ b'.Proper v := by
      rw [flush]
      split_ifs with dirty
      · exact ⟨_, flashWrite_eq works _ _, loadable.proper.append (loadable.flushed other dirty)⟩
      · exact ⟨b, rfl, loadable.proper⟩
    rw [bind_ok flushed, bind_ok (flashRead_eq works)]
    exact {
      proper := proper.append fun _ _ => rfl
      cached := rfl
      size := rfl
      belongs := fun _ _ => .inl rfl
      agrees := fun _ _ _ => rfl }

theorem meets_fatWriteSector :
    Meets (fun b => b.Proper v ∧ b.Belongs v sector fatSectorSize ∧ b.Agrees sector size ∧
        size ≤ fatSectorSize)
      (fatWriteSector env sector size) (fun _ => Clean v sector) fun _ _ => False := by
  rintro b ⟨proper, belongs, agrees, bound⟩
  rw [fatWriteSector_eq works]
  refine ⟨proper.append fun i small => belongs i (by omega), rfl, rfl, belongs, ?_⟩
  intro i small _
  change b.sector i = Function.update b.flash sector _ sector i
  rw [Function.update_self]
  split_ifs with written
  · rfl
  · exact agrees i small (by omega)

end Works

@[simp]
theorem store_nil (b : FatBuffer) (offset : Nat) (home : FatHome) : b.store offset [] home = b := by
  have outside (i : Nat) : ¬ (offset ≤ i ∧ i < offset + ([] : List UChar).length) := by
    rw [length_nil]
    omega
  simp only [store, outside, if_false]

variable {offset : Nat} {data : List UChar} {home : FatHome}

theorem Belongs.store (belongs : b.Belongs v sector offset) (fits : home.Fits v sector) :
    (b.store offset data home).Belongs v sector (offset + data.length) := by
  intro i bound
  simp only [FatBuffer.store]
  split_ifs with inside
  · exact fits
  · exact belongs i (by omega)

theorem Belongs.store_whole (belongs : b.Belongs v sector size) (fits : home.Fits v sector) :
    (b.store offset data home).Belongs v sector size := by
  intro i bound
  simp only [FatBuffer.store]
  split_ifs with inside
  · exact fits
  · exact belongs i bound

theorem Agrees.store (agrees : b.Agrees sector 0) :
    (b.store offset data home).Agrees sector (offset + data.length) := by
  intro i bound behind
  simp only [FatBuffer.store]
  rw [if_neg (by omega)]
  exact agrees i bound (Nat.zero_le i)

end FatBuffer
end Uos
