import Mathlib.Data.List.GetD
import Mathlib.Data.List.TakeWhile
import Uos.Fs.Homes

/-!
# Directory entries

What is left of a file when its directory entry is built by `fs_entry_to_dir_ent` and read by
`dir_ent_to_fs_entry`.
-/

namespace Uos

open List

/-- A name with at most eight and three characters. -/
structure ShortName where
  base : List UChar
  ext : List UChar
  base_pos : 0 < base.length
  base_le : base.length ≤ 8
  ext_le : ext.length ≤ 3
  plain : ∀ c ∈ base ++ ext, c ≠ 0 ∧ c ≠ 32 ∧ c ≠ 46

namespace ShortName

def text (name : ShortName) : List UChar :=
  if name.ext = [] then name.base else name.base ++ 46 :: name.ext

def field (name : ShortName) : List UChar :=
  name.base ++ .replicate (8 - name.base.length) 32 ++
    (name.ext ++ .replicate (3 - name.ext.length) 32)

end ShortName

/-- A date from 1980 to 2107 and a time of day. -/
structure FsEntry.Dated (entry : FsEntry) : Prop where
  year : 1980 ≤ entry.year ∧ entry.year ≤ 2107
  month : 1 ≤ entry.month ∧ entry.month ≤ 12
  day : 1 ≤ entry.day ∧ entry.day ≤ 31
  hour : entry.hour < 24
  minute : entry.minute < 60
  second : entry.second < 60

def cString (bytes : List UChar) : List UChar :=
  bytes.takeWhile (· ≠ 0)

/-- A record lies at an offset. -/
def Lies (bytes : Nat → UChar) (offset : Nat) (record : List UChar) : Prop :=
  ∀ i < record.length, bytes (offset + i) = record.getD i 0

/-- What was stored of a file is read again. -/
structure EntryRoundTrips (name : ShortName) (entry : FsEntry) (first_clus : Nat)
    (back : Fat32FwEntry) : Prop where
  name : cString back.base.name = name.text
  attr : back.base.attr = entry.attr
  date : back.base.year = entry.year ∧ back.base.month = entry.month ∧ back.base.day = entry.day
  time : back.base.hour = entry.hour ∧ back.base.minute = entry.minute ∧
    back.base.second = entry.second
  first_clus : back.first_clus = first_clus

section Words

variable {bytes : Nat → UChar} {offset n : Nat}

theorem shortAt_eq (first : bytes offset = .ofNat 8 n)
    (second : bytes (offset + 1) = .ofNat 8 (n / 2 ^ 8)) : shortAt bytes offset = n % 2 ^ 16 := by
  rw [shortAt, first, second, BitVec.toNat_ofNat, BitVec.toNat_ofNat]
  omega

theorem packed_eq {i j low middle : Nat} (high : Nat) (small : low < 2 ^ i)
    (small' : middle < 2 ^ j) :
    low ||| middle * 2 ^ i ||| high * 2 ^ (i + j) =
      low + middle * 2 ^ i + high * 2 ^ (i + j) := by
  have inner : low ||| middle * 2 ^ i = middle * 2 ^ i + low := by
    rw [Nat.or_comm, Nat.mul_comm, Nat.two_pow_add_eq_or_of_lt small]
  have bound : middle * 2 ^ i + low < 2 ^ (i + j) := by
    rw [Nat.pow_add]
    calc middle * 2 ^ i + low < middle * 2 ^ i + 2 ^ i := Nat.add_lt_add_left small _
      _ = (middle + 1) * 2 ^ i := (Nat.succ_mul ..).symm
      _ ≤ 2 ^ j * 2 ^ i := Nat.mul_le_mul_right _ small'
      _ = 2 ^ i * 2 ^ j := Nat.mul_comm ..
  rw [inner, Nat.or_comm, Nat.mul_comm high, ← Nat.two_pow_add_eq_or_of_lt bound]
  omega

end Words

section Name

variable (name : ShortName)

theorem text_parts :
    (name.text.take 8).takeWhile (· ≠ 46) = name.base ∧
      (if (name.text.drop name.base.length).head? = some 46 then
        (name.text.drop name.base.length).tail
      else name.text.drop name.base.length).take 3 = name.ext := by
  have inner : ∀ c ∈ name.base, decide (c ≠ 46) = true := fun c member =>
    decide_eq_true (name.plain c (mem_append_left _ member)).2.2
  have all : name.base.takeWhile (· ≠ 46) = name.base := takeWhile_eq_self_iff.mpr inner
  have short := name.base_le
  by_cases none : name.ext = []
  · rw [ShortName.text, if_pos none, take_of_length_le short, all, drop_length, none]
    exact ⟨rfl, rfl⟩
  · rw [ShortName.text, if_neg none]
    constructor
    · rw [take_append, take_of_length_le short, takeWhile_append_of_pos inner]
      cases 8 - name.base.length <;> simp
    · rw [drop_left]
      exact take_of_length_le name.ext_le

/-- The name that `fs_entry_to_dir_ent` stores. -/
theorem dirEntName_text :
    dirEntName name.text =
      (if name.base.length < 8 then name.base ++ [32] else name.base) ++
        .replicate (7 - name.base.length) 0 ++
          (name.ext ++ .replicate (3 - name.ext.length) 0) := by
  obtain ⟨stem, extension⟩ := text_parts name
  have short := name.base_le
  simp only [dirEntName, stem, extension]
  split_ifs with blank
  · have left : 8 - (name.base ++ [32]).length = 7 - name.base.length := by
      rw [length_append, length_singleton]
      omega
    rw [left, append_assoc _ name.ext]
  · have left : 8 - name.base.length = 7 - name.base.length := by omega
    rw [left, append_assoc _ name.ext]

theorem dirEntName_eq_field_iff :
    dirEntName name.text = name.field ↔ 7 ≤ name.base.length ∧ name.ext.length = 3 := by
  have short := name.base_le
  have short' := name.ext_le
  have zero_ne : (0 : UChar) ≠ 32 := by decide
  rw [dirEntName_text, ShortName.field]
  have length : ((if name.base.length < 8 then name.base ++ [32] else name.base) ++
      List.replicate (7 - name.base.length) (0 : UChar)).length =
        (name.base ++ List.replicate (8 - name.base.length) (32 : UChar)).length := by
    split_ifs <;> simp only [length_append, length_replicate, length_singleton] <;>
      omega
  have first : (if name.base.length < 8 then name.base ++ [32] else name.base) ++
      List.replicate (7 - name.base.length) (0 : UChar) =
        name.base ++ List.replicate (8 - name.base.length) (32 : UChar) ↔
      7 ≤ name.base.length := by
    split_ifs with blank
    · have left : 8 - name.base.length = 7 - name.base.length + 1 := by omega
      rw [append_assoc, append_cancel_left_eq, left, replicate_succ,
        singleton_append, cons_inj_right, replicate_inj]
      simp only [true_and, zero_ne, or_false]
      omega
    · have left : 7 - name.base.length = 0 := by omega
      have left' : 8 - name.base.length = 0 := by omega
      rw [left, left', replicate_zero, replicate_zero]
      exact iff_of_true rfl (by omega)
  have second : name.ext ++ List.replicate (3 - name.ext.length) (0 : UChar) =
      name.ext ++ List.replicate (3 - name.ext.length) (32 : UChar) ↔ name.ext.length = 3 := by
    rw [append_cancel_left_eq, replicate_inj]
    simp only [true_and, zero_ne, or_false]
    omega
  constructor
  · intro same
    obtain ⟨bases, exts⟩ := append_inj same length
    exact ⟨first.mp bases, second.mp exts⟩
  · rintro ⟨bases, exts⟩
    rw [first.mpr bases, second.mpr exts]

end Name

section Record

variable {bytes : Nat → UChar} {offset first_clus : Nat} {entry : FsEntry} {name : ShortName}

def fieldBytes (entry : FsEntry) (first_clus : Nat) : List UChar :=
  [0, 0, if entry.second % 2 = 1 then 99 else 0, 0, 0, 0, 0, 0, 0] ++
    shortBytes (first_clus / 2 ^ 16) ++
    shortBytes (entry.second / 2 ||| entry.minute * 2 ^ 5 ||| entry.hour * 2 ^ 11) ++
    shortBytes (entry.day ||| entry.month * 2 ^ 5 ||| word (entry.year + 2 ^ 32 - 1980) * 2 ^ 9) ++
    shortBytes first_clus ++ [0, 0, 0, 0]

theorem fsEntryToDirEnt_eq :
    fsEntryToDirEnt entry first_clus = dirEntName entry.name ++ fieldBytes entry first_clus := by
  simp [fsEntryToDirEnt, fieldBytes]

theorem Lies.append {first second : List UChar} (lies : Lies bytes offset (first ++ second)) :
    Lies bytes offset first ∧ Lies bytes (offset + first.length) second := by
  constructor
  · intro i inside
    rw [lies i (by rw [length_append]; omega), getD_append _ _ _ _ inside]
  · intro i inside
    rw [Nat.add_assoc, lies _ (by rw [length_append]; omega),
      getD_append_right _ _ _ _ (Nat.le_add_right ..), Nat.add_sub_cancel_left]

theorem Lies.map_range {record : List UChar} (lies : Lies bytes offset record) :
    (List.range record.length).map (fun i => bytes (offset + i)) = record := by
  apply ext_getElem
  · rw [length_map, length_range]
  · intro i inside inside'
    rw [getElem_map, getElem_range, lies i inside', getD_eq_getElem _ _ inside']

/-- The name that `dir_ent_to_fs_entry` reads: a full stop is in every one. -/
theorem read_name (lies : Lies bytes offset (dirEntName name.text)) :
    cString (if bytes (offset + 8) ≠ 32 then
      ((List.range 8).map fun i => bytes (offset + i)).takeWhile (· ≠ 32) ++
        46 :: (List.range 3).map fun i => bytes (offset + 8 + i)
      else ((List.range 8).map fun i => bytes (offset + i)).takeWhile (· ≠ 32)) =
    name.base ++ 46 :: name.ext := by
  have short := name.base_le
  have short' := name.ext_le
  rw [dirEntName_text] at lies
  generalize stored : (if name.base.length < 8 then name.base ++ [32] else name.base) ++
    List.replicate (7 - name.base.length) (0 : UChar) = first at lies
  have length : first.length = 8 := by
    rw [← stored]
    split_ifs <;> simp only [length_append, length_replicate, length_singleton] <;>
      omega
  obtain ⟨base, ext⟩ := lies.append
  have last : (name.ext ++ List.replicate (3 - name.ext.length) (0 : UChar)).length = 3 := by
    rw [length_append, length_replicate]
    omega
  have bases := base.map_range
  have exts := ext.map_range
  rw [length] at bases
  rw [last, length] at exts
  have inner : ∀ c ∈ name.base, decide (c ≠ 32) = true := fun c member =>
    decide_eq_true (name.plain c (mem_append_left _ member)).2.1
  have stem : first.takeWhile (· ≠ 32) = name.base := by
    rw [← stored]
    split_ifs with blank
    · rw [append_assoc, takeWhile_append_of_pos inner]
      simp
    · have none : 7 - name.base.length = 0 := by omega
      rw [none, replicate_zero, append_nil]
      exact takeWhile_eq_self_iff.mpr inner
  have head : bytes (offset + 8) ≠ 32 := by
    have first := ext 0 (by omega)
    rw [length, Nat.add_zero] at first
    rw [first]
    cases chars : name.ext with
    | nil => decide
    | cons c rest =>
      exact (name.plain c (by rw [chars]; exact mem_append_right _ (.head _))).2.1
  have visible : ∀ c ∈ name.base ++ 46 :: name.ext, decide (c ≠ 0) = true := by
    intro c member
    apply decide_eq_true
    rcases mem_append.mp member with member | member
    · exact (name.plain c (mem_append_left _ member)).1
    · rcases mem_cons.mp member with rfl | member
      · decide
      · exact (name.plain c (mem_append_right _ member)).1
  rw [if_pos head, bases, exts, stem, cString, ← cons_append, ← append_assoc,
    takeWhile_append_of_pos visible]
  cases 3 - name.ext.length <;> simp

end Record

section RoundTrip

variable {bytes : Nat → UChar} {offset first_clus : Nat} {entry : FsEntry} {name : ShortName}
  {fw_ent : Fat32FwEntry}

/-- What `dir_ent_to_fs_entry` reads of a record that `fs_entry_to_dir_ent` has built: the attribute
and the last bit of the seconds are lost, and every name has a full stop. -/
theorem read_back (dated : entry.Dated) (small : first_clus < 2 ^ 32)
    (named : entry.name = name.text)
    (lies : Lies bytes offset (fsEntryToDirEnt entry first_clus)) :
    let back := dirEntToFsEntry bytes offset fw_ent
    cString back.base.name = name.base ++ 46 :: name.ext ∧ back.base.attr = 0 ∧
      (back.base.year = entry.year ∧ back.base.month = entry.month ∧
        back.base.day = entry.day) ∧
      (back.base.hour = entry.hour ∧ back.base.minute = entry.minute ∧
        back.base.second = entry.second / 2 * 2) ∧
      back.first_clus = first_clus := by
  obtain ⟨year, year'⟩ := dated.year
  obtain ⟨-, month⟩ := dated.month
  obtain ⟨-, day⟩ := dated.day
  have hour := dated.hour
  have minute := dated.minute
  have second := dated.second
  rw [fsEntryToDirEnt_eq] at lies
  obtain ⟨front, rest⟩ := lies.append
  rw [dirEntName_length] at rest
  rw [named] at front
  have field (i : Nat) (inside : i < 21) :
      bytes (offset + (11 + i)) = (fieldBytes entry first_clus).getD i 0 := by
    rw [← Nat.add_assoc]
    exact rest i inside
  have years : word (entry.year + 2 ^ 32 - 1980) = entry.year - 1980 := by
    rw [word]
    omega
  have time := shortAt_eq (field 11 (by decide)) (field 12 (by decide))
  have date := shortAt_eq (field 13 (by decide)) (field 14 (by decide))
  have low := shortAt_eq (field 15 (by decide)) (field 16 (by decide))
  have high := shortAt_eq (field 9 (by decide)) (field 10 (by decide))
  have attr := field 0 (by decide)
  have tenth := field 2 (by decide)
  have time_eq := @packed_eq 5 6 (entry.second / 2) entry.minute entry.hour (by omega) (by omega)
  have date_eq := @packed_eq 5 4 entry.day entry.month (entry.year - 1980) (by omega) (by omega)
  rw [time_eq] at time
  rw [years, date_eq] at date
  dsimp only [dirEntToFsEntry]
  rw [read_name front, attr, tenth, time, date, low, high]
  -- 99 hundredths of a second are no second.
  have lost : ((fieldBytes entry first_clus).getD 2 0).toNat / 100 = 0 := by
    change (if entry.second % 2 = 1 then (99 : UChar) else 0).toNat / 100 = 0
    split_ifs <;> rfl
  rw [lost]
  refine ⟨rfl, rfl, ⟨?_, ?_, ?_⟩, ⟨?_, ?_, ?_⟩, ?_⟩ <;> omega

/-- A directory entry is stored as FAT wants it and is read as it was stored if and only if it has
no attributes, the number of seconds is even, and the name fills its field but for one blank. -/
theorem entryRoundTrips_iff (dated : entry.Dated) (small : first_clus < 2 ^ 32)
    (named : entry.name = name.text)
    (lies : Lies bytes offset (fsEntryToDirEnt entry first_clus)) :
    EntryRoundTrips name entry first_clus (dirEntToFsEntry bytes offset fw_ent) ∧
        (fsEntryToDirEnt entry first_clus).take 11 = name.field ↔
      entry.attr = 0 ∧ entry.second % 2 = 0 ∧ 7 ≤ name.base.length ∧ name.ext.length = 3 := by
  obtain ⟨text, attr, date, ⟨hour, minute, second⟩, cluster⟩ :=
    @read_back bytes offset first_clus entry name fw_ent dated small named lies
  have stored : (fsEntryToDirEnt entry first_clus).take 11 = dirEntName name.text := by
    rw [fsEntryToDirEnt_eq, named, take_left' (dirEntName_length _)]
  rw [stored, dirEntName_eq_field_iff]
  constructor
  · rintro ⟨trips, long, three⟩
    refine ⟨attr.symm.trans trips.attr |>.symm, ?_, long, three⟩
    have same := second.symm.trans trips.time.2.2
    omega
  · rintro ⟨plain, even, long, three⟩
    have some : name.ext ≠ [] := ne_nil_of_length_pos (by omega)
    refine ⟨⟨?_, attr.trans plain.symm, date, ⟨hour, minute, ?_⟩, cluster⟩, long, three⟩
    · rw [text, ShortName.text, if_neg some]
    · omega

def alone (record : List UChar) (i : Nat) : UChar :=
  record.getD i 0

theorem lies_alone (record : List UChar) : Lies (alone record) 0 record := by
  intro i _
  rw [Nat.zero_add, alone]

/-- The name `JOURNAL.TXT`. -/
def journal : ShortName where
  base := [74, 79, 85, 82, 78, 65, 76]
  ext := [84, 88, 84]
  base_pos := by decide
  base_le := by decide
  ext_le := by decide
  plain := by decide

/-- The name `LOG`. -/
def log : ShortName where
  base := [76, 79, 71]
  ext := []
  base_pos := by decide
  base_le := by decide
  ext_le := by decide
  plain := by decide

def FsEntry.celebrated (name : ShortName) (attr second : Nat) : FsEntry :=
  { name := name.text, year := 2012, month := 12, day := 31, hour := 23, minute := 59,
    second, attr }

theorem celebrated_dated (name : ShortName) (attr : Nat) {second : Nat} (small : second < 60) :
    (FsEntry.celebrated name attr second).Dated where
  year := (by decide : 1980 ≤ 2012 ∧ 2012 ≤ 2107)
  month := (by decide : 1 ≤ 12 ∧ 12 ≤ 12)
  day := (by decide : 1 ≤ 31 ∧ 31 ≤ 31)
  hour := (by decide : 23 < 24)
  minute := (by decide : 59 < 60)
  second := small

theorem entryRoundTrips_journal :
    EntryRoundTrips journal (.celebrated journal 0 58) 3
        (dirEntToFsEntry (alone (fsEntryToDirEnt (.celebrated journal 0 58) 3)) 0 {}) ∧
      (fsEntryToDirEnt (.celebrated journal 0 58) 3).take 11 = journal.field ↔
    (FsEntry.celebrated journal 0 58).attr = 0 ∧ (FsEntry.celebrated journal 0 58).second % 2 = 0 ∧
      7 ≤ journal.base.length ∧ journal.ext.length = 3 :=
  entryRoundTrips_iff (celebrated_dated journal 0 (by decide)) (by decide) rfl (lies_alone _)

/-- A file for the archive, without an extension. -/
theorem log_loses_archive :
    ¬∀ (name : ShortName) (entry : FsEntry) (first_clus : Nat) (bytes : Nat → UChar) (offset : Nat)
      (fw_ent : Fat32FwEntry), entry.Dated → entry.attr < 256 → first_clus < 2 ^ 32 →
        entry.name = name.text → Lies bytes offset (fsEntryToDirEnt entry first_clus) →
          EntryRoundTrips name entry first_clus (dirEntToFsEntry bytes offset fw_ent) ∧
            (fsEntryToDirEnt entry first_clus).take 11 = name.field := by
  intro all
  have lost := all log (.celebrated log 0x20 59) 3 _ 0 {} (celebrated_dated log 0x20 (by decide))
    (by decide) (by decide) rfl (lies_alone _)
  exact absurd lost.1.attr (by decide)

end RoundTrip

end Uos
