import Mathlib.Algebra.Order.Ring.Int
import Mathlib.Logic.Function.Iterate
import Mathlib.Tactic.Set
import Uos.Fat.Volume

/-!
# Reading a directory safely

On a directory whose deleted entries end and whose long names are whole, the functions that read a
directory return, store only inside of their blocks, and keep no block but the cache when they fail.
-/

namespace Uos.Fat

section Deleted

variable (v : Volume) (flash : Flash)

/-- `move_to_next_dir_entry`, as a step. -/
def move (d : Dir) : Dir :=
  d.moveToNextDirEntry v flash

/-- An entry that is not deleted, or an error. -/
def Stops (d : Dir) : Prop :=
  d.last_error ≠ .ok ∨ d.byte 0 ≠ 0xe5

/-- The parts of a long name follow, from this part down to the first, and an entry behind them. -/
def Parts : Nat → Dir → Prop
  | 0, d => (move v flash d).last_error = .ok
  | n + 1, d =>
    (move v flash d).last_error = .ok ∧ ((move v flash d).byte 0).toNat = n + 1 ∧
      Parts n (move v flash d)

/-- An entry that begins a long name has a number of parts. -/
def Counted (d : Dir) : Prop :=
  d.byte 11 &&& 0x3f = 0x0f → d.byte 0 &&& 0x40 ≠ 0 → d.byte 0 &&& 0x3f ≠ 0

/-- The parts of a long name that begins here follow. -/
def Whole (d : Dir) : Prop :=
  d.byte 11 &&& 0x3f = 0x0f → d.byte 0 &&& 0x40 ≠ 0 →
    Parts v flash ((d.byte 0 &&& 0x3f).toNat - 1) d

/-- There are so many deleted entries from a place on. -/
def Ends (n : Nat) (d : Dir) : Prop :=
  (∀ k < n, ¬Stops ((move v flash)^[k] d)) ∧ Stops ((move v flash)^[n] d)

variable {v flash}

theorem skipDeleted_stops {d : Dir} {n turns : Nat} (ready : d.last_error = .ok)
    (ends : Ends v flash n d) (enough : n < turns) :
    ∃ found d', (∀ more, turns ≤ more → d.skipDeleted v flash more = some (found, d')) ∧
      (found = true → d' = (move v flash)^[n] d ∧ d'.last_error = .ok) := by
  obtain ⟨deleted, stops⟩ := ends
  induction n generalizing d turns with
  | zero =>
    have here : d.byte 0 ≠ 0xe5 := by
      rcases stops with error | here
      · exact absurd ready error
      · exact here
    refine ⟨true, d, fun more large => ?_, fun _ => ⟨rfl, ready⟩⟩
    obtain ⟨rest, rfl⟩ : ∃ rest, more = rest + 1 := ⟨more - 1, by omega⟩
    rw [Dir.skipDeleted, if_neg here]
  | succ n ih =>
    have here : d.byte 0 = 0xe5 := by
      have first := deleted 0 (Nat.succ_pos n)
      rw [Stops, not_or, not_not, not_not] at first
      exact first.2
    rcases turns with _ | turns
    · omega
    have unfolded : ∀ more, turns + 1 ≤ more → ∃ rest, turns ≤ rest ∧ more = rest + 1 :=
      fun more large => ⟨more - 1, by omega, by omega⟩
    rcases eq_or_ne (move v flash d).last_error .ok with ok | error
    swap
    · refine ⟨false, move v flash d, fun more large => ?_, fun found => by contradiction⟩
      obtain ⟨rest, -, rfl⟩ := unfolded more large
      rw [Dir.skipDeleted, if_pos here]
      exact if_pos error
    rcases eq_or_ne ((move v flash d).byte 0) 0 with last | more
    · refine ⟨false, { move v flash d with last_error := .eof }, fun more large => ?_,
        fun found => by contradiction⟩
      obtain ⟨rest, -, rfl⟩ := unfolded more large
      rw [Dir.skipDeleted, if_pos here]
      exact (if_neg (not_not.mpr ok)).trans (if_pos last)
    · obtain ⟨found, d', skips, reached⟩ := @ih (move v flash d) turns ok (by omega)
        (fun k small => deleted (k + 1) (Nat.succ_lt_succ small)) stops
      refine ⟨found, d', fun larger large => ?_, reached⟩
      obtain ⟨rest, enough', rfl⟩ := unfolded larger large
      rw [Dir.skipDeleted, if_pos here]
      exact ((if_neg (not_not.mpr ok)).trans (if_neg more)).trans (skips rest enough')

end Deleted

section Names

variable {v : Volume} {flash : Flash} {child : Child} {d : Dir} {p : Pool}

theorem store_inside {i : ULong} (c : UChar) (inside : i.toNat < child.name_size) :
    ∃ child', child.store i c = some child' ∧ child'.name_size = child.name_size :=
  ⟨_, if_pos inside, rfl⟩

theorem storeAll_inside {i : ULong} {chars : List UChar}
    (inside : i.toNat + chars.length ≤ child.name_size) (small : child.name_size < 2 ^ 32) :
    ∃ child', child.storeAll i chars = some child' ∧ child'.name_size = child.name_size := by
  induction chars generalizing child i with
  | nil => exact ⟨child, rfl, rfl⟩
  | cons c chars ih =>
    rw [List.length_cons] at inside
    obtain ⟨child₁, stored, size⟩ := @store_inside child i c (by omega)
    have next : (i + 1).toNat = i.toNat + 1 ∨ chars = [] := by
      rcases Nat.lt_or_ge (i.toNat + 1) (2 ^ 32) with low | high
      · left
        rw [BitVec.toNat_add]
        exact Nat.mod_eq_of_lt low
      · omega
    rcases next with next | rfl
    · obtain ⟨child', stored', size'⟩ := @ih child₁ (i + 1) (by omega) (by omega)
      refine ⟨child', ?_, size'.trans size⟩
      rw [Child.storeAll, stored]
      exact stored'
    · refine ⟨child₁, ?_, size⟩
      rw [Child.storeAll, stored]
      rfl

theorem longParts_inside {nb_ent : Nat} (room : (nb_ent + 1) * 13 < child.name_size)
    (small : child.name_size < 2 ^ 32) :
    ∃ child' d', longParts v flash nb_ent child d = some (child', d') ∧
      (Parts v flash nb_ent d → child'.isSome) := by
  induction nb_ent generalizing child d with
  | zero =>
    have start : (BitVec.ofNat 32 (0 * 13)).toNat = 0 := rfl
    have length : d.longChars.length = 13 := rfl
    have inside : (BitVec.ofNat 32 (0 * 13)).toNat + d.longChars.length ≤ child.name_size := by
      rw [start, length]
      exact room.le
    obtain ⟨child', stored, -⟩ := storeAll_inside inside small
    rw [longParts, stored]
    rcases eq_or_ne (move v flash d).last_error .ok with ok | error
    · exact ⟨_, _, if_neg (not_not.mpr ok), fun _ => rfl⟩
    · exact ⟨_, _, if_pos error, fun parts => absurd parts error⟩
  | succ n ih =>
    rw [Nat.succ_mul] at room
    have before : (n + 1) * 13 < child.name_size := Nat.lt_of_le_of_lt (Nat.le_add_right _ _) room
    have start : (BitVec.ofNat 32 ((n + 1) * 13)).toNat = (n + 1) * 13 := by
      rw [BitVec.toNat_ofNat]
      exact Nat.mod_eq_of_lt (before.trans small)
    have length : d.longChars.length = 13 := rfl
    have inside :
        (BitVec.ofNat 32 ((n + 1) * 13)).toNat + d.longChars.length ≤ child.name_size := by
      rw [start, length]
      exact room.le
    obtain ⟨child₁, stored, size⟩ := storeAll_inside inside small
    rw [longParts, stored]
    rcases eq_or_ne (move v flash d).last_error .ok with ok | error
    swap
    · exact ⟨_, _, if_pos error, fun parts => absurd parts.1 error⟩
    rcases eq_or_ne ((move v flash d).byte 0).toNat (n + 1) with number | other
    swap
    · exact ⟨_, _, (if_neg (not_not.mpr ok)).trans (if_pos other),
        fun parts => absurd parts.2.1 other⟩
    rw [← size] at before small
    obtain ⟨child', d', later, found⟩ := @ih child₁ (move v flash d) before small
    refine ⟨child', d', ?_, fun parts => found parts.2.2⟩
    exact ((if_neg (not_not.mpr ok)).trans (if_neg (not_not.mpr number))).trans later

theorem dirChars_length : d.dirChars.length ≤ 12 := by
  rw [Dir.dirChars, List.length_append]
  have short : (((List.range 11).map d.byte).takeWhile (· ≠ 0x20)).length ≤ 11 :=
    (List.takeWhile_sublist _).length_le
  exact Nat.succ_le_succ short

theorem fileChars_length : d.fileChars.length ≤ 13 := by
  rw [Dir.fileChars, List.length_append]
  have short : (((List.range 8).map d.byte).takeWhile (· ≠ 0x20)).length ≤ 8 :=
    (List.takeWhile_sublist _).length_le
  split
  · exact Nat.add_le_add short le_rfl
  · exact (Nat.add_le_add short le_rfl).trans (by decide)

/-- The same blocks are in use. -/
def Pool.Keeps (p p' : Pool) : Prop :=
  p'.live = p.live ∧ p'.cache_data = p.cache_data

theorem alloc_cases (p : Pool) :
    (∃ block p', p.alloc = (some block, p') ∧ p'.live = block :: p.live ∧
        p'.cache_data = p.cache_data) ∨
      ∃ p', p.alloc = (none, p') ∧ p.Keeps p' := by
  rw [Pool.alloc]
  split
  · exact .inl ⟨p.next, _, rfl, rfl, rfl⟩
  · exact .inr ⟨_, rfl, rfl, rfl⟩

/-- A pool keeps its blocks when `alloc_fs_entry` fails. -/
theorem allocFsEntry_cases (p : Pool) (dirt : Nat → UChar) (size : Nat) :
    (∃ p', allocFsEntry p dirt size = (none, p') ∧ p.Keeps p') ∨
      ∃ child p', allocFsEntry p dirt size = (some child, p') ∧ child.name_size = size := by
  rw [allocFsEntry]
  rcases alloc_cases p with ⟨e, p₁, granted, live, cache⟩ | ⟨p₁, failed, kept⟩
  · rw [granted]
    rcases alloc_cases p₁ with ⟨name, p₂, granted', -, -⟩ | ⟨p₂, failed', live', cache'⟩
    · simp only [granted']
      exact .inr ⟨_, p₂, rfl, rfl⟩
    · simp only [failed']
      refine .inl ⟨p₂.free e, rfl, ?_, cache'.trans cache⟩
      rw [Pool.free, live', live]
      exact List.erase_cons_head e p.live
  · rw [failed]
    exact .inl ⟨p₁, rfl, kept⟩

end Names

def Result.Inside : Result → Prop
  | .outside => False
  | .null .. => True
  | .child .. => True

def Result.Clean (p : Pool) : Result → Prop
  | .outside => False
  | .null _ p' => p.Keeps p'
  | .child .. => True

/-- A result that stores inside and leaves no block behind, the cache of the directory apart. -/
def Result.Safe (p : Pool) : Result → Prop
  | .outside => False
  | .null _ p' =>
    p.Keeps p' ∨
      p.cache_data = none ∧ ∃ block, p'.cache_data = some block ∧ p'.live = block :: p.live
  | .child .. => True

theorem Result.Clean.inside {p : Pool} {r : Result} (clean : r.Clean p) : r.Inside := by
  cases r with
  | outside => exact clean
  | null d' p' => trivial
  | child child d' p' => trivial

section Calls

variable {v : Volume} {flash : Flash} {dirt : Nat → UChar} {d : Dir} {p : Pool}

theorem short_clean {size : Nat} {chars : List UChar} (inside : chars.length ≤ size)
    (small : size ≤ 13) :
    (match allocFsEntry p dirt size with
      | (none, p) => Result.null { d with last_error := .noMem } p
      | (some child, p) =>
        match child.storeAll 0 chars with
        | none => .outside
        | some child => finishChild v flash child d p).Clean p := by
  rcases allocFsEntry_cases p dirt size with ⟨p', failed, kept⟩ | ⟨child, p', granted, room⟩
  · simp only [failed]
    exact kept
  · simp only [granted]
    have start : (0 : ULong).toNat = 0 := rfl
    obtain ⟨child', stored, -⟩ := @storeAll_inside child 0 chars (by omega) (by omega)
    simp only [stored]
    trivial

theorem readChild_inside (counted : Counted d) :
    (readChild v flash dirt d p).Inside ∧
      (Whole v flash d → (readChild v flash dirt d p).Clean p) := by
  rw [readChild]
  split
  · rename_i long
    split
    · exact ⟨trivial, fun _ => ⟨rfl, rfl⟩⟩
    rename_i last
    have some_part := counted long last
    rw [Whole]
    set count := d.byte 0 &&& 0x3f with count_eq
    have bound : count.toNat ≤ 63 := by
      rw [count_eq, BitVec.toNat_and]
      exact Nat.and_le_right
    have positive : 0 < count.toNat := by
      rcases Nat.eq_zero_or_pos count.toNat with zero | positive
      · exact absurd (BitVec.eq_of_toNat_eq zero) some_part
      · exact positive
    have parts : count.toNat - 1 + 1 = count.toNat := Nat.sub_add_cancel positive
    have below : count.toNat * 13 + 1 < 2 ^ 32 := by
      have most : count.toNat * 13 ≤ 63 * 13 := Nat.mul_le_mul_right 13 bound
      exact Nat.lt_of_le_of_lt (Nat.succ_le_succ most) (by decide)
    have wide : (count.setWidth 32).toNat = count.toNat := by
      rw [BitVec.toNat_setWidth]
      exact Nat.mod_eq_of_lt (Nat.lt_of_le_of_lt bound (by decide))
    have tail : (count.setWidth 32 * 13 : ULong).toNat = count.toNat * 13 := by
      rw [BitVec.toNat_mul, wide]
      exact Nat.mod_eq_of_lt (Nat.lt_of_succ_lt below)
    have size : (count.setWidth 32 * 13 + 1 : ULong).toNat = count.toNat * 13 + 1 := by
      rw [BitVec.toNat_add, tail]
      exact Nat.mod_eq_of_lt below
    have first : (count.setWidth 32 - 1 : ULong).toNat = count.toNat - 1 := by
      rw [BitVec.toNat_sub_of_le, wide]
      · rfl
      · rw [BitVec.le_def, wide]
        exact positive
    simp only [size, first]
    rcases allocFsEntry_cases p dirt (count.toNat * 13 + 1) with
      ⟨p', failed, kept⟩ | ⟨child, p', granted, room⟩
    · simp only [failed]
      exact ⟨trivial, fun _ => kept⟩
    · simp only [granted]
      have behind : (count.setWidth 32 * 13 : ULong).toNat < child.name_size := by
        rw [tail, room]
        exact Nat.lt_succ_self _
      obtain ⟨child₁, ended, room₁⟩ := store_inside 0 behind
      simp only [ended]
      have whole : (count.toNat - 1 + 1) * 13 < child₁.name_size := by
        rw [parts, room₁, room]
        exact Nat.lt_succ_self _
      have small : child₁.name_size < 2 ^ 32 := by
        rw [room₁, room]
        exact below
      obtain ⟨child', d', read, found⟩ := @longParts_inside v flash child₁ d _ whole small
      simp only [read]
      cases child' with
      | none => exact ⟨trivial, fun whole => absurd (found (whole long last)) (by decide)⟩
      | some child' => exact ⟨trivial, fun _ => trivial⟩
  · have keep : ∀ {r : Result}, r.Clean p → r.Inside ∧ (Whole v flash d → r.Clean p) :=
      fun clean => ⟨clean.inside, fun _ => clean⟩
    rcases eq_or_ne (d.byte 11 &&& 0x10) 0 with file | dir
    · rw [if_neg (not_not.mpr file)]
      exact keep (short_clean fileChars_length (by decide))
    · rw [if_pos dir]
      exact keep (short_clean dirChars_length (by decide))

/-- `next_child` of a directory whose deleted entries end. -/
theorem nextChild_inside {n : Nat} (ends : Ends v flash n (d.doFatUpdateCache v flash)) :
    ∃ r, (∀ more > n, nextChild v flash dirt more d p = some r) ∧
      (Counted ((move v flash)^[n] (d.doFatUpdateCache v flash)) → r.Inside ∧
        (Whole v flash ((move v flash)^[n] (d.doFatUpdateCache v flash)) → r.Clean p)) := by
  set d₁ := d.doFatUpdateCache v flash with d₁_eq
  have still : ∀ d', (Result.null d' p).Inside ∧
      (Whole v flash ((move v flash)^[n] d₁) → (Result.null d' p).Clean p) :=
    fun d' => ⟨trivial, fun _ => ⟨rfl, rfl⟩⟩
  rcases eq_or_ne d₁.last_error .ok with ok | error
  swap
  · refine ⟨.null d₁ p, fun more _ => ?_, fun _ => still d₁⟩
    rw [nextChild]
    exact if_pos error
  rcases eq_or_ne (d₁.byte 0) 0 with last | more
  · refine ⟨.null { d₁ with last_error := .eof } p, fun more _ => ?_, fun _ => still _⟩
    rw [nextChild]
    exact (if_neg (not_not.mpr ok)).trans (if_pos last)
  obtain ⟨found, d', skips, reached⟩ := skipDeleted_stops ok ends (Nat.lt_succ_self n)
  have unfolded : ∀ more > n, nextChild v flash dirt more d p =
      match found with
      | false => some (.null d' p)
      | true => some (readChild v flash dirt d' p) := by
    intro larger large
    rw [nextChild]
    refine (if_neg (not_not.mpr ok)).trans ((if_neg more).trans ?_)
    rw [← d₁_eq, skips larger large]
    cases found <;> rfl
  cases found with
  | false => exact ⟨_, unfolded, fun _ => still d'⟩
  | true =>
    obtain ⟨rfl, -⟩ := reached rfl
    exact ⟨_, unfolded, readChild_inside⟩

/-- The sectors of a volume that `fat_fs_init` accepts fit into the caches. -/
theorem fatFsInit_size {first_sector : ULong} (accepted : fatFsInit flash first_sector = .ok v) :
    v.bytes_per_sec.toNat ≤ fatMaxBytesPerSector := by
  rw [fatFsInit] at accepted
  split at accepted
  · simp only at accepted
    split at accepted
    · contradiction
    split at accepted
    · contradiction
    rename_i large
    cases accepted
    exact not_lt.mp large
  · contradiction

/-- A call that reads a directory. -/
inductive Call
  | first
  | next
  deriving DecidableEq

/-- A call, with some turns for the loop over deleted entries. -/
def Call.run (v : Volume) (flash : Flash) (dirt : Nat → UChar) (turns : Nat) (d : Dir) (p : Pool) :
    Call → Option Result
  | first => doFatFirstChild v flash dirt turns d p
  | next => doFatNextChild v flash dirt turns d p

def Call.start (v : Volume) (flash : Flash) (d : Dir) : Call → Dir
  | first => ({ d with last_error := .ok } : Dir).doFatSeekStart.doFatUpdateCache v flash
  | next => ({ d with last_error := .ok } : Dir).doFatUpdateCache v flash

theorem Result.Clean.safe {r : Result} (clean : r.Clean p) : r.Safe p := by
  cases r with
  | outside => exact clean
  | null d' p' => exact .inl clean
  | child child d' p' => trivial

/-- A result behind `do_fat_open` leaves no block behind but the new cache. -/
theorem Result.Clean.opened {r : Result} {q : Pool} {block : Nat} (clean : r.Clean q)
    (closed : p.cache_data = none) (live : q.live = block :: p.live)
    (cache : q.cache_data = some block) : r.Safe p := by
  cases r with
  | outside => exact clean
  | null d' p' => exact .inr ⟨closed, block, clean.2.trans cache, clean.1.trans live⟩
  | child child d' p' => trivial

theorem doFatFirstChild_eq (turns : Nat) (dir : d.attr &&& 0x10 ≠ 0) {d₁ : Dir} {p₁ : Pool}
    (opened : (if p.cache_data = none then doFatOpen { d with last_error := .ok } p
      else ({ d with last_error := .ok }, p)) = (d₁, p₁)) :
    doFatFirstChild v flash dirt turns d p =
      if d₁.last_error ≠ .ok then some (.null d₁ p₁)
      else nextChild v flash dirt turns d₁.doFatSeekStart p₁ := by
  rw [doFatFirstChild]
  simp only [if_neg dir, opened]

/-- Reading a directory of a volume that `fat_fs_init` accepts fills sectors that fit into the
caches and ends where the deleted entries end.  It stores inside of the new entry and its name if a
long name there has a number of parts, and without a new entry it leaves no block behind but the
cache of the directory if these parts follow. -/
theorem directories_read_safely {first_sector : ULong} {n : Nat}
    (accepted : fatFsInit flash first_sector = .ok v) (c : Call)
    (ends : Ends v flash n (c.start v flash d)) :
    v.bytes_per_sec.toNat ≤ fatMaxBytesPerSector ∧
      ∃ r, (∀ turns > n, c.run v flash dirt turns d p = some r) ∧
        (Counted ((move v flash)^[n] (c.start v flash d)) → r.Inside ∧
          (Whole v flash ((move v flash)^[n] (c.start v flash d)) → r.Safe p)) := by
  refine ⟨fatFsInit_size accepted, ?_⟩
  have still : ∀ d' q, p.Keeps q → (Result.null d' q).Inside ∧
      (Whole v flash ((move v flash)^[n] (c.start v flash d)) → (Result.null d' q).Safe p) :=
    fun d' q kept => ⟨trivial, fun _ => .inl kept⟩
  rcases eq_or_ne (d.attr &&& 0x10) 0 with file | dir
  · refine ⟨.null { d with last_error := .badArg } p, fun turns _ => ?_,
      fun _ => still _ p ⟨rfl, rfl⟩⟩
    cases c with
    | first => exact if_pos file
    | next => exact if_pos file
  cases c with
  | next =>
    rcases eq_or_ne p.cache_data none with closed | opened
    · exact ⟨_, fun turns _ => (if_neg dir).trans (if_pos closed), fun _ => still _ p ⟨rfl, rfl⟩⟩
    obtain ⟨r, runs, inside⟩ := @nextChild_inside v flash dirt
      { d with last_error := .ok } p n ends
    refine ⟨r, fun turns large => ?_, fun counted => ?_⟩
    · exact ((if_neg dir).trans (if_neg opened)).trans (runs turns large)
    · exact (inside counted).imp_right fun clean whole => (clean whole).safe
  | first =>
    rcases eq_or_ne p.cache_data none with closed | opened
    · rcases alloc_cases p with ⟨block, p₁, granted, live, -⟩ | ⟨p₁, failed, kept⟩
      · have opened : doFatOpen { d with last_error := .ok } p =
            (({ d with last_error := .ok } : Dir).doFatSeekStart,
              { p₁ with cache_data := some block }) := by
          rw [doFatOpen, granted]
          rfl
        obtain ⟨r, runs, inside⟩ := @nextChild_inside v flash dirt
          ({ d with last_error := .ok } : Dir).doFatSeekStart
          { p₁ with cache_data := some block } n ends
        refine ⟨r, fun turns large => ?_, fun counted => ?_⟩
        · exact (doFatFirstChild_eq turns dir ((if_pos closed).trans opened)).trans
            ((if_neg (not_not.mpr rfl)).trans (runs turns large))
        · exact (inside counted).imp_right
            fun clean whole => (clean whole).opened closed live rfl
      · have opened : doFatOpen { d with last_error := .ok } p =
            ({ d with last_error := .noMem }, p₁) := by
          rw [doFatOpen, failed]
        have refused : FsErr.noMem ≠ .ok := by decide
        exact ⟨_, fun turns _ => (doFatFirstChild_eq turns dir
          ((if_pos closed).trans opened)).trans (if_pos refused), fun _ => still _ p₁ kept⟩
    · obtain ⟨r, runs, inside⟩ := @nextChild_inside v flash dirt
        ({ d with last_error := .ok } : Dir).doFatSeekStart p n ends
      refine ⟨r, fun turns large => ?_, fun counted => ?_⟩
      · exact (doFatFirstChild_eq turns dir (if_neg opened)).trans
          ((if_neg (not_not.mpr rfl)).trans (runs turns large))
      · exact (inside counted).imp_right fun clean whole => (clean whole).safe

end Calls

/-- A boot sector of a volume with clusters of one sector, and a FAT of one sector. -/
def bootSector (i : Nat) : UChar :=
  ([(0, 0xeb), (12, 2), (13, 1), (14, 1), (16, 1), (21, 0xf8), (36, 1), (44, 2), (66, 0x29),
    (510, 0x55), (511, 0xaa)].lookup i).getD 0

/-- A disk whose sectors behind the boot sector are all the same. -/
def disk (sector : Nat → UChar) : Flash :=
  fun s => (true, if s = 0 then bootSector else sector)

/-- The volume of a `disk`. -/
def smallVolume : Volume where
  sec_per_clus := 1
  bytes_per_sec := 512
  first_fat_sec := 1
  first_data_sec := 2
  root_clus := 2

theorem disk_accepted (sector : Nat → UChar) : fatFsInit (disk sector) 0 = .ok smallVolume := by
  have boot : disk sector 0 = (true, bootSector) := rfl
  rw [fatFsInit, boot]
  decide +kernel

def rootDir (cache : Nat → UChar) : Dir where
  fat_cache := cache
  cached_sector := 0
  last_error := .ok
  attr := 0x10
  first_clus := 2
  cur_clus := 2
  cur_sec := 0
  cur_pos := 0
  cache := cache
  cache_p := 0
  cache_valid := false

/-- A sector with an entry that begins a long name of some parts. -/
def longEntry (len : UChar) (i : Nat) : UChar :=
  if i = 0 then len else if i = 11 then 0x0f else 0

def Result.left : Result → Option (List Nat)
  | .null _ p => some p.live
  | _ => none

/-- A pool that grants every request, with the cache of a directory. -/
def openPool : Pool where
  live := [0]
  next := 1
  grants := [true, true, true]
  cache_data := some 0

/-- A pool that grants every request, without the cache of a directory. -/
def emptyPool : Pool where
  live := []
  next := 0
  grants := [true, true, true]
  cache_data := none

/-- A sector with a deleted entry, and a long name of one part before its entry. -/
def namedSector (i : Nat) : UChar :=
  ([(0, 0xe5), (32, 0x41), (43, 0x0f), (64, 0x41)].lookup i).getD 0

theorem directories_read_safely_named :
    smallVolume.bytes_per_sec.toNat ≤ fatMaxBytesPerSector ∧
      ∃ r, (∀ turns > 1, Call.first.run smallVolume (disk namedSector) (fun _ => 0) turns
          (rootDir fun _ => 0) emptyPool = some r) ∧ r.Inside ∧ r.Safe emptyPool := by
  have ends : Ends smallVolume (disk namedSector) 1
      (Call.first.start smallVolume (disk namedSector) (rootDir fun _ => 0)) := by
    refine ⟨fun k small => ?_, ?_⟩
    · rw [Nat.lt_one_iff.mp small, Stops]
      decide +kernel
    · rw [Stops]
      decide +kernel
  obtain ⟨size, r, runs, inside⟩ := @directories_read_safely smallVolume (disk namedSector)
    (fun _ => 0) (rootDir fun _ => 0) emptyPool 0 1 (disk_accepted namedSector) .first ends
  obtain ⟨inside, clean⟩ := inside fun _ _ => by decide +kernel
  refine ⟨size, r, runs, inside, clean fun _ _ => ?_⟩
  have count : (((move smallVolume (disk namedSector))^[1] (Call.first.start smallVolume
      (disk namedSector) (rootDir fun _ => 0))).byte 0 &&& 0x3f).toNat - 1 = 0 := by
    decide +kernel
  rw [count, Parts]
  decide +kernel

def deletedDisk : Flash :=
  disk fun _ => 0xe5

/-- A directory that is read from the disk of deleted entries. -/
structure Deleted (d : Dir) : Prop where
  ready : d.last_error = .ok
  cache : ∀ i, d.cache i = 0xe5
  fat_cache : ∀ i, d.fat_cache i = 0xe5
  cluster : d.cur_clus = 2 ∨ d.cur_clus = 0xe5e5e5e5

theorem filled_same {size : Nat} {c : UChar} {data old : Nat → UChar} (read : ∀ i, data i = c)
    (kept : ∀ i, old i = c) (i : Nat) : filled size data old i = c := by
  rw [filled]
  split
  · exact read i
  · exact kept i

theorem wordAt_deleted {bytes : Nat → UChar} (same : ∀ i, bytes i = 0xe5) (offset : Nat) :
    wordAt bytes offset = 0xe5e5e5e5 := by
  simp only [wordAt, shortAt, same]
  rfl

section Forever

variable {d : Dir}

theorem Deleted.moveToNextCluster (deleted : Deleted d) :
    Deleted (d.moveToNextCluster smallVolume deletedDisk) ∧
      (d.moveToNextCluster smallVolume deletedDisk).cur_sec = 0 := by
  have elsewhere : smallVolume.first_fat_sec +
      d.cur_clus * 4 / (smallVolume.bytes_per_sec.setWidth 32 : ULong) ≠ 0 := by
    rcases deleted.cluster with cluster | cluster <;> rw [cluster] <;> decide +kernel
  have read : deletedDisk (smallVolume.first_fat_sec +
      d.cur_clus * 4 / (smallVolume.bytes_per_sec.setWidth 32 : ULong)) = (true, fun _ => 0xe5) :=
    congrArg (Prod.mk true) (if_neg elsewhere)
  rw [Dir.moveToNextCluster]
  simp only [read, Bool.true_eq_false, and_false, if_false]
  split
  · have same := @filled_same smallVolume.bytes_per_sec.toNat 0xe5 (fun _ => 0xe5) d.fat_cache
      (fun _ => rfl) deleted.fat_cache
    exact ⟨⟨deleted.ready, deleted.cache, same, .inr (wordAt_deleted same _)⟩, trivial⟩
  · exact ⟨⟨deleted.ready, deleted.cache, deleted.fat_cache,
      .inr (wordAt_deleted deleted.fat_cache _)⟩, trivial⟩

theorem Deleted.moveToNextSector (deleted : Deleted d) (start : d.cur_sec = 0) :
    Deleted (d.moveToNextSector smallVolume deletedDisk) ∧
      (d.moveToNextSector smallVolume deletedDisk).cur_sec = 0 := by
  obtain ⟨next, sector⟩ := @Deleted.moveToNextCluster
    { d with cache_valid := false, cur_sec := d.cur_sec + 1 }
    ⟨deleted.ready, deleted.cache, deleted.fat_cache, deleted.cluster⟩
  have last : smallVolume.sec_per_clus.toNat ≤ (d.cur_sec + 1).toNat := by
    rw [start]
    decide
  rw [Dir.moveToNextSector]
  simp only [if_pos last]
  exact ⟨⟨next.ready, next.cache, next.fat_cache, next.cluster⟩, sector⟩

theorem Deleted.doFatUpdateCache (deleted : Deleted d) (start : d.cur_sec = 0) :
    Deleted (d.doFatUpdateCache smallVolume deletedDisk) ∧
      (d.doFatUpdateCache smallVolume deletedDisk).cur_sec = 0 := by
  have elsewhere : smallVolume.first_data_sec +
      ((d.cur_clus &&& 0x0fffffff) - 2) * smallVolume.sec_per_clus.setWidth 32 +
        d.cur_sec.setWidth 32 ≠ (0 : ULong) := by
    rw [start]
    rcases deleted.cluster with cluster | cluster <;> rw [cluster] <;> decide +kernel
  have read : deletedDisk (smallVolume.first_data_sec +
      ((d.cur_clus &&& 0x0fffffff) - 2) * smallVolume.sec_per_clus.setWidth 32 +
        d.cur_sec.setWidth 32) = (true, fun _ => 0xe5) :=
    congrArg (Prod.mk true) (if_neg elsewhere)
  rw [Dir.doFatUpdateCache]
  split
  · exact ⟨⟨rfl, deleted.cache, deleted.fat_cache, deleted.cluster⟩, start⟩
  · simp only [read, if_true]
    exact ⟨⟨rfl, filled_same (fun _ => rfl) deleted.cache, deleted.fat_cache, deleted.cluster⟩,
      start⟩

theorem Deleted.doFatAdvance (deleted : Deleted d) (start : d.cur_sec = 0) :
    Deleted (d.doFatAdvance smallVolume deletedDisk) ∧
      (d.doFatAdvance smallVolume deletedDisk).cur_sec = 0 := by
  have more : ¬d.cache d.cache_p = 0 := by
    rw [deleted.cache]
    decide
  rw [Dir.doFatAdvance]
  simp only [Dir.byte, Nat.add_zero, if_neg more]
  have moved : Deleted { d with
      last_error := .ok, cur_pos := d.cur_pos + 32, cache_p := d.cache_p + 32 } :=
    ⟨rfl, deleted.cache, deleted.fat_cache, deleted.cluster⟩
  split
  · obtain ⟨next, sector⟩ := moved.moveToNextSector start
    rw [if_neg (not_not.mpr next.ready)]
    exact next.doFatUpdateCache sector
  · rw [if_neg (not_not.mpr rfl)]
    exact moved.doFatUpdateCache start

theorem Deleted.move (deleted : Deleted d) (start : d.cur_sec = 0) :
    Deleted (move smallVolume deletedDisk d) ∧ (move smallVolume deletedDisk d).cur_sec = 0 := by
  obtain ⟨next, sector⟩ := deleted.doFatAdvance start
  rw [Fat.move, Dir.moveToNextDirEntry, if_neg (not_not.mpr next.ready)]
  exact next.doFatUpdateCache sector

theorem deleted_forever (turns : Nat) (deleted : Deleted d) (start : d.cur_sec = 0) :
    d.skipDeleted smallVolume deletedDisk turns = none := by
  induction turns generalizing d with
  | zero => rfl
  | succ turns ih =>
    obtain ⟨next, sector⟩ := deleted.move start
    have more : ¬(Fat.move smallVolume deletedDisk d).byte 0 = 0 := by
      rw [Dir.byte, next.cache]
      decide
    have here : d.byte 0 = 0xe5 := deleted.cache _
    rw [Dir.skipDeleted, if_pos here]
    exact ((if_neg (not_not.mpr next.ready)).trans (if_neg more)).trans (ih next sector)

end Forever

/-- A directory of a volume that `fat_fs_init` accepts: an empty one keeps the new cache, a long
name of no parts is stored before its block, one that breaks off keeps the blocks of the new entry
and of its name, and deleted entries without an end keep the function from returning. -/
theorem directories_unsafe :
    (∀ sector, fatFsInit (disk sector) 0 = .ok smallVolume) ∧
      (Call.first.run smallVolume (disk fun _ => 0) (fun _ => 0) 1 (rootDir fun _ => 0)
        emptyPool).map Result.left = some (some [0]) ∧
      (Call.next.run smallVolume (disk (longEntry 0x40)) (fun _ => 0) 1 (rootDir fun _ => 0)
        openPool).map (fun r => r matches .outside) = some true ∧
      (Call.next.run smallVolume (disk (longEntry 0x42)) (fun _ => 0) 1 (rootDir fun _ => 0)
        openPool).map Result.left = some (some [2, 1, 0]) ∧
      ∀ turns, (Call.next.run smallVolume deletedDisk (fun _ => 0) turns
        (rootDir fun _ => 0xe5) openPool).isNone := by
  refine ⟨disk_accepted, by decide +kernel, by decide +kernel, by decide +kernel, fun turns => ?_⟩
  have fresh : Deleted (rootDir fun _ => 0xe5) := ⟨rfl, fun _ => rfl, fun _ => rfl, .inl rfl⟩
  obtain ⟨deleted, sector⟩ := fresh.doFatUpdateCache rfl
  have more : ¬((rootDir fun _ => 0xe5).doFatUpdateCache smallVolume deletedDisk).byte 0 = 0 := by
    rw [Dir.byte, deleted.cache]
    decide
  have forever : nextChild smallVolume deletedDisk (fun _ => 0) turns (rootDir fun _ => 0xe5)
      openPool = none := by
    rw [nextChild]
    refine (if_neg (not_not.mpr deleted.ready)).trans ((if_neg more).trans ?_)
    rw [deleted_forever turns deleted sector]
  exact Option.isNone_iff_eq_none.mpr forever

end Uos.Fat
