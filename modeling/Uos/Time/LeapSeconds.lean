import Mathlib.Data.List.Count
import Mathlib.Tactic.Linarith

/-!
# Leap seconds

The search of `time2year` in `runtime/tz-time.c` for the leap seconds before a time.  Its upper bound
starts one entry behind the table.
-/

namespace Uos.TimeZone

open List

/-- `leap_seconds_table` -/
def leapSecondsTable : List Int :=
  [-867888000, -851990400, -820454400, -788918400, -757382400, -725760000, -694224000, -662688000,
    -631152000, -583891200, -552355200, -520819200, -457660800, -378691200, -315532800, -283996800,
    -236736000, -205200000, -173664000, -126230400, -78969600, -31536000, 189388800]

/-- The loop of the search, with `h` as an index that may be -1: where `m` ends, and
`leap_second`.  There is none if an entry is fetched from outside of the table. -/
def leapSearch (table : List Int) (t : Int) (l m : Nat) (h : Int) : Option (Nat × Bool) :=
  if h < l then some (m, false)
  else
    let m := l + ((h - l) / 2).toNat
    match table[m]? with
    | none => none
    | some s =>
      if t < s then leapSearch table t l m (m - 1)
      else if s < t then leapSearch table t (m + 1) (m + 1) h
      else some (m + 1, true)
termination_by (h + 1 - l).toNat
decreasing_by
  · omega
  · omega

/-- The search ends inside of the table, with the number of entries up to a time and whether the time
is one of them. -/
def LeapRight (table : List Int) (t : Int) : Prop :=
  ∃ count leap, leapSearch table t 0 0 table.length = some (count, leap) ∧
    count = table.countP (· ≤ t) ∧ (leap = true ↔ t ∈ table)

variable {table : List Int} {t : Int} {l m : Nat} {h : Int}

theorem following (sorted : table.Pairwise (· < ·)) {i j : Nat} {s s' : Int}
    (first : table[i]? = some s) (second : table[j]? = some s') (less : i < j) : s < s' := by
  obtain ⟨index, rfl⟩ := List.getElem?_eq_some_iff.mp first
  obtain ⟨index', rfl⟩ := List.getElem?_eq_some_iff.mp second
  exact pairwise_iff_getElem.mp sorted i j index index' less

theorem countP_eq (few : m ≤ table.length) (low : ∀ i s, table[i]? = some s → i < m → s ≤ t)
    (high : ∀ i s, table[i]? = some s → m ≤ i → t < s) : table.countP (· ≤ t) = m := by
  have before : (table.take m).countP (· ≤ t) = m := by
    rw [countP_eq_length.mpr, length_take, min_eq_left few]
    intro s member
    obtain ⟨i, entry⟩ := mem_iff_getElem?.mp member
    rw [List.getElem?_take] at entry
    split at entry
    · exact decide_eq_true (low i s entry ‹_›)
    · contradiction
  have behind : (table.drop m).countP (· ≤ t) = 0 := by
    rw [countP_eq_zero]
    intro s member
    obtain ⟨i, entry⟩ := mem_iff_getElem?.mp member
    rw [List.getElem?_drop] at entry
    simpa using high _ s entry (Nat.le_add_right ..)
  rw [← take_append_drop m table, countP_append, before, behind, Nat.add_zero]

theorem leapSearch_right (sorted : table.Pairwise (· < ·)) (last : ∃ s ∈ table, t ≤ s)
    (few : l ≤ table.length) (inside : h ≤ table.length) (start : l ≤ h + 1)
    (low : ∀ i s, table[i]? = some s → i < l → s < t)
    (high : ∀ (i : Nat) s, table[i]? = some s → h < i → t < s) (done : h < l → m = l) :
    ∃ count leap, leapSearch table t l m h = some (count, leap) ∧
      count = table.countP (· ≤ t) ∧ (leap = true ↔ t ∈ table) := by
  fun_induction leapSearch table t l m h with
  | case1 l m h ended =>
    obtain rfl := done ended
    refine ⟨_, _, rfl, (countP_eq few (fun i s entry below => (low i s entry below).le)
      fun i s entry above => high i s entry (by omega)).symm, iff_of_false Bool.false_ne_true ?_⟩
    intro member
    obtain ⟨i, entry⟩ := mem_iff_getElem?.mp member
    rcases Nat.lt_or_ge i m with below | above
    · exact (low i t entry below).false
    · exact (high i t entry (by omega)).false
  | case2 l m h going middle none =>
    obtain ⟨s, member, later⟩ := last
    obtain ⟨i, entry⟩ := mem_iff_getElem?.mp member
    have outside := List.getElem?_eq_none_iff.mp none
    have index := (List.getElem?_eq_some_iff.mp entry).1
    have earlier := low i s entry (by omega)
    omega
  | case3 l m h going middle s entry less ih =>
    have index := (List.getElem?_eq_some_iff.mp entry).1
    refine ih few (by omega) (by omega) low (fun i s' entry' above => ?_) (by omega)
    rcases Nat.eq_or_lt_of_le (show middle ≤ i by omega) with rfl | more
    · rwa [← Option.some.inj (entry.symm.trans entry')]
    · exact less.trans (following sorted entry entry' more)
  | case4 l m h going middle s entry notLess less ih =>
    have index := (List.getElem?_eq_some_iff.mp entry).1
    refine ih index inside (by omega) (fun i s' entry' below => ?_) high fun _ => rfl
    rcases Nat.eq_or_lt_of_le (show i ≤ middle by omega) with rfl | more
    · rwa [← Option.some.inj (entry.symm.trans entry')]
    · exact (following sorted entry' entry more).trans less
  | case5 l m h going middle s entry notLess notMore =>
    obtain rfl : s = t := le_antisymm (not_lt.mp notLess) (not_lt.mp notMore)
    have index := (List.getElem?_eq_some_iff.mp entry).1
    refine ⟨_, _, rfl, (countP_eq index (fun i s' entry' below => ?_)
      fun i s' entry' above => ?_).symm, iff_of_true rfl (mem_of_getElem? entry)⟩
    · rcases Nat.eq_or_lt_of_le (Nat.le_of_lt_succ below) with rfl | more
      · exact (Option.some.inj (entry'.symm.trans entry)).le
      · exact (following sorted entry' entry more).le
    · exact following sorted entry entry' above

theorem leapSearch_none (later : ∀ s ∈ table, s < t) (inside : h = table.length)
    (few : l ≤ table.length) : leapSearch table t l m h = none := by
  fun_induction leapSearch table t l m h with
  | case1 l m h ended => omega
  | case2 l m h going middle none => rfl
  | case3 l m h going middle s entry less ih =>
    exact absurd (later s (mem_of_getElem? entry)) less.not_gt
  | case4 l m h going middle s entry notLess less ih =>
    exact ih inside (List.getElem?_eq_some_iff.mp entry).1
  | case5 l m h going middle s entry notLess notMore =>
    exact absurd (later s (mem_of_getElem? entry)) notMore

theorem leap_right_iff (sorted : table.Pairwise (· < ·)) (t : Int) :
    LeapRight table t ↔ ∃ s ∈ table, t ≤ s := by
  constructor
  · rintro ⟨count, leap, ends, -⟩
    by_contra none
    push Not at none
    rw [leapSearch_none none rfl (Nat.zero_le _)] at ends
    contradiction
  · intro last
    refine leapSearch_right sorted last (Nat.zero_le _) le_rfl (by omega)
      (fun i s entry below => absurd below (Nat.not_lt_zero i)) (fun i s entry above => ?_)
      fun none => absurd none (by omega)
    have index := (List.getElem?_eq_some_iff.mp entry).1
    omega

theorem leap_right_first :
    LeapRight leapSecondsTable (-867888000) ↔ ∃ s ∈ leapSecondsTable, -867888000 ≤ s :=
  leap_right_iff (by decide) (-867888000)

theorem later_not_leapRight : ¬∀ table t, table.Pairwise (· < ·) → LeapRight table t := by
  intro right
  obtain ⟨count, leap, ends, -⟩ := right leapSecondsTable 189388801 (by decide)
  rw [leapSearch_none (by decide) rfl (Nat.zero_le _)] at ends
  contradiction

end Uos.TimeZone
