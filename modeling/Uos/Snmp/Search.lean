import Uos.Library.Lexicographic
import Uos.Snmp.Lookup

/-!
# The search for a variable

In a table that is sorted by name, `find_var` finds the last entry that is not behind an identifier.
Names are compared as lists of numbers.
-/

namespace Uos

open List

namespace Snmp

def components (id : List UShort) : List Nat :=
  id.map BitVec.toNat

theorem components_injective : Function.Injective components :=
  map_injective_iff.mpr fun _ _ => BitVec.eq_of_toNat_eq

end Snmp

open Snmp

variable {Device : Type} {enterprise : ULong}

def SnmpVar.name (enterprise : ULong) (v : SnmpVar Device) : List Nat :=
  v.id.map (component enterprise)

@[simp] theorem SnmpVar.length_name (v : SnmpVar Device) : (v.name enterprise).length = v.idlen :=
  length_map _

/-- A table is strictly sorted by name. -/
def Sorted (enterprise : ULong) (tab : List (SnmpVar Device)) : Prop :=
  tab.Pairwise fun v w => v.name enterprise < w.name enterprise

namespace Snmp

/-- `compare` compares in the lexicographic order. -/
theorem compare_spec (a_id : List UShort) (b_id : List UChar) :
    match compare enterprise a_id b_id with
    | .lt => components a_id < b_id.map (component enterprise)
    | .eq => components a_id = b_id.map (component enterprise)
    | .gt => b_id.map (component enterprise) < components a_id := by
  induction a_id generalizing b_id with
  | nil =>
    cases b_id with
    | nil => rfl
    | cons y b_id => exact nil_lt_cons _ _
  | cons x a_id ih =>
    cases b_id with
    | nil => exact nil_lt_cons _ _
    | cons y b_id =>
      rw [compare]
      split_ifs with less greater
      · exact cons_lt_cons_iff.mpr (.inl less)
      · exact cons_lt_cons_iff.mpr (.inl greater)
      · have equal : x.toNat = component enterprise y := by omega
        have rest := ih b_id
        simp only [components, map_cons, equal] at rest ⊢
        split at rest
        · exact cons_lt_cons_iff.mpr (.inr ⟨rfl, rest⟩)
        · exact congrArg _ rest
        · exact cons_lt_cons_iff.mpr (.inr ⟨rfl, rest⟩)

theorem compare_eq_iff {a_id : List UShort} {b_id : List UChar} :
    compare enterprise a_id b_id = .eq ↔ components a_id = b_id.map (component enterprise) := by
  have spec := @compare_spec enterprise a_id b_id
  split at spec <;> rename_i result <;> rw [result] <;> grind

/-- What a search for an identifier in a table finds: nothing if all entries are behind it, or
else the last entry that is not, with the information whether it has this very name. -/
inductive Found (enterprise : ULong) (tab : List (SnmpVar Device)) (id : List Nat) :
    Option (Nat × Bool) → Prop
  | nothing (behind : ∀ (j : Nat) (w : SnmpVar Device), tab[j]? = some w → id < w.name enterprise) :
      Found enterprise tab id none
  | exact {k : Nat} {v : SnmpVar Device} (entry : tab[k]? = some v)
      (equal : id = v.name enterprise) : Found enterprise tab id (some (k, true))
  | before {k : Nat} {v : SnmpVar Device} (entry : tab[k]? = some v)
      (less : v.name enterprise < id)
      (behind : ∀ (j : Nat) (w : SnmpVar Device), k < j → tab[j]? = some w →
        id < w.name enterprise) :
      Found enterprise tab id (some (k, false))

variable {tab : List (SnmpVar Device)} {name : List UShort}

theorem sorted_lt (sorted : Sorted enterprise tab) {i j : Nat} {v w : SnmpVar Device} (less : i < j)
    (first : tab[i]? = some v) (second : tab[j]? = some w) :
    v.name enterprise < w.name enterprise := by
  obtain ⟨inside, rfl⟩ := List.getElem?_eq_some_iff.mp first
  obtain ⟨inside', rfl⟩ := List.getElem?_eq_some_iff.mp second
  exact pairwise_iff_getElem.mp sorted i j inside inside' less

/-- The loop finds the entry, if the entries in front of its part of the table are less than the
identifier and those behind it are greater. -/
theorem found_findFrom (sorted : Sorted enterprise tab) (turns : Nat) :
    ∀ {base lim : Nat}, 0 < lim → lim ≤ turns → base + lim ≤ tab.length →
      (∀ (j : Nat) (w : SnmpVar Device), j < base → tab[j]? = some w →
        w.name enterprise < components name) →
      (∀ (j : Nat) (w : SnmpVar Device), base + lim ≤ j → tab[j]? = some w →
        components name < w.name enterprise) →
      Found enterprise tab (components name) (findFrom enterprise tab name turns base lim) := by
  induction turns with
  | zero => omega
  | succ turns ih =>
    intro base lim positive few inside front behind
    have middle : base + lim / 2 < tab.length := by omega
    have entry := List.getElem?_eq_getElem middle
    have spec := @compare_spec enterprise name tab[base + lim / 2].id
    rw [findFrom]
    simp only [entry]
    split at spec
    · rename_i less
      simp only [less]
      have behind_middle :
          ∀ (j : Nat) (w : SnmpVar Device), base + lim / 2 ≤ j → tab[j]? = some w →
          components name < w.name enterprise := by
        intro j w large found
        rcases Nat.eq_or_lt_of_le large with rfl | larger
        · rw [entry] at found
          cases found
          exact spec
        · exact lt_trans spec (sorted_lt sorted larger entry found)
      split_ifs with one first
      · apply Found.nothing
        exact fun j w found => behind_middle j w (by omega) found
      · have before : tab[base + lim / 2 - 1]? = some tab[base + lim / 2 - 1] :=
          List.getElem?_eq_getElem _
        apply Found.before before (front _ _ (by omega) before)
        exact fun j w larger found => behind_middle j w (by omega) found
      · exact ih (by omega) (by omega) (by omega) front
          fun j w large found => behind_middle j w large found
    · rename_i equal
      simp only [equal]
      exact Found.exact entry spec
    · rename_i greater
      simp only [greater]
      split_ifs with last
      · apply Found.before entry spec
        exact fun j w larger found => behind j w (by omega) found
      · refine ih (by omega) (by omega) (by omega) (fun j w small found => ?_)
          fun j w large found => behind j w (by omega) found
        rcases Nat.lt_succ_iff_lt_or_eq.mp small with smaller | rfl
        · exact lt_trans (sorted_lt sorted smaller found entry) spec
        · rw [entry] at found
          cases found
          exact spec

/-- `find_var` finds the last entry that is not behind the identifier. -/
theorem found_findVar {tab : SnmpTable Device} (sorted : Sorted enterprise tab.1) :
    Found enterprise tab.1 (components name) (findVar enterprise tab name) := by
  apply found_findFrom sorted tab.1.length tab.2 le_rfl (by omega)
  · exact fun j w impossible => absurd impossible (Nat.not_lt_zero _)
  · intro j w outside found
    rw [List.getElem?_eq_none (by omega)] at found
    cases found

/-- The last entry that is not behind an identifier. -/
structure Last (enterprise : ULong) (tab : List (SnmpVar Device)) (id : List Nat) (k : Nat)
    (v : SnmpVar Device) : Prop where
  entry : tab[k]? = some v
  le : v.name enterprise ≤ id
  behind : ∀ (j : Nat) (w : SnmpVar Device), k < j → tab[j]? = some w → id < w.name enterprise

theorem last_unique {id : List Nat} {k k' : Nat} {v v' : SnmpVar Device}
    (last : Last enterprise tab id k v) (last' : Last enterprise tab id k' v') :
    k = k' ∧ v = v' := by
  rcases Nat.lt_trichotomy k k' with less | rfl | greater
  · exact absurd (last.behind k' v' less last'.entry) (not_lt_of_ge last'.le)
  · exact ⟨rfl, Option.some.inj (last.entry.symm.trans last'.entry)⟩
  · exact absurd (last'.behind k v greater last.entry) (not_lt_of_ge last.le)

theorem found_last (sorted : Sorted enterprise tab) {id : List Nat} {k : Nat} {exact : Bool}
    (found : Found enterprise tab id (some (k, exact))) :
    ∃ v, Last enterprise tab id k v ∧ (exact = true ↔ v.name enterprise = id) := by
  cases found with
  | exact entry equal =>
    refine ⟨_, ⟨entry, equal.ge, fun j w larger found => ?_⟩, by simp [equal]⟩
    rw [equal]
    exact sorted_lt sorted larger entry found
  | before entry less behind =>
    exact ⟨_, ⟨entry, less.le, behind⟩, by simp [less.ne]⟩

/-- The loop of `find_var`, which has no result without an entry of the table. -/
def searchFrom (enterprise : ULong) (tab : List (SnmpVar Device)) (name : List UShort) :
    Nat → Nat → Nat → Option (Option (Nat × Bool))
  | 0, _, _ => none
  | turns + 1, base, lim => do
    let vp := base + lim / 2
    let entry ← tab[vp]?
    match compare enterprise name entry.id with
    | .eq => some (some (vp, true))
    | .lt =>
      if lim = 1 then some (if vp = 0 then none else some (vp - 1, false))
      else searchFrom enterprise tab name turns base (lim / 2)
    | .gt =>
      let lim := lim - (vp - base + 1)
      if lim = 0 then some (some (vp, false))
      else searchFrom enterprise tab name turns (vp + 1) lim

/-- What `compare` sees of an identifier, whose length is passed as a `small_uint_t`.  It has eight
bits on AVR. -/
def compared (bits : Nat) (name : List UShort) : List UShort :=
  name.take (name.length % 2 ^ bits)

/-- `find_var` ends, looks at entries of the table only, and finds the right one. -/
def SearchRight (bits : Nat) (enterprise : ULong) (tab : SnmpTable Device) (name : List UShort) :
    Prop :=
  ∃ found, searchFrom enterprise tab.1 (compared bits name) tab.1.length 0 tab.1.length =
      some found ∧
    Found enterprise tab.1 (components name) found

theorem searchFrom_eq (turns : Nat) {base lim : Nat} (positive : 0 < lim) (few : lim ≤ turns)
    (inside : base + lim ≤ tab.length) :
    searchFrom enterprise tab name turns base lim =
      some (findFrom enterprise tab name turns base lim) := by
  induction turns generalizing base lim with
  | zero => omega
  | succ turns ih =>
    have entry := List.getElem?_eq_getElem (show base + lim / 2 < tab.length by omega)
    simp only [searchFrom, findFrom, entry, Option.bind_eq_bind, Option.bind_some]
    cases compare enterprise name tab[base + lim / 2].id with
    | eq => rfl
    | lt =>
      dsimp only
      split_ifs
      · rfl
      · rfl
      · exact ih (by omega) (by omega) (by omega)
    | gt =>
      dsimp only
      split_ifs
      · rfl
      · exact ih (by omega) (by omega) (by omega)

theorem found_both_iff (sorted : Sorted enterprise tab) {low high : List Nat} (less : low < high)
    {found : Option (Nat × Bool)} (first : Found enterprise tab low found) :
    Found enterprise tab high found ↔
      ∀ v ∈ tab, low ≤ v.name enterprise → high < v.name enterprise := by
  constructor
  · intro second v member above
    obtain ⟨j, entry⟩ := mem_iff_getElem?.mp member
    cases second with
    | nothing behind => exact behind j v entry
    | @exact k w entry' equal =>
      cases first with
      | exact entry'' equal' =>
        rw [entry'] at entry''
        cases entry''
        exact absurd (equal'.trans equal.symm) less.ne
    | @before k w entry' _ behind =>
      cases first with
      | before entry'' below =>
        rw [entry'] at entry''
        cases entry''
        refine behind j v (lt_of_not_ge fun small => ?_) entry
        rcases Nat.lt_or_eq_of_le small with smaller | rfl
        · exact absurd (above.trans_lt (sorted_lt sorted smaller entry entry')) below.asymm
        · rw [entry'] at entry
          cases entry
          exact absurd below above.not_gt
  · intro apart
    cases first with
    | nothing behind =>
      refine .nothing fun j w entry => apart w (mem_of_getElem? entry) (behind j w entry).le
    | exact entry equal =>
      exact absurd (apart _ (mem_of_getElem? entry) equal.le) (equal ▸ less).asymm
    | before entry below behind =>
      refine .before entry (below.trans less) fun j w larger entry' => ?_
      exact apart w (mem_of_getElem? entry') (behind j w larger entry').le

/-- The search is right if and only if the length of the identifier fits, or no entry lies between
what is compared and the identifier. -/
theorem search_right_iff (bits : Nat) {tab : SnmpTable Device} (sorted : Sorted enterprise tab.1)
    (name : List UShort) :
    SearchRight bits enterprise tab name ↔
      name.length < 2 ^ bits ∨ ∀ v ∈ tab.1,
        components (compared bits name) ≤ v.name enterprise →
          components name < v.name enterprise := by
  have runs := @searchFrom_eq _ enterprise tab.1 (compared bits name) tab.1.length 0 _ tab.2 le_rfl
    (Nat.zero_add _).le
  have first := @found_findVar _ enterprise (compared bits name) tab sorted
  have right : SearchRight bits enterprise tab name ↔
      Found enterprise tab.1 (components name) (findVar enterprise tab (compared bits name)) := by
    rw [SearchRight, runs]
    simp [findVar]
  rw [right]
  rcases Nat.lt_or_ge name.length (2 ^ bits) with short | long
  · have whole : compared bits name = name := by
      rw [compared, Nat.mod_eq_of_lt short, take_length]
    rw [whole]
    exact iff_of_true (found_findVar sorted) (.inl short)
  · have fewer : name.length % 2 ^ bits < name.length :=
      (Nat.mod_lt _ (Nat.two_pow_pos bits)).trans_le long
    have front : components (compared bits name) <+: components name :=
      (List.take_prefix ..).map _
    have less : components (compared bits name) < components name := by
      refine (Lexicographic.le_of_front front).lt_of_ne fun same => ?_
      have length := congrArg List.length (components_injective same)
      rw [compared, length_take] at length
      omega
    rw [found_both_iff sorted less first, or_iff_right (Nat.not_lt.mpr long)]

def lonely : SnmpTable Unit :=
  ⟨[{ id := [1, 3], idlen_lt := by decide, type := .var, get := none, next := none, set := none }],
    by decide⟩

theorem sorted_lonely : Sorted 0 lonely.1 :=
  pairwise_singleton _ _

theorem search_right_lonely :
    SearchRight 8 0 lonely [1, 3, 6] ↔
      [(1 : UShort), 3, 6].length < 2 ^ 8 ∨ ∀ v ∈ lonely.1,
        components (compared 8 [1, 3, 6]) ≤ v.name 0 → components [1, 3, 6] < v.name 0 :=
  search_right_iff 8 sorted_lonely [1, 3, 6]

/-- Of 256 components, none is compared on AVR. -/
theorem long_not_searchRight :
    ¬∀ (tab : SnmpTable Unit) name, Sorted 0 tab.1 → SearchRight 8 0 tab name := by
  intro right
  obtain ⟨found, runs, finds⟩ := right lonely (List.replicate 256 5) sorted_lonely
  have none : searchFrom 0 lonely.1 (compared 8 (List.replicate 256 5)) 1 0 1 = some none := by
    decide +kernel
  obtain rfl := Option.some.inj (none.symm.trans runs)
  cases finds with
  | nothing behind => exact absurd (behind 0 _ rfl) (by decide +kernel)

end Snmp
end Uos
