import Mathlib.Data.Finset.Card
import Mathlib.Data.Set.Function
import Mathlib.Logic.Function.Basic
import Mathlib.Order.Defs.LinearOrder

/-!
# Enumerations

The rows of a table that have a key, visited in the order of the keys by searches for the least row
behind a key.
-/

namespace Uos

open List

namespace Enumeration

variable {Row Key : Type*} {rows : List Row} {row : Row} {k : Key}

theorem eq_of_nodup {key : Row → Option Key} (distinct : (rows.filterMap key).Nodup) {other : Row}
    (member : row ∈ rows) (member' : other ∈ rows) (own : k ∈ key row) (own' : k ∈ key other) :
    row = other := by
  induction rows with
  | nil => cases member
  | cons first rows ih =>
    have alone : ∀ row ∈ rows, k ∈ key row → k ∉ key first := by
      intro row member own first_own
      rw [filterMap_cons_some first_own, nodup_cons] at distinct
      exact distinct.1 (mem_filterMap.mpr ⟨row, member, own⟩)
    rcases mem_cons.mp member with rfl | later <;>
      rcases mem_cons.mp member' with rfl | later'
    · rfl
    · exact absurd own (alone other later' own')
    · exact absurd own' (alone row later own)
    · exact ih (distinct.sublist (.filterMap key (sublist_cons_self ..))) later later'

/-- A lookup that takes each row for the one with the mirrored key shows the same as the keys do if
and only if every row has a mirror image that shows the same. -/
theorem mirrored_iff {Value : Type*} {rows : Set Row} {index : Row → Key} {mirror : Key → Key}
    {value : Row → Key → Value} (involutive : Function.Involutive mirror)
    (distinct : Set.InjOn index rows) :
    (∀ k v, (∃ u ∈ rows, mirror (index u) = k ∧ v = value u k) ↔
      ∃ u ∈ rows, index u = k ∧ v = value u k) ↔
    ∀ u ∈ rows, ∃ image ∈ rows, mirror (index image) = index u ∧
      value image (index u) = value u (index u) := by
  constructor
  · intro agree u member
    obtain ⟨image, member', same, value⟩ := (agree (index u) _).mpr ⟨u, member, rfl, rfl⟩
    exact ⟨image, member', same, value.symm⟩
  · intro images k v
    constructor
    · rintro ⟨u, member, rfl, rfl⟩
      obtain ⟨image, member', same, shown⟩ := images u member
      have here : index image = mirror (index u) := by rw [← same, involutive]
      obtain ⟨other, member'', same', shown'⟩ := images image member'
      have back : index other = index u := by
        rw [← involutive (index other), same', here, involutive]
      obtain rfl := distinct member'' member back
      rw [here] at shown'
      exact ⟨image, member', here, shown'⟩
    · rintro ⟨u, member, rfl, rfl⟩
      obtain ⟨image, member', same, shown⟩ := images u member
      exact ⟨image, member', same, shown.symm⟩

variable [LinearOrder Key]

/-- One turn of a search for the least row; a row without a key does not count. -/
def better (key : Row → Option Key) (found : Option (Row × Key)) (row : Row) : Option (Row × Key) :=
  match key row, found with
  | none, found => found
  | some k, none => some (row, k)
  | some k, some (least, l) => if k < l then some (row, k) else some (least, l)

/-- The first one of the least rows. -/
def least (key : Row → Option Key) (rows : List Row) : Option (Row × Key) :=
  rows.foldl (better key) none

/-- The keys behind a key, or all keys. -/
def behind (key : Row → Option Key) (low : Option Key) (row : Row) : Option Key :=
  (key row).filter fun k => low.all (· < k)

variable {key : Row → Option Key} {low : Option Key}

variable {found : Option (Row × Key)} {visited : List (Row × Key)}

theorem better_none :
    better key found row = none ↔ found = none ∧ key row = none := by
  rw [better.eq_def]
  rcases key row with _ | k <;> rcases found with _ | ⟨least, l⟩
  · simp
  · simp
  · simp
  · dsimp only
    split_ifs <;> simp

/-- What a turn keeps, and that nothing seen so far is less. -/
theorem better_some {first : Row} (result : better key found first = some (row, k)) :
    (found = some (row, k) ∨ row = first ∧ key first = some k) ∧
      (∀ other ∈ found, k ≤ other.2) ∧ ∀ l ∈ key first, k ≤ l := by
  rw [better.eq_def] at result
  generalize key first = own at result ⊢
  rcases own with _ | k' <;> rcases found with _ | ⟨least, l⟩
  · cases result
  · cases result
    simp
  · cases result
    simp
  · dsimp only at result
    split_ifs at result with less <;> cases result
    · simp [less.le]
    · simp [not_lt.mp less]

theorem foldl_better_none (found : Option (Row × Key)) :
    rows.foldl (better key) found = none ↔ found = none ∧ ∀ row ∈ rows, key row = none := by
  induction rows generalizing found with
  | nil => simp
  | cons first rows ih => rw [foldl_cons, ih, forall_mem_cons, ← and_assoc, better_none]

/-- What a search finds, and that nothing is less. -/
theorem foldl_better_some (result : rows.foldl (better key) found = some (row, k)) :
    (found = some (row, k) ∨ row ∈ rows ∧ key row = some k) ∧ (∀ other ∈ found, k ≤ other.2) ∧
      ∀ other ∈ rows, ∀ l ∈ key other, k ≤ l := by
  induction rows generalizing found with
  | nil =>
    cases result
    simp
  | cons first rows ih =>
    obtain ⟨origin, least, rest⟩ := ih result
    cases turn : better key found first with
    | none =>
      obtain ⟨rfl, absent⟩ := better_none.mp turn
      rw [turn] at origin
      refine ⟨.inr (origin.resolve_left (by simp) |>.imp_left (.tail _)), by simp, ?_⟩
      exact forall_mem_cons.mpr ⟨by simp [absent], rest⟩
    | some kept =>
      obtain ⟨other, l⟩ := kept
      obtain ⟨origin', least', head⟩ := better_some turn
      have low : k ≤ l := least _ turn
      refine ⟨?_, fun other member => low.trans (least' other member), ?_⟩
      · rcases origin with same | found_later
        · cases turn.symm.trans same
          exact origin'.imp_right fun ⟨same, known⟩ => ⟨same ▸ mem_cons_self, same ▸ known⟩
        · exact .inr (found_later.imp_left (.tail _))
      · exact forall_mem_cons.mpr ⟨fun l' member => low.trans (head l' member), rest⟩

theorem least_eq_none : least key rows = none ↔ ∀ row ∈ rows, key row = none := by
  rw [least, foldl_better_none, eq_self, true_and]

theorem least_eq_some (result : least key rows = some (row, k)) :
    row ∈ rows ∧ key row = some k ∧ ∀ other ∈ rows, ∀ l ∈ key other, k ≤ l := by
  obtain ⟨origin, -, rest⟩ := foldl_better_some result
  obtain ⟨member, known⟩ := origin.resolve_left (by simp)
  exact ⟨member, known, rest⟩

theorem mem_behind : k ∈ behind key low row ↔ k ∈ key row ∧ ∀ l ∈ low, l < k := by
  rw [behind, Option.mem_def, Option.filter_eq_some_iff]
  cases low with
  | none => simp
  | some l => simp

/-- The rows that a walk visits from a key on, with their keys. -/
inductive Visits (key : Row → Option Key) (rows : List Row) :
    Option Key → List (Row × Key) → Prop
  | ends {low : Option Key} (nothing : least (behind key low) rows = none) : Visits key rows low []
  | visits {low : Option Key} {row : Row} {k : Key} {rest : List (Row × Key)}
      (found : least (behind key low) rows = some (row, k)) (walk : Visits key rows (some k) rest) :
      Visits key rows low ((row, k) :: rest)

/-- The keys behind a key, as a set. -/
def remaining (key : Row → Option Key) (rows : List Row) (low : Option Key) : Finset Key :=
  (rows.filterMap (behind key low)).toFinset

theorem mem_remaining :
    k ∈ remaining key rows low ↔ ∃ row ∈ rows, k ∈ key row ∧ ∀ l ∈ low, l < k := by
  simp only [remaining, mem_toFinset, mem_filterMap, ← Option.mem_def, mem_behind]

/-- Every walk ends. -/
theorem exists_visits (low : Option Key) : ∃ visited, Visits key rows low visited := by
  induction size : (remaining key rows low).card using Nat.strong_induction_on generalizing low with
  | _ n ih =>
    cases found : least (behind key low) rows with
    | none => exact ⟨[], .ends found⟩
    | some first =>
      obtain ⟨row, k⟩ := first
      obtain ⟨member, known, -⟩ := least_eq_some found
      obtain ⟨own, above⟩ := mem_behind.mp known
      have smaller : remaining key rows (some k) ⊂ remaining key rows low := by
        refine (Finset.ssubset_iff_of_subset fun l here => ?_).mpr ⟨k, ?_, ?_⟩
        · obtain ⟨other, member', own', above'⟩ := mem_remaining.mp here
          have higher : k < l := above' k rfl
          exact mem_remaining.mpr
            ⟨other, member', own', fun m here => (above m here).trans higher⟩
        · exact mem_remaining.mpr ⟨row, member, own, above⟩
        · intro here
          obtain ⟨_, -, -, above'⟩ := mem_remaining.mp here
          exact lt_irrefl k (above' k rfl)
      obtain ⟨rest, walk⟩ := ih _ (size ▸ Finset.card_lt_card smaller) (some k) rfl
      exact ⟨(row, k) :: rest, .visits found walk⟩

/-- What is visited are rows behind the key, each with its own key. -/
theorem Visits.sound (walk : Visits key rows low visited) :
    ∀ visit ∈ visited, visit.1 ∈ rows ∧ visit.2 ∈ key visit.1 ∧ ∀ l ∈ low, l < visit.2 := by
  induction walk with
  | ends => simp
  | @visits low row k rest found walk ih =>
    obtain ⟨member, known, -⟩ := least_eq_some found
    obtain ⟨own, above⟩ := mem_behind.mp known
    refine forall_mem_cons.mpr ⟨⟨member, own, above⟩, fun visit later => ?_⟩
    obtain ⟨member', own', above'⟩ := ih visit later
    exact ⟨member', own', fun l here => (above l here).trans (above' k rfl)⟩

/-- The keys of a walk increase. -/
theorem Visits.increasing (walk : Visits key rows low visited) :
    (visited.map Prod.snd).Pairwise (· < ·) := by
  induction walk with
  | ends => exact .nil
  | @visits low row k rest found walk ih =>
    refine .cons (fun l member => ?_) ih
    obtain ⟨visit, later, rfl⟩ := mem_map.mp member
    exact (walk.sound visit later).2.2 k rfl

/-- A walk leaves out no key. -/
theorem Visits.complete (walk : Visits key rows low visited) (member : row ∈ rows)
    (own : k ∈ key row) (above : ∀ l ∈ low, l < k) :
    k ∈ visited.map Prod.snd := by
  induction walk with
  | ends nothing =>
    have absent := least_eq_none.mp nothing row member
    have present := mem_behind.mpr ⟨own, above⟩
    rw [absent] at present
    cases present
  | @visits low first l rest found walk ih =>
    obtain ⟨-, -, least⟩ := least_eq_some found
    rcases (least row member k (mem_behind.mpr ⟨own, above⟩)).eq_or_lt with rfl | less
    · exact mem_cons_self
    · exact .tail _ (ih fun _ same => by cases same; exact less)

/-- Where no two rows have one key, a walk visits every row. -/
theorem Visits.mem_iff (walk : Visits key rows none visited)
    (distinct : (rows.filterMap key).Nodup) : (row, k) ∈ visited ↔ row ∈ rows ∧ k ∈ key row := by
  constructor
  · intro visit
    obtain ⟨member, own, -⟩ := walk.sound _ visit
    exact ⟨member, own⟩
  · rintro ⟨member, own⟩
    obtain ⟨⟨other, _⟩, visit, rfl⟩ := mem_map.mp (walk.complete member own (by simp))
    obtain ⟨member', own', -⟩ := walk.sound _ visit
    obtain rfl := eq_of_nodup distinct member member' own own'
    exact visit

/-- Where no two rows have one key, a walk visits every key once. -/
theorem Visits.perm (walk : Visits key rows none visited) (distinct : (rows.filterMap key).Nodup) :
    (visited.map Prod.snd).Perm (rows.filterMap key) := by
  apply (perm_ext_iff_of_nodup (walk.increasing.imp ne_of_lt) distinct).mpr
  intro k
  rw [mem_filterMap]
  constructor
  · intro visit
    obtain ⟨⟨row, _⟩, here, rfl⟩ := mem_map.mp visit
    obtain ⟨member, own, -⟩ := walk.sound _ here
    exact ⟨row, member, own⟩
  · rintro ⟨row, member, own⟩
    exact walk.complete member own (by simp)

end Enumeration
end Uos
