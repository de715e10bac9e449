import Mathlib.Order.Lattice
import Mathlib.Order.Defs.LinearOrder
import Mathlib.Data.List.Basic

/-!
# Maxima of lists

The choice of the first best item of a list, with a fallback, and the maximum of a list with a
lower bound, both computed by a loop from the left.
-/

namespace Uos

section FirstMaximum

variable {Item Value : Type*} [LinearOrder Value]

/-- `winner` is the first of the best items, or `start` if no item is better than `start`. -/
def FirstMaximum (value : Item → Value) (items : List Item) (start winner : Item) : Prop :=
  winner = start ∧ (∀ item ∈ items, value item ≤ value start) ∨
    value start < value winner ∧ ∃ before after, items = before ++ winner :: after ∧
      (∀ item ∈ before, value item < value winner) ∧ ∀ item ∈ after, value item ≤ value winner

theorem FirstMaximum.le {value : Item → Value} {items : List Item} {start winner : Item}
    (first : FirstMaximum value items start winner) {item : Item} (member : item ∈ items) :
    value item ≤ value winner := by
  rcases first with ⟨rfl, worse⟩ | ⟨-, before, after, rfl, earlier, later⟩
  · exact worse item member
  · simp only [List.mem_append, List.mem_cons] at member
    rcases member with here | rfl | here
    · exact (earlier item here).le
    · exact le_rfl
    · exact later item here

theorem FirstMaximum.cases {value : Item → Value} {items : List Item} {start winner : Item}
    (first : FirstMaximum value items start winner) : winner = start ∨ winner ∈ items := by
  rcases first with ⟨same, -⟩ | ⟨-, before, after, rfl, -⟩
  · exact .inl same
  · exact .inr (by simp)

/-- The loop that keeps the best item seen so far finds the first maximum. -/
theorem foldl_firstMaximum (value : Item → Value) (items : List Item) (start : Item) :
    FirstMaximum value items start
      (items.foldl (fun best item => if value best < value item then item else best) start) := by
  induction items generalizing start with
  | nil => exact .inl ⟨rfl, by simp⟩
  | cons item items ih =>
    rw [List.foldl_cons]
    split
    · rename_i better
      rcases ih item with ⟨same, worse⟩ | ⟨best, before, after, split, earlier, later⟩
      · rw [same]
        exact .inr ⟨better, [], items, rfl, by simp, worse⟩
      · refine .inr ⟨better.trans best, item :: before, after,
          congrArg (item :: ·) split, ?_, later⟩
        exact List.forall_mem_cons.mpr ⟨best, earlier⟩
    · rename_i worse
      rcases ih start with ⟨same, worst⟩ | ⟨best, before, after, split, earlier, later⟩
      · exact .inl ⟨same, List.forall_mem_cons.mpr ⟨not_lt.mp worse, worst⟩⟩
      · refine .inr ⟨best, item :: before, after, congrArg (item :: ·) split, ?_, later⟩
        exact List.forall_mem_cons.mpr ⟨(not_lt.mp worse).trans_lt best, earlier⟩

end FirstMaximum

section Maximum

variable {Value : Type*} [LinearOrder Value]

variable {values : List Value} (start : Value)

theorem foldl_max_le_iff {start bound : Value} :
    values.foldl max start ≤ bound ↔ start ≤ bound ∧ ∀ value ∈ values, value ≤ bound := by
  induction values generalizing start with
  | nil => simp
  | cons value values ih => simp [ih, and_assoc]

theorem le_foldl_max (values : List Value) (start : Value) : start ≤ values.foldl max start :=
  (foldl_max_le_iff.mp le_rfl).1

theorem le_foldl_max_of_mem {value : Value} (member : value ∈ values) :
    value ≤ values.foldl max start :=
  (foldl_max_le_iff.mp le_rfl).2 value member

theorem foldl_max_mem (values : List Value) (start : Value) :
    values.foldl max start = start ∨ values.foldl max start ∈ values := by
  induction values generalizing start with
  | nil => exact .inl rfl
  | cons value values ih =>
    rw [List.foldl_cons]
    rcases ih (max start value) with same | member
    · rcases le_total value start with low | high
      · exact .inl (same.trans (max_eq_left low))
      · rw [same, max_eq_right high]
        exact .inr (.head values)
    · exact .inr (.tail value member)

/-- The maximum is a bound that is reached. -/
theorem foldl_max_eq_iff {start bound : Value} :
    values.foldl max start = bound ↔
      start ≤ bound ∧ (∀ value ∈ values, value ≤ bound) ∧ (bound = start ∨ bound ∈ values) := by
  constructor
  · rintro rfl
    exact ⟨le_foldl_max values start, fun value => le_foldl_max_of_mem start,
      foldl_max_mem values start⟩
  · rintro ⟨low, bounded, reached⟩
    refine le_antisymm (foldl_max_le_iff.mpr ⟨low, bounded⟩) ?_
    rcases reached with rfl | member
    · exact le_foldl_max values bound
    · exact le_foldl_max_of_mem start member

end Maximum

end Uos
