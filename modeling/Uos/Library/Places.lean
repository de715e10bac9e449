import Mathlib.Data.List.Range
import Mathlib.Logic.Function.Basic

/-!
# Queues in memory

A queue is a sequence of places in a memory, the first `count` of which are taken.  What is put
goes to the next place, and taking moves the sequence on by one.
-/

namespace Uos

open List

namespace Places

variable {Place Cell : Type*} {cells : Place → Cell} {place place' : Nat → Place} {count : Nat}

/-- What is stored at the first places of a sequence. -/
def contents (cells : Place → Cell) (place : Nat → Place) (count : Nat) : List Cell :=
  (List.range count).map fun i => cells (place i)

@[simp] theorem length_contents : (contents cells place count).length = count := by
  simp [contents]

theorem contents_congr (same : ∀ i < count, place i = place' i) :
    contents cells place count = contents cells place' count := by
  apply map_congr_left
  intro i member
  rw [same i (mem_range.mp member)]

/-- The first one is taken. -/
theorem contents_succ : contents cells place (count + 1) =
    cells (place 0) :: contents cells (fun i => place (i + 1)) count := by
  simp only [contents, range_succ_eq_map, map_cons, map_map]
  rfl

section Update

variable [DecidableEq Place]

/-- Storing elsewhere changes nothing. -/
theorem contents_update {p : Place} (apart : ∀ i < count, place i ≠ p) (value : Cell) :
    contents (Function.update cells p value) place count = contents cells place count := by
  apply map_congr_left
  intro i member
  exact Function.update_of_ne (apart i (mem_range.mp member)) ..

/-- A value put at the next place is the last one. -/
theorem contents_put (apart : ∀ i < count, place i ≠ place count) (value : Cell) :
    contents (Function.update cells (place count) value) place (count + 1) =
      contents cells place count ++ [value] := by
  have stored : Function.update cells (place count) value (place count) = value :=
    Function.update_self ..
  have before : contents (Function.update cells (place count) value) place count =
      contents cells place count := contents_update apart value
  rw [← before, contents, range_succ, map_append, map_singleton, stored]
  rfl

end Update

end Places
end Uos
