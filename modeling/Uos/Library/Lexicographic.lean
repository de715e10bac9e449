import Mathlib.Data.List.Infix
import Mathlib.Data.List.Lex
import Mathlib.Order.Lattice

/-!
# The order of a dictionary

Lists are compared by their first difference, and a list comes before those that go on behind it.
-/

namespace Uos

open List

namespace Lexicographic

variable {Symbol : Type*} [LinearOrder Symbol] {first second rest rest' : List Symbol}

/-- What comes behind a difference does not matter. -/
theorem append_lt_append_of_apart (less : first < second) (apart : ¬first <+: second)
    (rest rest' : List Symbol) : first ++ rest < second ++ rest' := by
  induction first generalizing second with
  | nil => exact absurd (List.nil_prefix ..) apart
  | cons x first ih =>
    cases second with
    | nil => exact absurd less (not_lt_nil _)
    | cons y second =>
      rcases cons_lt_cons_iff.mp less with smaller | ⟨rfl, later⟩
      · exact cons_lt_cons_iff.mpr (.inl smaller)
      · have apart' : ¬first <+: second := fun front =>
          apart ((prefix_cons_inj x).mpr front)
        exact cons_lt_cons_iff.mpr (.inr ⟨rfl, ih later apart'⟩)

theorem append_lt_append_left_iff : first ++ rest < first ++ rest' ↔ rest < rest' := by
  induction first with
  | nil => rfl
  | cons x first ih =>
    rw [cons_append, cons_append, cons_lt_cons_iff]
    simp only [lt_self_iff_false, false_or, true_and, ih]

/-- Lists with beginnings of one length. -/
theorem append_lt_append_iff (length : first.length = second.length) :
    first ++ rest < second ++ rest' ↔ first < second ∨ first = second ∧ rest < rest' := by
  rcases lt_trichotomy first second with less | rfl | greater
  · have apart : ¬first <+: second := fun front => less.ne (front.eq_of_length length)
    exact iff_of_true (append_lt_append_of_apart less apart rest rest') (.inl less)
  · simp only [append_lt_append_left_iff, lt_self_iff_false, true_and, false_or]
  · have apart : ¬second <+: first := fun front => greater.ne (front.eq_of_length length.symm)
    apply iff_of_false (append_lt_append_of_apart greater apart rest' rest).not_gt
    rintro (less | ⟨rfl, -⟩)
    · exact less.not_gt greater
    · exact lt_irrefl _ greater

theorem le_append (first rest : List Symbol) : first ≤ first ++ rest :=
  le_of_not_gt le_append_left

theorem le_of_front (front : first <+: second) : first ≤ second := by
  obtain ⟨rest, rfl⟩ := front
  exact le_append first rest

/-- What lies between a list and one that goes on behind it goes on behind it as well. -/
theorem prefix_of_le_of_le {middle : List Symbol} (front : first <+: second) (low : first ≤ middle)
    (high : middle ≤ second) : first <+: middle := by
  by_contra apart
  obtain ⟨rest, rfl⟩ := front
  have ne : first ≠ middle := fun same => apart (same ▸ prefix_rfl)
  have beyond := append_lt_append_of_apart (low.lt_of_ne ne) apart rest []
  rw [append_nil] at beyond
  exact beyond.not_ge high

end Lexicographic
end Uos
