import Mathlib.Logic.Relation
import Mathlib.Data.List.Basic

/-!
# Rules for executions that may fail

A partial function that returns `none` on failure preserves a property when every successful call
does.  The rules below carry such a property through a loop over a list and through a run.
-/

namespace Uos

variable {State Item : Type*} {turn : State → Item → Option State} {before after : State}

/-- A property that every turn of a loop preserves holds after the loop. -/
theorem foldlM_invariant (property : State → Prop) {items : List Item}
    (preserved : ∀ item ∈ items, ∀ {s s'}, property s → turn s item = some s' → property s')
    (start : property before) (result : items.foldlM turn before = some after) :
    property after := by
  induction items generalizing before with
  | nil =>
    obtain rfl : before = after := by simpa using result
    exact start
  | cons item items ih =>
    rw [List.foldlM_cons] at result
    obtain ⟨middle, first, rest⟩ := Option.bind_eq_some_iff.mp result
    exact ih (fun other member => preserved other (List.mem_cons_of_mem item member))
      (preserved item List.mem_cons_self start first) rest

/-- A loop succeeds when every turn does and leaves the remaining turns able to. -/
theorem foldlM_succeeds (property : State → List Item → Prop)
    (each : ∀ s item items, property s (item :: items) →
      ∃ s', turn s item = some s' ∧ property s' items) (items : List Item)
    (start : property before items) :
    ∃ after, items.foldlM turn before = some after ∧ property after [] := by
  induction items generalizing before with
  | nil => exact ⟨before, rfl, start⟩
  | cons item items ih =>
    obtain ⟨middle, first, rest⟩ := each before item items start
    obtain ⟨after, result, last⟩ := ih rest
    exact ⟨after, by simp [List.foldlM_cons, first, result], last⟩

/-- A property that every transition of a run preserves holds at its end. -/
theorem run_invariant (property : State → Prop) {transition : State → State → Prop}
    (preserved : ∀ {s s'}, property s → transition s s' → property s') (start : property before)
    (run : Relation.ReflTransGen transition before after) :
    property after := by
  induction run with
  | refl => exact start
  | tail _ last ih => exact preserved ih last

/-- A loop over a list is a run, if every turn is a transition. -/
theorem foldlM_run {transition : State → State → Prop} {items : List Item}
    (each : ∀ s, ∀ item ∈ items, ∀ s', turn s item = some s' → transition s s')
    (result : items.foldlM turn before = some after) :
    Relation.ReflTransGen transition before after := by
  induction items generalizing before with
  | nil =>
    obtain rfl : before = after := by simpa using result
    exact .refl
  | cons item items ih =>
    rw [List.foldlM_cons] at result
    obtain ⟨middle, first, rest⟩ := Option.bind_eq_some_iff.mp result
    apply Relation.ReflTransGen.head (each before item List.mem_cons_self middle first)
    exact ih (fun s other member => each s other (List.mem_cons_of_mem item member)) rest

end Uos
