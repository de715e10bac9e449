import Mathlib.Data.Finset.Basic
import Mathlib.Data.Finset.Erase

/-!
# Arenas of memory

An arena answers requests for memory by a pattern of successes and failures, and knows what was
allocated and not freed.
-/

namespace Uos

open List

/-- An arena of memory.  The address of what it allocates is the number of the request. -/
structure Arena where
  meets : Nat → Bool
  asked : Nat
  live : Finset Nat
  fresh : ∀ a ∈ live, a < asked

namespace Arena

/-- Ask for memory. -/
def alloc (arena : Arena) : Option Nat × Arena :=
  if arena.meets arena.asked then
    (some arena.asked,
      { arena with
        asked := arena.asked + 1
        live := insert arena.asked arena.live
        fresh := fun a member => by
          rcases Finset.mem_insert.mp member with rfl | old
          · exact Nat.lt_succ_self _
          · exact Nat.lt_succ_of_lt (arena.fresh a old) })
  else
    (none,
      { arena with
        asked := arena.asked + 1
        fresh := fun a member => Nat.lt_succ_of_lt (arena.fresh a member) })

/-- Give memory back. -/
def free (arena : Arena) (a : Nat) : Arena :=
  { arena with
    live := arena.live.erase a
    fresh := fun b member => arena.fresh b (Finset.mem_of_mem_erase member) }

/-- Give back a list of addresses. -/
def freeAll (arena : Arena) (addresses : List Nat) : Arena :=
  addresses.foldl free arena

/-- What was allocated since an earlier state of an arena. -/
structure Holds (base arena : Arena) (addresses : List Nat) : Prop where
  asked : base.asked ≤ arena.asked
  live : arena.live = base.live ∪ addresses.toFinset
  recent : ∀ a ∈ addresses, base.asked ≤ a

/-- The answers of an arena to the requests between two of its states. -/
structure Answers (arena : Arena) (answers : List Bool) (arena' : Arena) : Prop where
  meets : arena'.meets = arena.meets
  asked : arena'.asked = arena.asked + answers.length
  each : ∀ i b, answers[i]? = some b → arena.meets (arena.asked + i) = b

variable {base arena arena' arena'' : Arena} {addresses : List Nat} {answers : List Bool} {a : Nat}

theorem alloc_some (allocates : arena.alloc = (some a, arena')) :
    a = arena.asked ∧ arena.meets arena.asked = true ∧ arena'.meets = arena.meets ∧
      arena'.asked = arena.asked + 1 ∧ arena'.live = insert a arena.live := by
  rw [alloc] at allocates
  split at allocates
  · rename_i meets
    obtain ⟨same, rfl⟩ := Prod.mk.inj allocates
    cases same
    exact ⟨rfl, meets, rfl, rfl, rfl⟩
  · cases (Prod.mk.inj allocates).1

theorem alloc_none (refuses : arena.alloc = (none, arena')) :
    arena.meets arena.asked = false ∧ arena'.meets = arena.meets ∧ arena'.asked = arena.asked + 1 ∧
      arena'.live = arena.live := by
  rw [alloc] at refuses
  split at refuses
  · cases (Prod.mk.inj refuses).1
  · rename_i fails
    obtain ⟨-, rfl⟩ := Prod.mk.inj refuses
    exact ⟨by simpa using fails, rfl, rfl, rfl⟩

theorem freeAll_live (arena : Arena) (addresses : List Nat) :
    (arena.freeAll addresses).live = arena.live \ addresses.toFinset := by
  induction addresses generalizing arena with
  | nil => exact (Finset.sdiff_empty (s := arena.live)).symm
  | cons a rest ih =>
    have first := ih (arena.free a)
    ext b
    change b ∈ ((arena.free a).freeAll rest).live ↔ _
    rw [first]
    simp only [free, Finset.mem_sdiff, Finset.mem_erase, mem_toFinset, mem_cons, not_or]
    tauto

theorem Holds.refl (arena : Arena) : Holds arena arena [] :=
  ⟨le_rfl, by simp, by simp⟩

theorem Holds.alloc (holds : Holds base arena addresses)
    (allocates : arena.alloc = (some a, arena')) : Holds base arena' (addresses ++ [a]) := by
  obtain ⟨rfl, -, -, asked, live⟩ := alloc_some allocates
  obtain ⟨later, same, recent⟩ := holds
  refine ⟨by omega, ?_, fun b member => ?_⟩
  · ext b
    simp only [live, same, Finset.mem_insert, Finset.mem_union, mem_toFinset,
      mem_append, mem_singleton]
    tauto
  · rcases mem_append.mp member with old | new
    · exact recent b old
    · obtain rfl := mem_singleton.mp new
      exact later

theorem Holds.refuse (holds : Holds base arena addresses)
    (refuses : arena.alloc = (none, arena')) : Holds base arena' addresses := by
  obtain ⟨-, -, asked, live⟩ := alloc_none refuses
  exact ⟨by have := holds.asked; omega, live.trans holds.live, holds.recent⟩

theorem Holds.of_mem {others : List Nat} (holds : Holds base arena addresses)
    (same : ∀ a, a ∈ others ↔ a ∈ addresses) : Holds base arena others := by
  refine ⟨holds.asked, ?_, fun a member => holds.recent a ((same a).mp member)⟩
  rw [holds.live]
  ext a
  simp only [Finset.mem_union, mem_toFinset, same]

/-- Giving everything back restores what was there before. -/
theorem Holds.freeAll (holds : Holds base arena addresses) :
    (arena.freeAll addresses).live = base.live := by
  ext a
  rw [freeAll_live, holds.live]
  simp only [Finset.mem_sdiff, Finset.mem_union, mem_toFinset]
  constructor
  · rintro ⟨old | new, kept⟩
    · exact old
    · exact absurd new kept
  · intro old
    exact ⟨.inl old, fun new => Nat.not_lt.mpr (holds.recent a new) (base.fresh a old)⟩

theorem Answers.refl (arena : Arena) : Answers arena [] arena :=
  ⟨rfl, rfl, by simp⟩

/-- Giving back is not asking. -/
theorem Answers.freeAll (arena : Arena) (addresses : List Nat) :
    Answers arena [] (arena.freeAll addresses) := by
  induction addresses generalizing arena with
  | nil => exact .refl arena
  | cons a rest ih =>
    obtain ⟨meets, asked, -⟩ := ih (arena.free a)
    exact ⟨meets, asked, by simp⟩

theorem Answers.freed (given : Answers arena answers arena') (addresses : List Nat) :
    Answers arena answers (arena'.freeAll addresses) := by
  obtain ⟨meets, asked, -⟩ := Answers.freeAll arena' addresses
  exact ⟨meets.trans given.meets, asked.trans given.asked, given.each⟩

/-- The next answer comes before the later ones. -/
theorem Answers.cons {next : Arena} {b : Bool} (first : arena.meets arena.asked = b)
    (meets : next.meets = arena.meets) (asked : next.asked = arena.asked + 1)
    (rest : Answers next answers arena') : Answers arena (b :: answers) arena' := by
  refine ⟨rest.meets.trans meets, ?_, fun i other member => ?_⟩
  · rw [rest.asked, asked, length_cons]
    omega
  · cases i with
    | zero => exact first.trans (Option.some.inj member)
    | succ i =>
      have later := rest.each i other member
      rwa [meets, asked, show arena.asked + 1 + i = arena.asked + (i + 1) by omega] at later

end Arena
end Uos
