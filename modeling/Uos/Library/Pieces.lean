import Mathlib.Algebra.Order.BigOperators.Group.List
import Mathlib.Algebra.Ring.Nat
import Mathlib.Data.List.Perm.Basic
import Mathlib.Tactic.SplitIfs

/-!
# Pieces of memory

Lists of intervals of addresses.  How often an address is covered by them does not change when a
piece is cut in two, or when two adjacent pieces are joined.
-/

namespace Uos

open List

/-- The addresses from `start` on, `size` of them. -/
structure Piece where
  start : Nat
  size : Nat
  deriving DecidableEq

namespace Piece

/-- The address behind a piece. -/
def stop (piece : Piece) : Nat :=
  piece.start + piece.size

/-- How often an address lies in a piece. -/
def share (piece : Piece) (address : Nat) : Nat :=
  if piece.start ≤ address ∧ address < piece.stop then 1 else 0

/-- How often an address is covered. -/
def cover (pieces : List Piece) (address : Nat) : Nat :=
  (pieces.map (·.share address)).sum

/-- The second piece lies behind the first one, at least `gap` addresses after its end. -/
def Gap (gap : Nat) (first second : Piece) : Prop :=
  first.stop + gap ≤ second.start

/-- Two pieces have no address in common. -/
def Apart (first second : Piece) : Prop :=
  first.stop ≤ second.start ∨ second.stop ≤ first.start

variable {piece other : Piece} {pieces others : List Piece} {address : Nat}

@[simp] theorem cover_nil (address : Nat) : cover [] address = 0 :=
  rfl

@[simp] theorem cover_cons (piece : Piece) (pieces : List Piece) (address : Nat) :
    cover (piece :: pieces) address = piece.share address + cover pieces address :=
  rfl

@[simp] theorem cover_append (pieces others : List Piece) (address : Nat) :
    cover (pieces ++ others) address = cover pieces address + cover others address := by
  rw [cover, map_append, sum_append, cover, cover]

theorem cover_perm (same : pieces.Perm others) (address : Nat) :
    cover pieces address = cover others address :=
  (same.map _).sum_eq

theorem share_pos_iff :
    0 < piece.share address ↔ piece.start ≤ address ∧ address < piece.stop := by
  rw [share]
  split_ifs with inside
  · simp [inside]
  · simp [inside]

/-- A piece is cut in two. -/
theorem share_split (start first second address : Nat) :
    share ⟨start, first + second⟩ address =
      share ⟨start, first⟩ address + share ⟨start + first, second⟩ address := by
  simp only [share, stop]
  grind

theorem cover_pos_iff :
    0 < cover pieces address ↔ ∃ piece ∈ pieces, piece.start ≤ address ∧ address < piece.stop := by
  induction pieces with
  | nil => simp
  | cons piece pieces ih =>
    rw [cover_cons, Nat.add_pos_iff_pos_or_pos, share_pos_iff, ih]
    simp

/-- Where nothing is covered twice, no pieces overlap. -/
theorem pairwise_of_cover (positive : ∀ piece ∈ pieces, 0 < piece.size)
    (once : ∀ address, cover pieces address ≤ 1) :
    pieces.Pairwise Apart := by
  induction pieces with
  | nil => exact .nil
  | cons piece pieces ih =>
    refine .cons (fun other member => ?_) (ih (fun other member => ?_) fun address => ?_)
    · have piece_pos := positive piece mem_cons_self
      have other_pos := positive other (mem_cons_of_mem _ member)
      have apart (address : Nat) (inside : piece.start ≤ address ∧ address < piece.stop) :
          ¬ (other.start ≤ address ∧ address < other.stop) := by
        intro both
        have first := share_pos_iff.mpr inside
        have second := cover_pos_iff.mpr ⟨other, member, both⟩
        have := once address
        rw [cover_cons] at this
        omega
      have at_piece := apart piece.start
      have at_other := apart other.start
      simp only [stop] at at_piece at_other
      simp only [Apart, stop]
      omega
    · exact positive other (mem_cons_of_mem _ member)
    · exact le_trans (Nat.le_add_left _ _) (once address)

/-- Pieces that do not overlap cover nothing twice. -/
theorem cover_le_one (apart : pieces.Pairwise Apart) (address : Nat) :
    cover pieces address ≤ 1 := by
  induction pieces with
  | nil => exact Nat.zero_le 1
  | cons piece pieces ih =>
    obtain ⟨first, rest⟩ := pairwise_cons.mp apart
    have others := ih rest
    rw [cover_cons, share]
    split_ifs with inside
    · have none_covers : cover pieces address = 0 := by
        apply Nat.eq_zero_of_not_pos
        intro covered
        obtain ⟨other, member, both⟩ := cover_pos_iff.mp covered
        have := first other member
        simp only [Apart] at this
        omega
      omega
    · omega

/-- Pieces that lie one behind the other are not longer than the memory they lie in. -/
theorem sum_size_le {low high : Nat} (sorted : pieces.Pairwise (Gap 0))
    (within : ∀ piece ∈ pieces, low ≤ piece.start ∧ piece.stop ≤ high) (room : low ≤ high) :
    low + (pieces.map size).sum ≤ high := by
  induction pieces generalizing low with
  | nil => simpa using room
  | cons piece pieces ih =>
    obtain ⟨before, sorted⟩ := pairwise_cons.mp sorted
    obtain ⟨above, below⟩ := within piece mem_cons_self
    have rest := @ih piece.stop sorted
      (fun other member => ⟨before other member, (within other (by simp [member])).right⟩) below
    rw [map_cons, sum_cons]
    simp only [stop] at rest
    omega

/-- The first of some pieces begins at the first address that is covered. -/
theorem start_le_of_cover (sorted : (piece :: pieces).Pairwise (Gap 1))
    (covered : 0 < cover (piece :: pieces) address) : piece.start ≤ address := by
  obtain ⟨other, member, inside⟩ := cover_pos_iff.mp covered
  rcases mem_cons.mp member with rfl | member
  · exact inside.left
  · have before := (pairwise_cons.mp sorted).left other member
    simp only [Gap, stop] at before
    omega

/-- The address behind the first of some pieces is not covered. -/
theorem cover_stop (sorted : (piece :: pieces).Pairwise (Gap 1)) :
    cover (piece :: pieces) piece.stop = 0 := by
  apply Nat.eq_zero_of_not_pos
  intro covered
  obtain ⟨other, member, inside⟩ := cover_pos_iff.mp covered
  rcases mem_cons.mp member with rfl | member
  · omega
  · have before := (pairwise_cons.mp sorted).left other member
    simp only [Gap] at before
    omega

theorem cover_start (positive : 0 < piece.size) :
    0 < cover (piece :: pieces) piece.start :=
  cover_pos_iff.mpr ⟨piece, mem_cons_self, le_rfl, by simp only [stop]; omega⟩

theorem stop_le_of_cover (sorted : (piece :: pieces).Pairwise (Gap 1))
    (begins : piece.start = other.start)
    (same : ∀ address, cover (piece :: pieces) address = cover (other :: others) address) :
    other.stop ≤ piece.stop := by
  have free := cover_stop sorted
  rw [same] at free
  by_contra! longer
  have covered : 0 < cover (other :: others) piece.stop :=
    cover_pos_iff.mpr ⟨other, mem_cons_self, by simp only [stop]; omega, longer⟩
  omega

/-- Pieces with gaps between them are determined by what they cover. -/
theorem eq_of_cover (sorted : pieces.Pairwise (Gap 1)) (others_sorted : others.Pairwise (Gap 1))
    (positive : ∀ piece ∈ pieces, 0 < piece.size)
    (others_positive : ∀ other ∈ others, 0 < other.size)
    (same : ∀ address, cover pieces address = cover others address) : pieces = others := by
  induction pieces generalizing others with
  | nil =>
    cases others with
    | nil => rfl
    | cons other others =>
      have covered := @cover_start other others (others_positive other mem_cons_self)
      rw [← same, cover_nil] at covered
      omega
  | cons piece pieces ih =>
    have covered := @cover_start piece pieces (positive piece mem_cons_self)
    cases others with
    | nil =>
      rw [same, cover_nil] at covered
      omega
    | cons other others =>
      have others_covered := @cover_start other others
        (others_positive other mem_cons_self)
      have begins : piece.start = other.start := by
        apply le_antisymm
        · exact start_le_of_cover sorted (by rwa [same])
        · exact start_le_of_cover others_sorted (by rwa [← same])
      have ends : piece.stop = other.stop := by
        apply le_antisymm
        · exact stop_le_of_cover others_sorted begins.symm fun address => (same address).symm
        · exact stop_le_of_cover sorted begins same
      obtain rfl : piece = other := by
        cases piece
        cases other
        simp only [stop] at begins ends
        rw [begins] at ends ⊢
        rw [Nat.add_left_cancel ends]
      congr 1
      refine ih (pairwise_cons.mp sorted).right (pairwise_cons.mp others_sorted).right
        (fun _ member => positive _ (mem_cons_of_mem _ member))
        (fun _ member => others_positive _ (mem_cons_of_mem _ member)) fun address => ?_
      exact Nat.add_left_cancel (same address)

end Piece
end Uos
