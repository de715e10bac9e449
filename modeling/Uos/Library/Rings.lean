import Mathlib.Data.List.Range
import Mathlib.Logic.Function.Basic
import Mathlib.Tactic.SplitIfs

/-!
# Ring buffers

An array of cells with the place of the first symbol and the place behind the last one.  One cell
always stays free.
-/

namespace Uos

open Function List

/-- A ring of cells: the symbols lie in front of the cell `last`. -/
structure Ring (Symbol : Type*) where
  size : Nat
  cells : Nat → Symbol
  first : Nat := 0
  last : Nat := 0

namespace Ring

variable {Symbol : Type*} {ring : Ring Symbol}

/-- The cell behind a cell. -/
def next (ring : Ring Symbol) (cell : Nat) : Nat :=
  if ring.size ≤ cell + 1 then 0 else cell + 1

/-- A symbol is stored, and the cell `last` moves to a new place. -/
def put (ring : Ring Symbol) (symbol : Symbol) (last : Nat) : Ring Symbol :=
  { ring with cells := Function.update ring.cells ring.last symbol, last }

/-- The first symbol is taken away. -/
def take (ring : Ring Symbol) : Ring Symbol :=
  { ring with first := ring.next ring.first }

/-- The cell in front of a cell. -/
def prev (ring : Ring Symbol) (cell : Nat) : Nat :=
  if cell = 0 then ring.size - 1 else cell - 1

/-- A symbol is replaced. -/
def set (ring : Ring Symbol) (cell : Nat) (symbol : Symbol) : Ring Symbol :=
  { ring with cells := Function.update ring.cells cell symbol }

/-- The cell of the last symbol in front of a cell that has a property. -/
def lookup (ring : Ring Symbol) (property : Symbol → Bool) : Nat → Nat → Option Nat
  | 0, _ => none
  | n + 1, cell =>
    if cell = ring.first then none
    else if property (ring.cells (ring.prev cell)) then some (ring.prev cell)
    else ring.lookup property n (ring.prev cell)

/-- A symbol is removed: those behind it move up. -/
def remove : Nat → Nat → Ring Symbol → Ring Symbol
  | 0, _, ring => ring
  | n + 1, cell, ring =>
    if ring.next cell = ring.last then { ring with last := cell }
    else (ring.set cell (ring.cells (ring.next cell))).remove n (ring.next cell)

/-- The number of symbols. -/
def used (ring : Ring Symbol) : Nat :=
  if ring.first ≤ ring.last then ring.last - ring.first
  else ring.last + ring.size - ring.first

/-- The cell of a symbol. -/
def index (ring : Ring Symbol) (i : Nat) : Nat :=
  if ring.first + i < ring.size then ring.first + i else ring.first + i - ring.size

/-- The symbols, in order. -/
def contents (ring : Ring Symbol) : List Symbol :=
  (List.range ring.used).map fun i => ring.cells (ring.index i)

/-- Both places are cells of the ring. -/
structure Valid (ring : Ring Symbol) : Prop where
  first_lt : ring.first < ring.size
  last_lt : ring.last < ring.size

theorem next_lt (positive : 0 < ring.size) (cell : Nat) : ring.next cell < ring.size := by
  rw [next]
  split_ifs <;> omega

theorem Valid.put (valid : ring.Valid) (symbol : Symbol) {last : Nat} (bound : last < ring.size) :
    (ring.put symbol last).Valid :=
  ⟨valid.first_lt, bound⟩

theorem Valid.take (valid : ring.Valid) : ring.take.Valid :=
  ⟨next_lt (Nat.zero_lt_of_lt valid.first_lt) _, valid.last_lt⟩

theorem contents_eq_nil_iff (valid : ring.Valid) : ring.contents = [] ↔ ring.first = ring.last := by
  have first := valid.first_lt
  rw [contents, map_eq_nil_iff, range_eq_nil, used]
  split_ifs <;> omega

/-- A symbol that is stored goes behind the others, if the ring is not full. -/
theorem contents_put (valid : ring.Valid) (room : ring.first ≠ ring.next ring.last)
    (symbol : Symbol) :
    (ring.put symbol (ring.next ring.last)).contents = ring.contents ++ [symbol] := by
  obtain ⟨first, last⟩ := valid
  have more : (ring.put symbol (ring.next ring.last)).used = ring.used + 1 := by
    rw [next] at room
    rw [used, used, put, next]
    dsimp only
    split_ifs at room ⊢ <;> omega
  have behind : ring.index ring.used = ring.last := by
    rw [index, used]
    split_ifs <;> omega
  have apart : ∀ i < ring.used, ring.index i ≠ ring.last := by
    intro i less
    rw [used] at less
    rw [index]
    split_ifs at less ⊢ <;> omega
  rw [contents, more, range_succ, map_append, contents]
  congr 1
  · apply map_congr_left
    intro i member
    exact update_of_ne (apart i (mem_range.mp member)) ..
  · rw [map_singleton]
    have stored : (ring.put symbol (ring.next ring.last)).cells ring.last = symbol :=
      update_self ..
    exact congrArg (fun symbol => [symbol]) ((congrArg _ behind).trans stored)

/-- The symbol that is taken away is the first one. -/
theorem contents_take (valid : ring.Valid) (filled : ring.first ≠ ring.last) :
    ring.contents = ring.cells ring.first :: ring.take.contents := by
  obtain ⟨first, last⟩ := valid
  have less : ring.used = ring.take.used + 1 := by
    rw [used, used, take, next]
    dsimp only
    split_ifs <;> omega
  have start : ring.index 0 = ring.first := by
    rw [index]
    split_ifs <;> omega
  rw [contents, less, range_succ_eq_map, map_cons, start, map_map, contents]
  congr 1
  apply map_congr_left
  intro i member
  have bound := mem_range.mp member
  have same : ring.index (i + 1) = ring.take.index i := by
    rw [used, take, next] at bound
    rw [index, index, take, next]
    dsimp only at bound ⊢
    split_ifs at bound ⊢ <;> omega
  exact congrArg ring.cells same

theorem next_ne_next (valid : ring.Valid) (filled : ring.first ≠ ring.last) :
    ring.next ring.first ≠ ring.next ring.last := by
  obtain ⟨first, last⟩ := valid
  rw [next, next]
  split_ifs <;> omega

/-- A symbol that is taken away may be stored again, even in a ring that is full. -/
theorem contents_rotate (valid : ring.Valid) {symbol : Symbol} {rest : List Symbol}
    (contents : ring.contents = symbol :: rest) (again : Symbol) :
    (ring.put again (ring.next ring.last)).take.contents = rest ++ [again] := by
  have filled : ring.first ≠ ring.last := by
    rw [Ne, ← contents_eq_nil_iff valid, contents]
    exact cons_ne_nil _ _
  have taken := contents_take valid filled
  rw [contents] at taken
  have room : ring.take.first ≠ ring.take.next ring.take.last := next_ne_next valid filled
  rw [List.cons.inj taken |>.2, ← contents_put valid.take room again]
  rfl

theorem length_contents : ring.contents.length = ring.used := by
  rw [contents, length_map, length_range]

theorem used_lt (valid : ring.Valid) : ring.used < ring.size := by
  obtain ⟨first, last⟩ := valid
  rw [used]
  split_ifs <;> omega

theorem getElem_contents {i : Nat} (bound : i < ring.contents.length) :
    ring.contents[i] = ring.cells (ring.index i) := by
  simp [contents]

theorem index_lt (valid : ring.Valid) {i : Nat} (bound : i < ring.size) :
    ring.index i < ring.size := by
  have first := valid.first_lt
  rw [index]
  split_ifs <;> omega

theorem index_injective (valid : ring.Valid) {i j : Nat} (i_lt : i < ring.size)
    (j_lt : j < ring.size) (same : ring.index i = ring.index j) : i = j := by
  have first := valid.first_lt
  rw [index, index] at same
  split_ifs at same <;> omega

theorem index_zero (valid : ring.Valid) : ring.index 0 = ring.first := by
  have first := valid.first_lt
  rw [index]
  split_ifs <;> omega

theorem index_used (valid : ring.Valid) : ring.index ring.used = ring.last := by
  obtain ⟨first, last⟩ := valid
  rw [index, used]
  split_ifs <;> omega

theorem index_take (valid : ring.Valid) {i : Nat} (bound : i + 1 < ring.size) :
    ring.take.index i = ring.index (i + 1) := by
  have first := valid.first_lt
  rw [index, index, take, next]
  dsimp only
  split_ifs <;> omega

theorem next_index (valid : ring.Valid) {i : Nat} (bound : i + 1 < ring.size) :
    ring.next (ring.index i) = ring.index (i + 1) := by
  have first := valid.first_lt
  rw [next, index, index]
  split_ifs <;> omega

theorem prev_index (valid : ring.Valid) {i : Nat} (bound : i + 1 < ring.size) :
    ring.prev (ring.index (i + 1)) = ring.index i := by
  have first := valid.first_lt
  rw [prev, index, index]
  rcases Nat.lt_or_ge (ring.first + (i + 1)) ring.size with inner | wrapped
  · have earlier : ring.first + i < ring.size := Nat.lt_of_succ_lt inner
    have behind : ring.first + (i + 1) ≠ 0 := Nat.succ_ne_zero (ring.first + i)
    rw [if_pos inner, if_pos earlier, if_neg behind]
    rfl
  · rw [if_neg (Nat.not_lt_of_ge wrapped)]
    split_ifs <;> omega

/-- A ring is not full if it has two free cells. -/
theorem first_ne_next_iff (valid : ring.Valid) :
    ring.first ≠ ring.next ring.last ↔ ring.used + 1 < ring.size := by
  obtain ⟨first, last⟩ := valid
  rw [used, next]
  split_ifs <;> omega

/-- Only the cells of a ring matter. -/
theorem contents_congr (valid : ring.Valid) {cells : Nat → Symbol}
    (same : ∀ cell < ring.size, cells cell = ring.cells cell) :
    ({ ring with cells } : Ring Symbol).contents = ring.contents := by
  rw [contents, contents]
  apply map_congr_left
  intro i member
  have bound : i < ring.used := mem_range.mp member
  exact same _ (index_lt valid (Nat.lt_trans bound (used_lt valid)))

theorem contents_set (valid : ring.Valid) {i : Nat} (bound : i < ring.used) (symbol : Symbol) :
    (ring.set (ring.index i) symbol).contents = ring.contents.set i symbol := by
  have less := used_lt valid
  apply ext_getElem
  · rw [length_contents, length_set, length_contents]
    rfl
  · intro j first second
    rw [getElem_contents, getElem_set, getElem_contents]
    rw [length_contents] at first
    have j_lt : j < ring.size := Nat.lt_trans first less
    rcases eq_or_ne i j with rfl | ne
    · rw [if_pos rfl]
      exact update_self ..
    · rw [if_neg ne]
      exact update_of_ne
        (fun same => ne (index_injective valid (Nat.lt_trans bound less) j_lt same.symm)) ..

/-- The cell behind the last symbol is free. -/
theorem contents_set_last (valid : ring.Valid) (symbol : Symbol) :
    (ring.set ring.last symbol).contents = ring.contents := by
  have less := used_lt valid
  apply map_congr_left
  intro i member
  have bound : i < ring.used := mem_range.mp member
  refine update_of_ne (fun same => ?_) ..
  exact Nat.ne_of_lt bound (index_injective valid (Nat.lt_trans bound less) less
    (same.trans (index_used valid).symm))

/-- What a search backwards from a symbol finds. -/
theorem lookup_cases (valid : ring.Valid) (property : Symbol → Bool) {n i : Nat} (enough : i < n)
    (bound : i ≤ ring.used) :
    (ring.lookup property n (ring.index i) = none ∧
      ∀ j < i, property (ring.cells (ring.index j)) = false) ∨
    ∃ j < i, ring.lookup property n (ring.index i) = some (ring.index j) ∧
      property (ring.cells (ring.index j)) = true := by
  have less := used_lt valid
  induction n generalizing i with
  | zero => exact absurd enough (Nat.not_lt_zero i)
  | succ n ih =>
    rw [lookup]
    cases i with
    | zero =>
      rw [if_pos (index_zero valid)]
      exact .inl ⟨rfl, fun j impossible => absurd impossible (Nat.not_lt_zero j)⟩
    | succ i =>
      have inside : i + 1 < ring.size := Nat.lt_of_le_of_lt bound less
      have apart : ring.index (i + 1) ≠ ring.first := fun same =>
        Nat.succ_ne_zero i (index_injective valid inside (Nat.zero_lt_of_lt inside)
          (same.trans (index_zero valid).symm))
      rw [if_neg apart, prev_index valid inside]
      cases found : property (ring.cells (ring.index i)) with
      | true => exact .inr ⟨i, Nat.lt_succ_self i, if_pos rfl, found⟩
      | false =>
        rw [if_neg Bool.false_ne_true]
        rcases ih (Nat.lt_of_succ_lt_succ enough) (Nat.le_of_succ_le bound) with
          ⟨nowhere, others⟩ | ⟨j, j_lt, place, holds⟩
        · refine .inl ⟨nowhere, fun j j_lt => ?_⟩
          rcases Nat.lt_succ_iff_lt_or_eq.mp j_lt with earlier | rfl
          · exact others j earlier
          · exact found
        · exact .inr ⟨j, Nat.lt_succ_of_lt j_lt, place, holds⟩

/-- A symbol that is moved up and then removed behind. -/
theorem eraseIdx_set_succ (symbols : List Symbol) {i : Nat} (bound : i + 1 < symbols.length) :
    (symbols.set i symbols[i + 1]).eraseIdx (i + 1) = symbols.eraseIdx i := by
  apply ext_getElem
  · rw [length_eraseIdx, length_eraseIdx, length_set]
    split_ifs <;> omega
  · intro j first second
    rw [getElem_eraseIdx, getElem_eraseIdx]
    split_ifs with behind before
    · rw [getElem_set, if_neg (Nat.ne_of_gt before)]
    · obtain rfl : j = i := Nat.le_antisymm (Nat.lt_succ_iff.mp behind) (Nat.le_of_not_lt before)
      rw [getElem_set, if_pos rfl]
    · omega
    · rw [getElem_set, if_neg (by omega)]

theorem size_remove (n cell : Nat) : (ring.remove n cell).size = ring.size := by
  induction n generalizing ring cell with
  | zero => rfl
  | succ n ih =>
    rw [remove]
    split_ifs
    · rfl
    · exact ih _

/-- Removing a symbol. -/
theorem contents_remove (valid : ring.Valid) {n i : Nat} (bound : i < ring.used)
    (enough : ring.used ≤ i + n) :
    (ring.remove n (ring.index i)).contents = ring.contents.eraseIdx i ∧
      (ring.remove n (ring.index i)).Valid := by
  induction n generalizing ring i with
  | zero => exact absurd enough (Nat.not_le_of_lt bound)
  | succ n ih =>
    have less := used_lt valid
    rw [remove, next_index valid (Nat.lt_of_le_of_lt bound less)]
    split_ifs with last
    · have whole : i + 1 = ring.used :=
        index_injective valid (Nat.lt_of_le_of_lt bound less) less
          (last.trans (index_used valid).symm)
      have shorter : ({ ring with last := ring.index i } : Ring Symbol).used = i := by
        have first := valid.first_lt
        have inside := Nat.lt_trans bound less
        rw [used, index]
        dsimp only
        split_ifs <;> omega
      refine ⟨?_, valid.first_lt, index_lt valid (Nat.lt_trans bound less)⟩
      apply ext_getElem
      · rw [length_contents, shorter, length_eraseIdx_of_lt (length_contents ▸ bound),
          length_contents]
        omega
      · intro j first second
        rw [length_contents, shorter] at first
        rw [getElem_contents, getElem_eraseIdx, dif_pos first, getElem_contents]
        rfl
    · have more : i + 1 < ring.used := by
        apply Nat.lt_of_le_of_ne bound
        intro whole
        exact last ((congrArg ring.index whole).trans (index_used valid))
      have bound' : i + 1 < ring.contents.length := length_contents ▸ more
      have enough' : ring.used ≤ i + 1 + n := by
        rw [Nat.add_right_comm]
        exact enough
      have same : (ring.set (ring.index i) (ring.cells (ring.index (i + 1)))).Valid :=
        ⟨valid.first_lt, valid.last_lt⟩
      have moved := ih same more enough'
      have erased : (ring.set (ring.index i)
          (ring.cells (ring.index (i + 1)))).contents.eraseIdx (i + 1) =
            ring.contents.eraseIdx i := by
        rw [contents_set valid bound, ← getElem_contents bound', eraseIdx_set_succ]
      exact ⟨moved.1.trans erased, moved.2⟩

end Ring
end Uos
