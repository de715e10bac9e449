import Uos.Mem.Heap

/-!
# The heap tiles its memory

The holes and the blocks together cover every address as often as the regions do.  Each operation
cuts a piece in two, joins adjacent ones or hands a piece over, which does not change that.
-/

namespace Uos.Mem

open Function List

open Piece

namespace Target

variable {t : Target} {x y : Nat}

theorem pointer_pos (t : Target) : 0 < t.pointer :=
  Nat.two_pow_pos _

theorem wrap_of_lt (less : x < 2 ^ t.bits) : t.wrap x = x :=
  Nat.mod_eq_of_lt less

theorem sub_of_le (le : y ≤ x) (less : x < 2 ^ t.bits) : t.sub x y = x - y := by
  rw [sub, wrap, show x + 2 ^ t.bits - y = x - y + 2 ^ t.bits by omega, Nat.add_mod_right]
  exact Nat.mod_eq_of_lt (by omega)

end Target

/-- The regions of a pool are memory of the machine, and do not overlap. -/
structure Regions (t : Target) (regions : List Piece) : Prop where
  once : ∀ a, cover regions a ≤ 1
  inside : ∀ a, 0 < cover regions a → 0 < a ∧ a + 1 < 2 ^ t.bits

/-- What holds of a pool whose user has the blocks with the headers at `heads`.  The holes are at
least `gap` bytes apart. -/
structure Pool.Tiled (t : Target) (gap : Nat) (regions : List Piece) (m : Pool)
    (heads : List Nat) : Prop where
  covers : ∀ a, cover (m.freeList.map m.piece) a + cover (heads.map m.piece) a = cover regions a
  sorted : (m.freeList.map m.piece).Pairwise (Gap gap)
  large : ∀ h ∈ m.freeList ++ heads, t.header + t.pointer ≤ m.size h
  holes : ∀ h ∈ m.freeList, m.magic h = .hole
  freeSize : m.freeSize = (m.freeList.map m.size).sum

namespace Pool

variable {t : Target} {gap : Nat} {regions : List Piece} {m m' : Pool} {heads front rest : List Nat}
  {h newh : Nat}

@[simp] theorem piece_start (m : Pool) (h : Nat) : (m.piece h).start = h :=
  rfl

@[simp] theorem piece_stop (m : Pool) (h : Nat) : (m.piece h).stop = h + m.size h :=
  rfl

@[simp] theorem setSize_self (m : Pool) (h size : Nat) : (m.setSize h size).size h = size :=
  update_self ..

theorem setSize_of_ne {x : Nat} (other : x ≠ h) (m : Pool) (size : Nat) :
    (m.setSize h size).size x = m.size x :=
  update_of_ne other ..

variable {list list' : List Nat}

theorem setSize_of_not_mem (outside : h ∉ list) (m : Pool) (size : Nat) :
    ∀ x ∈ list, (m.setSize h size).size x = m.size x :=
  fun _ member => setSize_of_ne (ne_of_mem_of_not_mem member outside) ..

@[simp] theorem setSize_magic (m : Pool) (h size : Nat) : (m.setSize h size).magic = m.magic :=
  rfl

@[simp] theorem setSize_freeSize (m : Pool) (h size : Nat) :
    (m.setSize h size).freeSize = m.freeSize :=
  rfl

@[simp] theorem setSize_freeList (m : Pool) (h size : Nat) :
    (m.setSize h size).freeList = m.freeList :=
  rfl

@[simp] theorem setMagic_size (m : Pool) (h : Nat) (magic : Magic) :
    (m.setMagic h magic).size = m.size :=
  rfl

@[simp] theorem setMagic_freeSize (m : Pool) (h : Nat) (magic : Magic) :
    (m.setMagic h magic).freeSize = m.freeSize :=
  rfl

@[simp] theorem setMagic_freeList (m : Pool) (h : Nat) (magic : Magic) :
    (m.setMagic h magic).freeList = m.freeList :=
  rfl

theorem map_piece_congr (same : ∀ x ∈ list, m'.size x = m.size x) :
    list.map m'.piece = list.map m.piece := by
  apply map_congr_left
  intro x member
  rw [piece, piece, same x member]

theorem map_size_congr (same : ∀ x ∈ list, m'.size x = m.size x) :
    list.map m'.size = list.map m.size :=
  map_congr_left same

/-- Pieces were put in another order, and some of them joined to the pieces in front of them. -/
structure Regroups (m : Pool) (list : List Nat) (m' : Pool) (list' : List Nat) : Prop where
  covers : ∀ a, cover (list'.map m'.piece) a = cover (list.map m.piece) a
  subset : list' ⊆ list
  large : ∀ least, (∀ x ∈ list, least ≤ m.size x) → ∀ x ∈ list', least ≤ m'.size x
  sum : (list'.map m'.size).sum = (list.map m.size).sum
  others : ∀ x, x ∉ list → m'.size x = m.size x
  magic : m'.magic = m.magic
  freeSize : m'.freeSize = m.freeSize

theorem Regroups.trans {m'' : Pool} {list'' : List Nat} (first : Regroups m list m' list')
    (second : Regroups m' list' m'' list'') :
    Regroups m list m'' list'' where
  covers a := (second.covers a).trans (first.covers a)
  subset := List.Subset.trans second.subset first.subset
  large least all := second.large least (first.large least all)
  sum := second.sum.trans first.sum
  others x outside :=
    (second.others x fun member => outside (first.subset member)).trans (first.others x outside)
  magic := second.magic.trans first.magic
  freeSize := second.freeSize.trans first.freeSize

theorem Regroups.perm (same : list'.Perm list) :
    Regroups m list m list' where
  covers a := cover_perm (same.map _) a
  subset := same.subset
  large _ all x member := all x (same.subset member)
  sum := (same.map _).sum_eq
  others _ _ := rfl
  magic := rfl
  freeSize := rfl

theorem Regroups.cons {x : Nat} (regroups : Regroups m list m' list') (outside : x ∉ list) :
    Regroups m (x :: list) m' (x :: list') := by
  have same := regroups.others x outside
  refine ⟨fun a => ?_, cons_subset_cons x regroups.subset, fun least all => ?_, ?_,
    fun y outside => ?_, regroups.magic, regroups.freeSize⟩
  · rw [map_cons, cover_cons, regroups.covers, piece, same, map_cons, cover_cons, piece]
  · rw [forall_mem_cons, same]
    have ⟨first, rest⟩ := forall_mem_cons.mp all
    exact ⟨first, regroups.large least rest⟩
  · rw [map_cons, sum_cons, regroups.sum, same, map_cons, sum_cons]
  · exact regroups.others y fun member => outside (mem_cons_of_mem _ member)

theorem Regroups.join {x y : Nat} {rest : List Nat} (adjacent : x + m.size x = y)
    (outside : x ∉ rest) :
    Regroups m (x :: y :: rest) (m.setSize x (m.size x + m.size y)) (x :: rest) := by
  have same := setSize_of_not_mem outside m (m.size x + m.size y)
  refine ⟨fun a => ?_, ?_, fun least all => ?_, ?_, fun z other => ?_, rfl, rfl⟩
  · rw [map_cons, map_piece_congr same, cover_cons, piece, setSize_self, share_split, adjacent,
      map_cons, map_cons, cover_cons, cover_cons, piece, piece, Nat.add_assoc]
  · exact cons_subset_cons x (subset_cons_self y rest)
  · simp only [forall_mem_cons] at all ⊢
    refine ⟨?_, fun z member => ?_⟩
    · rw [setSize_self]
      exact le_trans all.left (Nat.le_add_right _ _)
    · rw [same z member]
      exact all.right.right z member
  · rw [map_cons, map_size_congr same, sum_cons, setSize_self, map_cons,
      map_cons, sum_cons, sum_cons, Nat.add_assoc]
  · exact setSize_of_ne (fun equal => other (by simp [equal])) ..

theorem sorted_join {x y : Nat} {rest : List Nat} (adjacent : x + m.size x = y)
    (outside : x ∉ rest) (sorted : ((y :: rest).map m.piece).Pairwise (Gap gap)) :
    ((x :: rest).map (m.setSize x (m.size x + m.size y)).piece).Pairwise (Gap gap) := by
  have same := setSize_of_not_mem outside m (m.size x + m.size y)
  rw [map_cons, pairwise_cons] at sorted ⊢
  rw [map_piece_congr same]
  refine ⟨fun other member => ?_, sorted.right⟩
  have before := sorted.left other member
  simp only [Gap, piece_stop, setSize_self] at before ⊢
  omega

/-- What the loop of `make_hole_locked` needs of the new hole and the holes from some place on. -/
structure Insertable (t : Target) (gap : Nat) (m : Pool) (newh : Nat) (list : List Nat) :
    Prop where
  sorted : (list.map m.piece).Pairwise (Gap gap)
  apart : ∀ h ∈ list, (m.piece newh).Apart (m.piece h)
  bound : ∀ x ∈ newh :: list, 0 < m.size x ∧ x + m.size x < 2 ^ t.bits

theorem Insertable.tail (insertable : Insertable t gap m newh (h :: rest)) :
    Insertable t gap m newh rest where
  sorted := (List.pairwise_cons.mp insertable.sorted).right
  apart x member := insertable.apart x (List.mem_cons_of_mem _ member)
  bound x member := by
    apply insertable.bound
    rcases mem_cons.mp member with rfl | member
    · exact mem_cons_self
    · exact mem_cons_of_mem _ (mem_cons_of_mem _ member)

theorem Insertable.behind (insertable : Insertable t gap m newh (h :: rest)) :
    ∀ x ∈ rest, h + m.size h + gap ≤ x := by
  intro x member
  exact (pairwise_cons.mp insertable.sorted).left _ (mem_map_of_mem member)

theorem Insertable.not_mem_rest (insertable : Insertable t gap m newh (h :: rest)) : h ∉ rest := by
  intro member
  have := insertable.behind h member
  have := (insertable.bound h (by simp)).left
  omega

theorem Insertable.not_mem (insertable : Insertable t gap m newh rest) : newh ∉ rest := by
  intro member
  have apart := insertable.apart newh member
  have := (insertable.bound newh (by simp)).left
  simp only [Apart, piece_stop, piece_start] at apart
  omega

theorem Insertable.ahead (insertable : Insertable t gap m newh (h :: rest)) (small : gap ≤ 1)
    (less : newh < h) (gone : newh + m.size newh ≠ h) :
    ((newh :: h :: rest).map m.piece).Pairwise (Gap gap) := by
  rw [map_cons, pairwise_cons]
  refine ⟨fun other member => ?_, insertable.sorted⟩
  have apart := insertable.apart h mem_cons_self
  have size := insertable.bound h (by simp)
  simp only [Apart, piece_stop, piece_start] at apart
  obtain ⟨x, inside, rfl⟩ := mem_map.mp member
  simp only [Gap, piece_stop, piece_start]
  rcases mem_cons.mp inside with rfl | member
  · omega
  · have := insertable.behind x member
    omega

theorem Insertable.between (insertable : Insertable t gap m newh (h :: rest)) (small : gap ≤ 1)
    (adjacent : h + m.size h = newh) (gone : ∀ x ∈ rest.head?, newh + m.size newh ≠ x) :
    ((h :: rest).map (m.setSize h (m.size h + m.size newh)).piece).Pairwise (Gap gap) := by
  refine sorted_join adjacent insertable.not_mem_rest ?_
  cases rest with
  | nil => exact pairwise_singleton _ _
  | cons next others =>
    refine insertable.tail.ahead small ?_ (gone next rfl)
    have := insertable.behind next mem_cons_self
    have apart := insertable.apart next (by simp)
    have size := insertable.bound next (by simp)
    have new_size := insertable.bound newh (by simp)
    simp only [Apart, piece_stop, piece_start] at apart
    omega

theorem makeHoleLoop_spec (small : gap ≤ 1) (insertable : Insertable t gap m newh list) :
    ∃ list' m', makeHoleLoop t newh m list = some (list', m') ∧
      Regroups m (newh :: list) m' list' ∧ (list'.map m'.piece).Pairwise (Gap gap) := by
  induction list with
  | nil => exact ⟨[newh], m, rfl, .perm (.refl _), pairwise_singleton _ _⟩
  | cons h rest ih =>
    have new_bound := insertable.bound newh (by simp)
    have bound := insertable.bound h (by simp)
    have apart := insertable.apart h mem_cons_self
    simp only [Apart, piece_stop, piece_start] at apart
    have swap : (h :: newh :: rest).Perm (newh :: h :: rest) := .swap ..
    rw [makeHoleLoop, t.wrap_of_lt new_bound.right, t.wrap_of_lt bound.right]
    split
    · rename_i less
      split
      · rename_i adjacent
        rw [t.wrap_of_lt (by omega)]
        have outside := insertable.tail.not_mem
        exact ⟨_, _, rfl, .join adjacent outside, sorted_join adjacent outside insertable.sorted⟩
      · rename_i gone
        exact ⟨_, _, rfl, .perm (.refl _), insertable.ahead small less gone⟩
    · rename_i greater
      split
      · rename_i adjacent
        rw [t.wrap_of_lt (x := m.size h + m.size newh) (by omega)]
        have first := (Regroups.perm swap).trans (.join adjacent insertable.not_mem_rest)
        dsimp only
        rw [setSize_self, t.wrap_of_lt (by omega)]
        cases rest with
        | nil =>
          rw [if_neg (by omega)]
          exact ⟨_, _, rfl, first, insertable.between small adjacent (by simp)⟩
        | cons next others =>
          have next_bound := insertable.bound next (by simp)
          have behind := insertable.behind next mem_cons_self
          have next_same : (m.setSize h (m.size h + m.size newh)).size next = m.size next :=
            setSize_of_ne (by omega) ..
          dsimp only
          split
          · rename_i joined
            rw [next_same, t.wrap_of_lt (by omega)]
            have outside : h ∉ others :=
              fun member => insertable.not_mem_rest (mem_cons_of_mem _ member)
            have reaches : h + (m.setSize h (m.size h + m.size newh)).size h = next := by
              rw [setSize_self, joined]
            have second := @Regroups.join _ _ _ others reaches outside
            rw [setSize_self, next_same] at second
            refine ⟨_, _, rfl, first.trans second, ?_⟩
            have sorted := @sorted_join gap _ _ _ others reaches outside ?_
            · rw [setSize_self, next_same] at sorted
              exact sorted
            · rw [map_piece_congr (m := m)]
              · exact insertable.tail.sorted
              · exact setSize_of_not_mem insertable.not_mem_rest _ _
          · rename_i gone
            refine ⟨_, _, rfl, first, insertable.between small adjacent fun x found => ?_⟩
            obtain rfl : next = x := by simpa using found
            omega
      · rename_i gone
        obtain ⟨list', m', inserts, regroups, sorted⟩ := ih insertable.tail
        have outside : h ∉ newh :: rest := by
          rw [mem_cons]
          rintro (equal | member)
          · omega
          · exact insertable.not_mem_rest member
        rw [inserts]
        refine ⟨_, _, rfl, (Regroups.perm swap).trans (regroups.cons outside), ?_⟩
        rw [map_cons, pairwise_cons]
        refine ⟨fun other member => ?_, sorted⟩
        obtain ⟨x, inside, rfl⟩ := mem_map.mp member
        simp only [Gap, piece_stop, piece_start, regroups.others h outside]
        rcases mem_cons.mp (regroups.subset inside) with rfl | member
        · omega
        · exact insertable.behind x member

theorem inside_of_covers {x : Nat} (ok : Regions t regions)
    (covers : ∀ a, cover (list.map m.piece) a ≤ cover regions a) (member : x ∈ list)
    (positive : 0 < m.size x) : 0 < x ∧ x + m.size x < 2 ^ t.bits := by
  have covered (a : Nat) (within : x ≤ a ∧ a < x + m.size x) : 0 < cover regions a := by
    refine lt_of_lt_of_le (cover_pos_iff.mpr ?_) (covers a)
    exact ⟨m.piece x, mem_map_of_mem member, within⟩
  have low := ok.inside x (covered x (by omega))
  have high := ok.inside (x + m.size x - 1) (covered _ (by omega))
  omega

/-- The sum of the sizes of the holes is a `size_t`. -/
theorem sum_lt (sorted : (list.map m.piece).Pairwise (Gap gap))
    (inside : ∀ x ∈ list, x + m.size x < 2 ^ t.bits) : (list.map m.size).sum < 2 ^ t.bits := by
  have near : (list.map m.piece).Pairwise (Gap 0) :=
    sorted.imp fun before => le_trans (Nat.add_le_add_left (Nat.zero_le gap) _) before
  have positive := Nat.two_pow_pos t.bits
  have within : ∀ piece ∈ list.map m.piece, 0 ≤ piece.start ∧ piece.stop ≤ 2 ^ t.bits - 1 :=
    forall_mem_map.mpr fun x member => ⟨Nat.zero_le _, Nat.le_pred_of_lt (inside x member)⟩
  have total := sum_size_le near within (Nat.zero_le _)
  have same : ((list.map m.piece).map Piece.size).sum = (list.map m.size).sum := by
    rw [map_map]
    rfl
  omega

namespace Tiled

theorem covers_append (tiled : m.Tiled t gap regions heads) (a : Nat) :
    cover ((m.freeList ++ heads).map m.piece) a = cover regions a := by
  rw [map_append, cover_append, tiled.covers]

theorem positive (tiled : m.Tiled t gap regions heads) :
    ∀ x ∈ m.freeList ++ heads, 0 < m.size x :=
  fun x member => lt_of_lt_of_le (Nat.lt_of_lt_of_le t.pointer_pos (Nat.le_add_left _ _))
    (tiled.large x member)

theorem inside (ok : Regions t regions) (tiled : m.Tiled t gap regions heads) :
    ∀ x ∈ m.freeList ++ heads, 0 < x ∧ x + m.size x < 2 ^ t.bits :=
  fun x member => inside_of_covers ok (fun a => (tiled.covers_append a).le) member
    (tiled.positive x member)

theorem pairwise (ok : Regions t regions) (tiled : m.Tiled t gap regions heads) {list : List Nat}
    (same : list.Perm (m.freeList ++ heads)) : (list.map m.piece).Pairwise Apart := by
  refine pairwise_of_cover ?_ fun a => ?_
  · exact forall_mem_map.mpr fun x member => tiled.positive x (same.subset member)
  · rw [cover_perm (same.map _), tiled.covers_append]
    exact ok.once a

theorem apart (ok : Regions t regions) (tiled : m.Tiled t gap regions heads) {x : Nat}
    {others : List Nat} (same : (x :: others).Perm (m.freeList ++ heads)) :
    ∀ y ∈ others, (m.piece x).Apart (m.piece y) :=
  fun _ member => (pairwise_cons.mp (tiled.pairwise ok same)).left _
    (mem_map_of_mem member)

theorem nodup (ok : Regions t regions) (tiled : m.Tiled t gap regions heads) :
    (m.freeList ++ heads).Nodup := by
  refine (pairwise_map.mp (tiled.pairwise ok (.refl _))).imp_of_mem ?_
  rintro x y member - apart rfl
  have positive := tiled.positive x member
  simp only [Apart, piece_stop, piece_start] at apart
  omega

theorem freeSize_lt (ok : Regions t regions) (tiled : m.Tiled t gap regions heads) :
    m.freeSize < 2 ^ t.bits := by
  rw [tiled.freeSize]
  exact sum_lt tiled.sorted fun x found => (tiled.inside ok x (mem_append_left _ found)).right

theorem perm {heads' : List Nat} (same : heads'.Perm heads) (tiled : m.Tiled t gap regions heads) :
    m.Tiled t gap regions heads' := by
  refine ⟨fun a => ?_, tiled.sorted, fun h member => ?_, tiled.holes, tiled.freeSize⟩
  · rw [cover_perm (same.map _)]
    exact tiled.covers a
  · exact tiled.large h ((same.append_left _).subset member)

theorem release (ok : Regions t regions) (small : gap ≤ 1)
    (tiled : m.Tiled t gap regions (newh :: heads)) :
    ∃ m', m.makeHoleLocked t newh = some m' ∧ m'.Tiled t gap regions heads ∧
      ∀ x ∈ heads, m'.size x = m.size x ∧ m'.magic x = m.magic x := by
  have same : (newh :: (m.freeList ++ heads)).Perm (m.freeList ++ newh :: heads) :=
    perm_middle.symm
  have member {x : Nat} (found : x ∈ newh :: m.freeList) : x ∈ m.freeList ++ newh :: heads :=
    same.subset (cons_subset_cons newh (subset_append_left _ _) found)
  have outside : ∀ x ∈ heads, x ∉ newh :: m.freeList := by
    intro x found within
    have nodup := same.nodup_iff.mpr (tiled.nodup ok)
    rw [← cons_append] at nodup
    exact (nodup_append.mp nodup).right.right x within x found rfl
  have insertable : Insertable t gap
      ({ m with freeSize := t.wrap (m.freeSize + m.size newh) }.setMagic newh .hole) newh
      m.freeList :=
    ⟨tiled.sorted, fun x found => tiled.apart ok same x (mem_append_left _ found),
      fun x found => ⟨tiled.positive x (member found), (tiled.inside ok x (member found)).right⟩⟩
  obtain ⟨freeList, m', inserts, regroups, sorted⟩ := makeHoleLoop_spec small insertable
  have kept : ∀ x ∈ heads, m'.size x = m.size x := fun x found =>
    regroups.others x (outside x found)
  have covers (a : Nat) :
      cover (freeList.map m'.piece) a + cover (heads.map m'.piece) a = cover regions a := by
    have grouped : cover (freeList.map m'.piece) a =
        (m.piece newh).share a + cover (m.freeList.map m.piece) a := regroups.covers a
    have before := tiled.covers a
    rw [map_cons, cover_cons] at before
    rw [grouped, map_piece_congr kept]
    omega
  have least : ∀ x ∈ freeList, t.header + t.pointer ≤ m'.size x :=
    regroups.large _ fun x found => tiled.large x (member found)
  have bound : ∀ x ∈ freeList, x + m'.size x < 2 ^ t.bits := by
    intro x found
    refine (inside_of_covers ok (fun a => Nat.le.intro (covers a)) found ?_).right
    exact lt_of_lt_of_le (Nat.add_pos_right _ t.pointer_pos) (least x found)
  have total : (freeList.map m'.size).sum = m.size newh + (m.freeList.map m.size).sum :=
    regroups.sum
  refine ⟨{ m' with freeList }, ?_, ⟨covers, sorted, fun x found => ?_, fun x found => ?_, ?_⟩,
    fun x found => ⟨kept x found, ?_⟩⟩
  · rw [makeHoleLocked]
    exact congrArg (Option.bind · _) inserts
  · rcases mem_append.mp found with found | found
    · exact least x found
    · dsimp only
      rw [kept x found]
      exact tiled.large x (by simp [found])
  · dsimp only
    rw [regroups.magic]
    rcases mem_cons.mp (regroups.subset found) with rfl | found
    · exact update_self ..
    · have other : x ≠ newh := ne_of_mem_of_not_mem found insertable.not_mem
      exact (update_of_ne other ..).trans (tiled.holes x found)
  · have sum : t.wrap (m.freeSize + m.size newh) = (freeList.map m'.size).sum := by
      rw [t.wrap_of_lt, total, tiled.freeSize, Nat.add_comm]
      rw [tiled.freeSize, Nat.add_comm, ← total]
      exact sum_lt sorted bound
    exact regroups.freeSize.trans sum
  · have other : x ≠ newh := fun equal => outside x found (by simp [equal])
    exact (congrFun regroups.magic x).trans (update_of_ne other ..)

theorem take (ok : Regions t regions) (tiled : m.Tiled t gap regions heads)
    (list : m.freeList = front ++ h :: rest) :
    Pool.Tiled t gap regions
      { m.setMagic h .block with
        freeList := front ++ rest
        freeSize := t.sub m.freeSize (m.size h) } (h :: heads) := by
  have same : (front ++ rest ++ h :: heads).Perm (m.freeList ++ heads) := by
    rw [list, append_assoc, append_assoc, cons_append]
    exact ((@perm_middle _ h rest heads).append_left front)
  have within : ∀ x ∈ front ++ rest, x ∈ m.freeList := by
    intro x found
    rw [list]
    simp only [mem_append, mem_cons] at found ⊢
    tauto
  have outside : h ∉ front ++ rest := by
    have nodup := same.nodup_iff.mpr (tiled.nodup ok)
    exact fun found => (nodup_append.mp nodup).right.right h found h mem_cons_self rfl
  have total : m.freeSize = (front.map m.size).sum + m.size h + (rest.map m.size).sum := by
    rw [tiled.freeSize, list, map_append, sum_append, map_cons, sum_cons,
      Nat.add_assoc]
  refine ⟨fun a => ?_, ?_, fun x found => ?_, fun x found => ?_, ?_⟩
  · have before := tiled.covers_append a
    rw [← cover_perm (same.map _), map_append, cover_append] at before
    exact before
  · have sorted := tiled.sorted
    rw [list] at sorted
    exact sorted.sublist (((sublist_cons_self h rest).append_left front).map _)
  · exact tiled.large x (same.subset found)
  · have other : x ≠ h := ne_of_mem_of_not_mem found outside
    exact (update_of_ne other ..).trans (tiled.holes x (within x found))
  · dsimp only
    rw [t.sub_of_le (by omega) (tiled.freeSize_lt ok), map_append, sum_append]
    simp only [setMagic_size]
    omega

end Tiled

def cut (m : Pool) (h required : Nat) : Pool :=
  (m.setSize (h + required) (m.size h - required)).setSize h required

@[simp] theorem cut_size_self (m : Pool) (h required : Nat) :
    (m.cut h required).size h = required :=
  setSize_self ..

theorem cut_size_new {required : Nat} (positive : 0 < required) (m : Pool) (h : Nat) :
    (m.cut h required).size (h + required) = m.size h - required := by
  rw [cut, setSize_of_ne (by omega), setSize_self]

theorem cut_share {required : Nat} (positive : 0 < required) (within : required ≤ m.size h)
    (a : Nat) :
    ((m.cut h required).piece h).share a + ((m.cut h required).piece (h + required)).share a =
      (m.piece h).share a := by
  rw [piece, piece, cut_size_self, cut_size_new positive, ← share_split,
    Nat.add_sub_cancel' within, piece]

namespace Tiled

theorem cut_others {required : Nat} {others : List Nat} (ok : Regions t regions)
    (tiled : m.Tiled t gap regions heads)
    (same : (h :: others).Perm (m.freeList ++ heads)) (within : required < m.size h) :
    ∀ x ∈ others, x ≠ h + required ∧ (m.cut h required).size x = m.size x := by
  intro x member
  have apart := tiled.apart ok same x member
  have positive := tiled.positive x (same.subset (mem_cons_of_mem _ member))
  simp only [Apart, piece_stop, piece_start] at apart
  refine ⟨by omega, ?_⟩
  rw [cut, setSize_of_ne (by omega), setSize_of_ne (by omega)]

theorem carve {required : Nat} (ok : Regions t regions) (tiled : m.Tiled t gap regions heads)
    (list : m.freeList = front ++ h :: rest) (enough : t.header + t.pointer ≤ required)
    (room : required + t.header + t.pointer ≤ m.size h) :
    Pool.Tiled t gap regions
      { ((m.cut h required).setMagic (h + required) .hole).setMagic h .block with
        freeList := front ++ (h + required) :: rest
        freeSize := t.sub m.freeSize required } (h :: heads) := by
  have positive : 0 < required := by
    have := t.pointer_pos
    omega
  have same : (h :: (front ++ rest ++ heads)).Perm (m.freeList ++ heads) := by
    rw [list, append_assoc, append_assoc, cons_append]
    exact perm_middle.symm
  have pointer_pos := t.pointer_pos
  have kept := @cut_others _ _ _ _ _ _ required _ ok tiled same (by omega)
  have kept_front : ∀ x ∈ front, (m.cut h required).size x = m.size x :=
    fun x found => (kept x (by simp [found])).right
  have kept_rest : ∀ x ∈ rest, (m.cut h required).size x = m.size x :=
    fun x found => (kept x (by simp [found])).right
  have kept_heads : ∀ x ∈ heads, (m.cut h required).size x = m.size x :=
    fun x found => (kept x (by simp [found])).right
  have new_size := m.cut_size_new positive h
  refine ⟨fun a => ?_, ?_, fun x found => ?_, fun x found => ?_, ?_⟩
  · have before := tiled.covers_append a
    have parts := m.cut_share (h := h) positive (by omega) a
    have after : cover ((front ++ (h + required) :: rest).map (m.cut h required).piece) a +
        cover ((h :: heads).map (m.cut h required).piece) a = cover regions a := by
      rw [← cover_perm (same.map _)] at before
      simp only [map_append, map_cons, cover_append, cover_cons,
        map_piece_congr kept_front, map_piece_congr kept_rest,
        map_piece_congr kept_heads] at before ⊢
      omega
    exact after
  · have sorted := tiled.sorted
    rw [list, map_append, map_cons, pairwise_append, pairwise_cons] at sorted
    have after : ((front ++ (h + required) :: rest).map (m.cut h required).piece).Pairwise
        (Gap gap) := by
      rw [map_append, map_cons, map_piece_congr kept_front, map_piece_congr kept_rest,
        pairwise_append, pairwise_cons]
      obtain ⟨front_sorted, ⟨before_rest, rest_sorted⟩, apart⟩ := sorted
      refine ⟨front_sorted, ⟨fun other member => ?_, rest_sorted⟩, fun first found => ?_⟩
      · have before := before_rest other member
        simp only [Gap, piece_stop, new_size] at before ⊢
        omega
      · have before := apart first found
        rw [forall_mem_cons] at before ⊢
        refine ⟨?_, before.right⟩
        have left := before.left
        simp only [Gap, piece_start] at left ⊢
        omega
    exact after
  · have least : ∀ x ∈ front ++ (h + required) :: rest ++ h :: heads,
        t.header + t.pointer ≤ (m.cut h required).size x := by
      simp only [forall_mem_append, forall_mem_cons, new_size, cut_size_self]
      refine ⟨⟨fun x found => ?_, by omega, fun x found => ?_⟩, enough, fun x found => ?_⟩
      · rw [kept_front x found]
        exact tiled.large x (by simp [list, found])
      · rw [kept_rest x found]
        exact tiled.large x (by simp [list, found])
      · rw [kept_heads x found]
        exact tiled.large x (by simp [found])
    exact least x found
  · have magic : (Function.update (Function.update m.magic (h + required) .hole) h .block) x =
        .hole := by
      rcases eq_or_ne x (h + required) with rfl | other
      · rw [update_of_ne (by omega), update_self]
      · have inside : x ∈ front ++ rest := by
          simp only [mem_append, mem_cons] at found ⊢
          tauto
        have nodup := same.nodup_iff.mpr (tiled.nodup ok)
        have not_h : x ≠ h := by
          rintro rfl
          exact (nodup_cons.mp nodup).left (mem_append_left _ inside)
        rw [update_of_ne not_h, update_of_ne other]
        refine tiled.holes x ?_
        rw [list]
        simp only [mem_append, mem_cons] at inside ⊢
        tauto
    exact magic
  · have sum : t.sub m.freeSize required =
        ((front ++ (h + required) :: rest).map (m.cut h required).size).sum := by
      have total := tiled.freeSize
      rw [list] at total
      rw [t.sub_of_le _ (tiled.freeSize_lt ok)]
      · simp only [map_append, map_cons, sum_append, sum_cons,
          map_size_congr kept_front, map_size_congr kept_rest, new_size] at total ⊢
        omega
      · simp only [map_append, map_cons, sum_append, sum_cons] at total
        omega
    exact sum

theorem split {required : Nat} (ok : Regions t regions) (tiled : m.Tiled t gap regions (h :: heads))
    (enough : t.header + t.pointer ≤ required)
    (room : required + t.header + t.pointer ≤ m.size h) :
    Pool.Tiled t gap regions (m.cut h required) ((h + required) :: h :: heads) := by
  have pointer_pos := t.pointer_pos
  have same : (h :: (m.freeList ++ heads)).Perm (m.freeList ++ h :: heads) :=
    perm_middle.symm
  have kept := @cut_others _ _ _ _ _ _ required _ ok tiled same (by omega)
  have kept_holes : ∀ x ∈ m.freeList, (m.cut h required).size x = m.size x :=
    fun x found => (kept x (by simp [found])).right
  have kept_heads : ∀ x ∈ heads, (m.cut h required).size x = m.size x :=
    fun x found => (kept x (by simp [found])).right
  have new_size := @cut_size_new required (by omega) m h
  refine ⟨fun a => ?_, ?_, ?_, tiled.holes, ?_⟩
  · have before := tiled.covers a
    have parts := @cut_share m h required (by omega) (by omega) a
    have after : cover (m.freeList.map (m.cut h required).piece) a +
        cover (((h + required) :: h :: heads).map (m.cut h required).piece) a =
          cover regions a := by
      simp only [map_cons, cover_cons, map_piece_congr kept_holes,
        map_piece_congr kept_heads] at before ⊢
      omega
    exact after
  · have sorted : (m.freeList.map (m.cut h required).piece).Pairwise (Gap gap) := by
      rw [map_piece_congr kept_holes]
      exact tiled.sorted
    exact sorted
  · have least : ∀ x ∈ m.freeList ++ (h + required) :: h :: heads,
        t.header + t.pointer ≤ (m.cut h required).size x := by
      simp only [forall_mem_append, forall_mem_cons, new_size, cut_size_self]
      refine ⟨fun x found => ?_, by omega, enough, fun x found => ?_⟩
      · rw [kept_holes x found]
        exact tiled.large x (by simp [found])
      · rw [kept_heads x found]
        exact tiled.large x (by simp [found])
    exact least
  · have sum : m.freeSize = (m.freeList.map (m.cut h required).size).sum := by
      rw [map_size_congr kept_holes]
      exact tiled.freeSize
    exact sum

end Tiled
end Pool
end Uos.Mem
