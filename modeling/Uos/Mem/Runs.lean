import Uos.Mem.Calls

/-!
# Runs of the heap

What holds of every pool that is set up by `mem_init` and then used.
-/

namespace Uos.Mem

open List

open Piece

/-- The regions given to `mem_init`: memory of the machine in decreasing order of the addresses, at
least `gap` bytes apart, with room for a header and a pointer in each. -/
structure Layout (t : Target) (gap : Nat) (regions : List Piece) : Prop where
  decreasing : regions.Pairwise fun high low => low.Gap gap high
  large : ∀ region ∈ regions, t.header + t.pointer ≤ region.size
  inside : ∀ region ∈ regions, 0 < region.start ∧ region.stop < 2 ^ t.bits

/-- A pool that was not used yet, with its regions in increasing order. -/
structure Pool.Fresh (m : Pool) (regions : List Piece) : Prop where
  pieces : m.freeList.map m.piece = regions
  holes : ∀ h ∈ m.freeList, m.magic h = .hole
  freeSize : m.freeSize = (regions.map Piece.size).sum

namespace Layout

variable {t : Target} {gap : Nat} {regions done : List Piece} {m : Pool} {region : Piece}

theorem increasing (layout : Layout t gap regions) : regions.reverse.Pairwise (Gap gap) :=
  pairwise_reverse.mpr layout.decreasing

theorem positive (layout : Layout t gap regions) : ∀ region ∈ regions, 0 < region.size :=
  fun region member => lt_of_lt_of_le (Nat.add_pos_right _ t.pointer_pos)
    (layout.large region member)

theorem regions_ok (layout : Layout t gap regions) : Regions t regions := by
  refine ⟨fun a => cover_le_one ?_ a, fun a covered => ?_⟩
  · refine layout.decreasing.imp fun behind => .inr ?_
    exact le_trans (Nat.le_add_right _ _) behind
  · obtain ⟨region, member, within⟩ := cover_pos_iff.mp covered
    have := layout.inside region member
    omega

theorem memInit_spec (fresh : m.Fresh done) (sorted : (region :: done).Pairwise (Gap gap))
    (positive : 0 < region.size)
    (inside : ∀ other ∈ region :: done, 0 < other.start ∧ other.stop < 2 ^ t.bits) :
    ∃ m', m.memInit t region.start region.stop = some m' ∧ m'.Fresh (region :: done) := by
  obtain ⟨before, done_sorted⟩ := pairwise_cons.mp sorted
  have place := inside region mem_cons_self
  have less : region.start < region.stop := Nat.lt_add_of_pos_right positive
  have size : t.sub region.stop region.start = region.size := by
    rw [t.sub_of_le less.le place.right]
    exact Nat.add_sub_cancel_left _ _
  have outside : region.start ∉ m.freeList := by
    intro member
    have inside_done : m.piece region.start ∈ done := by
      rw [← fresh.pieces]
      exact mem_map_of_mem member
    have := before _ inside_done
    simp only [Gap, stop, Pool.piece_start] at this
    omega
  have total : ((region :: done).map Piece.size).sum < 2 ^ t.bits := by
    have near : (region :: done).Pairwise (Gap 0) :=
      sorted.imp fun gap_between => le_trans (Nat.add_le_add_left (Nat.zero_le gap) _) gap_between
    have below := @sum_size_le _ 0 (2 ^ t.bits - 1) near
      (fun other member => ⟨Nat.zero_le _, Nat.le_pred_of_lt (inside other member).right⟩)
      (Nat.zero_le _)
    have := Nat.two_pow_pos t.bits
    omega
  have kept := Pool.setSize_of_not_mem outside m region.size
  refine ⟨{ ((m.setSize region.start region.size).setMagic region.start .hole) with
    freeList := region.start :: m.freeList
    freeSize := region.size + m.freeSize }, ?_, ?_, ?_, ?_⟩
  · have sum : t.wrap (m.freeSize + region.size) = region.size + m.freeSize := by
      rw [map_cons, sum_cons, ← fresh.freeSize] at total
      rw [Nat.add_comm, t.wrap_of_lt total]
    rw [Pool.memInit, if_pos less, size]
    simp only [Pool.setMagic_size, Pool.setSize_self, if_neg place.left.ne',
      Pool.setMagic_freeSize, Pool.setMagic_freeList, Pool.setSize_freeSize,
      Pool.setSize_freeList, sum]
  · have pieces : (region.start :: m.freeList).map (m.setSize region.start region.size).piece =
        region :: done := by
      rw [map_cons, Pool.map_piece_congr kept, fresh.pieces, Pool.piece, Pool.setSize_self]
    exact pieces
  · have magic : ∀ h ∈ region.start :: m.freeList,
        Function.update m.magic region.start .hole h = .hole := by
      rw [forall_mem_cons, Function.update_self]
      refine ⟨rfl, fun h member => ?_⟩
      rw [Function.update_of_ne (ne_of_mem_of_not_mem member outside), fresh.holes h member]
    exact magic
  · dsimp only
    rw [fresh.freeSize, map_cons, sum_cons]

theorem memInitAll_spec (layout : Layout t gap (done.reverse ++ regions)) (fresh : m.Fresh done) :
    ∃ m', regions.foldlM (fun m region => m.memInit t region.start region.stop) m = some m' ∧
      m'.Fresh (regions.reverse ++ done) := by
  induction regions generalizing m done with
  | nil => exact ⟨m, rfl, fresh⟩
  | cons region regions ih =>
    have order : (region :: done).reverse ++ regions = done.reverse ++ region :: regions := by simp
    have sorted := layout.increasing
    have sub : (region :: done).Sublist (done.reverse ++ region :: regions).reverse := by simp
    have member : ∀ other ∈ region :: done, other ∈ done.reverse ++ region :: regions :=
      fun other found => mem_reverse.mp (sub.subset found)
    obtain ⟨next, inits, fresh⟩ := memInit_spec fresh (sorted.sublist sub)
      (layout.positive region (member region mem_cons_self))
      fun other found => layout.inside other (member other found)
    obtain ⟨m', rest, fresh⟩ := ih (order ▸ layout) fresh
    refine ⟨m', ?_, ?_⟩
    · rw [foldlM_cons, inits]
      exact rest
    · simpa using fresh

theorem tiled (layout : Layout t gap regions) (fresh : m.Fresh regions.reverse) :
    m.Tiled t gap regions [] := by
  refine ⟨fun a => ?_, ?_, fun h member => ?_, fresh.holes, ?_⟩
  · rw [fresh.pieces, cover_perm regions.reverse_perm]
    rfl
  · rw [fresh.pieces]
    exact layout.increasing
  · rw [append_nil] at member
    have region := mem_map_of_mem (f := m.piece) member
    rw [fresh.pieces, mem_reverse] at region
    exact layout.large _ region
  · rw [fresh.freeSize, ← fresh.pieces, map_map]
    rfl

/-- `mem_init` sets up a sound pool. -/
theorem init (layout : Layout t gap regions) :
    ∃ m, memInitAll t regions = some m ∧ ({ pool := m } : Use).Sound t gap regions [] := by
  obtain ⟨m, inits, fresh⟩ := @memInitAll_spec _ _ _ [] {} layout ⟨rfl, by simp, rfl⟩
  rw [append_nil] at fresh
  exact ⟨m, inits, layout.tiled fresh, by simp, .refl _⟩

end Layout

namespace Use

variable {t : Target} {gap : Nat} {regions : List Piece} {use : Use} {heads : List Nat}

def headers (t : Target) (use : Use) : List Nat :=
  use.blocks.map (· - t.header)

def pieces (t : Target) (use : Use) : List Piece :=
  (use.pool.freeList ++ use.headers t).map use.pool.piece

/-- The holes and the blocks tile the regions. -/
structure Tiles (t : Target) (regions : List Piece) (use : Use) : Prop where
  increasing : use.pool.freeList.Pairwise (· < ·)
  apart : (use.pieces t).Pairwise Apart
  covers : ∀ a, (∃ piece ∈ use.pieces t, piece.start ≤ a ∧ a < piece.stop) ↔
    ∃ region ∈ regions, region.start ≤ a ∧ a < region.stop
  large : ∀ h ∈ use.pool.freeList, t.header + t.pointer ≤ use.pool.size h
  freeSize : use.pool.freeSize = (use.pool.freeList.map use.pool.size).sum

/-- No hole begins where another one ends. -/
def Coalesced (use : Use) : Prop :=
  ∀ h ∈ use.pool.freeList, h + use.pool.size h ∉ use.pool.freeList

theorem Sound.heads_perm (sound : use.Sound t gap regions heads) : (use.headers t).Perm heads := by
  refine (sound.blocks.map (· - t.header)).trans ?_
  rw [map_map]
  have same : (fun h => h - t.header) ∘ (fun h => h + t.header) = id :=
    funext fun h => Nat.add_sub_cancel h t.header
  rw [same, map_id]

theorem Sound.tiles (ok : Regions t regions) (sound : use.Sound t gap regions heads) :
    use.Tiles t regions := by
  have same : (use.pool.freeList ++ use.headers t).Perm (use.pool.freeList ++ heads) :=
    sound.heads_perm.append_left _
  refine ⟨?_, sound.tiled.pairwise ok same, fun a => ?_, fun h member => ?_, sound.tiled.freeSize⟩
  · refine (pairwise_map.mp sound.tiled.sorted).imp_of_mem fun {x y} member _ before => ?_
    have positive := sound.tiled.positive x (mem_append_left _ member)
    simp only [Gap, Pool.piece_stop, Pool.piece_start] at before
    omega
  · rw [← cover_pos_iff, ← cover_pos_iff, ← sound.tiled.covers_append, pieces,
      cover_perm (same.map _)]
  · exact sound.tiled.large h (mem_append_left _ member)

theorem Sound.coalesced (sound : use.Sound t 1 regions heads) :
    use.Coalesced := by
  intro h member next
  obtain ⟨front, rest, list⟩ := append_of_mem member
  have sorted := pairwise_map.mp sound.tiled.sorted
  have positive := sound.tiled.positive h (mem_append_left _ member)
  rw [list] at sorted next
  obtain ⟨-, rest_sorted, apart⟩ := pairwise_append.mp sorted
  rcases mem_append.mp next with before | behind
  · have := apart _ before h mem_cons_self
    simp only [Gap, Pool.piece_stop, Pool.piece_start] at this
    omega
  · rcases mem_cons.mp behind with same | behind
    · omega
    · have := (pairwise_cons.mp rest_sorted).left _ behind
      simp only [Gap, Pool.piece_stop, Pool.piece_start] at this
      omega

theorem Sound.restored (layout : Layout t 1 regions) (sound : use.Sound t 1 regions heads)
    (freed : use.blocks = []) : use.pool.freeList.map use.pool.piece = regions.reverse := by
  have empty : heads = [] := by
    have same := sound.blocks
    rw [freed] at same
    exact map_eq_nil_iff.mp same.nil_eq.symm
  refine eq_of_cover sound.tiled.sorted layout.increasing ?_ ?_ fun a => ?_
  · exact forall_mem_map.mpr fun h member =>
      sound.tiled.positive h (mem_append_left _ member)
  · exact fun region member => layout.positive region (mem_reverse.mp member)
  · have covers := sound.tiled.covers a
    rw [empty] at covers
    rw [cover_perm regions.reverse_perm]
    exact covers

end Use

/-- What is wanted of the allocation of a block: it is as large as asked for and only its memory is
cleared, and there is no block only if no hole is large enough. -/
def Adequate (t : Target) (m : Pool) (request : Nat) : Prop :=
  match m.memAllocDirty t request with
  | none => False
  | some (none, _) => ∀ h ∈ m.freeList, m.size h < t.exactSize request
  | some (some block, m') =>
    (∃ usable, m'.memSize t block = some usable ∧ request ≤ usable ∧
      ∃ cleared, m.memAlloc t request = some (some (block, cleared), m') ∧
        block ≤ cleared.start ∧ cleared.stop ≤ block + usable) ∧
    ∃ h ∈ m.freeList, t.exactSize request ≤ m.size h

namespace Pool.Tiled

variable {t : Target} {gap : Nat} {regions : List Piece} {m : Pool} {heads : List Nat}
  {request : Nat}

theorem adequate_of_none (tiled : m.Tiled t gap regions heads) (ok : Regions t regions)
    (unfit : m.firstFit t request = none)
    (allocates : m.memAllocDirty t request = some (none, m)) : Adequate t m request := by
  rw [Adequate, allocates]
  intro h member
  have small := firstFit_none unfit h member
  have large := tiled.large h (mem_append_left _ member)
  have inside := (tiled.inside ok h (mem_append_left _ member)).right
  rcases Nat.lt_or_ge request t.pointer with tiny | _
  · rw [t.required_of_small tiny] at small
    omega
  · by_cases rounds : t.Rounds request
    · rwa [t.required_eq rounds, if_neg (by omega)] at small
    · have := t.exactSize_of_not_rounds rounds
      omega

theorem adequate_iff_of_some {front rest : List Nat} {h : Nat}
    (tiled : m.Tiled t gap regions heads) (ok : Regions t regions)
    (list : m.freeList = front ++ h :: rest) (finds : m.firstFit t request = some h)
    (allocates : m.memAllocDirty t request =
      some (some (t.wrap (h + t.header)), m.allocated t (t.required request) front h rest)) :
    Adequate t m request ↔ t.Rounds request := by
  have member : h ∈ m.freeList := by simp [list]
  have enough := firstFit_some finds
  have inside := tiled.inside ok h (mem_append_left _ member)
  have large := tiled.large h (mem_append_left _ member)
  obtain ⟨least, most, marked⟩ :=
    @allocated_header t m front rest _ _ enough
  rw [Adequate, allocates]
  dsimp only
  constructor
  · rintro ⟨-, x, found, exact_fits⟩
    by_contra overflows
    have := t.exactSize_of_not_rounds overflows
    have := (tiled.inside ok x (mem_append_left _ found)).right
    omega
  · intro rounds
    have room := t.required_le rounds
    refine ⟨?_, h, member, (t.exactSize_le_required rounds).trans enough⟩
    have block : t.wrap (h + t.header) = h + t.header := t.wrap_of_lt (by omega)
    refine ⟨(m.allocated t (t.required request) front h rest).size h - t.header, ?_, ?_,
      ⟨t.wrap (h + t.header), request⟩, ?_, le_rfl, ?_⟩
    · rw [memSize, block, if_neg (by omega), blockHeader,
        t.sub_of_le (Nat.le_add_left _ _) (by omega),
        Nat.add_sub_cancel, if_neg (by simp [marked]), Option.map_some,
        t.sub_of_le (by omega) (by omega)]
    · omega
    · rw [memAlloc, allocates]
      rfl
    · simp only [Piece.stop]
      omega

end Pool.Tiled

variable {t : Target} {regions : List Piece}

/-- As long as no call splits a piece that does not fit, the holes and the blocks tile the
regions. -/
theorem heap_tiles (layout : Layout t 0 regions) :
    ∃ m, memInitAll t regions = some m ∧ ∀ calls, Use.Proper t calls { pool := m } →
      ∃ use, Use.run t calls { pool := m } = some use ∧ use.Tiles t regions := by
  obtain ⟨m, inits, sound⟩ := layout.init
  refine ⟨m, inits, fun calls proper => ?_⟩
  obtain ⟨use, heads, runs, sound⟩ := sound.run layout.regions_ok (Nat.zero_le 1) proper
  exact ⟨use, runs, sound.tiles layout.regions_ok⟩

def word16 : Target :=
  ⟨16, 1, true, by decide⟩

theorem word16_layout (gap : Nat) : Layout word16 gap [⟨256, 1000⟩] where
  decreasing := List.pairwise_singleton _ _
  large := by decide
  inside := by decide

theorem heap_tiles_two_calls :
    ∃ m use, memInitAll word16 [⟨256, 1000⟩] = some m ∧
      Use.run word16 [.alloc 10, .free 262] { pool := m } = some use ∧
      use.Tiles word16 [⟨256, 1000⟩] := by
  obtain ⟨m, inits, tiles⟩ := heap_tiles (word16_layout 0)
  obtain rfl := Option.some.inj inits
  obtain ⟨use, runs, tiles⟩ := tiles [.alloc 10, .free 262] (by decide +kernel)
  exact ⟨_, use, inits, runs, tiles⟩

/-- The sum that is compared with the size of the block is 65536. -/
theorem truncate_breaks_tiles :
    ∃ m use, memInitAll word16 [⟨256, 1000⟩] = some m ∧
      Use.run word16 [.allocDirty 10, .truncate 262 65520] { pool := m } = some use ∧
      word16.Rounds 10 ∧ word16.Rounds 65520 ∧ ¬ use.Tiles word16 [⟨256, 1000⟩] := by
  refine ⟨_, _, rfl, rfl, by decide, by decide, fun tiles => ?_⟩
  have covers := (tiles.covers 250).mp (by decide +kernel)
  simp [stop] at covers

/-- As long as no call splits a piece that does not fit, no two holes are adjacent, and the holes
are the regions again when all blocks were freed. -/
theorem heap_coalesces (layout : Layout t 1 regions) :
    ∃ m, memInitAll t regions = some m ∧ ∀ calls, Use.Proper t calls { pool := m } →
      ∃ use, Use.run t calls { pool := m } = some use ∧ use.Coalesced ∧
        (use.blocks = [] → use.pool.freeList.map use.pool.piece = regions.reverse) := by
  obtain ⟨m, inits, sound⟩ := layout.init
  refine ⟨m, inits, fun calls proper => ?_⟩
  obtain ⟨use, heads, runs, sound⟩ := sound.run layout.regions_ok le_rfl proper
  exact ⟨use, runs, sound.coalesced, sound.restored layout⟩

theorem heap_coalesces_all_freed :
    ∃ m use, memInitAll word16 [⟨256, 1000⟩] = some m ∧
      Use.run word16 [.allocDirty 10, .allocDirty 20, .free 262, .free 278] { pool := m } =
        some use ∧
      use.Coalesced ∧
      (use.blocks = [] → use.pool.freeList.map use.pool.piece = [⟨256, 1000⟩].reverse) := by
  obtain ⟨m, inits, coalesces⟩ := heap_coalesces (word16_layout 1)
  obtain rfl := Option.some.inj inits
  obtain ⟨use, runs, coalesced, restored⟩ :=
    coalesces [.allocDirty 10, .allocDirty 20, .free 262, .free 278] (by decide +kernel)
  exact ⟨_, use, inits, runs, coalesced, restored⟩

/-- The size of the block is computed as 0, and the region is lost. -/
theorem allocDirty_loses_region :
    ∃ m use, memInitAll word16 [⟨256, 1000⟩] = some m ∧
      Use.run word16 [.allocDirty 65530, .free 262] { pool := m } = some use ∧
      use.blocks = [] ∧ use.pool.freeList.map use.pool.piece ≠ [⟨256, 1000⟩].reverse :=
  ⟨_, _, rfl, rfl, by decide +kernel, by decide +kernel⟩

/-- A block is as it is wanted, if and only if the computation of its size does not overflow or
there is no hole for the size that was computed. -/
theorem heap_adequate_iff (layout : Layout t 0 regions) :
    ∃ m, memInitAll t regions = some m ∧ ∀ calls, Use.Proper t calls { pool := m } →
      ∃ use, Use.run t calls { pool := m } = some use ∧ ∀ request < 2 ^ t.bits,
        (Adequate t use.pool request ↔
          t.Rounds request ∨ ∀ h ∈ use.pool.freeList, use.pool.size h < t.required request) := by
  obtain ⟨m, inits, sound⟩ := layout.init
  refine ⟨m, inits, fun calls proper => ?_⟩
  obtain ⟨use, heads, runs, sound⟩ := sound.run layout.regions_ok (Nat.zero_le 1) proper
  refine ⟨use, runs, fun request _ => ?_⟩
  rcases Pool.memAllocDirty_spec sound.tiled request with
    ⟨unfit, allocates⟩ | ⟨front, h, rest, list, finds, allocates⟩
  · have adequate := sound.tiled.adequate_of_none layout.regions_ok unfit allocates
    exact iff_of_true adequate (.inr (Pool.firstFit_none unfit))
  · rw [sound.tiled.adequate_iff_of_some layout.regions_ok list finds allocates]
    refine ⟨.inl, fun either => either.resolve_right fun small => ?_⟩
    have := small h (by simp [list])
    have := Pool.firstFit_some finds
    omega

theorem heap_adequate_after_alloc :
    ∃ m use, memInitAll word16 [⟨256, 1000⟩] = some m ∧
      Use.run word16 [.allocDirty 10] { pool := m } = some use ∧
      (Adequate word16 use.pool 978 ↔ word16.Rounds 978 ∨
        ∀ h ∈ use.pool.freeList, use.pool.size h < word16.required 978) := by
  obtain ⟨m, inits, adequate⟩ := heap_adequate_iff (word16_layout 0)
  obtain rfl := Option.some.inj inits
  obtain ⟨use, runs, adequate⟩ := adequate [.allocDirty 10] (by decide +kernel)
  exact ⟨_, use, inits, runs, adequate 978 (by decide)⟩

/-- A block without room for a byte is returned for the largest request. -/
theorem allocDirty_inadequate :
    ∃ m, memInitAll word16 [⟨256, 1000⟩] = some m ∧ 65535 < 2 ^ word16.bits ∧
      ¬ Adequate word16 m 65535 := by
  refine ⟨_, rfl, by decide, ?_⟩
  rintro ⟨-, h, member, large⟩
  revert h
  decide +kernel

end Uos.Mem
