import Uos.Mem.Tiling

/-!
# The calls of the heap

What each call does on a pool that tiles its memory, and what a sequence of calls does.
-/

namespace Uos.Mem

open Function List Option

open Piece

namespace Target

variable {t : Target} {request : Nat}

/-- The size of a request with its header, rounded up to the alignment of pointers. -/
def exactSize (t : Target) (request : Nat) : Nat :=
  (request + t.header + (t.pointer - 1)) / t.pointer * t.pointer

/-- The size of the block for a request is computed without an overflow. -/
def Rounds (t : Target) (request : Nat) : Prop :=
  request + t.header + (t.pointer - 1) < 2 ^ t.bits

/-- If a piece of some size is split for a request, then no size overflows and what is left is
large enough for a hole. -/
def Fits (t : Target) (request size : Nat) : Prop :=
  t.Rounds request ∧
    (t.splittable (t.required request) ≤ size →
      t.required request + t.header + t.pointer ≤ size)

instance (t : Target) (request : Nat) : Decidable (t.Rounds request) :=
  inferInstanceAs (Decidable (_ < _))

instance (t : Target) (request size : Nat) : Decidable (t.Fits request size) :=
  inferInstanceAs (Decidable (_ ∧ _))

theorem header_le (t : Target) : t.header ≤ 3 * t.pointer := by
  rw [header]
  split <;> omega

theorem pointer_le (t : Target) : 16 * t.pointer ≤ 2 ^ t.bits := by
  rw [pointer, show (16 : Nat) = 2 ^ 4 by rfl, ← Nat.pow_add, Nat.add_comm]
  exact Nat.pow_le_pow_right (by decide) t.wide

theorem pointer_dvd_header (t : Target) : t.pointer ∣ t.header :=
  Dvd.intro_left _ rfl

theorem required_eq (rounds : t.Rounds request) :
    t.required request = t.exactSize (if request < t.pointer then t.pointer else request) := by
  have header_le := t.header_le
  have pointer_le := t.pointer_le
  have pointer_pos := t.pointer_pos
  rw [Rounds] at rounds
  simp only [required, memAlign, exactSize]
  rw [t.wrap_of_lt, t.wrap_of_lt, Nat.add_sub_assoc pointer_pos]
  · split <;> omega
  · rw [t.wrap_of_lt]
    · split <;> omega
    · split <;> omega

theorem exactSize_le_required (rounds : t.Rounds request) :
    t.exactSize request ≤ t.required request := by
  rw [required_eq rounds, exactSize, exactSize]
  apply Nat.mul_le_mul_right
  apply Nat.div_le_div_right
  split <;> omega

theorem exactSize_of_not_rounds (overflows : ¬ t.Rounds request) :
    2 ^ t.bits ≤ t.exactSize request := by
  have dvd : t.pointer ∣ 2 ^ t.bits := Nat.pow_dvd_pow 2 (by have := t.wide; omega)
  obtain ⟨k, whole⟩ := dvd
  rw [Rounds, Nat.not_lt] at overflows
  rw [exactSize]
  rw [whole, Nat.mul_comm] at overflows ⊢
  apply Nat.mul_le_mul_right
  exact (Nat.le_div_iff_mul_le t.pointer_pos).mpr overflows

theorem required_of_small (small : request < t.pointer) :
    t.required request = t.header + t.pointer := by
  have header_le := t.header_le
  have pointer_le := t.pointer_le
  have pointer_pos := t.pointer_pos
  obtain ⟨k, header⟩ := t.pointer_dvd_header
  have rounds : t.Rounds request := by
    rw [Rounds]
    omega
  have split : t.pointer + t.header + (t.pointer - 1) = t.pointer - 1 + t.pointer * (k + 1) := by
    rw [header, Nat.mul_add_one]
    omega
  rw [required_eq rounds, if_pos small, exactSize, split, Nat.add_mul_div_left _ _ pointer_pos,
    Nat.div_eq_of_lt (by omega), Nat.zero_add, header, Nat.mul_comm, Nat.mul_add_one]

theorem required_le (rounds : t.Rounds request) :
    t.header + t.pointer ≤ t.required request ∧ request + t.header ≤ t.required request := by
  have pointer_pos := t.pointer_pos
  have up (x : Nat) : x ≤ (x + (t.pointer - 1)) / t.pointer * t.pointer := by
    have whole := Nat.div_add_mod (x + (t.pointer - 1)) t.pointer
    have part := Nat.mod_lt (x + (t.pointer - 1)) pointer_pos
    rw [Nat.mul_comm] at whole
    omega
  rw [required_eq rounds, exactSize]
  have := up ((if request < t.pointer then t.pointer else request) + t.header)
  split at this <;> rename_i small
  · rw [if_pos small]
    omega
  · rw [if_neg small]
    omega

end Target

namespace Pool

variable {t : Target} {gap : Nat} {regions : List Piece} {m : Pool} {heads front rest : List Nat}
  {h request : Nat}

def firstFit (t : Target) (m : Pool) (request : Nat) : Option Nat :=
  m.freeList.find? fun h => t.required request ≤ m.size h

theorem firstFit_some (finds : m.firstFit t request = some h) : t.required request ≤ m.size h :=
  of_decide_eq_true (List.find?_some (p := fun h => t.required request ≤ m.size h) finds)

theorem firstFit_none (unfit : m.firstFit t request = none) :
    ∀ h ∈ m.freeList, m.size h < t.required request := by
  simpa [firstFit] using unfit

variable {required : Nat}

theorem scan_spec {list : List Nat} (holes : ∀ h ∈ list, m.magic h = .hole) :
    list.find? (fun h => required ≤ m.size h) = none ∧ scan t m required list = some (list, []) ∨
      ∃ front h rest, list = front ++ h :: rest ∧
        list.find? (fun h => required ≤ m.size h) = some h ∧
        scan t m required list = some (front, h :: rest) := by
  induction list with
  | nil => exact .inl ⟨rfl, rfl⟩
  | cons h rest ih =>
    obtain ⟨first, holes⟩ := forall_mem_cons.mp holes
    rw [scan, if_neg (by simp [first])]
    split
    · rename_i enough
      exact .inr ⟨[], h, rest, rfl, by simp [enough], rfl⟩
    · rename_i small
      rcases ih holes with ⟨none_found, scans⟩ | ⟨front, found, others, list, finds, scans⟩
      · exact .inl ⟨by simp [small, none_found], by rw [scans]; rfl⟩
      · refine .inr ⟨h :: front, found, others, ?_, ?_, ?_⟩
        · rw [list, cons_append]
        · simp [small, finds]
        · rw [scans]
          rfl

/-- The pool when the hole `h` was given away. -/
def allocated (t : Target) (m : Pool) (required : Nat) (front : List Nat) (h : Nat)
    (rest : List Nat) : Pool :=
  let m := (m.split t required front h rest).setMagic h .block
  { m with freeSize := t.sub m.freeSize (m.size h) }

theorem memAllocDirty_spec (tiled : m.Tiled t gap regions heads) (request : Nat) :
    m.firstFit t request = none ∧ m.memAllocDirty t request = some (none, m) ∨
      ∃ front h rest, m.freeList = front ++ h :: rest ∧ m.firstFit t request = some h ∧
        m.memAllocDirty t request =
          some (some (t.wrap (h + t.header)),
            m.allocated t (t.required request) front h rest) := by
  rcases @scan_spec t m (t.required request) _ tiled.holes with
    ⟨none_found, scans⟩ | ⟨front, h, rest, list, finds, scans⟩
  · refine .inl ⟨none_found, ?_⟩
    simp only [memAllocDirty, scans, bind_eq_bind, bind_some]
  · refine .inr ⟨front, h, rest, list, finds, ?_⟩
    simp only [memAllocDirty, scans, bind_eq_bind, bind_some]
    rfl

theorem allocated_of_split (inside : h + m.size h < 2 ^ t.bits) (less : required < m.size h)
    (splits : t.splittable required ≤ m.size h) :
    m.allocated t required front h rest =
      { ((m.cut h required).setMagic (h + required) .hole).setMagic h .block with
        freeList := front ++ (h + required) :: rest
        freeSize := t.sub m.freeSize required } := by
  have size : ((m.cut h required).setMagic (h + required) .hole).size h = required :=
    m.cut_size_self h required
  simp only [allocated, split, if_pos splits, t.wrap_of_lt (show h + required < _ by omega),
    t.sub_of_le less.le (show m.size h < _ by omega)]
  exact congrArg (fun size => { ((m.cut h required).setMagic (h + required) .hole).setMagic h .block
    with freeList := front ++ (h + required) :: rest, freeSize := t.sub m.freeSize size }) size

theorem allocated_of_whole (whole : ¬ t.splittable required ≤ m.size h) :
    m.allocated t required front h rest =
      { m.setMagic h .block with
        freeList := front ++ rest
        freeSize := t.sub m.freeSize (m.size h) } := by
  simp only [allocated, split, if_neg whole]
  rfl

theorem allocated_header (enough : required ≤ m.size h) :
    required ≤ (m.allocated t required front h rest).size h ∧
      (m.allocated t required front h rest).size h ≤ m.size h ∧
      (m.allocated t required front h rest).magic h = .block := by
  simp only [allocated, split]
  split
  · simp only [setMagic_size, setSize_self]
    exact ⟨le_rfl, enough, update_self ..⟩
  · exact ⟨enough, le_rfl, update_self ..⟩

theorem Tiled.allocated (ok : Regions t regions) (tiled : m.Tiled t gap regions heads)
    (list : m.freeList = front ++ h :: rest) (enough : t.required request ≤ m.size h)
    (fits : t.Fits request (m.size h)) :
    (m.allocated t (t.required request) front h rest).Tiled t gap regions (h :: heads) ∧
      ∀ x ∈ heads, (m.allocated t (t.required request) front h rest).size x = m.size x ∧
        (m.allocated t (t.required request) front h rest).magic x = m.magic x := by
  have pointer_pos := t.pointer_pos
  have member : h ∈ m.freeList := by simp [list]
  have inside := (tiled.inside ok h (mem_append_left _ member)).right
  have large := t.required_le fits.left
  have apart : ∀ x ∈ heads, x ≠ h := fun x found =>
    ((nodup_append.mp (tiled.nodup ok)).right.right h member x found).symm
  rcases Nat.lt_or_ge (m.size h) (t.splittable (t.required request)) with whole | splits
  · rw [allocated_of_whole (Nat.not_le.mpr whole)]
    refine ⟨tiled.take ok list, fun x found => ⟨rfl, ?_⟩⟩
    exact update_of_ne (apart x found) ..
  · have room := fits.right splits
    rw [allocated_of_split inside (by omega) splits]
    have same : (h :: (front ++ rest ++ heads)).Perm (m.freeList ++ heads) := by
      rw [list, append_assoc, append_assoc, cons_append]
      exact perm_middle.symm
    have kept := @cut_others _ _ _ _ _ _ (t.required request) _ ok tiled same (by omega)
    refine ⟨tiled.carve ok list large.left room, fun x found => ?_⟩
    have other := kept x (by simp [found])
    refine ⟨other.right, ?_⟩
    have magic :
        Function.update (Function.update m.magic (h + t.required request) .hole) h .block x =
        m.magic x := by
      rw [update_of_ne (apart x found), update_of_ne other.left]
    exact magic

end Pool

namespace Use

variable {t : Target} {gap : Nat} {regions : List Piece} {use use' : Use} {heads : List Nat}
  {h block request : Nat}

/-- The blocks of the user are those behind the headers at `heads`. -/
structure Sound (t : Target) (gap : Nat) (regions : List Piece) (use : Use) (heads : List Nat) :
    Prop where
  tiled : use.pool.Tiled t gap regions heads
  marked : ∀ h ∈ heads, use.pool.magic h = .block
  blocks : use.blocks.Perm (heads.map (· + t.header))

end Use

def Call.Valid (use : Use) : Call → Prop
  | alloc _ | allocDirty _ => True
  | free block | realloc block _ | truncate block _ => block ∈ use.blocks

/-- Whether the piece that a call splits, if there is one, fits what is asked for. -/
def Call.Fits (t : Target) (use : Use) : Call → Prop
  | alloc request | allocDirty request =>
    ∀ h ∈ use.pool.firstFit t request, t.Fits request (use.pool.size h)
  | free _ => True
  | realloc block request =>
    use.pool.size (block - t.header) - t.header < request →
      ∀ h ∈ use.pool.firstFit t request, t.Fits request (use.pool.size h)
  | truncate block request =>
    t.splittable (t.required request) ≤ use.pool.size (block - t.header) →
      t.Fits request (use.pool.size (block - t.header))

instance (use : Use) : (call : Call) → Decidable (call.Valid use)
  | .alloc _ | .allocDirty _ => isTrue trivial
  | .free block | .realloc block _ | .truncate block _ =>
    inferInstanceAs (Decidable (block ∈ use.blocks))

instance (t : Target) (use : Use) : (call : Call) → Decidable (call.Fits t use)
  | .alloc request | .allocDirty request =>
    inferInstanceAs (Decidable
      (∀ h ∈ use.pool.firstFit t request, t.Fits request (use.pool.size h)))
  | .free _ => isTrue trivial
  | .realloc block request =>
    inferInstanceAs (Decidable (use.pool.size (block - t.header) - t.header < request →
      ∀ h ∈ use.pool.firstFit t request, t.Fits request (use.pool.size h)))
  | .truncate block request =>
    inferInstanceAs (Decidable
      (t.splittable (t.required request) ≤ use.pool.size (block - t.header) →
        t.Fits request (use.pool.size (block - t.header))))

namespace Use

variable {t : Target} {gap : Nat} {regions : List Piece} {use use' : Use} {heads : List Nat}
  {h block request : Nat}

theorem Sound.member (sound : use.Sound t gap regions heads) (owned : block ∈ use.blocks) :
    ∃ h ∈ heads, block = h + t.header := by
  obtain ⟨h, member, equal⟩ := List.mem_map.mp (sound.blocks.subset owned)
  exact ⟨h, member, equal.symm⟩

theorem Sound.blockHeader (ok : Regions t regions) (sound : use.Sound t gap regions heads)
    (member : h ∈ heads) :
    h + t.header ≠ 0 ∧ use.pool.blockHeader t (h + t.header) = some h := by
  have inside := sound.tiled.inside ok h (mem_append_right _ member)
  have large := sound.tiled.large h (mem_append_right _ member)
  refine ⟨by omega, ?_⟩
  rw [Pool.blockHeader, t.sub_of_le (Nat.le_add_left _ _) (by omega), Nat.add_sub_cancel,
    if_neg (by simp [sound.marked h member])]

/-- The step of `mem_alloc_dirty`. -/
theorem Sound.allocDirty (ok : Regions t regions) (sound : use.Sound t gap regions heads)
    (fits : (Call.allocDirty request).Fits t use) :
    ∃ p pool heads', use.pool.memAllocDirty t request = some (p, pool) ∧
      ({ pool, blocks := p.toList ++ use.blocks } : Use).Sound t gap regions heads' := by
  rcases Pool.memAllocDirty_spec sound.tiled request with
    ⟨-, allocates⟩ | ⟨front, h, rest, list, finds, allocates⟩
  · exact ⟨none, use.pool, heads, allocates, sound⟩
  · have member : h ∈ use.pool.freeList := by simp [list]
    have inside := (sound.tiled.inside ok h (mem_append_left _ member)).right
    have large := sound.tiled.large h (mem_append_left _ member)
    have enough := Pool.firstFit_some finds
    obtain ⟨tiled, others⟩ := sound.tiled.allocated ok list enough (fits h finds)
    obtain ⟨-, -, marked⟩ := @Pool.allocated_header t use.pool front rest _ _ enough
    refine ⟨_, _, h :: heads, allocates, tiled, ?_, ?_⟩
    · rw [forall_mem_cons]
      refine ⟨marked, fun x found => ?_⟩
      exact (others x found).right.trans (sound.marked x found)
    · rw [t.wrap_of_lt (by omega), map_cons]
      exact sound.blocks.cons _

/-- The step of `mem_alloc`. -/
theorem Sound.alloc (ok : Regions t regions) (sound : use.Sound t gap regions heads)
    (fits : (Call.allocDirty request).Fits t use) :
    ∃ p pool heads', use.pool.memAlloc t request = some (p, pool) ∧
      ({ pool, blocks := (p.map Prod.fst).toList ++ use.blocks } : Use).Sound t gap regions
        heads' := by
  obtain ⟨p, pool, heads', allocates, sound⟩ := sound.allocDirty ok fits
  refine ⟨p.map fun p => (p, ⟨p, request⟩), pool, heads', ?_, ?_⟩
  · rw [Pool.memAlloc, allocates]
    rfl
  · rw [Option.map_map, show Prod.fst ∘ (fun p => (p, (⟨p, request⟩ : Piece))) = id from rfl,
      Option.map_id_fun, id_eq]
    exact sound

theorem Sound.release (ok : Regions t regions) (small : gap ≤ 1)
    (sound : use.Sound t gap regions heads) (member : h ∈ heads) :
    ∃ pool, use.pool.makeHoleLocked t h = some pool ∧
      ({ pool, blocks := use.blocks.erase (h + t.header) } : Use).Sound t gap regions
        (heads.erase h) := by
  have front := perm_cons_erase member
  obtain ⟨pool, makes, tiled, others⟩ := (sound.tiled.perm front.symm).release ok small
  refine ⟨pool, makes, tiled, fun x found => ?_, ?_⟩
  · exact (others x found).right.trans (sound.marked x (mem_of_mem_erase found))
  · rw [map_erase (add_left_injective _)]
    exact sound.blocks.erase _

/-- The step of `mem_free`. -/
theorem Sound.free (ok : Regions t regions) (small : gap ≤ 1)
    (sound : use.Sound t gap regions heads) (owned : block ∈ use.blocks) :
    ∃ pool heads', use.pool.memFree t block = some pool ∧
      ({ pool, blocks := use.blocks.erase block } : Use).Sound t gap regions heads' := by
  obtain ⟨h, member, rfl⟩ := sound.member owned
  obtain ⟨given, header⟩ := sound.blockHeader ok member
  obtain ⟨pool, makes, sound⟩ := sound.release ok small member
  refine ⟨pool, heads.erase h, ?_, sound⟩
  rw [Pool.memFree, if_neg given, header]
  exact makes

/-- The step of `mem_realloc`. -/
theorem Sound.realloc (ok : Regions t regions) (small : gap ≤ 1)
    (sound : use.Sound t gap regions heads) (owned : block ∈ use.blocks)
    (fits : (Call.realloc block request).Fits t use) :
    ∃ p pool heads', use.pool.memRealloc t block request = some (p, pool) ∧
      ({ pool, blocks := p.toList ++ use.blocks.erase block } : Use).Sound t gap regions
        heads' := by
  obtain ⟨h, member, rfl⟩ := sound.member owned
  obtain ⟨given, header⟩ := sound.blockHeader ok member
  have inside := sound.tiled.inside ok h (mem_append_right _ member)
  have large := sound.tiled.large h (mem_append_right _ member)
  have old_size : t.sub (use.pool.size h) t.header = use.pool.size h - t.header :=
    t.sub_of_le (by omega) (by omega)
  simp only [Call.Fits, Nat.add_sub_cancel] at fits
  simp only [Pool.memRealloc, if_neg given, header, bind_eq_bind, bind_some, old_size]
  split
  · refine ⟨some (h + t.header), use.pool, heads, rfl, sound.tiled, sound.marked, ?_⟩
    exact (perm_cons_erase owned).symm.trans sound.blocks
  · rename_i more
    obtain ⟨p, pool, heads', allocates, sound'⟩ := sound.alloc ok (fits (Nat.not_le.mp more))
    have owned' : h + t.header ∈ (p.map Prod.fst).toList ++ use.blocks :=
      mem_append_right _ owned
    obtain ⟨x, member', equal⟩ := sound'.member owned'
    obtain rfl : h = x := Nat.add_right_cancel equal
    obtain ⟨pool', makes, released⟩ := sound'.release ok small member'
    rw [allocates, bind_some, makes]
    refine ⟨p.map Prod.fst, pool', _, rfl, released.tiled, released.marked, ?_⟩
    refine .trans ?_ released.blocks
    have kept := perm_cons_erase owned'
    have moved := (perm_cons_erase owned).append_left (p.map Prod.fst).toList
    exact ((perm_middle.symm.trans moved.symm).trans kept).cons_inv

/-- The step of `mem_truncate`. -/
theorem Sound.truncate (ok : Regions t regions) (small : gap ≤ 1)
    (sound : use.Sound t gap regions heads) (owned : block ∈ use.blocks)
    (fits : (Call.truncate block request).Fits t use) :
    ∃ pool heads', use.pool.memTruncate t block request = some pool ∧
      ({ use with pool } : Use).Sound t gap regions heads' := by
  obtain ⟨h, member, rfl⟩ := sound.member owned
  obtain ⟨given, header⟩ := sound.blockHeader ok member
  have inside := sound.tiled.inside ok h (mem_append_right _ member)
  simp only [Call.Fits, Nat.add_sub_cancel] at fits
  simp only [Pool.memTruncate, if_neg given, header, bind_eq_bind, bind_some]
  split
  · rename_i splits
    obtain ⟨rounds, room⟩ := fits splits
    have large := t.required_le rounds
    have room := room splits
    rw [t.wrap_of_lt (by omega), t.sub_of_le (by omega) (by omega)]
    have front := perm_cons_erase member
    have tiled := (sound.tiled.perm front.symm).split ok large.left room
    obtain ⟨pool, makes, tiled, others⟩ := tiled.release ok small
    refine ⟨pool, h :: heads.erase h, makes, tiled, fun x found => ?_, ?_⟩
    · rw [(others x found).right]
      exact sound.marked x (front.symm.subset found)
    · exact sound.blocks.trans (front.map _)
  · exact ⟨use.pool, heads, rfl, sound⟩

theorem Sound.call {call : Call} (ok : Regions t regions) (small : gap ≤ 1)
    (sound : use.Sound t gap regions heads) (valid : call.Valid use) (fits : call.Fits t use) :
    ∃ use' heads', use.call t call = some use' ∧ use'.Sound t gap regions heads' := by
  cases call with
  | alloc request =>
    obtain ⟨p, pool, heads', calls, sound⟩ := sound.alloc ok fits
    exact ⟨_, heads', by rw [Use.call, calls]; rfl, sound⟩
  | allocDirty request =>
    obtain ⟨p, pool, heads', calls, sound⟩ := sound.allocDirty ok fits
    exact ⟨_, heads', by rw [Use.call, calls]; rfl, sound⟩
  | free block =>
    obtain ⟨pool, heads', calls, sound⟩ := sound.free ok small valid
    exact ⟨_, heads', by rw [Use.call, calls]; rfl, sound⟩
  | realloc block request =>
    obtain ⟨p, pool, heads', calls, sound⟩ := sound.realloc ok small valid fits
    exact ⟨_, heads', by rw [Use.call, calls]; rfl, sound⟩
  | truncate block request =>
    obtain ⟨pool, heads', calls, sound⟩ := sound.truncate ok small valid fits
    exact ⟨_, heads', by rw [Use.call, calls]; rfl, sound⟩

/-- Whether every call of a sequence is applied to blocks of the user and fits. -/
def Proper (t : Target) : List Call → Use → Prop
  | [], _ => True
  | call :: calls, use =>
    call.Valid use ∧ call.Fits t use ∧ ∀ use' ∈ use.call t call, Proper t calls use'

instance decidableProper (t : Target) :
    (calls : List Call) → (use : Use) → Decidable (Proper t calls use)
  | [], _ => isTrue trivial
  | call :: calls, use =>
    have (use' : Use) : Decidable (Proper t calls use') := decidableProper t calls use'
    inferInstanceAs (Decidable
      (call.Valid use ∧ call.Fits t use ∧ ∀ use' ∈ use.call t call, Proper t calls use'))

theorem Sound.run {calls : List Call} (ok : Regions t regions) (small : gap ≤ 1)
    (sound : use.Sound t gap regions heads) (proper : Proper t calls use) :
    ∃ use' heads', use.run t calls = some use' ∧ use'.Sound t gap regions heads' := by
  induction calls generalizing use heads with
  | nil => exact ⟨use, heads, rfl, sound⟩
  | cons call calls ih =>
    obtain ⟨valid, fits, rest⟩ := proper
    obtain ⟨next, heads', calls_next, sound⟩ := sound.call ok small valid fits
    obtain ⟨use', heads'', runs, sound⟩ := ih sound (rest next calls_next)
    refine ⟨use', heads'', ?_, sound⟩
    rw [Use.run, foldlM_cons, calls_next]
    exact runs

end Use
end Uos.Mem
