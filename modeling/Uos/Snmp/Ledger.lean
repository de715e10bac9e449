import Mathlib.Data.List.Count
import Uos.Snmp.Execute

/-!
# The ledger of a pool

Which blocks a tree holds, and how the functions on trees move blocks between the pool and the
trees: for each block the difference of its allocations and its releases is accounted for.
-/

namespace Uos

open List

namespace Asn

mutual

/-- The blocks that `asn_free` releases, in its order. -/
def blocks : Asn → List Block
  | nil | null => []
  | exception block _ | integer block _ | unsigned block _ _ | string block _ _ _
  | oid block _ _ => [block]
  | seq block _ count arr => blocksArr count.toNat arr ++ [block]

def blocksArr : Nat → List Asn → List Block
  | 0, _ | _, [] => []
  | n + 1, e :: arr => e.blocks ++ blocksArr n arr

end

mutual

theorem free_eq : ∀ (t : Asn) (pool : MemPool),
    t.free pool = { pool with log := pool.log ++ t.blocks.map .free }
  | nil, _ | null, _ => by simp [free, blocks]
  | exception _ _, _ | integer _ _, _ | unsigned _ _ _, _ | string _ _ _ _, _ | oid _ _ _, _ => rfl
  | seq _ _ count arr, pool => by
    rw [free, freeArr_eq count.toNat arr pool, blocks, MemPool.free]
    simp

theorem freeArr_eq : ∀ (n : Nat) (arr : List Asn) (pool : MemPool),
    freeArr n arr pool = { pool with log := pool.log ++ (blocksArr n arr).map .free }
  | 0, _, _ | _ + 1, [], _ => by simp [freeArr, blocksArr]
  | n + 1, e :: arr, pool => by
    rw [freeArr, free_eq e pool, freeArr_eq n arr, blocksArr]
    simp

end

theorem blocksArr_eq (n : Nat) (arr : List Asn) :
    blocksArr n arr = (arr.take n).flatMap blocks := by
  induction arr generalizing n with
  | nil => cases n <;> rfl
  | cons e arr ih =>
    cases n with
    | zero => rfl
    | succ n => rw [blocksArr, ih, take_succ_cons, flatMap_cons]

theorem freeBack_eq (arr : List Asn) (pool : MemPool) :
    ∃ released : List Block,
      freeBack arr pool = { pool with log := pool.log ++ released.map .free } ∧
      released.Perm (arr.flatMap blocks) := by
  induction arr with
  | nil => exact ⟨[], by simp [freeBack], .rfl⟩
  | cons e arr ih =>
    obtain ⟨released, same, perm⟩ := ih
    refine ⟨released ++ e.blocks, ?_, ?_⟩
    · rw [freeBack] at same ⊢
      rw [foldr_cons, same, free_eq]
      simp
    · exact perm_append_comm.trans (perm.append_left e.blocks)

end Asn

def tally (blocks : List Block) (block : Block) : Int :=
  blocks.count block

@[simp] theorem tally_nil (block : Block) : tally [] block = 0 := rfl

@[simp] theorem tally_append (blocks blocks' : List Block) (block : Block) :
    tally (blocks ++ blocks') block = tally blocks block + tally blocks' block := by
  simp [tally]

theorem tally_nonneg (blocks : List Block) (block : Block) : 0 ≤ tally blocks block :=
  Int.natCast_nonneg _

theorem tally_perm {blocks blocks' : List Block} (perm : blocks.Perm blocks') (block : Block) :
    tally blocks block = tally blocks' block := by
  rw [tally, tally, perm.count_eq]

theorem eq_nil_of_tally {blocks : List Block} (none : ∀ block, tally blocks block = 0) :
    blocks = [] := by
  rw [eq_nil_iff_forall_not_mem]
  intro block member
  have positive := count_pos_iff.mpr member
  have := none block
  rw [tally] at this
  omega

/-- Between two states of a pool each block is allocated at most once, and only new ones are; the
allocations and the releases of each block differ by what is gained. -/
structure Ledger (pool pool' : MemPool) (gain : Block → Int) : Prop where
  requests : pool.requests ≤ pool'.requests
  events : ∃ events, pool'.log = pool.log ++ events ∧
    (∀ block, (events.count (.alloc block) : Int) - events.count (.free block) = gain block) ∧
    ∀ block, events.count (.alloc block) ≤ 1 ∧
      (.alloc block ∈ events → pool.requests ≤ block ∧ ¬pool'.requests ≤ block)

section Ledger

variable {pool pool' pool'' : MemPool} {gain gain' : Block → Int}

theorem Ledger.congr (ledger : Ledger pool pool' gain) (same : ∀ block, gain' block = gain block) :
    Ledger pool pool' gain' := by
  obtain rfl : gain' = gain := funext same
  exact ledger

theorem Ledger.trans (first : Ledger pool pool' gain) (second : Ledger pool' pool'' gain') :
    Ledger pool pool'' fun block => gain block + gain' block := by
  obtain ⟨later, events, log, sums, once⟩ := first
  obtain ⟨later', events', log', sums', once'⟩ := second
  refine ⟨later.trans later', events ++ events', by rw [log', log, append_assoc], ?_, ?_⟩
  · intro block
    have := sums block
    have := sums' block
    simp only [count_append]
    omega
  · intro block
    obtain ⟨single, fresh⟩ := once block
    obtain ⟨single', fresh'⟩ := once' block
    rw [count_append, mem_append]
    constructor
    · rcases Nat.eq_zero_or_pos (events.count (.alloc block)) with none | some
      · omega
      · have := fresh (count_pos_iff.mp some)
        have absent : .alloc block ∉ events' := fun member => by
          have := fresh' member
          omega
        rw [count_eq_zero.mpr absent]
        omega
    · rintro (member | member)
      · have := fresh member
        omega
      · have := fresh' member
        omega

theorem ledger_same (pool : MemPool) : Ledger pool pool fun _ => 0 :=
  ⟨le_rfl, [], by simp⟩

theorem ledger_alloc_none (denied : pool.alloc = (none, pool')) : Ledger pool pool' fun _ => 0 := by
  rw [MemPool.alloc] at denied
  split_ifs at denied
  · cases denied
  · cases denied
    exact ⟨Nat.le_succ _, [], by simp⟩

theorem ledger_alloc_some {block : Block} (granted : pool.alloc = (some block, pool')) :
    Ledger pool pool' (tally [block]) := by
  rw [MemPool.alloc] at granted
  split_ifs at granted
  · cases granted
    refine ⟨Nat.le_succ _, [.alloc pool.requests], rfl, fun block => ?_, fun block => ⟨?_, ?_⟩⟩
    · simp [tally, count_cons]
    · exact count_le_length
    · intro member
      cases mem_singleton.mp member
      exact ⟨le_rfl, Nat.not_succ_le_self _⟩
  · cases granted

theorem ledger_release (released : List Block) :
    Ledger pool { pool with log := pool.log ++ released.map .free } fun block =>
      -tally released block := by
  refine ⟨le_rfl, released.map .free, rfl, fun block => ?_, fun block => ⟨?_, ?_⟩⟩
  · have absent : .alloc block ∉ released.map MemEvent.free := by simp
    have same : (released.map MemEvent.free).count (.free block) = released.count block :=
      count_map_of_injective _ _ (fun _ _ => MemEvent.free.inj) _
    rw [count_eq_zero.mpr absent, same, tally]
    omega
  · have absent : .alloc block ∉ released.map MemEvent.free := by simp
    rw [count_eq_zero.mpr absent]
    exact Nat.zero_le 1
  · intro member
    simp at member

theorem ledger_free (t : Asn) : Ledger pool (t.free pool) fun block => -tally t.blocks block := by
  rw [Asn.free_eq]
  exact ledger_release _

theorem ledger_freeBlock (block : Block) :
    Ledger pool (pool.free block) fun other => -tally [block] other :=
  ledger_release [block]

theorem ledger_leaf (node : Block → Asn) (leaf : ∀ block, (node block).blocks = [block])
    {result : Asn × MemPool}
    (made : result = match pool.alloc with
      | (none, pool) => (.nil, pool)
      | (some block, pool) => (node block, pool)) :
    Ledger pool result.2 (tally result.1.blocks) := by
  subst made
  split
  · rename_i denied
    exact ledger_alloc_none denied
  · rename_i block pool' granted
    rw [leaf]
    exact ledger_alloc_some granted

theorem ledger_freeBack (arr : List Asn) :
    Ledger pool (Asn.freeBack arr pool) fun block => -tally (arr.flatMap Asn.blocks) block := by
  obtain ⟨released, same, perm⟩ := Asn.freeBack_eq arr pool
  rw [same]
  exact (ledger_release released).congr fun block => by rw [tally_perm perm]

namespace Asn

theorem length_copyArr {n : Nat} {arr copied arr' : List Asn}
    (done : (copyArr n arr copied pool).1 = some arr') : arr'.length ≤ copied.length + n := by
  induction arr generalizing n copied pool with
  | nil =>
    cases n <;> cases done <;> omega
  | cons e arr ih =>
    cases n with
    | zero =>
      cases done
      omega
    | succ n =>
      rw [copyArr] at done
      split at done
      · cases done
      · have := ih done
        rw [length_append, length_singleton] at this
        omega

theorem blocksArr_all {n : Nat} {arr : List Asn} (short : arr.length ≤ n) :
    blocksArr n arr = arr.flatMap blocks := by
  rw [blocksArr_eq, take_of_length_le short]

mutual

theorem ledger_copy : ∀ (t : Asn) (pool : MemPool),
    Ledger pool (t.copy pool).2 (tally (t.copy pool).1.blocks)
  | nil, pool | null, pool => ledger_same pool
  | exception _ type, _ => ledger_leaf (exception · type) (fun _ => rfl) (by unfold copy; rfl)
  | integer _ val, _ => ledger_leaf (integer · val) (fun _ => rfl) (by unfold copy; rfl)
  | unsigned _ type val, _ => ledger_leaf (unsigned · type val) (fun _ => rfl) (by unfold copy; rfl)
  | string _ type len str, _ =>
    ledger_leaf (string · type len (str.take len.toNat)) (fun _ => rfl) (by unfold copy; rfl)
  | oid _ len id, _ => ledger_leaf (oid · len (id.take len.toNat)) (fun _ => rfl)
      (by unfold copy; rfl)
  | seq _ type count arr, pool => by
    rw [copy]
    split
    · rename_i denied
      exact ledger_alloc_none denied
    · rename_i block pool' granted
      have children := ledger_copyArr count.toNat arr [] pool'
      have short := @length_copyArr pool' count.toNat arr []
      generalize copyArr count.toNat arr [] pool' = result at children short ⊢
      obtain ⟨_ | arr', pool''⟩ := result
      · refine (((ledger_alloc_some granted).trans children).trans
          (ledger_freeBlock block)).congr fun other => ?_
        simp [blocks]
      · refine ((ledger_alloc_some granted).trans children).congr fun other => ?_
        have all : blocksArr count.toNat arr' = arr'.flatMap blocks :=
          blocksArr_all (by simpa using short rfl)
        simp [blocks, all, Int.add_comm]

theorem ledger_copyArr : ∀ (n : Nat) (arr copied : List Asn) (pool : MemPool),
    Ledger pool (copyArr n arr copied pool).2 fun block =>
      tally (((copyArr n arr copied pool).1.getD []).flatMap blocks) block -
        tally (copied.flatMap blocks) block
  | 0, _, copied, pool => by
    rw [copyArr]
    exact (ledger_same pool).congr fun block => by simp
  | _ + 1, [], copied, pool => (ledger_same pool).congr fun block => by simp [copyArr]
  | n + 1, e :: arr, copied, pool => by
    have first := ledger_copy e pool
    rw [copyArr]
    generalize e.copy pool = result at first ⊢
    obtain ⟨e', pool'⟩ := result
    have rest := ledger_copyArr n arr (copied ++ [e']) pool'
    split
    · rename_i pool' failed
      cases failed
      refine (first.trans (ledger_freeBack copied)).congr fun block => ?_
      simp [blocks]
    · rename_i present made
      cases made
      refine (first.trans rest).congr fun block => ?_
      simp only [flatMap_append, flatMap_cons, flatMap_nil, append_nil,
        tally_append]
      omega

end

end Asn

end Ledger

end Uos
