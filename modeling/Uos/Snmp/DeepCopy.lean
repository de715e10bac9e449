import Mathlib.Data.List.Nodup
import Uos.Library.Traced
import Uos.Mem.Heap
import Uos.Snmp.Leaks

/-!
# Deep copies

`asn_copy` with the sizes for which it asks and the bytes that it writes, on trees that `asn_parse`
has made.
-/

namespace Uos

open List

theorem Ledger.gained {pool pool' : MemPool} {gain : Block → Int} (ledger : Ledger pool pool' gain)
    {block : Block} (positive : 0 < gain block) :
    gain block = 1 ∧ pool.requests ≤ block ∧ block < pool'.requests := by
  obtain ⟨-, events, -, sums, once⟩ := ledger
  have sum := sums block
  obtain ⟨single, fresh⟩ := once block
  have member : .alloc block ∈ events := by
    rw [← count_pos_iff]
    omega
  obtain ⟨after, before⟩ := fresh member
  exact ⟨by omega, after, not_le.mp before⟩

namespace Asn

/-- Bytes that are written into a block, for which a number of bytes was asked. -/
structure BlockWrite where
  block : Block
  size : Nat
  offset : Nat
  length : Nat

/-- `sizeof (asn_t)` -/
def sizeofAsn : Nat := 8

/-- `SIZEOF_STRING` -/
def sizeofString (n : Nat) : Nat :=
  sizeofAsn + n - 1

/-- `SIZEOF_OID` -/
def sizeofOid (n : Nat) : Nat :=
  sizeofAsn + 2 * n - 2

/-- `SIZEOF_SEQUENCE` -/
def sizeofSequence (n : Nat) : Nat :=
  sizeofAsn + 4 * n - 4

/-- The machine of the pool: pointers and sizes have 32 bits. -/
def machine (memDebug : Bool) : Mem.Target where
  bits := 32
  log := 2
  debug := memDebug
  wide := by decide

/-- The bytes of the block that `mem_alloc` makes for a request, if it splits the hole. -/
def leastRoom (memDebug : Bool) (size : Nat) : Nat :=
  (machine memDebug).required size - (machine memDebug).header

def copyLeaf (pool : MemPool) (size : Nat) (node : Block → Asn) :
    Traced BlockWrite (Asn × MemPool) :=
  match pool.alloc with
  | (none, pool) => pure (nil, pool)
  | (some block, pool) => do
    .emit { block, size, offset := 0, length := size }
    pure (node block, pool)

mutual

/-- `asn_copy`: it has no result where `mem_pool` halts the system, which it does with `MEM_DEBUG`
for `&asn_null`, as this is no block of a pool. -/
def asnCopy (memDebug : Bool) : Asn → MemPool → Traced BlockWrite (Asn × MemPool)
  | nil, pool => pure (nil, pool)
  | null, pool => if memDebug then .ofOption none else pure (null, pool)
  | exception _ type, pool => copyLeaf pool sizeofAsn (exception · type)
  | integer _ val, pool => copyLeaf pool sizeofAsn (integer · val)
  | unsigned _ type val, pool => copyLeaf pool sizeofAsn (unsigned · type val)
  | string _ type len str, pool =>
    copyLeaf pool (sizeofString (len.toNat + 1)) (string · type len (str.take len.toNat))
  | oid _ len id, pool => copyLeaf pool (sizeofOid len.toNat) (oid · len (id.take len.toNat))
  | seq _ type count arr, pool =>
    match pool.alloc with
    | (none, pool) => pure (nil, pool)
    | (some block, pool) => do
      .emit { block, size := sizeofSequence count.toNat, offset := 0, length := sizeofAsn }
      let (copies, pool) ←
        asnCopyArr memDebug block (sizeofSequence count.toNat) count.toNat arr [] pool
      match copies with
      | none => pure (nil, pool.free block)
      | some arr => pure (seq block type count arr, pool)

/-- The loop of `asn_copy` over the nodes of a sequence. -/
def asnCopyArr (memDebug : Bool) (block : Block) (size : Nat) : Nat → List Asn → List Asn →
    MemPool → Traced BlockWrite (Option (List Asn) × MemPool)
  | 0, _, copied, pool | _, [], copied, pool => pure (some copied, pool)
  | n + 1, e :: arr, copied, pool => do
    let (e, pool) ← asnCopy memDebug e pool
    match e with
    | nil => pure (none, freeBack copied pool)
    | e => do
      .emit { block, size, offset := 4 + 4 * copied.length, length := 4 }
      asnCopyArr memDebug block size n arr (copied ++ [e]) pool

end

mutual

def nodes : Asn → List Asn
  | seq block type count arr => seq block type count arr :: nodesArr count.toNat arr
  | t => [t]

def nodesArr : Nat → List Asn → List Asn
  | 0, _ | _, [] => []
  | n + 1, e :: arr => e.nodes ++ nodesArr n arr

end

/-- A request between two states of a pool was denied. -/
def Denied (pool pool' : MemPool) : Prop :=
  ∃ request, pool.requests ≤ request ∧ request < pool'.requests ∧ pool.grants request = false

/-- Bytes that are written into a block that was granted between two states of a pool; where a hole
was not split, the block has some slack. -/
def Inside (memDebug : Bool) (slack : Block → Nat) (pool pool' : MemPool) (write : BlockWrite) :
    Prop :=
  pool.requests ≤ write.block ∧ write.block < pool'.requests ∧ pool.grants write.block = true ∧
    write.offset + write.length ≤ leastRoom memDebug write.size + slack write.block

/-- `asn_copy` returns either a tree of the same value, of new blocks that stand in it once and are
all that it keeps, or, after a request was denied, a null pointer with nothing kept; and it writes
into its blocks only. -/
def DeepCopy (memDebug : Bool) (slack : Block → Nat) (t : Asn) (pool : MemPool) : Prop :=
  ∃ b pool', (asnCopy memDebug t pool).result = some (b, pool') ∧
    (b = nil ↔ Denied pool pool') ∧
    (b ≠ nil → b.value = t.value ∧ b.blocks.Nodup ∧ ∀ block ∈ b.blocks, block ∉ t.blocks) ∧
    Ledger pool pool' (tally b.blocks) ∧
    ∀ write ∈ (asnCopy memDebug t pool).events, Inside memDebug slack pool pool' write

variable {memDebug : Bool} {pool pool' : MemPool} {t e : Asn}

theorem le_leastRoom {size : Nat} (fits : size ≤ 2 ^ 20) : size ≤ leastRoom memDebug size := by
  obtain ⟨request, larger, small, required⟩ : ∃ request, size ≤ request ∧ request ≤ 2 ^ 20 ∧
      (machine memDebug).required size =
        (machine memDebug).memAlign
          ((machine memDebug).wrap (request + (machine memDebug).header)) := by
    rcases lt_or_ge size (machine memDebug).pointer with few | many
    · exact ⟨(machine memDebug).pointer, few.le, Nat.le_of_ble_eq_true rfl,
        by rw [Mem.Target.required, if_pos few]⟩
    · exact ⟨size, le_rfl, fits, by rw [Mem.Target.required, if_neg (not_lt.mpr many)]⟩
  rw [leastRoom, required]
  cases memDebug <;>
    simp [Mem.Target.memAlign, Mem.Target.wrap, Mem.Target.header, Mem.Target.pointer, machine] <;>
    omega

theorem string_fits (len : UShort) : sizeofString (len.toNat + 1) ≤ 2 ^ 20 := by
  have := len.isLt
  rw [sizeofString, sizeofAsn]
  omega

theorem oid_fits (len : UShort) : sizeofOid len.toNat ≤ 2 ^ 20 := by
  have := len.isLt
  rw [sizeofOid, sizeofAsn]
  omega

theorem sequence_fits (count : UShort) : sizeofSequence count.toNat ≤ 2 ^ 20 := by
  have := count.isLt
  rw [sizeofSequence, sizeofAsn]
  omega

theorem leastRoom_empty : leastRoom memDebug (sizeofSequence 0) = 4 := by
  cases memDebug <;> decide

theorem result_copyLeaf {size : Nat} {node : Block → Asn} :
    (copyLeaf pool size node).result = some (match pool.alloc with
      | (none, pool) => (nil, pool)
      | (some block, pool) => (node block, pool)) := by
  rw [copyLeaf]
  split <;> rfl

theorem nodesArr_cons {n : Nat} {arr : List Asn} (absent : t ∉ nodesArr (n + 1) (e :: arr)) :
    t ∉ e.nodes ∧ t ∉ nodesArr n arr := by
  rwa [nodesArr, mem_append, not_or] at absent

theorem nodes_seq {block : Block} {type : AsnConstructed} {count : UShort} {arr : List Asn}
    (absent : t ∉ (seq block type count arr).nodes) : t ∉ nodesArr count.toNat arr := by
  rw [nodes, mem_cons, not_or] at absent
  exact absent.2

mutual

theorem result_asnCopy : ∀ (t : Asn) (pool : MemPool), (memDebug = true → null ∉ t.nodes) →
    (asnCopy memDebug t pool).result = some (t.copy pool)
  | nil, _, _ => rfl
  | null, pool, runs => by
    cases memDebug with
    | false => rfl
    | true => exact absurd mem_cons_self (runs rfl)
  | exception _ _, _, _ | integer _ _, _, _ | unsigned _ _ _, _, _ | string _ _ _ _, _, _
  | oid _ _ _, _, _ => by
    rw [asnCopy, copy]
    exact result_copyLeaf
  | seq _ type count arr, pool, runs => by
    rw [asnCopy, copy]
    generalize pool.alloc = answer
    obtain ⟨_ | block, pool'⟩ := answer
    · rfl
    · dsimp only
      rw [Traced.result_emit_bind, Traced.result_bind,
        result_asnCopyArr _ _ _ _ _ _ fun debug => nodes_seq (runs debug)]
      generalize copyArr count.toNat arr [] pool' = copies
      obtain ⟨_ | arr', pool''⟩ := copies <;> rfl

theorem result_asnCopyArr (block : Block) (size : Nat) : ∀ (n : Nat) (arr copied : List Asn)
    (pool : MemPool), (memDebug = true → null ∉ nodesArr n arr) →
    (asnCopyArr memDebug block size n arr copied pool).result = some (copyArr n arr copied pool)
  | 0, _, _, _, _ => by
    rw [asnCopyArr, copyArr]
    rfl
  | _ + 1, [], _, _, _ => rfl
  | n + 1, e :: arr, copied, pool, runs => by
    rw [asnCopyArr, copyArr, Traced.result_bind,
      result_asnCopy e pool fun debug => (nodesArr_cons (runs debug)).1]
    dsimp only [Option.bind_some]
    generalize e.copy pool = result
    obtain ⟨e', pool'⟩ := result
    have rest := result_asnCopyArr block size n arr (copied ++ [e']) pool'
      fun debug => (nodesArr_cons (runs debug)).2
    cases e' <;> first | rfl | exact rest

end

theorem values_all {n : Nat} {arr : List Asn} (short : arr.length ≤ n) :
    values n arr = arr.map value := by
  induction arr generalizing n with
  | nil => cases n <;> rfl
  | cons e arr ih =>
    cases n with
    | zero => cases short
    | succ n => rw [values, map_cons, ih (Nat.le_of_succ_le_succ short)]

mutual

theorem value_copy : ∀ (t : Asn) (pool : MemPool), (t.copy pool).1 ≠ nil →
    (t.copy pool).1.value = t.value
  | nil, _, _ | null, _, _ => rfl
  | exception _ _, pool, present | integer _ _, pool, present | unsigned _ _ _, pool, present
  | string _ _ _ _, pool, present | oid _ _ _, pool, present => by
    rw [copy] at present ⊢
    generalize pool.alloc = answer at present ⊢
    obtain ⟨_ | block, pool'⟩ := answer
    · exact absurd rfl present
    · simp [value]
  | seq _ type count arr, pool, present => by
    rw [copy] at present ⊢
    generalize pool.alloc = answer at present ⊢
    obtain ⟨_ | block, pool'⟩ := answer
    · exact absurd rfl present
    · dsimp only at present ⊢
      have children := @value_copyArr count.toNat arr [] pool'
      have short := @length_copyArr pool' count.toNat arr []
      generalize copyArr count.toNat arr [] pool' = copies at present children short ⊢
      obtain ⟨_ | arr', pool''⟩ := copies
      · exact absurd rfl present
      · have few : arr'.length ≤ count.toNat := by simpa using short rfl
        have same : arr'.map value = values count.toNat arr := by simpa using children rfl
        simp only [value]
        rw [values_all few, same]

theorem value_copyArr : ∀ {n : Nat} {arr copied : List Asn} {pool : MemPool} {arr' : List Asn},
    (copyArr n arr copied pool).1 = some arr' →
      arr'.map value = copied.map value ++ values n arr
  | 0, _, _, _, _, done => by
    rw [copyArr] at done
    cases done
    simp [values]
  | _ + 1, [], _, _, _, done => by
    cases done
    simp [values]
  | n + 1, e :: arr, copied, pool, arr', done => by
    rw [copyArr] at done
    have first := value_copy e pool
    generalize e.copy pool = result at done first
    obtain ⟨e', pool'⟩ := result
    split at done
    · cases done
    · rename_i present made
      cases made
      rw [value_copyArr done, values, map_append, append_assoc]
      rw [← first present]
      rfl

end

/-- The requests between two states of a pool, one of which was denied under some condition. -/
structure Spent (pool pool' : MemPool) (condition : Prop) : Prop where
  grants : pool'.grants = pool.grants
  requests : pool.requests ≤ pool'.requests
  denied : Denied pool pool' ↔ condition

section Spent

variable {pool'' : MemPool} {condition condition' : Prop}

theorem Spent.congr (spent : Spent pool pool' condition) (iff : condition ↔ condition') :
    Spent pool pool' condition' := by
  rwa [← propext iff]

theorem Spent.trans (first : Spent pool pool' condition) (second : Spent pool' pool'' condition') :
    Spent pool pool'' (condition ∨ condition') := by
  obtain ⟨grants, requests, denied⟩ := first
  obtain ⟨grants', requests', denied'⟩ := second
  refine ⟨grants'.trans grants, requests.trans requests', ?_⟩
  rw [← denied, ← denied', Denied, Denied, Denied, grants]
  constructor
  · rintro ⟨request, after, before, refused⟩
    rcases lt_or_ge request pool'.requests with early | late
    · exact .inl ⟨request, after, early, refused⟩
    · exact .inr ⟨request, late, before, refused⟩
  · rintro (⟨request, after, before, refused⟩ | ⟨request, after, before, refused⟩)
    · exact ⟨request, after, before.trans_le requests', refused⟩
    · exact ⟨request, requests.trans after, before, refused⟩

theorem spent_log (pool : MemPool) (log : List MemEvent) : Spent pool { pool with log } False := by
  refine ⟨rfl, le_rfl, iff_of_false ?_ id⟩
  rintro ⟨request, after, before, -⟩
  exact absurd before (not_lt.mpr after)

theorem spent_alloc_none (answer : pool.alloc = (none, pool')) : Spent pool pool' True := by
  rw [MemPool.alloc] at answer
  split_ifs at answer with granted
  · cases answer
  · cases answer
    exact ⟨rfl, Nat.le_succ _,
      iff_of_true ⟨_, le_rfl, Nat.lt_succ_self _, Bool.eq_false_of_not_eq_true granted⟩ trivial⟩

theorem spent_alloc_some {block : Block} (answer : pool.alloc = (some block, pool')) :
    Spent pool pool' False := by
  rw [MemPool.alloc] at answer
  split_ifs at answer with granted
  · cases answer
    refine ⟨rfl, Nat.le_succ _, iff_of_false ?_ id⟩
    rintro ⟨request, after, before, refused⟩
    obtain rfl := Nat.le_antisymm (Nat.le_of_lt_succ before) after
    rw [granted] at refused
    cases refused
  · cases answer

theorem spent_freeBack (arr : List Asn) (pool : MemPool) :
    Spent pool (freeBack arr pool) False := by
  obtain ⟨released, same, -⟩ := freeBack_eq arr pool
  rw [same]
  exact spent_log pool _

mutual

theorem spent_copy : ∀ (t : Asn) (pool : MemPool), nil ∉ t.nodes →
    Spent pool (t.copy pool).2 ((t.copy pool).1 = nil)
  | nil, _, present => absurd mem_cons_self present
  | null, pool, _ => (spent_log pool _).congr (by simp [copy])
  | exception _ _, pool, _ | integer _ _, pool, _ | unsigned _ _ _, pool, _
  | string _ _ _ _, pool, _ | oid _ _ _, pool, _ => by
    rw [copy]
    split
    · rename_i answer
      exact (spent_alloc_none answer).congr (by simp)
    · rename_i answer
      exact (spent_alloc_some answer).congr (by simp)
  | seq _ type count arr, pool, present => by
    rw [copy]
    split
    · rename_i answer
      exact (spent_alloc_none answer).congr (by simp)
    · rename_i block pool' answer
      have children := spent_copyArr count.toNat arr [] pool' (nodes_seq present)
      generalize copyArr count.toNat arr [] pool' = copies at children ⊢
      obtain ⟨_ | arr', pool''⟩ := copies
      · exact (((spent_alloc_some answer).trans children).trans (spent_log pool'' _)).congr
          (by simp)
      · exact ((spent_alloc_some answer).trans children).congr (by simp)

theorem spent_copyArr : ∀ (n : Nat) (arr copied : List Asn) (pool : MemPool),
    nil ∉ nodesArr n arr →
    Spent pool (copyArr n arr copied pool).2 ((copyArr n arr copied pool).1 = none)
  | 0, _, _, pool, _ => by
    rw [copyArr]
    exact (spent_log pool _).congr (by simp)
  | _ + 1, [], _, pool, _ => (spent_log pool _).congr (by simp [copyArr])
  | n + 1, e :: arr, copied, pool, present => by
    obtain ⟨present_e, present_arr⟩ := nodesArr_cons present
    have first := spent_copy e pool present_e
    rw [copyArr]
    generalize e.copy pool = result at first ⊢
    obtain ⟨e', pool'⟩ := result
    have rest := spent_copyArr n arr (copied ++ [e']) pool' present_arr
    split
    · rename_i failed
      cases failed
      exact (first.trans (spent_freeBack copied _)).congr (by simp)
    · rename_i made
      cases made
      exact (first.trans rest).congr (by simp_all)

end

end Spent

section Inside

variable {slack : Block → Nat} {later latest : MemPool} {write : BlockWrite}

theorem Inside.extend (inside : Inside memDebug slack pool' later write)
    (grants : pool'.grants = pool.grants) (before : pool.requests ≤ pool'.requests)
    (after : later.requests ≤ latest.requests) : Inside memDebug slack pool latest write := by
  obtain ⟨fresh, used, granted, within⟩ := inside
  exact ⟨before.trans fresh, used.trans_le after, grants ▸ granted, within⟩

theorem inside_granted {block : Block} {size offset length : Nat}
    (answer : pool.alloc = (some block, pool')) (fits : size ≤ 2 ^ 20)
    (within : offset + length ≤ size) (after : pool'.requests ≤ later.requests) :
    Inside memDebug slack pool later { block, size, offset, length } := by
  rw [MemPool.alloc] at answer
  split_ifs at answer with granted
  · cases answer
    exact ⟨le_rfl, Nat.lt_of_succ_le after, granted,
      within.trans ((le_leastRoom fits).trans (Nat.le_add_right _ _))⟩
  · cases answer

theorem inside_copyLeaf {size : Nat} {node : Block → Asn} (fits : size ≤ 2 ^ 20) :
    (copyLeaf pool size node).All (Inside memDebug slack pool pool.alloc.2) := by
  rw [copyLeaf]
  split
  · exact Traced.all_pure _
  · rename_i block pool' answer
    rw [Traced.all_emit_bind, answer]
    exact ⟨inside_granted answer fits (by omega) le_rfl, Traced.all_pure _⟩

mutual

theorem inside_asnCopy : ∀ (t : Asn) (pool : MemPool), nil ∉ t.nodes →
    (memDebug = true → null ∉ t.nodes) → (∀ block type arr, seq block type 0 arr ∉ t.nodes) →
    (asnCopy memDebug t pool).All (Inside memDebug slack pool (t.copy pool).2)
  | nil, _, _, _, _ => Traced.all_pure _
  | null, _, _, runs, _ => by
    cases memDebug with
    | false => exact Traced.all_pure _
    | true => exact absurd mem_cons_self (runs rfl)
  | exception _ _, pool, _, _, _ | integer _ _, pool, _, _, _ | unsigned _ _ _, pool, _, _, _ => by
    have inside := @inside_copyLeaf memDebug pool slack sizeofAsn
    rw [asnCopy, copy]
    split <;> rename_i answer <;> rw [answer] at inside <;> exact inside (by decide)
  | string _ _ len _, pool, _, _, _ => by
    have inside := @inside_copyLeaf memDebug pool slack (sizeofString (len.toNat + 1))
    rw [asnCopy, copy]
    split <;> rename_i answer <;> rw [answer] at inside <;> exact inside (string_fits len)
  | oid _ len _, pool, _, _, _ => by
    have inside := @inside_copyLeaf memDebug pool slack (sizeofOid len.toNat)
    rw [asnCopy, copy]
    split <;> rename_i answer <;> rw [answer] at inside <;> exact inside (oid_fits len)
  | seq block type count arr, pool, present, runs, filled => by
    have positive : 0 < count.toNat := by
      rcases eq_or_ne count 0 with rfl | positive
      · exact absurd mem_cons_self (filled block type arr)
      · exact toNat_pos positive
    have size : sizeofSequence count.toNat = 4 + 4 * count.toNat := by
      rw [sizeofSequence, sizeofAsn]
      omega
    rw [asnCopy, copy]
    generalize answer : pool.alloc = granted
    obtain ⟨_ | block, pool'⟩ := granted
    · exact Traced.all_pure _
    · have spent := spent_alloc_some answer
      have used := (spent_copyArr count.toNat arr [] pool' (nodes_seq present)).requests
      have inside : ∀ i < ([] : List Asn).length + count.toNat, ∀ later : MemPool,
          pool'.requests ≤ later.requests → Inside memDebug slack pool later
            { block, size := sizeofSequence count.toNat, offset := 4 + 4 * i, length := 4 } := by
        intro i bound later after
        have within : 4 + 4 * i + 4 ≤ sizeofSequence count.toNat := by
          rw [length_nil] at bound
          omega
        exact inside_granted answer (sequence_fits count) within after
      have children := inside_asnCopyArr count.toNat arr [] pool' (nodes_seq present)
        (fun debug => nodes_seq (runs debug))
        (fun block type arr' => nodes_seq (filled block type arr')) inside spent.grants
        spent.requests
      have whole : sizeofAsn ≤ sizeofSequence count.toNat := by
        rw [size, sizeofAsn]
        omega
      dsimp only
      generalize copyArr count.toNat arr [] pool' = copies at used children ⊢
      rw [Traced.all_emit_bind, Traced.all_bind]
      obtain ⟨_ | arr', later⟩ := copies
      all_goals
        refine ⟨inside_granted answer (sequence_fits count) (by omega) used, children, ?_⟩
        rintro ⟨_ | _, _⟩ - <;> exact Traced.all_pure _

theorem inside_asnCopyArr {base : MemPool} {block : Block} {size : Nat} :
    ∀ (n : Nat) (arr copied : List Asn) (pool : MemPool), nil ∉ nodesArr n arr →
    (memDebug = true → null ∉ nodesArr n arr) →
    (∀ block type arr', seq block type 0 arr' ∉ nodesArr n arr) →
    (∀ i < copied.length + n, ∀ later : MemPool, pool.requests ≤ later.requests →
      Inside memDebug slack base later { block, size, offset := 4 + 4 * i, length := 4 }) →
    pool.grants = base.grants → base.requests ≤ pool.requests →
    (asnCopyArr memDebug block size n arr copied pool).All
      (Inside memDebug slack base (copyArr n arr copied pool).2)
  | 0, _, _, _, _, _, _, _, _, _ => by
    rw [asnCopyArr]
    exact Traced.all_pure _
  | _ + 1, [], _, _, _, _, _, _, _, _ => Traced.all_pure _
  | n + 1, e :: arr, copied, pool, present, runs, filled, within, grants, before => by
    obtain ⟨present_e, present_arr⟩ := nodesArr_cons present
    have first := inside_asnCopy e pool present_e (fun debug => (nodesArr_cons (runs debug)).1)
      fun block type arr' => (nodesArr_cons (filled block type arr')).1
    have result := result_asnCopy e pool fun debug => (nodesArr_cons (runs debug)).1
    have spent := spent_copy e pool present_e
    rw [asnCopyArr, copyArr, Traced.all_bind, result]
    generalize e.copy pool = answer at first spent ⊢
    obtain ⟨e', later⟩ := answer
    have spent_rest := spent_copyArr n arr (copied ++ [e']) later present_arr
    have rest := inside_asnCopyArr n arr (copied ++ [e']) later present_arr
      (fun debug => (nodesArr_cons (runs debug)).2)
      (fun block type arr' => (nodesArr_cons (filled block type arr')).2)
      (fun i bound latest after => within i
        (by rw [length_append, length_singleton] at bound; omega) latest
        (spent.requests.trans after))
      (spent.grants.trans grants) (before.trans spent.requests)
    cases e' with
    | nil =>
      refine ⟨fun write member => (first write member).extend grants before ?_, ?_⟩
      · exact (spent_freeBack copied later).requests
      · rintro _ ⟨⟩
        exact Traced.all_pure _
    | null | exception _ _ | integer _ _ | unsigned _ _ _ | string _ _ _ _ | oid _ _ _
    | seq _ _ _ _ =>
      refine ⟨fun write member => (first write member).extend grants before ?_, ?_⟩
      · exact spent_rest.requests
      · rintro _ ⟨⟩
        dsimp only
        rw [Traced.all_emit_bind]
        exact ⟨within _ (by omega) _ (spent.requests.trans spent_rest.requests), rest⟩

end

end Inside

section Fails

theorem not_denied (generous : Generous pool) (grants : pool'.grants = pool.grants) :
    Generous pool' ∧ ¬Denied pool pool' := by
  constructor
  · intro request
    rw [grants]
    exact generous request
  · rintro ⟨request, -, -, refused⟩
    rw [generous request] at refused
    cases refused

mutual

/-- With `MEM_DEBUG` the copy of a tree with NULL never ends. -/
theorem asnCopy_halts : ∀ (t : Asn) (pool : MemPool), Generous pool → nil ∉ t.nodes →
    null ∈ t.nodes → (asnCopy true t pool).result = none
  | nil, _, _, present, _ => absurd mem_cons_self present
  | null, _, _, _, _ => rfl
  | exception _ _, _, _, _, member | integer _ _, _, _, _, member | unsigned _ _ _, _, _, _, member
  | string _ _ _ _, _, _, _, member | oid _ _ _, _, _, _, member => by
    cases mem_singleton.mp member
  | seq _ type count arr, pool, generous, present, member => by
    have inner : null ∈ nodesArr count.toNat arr := by
      rw [nodes] at member
      exact (mem_cons.mp member).resolve_left nofun
    rw [asnCopy]
    generalize answer : pool.alloc = granted
    obtain ⟨_ | block, pool'⟩ := granted
    · have spent := spent_alloc_none answer
      exact absurd (spent.denied.mpr trivial) (not_denied generous spent.grants).2
    · have later := (not_denied generous (spent_alloc_some answer).grants).1
      dsimp only
      rw [Traced.result_emit_bind, Traced.result_bind,
        asnCopyArr_halts block _ count.toNat arr [] pool' later (nodes_seq present) inner]
      rfl

theorem asnCopyArr_halts (block : Block) (size : Nat) : ∀ (n : Nat) (arr copied : List Asn)
    (pool : MemPool), Generous pool → nil ∉ nodesArr n arr → null ∈ nodesArr n arr →
    (asnCopyArr true block size n arr copied pool).result = none
  | 0, _, _, _, _, _, member => by
    rw [nodesArr] at member
    cases member
  | _ + 1, [], _, _, _, _, member => by cases member
  | n + 1, e :: arr, copied, pool, generous, present, member => by
    obtain ⟨present_e, present_arr⟩ := nodesArr_cons present
    rw [nodesArr, mem_append] at member
    rw [asnCopyArr, Traced.result_bind]
    rcases Classical.em (null ∈ e.nodes) with first | absent
    · rw [asnCopy_halts e pool generous present_e first]
      rfl
    · have spent := spent_copy e pool present_e
      obtain ⟨generous', granted⟩ := not_denied generous spent.grants
      rw [spent.denied] at granted
      rw [result_asnCopy e pool fun _ => absent]
      generalize e.copy pool = answer at granted generous' ⊢
      obtain ⟨e', later⟩ := answer
      have rest := asnCopyArr_halts block size n arr (copied ++ [e']) later generous' present_arr
        (member.resolve_left absent)
      cases e' with
      | nil => exact absurd rfl granted
      | null | exception _ _ | integer _ _ | unsigned _ _ _ | string _ _ _ _ | oid _ _ _
      | seq _ _ _ _ => exact rest

end

mutual

theorem asnCopy_spills {block : Block} {type : AsnConstructed} {elements : List Asn} :
    ∀ (t : Asn) (pool : MemPool), Generous pool → nil ∉ t.nodes →
    (memDebug = true → null ∉ t.nodes) → seq block type 0 elements ∈ t.nodes →
    ∃ write ∈ (asnCopy memDebug t pool).events,
      ¬write.offset + write.length ≤ leastRoom memDebug write.size
  | nil, _, _, _, _, member | null, _, _, _, _, member | exception _ _, _, _, _, _, member
  | integer _ _, _, _, _, _, member | unsigned _ _ _, _, _, _, _, member
  | string _ _ _ _, _, _, _, _, member | oid _ _ _, _, _, _, _, member => by
    cases mem_singleton.mp member
  | seq _ _ count arr, pool, generous, present, runs, member => by
    rw [asnCopy]
    generalize answer : pool.alloc = granted
    obtain ⟨_ | block, pool'⟩ := granted
    · have spent := spent_alloc_none answer
      exact absurd (spent.denied.mpr trivial) (not_denied generous spent.grants).2
    · dsimp only
      rw [Traced.events_emit_bind, Traced.events_bind]
      rw [nodes] at member
      rcases mem_cons.mp member with this | inner
      · cases this
        refine ⟨_, mem_cons_self, ?_⟩
        change ¬0 + sizeofAsn ≤ leastRoom memDebug (sizeofSequence 0)
        rw [leastRoom_empty]
        decide
      · have later := (not_denied generous (spent_alloc_some answer).grants).1
        obtain ⟨write, written, spills⟩ := asnCopyArr_spills block _ count.toNat arr [] pool'
          later (nodes_seq present) (fun debug => nodes_seq (runs debug)) inner
        exact ⟨write, mem_cons_of_mem _ (mem_append_left _ written), spills⟩

theorem asnCopyArr_spills {block : Block} {type : AsnConstructed} {elements : List Asn}
    (home : Block) (size : Nat) : ∀ (n : Nat) (arr copied : List Asn)
    (pool : MemPool), Generous pool → nil ∉ nodesArr n arr →
    (memDebug = true → null ∉ nodesArr n arr) → seq block type 0 elements ∈ nodesArr n arr →
    ∃ write ∈ (asnCopyArr memDebug home size n arr copied pool).events,
      ¬write.offset + write.length ≤ leastRoom memDebug write.size
  | 0, _, _, _, _, _, _, member => by
    rw [nodesArr] at member
    cases member
  | _ + 1, [], _, _, _, _, _, member => by cases member
  | n + 1, e :: arr, copied, pool, generous, present, runs, member => by
    obtain ⟨present_e, present_arr⟩ := nodesArr_cons present
    have runs_e := fun debug => (nodesArr_cons (runs debug)).1
    rw [nodesArr, mem_append] at member
    rw [asnCopyArr, Traced.events_bind]
    rcases member with first | inner
    · obtain ⟨write, written, spills⟩ := asnCopy_spills e pool generous present_e runs_e first
      exact ⟨write, mem_append_left _ written, spills⟩
    · have spent := spent_copy e pool present_e
      obtain ⟨generous', granted⟩ := not_denied generous spent.grants
      rw [spent.denied] at granted
      rw [result_asnCopy e pool runs_e]
      generalize e.copy pool = answer at granted generous' ⊢
      obtain ⟨e', later⟩ := answer
      obtain ⟨write, written, spills⟩ := asnCopyArr_spills home size n arr (copied ++ [e']) later
        generous' present_arr (fun debug => (nodesArr_cons (runs debug)).2) inner
      cases e' with
      | nil => exact absurd rfl granted
      | null | exception _ _ | integer _ _ | unsigned _ _ _ | string _ _ _ _ | oid _ _ _
      | seq _ _ _ _ =>
        exact ⟨write, mem_append_right _ (mem_cons_of_mem _ written), spills⟩

end

end Fails

section Parsed

variable {input rest : List UChar}

theorem present_getNode {kind : AsnKind}
    {sequences : MemPool → AsnConstructed → Block → List UChar → Asn × MemPool}
    (sequences_present : ∀ {pool type block b pool'},
      sequences pool type block input = (b, pool') → b ≠ nil → nil ∉ b.nodes)
    (got : getNode sequences pool input kind = (t, pool')) (present : t ≠ nil) :
    nil ∉ t.nodes := by
  cases kind with
  | constructed type =>
    rw [getNode] at got
    split at got
    · cases got
      exact absurd rfl present
    · exact sequences_present got present
  | unknown =>
    cases got
    exact absurd rfl present
  | null =>
    cases got
    simp [nodes]
  | exception type =>
    rw [getNode, makeException] at got
    split at got <;> cases got
    · exact absurd rfl present
    · simp [nodes]
  | integer =>
    rw [getNode, getInt] at got
    split at got
    · cases got
      exact absurd rfl present
    split at got
    · cases got
      exact absurd rfl present
    split at got <;> cases got <;> simp [nodes]
  | unsigned type =>
    rw [getNode, getUint] at got
    split at got
    · cases got
      exact absurd rfl present
    split at got
    · cases got
      exact absurd rfl present
    split at got <;> cases got
    · exact absurd rfl present
    · simp [nodes]
  | string type =>
    rw [getNode, getString] at got
    split at got <;> cases got
    · exact absurd rfl present
    · simp [nodes]
  | oid =>
    rw [getNode, getOid] at got
    split at got
    · cases got
      exact absurd rfl present
    split at got
    · cases got
      simp [nodes]
    split at got <;> cases got
    · exact absurd rfl present
    · simp [nodes]

theorem present_nodesArr {arr : List Asn} (present : ∀ e ∈ arr, nil ∉ e.nodes) (n : Nat) :
    nil ∉ nodesArr n arr := by
  induction arr generalizing n with
  | nil => cases n <;> simp [nodesArr]
  | cons e arr ih =>
    cases n with
    | zero => simp [nodesArr]
    | succ n =>
      rw [nodesArr, mem_append, not_or]
      exact ⟨present e mem_cons_self,
        ih (fun e' member => present e' (mem_cons_of_mem _ member)) n⟩

theorem present_parse (turns : Nat) :
    (∀ {pool input b rest pool'}, parseWith turns pool input = (some (b, rest), pool') →
      nil ∉ b.nodes) ∧
    ∀ {pool type block count nelem arr input b pool'}, (∀ e ∈ arr, nil ∉ e.nodes) →
      getSequence turns pool type block count nelem arr input = (b, pool') → b ≠ nil →
      nil ∉ b.nodes := by
  have present_seq : ∀ {block type count arr}, (∀ e ∈ arr, nil ∉ e.nodes) →
      nil ∉ (seq block type count arr).nodes := by
    intro block type count arr present
    rw [nodes, mem_cons, not_or]
    exact ⟨nofun, present_nodesArr present _⟩
  induction turns with
  | zero =>
    constructor
    · intro pool input b rest pool' parsed
      cases parsed
    · intro pool type block count nelem arr input b pool' present got made
      cases input with
      | nil =>
        cases got
        exact present_seq present
      | cons byte input =>
        cases got
        exact absurd rfl made
  | succ turns ih =>
    obtain ⟨parsed_present, sequence_present⟩ := ih
    constructor
    · intro pool input b rest pool' parsed
      cases input with
      | nil => cases parsed
      | cons type input =>
        rw [parseWith] at parsed
        split at parsed
        · cases parsed
        split at parsed
        · cases parsed
        split at parsed
        · cases parsed
        · rename_i made got
          cases parsed
          exact present_getNode (sequence_present (by simp)) got made
    · intro pool type block count nelem arr input b pool' present got made
      cases input with
      | nil =>
        cases got
        exact present_seq present
      | cons byte input =>
        rw [getSequence] at got
        split at got
        · cases got
          exact absurd rfl made
        split at got
        · cases got
          exact absurd rfl made
        · rename_i parsed
          refine sequence_present (fun e member => ?_) got made
          rcases mem_putAt member with rfl | old
          · exact parsed_present parsed
          · exact present e old

/-- The copies of a parsed tree are deep unless the tree has an empty sequence, or NULL while
`mem_pool` looks at its blocks. -/
theorem asnCopy_deep_iff (parsed : parse pool input = (some (t, rest), pool')) :
    (∀ slack later, pool'.requests ≤ later.requests → DeepCopy memDebug slack t later) ↔
      (memDebug = true → null ∉ t.nodes) ∧ ∀ block type arr, seq block type 0 arr ∉ t.nodes := by
  have present : nil ∉ t.nodes := (present_parse _).1 parsed
  constructor
  · intro deep
    let later : MemPool := { grants := fun _ => true, requests := pool'.requests }
    have generous : Generous later := fun _ => rfl
    obtain ⟨b, last, result, -, -, -, inside⟩ := deep (fun _ => 0) later le_rfl
    have runs : memDebug = true → null ∉ t.nodes := by
      rintro rfl member
      rw [asnCopy_halts t later generous present member] at result
      cases result
    refine ⟨runs, fun block type arr member => ?_⟩
    obtain ⟨write, written, spills⟩ := asnCopy_spills t later generous present runs member
    exact spills (inside write written).2.2.2
  · rintro ⟨runs, filled⟩ slack later fresh
    have spent := spent_copy t later present
    have ledger := ledger_copy t later
    refine ⟨_, _, result_asnCopy t later runs, spent.denied.symm, fun made => ?_, ledger,
      inside_asnCopy t later present runs filled⟩
    refine ⟨value_copy t later made, ?_, fun block member kept => ?_⟩
    · rw [nodup_iff_count_le_one]
      intro block
      rcases Nat.eq_zero_or_pos ((t.copy later).1.blocks.count block) with none | some
      · omega
      · have once := (ledger.gained (Int.natCast_pos.mpr some)).1
        rw [tally] at once
        omega
    · obtain ⟨leaked, kept_ledger, -⟩ := (ledger_parse input.length).1 (Nat.le_succ input.length)
      rw [← parse, parsed] at kept_ledger
      have old : 0 < tally t.blocks block + tally leaked block :=
        add_pos_of_pos_of_nonneg (Int.natCast_pos.mpr (count_pos_iff.mpr kept))
          (tally_nonneg leaked block)
      have before := (kept_ledger.gained old).2.2
      have after := (ledger.gained (Int.natCast_pos.mpr (count_pos_iff.mpr member))).2.1
      exact absurd (before.trans_le fresh) (not_lt.mpr after)

/-- A sequence with an integer, parsed and copied in pools with enough memory. -/
theorem asnCopy_deep_sequence :
    ∃ t rest pool', parse plenty [0x30, 0x03, 0x02, 0x01, 0x05] = (some (t, rest), pool') ∧
      t ≠ null ∧ ∀ slack later, pool'.requests ≤ later.requests → DeepCopy true slack t later := by
  obtain ⟨t, rest, pool', parsed, shape⟩ : ∃ t rest pool',
      parse plenty [0x30, 0x03, 0x02, 0x01, 0x05] = (some (t, rest), pool') ∧
        t = seq 0 sequence 1 [integer 1 5] := ⟨_, _, _, rfl, rfl⟩
  refine ⟨t, rest, pool', parsed, by simp [shape], (asnCopy_deep_iff parsed).mpr ⟨fun _ => ?_, ?_⟩⟩
  · simp [shape, nodes, nodesArr]
  · simp [shape, nodes, nodesArr]

/-- An empty sequence is written behind its block, and NULL halts a system with `MEM_DEBUG`. -/
theorem asnCopy_not_deep :
    (∃ t rest pool', parse plenty [0x30, 0x00] = (some (t, rest), pool') ∧
      ∀ memDebug, ¬∀ slack later, pool'.requests ≤ later.requests →
        DeepCopy memDebug slack t later) ∧
    ∃ t rest pool', parse plenty [0x05, 0x00] = (some (t, rest), pool') ∧
      ¬∀ slack later, pool'.requests ≤ later.requests → DeepCopy true slack t later := by
  constructor
  · refine ⟨seq 0 sequence 0 [], [], _, rfl, fun memDebug deep => ?_⟩
    obtain ⟨b, last, result, -, -, -, inside⟩ :=
      deep (fun _ => 0) { plenty with requests := 1 } le_rfl
    have within := (inside _ mem_cons_self).2.2.2
    revert within
    cases memDebug <;> decide
  · refine ⟨null, [], _, rfl, fun deep => ?_⟩
    obtain ⟨b, last, result, -⟩ := deep (fun _ => 0) plenty le_rfl
    cases result

end Parsed

end Asn
end Uos
