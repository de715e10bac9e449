import Uos.Library.Arenas
import Uos.Library.Chains
import Uos.Net.Bytes

/-!
# Chains of buffers

The functions of `buf/buf.c` and `buf/buf-copy.c` on the blocks of a memory pool.  The pool is an
arena that may refuse a request; a function stops at an access to a block that is not allocated, at
a null pointer, and at a copy that goes beyond the end of a block.
-/

namespace Uos.Bufs

open Function List Option

/-- `buf_t`, with the block of memory that it is at the beginning of. -/
structure Node where
  next : Option Nat
  /-- `payload`, counted from the beginning of the block. -/
  payload : Nat
  totLen : UShort
  len : UShort
  /-- The memory of the block, from its beginning. -/
  data : Nat → UChar
  /-- The size of the block. -/
  size : Nat

namespace Node

def bytes (b : Node) : List UChar :=
  (List.range b.len.toNat).map fun i => b.data (b.payload + i)

/-- Copy the bytes of another buffer behind those of this one. -/
def append (b q : Node) : Node :=
  { b with
    data := fun i =>
      if b.payload + b.len.toNat ≤ i ∧ i < b.payload + b.len.toNat + q.len.toNat then
        q.data (q.payload + (i - (b.payload + b.len.toNat)))
      else b.data i
    len := b.len + q.len }

def shift (b : Node) (headerSize : BitVec 16) : Node :=
  { b with
    payload := (b.payload - headerSize.toInt).toNat
    len := b.len + headerSize
    totLen := b.totLen + headerSize }

end Node

/-- A memory pool with its buffers. -/
structure Memory where
  /-- `sizeof (buf_t)` -/
  record : Nat
  arena : Arena
  node : Nat → Node
  /-- How many bytes a block has beyond its request. -/
  slack : Nat → Nat
  /-- The size of a block that is truncated, from the request and its size. -/
  trim : Nat → Nat → Nat
  trim_ge : ∀ request size, request ≤ size → request ≤ trim request size

namespace Memory

def get (m : Memory) (p : Nat) : Option Node :=
  if p ∈ m.arena.live then some (m.node p) else none

def set (m : Memory) (p : Nat) (b : Node) : Memory :=
  { m with node := Function.update m.node p b }

/-- `mem_alloc_dirty` -/
def memAllocDirty (m : Memory) (request : Nat) : Option Nat × Memory :=
  match m.arena.alloc with
  | (none, arena) => (none, { m with arena })
  | (some x, arena) =>
    let size := request + m.slack m.arena.asked
    (some x, { m with arena }.set x { m.node x with size })

/-- `mem_free` -/
def memFree (m : Memory) (p : Nat) : Option Memory :=
  if p ∈ m.arena.live then some { m with arena := m.arena.free p } else none

/-- `mem_realloc`: the record at the beginning of the block is copied with it. -/
def memRealloc (m : Memory) (p bytes : Nat) : Option (Option Nat × Memory) := do
  let b ← m.get p
  if bytes ≤ b.size then some (some p, m)
  else
    match m.memAllocDirty bytes with
    | (none, m) => do
      let m ← m.memFree p
      some (none, m)
    | (some x, m) => do
      let data := fun i => if i < b.size then b.data i else (m.node x).data i
      let m ← (m.set x { b with data, size := (m.node x).size }).memFree p
      some (some x, m)

/-- `mem_truncate` -/
def memTruncate (m : Memory) (p request : Nat) : Option Memory := do
  let b ← m.get p
  some (m.set p { b with size := m.trim request b.size })

/-- `buf_add_header`, whose argument is a `short`. -/
def bufAddHeader (m : Memory) (p : Nat) (headerSize : BitVec 16) : Option (Bool × Memory) := do
  let b ← m.get p
  if b.payload - headerSize.toInt < m.record then some (false, m)
  else some (true, m.set p (b.shift headerSize))

/-- `buf_free`, with the number of buffers that were freed. -/
def bufFree : Nat → Memory → Option Nat → UChar → Option (UChar × Memory)
  | _, m, none, count => some (count, m)
  | 0, _, some _, _ => none
  | turns + 1, m, some p, count => do
    let b ← m.get p
    let m ← m.memFree p
    bufFree turns m b.next (count + 1)

def truncateWalk : Nat → Memory → Nat → UShort → Option (Nat × UShort)
  | 0, _, _, _ => none
  | turns + 1, m, q, rsize => do
    let b ← m.get q
    if b.len < rsize then truncateWalk turns m (← b.next) (rsize - b.len) else some (q, rsize)

def truncateFree : Nat → Memory → Option Nat → Option Memory
  | _, m, none => some m
  | 0, _, some _ => none
  | turns + 1, m, some q => do
    let b ← m.get q
    let (_, m) ← m.bufFree (turns + 1) (some q) 0
    truncateFree turns m b.next

/-- `buf_truncate` -/
def bufTruncate (turns : Nat) (m : Memory) (p : Nat) (size : UShort) : Option Memory := do
  let first ← m.get p
  if first.totLen ≤ size then some m
  else
    let (q, rsize) ← truncateWalk turns m p size
    let b ← m.get q
    let m ← m.memTruncate q (b.payload + rsize.toNat)
    let b ← m.get q
    let m ← truncateFree turns (m.set q { b with len := rsize, next := none }) b.next
    let first ← m.get p
    some (m.set p { first with totLen := size })

def lastOf : Nat → Memory → Nat → Option Nat
  | 0, _, _ => none
  | turns + 1, m, p => do
    let b ← m.get p
    match b.next with
    | none => some p
    | some next => lastOf turns m next

/-- `buf_chain` -/
def bufChain (turns : Nat) (m : Memory) (h t : Nat) : Option Memory := do
  let p ← lastOf turns m h
  let b ← m.get p
  let m := m.set p { b with next := some t }
  let first ← m.get h
  let second ← m.get t
  some (m.set h { first with totLen := first.totLen + second.totLen })

def memcpy (m : Memory) (x : Nat) (b : Node) : Option Memory := do
  let target ← m.get x
  if target.payload + target.len.toNat + b.len.toNat ≤ target.size then
    some (m.set x (target.append b))
  else none

def copyChunks : Nat → Memory → Nat → Option Nat → Option Memory
  | _, m, _, none => some m
  | 0, _, _, some _ => none
  | turns + 1, m, x, some q => do
    let b ← m.get q
    let m ← m.memcpy x b
    copyChunks turns m x b.next

/-- `buf_copy` -/
def bufCopy (turns : Nat) (m : Memory) : Option Nat → Option (Option Nat × Memory)
  | none => some (none, m)
  | some p => do
    let first ← m.get p
    match m.memAllocDirty (first.totLen.toNat + first.payload) with
    | (none, m) => some (none, m)
    | (some x, m) => do
      let b ← m.get x
      let data := fun i => if i < first.payload then 0 else b.data i
      let m := m.set x
        { next := none, payload := first.payload, totLen := first.totLen, len := 0, data,
          size := b.size }
      let m ← copyChunks turns m x (some p)
      some (some x, m)

def moveChunks : Nat → Memory → Nat → Option Nat → Option Memory
  | _, m, _, none => some m
  | 0, _, _, some _ => none
  | turns + 1, m, x, some q => do
    let b ← m.get q
    let m ← m.memcpy x b
    let m ← m.memFree q
    moveChunks turns m x b.next

def freeChunks : Nat → Memory → Option Nat → Option Memory
  | _, m, none => some m
  | 0, _, some _ => none
  | turns + 1, m, some q => do
    let b ← m.get q
    let m ← m.memFree q
    freeChunks turns m b.next

/-- `buf_make_continuous` -/
def bufMakeContinuous (turns : Nat) (m : Memory) : Option Nat → Option (Option Nat × Memory)
  | none => some (none, m)
  | some p => do
    let first ← m.get p
    match first.next with
    | none => some (some p, m)
    | some next => do
      let (x, m) ← m.memRealloc p (first.totLen.toNat + first.payload)
      match x with
      | none => do
        let m ← freeChunks turns m (some next)
        some (none, m)
      | some x => do
        let b ← m.get x
        let m ← moveChunks turns m x b.next
        let b ← m.get x
        some (some x, m.set x { b with next := none })

def payload (m : Memory) (nodes : List Nat) : List UChar :=
  nodes.flatMap fun a => (m.node a).bytes

def total (m : Memory) (nodes : List Nat) : Nat :=
  (nodes.map fun a => (m.node a).len.toNat).sum

/-- A chain of buffers whose first one has the total length; they lie inside their blocks, behind
their records. -/
structure Consistent (m : Memory) (p : Nat) (nodes : List Nat) : Prop where
  walk : Chain (fun a => (m.node a).next) (some p) nodes none
  live : ∀ a ∈ nodes, a ∈ m.arena.live
  whole : (m.node p).totLen.toNat = m.total nodes
  behind : ∀ a ∈ nodes, m.record ≤ (m.node a).payload
  inside : ∀ a ∈ nodes, (m.node a).payload + (m.node a).len.toNat ≤ (m.node a).size

section Frame

variable {m m' : Memory} {p q x a : Nat} {b : Node} {nodes : List Nat} {turns : Nat}

theorem get_live (live : p ∈ m.arena.live) : m.get p = some (m.node p) :=
  if_pos live

theorem memFree_live (live : p ∈ m.arena.live) :
    m.memFree p = some { m with arena := m.arena.free p } :=
  if_pos live

@[simp] theorem set_arena : (m.set p b).arena = m.arena :=
  rfl

@[simp] theorem set_node_self : (m.set p b).node p = b :=
  update_self ..

theorem set_node_of_ne (apart : a ≠ p) : (m.set p b).node a = m.node a :=
  update_of_ne apart ..

theorem payload_congr (same : ∀ a ∈ nodes, (m'.node a).bytes = (m.node a).bytes) :
    m'.payload nodes = m.payload nodes := by
  induction nodes with
  | nil => rfl
  | cons a nodes ih =>
    rw [forall_mem_cons] at same
    simp only [payload, flatMap_cons] at ih ⊢
    rw [same.1, ih same.2]

theorem total_congr (same : ∀ a ∈ nodes, (m'.node a).len = (m.node a).len) :
    m'.total nodes = m.total nodes := by
  rw [total, total]
  congr 1
  apply map_congr_left
  intro a member
  rw [same a member]

theorem payload_append (nodes others : List Nat) :
    m.payload (nodes ++ others) = m.payload nodes ++ m.payload others :=
  flatMap_append

theorem total_append (nodes others : List Nat) :
    m.total (nodes ++ others) = m.total nodes + m.total others := by
  simp [total]

theorem total_cons (a : Nat) (nodes : List Nat) :
    m.total (a :: nodes) = (m.node a).len.toNat + m.total nodes :=
  rfl

theorem Consistent.cons (consistent : Consistent m p nodes) : ∃ rest, nodes = p :: rest := by
  have walk := consistent.walk
  cases nodes with
  | nil => simp at walk
  | cons a rest =>
    obtain ⟨same, -⟩ := Chain.cons_iff.mp walk
    exact ⟨rest, by rw [Option.some.inj same]⟩

theorem length_bytes (b : Node) : b.bytes.length = b.len.toNat := by
  simp [Node.bytes]

theorem length_payload (nodes : List Nat) : (m.payload nodes).length = m.total nodes := by
  simp [payload, total, length_flatMap, length_bytes]

theorem bytes_append {q : Node} (fits : b.len.toNat + q.len.toNat < 65536) :
    (b.append q).bytes = b.bytes ++ q.bytes := by
  have sum : (b.len + q.len).toNat = b.len.toNat + q.len.toNat := by
    rw [BitVec.toNat_add]
    exact Nat.mod_eq_of_lt fits
  simp only [Node.bytes, Node.append, sum, range_add, map_append, List.map_map]
  congr 1
  · apply map_congr_left
    intro i member
    have inside := mem_range.mp member
    rw [if_neg (by omega)]
  · apply map_congr_left
    intro i member
    have inside := mem_range.mp member
    simp only [Function.comp]
    rw [if_pos (by omega)]
    congr 2
    omega

end Frame

abbrev next (m : Memory) (a : Nat) : Option Nat :=
  (m.node a).next

def freed (m : Memory) (nodes : List Nat) : Memory :=
  { m with arena := m.arena.freeAll nodes }

section Loops

variable {m : Memory} {p q : Option Nat} {x a : Nat} {nodes : List Nat} {turns : Nat}

theorem live_freed (nodes : List Nat) :
    (m.freed nodes).arena.live = m.arena.live \ nodes.toFinset :=
  Arena.freeAll_live m.arena nodes

theorem memFree_freed (live : a ∈ m.arena.live) : m.memFree a = some (m.freed [a]) :=
  memFree_live live

theorem freed_cons (a : Nat) (nodes : List Nat) :
    (m.freed [a]).freed nodes = m.freed (a :: nodes) :=
  rfl

theorem live_rest (live : ∀ b ∈ a :: nodes, b ∈ m.arena.live) (once : a ∉ nodes) :
    ∀ b ∈ nodes, b ∈ (m.freed [a]).arena.live := by
  intro b member
  rw [live_freed, Finset.mem_sdiff]
  refine ⟨live b (mem_cons_of_mem a member), ?_⟩
  rintro again
  rw [List.mem_toFinset, mem_singleton] at again
  subst again
  exact once member

theorem turn_of_cons (enough : (a :: nodes).length ≤ turns) :
    ∃ fewer, turns = fewer + 1 ∧ nodes.length ≤ fewer :=
  match turns with
  | fewer + 1 => ⟨fewer, rfl, Nat.le_of_succ_le_succ enough⟩

theorem set_nodes {b : Node} (outside : x ∉ nodes) : ∀ c ∈ nodes, (m.set x b).node c = m.node c :=
  fun _ member => set_node_of_ne (ne_of_mem_of_not_mem member outside)

/-- `buf_free` frees every buffer of a chain. -/
theorem bufFree_spec (walk : Chain m.next p nodes none) (live : ∀ a ∈ nodes, a ∈ m.arena.live)
    (enough : nodes.length ≤ turns) (count : UChar) :
    ∃ count', bufFree turns m p count = some (count', m.freed nodes) := by
  induction nodes generalizing m p turns count with
  | nil =>
    obtain rfl := Chain.nil_iff.mp walk
    cases turns <;> exact ⟨count, rfl⟩
  | cons a nodes ih =>
    obtain ⟨rfl, rest⟩ := Chain.cons_iff.mp walk
    have once := (nodup_cons.mp walk.nodup).1
    obtain ⟨turns, rfl, fewer⟩ := turn_of_cons enough
    have here := live a mem_cons_self
    obtain ⟨count', freed⟩ := @ih (m.freed [a]) _ turns rest (live_rest live once) fewer
      (count + 1)
    refine ⟨count', ?_⟩
    simp only [bufFree, get_live here, memFree_freed here, bind_eq_bind, bind_some]
    exact freed

theorem bufFree_short (walk : Chain m.next p nodes none) (live : ∀ a ∈ nodes, a ∈ m.arena.live)
    (short : turns < nodes.length) (count : UChar) : bufFree turns m p count = none := by
  induction nodes generalizing m p turns count with
  | nil => exact absurd short (Nat.not_lt_zero turns)
  | cons a nodes ih =>
    obtain ⟨rfl, rest⟩ := Chain.cons_iff.mp walk
    have once := (nodup_cons.mp walk.nodup).1
    cases turns with
    | zero => rfl
    | succ turns =>
      rw [length_cons] at short
      have here := live a mem_cons_self
      simp only [bufFree, get_live here, memFree_freed here, bind_eq_bind,
        bind_some]
      exact @ih (m.freed [a]) _ turns rest (live_rest live once) (by omega) (count + 1)

theorem freeChunks_spec (walk : Chain m.next p nodes none) (live : ∀ a ∈ nodes, a ∈ m.arena.live)
    (enough : nodes.length ≤ turns) : freeChunks turns m p = some (m.freed nodes) := by
  induction nodes generalizing m p turns with
  | nil =>
    obtain rfl := Chain.nil_iff.mp walk
    cases turns <;> rfl
  | cons a nodes ih =>
    obtain ⟨rfl, rest⟩ := Chain.cons_iff.mp walk
    have once := (nodup_cons.mp walk.nodup).1
    obtain ⟨turns, rfl, fewer⟩ := turn_of_cons enough
    have here := live a mem_cons_self
    have freed := @ih (m.freed [a]) _ turns rest (live_rest live once) fewer
    simp only [freeChunks, get_live here, memFree_freed here, bind_eq_bind,
      bind_some]
    exact freed

/-- A buffer that got the bytes of a chain behind its own ones. -/
structure Gathers (m : Memory) (x : Nat) (nodes : List Nat) (b : Node) : Prop where
  bytes : b.bytes = (m.node x).bytes ++ m.payload nodes
  len : b.len.toNat = (m.node x).len.toNat + m.total nodes
  next : b.next = (m.node x).next
  payload : b.payload = (m.node x).payload
  totLen : b.totLen = (m.node x).totLen
  size : b.size = (m.node x).size

/-- The chunks fit behind the bytes of a buffer. -/
structure Room (m : Memory) (x : Nat) (nodes : List Nat) : Prop where
  live : x ∈ m.arena.live
  apart : x ∉ nodes
  inside : (m.node x).payload + (m.node x).len.toNat + m.total nodes ≤ (m.node x).size
  short : (m.node x).len.toNat + m.total nodes < 65536

theorem Room.memcpy (room : Room m x (a :: nodes)) :
    m.memcpy x (m.node a) = some (m.set x ((m.node x).append (m.node a))) ∧
      Room (m.set x ((m.node x).append (m.node a))) x nodes ∧
      ∀ {b}, Gathers (m.set x ((m.node x).append (m.node a))) x nodes b →
        Gathers m x (a :: nodes) b := by
  obtain ⟨live, apart, inside, short⟩ := room
  rw [mem_cons, not_or] at apart
  rw [total_cons] at inside short
  have others := set_nodes (m := m) (b := (m.node x).append (m.node a)) apart.2
  have sum : ((m.node x).append (m.node a)).len.toNat =
      (m.node x).len.toNat + (m.node a).len.toNat := by
    change ((m.node x).len + (m.node a).len).toNat = _
    rw [BitVec.toNat_add]
    exact Nat.mod_eq_of_lt (by omega)
  refine ⟨?_, ⟨live, apart.2, ?_, ?_⟩, fun {b} gathers => ?_⟩
  · simp only [Memory.memcpy, get_live live, bind_eq_bind, bind_some]
    exact if_pos (by omega)
  · rw [set_node_self, sum, total_congr fun c member => congrArg Node.len (others c member)]
    change (m.node x).payload + _ + _ ≤ (m.node x).size
    omega
  · rw [set_node_self, sum, total_congr fun c member => congrArg Node.len (others c member)]
    omega
  · obtain ⟨bytes, len, next, payload, totLen, size⟩ := gathers
    rw [set_node_self] at bytes len next payload totLen size
    refine ⟨?_, ?_, next, payload, totLen, size⟩
    · rw [bytes, bytes_append (by omega),
        payload_congr fun c member => congrArg Node.bytes (others c member), append_assoc]
      rfl
    · rw [len, sum, total_congr fun c member => congrArg Node.len (others c member), total_cons]
      omega

/-- The loop of `buf_copy`. -/
theorem copyChunks_spec (walk : Chain m.next q nodes none) (live : ∀ a ∈ nodes, a ∈ m.arena.live)
    (room : Room m x nodes) (enough : nodes.length ≤ turns) :
    ∃ b, copyChunks turns m x q = some (m.set x b) ∧ Gathers m x nodes b := by
  induction nodes generalizing m q turns with
  | nil =>
    obtain rfl := Chain.nil_iff.mp walk
    refine ⟨m.node x, ?_, by simp [payload], by simp [total], rfl, rfl, rfl, rfl⟩
    have same : m.set x (m.node x) = m := by simp [set]
    rw [same]
    cases turns <;> rfl
  | cons a nodes ih =>
    obtain ⟨rfl, rest⟩ := Chain.cons_iff.mp walk
    obtain ⟨turns, rfl, fewer⟩ := turn_of_cons enough
    have here := live a mem_cons_self
    obtain ⟨copied, room', gathers⟩ := room.memcpy
    have walk' : Chain (m.set x ((m.node x).append (m.node a))).next (m.next a) nodes none :=
      rest.congr fun c member => congrArg Node.next (set_nodes room'.apart c member)
    obtain ⟨b, result, gathers'⟩ := ih walk'
      (fun c member => live c (mem_cons_of_mem a member)) room' fewer
    refine ⟨b, ?_, gathers gathers'⟩
    simp only [copyChunks, get_live here, copied, bind_eq_bind, bind_some]
    have twice : (m.set x ((m.node x).append (m.node a))).set x b = m.set x b := by
      simp [set]
    rw [← twice]
    exact result

/-- The loop of `buf_make_continuous`, which frees what it has copied. -/
theorem moveChunks_spec (walk : Chain m.next q nodes none) (live : ∀ a ∈ nodes, a ∈ m.arena.live)
    (room : Room m x nodes) (enough : nodes.length ≤ turns) :
    ∃ b, moveChunks turns m x q = some ((m.set x b).freed nodes) ∧ Gathers m x nodes b := by
  induction nodes generalizing m q turns with
  | nil =>
    obtain rfl := Chain.nil_iff.mp walk
    refine ⟨m.node x, ?_, by simp [payload], by simp [total], rfl, rfl, rfl, rfl⟩
    have same : m.set x (m.node x) = m := by simp [set]
    rw [same]
    cases turns <;> rfl
  | cons a nodes ih =>
    obtain ⟨rfl, rest⟩ := Chain.cons_iff.mp walk
    have once := (nodup_cons.mp walk.nodup).1
    obtain ⟨turns, rfl, fewer⟩ := turn_of_cons enough
    have here := live a mem_cons_self
    have apart := (mem_cons.not.mp room.apart)
    obtain ⟨copied, room', gathers⟩ := room.memcpy
    have walk' : Chain ((m.set x ((m.node x).append (m.node a))).freed [a]).next (m.next a)
        nodes none :=
      rest.congr fun c member => congrArg Node.next (set_nodes room'.apart c member)
    have stays : x ∈ ((m.set x ((m.node x).append (m.node a))).freed [a]).arena.live := by
      rw [live_freed, Finset.mem_sdiff, List.mem_toFinset, mem_singleton]
      exact ⟨room'.live, fun same => apart (.inl same)⟩
    obtain ⟨b, result, gathers'⟩ := ih walk' (live_rest live once)
      ⟨stays, room'.apart, room'.inside, room'.short⟩ fewer
    refine ⟨b, ?_, gathers ⟨gathers'.bytes, gathers'.len, gathers'.next, gathers'.payload,
      gathers'.totLen, gathers'.size⟩⟩
    have freeing := @memFree_freed (m.set x ((m.node x).append (m.node a))) a here
    simp only [moveChunks, get_live here, copied, freeing, bind_eq_bind, bind_some]
    have twice : ((m.set x ((m.node x).append (m.node a))).freed [a]).set x b =
        (m.set x b).freed [a] := by
      simp [set, freed]
    rw [twice, freed_cons] at result
    exact result

end Loops

section Chaining

variable {m m' : Memory} {h t p : Nat} {hs ts nodes : List Nat} {turns : Nat}

theorem lastOf_spec (walk : Chain m.next (some p) nodes none)
    (live : ∀ a ∈ nodes, a ∈ m.arena.live) (enough : nodes.length ≤ turns) :
    ∃ front last, nodes = front ++ [last] ∧ lastOf turns m p = some last := by
  induction nodes generalizing p turns with
  | nil => simp at walk
  | cons a nodes ih =>
    obtain ⟨same, rest⟩ := Chain.cons_iff.mp walk
    obtain rfl := Option.some.inj same
    obtain ⟨turns, rfl, fewer⟩ := turn_of_cons enough
    simp only [lastOf, get_live (live p mem_cons_self), bind_eq_bind,
      bind_some]
    cases following : (m.node p).next with
    | none =>
      change Chain m.next (m.node p).next nodes none at rest
      rw [following] at rest
      cases nodes with
      | nil => exact ⟨[], p, rfl, rfl⟩
      | cons b nodes => simp at rest
    | some next =>
      change Chain m.next (m.node p).next nodes none at rest
      rw [following] at rest
      obtain ⟨front, last, split, found⟩ :=
        ih rest (fun b member => live b (mem_cons_of_mem p member)) fewer
      exact ⟨p :: front, last, by rw [split]; rfl, found⟩

/-- A change of the pointers and the total lengths. -/
structure Relinked (m m' : Memory) (nodes : List Nat) : Prop where
  record : m'.record = m.record
  arena : m'.arena = m.arena
  payload : ∀ a ∈ nodes, (m'.node a).payload = (m.node a).payload
  len : ∀ a ∈ nodes, (m'.node a).len = (m.node a).len
  data : ∀ a ∈ nodes, (m'.node a).data = (m.node a).data
  size : ∀ a ∈ nodes, (m'.node a).size = (m.node a).size

theorem Relinked.bytes (relinked : Relinked m m' nodes) (a : Nat) (member : a ∈ nodes) :
    (m'.node a).bytes = (m.node a).bytes := by
  rw [Node.bytes, Node.bytes, relinked.payload a member, relinked.len a member,
    relinked.data a member]

theorem Relinked.trans {m'' : Memory} (first : Relinked m m' nodes)
    (second : Relinked m' m'' nodes) : Relinked m m'' nodes where
  record := second.record.trans first.record
  arena := second.arena.trans first.arena
  payload a member := (second.payload a member).trans (first.payload a member)
  len a member := (second.len a member).trans (first.len a member)
  data a member := (second.data a member).trans (first.data a member)
  size a member := (second.size a member).trans (first.size a member)

theorem Relinked.set (next : Option Nat) (totLen : UShort) :
    Relinked m (m.set p { m.node p with next, totLen }) nodes := by
  refine ⟨rfl, rfl, ?_, ?_, ?_, ?_⟩ <;>
    · intro a _
      rcases eq_or_ne a p with rfl | apart
      · rw [set_node_self]
      · rw [set_node_of_ne apart]

/-- `buf_chain` makes a consistent chain of the concatenation. -/
theorem bufChain_spec (first : Consistent m h hs) (second : Consistent m t ts)
    (disjoint : ∀ a ∈ hs, a ∉ ts) (fits : m.total hs + m.total ts < 65536)
    (enough : hs.length ≤ turns) :
    ∃ m', bufChain turns m h t = some m' ∧ Consistent m' h (hs ++ ts) ∧
      m'.payload (hs ++ ts) = m.payload hs ++ m.payload ts ∧ m'.arena = m.arena := by
  obtain ⟨front, last, split, found⟩ := lastOf_spec first.walk first.live enough
  have hLive := first.live h first.walk.first_mem
  have tLive := second.live t second.walk.first_mem
  have lastMem : last ∈ hs := by simp [split]
  set m₁ := m.set last { m.node last with next := some t } with m₁_eq
  set m₂ := m₁.set h { m₁.node h with totLen := (m₁.node h).totLen + (m₁.node t).totLen } with m₂_eq
  have totals (a : Nat) : (m₁.node a).totLen = (m.node a).totLen := by
    rcases eq_or_ne a last with rfl | apart
    · rw [m₁_eq, set_node_self]
    · rw [m₁_eq, set_node_of_ne apart]
  have relinked : Relinked m m₂ (hs ++ ts) :=
    (Relinked.set (some t) (m.node last).totLen).trans
      (Relinked.set (m₁.node h).next ((m₁.node h).totLen + (m₁.node t).totLen))
  have pointers : m₂.next = Function.update m.next last (some t) := by
    funext a
    have outer : (m₂.node a).next = (m₁.node a).next := by
      rcases eq_or_ne a h with rfl | apart
      · rw [m₂_eq, set_node_self]
      · rw [m₂_eq, set_node_of_ne apart]
    change (m₂.node a).next = _
    rw [outer]
    rcases eq_or_ne a last with rfl | apart
    · rw [m₁_eq, set_node_self, update_self]
    · rw [m₁_eq, set_node_of_ne apart, update_of_ne apart]
  have bytes := relinked.bytes
  have joined : m₂.payload (hs ++ ts) = m.payload hs ++ m.payload ts := by
    rw [payload_congr bytes, payload_append]
  refine ⟨m₂, ?_, ?_, joined, rfl⟩
  · have there : m₁.get h = some (m₁.node h) := get_live hLive
    have there' : m₁.get t = some (m₁.node t) := get_live tLive
    simp only [bufChain, found, get_live (first.live last lastMem), ← m₁_eq, there, there',
      bind_eq_bind, bind_some, ← m₂_eq]
  · refine ⟨?_, ?_, ?_, ?_, ?_⟩
    · have once := first.walk.nodup
      rw [split] at once
      have onceFront : last ∉ front := by
        intro again
        exact (nodup_append.mp once).2.2 last again last (mem_singleton_self _) rfl
      have walk := first.walk
      rw [split] at walk
      have start : Chain (Function.update m.next last (some t)) (some h) (front ++ [last])
          (some t) := walk.redirect onceFront
      change Chain m₂.next _ _ _
      rw [pointers, split]
      exact Chain.append_iff.mpr ⟨some t, start, second.walk.update (disjoint last lastMem)⟩
    · intro a member
      rcases mem_append.mp member with left | right
      · exact first.live a left
      · exact second.live a right
    · rw [total_congr relinked.len, total_append, m₂_eq, set_node_self]
      change ((m₁.node h).totLen + (m₁.node t).totLen).toNat = _
      rw [totals, totals, BitVec.toNat_add, first.whole, second.whole]
      exact Nat.mod_eq_of_lt fits
    · intro a member
      rw [relinked.payload a member]
      rcases mem_append.mp member with left | right
      · exact first.behind a left
      · exact second.behind a right
    · intro a member
      rw [relinked.payload a member, relinked.len a member, relinked.size a member]
      rcases mem_append.mp member with left | right
      · exact first.inside a left
      · exact second.inside a right

end Chaining

section Truncating

variable {m m' : Memory} {p q : Nat} {nodes : List Nat} {turns : Nat} {size rsize : UShort}

/-- The buffers behind the one in which a number of bytes ends. -/
def cutOff (m : Memory) : Nat → List Nat → List Nat
  | _, [] => []
  | size, a :: nodes =>
    if size ≤ (m.node a).len.toNat then nodes else m.cutOff (size - (m.node a).len.toNat) nodes

theorem truncateWalk_spec (walk : Chain m.next (some q) nodes none)
    (live : ∀ a ∈ nodes, a ∈ m.arena.live) (inside : rsize.toNat ≤ m.total nodes)
    (enough : nodes.length ≤ turns) :
    ∃ front a r, nodes = front ++ a :: m.cutOff rsize.toNat nodes ∧
      truncateWalk turns m q rsize = some (a, r) ∧
      m.total front + r.toNat = rsize.toNat ∧ r.toNat ≤ (m.node a).len.toNat := by
  induction nodes generalizing q turns rsize with
  | nil => simp at walk
  | cons a nodes ih =>
    obtain ⟨same, rest⟩ := Chain.cons_iff.mp walk
    obtain rfl := Option.some.inj same
    obtain ⟨turns, rfl, fewer⟩ := turn_of_cons enough
    rw [total_cons] at inside
    simp only [truncateWalk, get_live (live q mem_cons_self), bind_eq_bind,
      bind_some]
    rcases Nat.lt_or_ge (m.node q).len.toNat rsize.toNat with beyond | within
    · have difference : (rsize - (m.node q).len).toNat =
          rsize.toNat - (m.node q).len.toNat := BitVec.toNat_sub_of_le beyond.le
      have cut : m.cutOff rsize.toNat (q :: nodes) =
          m.cutOff (rsize - (m.node q).len).toNat nodes := by
        rw [cutOff, if_neg (by omega), difference]
      rw [if_pos (show (m.node q).len < rsize from beyond), cut]
      cases following : (m.node q).next with
      | none =>
        change Chain m.next (m.node q).next nodes none at rest
        rw [following] at rest
        cases nodes with
        | nil =>
          change rsize.toNat ≤ (m.node q).len.toNat + 0 at inside
          omega
        | cons b nodes => simp at rest
      | some next =>
        change Chain m.next (m.node q).next nodes none at rest
        rw [following] at rest
        obtain ⟨front, a, r, split, found, sum, part⟩ := @ih next turns
          (rsize - (m.node q).len) rest (fun b member => live b (mem_cons_of_mem q member))
          (by omega) fewer
        refine ⟨q :: front, a, r, ?_, found, ?_, part⟩
        · exact congrArg (q :: ·) split
        · rw [total_cons]
          omega
    · rw [if_neg (show ¬(m.node q).len < rsize from Nat.not_lt.mpr within)]
      refine ⟨[], q, rsize, ?_, rfl, ?_, within⟩
      · rw [cutOff, if_pos within]
        rfl
      · exact Nat.zero_add _

theorem truncateFree_spec {first : Option Nat} {cut : List Nat}
    (walk : Chain m.next first cut none) (live : ∀ a ∈ cut, a ∈ m.arena.live) :
    (cut.length ≤ 1 → 1 ≤ turns → truncateFree turns m first = some (m.freed cut)) ∧
      (1 < cut.length → truncateFree turns m first = none) := by
  match cut with
  | [] =>
    obtain rfl := Chain.nil_iff.mp walk
    refine ⟨fun _ _ => ?_, fun more => absurd more (by simp)⟩
    cases turns <;> rfl
  | [a] =>
    obtain ⟨rfl, rest⟩ := Chain.cons_iff.mp walk
    have last : m.next a = none := Chain.nil_iff.mp rest
    refine ⟨fun _ some_turn => ?_, fun more => absurd more (by simp)⟩
    obtain ⟨turns, rfl⟩ := Nat.exists_eq_add_one_of_ne_zero (Nat.ne_of_gt some_turn)
    obtain ⟨count, freed⟩ := @bufFree_spec m (some a) [a] (turns + 1) walk live (by simp) 0
    simp only [truncateFree, get_live (live a mem_cons_self), freed, bind_eq_bind,
      bind_some]
    change truncateFree turns (m.freed [a]) (m.next a) = _
    rw [last]
    cases turns <;> rfl
  | a :: b :: cut =>
    obtain ⟨rfl, rest⟩ := Chain.cons_iff.mp walk
    obtain ⟨follows, -⟩ := Chain.cons_iff.mp rest
    refine ⟨fun few => absurd few (by simp), fun _ => ?_⟩
    cases turns with
    | zero => rfl
    | succ turns =>
      simp only [truncateFree, get_live (live a mem_cons_self), bind_eq_bind,
        bind_some]
      rcases Nat.lt_or_ge (turns + 1) (a :: b :: cut).length with short | enough
      · rw [bufFree_short walk live short]
        rfl
      · obtain ⟨count, freed⟩ := bufFree_spec walk live enough 0
        rw [freed, bind_some]
        change truncateFree turns (m.freed (a :: b :: cut)) (m.next a) = none
        rw [follows]
        cases turns with
        | zero => rfl
        | succ turns =>
          have gone : (m.freed (a :: b :: cut)).get b = none := by
            apply if_neg
            rw [live_freed]
            simp
          simp only [truncateFree, gone, bind_eq_bind, bind_none]

def shortened (m : Memory) (a : Nat) (r : UShort) : Memory :=
  let b := m.node a
  m.set a { b with size := m.trim (b.payload + r.toNat) b.size, len := r, next := none }

/-- `buf_truncate` frees what is left over after the shortening. -/
theorem bufTruncate_eq {a : Nat} {r : UShort} (pLive : p ∈ m.arena.live) (aLive : a ∈ m.arena.live)
    (cutting : ¬(m.node p).totLen ≤ size) (found : truncateWalk turns m p size = some (a, r)) :
    bufTruncate turns m p size =
      (truncateFree turns (m.shortened a r) (m.next a)).bind fun m =>
        (m.get p).bind fun first => some (m.set p { first with totLen := size }) := by
  have again (b : Node) : (m.set a b).get a = some b := by
    rw [get_live (show a ∈ (m.set a b).arena.live from aLive), set_node_self]
  have twice (b c : Node) : (m.set a b).set a c = m.set a c := by
    simp [set]
  simp only [bufTruncate, get_live pLive, cutting, if_false, found, get_live aLive, memTruncate,
    again, twice, bind_eq_bind, bind_some]
  rfl

/-- What `buf_truncate` is for: the payload is cut, and the buffers that are left over are freed. -/
structure Truncated (m m' : Memory) (p : Nat) (nodes : List Nat) (size : Nat)
    (kept cut : List Nat) :
    Prop where
  split : nodes = kept ++ cut
  consistent : Consistent m' p kept
  payload : m'.payload kept = (m.payload nodes).take size
  live : m'.arena.live = m.arena.live \ cut.toFinset

def leftOver (m : Memory) (size : Nat) (nodes : List Nat) : List Nat :=
  if m.total nodes ≤ size then [] else m.cutOff size nodes

theorem bytes_take (b : Node) {r : UShort} (part : r.toNat ≤ b.len.toNat) (next : Option Nat)
    (totLen : UShort) (block : Nat) :
    ({ b with len := r, next, totLen, size := block } : Node).bytes = b.bytes.take r.toNat := by
  rw [Node.bytes, Node.bytes, ← map_take, take_range, Nat.min_eq_left part]

/-- The end of `buf_truncate`. -/
theorem truncated_spec {front cut : List Nat} {a : Nat} {r : UShort}
    (consistent : Consistent m p nodes) (split : nodes = front ++ a :: cut)
    (sum : m.total front + r.toNat = size.toNat) (part : r.toNat ≤ (m.node a).len.toNat) :
    ∃ m', ((m.shortened a r).freed cut).get p = some ((m.shortened a r).node p) ∧
      m' = ((m.shortened a r).freed cut).set p { (m.shortened a r).node p with totLen := size } ∧
      Truncated m m' p nodes size.toNat (front ++ [a]) cut := by
  have regroup : nodes = (front ++ [a]) ++ cut := by rw [split, append_cons]
  have once := consistent.walk.nodup
  have walk := consistent.walk
  rw [regroup] at once walk
  obtain ⟨onceKept, -, disjoint⟩ := nodup_append.mp once
  have onceFront : a ∉ front := fun again =>
    (nodup_append.mp onceKept).2.2 a again a (mem_singleton_self a) rfl
  obtain ⟨middle, start, -⟩ := Chain.append_iff.mp walk
  have cutting : Chain (Function.update m.next a none) (some p) (front ++ [a]) none :=
    start.redirect onceFront
  have keptLive : ∀ c ∈ front ++ [a], c ∈ ((m.shortened a r).freed cut).arena.live := by
    intro c member
    rw [live_freed, Finset.mem_sdiff, List.mem_toFinset]
    refine ⟨consistent.live c ?_, fun again => disjoint c member c again rfl⟩
    rw [regroup]
    exact mem_append_left _ member
  have pKept : p ∈ front ++ [a] := cutting.first_mem
  set m' := ((m.shortened a r).freed cut).set p { (m.shortened a r).node p with totLen := size }
    with m'_eq
  have relinked : Relinked ((m.shortened a r).freed cut) m' (front ++ [a]) :=
    Relinked.set ((m.shortened a r).node p).next size
  have before : ∀ c ∈ front, (m.shortened a r).node c = m.node c := set_nodes onceFront
  have here : (m.shortened a r).node a =
      { m.node a with
        size := m.trim ((m.node a).payload + r.toNat) (m.node a).size, len := r, next := none } :=
    set_node_self
  have pointers : m'.next = Function.update m.next a none := by
    funext c
    have outer : (m'.node c).next = ((m.shortened a r).node c).next := by
      rcases eq_or_ne c p with rfl | apart
      · rw [m'_eq, set_node_self]
      · rw [m'_eq, set_node_of_ne apart]
        rfl
    change (m'.node c).next = _
    rw [outer]
    rcases eq_or_ne c a with rfl | apart
    · rw [here, update_self]
    · rw [update_of_ne apart]
      exact congrArg Node.next (set_node_of_ne apart)
  have frontBytes : ((m.shortened a r).freed cut).payload front = m.payload front :=
    payload_congr fun c member => congrArg Node.bytes (before c member)
  have frontTotal : ((m.shortened a r).freed cut).total front = m.total front :=
    total_congr fun c member => congrArg Node.len (before c member)
  have lastTotal : ((m.shortened a r).freed cut).total [a] = r.toNat := by
    change ((m.shortened a r).node a).len.toNat + 0 = _
    rw [here, Nat.add_zero]
  refine ⟨m', get_live (keptLive p pKept), rfl, regroup, ⟨?_, keptLive, ?_, ?_, ?_⟩, ?_, ?_⟩
  · change Chain m'.next _ _ _
    rw [pointers]
    exact cutting
  · rw [total_congr relinked.len, total_append, frontTotal, lastTotal, sum, m'_eq, set_node_self]
  · intro c member
    rw [relinked.payload c member]
    have behind := consistent.behind c (by rw [regroup]; exact mem_append_left _ member)
    rcases mem_append.mp member with inFront | last
    · exact (congrArg Node.payload (before c inFront)).symm ▸ behind
    · obtain rfl := mem_singleton.mp last
      exact (congrArg Node.payload here).symm ▸ behind
  · intro c member
    rw [relinked.payload c member, relinked.len c member, relinked.size c member]
    have inside := consistent.inside c (by rw [regroup]; exact mem_append_left _ member)
    rcases mem_append.mp member with inFront | last
    · change ((m.shortened a r).node c).payload + ((m.shortened a r).node c).len.toNat ≤
        ((m.shortened a r).node c).size
      rw [before c inFront]
      exact inside
    · obtain rfl := mem_singleton.mp last
      change ((m.shortened c r).node c).payload + ((m.shortened c r).node c).len.toNat ≤
        ((m.shortened c r).node c).size
      rw [here]
      have request : (m.node c).payload + r.toNat ≤ (m.node c).size :=
        (Nat.add_le_add_left part _).trans inside
      exact m.trim_ge _ _ request
  · have last : ((m.shortened a r).freed cut).payload [a] = (m.node a).bytes.take r.toNat := by
      change ((m.shortened a r).node a).bytes ++ [] = _
      rw [here, append_nil]
      exact bytes_take (m.node a) part none (m.node a).totLen _
    have bytes : m.payload nodes = m.payload front ++ ((m.node a).bytes ++ m.payload cut) := by
      rw [split, payload_append]
      rfl
    have length := @length_payload m front
    rw [payload_congr relinked.bytes, payload_append, frontBytes, last, bytes, ← sum, ← length,
      take_length_add_append, take_append_of_le_length]
    rw [length_bytes]
    exact part
  · exact live_freed cut

/-- `buf_truncate` of a chain does what it is for. -/
def TruncateRight (m : Memory) (p : Nat) (nodes : List Nat) (size : UShort) : Prop :=
  ∀ turns, nodes.length ≤ turns → ∃ m' kept, bufTruncate turns m p size = some m' ∧
    Truncated m m' p nodes size.toNat kept (m.leftOver size.toNat nodes)

/-- `buf_truncate` of a chain that is too long walks to a buffer and frees those behind it. -/
theorem bufTruncate_cuts (consistent : Consistent m p nodes) (less : size.toNat < m.total nodes)
    (enough : nodes.length ≤ turns) :
    ∃ front a r, nodes = front ++ a :: m.cutOff size.toNat nodes ∧
      bufTruncate turns m p size =
        (truncateFree turns (m.shortened a r) (m.next a)).bind (fun m =>
          (m.get p).bind fun first => some (m.set p { first with totLen := size })) ∧
      m.total front + r.toNat = size.toNat ∧ r.toNat ≤ (m.node a).len.toNat ∧
      Chain (m.shortened a r).next (m.next a) (m.cutOff size.toNat nodes) none ∧
      ∀ c ∈ m.cutOff size.toNat nodes, c ∈ (m.shortened a r).arena.live := by
  have pLive := consistent.live p consistent.walk.first_mem
  have whole := consistent.whole
  have cutting : ¬(m.node p).totLen ≤ size := by
    intro short
    have short : (m.node p).totLen.toNat ≤ size.toNat := short
    omega
  obtain ⟨front, a, r, split, found, sum, part⟩ :=
    truncateWalk_spec consistent.walk consistent.live less.le enough
  have aLive := consistent.live a (by rw [split]; simp)
  refine ⟨front, a, r, split, bufTruncate_eq pLive aLive cutting found, sum, part, ?_, ?_⟩
  · have walk := consistent.walk
    have once := walk.nodup
    rw [split] at walk once
    obtain ⟨middle, -, later⟩ := Chain.append_iff.mp walk
    obtain ⟨-, rest⟩ := Chain.cons_iff.mp later
    have apart := (nodup_cons.mp (nodup_append.mp once).2.1).1
    exact rest.congr fun c member => congrArg Node.next (set_nodes apart c member)
  · intro c member
    apply consistent.live
    rw [split]
    exact mem_append_right _ (mem_cons_of_mem a member)

theorem leftOver_eq (less : size.toNat < m.total nodes) :
    m.leftOver size.toNat nodes = m.cutOff size.toNat nodes := by
  rw [leftOver, if_neg (by omega)]

/-- When several buffers are left over, `buf_truncate` reads one that it has freed. -/
theorem bufTruncate_many (consistent : Consistent m p nodes)
    (many : 1 < (m.leftOver size.toNat nodes).length) (enough : nodes.length ≤ turns) :
    bufTruncate turns m p size = none := by
  rcases Nat.lt_or_ge size.toNat (m.total nodes) with less | all
  · obtain ⟨front, a, r, split, equation, sum, part, rest, live⟩ :=
      bufTruncate_cuts consistent less enough
    rw [leftOver_eq less] at many
    rw [equation, (truncateFree_spec rest live).2 many, bind_none]
  · rw [leftOver, if_pos all] at many
    exact absurd many (by simp)

theorem truncate_right_iff (consistent : Consistent m p nodes) (size : UShort) :
    TruncateRight m p nodes size ↔ (m.leftOver size.toNat nodes).length ≤ 1 := by
  have pLive := consistent.live p consistent.walk.first_mem
  have whole := consistent.whole
  constructor
  · intro right
    obtain ⟨m', kept, result, -⟩ := right nodes.length le_rfl
    apply by_contra
    intro many
    rw [bufTruncate_many consistent (by omega) le_rfl] at result
    contradiction
  · intro few turns enough
    rcases Nat.lt_or_ge size.toNat (m.total nodes) with less | all
    · rw [leftOver_eq less] at few ⊢
      obtain ⟨front, a, r, split, equation, sum, part, rest, live⟩ :=
        bufTruncate_cuts consistent less enough
      have some_turn : 1 ≤ turns := by
        have length := congrArg List.length split
        rw [length_append, length_cons] at length
        omega
      rw [(truncateFree_spec rest live).1 few some_turn, bind_some] at equation
      obtain ⟨m', first, equal, truncated⟩ := truncated_spec consistent split sum part
      rw [first, bind_some, ← equal] at equation
      exact ⟨m', front ++ [a], equation, truncated⟩
    · have keeping : (m.node p).totLen ≤ size := by
        change (m.node p).totLen.toNat ≤ size.toNat
        omega
      have none : m.leftOver size.toNat nodes = [] := if_pos all
      refine ⟨m, nodes, ?_, ?_⟩
      · simp only [bufTruncate, get_live pLive, bind_eq_bind, bind_some, keeping,
          if_true]
      · rw [none]
        refine ⟨(append_nil nodes).symm, consistent, ?_, by simp⟩
        rw [take_of_length_le]
        rw [length_payload]
        exact all

end Truncating

section Copying

variable {m m' : Memory} {p x request : Nat} {nodes : List Nat} {turns : Nat}

theorem memAllocDirty_none (refuses : m.memAllocDirty request = (none, m')) :
    m'.node = m.node ∧ m'.arena.live = m.arena.live := by
  rw [memAllocDirty] at refuses
  split at refuses
  · rename_i arena fails
    obtain ⟨-, rfl⟩ := Prod.mk.inj refuses
    exact ⟨rfl, (Arena.alloc_none fails).2.2.2⟩
  · cases (Prod.mk.inj refuses).1

theorem memAllocDirty_some (allocates : m.memAllocDirty request = (some x, m')) :
    x ∉ m.arena.live ∧ m'.record = m.record ∧ m'.arena.live = insert x m.arena.live ∧
      (∀ a ≠ x, m'.node a = m.node a) ∧ request ≤ (m'.node x).size := by
  rw [memAllocDirty] at allocates
  split at allocates
  · cases (Prod.mk.inj allocates).1
  · rename_i y arena succeeds
    obtain ⟨same, rfl⟩ := Prod.mk.inj allocates
    cases same
    obtain ⟨rfl, -, -, -, live⟩ := Arena.alloc_some succeeds
    refine ⟨fun old => Nat.lt_irrefl _ (m.arena.fresh _ old), rfl, live, ?_, ?_⟩
    · intro a apart
      exact set_node_of_ne apart
    · rw [set_node_self]
      exact Nat.le_add_right ..

/-- A single buffer with the bytes of a chain and the room for headers of its first buffer. -/
structure Single (m m' : Memory) (p : Nat) (nodes : List Nat) (x : Nat) : Prop where
  consistent : Consistent m' x [x]
  payload : m'.payload [x] = m.payload nodes
  room : (m'.node x).payload = (m.node p).payload

/-- What `buf_copy` is for. -/
inductive Copied (m m' : Memory) (p : Nat) (nodes : List Nat) : Option Nat → Prop
  | refused (live : m'.arena.live = m.arena.live)
      (same : ∀ a ∈ m.arena.live, m'.node a = m.node a) :
      Copied m m' p nodes none
  | copied (x : Nat) (single : Single m m' p nodes x) (fresh : x ∉ m.arena.live)
      (live : m'.arena.live = insert x m.arena.live)
      (same : ∀ a ∈ m.arena.live, m'.node a = m.node a) : Copied m m' p nodes (some x)

theorem Gathers.single {b : Node} {before : Memory} (gathers : Gathers m x nodes b)
    (node : m'.node x = { b with next := none }) (live : x ∈ m'.arena.live)
    (own : (m.node x).totLen.toNat = (m.node x).len.toNat + m.total nodes)
    (behind : m'.record ≤ (m.node x).payload)
    (inside : (m.node x).payload + (m.node x).len.toNat + m.total nodes ≤ (m.node x).size)
    (room : (m.node x).payload = (before.node p).payload) {whole : List Nat}
    (bytes : (m.node x).bytes ++ m.payload nodes = before.payload whole) :
    Single before m' p whole x := by
  have lengths : m'.total [x] = b.len.toNat := by
    change (m'.node x).len.toNat + 0 = _
    rw [node, Nat.add_zero]
  refine ⟨⟨?_, ?_, ?_, ?_, ?_⟩, ?_, ?_⟩
  · apply Chain.cons_iff.mpr
    exact ⟨rfl, Chain.nil_iff.mpr (congrArg Node.next node)⟩
  · intro a member
    obtain rfl := mem_singleton.mp member
    exact live
  · rw [lengths, node]
    change b.totLen.toNat = _
    rw [gathers.totLen, own, gathers.len]
  · intro a member
    obtain rfl := mem_singleton.mp member
    rw [node]
    change _ ≤ b.payload
    rw [gathers.payload]
    exact behind
  · intro a member
    obtain rfl := mem_singleton.mp member
    rw [node]
    change b.payload + b.len.toNat ≤ b.size
    rw [gathers.payload, gathers.len, gathers.size, ← Nat.add_assoc]
    exact inside
  · change (m'.node x).bytes ++ [] = _
    rw [node, append_nil, ← bytes]
    exact gathers.bytes
  · rw [node]
    exact gathers.payload.trans room

/-- `buf_copy` makes a single buffer and leaves the chain alone. -/
theorem bufCopy_spec (consistent : Consistent m p nodes) (enough : nodes.length ≤ turns) :
    ∃ r m', bufCopy turns m (some p) = some (r, m') ∧ Copied m m' p nodes r := by
  have pLive := consistent.live p consistent.walk.first_mem
  have whole := consistent.whole
  cases asked : m.memAllocDirty ((m.node p).totLen.toNat + (m.node p).payload) with
  | mk r m₁ =>
  cases r with
  | none =>
    obtain ⟨node, live⟩ := memAllocDirty_none asked
    refine ⟨none, m₁, ?_, .refused live fun a _ => congrFun node a⟩
    simp only [bufCopy, get_live pLive, asked, bind_eq_bind, bind_some]
  | some x =>
    obtain ⟨fresh, record, live, others, size⟩ := memAllocDirty_some asked
    have xLive : x ∈ m₁.arena.live := by
      rw [live]
      exact Finset.mem_insert_self x _
    have apart : ∀ a ∈ m.arena.live, a ≠ x := by
      rintro a old rfl
      exact fresh old
    set m₂ := m₁.set x
      { next := none
        payload := (m.node p).payload
        totLen := (m.node p).totLen
        len := 0
        data := fun i => if i < (m.node p).payload then 0 else (m₁.node x).data i
        size := (m₁.node x).size } with m₂_eq
    have self := congrArg (fun memory => memory.node x) m₂_eq
    simp only [set_node_self] at self
    have same : ∀ a ∈ m.arena.live, m₂.node a = m.node a := fun a old =>
      (set_node_of_ne (apart a old)).trans (others a (apart a old))
    have bytes : m₂.payload nodes = m.payload nodes :=
      payload_congr fun a member => congrArg Node.bytes (same a (consistent.live a member))
    have totals : m₂.total nodes = m.total nodes :=
      total_congr fun a member => congrArg Node.len (same a (consistent.live a member))
    have walk : Chain m₂.next (some p) nodes none :=
      consistent.walk.congr fun a member =>
        congrArg Node.next (same a (consistent.live a member))
    have nodesLive : ∀ a ∈ nodes, a ∈ m₂.arena.live := by
      intro a member
      change a ∈ m₁.arena.live
      rw [live]
      exact Finset.mem_insert_of_mem (consistent.live a member)
    have short := (m.node p).totLen.isLt
    have room : Room m₂ x nodes := by
      refine ⟨xLive, fun again => fresh (consistent.live x again), ?_, ?_⟩
      · rw [self, totals]
        change (m.node p).payload + 0 + _ ≤ (m₁.node x).size
        omega
      · rw [self, totals]
        change 0 + m.total nodes < 65536
        omega
    obtain ⟨b, result, gathers⟩ := copyChunks_spec walk nodesLive room enough
    have last : b.next = none := by
      rw [gathers.next, self]
    refine ⟨some x, m₂.set x b, ?_, .copied x ?_ fresh live ?_⟩
    · simp only [bufCopy, get_live pLive, asked, get_live xLive, ← m₂_eq, result,
        bind_eq_bind, bind_some]
    · have inside := room.inside
      apply gathers.single
      · rw [set_node_self, ← last]
      · exact xLive
      · rw [self, totals]
        change (m.node p).totLen.toNat = 0 + _
        omega
      · rw [self]
        change m₁.record ≤ (m.node p).payload
        rw [record]
        exact consistent.behind p consistent.walk.first_mem
      · exact inside
      · rw [self]
      · rw [self, bytes]
        rfl
    · intro a old
      rw [set_node_of_ne (apart a old)]
      exact same a old

/-- What `buf_make_continuous` is for. -/
inductive Continued (m m' : Memory) (p : Nat) (nodes : List Nat) : Option Nat → Prop
  | refused (live : m'.arena.live = m.arena.live \ nodes.toFinset)
      (same : ∀ a ∈ m.arena.live, a ∉ nodes → m'.node a = m.node a) : Continued m m' p nodes none
  | single (x : Nat) (single : Single m m' p nodes x) (own : x ∈ m.arena.live → x = p)
      (live : m'.arena.live = insert x (m.arena.live \ nodes.toFinset))
      (same : ∀ a ∈ m.arena.live, a ∉ nodes → m'.node a = m.node a) :
      Continued m m' p nodes (some x)

/-- The first buffer of a chain in a block that is large enough for the whole chain. -/
structure Grown (m m₁ : Memory) (p : Nat) (rest : List Nat) (x : Nat) : Prop where
  record : m₁.record = m.record
  next : (m₁.node x).next = (m.node p).next
  bytes : (m₁.node x).bytes = (m.node p).bytes
  payload : (m₁.node x).payload = (m.node p).payload
  totLen : (m₁.node x).totLen = (m.node p).totLen
  len : (m₁.node x).len = (m.node p).len
  large : (m.node p).totLen.toNat + (m.node p).payload ≤ (m₁.node x).size
  live : x ∈ m₁.arena.live
  apart : x ∉ rest
  restLive : ∀ a ∈ rest, a ∈ m₁.arena.live
  same : ∀ a ∈ rest, m₁.node a = m.node a

/-- The end of `buf_make_continuous`. -/
theorem Grown.moved {m₁ : Memory} {rest : List Nat} (grown : Grown m m₁ p rest x)
    (consistent : Consistent m p (p :: rest)) (enough : rest.length ≤ turns) :
    ∃ m', (m₁.get x).bind (fun b => (moveChunks turns m₁ x b.next).bind fun m =>
        (m.get x).bind fun b => some (some x, m.set x { b with next := none })) =
          some (some x, m') ∧
      Single m m' p (p :: rest) x ∧ m'.arena.live = m₁.arena.live \ rest.toFinset ∧
      ∀ a ≠ x, m'.node a = m₁.node a := by
  have whole := consistent.whole
  have short := (m.node p).totLen.isLt
  have large := grown.large
  have bytes : m₁.payload rest = m.payload rest :=
    payload_congr fun a member => congrArg Node.bytes (grown.same a member)
  have totals : m₁.total rest = m.total rest :=
    total_congr fun a member => congrArg Node.len (grown.same a member)
  have walk : Chain m₁.next (m₁.node x).next rest none := by
    rw [grown.next]
    exact (Chain.cons_iff.mp consistent.walk).2.congr fun a member =>
      congrArg Node.next (grown.same a member)
  rw [total_cons] at whole
  have room : Room m₁ x rest := by
    refine ⟨grown.live, grown.apart, ?_, ?_⟩
    · rw [grown.payload, grown.len, totals]
      omega
    · rw [grown.len, totals]
      omega
  obtain ⟨b, result, gathers⟩ := moveChunks_spec walk grown.restLive room enough
  have stays : x ∈ ((m₁.set x b).freed rest).arena.live := by
    rw [live_freed, Finset.mem_sdiff, List.mem_toFinset]
    exact ⟨grown.live, grown.apart⟩
  have self : ((m₁.set x b).freed rest).node x = b := set_node_self
  refine ⟨((m₁.set x b).freed rest).set x { b with next := none }, ?_,
    gathers.single set_node_self ?_ ?_ ?_ room.inside grown.payload ?_, live_freed rest, ?_⟩
  · rw [get_live grown.live, bind_some, result, bind_some, get_live stays, self,
      bind_some]
  · exact stays
  · rw [grown.totLen, grown.len, totals]
    exact whole
  · change m₁.record ≤ _
    rw [grown.record, grown.payload]
    exact consistent.behind p mem_cons_self
  · rw [grown.bytes, bytes]
    rfl
  · intro a apart
    rw [set_node_of_ne apart]
    exact set_node_of_ne apart

/-- `buf_make_continuous` when the first block has to be allocated anew. -/
theorem bufMakeContinuous_small {rest : List Nat} {next : Nat}
    (consistent : Consistent m p (p :: rest)) (enough : rest.length ≤ turns)
    (following : (m.node p).next = some next)
    (small : (m.node p).size < (m.node p).totLen.toNat + (m.node p).payload) :
    ∃ r m', bufMakeContinuous turns m (some p) = some (r, m') ∧
      Continued m m' p (p :: rest) r := by
  have pLive := consistent.live p mem_cons_self
  obtain ⟨-, walk⟩ := Chain.cons_iff.mp consistent.walk
  have once := (nodup_cons.mp consistent.walk.nodup).1
  have restLive : ∀ a ∈ rest, a ∈ m.arena.live := fun a member =>
    consistent.live a (mem_cons_of_mem p member)
  cases asked : m.memAllocDirty ((m.node p).totLen.toNat + (m.node p).payload) with
  | mk r m₁ =>
  cases r with
  | none =>
    obtain ⟨node, live⟩ := memAllocDirty_none asked
    have before : ∀ a ∈ p :: rest, a ∈ m₁.arena.live := by
      rw [live]
      exact consistent.live
    have walk' : Chain (m₁.freed [p]).next (some next) rest none := by
      rw [following] at walk
      apply walk.congr
      intro a _
      exact congrArg Node.next (congrFun node a)
    have freed := freeChunks_spec walk' (live_rest before once) enough
    refine ⟨none, m₁.freed (p :: rest), ?_, .refused ?_ fun a _ _ => congrFun node a⟩
    · simp only [bufMakeContinuous, memRealloc, get_live pLive, following,
        if_neg (Nat.not_le.mpr small), asked, memFree_freed (before p mem_cons_self), freed,
        bind_eq_bind, bind_some]
      rfl
    · rw [live_freed, live]
  | some x =>
    obtain ⟨fresh, record, live, others, size⟩ := memAllocDirty_some asked
    have apart : ∀ a ∈ m.arena.live, a ≠ x := by
      rintro a old rfl
      exact fresh old
    set b : Node :=
      { m.node p with
        data := fun i => if i < (m.node p).size then (m.node p).data i else (m₁.node x).data i
        size := (m₁.node x).size } with b_eq
    have pStill : p ∈ (m₁.set x b).arena.live := by
      rw [set_arena, live]
      exact Finset.mem_insert_of_mem pLive
    have kept : ∀ a ∈ insert x (m.arena.live \ [p].toFinset),
        a ∈ ((m₁.set x b).freed [p]).arena.live := by
      intro a member
      rw [live_freed, set_arena, live, Finset.mem_sdiff, Finset.mem_insert]
      rcases Finset.mem_insert.mp member with rfl | old
      · exact ⟨.inl rfl, by simpa using (apart p pLive).symm⟩
      · exact ⟨.inr (Finset.mem_sdiff.mp old).1, (Finset.mem_sdiff.mp old).2⟩
    have self : ((m₁.set x b).freed [p]).node x = b := set_node_self
    have same : ∀ a ∈ m.arena.live, ((m₁.set x b).freed [p]).node a = m.node a := fun a old =>
      (set_node_of_ne (apart a old)).trans (others a (apart a old))
    have grown : Grown m ((m₁.set x b).freed [p]) p rest x := by
      refine ⟨record, ?_, ?_, ?_, ?_, ?_, ?_, kept x (Finset.mem_insert_self _ _),
        fun again => fresh (restLive x again), fun a member => kept a ?_,
        fun a member => same a (restLive a member)⟩
      · rw [self]
      · rw [self]
        apply map_congr_left
        intro i member
        have inside := consistent.inside p mem_cons_self
        have early := mem_range.mp member
        change i < (m.node p).len.toNat at early
        exact if_pos (show (m.node p).payload + i < (m.node p).size by omega)
      · rw [self]
      · rw [self]
      · rw [self]
      · rw [self]
        exact size
      · apply Finset.mem_insert_of_mem
        rw [Finset.mem_sdiff, List.mem_toFinset, mem_singleton]
        refine ⟨restLive a member, ?_⟩
        rintro rfl
        exact once member
    obtain ⟨m', moved, single, live', same'⟩ := grown.moved consistent enough
    refine ⟨some x, m', ?_, .single x single (fun old => absurd old fresh) ?_ fun a old _ => ?_⟩
    · have copied : m.memRealloc p ((m.node p).totLen.toNat + (m.node p).payload) =
          some (some x, (m₁.set x b).freed [p]) := by
        simp only [memRealloc, get_live pLive, if_neg (Nat.not_le.mpr small), asked,
          bind_eq_bind, bind_some]
        exact congrArg (Option.bind · fun m => some (some x, m)) (memFree_freed pStill)
      rw [← moved]
      simp only [bufMakeContinuous, get_live pLive, following, copied, bind_eq_bind,
        bind_some]
    · rw [live', live_freed, set_arena, live]
      ext a
      simp only [toFinset_cons, toFinset_nil, Finset.mem_insert, Finset.mem_sdiff,
        List.mem_toFinset, Finset.notMem_empty, or_false]
      rcases eq_or_ne a x with rfl | other
      · have unlike := apart p pLive
        have outside : a ∉ rest := fun again => fresh (restLive a again)
        simp [unlike.symm, outside]
      · simp only [other, false_or]
        tauto
    · rw [same' a (apart a old)]
      exact same a old

/-- `buf_make_continuous` makes a single buffer, and frees the other ones in any case. -/
theorem bufMakeContinuous_spec (consistent : Consistent m p nodes)
    (enough : nodes.length ≤ turns) :
    ∃ r m', bufMakeContinuous turns m (some p) = some (r, m') ∧ Continued m m' p nodes r := by
  obtain ⟨rest, rfl⟩ := consistent.cons
  have pLive := consistent.live p mem_cons_self
  obtain ⟨-, walk⟩ := Chain.cons_iff.mp consistent.walk
  have once := (nodup_cons.mp consistent.walk.nodup).1
  rw [length_cons] at enough
  have fewer : rest.length ≤ turns := by omega
  have restLive : ∀ a ∈ rest, a ∈ m.arena.live := fun a member =>
    consistent.live a (mem_cons_of_mem p member)
  cases following : (m.node p).next with
  | none =>
    have alone : rest = [] := by
      rw [following] at walk
      cases rest with
      | nil => rfl
      | cons b rest => simp at walk
    subst alone
    refine ⟨some p, m, ?_, .single p ⟨consistent, rfl, rfl⟩ (fun _ => rfl) ?_ fun _ _ _ => rfl⟩
    · simp only [bufMakeContinuous, get_live pLive, following, bind_eq_bind,
        bind_some]
    · ext a
      simp only [toFinset_cons, toFinset_nil, Finset.mem_insert, Finset.mem_sdiff,
        Finset.notMem_empty, or_false]
      rcases eq_or_ne a p with rfl | apart
      · simp [pLive]
      · simp [apart]
  | some next =>
    rcases Nat.lt_or_ge (m.node p).size ((m.node p).totLen.toNat + (m.node p).payload) with
      small | large
    · exact bufMakeContinuous_small consistent fewer following small
    · have grown : Grown m m p rest p :=
        ⟨rfl, rfl, rfl, rfl, rfl, rfl, large, pLive, once, restLive, fun _ _ => rfl⟩
      obtain ⟨m', moved, single, live, same⟩ := grown.moved consistent fewer
      refine ⟨some p, m', ?_, .single p single (fun _ => rfl) ?_ fun a _ other => ?_⟩
      · rw [← moved]
        simp only [bufMakeContinuous, memRealloc, get_live pLive, following, large, if_true,
          bind_eq_bind, bind_some]
      · rw [live]
        ext a
        simp only [toFinset_cons, Finset.mem_insert, Finset.mem_sdiff, List.mem_toFinset]
        rcases eq_or_ne a p with rfl | apart
        · simp [pLive, once]
        · simp [apart]
      · exact same a fun again => other (again ▸ mem_cons_self)

end Copying

section Headers

variable {m m' : Memory} {p : Nat} {nodes : List Nat} {k : Nat} {z : BitVec 16}

theorem bufAddHeader_iff (live : p ∈ m.arena.live) :
    m.bufAddHeader p z = some (true, m') ↔
      m.record ≤ (m.node p).payload - z.toInt ∧ m' = m.set p ((m.node p).shift z) := by
  simp only [bufAddHeader, get_live live, bind_eq_bind, bind_some]
  split
  · rename_i short
    refine ⟨fun result => by simp at result, fun ⟨room, _⟩ => absurd short (by omega)⟩
  · rename_i room
    constructor
    · intro result
      simp only [Option.some.injEq, Prod.mk.injEq, true_and] at result
      exact ⟨by omega, result.symm⟩
    · rintro ⟨-, rfl⟩
      rfl

theorem toInt_negative (small : k ≤ 32768) : (BitVec.ofInt 16 (-(k : Int))).toInt = -k := by
  rw [BitVec.toInt_ofInt, Int.bmod_def]
  omega

theorem toInt_positive (small : k ≤ 32767) : (BitVec.ofInt 16 (k : Int)).toInt = k := by
  rw [BitVec.toInt_ofInt, Int.bmod_def]
  omega

/-- `buf_add_header` with a negative size drops the first bytes, and the opposite undoes it. -/
def HeaderRight (m : Memory) (p : Nat) (nodes : List Nat) (k : Nat) : Prop :=
  ∃ m', m.bufAddHeader p (.ofInt 16 (-k)) = some (true, m') ∧ Consistent m' p nodes ∧
    m'.payload nodes = (m.payload nodes).drop k ∧
    (m'.node p).payload = (m.node p).payload + k ∧ m'.bufAddHeader p (.ofInt 16 k) = some (true, m)

theorem shift_negative (b : Node) (within : k ≤ b.len.toNat) (small : k ≤ 32767) :
    (b.shift (.ofInt 16 (-(k : Int)))).payload = b.payload + k ∧
      (b.shift (.ofInt 16 (-(k : Int)))).len.toNat = b.len.toNat - k ∧
      (b.shift (.ofInt 16 (-(k : Int)))).bytes = b.bytes.drop k := by
  have payload : (b.shift (.ofInt 16 (-(k : Int)))).payload = b.payload + k := by
    change ((b.payload : Int) - _).toNat = _
    rw [toInt_negative (by omega)]
    omega
  have len : (b.shift (.ofInt 16 (-(k : Int)))).len.toNat = b.len.toNat - k := by
    have range := b.len.isLt
    change (b.len + _).toNat = _
    rw [BitVec.toNat_add, BitVec.toNat_ofInt]
    omega
  refine ⟨payload, len, ?_⟩
  apply ext_getElem
  · rw [length_bytes, length_drop, length_bytes, len]
  · intro i early _
    simp only [Node.bytes, getElem_map, getElem_range, getElem_drop, payload,
      Nat.add_assoc]
    rfl

theorem shift_back (b : Node) (small : k ≤ 32767) :
    (b.shift (.ofInt 16 (-(k : Int)))).shift (.ofInt 16 k) = b := by
  have payload : (((b.payload : Int) - (BitVec.ofInt 16 (-(k : Int))).toInt).toNat -
      (BitVec.ofInt 16 (k : Int)).toInt).toNat = b.payload := by
    rw [toInt_negative (by omega), toInt_positive small]
    omega
  have back (a : UShort) : a + BitVec.ofInt 16 (-(k : Int)) + BitVec.ofInt 16 k = a := by
    rw [BitVec.add_assoc, ← BitVec.ofInt_add, Int.add_left_neg]
    simp
  rw [Node.shift, Node.shift]
  simp only [payload, back]

theorem header_right_iff (consistent : Consistent m p nodes) (within : k ≤ (m.node p).len.toNat) :
    HeaderRight m p nodes k ↔ k ≤ 32767 := by
  have pLive := consistent.live p consistent.walk.first_mem
  constructor
  · rintro ⟨m', dropped, -, -, moved, undone⟩
    obtain ⟨room, rfl⟩ := (bufAddHeader_iff pLive).mp dropped
    rw [set_node_self] at moved
    have first : ((m.node p).payload - (BitVec.ofInt 16 (-(k : Int))).toInt : Int).toNat =
        (m.node p).payload + k := moved
    have still : p ∈ (m.set p ((m.node p).shift (.ofInt 16 (-(k : Int))))).arena.live := pLive
    obtain ⟨-, restored⟩ := (bufAddHeader_iff still).mp undone
    have again := congrArg (fun memory => (memory.node p).payload) restored
    simp only [set_node_self] at again
    have second : (m.node p).payload = ((((m.node p).payload -
        (BitVec.ofInt 16 (-(k : Int))).toInt : Int).toNat : Int) -
          (BitVec.ofInt 16 (k : Int)).toInt).toNat := again
    rw [first, BitVec.toInt_ofInt, Int.bmod_def] at second
    rw [BitVec.toInt_ofInt, Int.bmod_def] at first
    have range := (m.node p).len.isLt
    omega
  · intro small
    obtain ⟨rest, rfl⟩ := consistent.cons
    obtain ⟨payload, len, bytes⟩ := shift_negative (m.node p) within small
    set m' := m.set p ((m.node p).shift (.ofInt 16 (-(k : Int)))) with m'_eq
    have self : m'.node p = (m.node p).shift (.ofInt 16 (-(k : Int))) := set_node_self
    have once := (nodup_cons.mp consistent.walk.nodup).1
    have others : ∀ a ∈ rest, m'.node a = m.node a := set_nodes once
    have whole := consistent.whole
    have behind := consistent.behind p mem_cons_self
    rw [total_cons] at whole
    have totals : m'.total rest = m.total rest :=
      total_congr fun a member => congrArg Node.len (others a member)
    refine ⟨m', (bufAddHeader_iff pLive).mpr ⟨?_, rfl⟩, ⟨?_, consistent.live, ?_, ?_, ?_⟩, ?_, ?_,
      (bufAddHeader_iff (show p ∈ m'.arena.live from pLive)).mpr ⟨?_, ?_⟩⟩
    · rw [toInt_negative (by omega)]
      omega
    · apply consistent.walk.congr
      intro a member
      rcases mem_cons.mp member with rfl | later
      · rw [self]
        rfl
      · rw [others a later]
    · have range := (m.node p).totLen.isLt
      rw [total_cons, totals, self, len]
      change ((m.node p).totLen + _).toNat = _
      rw [BitVec.toNat_add, BitVec.toNat_ofInt]
      omega
    · intro a member
      rcases mem_cons.mp member with rfl | later
      · rw [self, payload]
        exact behind.trans (Nat.le_add_right _ k)
      · rw [others a later]
        exact consistent.behind a member
    · intro a member
      have inside := consistent.inside a member
      rcases mem_cons.mp member with rfl | later
      · rw [self, payload, len]
        change _ ≤ (m.node a).size
        omega
      · rw [others a later]
        exact inside
    · have later := payload_congr fun a member => congrArg Node.bytes (others a member)
      change (m'.node p).bytes ++ m'.payload rest = ((m.node p).bytes ++ m.payload rest).drop k
      rw [later, self, bytes, drop_append_of_le_length]
      rw [length_bytes]
      exact within
    · rw [self, payload]
    · rw [self, payload, toInt_positive small]
      change (m.record : Int) ≤ _
      omega
    · rw [self, shift_back _ small, m'_eq]
      simp [set]

end Headers

section Operations

variable {m : Memory} {p t k : Nat} {nodes ts : List Nat} {size : UShort}

/-- `buf_chain` concatenates two chains. -/
def ChainRight (m : Memory) (h t : Nat) (hs ts : List Nat) : Prop :=
  ∀ turns, hs.length ≤ turns → ∃ m', bufChain turns m h t = some m' ∧
    Consistent m' h (hs ++ ts) ∧ m'.payload (hs ++ ts) = m.payload hs ++ m.payload ts ∧
    m'.arena = m.arena

theorem chain_right_iff (first : Consistent m p nodes) (second : Consistent m t ts)
    (fits : m.total nodes + m.total ts < 65536) :
    ChainRight m p t nodes ts ↔ nodes.Disjoint ts := by
  constructor
  · intro right
    obtain ⟨m', -, consistent, -⟩ := right nodes.length le_rfl
    have once := consistent.walk.nodup
    intro a left right
    exact (nodup_append.mp once).2.2 a left a right rfl
  · intro disjoint turns enough
    exact bufChain_spec first second (fun a left right => disjoint left right) fits enough

/-- What the operations on chains of buffers are for. -/
structure OperationsRight (m : Memory) (p t : Nat) (nodes ts : List Nat) (size : UShort) (k : Nat) :
    Prop where
  chain : ChainRight m p t nodes ts
  truncate : TruncateRight m p nodes size
  copy : ∀ turns, nodes.length ≤ turns → ∃ r m', bufCopy turns m (some p) = some (r, m') ∧
    Copied m m' p nodes r
  continuous : ∀ turns, nodes.length ≤ turns → ∃ r m',
    bufMakeContinuous turns m (some p) = some (r, m') ∧ Continued m m' p nodes r
  header : HeaderRight m p nodes k

/-- The operations keep the lengths and the payload, but `buf_truncate` only when it cuts at most
one buffer off, and `buf_add_header` only as far as its argument reaches. -/
theorem operations_right_iff (first : Consistent m p nodes) (second : Consistent m t ts)
    (fits : m.total nodes + m.total ts < 65536) (within : k ≤ (m.node p).len.toNat) :
    OperationsRight m p t nodes ts size k ↔
      nodes.Disjoint ts ∧ (m.leftOver size.toNat nodes).length ≤ 1 ∧ k ≤ 32767 := by
  constructor
  · rintro ⟨chain, truncate, -, -, header⟩
    exact ⟨(chain_right_iff first second fits).mp chain,
      (truncate_right_iff first size).mp truncate,
      (header_right_iff first within).mp header⟩
  · rintro ⟨disjoint, few, small⟩
    exact
      { chain := (chain_right_iff first second fits).mpr disjoint
        truncate := (truncate_right_iff first size).mpr few
        copy := fun _ enough => bufCopy_spec first enough
        continuous := fun _ enough => bufMakeContinuous_spec first enough
        header := (header_right_iff first within).mpr small }

/-- A chain of three buffers of one byte, and a single buffer. -/
def threeAndOne : Memory where
  record := 12
  arena := { meets := fun _ => true, asked := 4, live := {0, 1, 2, 3}, fresh := by decide }
  node a :=
    { next := if a < 2 then some (a + 1) else none
      payload := 12
      totLen := if a = 0 then 3 else 1
      len := 1
      data := .ofNat 8
      size := 16 }
  slack _ := 0
  trim request _ := request
  trim_ge _ _ _ := le_rfl

theorem threeAndOne_three : Consistent threeAndOne 0 [0, 1, 2] where
  walk := by
    simp only [Chain.cons_iff, Chain.nil_iff]
    decide
  live := by decide
  whole := by decide
  behind := by decide
  inside := by decide

theorem threeAndOne_one : Consistent threeAndOne 3 [3] where
  walk := by
    simp only [Chain.cons_iff, Chain.nil_iff]
    decide
  live := by decide
  whole := by decide
  behind := by decide
  inside := by decide

theorem operations_right_three : OperationsRight threeAndOne 0 3 [0, 1, 2] [3] 2 1 :=
  (operations_right_iff threeAndOne_three threeAndOne_one (by decide) (by decide)).mpr
    ⟨by simp, by decide, by decide⟩

theorem bufTruncate_three : Consistent threeAndOne 0 [0, 1, 2] ∧
    (∀ turns, 3 ≤ turns → bufTruncate turns threeAndOne 0 0 = none) ∧
    ¬TruncateRight threeAndOne 0 [0, 1, 2] 0 := by
  refine ⟨threeAndOne_three, fun turns enough => ?_, fun right => ?_⟩
  · exact bufTruncate_many threeAndOne_three (by decide) enough
  · have few := (truncate_right_iff threeAndOne_three 0).mp right
    exact absurd few (by decide)

end Operations

end Memory
end Uos.Bufs
