import Mathlib.Logic.Function.Basic
import Uos.Library.Pieces

/-!
# The heap

The functions of `mem/mem.c` on one pool.  Sizes and addresses are numbers below `2 ^ bits`, and
every operation on them is taken modulo that.  The list of holes has one owner, the pool, and is
a list of addresses here; the headers in front of the blocks are functions of their addresses.
-/

namespace Uos.Mem

/-- The words of a machine. -/
structure Target where
  /-- The bits of a `size_t`. -/
  bits : Nat
  /-- A pointer has `2 ^ log` bytes. -/
  log : Nat
  /-- `MEM_DEBUG` -/
  debug : Bool
  wide : log + 4 ≤ bits

namespace Target

/-- `SIZEOF_POINTER` -/
def pointer (t : Target) : Nat :=
  2 ^ t.log

/-- `sizeof(mheader_t)`: a size, a pool pointer and a magic number. -/
def header (t : Target) : Nat :=
  (if t.debug then 3 else 2) * t.pointer

/-- The value of a `size_t`. -/
def wrap (t : Target) (x : Nat) : Nat :=
  x % 2 ^ t.bits

/-- The difference of two `size_t`. -/
def sub (t : Target) (x y : Nat) : Nat :=
  t.wrap (x + 2 ^ t.bits - y)

/-- `MEM_ALIGN` -/
def memAlign (t : Target) (x : Nat) : Nat :=
  t.wrap (x + t.pointer - 1) / t.pointer * t.pointer

def required (t : Target) (request : Nat) : Nat :=
  let request := if request < t.pointer then t.pointer else request
  t.memAlign (t.wrap (request + t.header))

def splittable (t : Target) (required : Nat) : Nat :=
  t.wrap (t.wrap (required + t.header) + 2 * t.pointer)

end Target

/-- The magic number of a header. -/
inductive Magic
  | none
  | hole
  | block
  deriving DecidableEq

/-- `mem_pool_t`, with the headers of its memory. -/
structure Pool where
  freeSize : Nat := 0
  /-- The addresses of the holes. -/
  freeList : List Nat := []
  /-- The size in the header at an address, including the header. -/
  size : Nat → Nat := fun _ => 0
  magic : Nat → Magic := fun _ => .none

namespace Pool

def piece (m : Pool) (h : Nat) : Piece :=
  ⟨h, m.size h⟩

def setSize (m : Pool) (h size : Nat) : Pool :=
  { m with size := Function.update m.size h size }

def setMagic (m : Pool) (h : Nat) (magic : Magic) : Pool :=
  { m with magic := Function.update m.magic h magic }

/-- Find the first hole that meets a requirement: the holes in front of it, and the others. -/
def scan (t : Target) (m : Pool) (required : Nat) : List Nat → Option (List Nat × List Nat)
  | [] => some ([], [])
  | h :: rest =>
    if t.debug ∧ m.magic h ≠ .hole then none
    else if required ≤ m.size h then some ([], h :: rest)
    else (scan t m required rest).map fun (front, found) => (h :: front, found)

/-- Remove a chunk of space from a hole, and release what is left as a new hole. -/
def split (t : Target) (m : Pool) (required : Nat) (front : List Nat) (h : Nat)
    (rest : List Nat) : Pool :=
  if t.splittable required ≤ m.size h then
    let newh := t.wrap (h + required)
    let m := (m.setSize newh (t.sub (m.size h) required)).setSize h required
    { m.setMagic newh .hole with freeList := front ++ newh :: rest }
  else { m with freeList := front ++ rest }

/-- `mem_alloc_dirty`: the block, or no block. -/
def memAllocDirty (t : Target) (m : Pool) (request : Nat) : Option (Option Nat × Pool) := do
  let required := t.required request
  match ← m.scan t required m.freeList with
  | (_, []) => some (none, m)
  | (front, h :: rest) =>
    let m := (m.split t required front h rest).setMagic h .block
    some (some (t.wrap (h + t.header)), { m with freeSize := t.sub m.freeSize (m.size h) })

/-- `mem_alloc`, with the memory that is filled with zeroes. -/
def memAlloc (t : Target) (m : Pool) (required : Nat) :
    Option (Option (Nat × Piece) × Pool) := do
  let (p, m) ← m.memAllocDirty t required
  some (p.map fun p => (p, ⟨p, required⟩), m)

/-- The loop of `make_hole_locked`, over the holes from some place on. -/
def makeHoleLoop (t : Target) (newh : Nat) (m : Pool) : List Nat → Option (List Nat × Pool)
  | [] => some ([newh], m)
  | h :: rest =>
    if newh < h then
      if t.wrap (newh + m.size newh) = h then
        some (newh :: rest, m.setSize newh (t.wrap (m.size newh + m.size h)))
      else some (newh :: h :: rest, m)
    else if t.wrap (h + m.size h) = newh then
      let m := m.setSize h (t.wrap (m.size h + m.size newh))
      match rest with
      | [] => if t.wrap (h + m.size h) = 0 then none else some ([h], m)
      | next :: others =>
        if t.wrap (h + m.size h) = next then
          some (h :: others, m.setSize h (t.wrap (m.size h + m.size next)))
        else some (h :: next :: others, m)
    else (makeHoleLoop t newh m rest).map fun (holes, m) => (h :: holes, m)

def makeHoleLocked (t : Target) (m : Pool) (newh : Nat) : Option Pool := do
  let m := { m with freeSize := t.wrap (m.freeSize + m.size newh) }
  let (freeList, m) ← makeHoleLoop t newh (m.setMagic newh .hole) m.freeList
  some { m with freeList }

def blockHeader (t : Target) (m : Pool) (block : Nat) : Option Nat :=
  let h := t.sub block t.header
  if t.debug ∧ m.magic h ≠ .block then none else some h

/-- `mem_free` -/
def memFree (t : Target) (m : Pool) (block : Nat) : Option Pool :=
  if block = 0 then some m
  else do
    let h ← m.blockHeader t block
    m.makeHoleLocked t h

/-- `mem_realloc` -/
def memRealloc (t : Target) (m : Pool) (oldBlock bytes : Nat) :
    Option (Option Nat × Pool) :=
  if oldBlock = 0 then some (none, m)
  else do
    let h ← m.blockHeader t oldBlock
    let oldSize := t.sub (m.size h) t.header
    if bytes ≤ oldSize then some (some oldBlock, m)
    else do
      let (block, m) ← m.memAlloc t bytes
      let m ← m.makeHoleLocked t h
      some (block.map Prod.fst, m)

/-- `mem_truncate` -/
def memTruncate (t : Target) (m : Pool) (block request : Nat) : Option Pool :=
  if block = 0 then some m
  else do
    let required := t.required request
    let h ← m.blockHeader t block
    if t.splittable required ≤ m.size h then
      let newh := t.wrap (h + required)
      let m := (m.setSize newh (t.sub (m.size h) required)).setSize h required
      m.makeHoleLocked t newh
    else some m

/-- `mem_size` -/
def memSize (t : Target) (m : Pool) (block : Nat) : Option Nat :=
  if block = 0 then some 0
  else (m.blockHeader t block).map fun h => t.sub (m.size h) t.header

/-- `mem_init`; the list of holes is empty if it begins with the null pointer. -/
def memInit (t : Target) (m : Pool) (start stop : Nat) : Option Pool :=
  if start < stop then
    let m := (m.setSize start (t.sub stop start)).setMagic start .hole
    some
      { m with
        freeList := if start = 0 then [] else start :: m.freeList
        freeSize := t.wrap (m.freeSize + m.size start) }
  else none

end Pool

/-- A call on a pool. -/
inductive Call
  | alloc (request : Nat)
  | allocDirty (request : Nat)
  | free (block : Nat)
  | realloc (block request : Nat)
  | truncate (block request : Nat)
  deriving DecidableEq

/-- A pool and the blocks that its user holds. -/
structure Use where
  pool : Pool := {}
  blocks : List Nat := []

namespace Use

def call (t : Target) (use : Use) : Call → Option Use
  | .alloc request => do
    let (p, pool) ← use.pool.memAlloc t request
    some { pool, blocks := (p.map Prod.fst).toList ++ use.blocks }
  | .allocDirty request => do
    let (p, pool) ← use.pool.memAllocDirty t request
    some { pool, blocks := p.toList ++ use.blocks }
  | .free block => do
    let pool ← use.pool.memFree t block
    some { pool, blocks := use.blocks.erase block }
  | .realloc block request => do
    let (p, pool) ← use.pool.memRealloc t block request
    some { pool, blocks := p.toList ++ use.blocks.erase block }
  | .truncate block request => do
    let pool ← use.pool.memTruncate t block request
    some { use with pool }

def run (t : Target) (calls : List Call) (use : Use) : Option Use :=
  calls.foldlM (·.call t ·) use

end Use

/-- `mem_init` for several regions, in this order. -/
def memInitAll (t : Target) (regions : List Piece) : Option Pool :=
  regions.foldlM (fun m region => m.memInit t region.start region.stop) {}

end Uos.Mem
