import Mathlib.Data.List.Range
import Uos.Mem.Heap

/-!
# Queues of blocks

The functions of `mem/mem-queue.h`.  The ring runs backwards: the first block lies at `tail`, and
each next one in front of it.
-/

namespace Uos.Mem

open List

/-- `mem_queue_t`, with its array; places are counted from the beginning of the array. -/
structure Queue where
  msgNum : Int
  count : Int
  tail : Int
  /-- The address of the array. -/
  queue : Nat
  /-- The number of pointers in the block that was allocated for the array. -/
  slots : Nat
  cells : Int → Nat

/-- The number of pointers in `msg_num * 4` bytes. -/
def Target.slots (t : Target) (msgNum : Int) : Nat :=
  (msgNum * 4 % 2 ^ t.bits).toNat / t.pointer

namespace Queue

/-- `mem_queue_init`, for the address that `mem_alloc` returned. -/
def memQueueInit (t : Target) (queue : Nat) (msgNum : Int) : Option Queue :=
  if queue = 0 then none
  else
    some
      { msgNum, queue
        count := 0
        tail := 0
        slots := t.slots msgNum
        cells := fun _ => 0 }

def load (q : Queue) (place : Int) : Option Nat :=
  if 0 ≤ place ∧ place < q.slots then some (q.cells place) else none

def store (q : Queue) (place : Int) (block : Nat) : Option Queue :=
  if 0 ≤ place ∧ place < q.slots then
    some { q with cells := Function.update q.cells place block }
  else none

/-- A place that ran out of the front of the array comes in again at its end. -/
def around (q : Queue) (place : Int) : Int :=
  if place < 0 then place + q.msgNum else place

/-- The loop of `mem_queue_free` and what follows it: the addresses given to `mem_free`. -/
def freeLoop (q : Queue) : Nat → Int → Option (List Nat)
  | 0, _ => none
  | turns + 1, tail =>
    if q.count ≠ 0 then do
      let block ← q.load tail
      let freed ← q.freeLoop turns (q.around (tail - 1))
      some (block :: freed)
    else if q.queue ≠ 0 then do
      let block ← q.load 0
      some [block]
    else some []

/-- `mem_queue_free` -/
def memQueueFree (turns : Nat) (q : Queue) : Option (List Nat) :=
  q.freeLoop turns q.tail

/-- `mem_queue_put` -/
def memQueuePut (q : Queue) (block : Nat) : Option Queue :=
  if q.count < q.msgNum then do
    let q ← q.store (q.around (q.tail - q.count)) block
    some { q with count := q.count + 1 }
  else none

/-- `mem_queue_get`: the block, if there is one. -/
def memQueueGet (q : Queue) : Option (Option Nat × Queue) :=
  if 0 ≤ q.tail ∧ q.tail < q.msgNum then
    if 0 < q.count then do
      let block ← q.load q.tail
      some (some block, { q with tail := q.around (q.tail - 1), count := q.count - 1 })
    else some (none, q)
  else none

end Queue

/-- A call on a queue. -/
inductive QueueCall
  | put (block : Nat)
  | get
  deriving DecidableEq

namespace Queue

def run : List QueueCall → Queue → Option (List Nat × Queue)
  | [], q => some ([], q)
  | .put block :: calls, q => do
    let q ← q.memQueuePut block
    run calls q
  | .get :: calls, q => do
    let (block, q) ← q.memQueueGet
    let (blocks, q) ← run calls q
    some (block.toList ++ blocks, q)

end Queue

namespace QueueCall

def puts : List QueueCall → List Nat
  | [] => []
  | .put block :: calls => block :: puts calls
  | .get :: calls => puts calls

/-- Whether no block is put into a full queue, when there are `count` blocks in it. -/
def Allowed (msgNum : Int) : List QueueCall → Int → Prop
  | [], _ => True
  | .put _ :: calls, count => count < msgNum ∧ Allowed msgNum calls (count + 1)
  | .get :: calls, count => Allowed msgNum calls (max 0 (count - 1))

end QueueCall

namespace Queue

variable {q q' : Queue} {block : Nat}

def place (q : Queue) (i : Nat) : Int :=
  q.around (q.tail - i)

def contents (q : Queue) : List Nat :=
  (List.range q.count.toNat).map fun i => q.cells (q.place i)

/-- The queue lies in its array. -/
structure Valid (q : Queue) : Prop where
  tail_nonneg : 0 ≤ q.tail
  tail_lt : q.tail < q.msgNum
  count_nonneg : 0 ≤ q.count
  count_le : q.count ≤ q.msgNum
  inside : q.msgNum ≤ q.slots
  given : q.queue ≠ 0

theorem around_pred (q : Queue) {i : Nat} (tail_nonneg : 0 ≤ q.tail)
    (less : (i : Int) < q.msgNum - 1) :
    q.around (q.around (q.tail - 1) - i) = q.place (i + 1) := by
  simp only [place, around]
  split_ifs <;> omega

theorem Valid.put (valid : q.Valid) (room : q.count < q.msgNum) (block : Nat) :
    ∃ q', q.memQueuePut block = some q' ∧ q'.Valid ∧ q'.contents = q.contents ++ [block] ∧
      q'.count = q.count + 1 ∧ q'.msgNum = q.msgNum ∧ q'.queue = q.queue := by
  obtain ⟨tail_nonneg, tail_lt, count_nonneg, count_le, inside, given⟩ := valid
  have place : 0 ≤ q.around (q.tail - q.count) ∧ q.around (q.tail - q.count) < q.slots := by
    rw [around]
    split_ifs <;> omega
  refine ⟨{ q with
    cells := Function.update q.cells (q.around (q.tail - q.count)) block
    count := q.count + 1 }, ?_, ⟨tail_nonneg, tail_lt, by dsimp only; omega, by dsimp only; omega,
      inside, given⟩, ?_, rfl, rfl, rfl⟩
  · rw [memQueuePut, if_pos room, store, if_pos place]
    rfl
  · have more : (q.count + 1).toNat = q.count.toNat + 1 := by omega
    have last : q.around (q.tail - q.count) = q.place q.count.toNat := by
      rw [Queue.place, Int.toNat_of_nonneg count_nonneg]
    have apart : ∀ i < q.count.toNat, q.place i ≠ q.place q.count.toNat := by
      intro i less
      simp only [Queue.place, around]
      split_ifs <;> omega
    have cells : (List.range (q.count.toNat + 1)).map
        (fun i => Function.update q.cells (q.place q.count.toNat) block (q.place i)) =
          q.contents ++ [block] := by
      rw [range_succ, map_append, contents]
      congr 1
      · apply map_congr_left
        intro i member
        exact Function.update_of_ne (apart i (mem_range.mp member)) ..
      · rw [map_singleton, Function.update_self]
    rw [← cells, contents, more, last]
    rfl

theorem Valid.get (valid : q.Valid) :
    ∃ q', q.memQueueGet = some (q.contents.head?, q') ∧ q'.Valid ∧ q'.contents = q.contents.tail ∧
      q'.count = max 0 (q.count - 1) ∧ q'.msgNum = q.msgNum ∧ q'.queue = q.queue := by
  obtain ⟨tail_nonneg, tail_lt, count_nonneg, count_le, inside, given⟩ := valid
  rw [memQueueGet, if_pos ⟨tail_nonneg, tail_lt⟩]
  split
  · rename_i filled
    have size : q.count.toNat = (q.count - 1).toNat + 1 := by omega
    have first : q.contents = q.cells q.tail ::
        (List.range (q.count - 1).toNat).map fun i => q.cells (q.place (i + 1)) := by
      rw [contents, size, range_succ_eq_map, map_cons, map_map]
      congr 2
      rw [place, around, if_neg (by simpa using tail_nonneg), Int.natCast_zero, Int.sub_zero]
    refine ⟨{ q with tail := q.around (q.tail - 1), count := q.count - 1 }, ?_, ?_, ?_,
      ?_, rfl, rfl⟩
    · rw [load, if_pos ⟨tail_nonneg, by omega⟩, first]
      rfl
    · have place : 0 ≤ q.around (q.tail - 1) ∧ q.around (q.tail - 1) < q.msgNum := by
        rw [around]
        split_ifs <;> omega
      exact ⟨place.left, place.right, by dsimp only; omega, by dsimp only; omega, inside, given⟩
    · rw [first, tail_cons, contents]
      apply map_congr_left
      intro i member
      have less := mem_range.mp member
      dsimp only at less
      exact congrArg q.cells (q.around_pred tail_nonneg (by omega))
    · dsimp only
      omega
  · rename_i empty
    have none_left : q.count = 0 := by omega
    have blank : q.contents = [] := by
      rw [contents, none_left]
      rfl
    exact ⟨q, by rw [blank]; rfl, ⟨tail_nonneg, tail_lt, count_nonneg, count_le, inside, given⟩,
      by rw [blank]; rfl, by omega, rfl, rfl⟩

theorem Valid.run {calls : List QueueCall} (valid : q.Valid)
    (allowed : QueueCall.Allowed q.msgNum calls q.count) :
    ∃ blocks q', q.run calls = some (blocks, q') ∧ q'.Valid ∧ q'.queue = q.queue ∧
      q.contents ++ QueueCall.puts calls = blocks ++ q'.contents := by
  induction calls generalizing q with
  | nil => exact ⟨[], q, rfl, valid, rfl, by simp [QueueCall.puts]⟩
  | cons call calls ih =>
    cases call with
    | put block =>
      obtain ⟨next, puts, valid, contents, count, msgNum, queue⟩ := valid.put allowed.left block
      have rest := allowed.right
      rw [← count, ← msgNum] at rest
      obtain ⟨blocks, q', runs, valid, same, order⟩ := ih valid rest
      refine ⟨blocks, q', ?_, valid, same.trans queue, ?_⟩
      · rw [Queue.run, puts]
        exact runs
      · rw [← order, contents, append_assoc]
        rfl
    | get =>
      obtain ⟨next, gets, valid, contents, count, msgNum, queue⟩ := valid.get
      have rest : QueueCall.Allowed next.msgNum calls next.count := by
        rw [count, msgNum]
        exact allowed
      obtain ⟨blocks, q', runs, valid, same, order⟩ := ih valid rest
      refine ⟨q.contents.head?.toList ++ blocks, q', ?_, valid, same.trans queue, ?_⟩
      · rw [Queue.run, gets]
        simp only [Option.bind_eq_bind, Option.bind_some, runs]
      · rw [append_assoc, ← order, contents, ← append_assoc]
        congr 1
        cases q.contents <;> rfl

/-- The loop of `mem_queue_free` does not change `count`: it never ends if there are blocks. -/
theorem freeLoop_of_filled (filled : q.count ≠ 0) (turns : Nat) (tail : Int) :
    q.freeLoop turns tail = none := by
  induction turns generalizing tail with
  | zero => rfl
  | succ turns ih =>
    rw [freeLoop, if_pos filled, ih]
    cases q.load tail <;> rfl

theorem Valid.freeLoop_of_empty (valid : q.Valid) (empty : q.count = 0) (turns : Nat) (tail : Int) :
    q.freeLoop (turns + 1) tail = some [q.cells 0] := by
  have inside := valid.inside
  have tail_nonneg := valid.tail_nonneg
  have tail_lt := valid.tail_lt
  rw [freeLoop, if_neg (by simp [empty]), if_pos valid.given, load, if_pos ⟨le_rfl, by omega⟩]
  rfl

/-- `mem_queue_free` ends, and frees the blocks and the array. -/
def Disposed (q : Queue) : Prop :=
  ∃ turns freed, memQueueFree turns q = some freed ∧ freed.Perm (q.contents ++ [q.queue])

theorem Valid.disposed_iff (valid : q.Valid) :
    q.Disposed ↔ q.count = 0 ∧ q.cells 0 = q.queue := by
  constructor
  · rintro ⟨turns, freed, frees, all⟩
    rw [memQueueFree] at frees
    rcases eq_or_ne q.count 0 with empty | filled
    · cases turns with
      | zero => cases frees
      | succ turns =>
        rw [valid.freeLoop_of_empty empty] at frees
        cases frees
        have blank : q.contents = [] := by
          rw [contents, empty]
          rfl
        rw [blank] at all
        exact ⟨empty, by simpa using all⟩
    · rw [freeLoop_of_filled filled] at frees
      cases frees
  · rintro ⟨empty, own⟩
    refine ⟨1, [q.cells 0], valid.freeLoop_of_empty empty 0 q.tail, ?_⟩
    rw [contents, empty, own]
    exact .refl _

/-- The blocks come out in the order in which they are put in, none lost or repeated. -/
def Orderly (q : Queue) : Prop :=
  ∀ calls, QueueCall.Allowed q.msgNum calls q.count → ∃ blocks q',
    q.run calls = some (blocks, q') ∧ q.contents ++ QueueCall.puts calls = blocks ++ q'.contents

theorem inside_of_put (puts : q.memQueuePut block = some q') :
    q.around (q.tail - q.count) < q.slots ∧ q'.tail = q.tail ∧ q'.count = q.count + 1 ∧
      q'.msgNum = q.msgNum ∧ q'.slots = q.slots := by
  rw [memQueuePut] at puts
  split at puts
  · rw [store] at puts
    split at puts
    · rename_i inside
      cases puts
      exact ⟨inside.right, rfl, rfl, rfl, rfl⟩
    · cases puts
  · cases puts

theorem inside_of_orderly (orderly : q.Orderly) (tail : q.tail = 0) (count : q.count = 0)
    (positive : 0 < q.msgNum) : q.msgNum ≤ q.slots := by
  rcases lt_or_ge 1 q.msgNum with several | single
  · obtain ⟨blocks, q', runs, -⟩ := orderly [.put 0, .put 0]
      ⟨by omega, by omega, trivial⟩
    obtain ⟨first, puts, runs⟩ := Option.bind_eq_some_iff.mp runs
    obtain ⟨second, puts_again, -⟩ := Option.bind_eq_some_iff.mp runs
    obtain ⟨-, tail_same, count_more, msgNum, slots⟩ := inside_of_put puts
    obtain ⟨inside, -⟩ := inside_of_put puts_again
    rw [tail_same, count_more, tail, count, around, if_pos (by decide), msgNum, slots] at inside
    omega
  · obtain ⟨blocks, q', runs, -⟩ := orderly [.put 0] ⟨by omega, trivial⟩
    obtain ⟨first, puts, -⟩ := Option.bind_eq_some_iff.mp runs
    obtain ⟨inside, -⟩ := inside_of_put puts
    rw [tail, count, around, if_neg (by decide)] at inside
    omega

end Queue

/-- The blocks come out in order if and only if the memory for the array is large enough.  Then
`mem_queue_free` does what it should if and only if the queue is empty and the first pointer of the
array is the address of the array itself. -/
theorem memQueue_iff (t : Target) {queue : Nat} (given : queue ≠ 0) {msgNum : Int}
    (positive : 0 < msgNum) :
    ∃ q, Queue.memQueueInit t queue msgNum = some q ∧
      (q.Orderly ↔ msgNum ≤ t.slots msgNum) ∧
      (msgNum ≤ t.slots msgNum → ∀ calls blocks q', QueueCall.Allowed msgNum calls 0 →
        q.run calls = some (blocks, q') → (q'.Disposed ↔ q'.count = 0 ∧ q'.cells 0 = queue)) := by
  refine ⟨_, if_neg given, ⟨fun orderly => ?_, fun inside calls allowed => ?_⟩,
    fun inside calls blocks q' allowed runs => ?_⟩
  · exact Queue.inside_of_orderly orderly rfl rfl positive
  · have valid : Queue.Valid ⟨msgNum, 0, 0, queue, t.slots msgNum, fun _ => 0⟩ :=
      ⟨le_rfl, positive, le_rfl, positive.le, inside, given⟩
    obtain ⟨blocks, q', runs, -, -, order⟩ := valid.run allowed
    exact ⟨blocks, q', runs, order⟩
  · have valid : Queue.Valid ⟨msgNum, 0, 0, queue, t.slots msgNum, fun _ => 0⟩ :=
      ⟨le_rfl, positive, le_rfl, positive.le, inside, given⟩
    obtain ⟨others, last, runs', valid', same, -⟩ := valid.run allowed
    have equal := Option.some.inj (runs'.symm.trans runs)
    obtain rfl : last = q' := congrArg Prod.snd equal
    rw [valid'.disposed_iff, same]

theorem memQueue_two_blocks :
    ∃ q, Queue.memQueueInit ⟨16, 1, true, by decide⟩ 300 2 = some q ∧ q.Orderly := by
  obtain ⟨q, inits, orderly, -⟩ := memQueue_iff ⟨16, 1, true, by decide⟩
    (show (300 : Nat) ≠ 0 by decide) (show (0 : Int) < 2 by decide)
  exact ⟨q, inits, orderly.mpr (by decide)⟩

/-- With one block in the queue, `mem_queue_free` does not end. -/
theorem memQueueFree_endless :
    ∃ q q', Queue.memQueueInit ⟨16, 1, true, by decide⟩ 300 2 = some q ∧
      q.run [.put 10] = some ([], q') ∧ ¬ q'.Disposed := by
  refine ⟨_, _, rfl, rfl, ?_⟩
  rintro ⟨turns, freed, frees, -⟩
  rw [Queue.memQueueFree, Queue.freeLoop_of_filled (by decide)] at frees
  cases frees

end Uos.Mem
