import Mathlib.Algebra.BigOperators.Fin
import Mathlib.Algebra.Ring.Nat
import Mathlib.Data.Fin.Basic
import Uos.Library.Places

/-!
# Queues of packets with priorities

The functions of `buf/buf-queue.c` and `buf/buf-prio.c`.  The queues of the eight priorities are
rings that run backward through parts of one array; pointers into it are integers.  Assertions are
left out.
-/

namespace Uos.Bufs

open Function List

/-- A machine: the number of values of a `small_uint_t`, and the size of a pointer. -/
structure Words where
  small : Nat
  pointer : Nat
  small_pos : 0 < small
  pointer_pos : 0 < pointer

/-- A `buf_t *` that is not null. -/
abbrev Packet := Nat

/-- `buf_queue_t` -/
structure Queue where
  tail : Int
  count : Nat
  queue : Int
  size : Nat
  deriving DecidableEq

abbrev Cells := Int → Packet

namespace Queue

def wrap (q : Queue) (p : Int) : Int :=
  if p < q.queue then p + q.size else p

/-- `buf_queue_init` -/
def bufQueueInit (w : Words) (buf : Int) (bytes : Nat) : Queue where
  tail := buf
  count := 0
  queue := buf
  size := bytes / w.pointer % w.small

/-- `buf_queue_get` -/
def bufQueueGet (cells : Cells) (q : Queue) : Option Packet × Queue :=
  if q.count = 0 then (none, q)
  else (some (cells q.tail), { q with tail := q.wrap (q.tail - 1), count := q.count - 1 })

/-- `buf_queue_put` -/
def bufQueuePut (w : Words) (cells : Cells) (q : Queue) (p : Packet) : Cells × Queue :=
  (Function.update cells (q.wrap (q.tail - q.count)) p,
    { q with count := (q.count + 1) % w.small })

end Queue

/-- `BUF_PRIO_NQ` -/
abbrev Prio := Fin 8

/-- `buf_prio_queue_t`, with its array. -/
structure PrioQueue where
  count : Int
  size : Int
  queue : Prio → Queue
  cells : Cells

namespace PrioQueue

def setQueue (q : PrioQueue) (k : Prio) (qq : Queue) : PrioQueue :=
  { q with queue := Function.update q.queue k qq }

/-- `buf_queue_get`, on one of the queues. -/
def getFrom (q : PrioQueue) (k : Prio) : Option Packet × PrioQueue :=
  let (p, qq) := (q.queue k).bufQueueGet q.cells
  (p, q.setQueue k qq)

/-- `buf_queue_put`, on one of the queues. -/
def putInto (w : Words) (q : PrioQueue) (k : Prio) (p : Packet) : PrioQueue :=
  let (cells, qq) := (q.queue k).bufQueuePut w q.cells p
  { q with cells, queue := Function.update q.queue k qq }

/-- `buf_prio_queue_get` -/
def bufPrioQueueGet (q : PrioQueue) : Option Packet × PrioQueue :=
  if q.count ≤ 0 then (none, q)
  else
    match Fin.findRev? fun k => (q.queue k).count ≠ 0 with
    | some k => ({ q with count := q.count - 1 }).getFrom k
    | none => (none, { q with count := 0 })

/-- `buf_prio_queue_put`: the result, and the packet that is freed. -/
def bufPrioQueuePut (w : Words) (q : PrioQueue) (p : Packet) (prio : Prio) :
    Nat × Option Packet × PrioQueue :=
  if q.count < q.size then (1, none, { q.putInto w prio p with count := q.count + 1 })
  else
    match Fin.find? fun k => k ≤ prio ∧ (q.queue k).count ≠ 0 with
    | some k =>
      let (old, q) := q.getFrom k
      (2, old, q.putInto w prio p)
    | none => (0, none, q)

/-- `buf_prio_queue_exchange` -/
def bufPrioQueueExchange (w : Words) (q : PrioQueue) (p : Packet) (prio : Prio) :
    Option Packet × PrioQueue :=
  if q.count ≤ 0 then (some p, q)
  else
    match Fin.findRev? fun k => prio ≤ k ∧ (q.queue k).count ≠ 0 with
    | some k =>
      let (r, q) := q.getFrom k
      (r, q.putInto w prio p)
    | none => (some p, q)

/-- `buf_prio_queue_init` -/
def bufPrioQueueInit (w : Words) (bytes : Nat) (cells : Cells) : PrioQueue where
  count := 0
  size := (bytes / 8 / w.pointer : Nat)
  queue k := .bufQueueInit w (k.val * (bytes / 8 / w.pointer : Nat)) (bytes / 8)
  cells

end PrioQueue

namespace Queue

variable {n : Nat} {cells : Cells} {k j : Prio} {q : Queue} {packets : List Packet} {p : Packet}

def place (q : Queue) (i : Nat) : Int :=
  q.wrap (q.tail - i)

/-- A queue for one of the priorities has some packets, the oldest first. -/
structure Holds (n : Nat) (cells : Cells) (k : Prio) (q : Queue) (packets : List Packet) :
    Prop where
  size : q.size = n
  base : q.queue = k.val * n
  front : 0 < n → q.queue ≤ q.tail
  back : 0 < n → q.tail < q.queue + n
  contents : Places.contents cells q.place q.count = packets

namespace Holds

theorem count (holds : Holds n cells k q packets) : q.count = packets.length := by
  rw [← holds.contents, Places.length_contents]

theorem place_bounds (holds : Holds n cells k q packets) {i : Nat} (inside : i < n) :
    q.queue ≤ q.place i ∧ q.place i < q.queue + n := by
  have front := holds.front (by omega)
  have back := holds.back (by omega)
  rw [place, wrap, holds.size]
  split <;> omega

theorem place_injective (holds : Holds n cells k q packets) {i i' : Nat} (inside : i < n)
    (inside' : i' < n) (same : q.place i = q.place i') : i = i' := by
  have front := holds.front (by omega)
  have back := holds.back (by omega)
  rw [place, place, wrap, wrap, holds.size] at same
  split at same <;> split at same <;> omega

theorem place_ne (holds : Holds n cells k q packets) {q' : Queue} {others : List Packet}
    (holds' : Holds n cells j q' others) (apart : j ≠ k) {i i' : Nat} (inside : i < n)
    (inside' : i' < n) : q'.place i ≠ q.place i' := by
  have bounds := holds.place_bounds inside'
  have bounds' := holds'.place_bounds inside
  rw [holds.base] at bounds
  rw [holds'.base] at bounds'
  rcases Nat.lt_or_gt_of_ne (fun same => apart (Fin.ext same) : j.val ≠ k.val) with less | greater
  · have gap : (j.val : Int) * n + n ≤ k.val * n := by
      exact_mod_cast (Nat.succ_mul j.val n) ▸ Nat.mul_le_mul_right n less
    omega
  · have gap : (k.val : Int) * n + n ≤ j.val * n := by
      exact_mod_cast (Nat.succ_mul k.val n) ▸ Nat.mul_le_mul_right n greater
    omega

theorem get (holds : Holds n cells k q (p :: packets)) (fits : (p :: packets).length ≤ n) :
    q.bufQueueGet cells =
        (some p, { q with tail := q.wrap (q.tail - 1), count := q.count - 1 }) ∧
      Holds n cells k { q with tail := q.wrap (q.tail - 1), count := q.count - 1 } packets := by
  have count := holds.count
  have positive : 0 < n := Nat.lt_of_lt_of_le (Nat.succ_pos _) fits
  have front := holds.front positive
  have back := holds.back positive
  rw [length_cons] at count fits
  have contents := holds.contents
  rw [count, Places.contents_succ] at contents
  obtain ⟨first, rest⟩ := List.cons.inj contents
  have start : q.place 0 = q.tail := by
    rw [place, wrap]
    split <;> omega
  rw [start] at first
  refine ⟨?_, holds.size, holds.base, fun _ => ?_, fun _ => ?_, ?_⟩
  · rw [bufQueueGet, if_neg (by omega), first]
  · change q.queue ≤ q.wrap (q.tail - 1)
    rw [wrap, holds.size]
    split <;> omega
  · change q.wrap (q.tail - 1) < q.queue + n
    rw [wrap, holds.size]
    split <;> omega
  · rw [← rest]
    change Places.contents cells _ (q.count - 1) = _
    rw [count, Nat.add_sub_cancel]
    apply Places.contents_congr
    intro i inside
    simp only [place, wrap, holds.size]
    split <;> split <;> split <;> omega

theorem put {w : Words} (holds : Holds n cells k q packets) (room : packets.length < n)
    (small : n < w.small) (p : Packet) :
    Holds n (q.bufQueuePut w cells p).1 k (q.bufQueuePut w cells p).2 (packets ++ [p]) where
  size := holds.size
  base := holds.base
  front := holds.front
  back := holds.back
  contents := by
    have count := holds.count
    have next : (q.count + 1) % w.small = q.count + 1 := Nat.mod_eq_of_lt (by omega)
    rw [← holds.contents]
    change Places.contents (Function.update cells (q.place q.count) p) q.place
      ((q.count + 1) % w.small) = _
    rw [next]
    apply Places.contents_put
    intro i before same
    have equal := holds.place_injective (by omega) (by omega) same
    omega

theorem put_other {w : Words} (holds : Holds n cells k q packets) (room : packets.length < n)
    (p : Packet) {q' : Queue} {others : List Packet} (holds' : Holds n cells j q' others)
    (fits : others.length ≤ n) (apart : j ≠ k) :
    Holds n (q.bufQueuePut w cells p).1 j q' others where
  size := holds'.size
  base := holds'.base
  front := holds'.front
  back := holds'.back
  contents := by
    have count := holds.count
    have count' := holds'.count
    refine Eq.trans (Places.contents_update ?_ p) holds'.contents
    intro i before
    exact holds.place_ne holds' apart (by omega) (by omega)

end Holds
end Queue

abbrev Waiting := Prio → List Packet

namespace Waiting

def total (l : Waiting) : Nat :=
  ∑ k, (l k).length

def set (l : Waiting) (k : Prio) (packets : List Packet) : Waiting :=
  Function.update l k packets

def add (l : Waiting) (k : Prio) (p : Packet) : Waiting :=
  l.set k (l k ++ [p])

variable (l : Waiting) (k : Prio)

theorem total_set (packets : List Packet) :
    (l.set k packets).total + (l k).length = l.total + packets.length := by
  have lengths : (fun j => (l.set k packets j).length) =
      Function.update (fun j => (l j).length) k packets.length := by
    funext j
    rcases eq_or_ne j k with rfl | apart
    · simp [set]
    · simp [set, apart]
  have split := Finset.add_sum_erase Finset.univ (fun j => (l j).length) (Finset.mem_univ k)
  rw [total, total, lengths, Finset.sum_update_of_mem (Finset.mem_univ k),
    Finset.sdiff_singleton_eq_erase]
  omega

theorem total_add (p : Packet) : (l.add k p).total = l.total + 1 := by
  have sum := l.total_set k (l k ++ [p])
  rw [length_append, length_singleton] at sum
  rw [add]
  omega

theorem length_le_total : (l k).length ≤ l.total := by
  have emptied := l.total_set k []
  rw [length_nil] at emptied
  omega

theorem total_eq_zero_iff : l.total = 0 ↔ ∀ k, l k = [] := by
  simp [total]

end Waiting

/-- A call of one of the functions. -/
inductive Call
  | get
  | put (p : Packet) (prio : Prio)
  | exchange (p : Packet) (prio : Prio)

/-- What a call returns; `put` may free a packet. -/
inductive Answer
  | got (p : Option Packet)
  | put (result : Nat) (freed : Option Packet)
  | exchanged (p : Option Packet)

/-- What a queue for `n` packets with priorities is for. -/
inductive Serves (n : Nat) : Waiting → Call → Answer → Waiting → Prop
  | getNone {l : Waiting} (empty : ∀ k, l k = []) : Serves n l .get (.got none) l
  | getSome {l : Waiting} {k : Prio} {p : Packet} {rest : List Packet} (oldest : l k = p :: rest)
      (highest : ∀ j, k < j → l j = []) : Serves n l .get (.got (some p)) (l.set k rest)
  | putRoom {l : Waiting} {p : Packet} {prio : Prio} (room : l.total < n) :
      Serves n l (.put p prio) (.put 1 none) (l.add prio p)
  | putReplace {l : Waiting} {k : Prio} {p old : Packet} {prio : Prio} {rest : List Packet}
      (full : n ≤ l.total) (below : k ≤ prio) (oldest : l k = old :: rest)
      (lowest : ∀ j, j < k → l j = []) :
      Serves n l (.put p prio) (.put 2 (some old)) ((l.set k rest).add prio p)
  | putRefuse {l : Waiting} {p : Packet} {prio : Prio} (full : n ≤ l.total)
      (higher : ∀ k, k ≤ prio → l k = []) : Serves n l (.put p prio) (.put 0 none) l
  | exchangeSome {l : Waiting} {k : Prio} {p r : Packet} {prio : Prio} {rest : List Packet}
      (above : prio ≤ k) (oldest : l k = r :: rest) (highest : ∀ j, k < j → l j = []) :
      Serves n l (.exchange p prio) (.exchanged (some r)) ((l.set k rest).add prio p)
  | exchangeNone {l : Waiting} {p : Packet} {prio : Prio} (lower : ∀ k, prio ≤ k → l k = []) :
      Serves n l (.exchange p prio) (.exchanged (some p)) l

/-- A sequence of calls with their answers. -/
inductive ServesAll (n : Nat) : Waiting → List Call → List Answer → Waiting → Prop
  | nil {l : Waiting} : ServesAll n l [] [] l
  | cons {l l' l'' : Waiting} {call : Call} {answer : Answer} {calls : List Call}
      {answers : List Answer} (first : Serves n l call answer l')
      (rest : ServesAll n l' calls answers l'') :
      ServesAll n l (call :: calls) (answer :: answers) l''

namespace PrioQueue

def act (w : Words) (q : PrioQueue) : Call → Answer × PrioQueue
  | .get => (.got q.bufPrioQueueGet.1, q.bufPrioQueueGet.2)
  | .put p prio =>
    let (result, freed, q) := q.bufPrioQueuePut w p prio
    (.put result freed, q)
  | .exchange p prio =>
    let (r, q) := q.bufPrioQueueExchange w p prio
    (.exchanged r, q)

def run (w : Words) (q : PrioQueue) : List Call → List Answer × PrioQueue
  | [] => ([], q)
  | call :: calls =>
    let (answer, q) := q.act w call
    let (answers, q) := q.run w calls
    (answer :: answers, q)

/-- A queue has the packets of each priority. -/
structure Represents (n : Nat) (q : PrioQueue) (l : Waiting) : Prop where
  size : q.size = n
  count : q.count = l.total
  room : l.total ≤ n
  holds : ∀ k, (q.queue k).Holds n q.cells k (l k)

namespace Represents

variable {n : Nat} {w : Words} {q : PrioQueue} {l : Waiting} {k : Prio}

theorem length_le (represents : Represents n q l) (k : Prio) : (l k).length ≤ n :=
  (l.length_le_total k).trans represents.room

theorem busy (represents : Represents n q l) (k : Prio) :
    (q.queue k).count ≠ 0 ↔ l k ≠ [] := by
  rw [(represents.holds k).count, ne_eq, length_eq_zero_iff]

theorem getFrom (represents : Represents n q l) {p : Packet} {rest : List Packet}
    (oldest : l k = p :: rest) :
    (q.getFrom k).1 = some p ∧ (q.getFrom k).2.size = q.size ∧ (q.getFrom k).2.count = q.count ∧
      (l.set k rest).total + 1 = l.total ∧
      ∀ j, ((q.getFrom k).2.queue j).Holds n (q.getFrom k).2.cells j (l.set k rest j) := by
  have total := l.total_set k rest
  have fits := represents.length_le k
  have holds := represents.holds k
  rw [oldest] at total fits holds
  obtain ⟨taken, holds'⟩ := holds.get fits
  rw [length_cons] at total
  refine ⟨congrArg Prod.fst taken, rfl, rfl, by omega, fun j => ?_⟩
  have queue : (q.getFrom k).2.queue = Function.update q.queue k
      ((q.queue k).bufQueueGet q.cells).2 := rfl
  rw [queue, taken]
  rcases eq_or_ne j k with rfl | apart
  · rw [update_self, Waiting.set, update_self]
    exact holds'
  · rw [update_of_ne apart, Waiting.set, update_of_ne apart]
    exact represents.holds j

theorem putInto (holds : ∀ k, (q.queue k).Holds n q.cells k (l k)) (room : l.total < n)
    (small : n < w.small) (p : Packet) (j : Prio) :
    ((q.putInto w k p).queue j).Holds n (q.putInto w k p).cells j (l.add k p j) := by
  have length := l.length_le_total k
  have queue : (q.putInto w k p).queue = Function.update q.queue k
      ((q.queue k).bufQueuePut w q.cells p).2 := rfl
  have cells : (q.putInto w k p).cells = ((q.queue k).bufQueuePut w q.cells p).1 := rfl
  rw [queue, cells]
  rcases eq_or_ne j k with rfl | apart
  · rw [update_self, Waiting.add, Waiting.set, update_self]
    exact (holds j).put (by omega) small p
  · have length' := l.length_le_total j
    rw [update_of_ne apart, Waiting.add, Waiting.set, update_of_ne apart]
    exact (holds k).put_other (by omega) p (holds j) (by omega) apart

theorem bufPrioQueueGet (represents : Represents n q l) :
    ∃ l', Serves n l .get (.got q.bufPrioQueueGet.1) l' ∧ Represents n q.bufPrioQueueGet.2 l' := by
  have count := represents.count
  have room := represents.room
  rw [PrioQueue.bufPrioQueueGet]
  split
  · have empty := l.total_eq_zero_iff.mp (by omega)
    exact ⟨l, .getNone empty, represents⟩
  · split
    · rename_i k found
      obtain ⟨busy, above⟩ := Fin.findRev?_eq_some_iff.mp found
      obtain ⟨p, rest, oldest⟩ := exists_cons_of_ne_nil
        ((represents.busy k).mp (of_decide_eq_true busy))
      have highest : ∀ j, k < j → l j = [] := by
        intro j less
        apply by_contra
        intro waits
        have silent := above j less
        simp [(represents.busy j).mpr waits] at silent
      obtain ⟨taken, size, kept, total, holds⟩ := represents.getFrom oldest
      have answer : (({ q with count := q.count - 1 }).getFrom k).1 = some p := taken
      refine ⟨l.set k rest, ?_, represents.size, ?_, by omega, holds⟩
      · rw [answer]
        exact .getSome oldest highest
      · change q.count - 1 = _
        omega
    · rename_i found
      have none := Fin.findRev?_eq_none_iff.mp found
      have empty : ∀ k, l k = [] := by
        intro k
        apply by_contra
        intro waits
        have silent := none k
        simp [(represents.busy k).mpr waits] at silent
      have zero := l.total_eq_zero_iff.mpr empty
      omega

theorem bufPrioQueuePut (represents : Represents n q l) (small : n < w.small) (p : Packet)
    (prio : Prio) :
    ∃ l', Serves n l (.put p prio) (.put (q.bufPrioQueuePut w p prio).1
      (q.bufPrioQueuePut w p prio).2.1) l' ∧ Represents n (q.bufPrioQueuePut w p prio).2.2 l' := by
  have count := represents.count
  have size := represents.size
  have room := represents.room
  rw [PrioQueue.bufPrioQueuePut]
  split
  · have less : l.total < n := by omega
    have added := l.total_add prio p
    refine ⟨l.add prio p, .putRoom less, size, ?_, by omega,
      putInto represents.holds less small p⟩
    change q.count + 1 = _
    omega
  · have full : n ≤ l.total := by omega
    split
    · rename_i k found
      obtain ⟨busy, before⟩ := Fin.find?_eq_some_iff.mp found
      obtain ⟨below, waiting⟩ := of_decide_eq_true busy
      obtain ⟨old, rest, oldest⟩ := exists_cons_of_ne_nil ((represents.busy k).mp waiting)
      have lowest : ∀ j, j < k → l j = [] := by
        intro j less
        apply by_contra
        intro waits
        have silent := before j less
        simp [(represents.busy j).mpr waits, less.le.trans below] at silent
      obtain ⟨taken, kept, kept', total, holds⟩ := represents.getFrom oldest
      have added := (l.set k rest).total_add prio p
      refine ⟨(l.set k rest).add prio p, ?_, kept.trans size, ?_, by omega,
        putInto holds (by omega) small p⟩
      · change Serves n l _ (.put 2 (q.getFrom k).1) _
        rw [taken]
        exact .putReplace full below oldest lowest
      · change (q.getFrom k).2.count = _
        omega
    · rename_i found
      have none := Fin.find?_eq_none_iff.mp found
      have higher : ∀ k, k ≤ prio → l k = [] := by
        intro k below
        apply by_contra
        intro waits
        have silent := none k
        simp [(represents.busy k).mpr waits, below] at silent
      exact ⟨l, .putRefuse full higher, represents⟩

theorem bufPrioQueueExchange (represents : Represents n q l) (small : n < w.small) (p : Packet)
    (prio : Prio) :
    ∃ l', Serves n l (.exchange p prio) (.exchanged (q.bufPrioQueueExchange w p prio).1) l' ∧
      Represents n (q.bufPrioQueueExchange w p prio).2 l' := by
  have count := represents.count
  have size := represents.size
  have room := represents.room
  rw [PrioQueue.bufPrioQueueExchange]
  split
  · have empty := l.total_eq_zero_iff.mp (by omega)
    exact ⟨l, .exchangeNone fun k _ => empty k, represents⟩
  · split
    · rename_i k found
      obtain ⟨busy, after⟩ := Fin.findRev?_eq_some_iff.mp found
      obtain ⟨above, waiting⟩ := of_decide_eq_true busy
      obtain ⟨r, rest, oldest⟩ := exists_cons_of_ne_nil ((represents.busy k).mp waiting)
      have highest : ∀ j, k < j → l j = [] := by
        intro j less
        apply by_contra
        intro waits
        have silent := after j less
        simp [(represents.busy j).mpr waits, above.trans less.le] at silent
      obtain ⟨taken, kept, kept', total, holds⟩ := represents.getFrom oldest
      have added := (l.set k rest).total_add prio p
      refine ⟨(l.set k rest).add prio p, ?_, kept.trans size, ?_, by omega,
        putInto holds (by omega) small p⟩
      · change Serves n l _ (.exchanged (q.getFrom k).1) _
        rw [taken]
        exact .exchangeSome above oldest highest
      · change (q.getFrom k).2.count = _
        omega
    · rename_i found
      have none := Fin.findRev?_eq_none_iff.mp found
      have lower : ∀ k, prio ≤ k → l k = [] := by
        intro k above
        apply by_contra
        intro waits
        have silent := none k
        simp [(represents.busy k).mpr waits, above] at silent
      exact ⟨l, .exchangeNone lower, represents⟩

theorem act (represents : Represents n q l) (small : n < w.small) (call : Call) :
    ∃ l', Serves n l call (q.act w call).1 l' ∧ Represents n (q.act w call).2 l' := by
  cases call with
  | get => exact represents.bufPrioQueueGet
  | put p prio => exact represents.bufPrioQueuePut small p prio
  | exchange p prio => exact represents.bufPrioQueueExchange small p prio

theorem run (represents : Represents n q l) (small : n < w.small) (calls : List Call) :
    ∃ l', ServesAll n l calls (q.run w calls).1 l' ∧ Represents n (q.run w calls).2 l' := by
  induction calls generalizing q l with
  | nil => exact ⟨l, .nil, represents⟩
  | cons call calls ih =>
    obtain ⟨middle, first, kept⟩ := represents.act small call
    obtain ⟨last, rest, final⟩ := ih kept
    exact ⟨last, .cons first rest, final⟩

end Represents

theorem bufPrioQueueInit_represents {w : Words} {bytes : Nat} (cells : Cells)
    (small : bytes / 8 / w.pointer < w.small) :
    Represents (bytes / 8 / w.pointer) (bufPrioQueueInit w bytes cells) fun _ => [] where
  size := rfl
  count := rfl
  room := Nat.zero_le _
  holds k :=
    { size := Nat.mod_eq_of_lt small
      base := rfl
      front := fun _ => le_rfl
      back := fun positive => by
        exact Int.lt_add_of_pos_right _ (by exact_mod_cast positive)
      contents := rfl }

/-- The counts agree, and no queue overflows. -/
structure Accounts (q : PrioQueue) : Prop where
  sum : q.count = ∑ k, ((q.queue k).count : Int)
  bound : q.count ≤ q.size
  inside : ∀ k, (q.queue k).count ≤ (q.queue k).size

theorem Represents.accounts {n : Nat} {q : PrioQueue} {l : Waiting}
    (represents : Represents n q l) : Accounts q where
  sum := by
    rw [represents.count, Waiting.total]
    push_cast
    apply Finset.sum_congr rfl
    intro k _
    rw [(represents.holds k).count]
  bound := by
    rw [represents.count, represents.size]
    exact_mod_cast represents.room
  inside k := by
    rw [(represents.holds k).count, (represents.holds k).size]
    exact represents.length_le k

/-- After every sequence of calls, the counts agree and the answers were those of a queue for as
many packets as the array has cells for each priority. -/
def Right (w : Words) (bytes : Nat) : Prop :=
  ∀ (cells : Cells) (calls : List Call),
    Accounts ((bufPrioQueueInit w bytes cells).run w calls).2 ∧
      ∃ l, ServesAll (bytes / 8 / w.pointer) (fun _ => []) calls
        ((bufPrioQueueInit w bytes cells).run w calls).1 l

/-- Only the lowest priority was used. -/
structure Filled (w : Words) (n i : Nat) (q : PrioQueue) : Prop where
  count : q.count = i
  size : q.size = n
  lowest : (q.queue 0).count = i % w.small
  others : ∀ k, k ≠ 0 → (q.queue k).count = 0
  room : (q.queue 0).size = n % w.small

theorem Filled.put {w : Words} {n i : Nat} {q : PrioQueue} (filled : Filled w n i q) (less : i < n)
    (p : Packet) : Filled w n (i + 1) (q.act w (.put p 0)).2 := by
  have count := filled.count
  have size := filled.size
  have step : (q.act w (.put p 0)).2 = { q.putInto w 0 p with count := q.count + 1 } := by
    rw [act, bufPrioQueuePut, if_pos (by omega)]
  rw [step]
  refine ⟨?_, filled.size, ?_, fun k other => ?_, filled.room⟩
  · change q.count + 1 = _
    rw [count]
    push_cast
    rfl
  · change ((q.queue 0).count + 1) % w.small = _
    rw [filled.lowest, Nat.mod_add_mod]
  · change (Function.update q.queue 0 _ k).count = 0
    rw [update_of_ne other]
    exact filled.others k other

theorem Filled.run {w : Words} {n i m : Nat} {q : PrioQueue} (filled : Filled w n i q)
    (room : i + m ≤ n) :
    Filled w n (i + m) (q.run w (List.replicate m (.put 0 0))).2 := by
  induction m generalizing i q with
  | zero => exact filled
  | succ m ih =>
    have next := ih (filled.put (by omega) 0) (by omega)
    rw [Nat.add_right_comm] at next
    exact next

/-- A queue whose size is not a `small_uint_t` overflows. -/
theorem not_right {w : Words} {bytes : Nat} (large : w.small ≤ bytes / 8 / w.pointer) :
    ¬Right w bytes := by
  intro right
  set n := bytes / 8 / w.pointer with n_eq
  have less : n % w.small < w.small := Nat.mod_lt n w.small_pos
  have start : Filled w n 0 (bufPrioQueueInit w bytes fun _ => 0) :=
    ⟨rfl, rfl, (Nat.zero_mod _).symm, fun _ _ => rfl, rfl⟩
  have filled := @Filled.run w n 0 (n % w.small + 1) _ start (by omega)
  obtain ⟨accounts, -⟩ := right (fun _ => 0) (List.replicate (n % w.small + 1) (.put 0 0))
  have inside := accounts.inside 0
  have sum := accounts.sum
  rw [filled.lowest, filled.room] at inside
  rw [filled.count, Finset.sum_eq_single 0 (fun k _ other => by
    rw [filled.others k other]
    rfl) (by simp), filled.lowest] at sum
  omega

/-- The queue loses only what it must exactly if its size is a `small_uint_t`. -/
theorem prioQueue_right_iff (w : Words) (bytes : Nat) :
    Right w bytes ↔ bytes / 8 / w.pointer < w.small := by
  constructor
  · intro right
    apply by_contra
    intro large
    exact not_right (by omega) right
  · intro small cells calls
    obtain ⟨l, serves, represents⟩ :=
      (bufPrioQueueInit_represents cells small).run small calls
    exact ⟨represents.accounts, l, serves⟩

/-- On AVR a `small_uint_t` has 8 bits: with room for 256 packets of each priority, the queues have
room for none. -/
theorem prioQueue_overflows :
    ¬Right { small := 256, pointer := 2, small_pos := by decide, pointer_pos := by decide }
      4096 := by
  intro right
  have inside := (right (fun _ => 0) [.put 1 0]).1.inside 0
  revert inside
  decide

end PrioQueue
end Uos.Bufs
