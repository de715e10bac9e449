import Uos.Library.Places
import Uos.Net.Input

/-!
# The queue of a UDP socket

The ring of received packets of `net/udp.c`.
-/

namespace Uos

/-- The queue of a `udp_socket_t`.  Its head is null until the first packet is put. -/
structure UdpQueue where
  queue : Nat → UdpReceived
  head : Option Nat
  count : Nat
  inside : ∀ h ∈ head, h < udpSocketQueueSize
  small : count ≤ udpSocketQueueSize
  started : 0 < count → head ≠ none

namespace UdpQueue

def place (head i : Nat) : Nat :=
  if udpSocketQueueSize ≤ head + i then head + i - udpSocketQueueSize else head + i

theorem head_lt (q : UdpQueue) : q.head.getD 0 < udpSocketQueueSize := by
  cases start : q.head with
  | none => decide
  | some h => exact q.inside h start

/-- `udp_queue_is_full` -/
def udpQueueIsFull (q : UdpQueue) : Bool :=
  q.count = udpSocketQueueSize

/-- `udp_queue_put`, which must be called only when the queue is not full. -/
def udpQueuePut (q : UdpQueue) (room : q.udpQueueIsFull = false) (received : UdpReceived) :
    UdpQueue :=
  let head := q.head.getD 0
  { queue := Function.update q.queue (place head q.count) received
    head := some head
    count := q.count + 1
    inside := by
      rintro h ⟨⟩
      exact q.head_lt
    small := by
      have small := q.small
      simp only [udpQueueIsFull, decide_eq_false_iff_not] at room
      omega
    started := fun _ => by simp }

/-- `udp_queue_get` -/
def udpQueueGet (q : UdpQueue) : Option (UdpReceived × UdpQueue) :=
  if q.count = 0 then none
  else
    match start : q.head with
    | none => none
    | some head =>
      some (q.queue head,
        { queue := q.queue
          head := some (if udpSocketQueueSize ≤ head + 1 then 0 else head + 1)
          count := q.count - 1
          inside := by
            rintro h ⟨⟩
            split
            · decide
            · omega
          small := by
            have small := q.small
            omega
          started := fun _ => by simp })

/-- The packets in the queue, the one that is taken first in front. -/
def contents (q : UdpQueue) : List UdpReceived :=
  Places.contents q.queue (place (q.head.getD 0)) q.count

def zeroed (queue : Nat → UdpReceived) : UdpQueue where
  queue
  head := none
  count := 0
  inside := by simp
  small := by decide
  started := fun some => absurd some (Nat.lt_irrefl 0)

variable {q : UdpQueue} {received : UdpReceived}

theorem place_eq {head i : Nat} (inside : head < udpSocketQueueSize)
    (small : i ≤ udpSocketQueueSize) : place head i = (head + i) % udpSocketQueueSize := by
  rw [place]
  rw [udpSocketQueueSize] at *
  split <;> omega

theorem length_contents (q : UdpQueue) : q.contents.length = q.count :=
  Places.length_contents

theorem isFull_iff : q.udpQueueIsFull = true ↔ q.contents.length = udpSocketQueueSize := by
  rw [udpQueueIsFull, decide_eq_true_eq, length_contents]

theorem contents_put (room : q.udpQueueIsFull = false) :
    (q.udpQueuePut room received).contents = q.contents ++ [received] := by
  have small := q.small
  have inside := q.head_lt
  have free : q.count ≠ udpSocketQueueSize := by
    simpa [udpQueueIsFull] using room
  have apart : ∀ i < q.count, place (q.head.getD 0) i ≠ place (q.head.getD 0) q.count := by
    intro i early
    rw [place_eq inside (by omega), place_eq inside small]
    rw [udpSocketQueueSize] at *
    omega
  exact Places.contents_put apart received

theorem contents_get : q.udpQueueGet.map (fun taken => (taken.1, taken.2.contents)) =
    q.contents.head?.map fun first => (first, q.contents.tail) := by
  rw [udpQueueGet]
  split
  · rename_i empty
    rw [contents, empty]
    rfl
  · rename_i some
    split
    · rename_i null
      exact absurd null (q.started (Nat.pos_of_ne_zero some))
    · rename_i head start
      have inside := q.inside head start
      obtain ⟨count, equal⟩ := Nat.exists_eq_add_one_of_ne_zero some
      have first : place head 0 = head := by
        rw [place, Nat.add_zero, if_neg (by omega)]
      have small := q.small
      have onward : Places.contents q.queue (fun i => place head (i + 1)) count =
          Places.contents q.queue
            (place (if udpSocketQueueSize ≤ head + 1 then 0 else head + 1)) count := by
        apply Places.contents_congr
        intro i early
        have next : (if udpSocketQueueSize ≤ head + 1 then 0 else head + 1) =
            (head + 1) % udpSocketQueueSize := by
          rw [udpSocketQueueSize] at *
          split <;> omega
        have turned : (head + 1) % udpSocketQueueSize < udpSocketQueueSize :=
          Nat.mod_lt _ (by decide)
        rw [next, place_eq inside (by omega), place_eq turned (by omega)]
        rw [udpSocketQueueSize] at *
        omega
      simp only [contents, start, Option.getD_some, equal, Places.contents_succ, first,
        Option.map_some, List.head?_cons, List.tail_cons, Nat.add_sub_cancel, onward]

end UdpQueue
end Uos
