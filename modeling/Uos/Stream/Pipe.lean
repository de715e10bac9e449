import Mathlib.Algebra.Ring.Int.Defs
import Uos.Library.Monitors
import Uos.Library.Rings
import Uos.Net.Bytes

/-!
# Pipes

`stream/pipe.c`: two streams, the master and the slave, with a ring of characters for each
direction, under one lock.
-/

namespace Uos

open Function

/-- The two streams of a pipe. -/
inductive End
  | master
  | slave
  deriving DecidableEq

def End.other : End → End
  | .master => .slave
  | .slave => .master

theorem End.other_other (e : End) : e.other.other = e := by
  cases e <;> rfl

theorem End.ne_other (e : End) : e ≠ e.other := by
  cases e <;> exact nofun

theorem End.eq_or_eq_other (d e : End) : d = e ∨ d = e.other := by
  cases d <;> cases e <;> simp [End.other]

/-- A `pipe_t`.  Under a stream stand its `master_closed` or `slave_closed` and the places of the
ring that it writes: `out_*` under the master, `in_*` under the slave.  The places are cells of
`data`. -/
structure Pipe where
  closed : End → Bool := fun _ => false
  fifoChars : Nat
  fifo : End → Nat
  first : End → Nat := fifo
  last : End → Nat := fifo
  data : Nat → UShort := fun _ => 0

/-- The calls of the two stream interfaces. -/
inductive PipeCall
  | putc (e : End) (c : UShort)
  | getc (e : End)
  | peekc (e : End)
  | flush (e : End)
  | eof (e : End)
  | close (e : End)
  deriving DecidableEq

/-- What a call returns; `minusOne` is the `-1` of `getchar` and `peekchar`. -/
inductive PipeAnswer
  | done
  | character (c : UShort)
  | minusOne
  | flag (value : Bool)
  deriving DecidableEq

namespace Pipe

abbrev Turn := Monitor.Turn Pipe PipeAnswer

/-- `master_putchar` and `slave_putchar`, from the beginning of the loop. -/
def putchar (e : End) (c : UShort) (u : Pipe) : Turn :=
  if u.closed e.other = true then .returns .done false u
  else
    let next := u.last e + 1
    let next := if u.fifo e + u.fifoChars ≤ next then u.fifo e else next
    if next ≠ u.first e then
      .returns .done true
        { u with
          data := Function.update u.data (u.last e) c
          last := Function.update u.last e next }
    else .waits

/-- `master_getchar` and `slave_getchar`, from the beginning of the loop. -/
def getchar (e : End) (u : Pipe) : Turn :=
  if u.first e.other = u.last e.other then
    if u.closed e.other = true then .returns .minusOne false u else .waits
  else
    let c := u.data (u.first e.other)
    let first := u.first e.other + 1
    let first := if u.fifo e.other + u.fifoChars ≤ first then u.fifo e.other else first
    .returns (.character c) true { u with first := Function.update u.first e.other first }

/-- `master_peekchar` and `slave_peekchar` -/
def peekchar (e : End) (u : Pipe) : Turn :=
  if u.first e.other = u.last e.other then .returns .minusOne false u
  else .returns (.character (u.data (u.first e.other))) false u

/-- `master_flush` and `slave_flush`, from the beginning of the loop. -/
def flush (e : End) (u : Pipe) : Turn :=
  if u.first e ≠ u.last e ∧ u.closed e.other = false then .waits else .returns .done false u

/-- `master_eof` and `slave_eof` -/
def eof (e : End) (u : Pipe) : Turn :=
  .returns (.flag (u.closed e.other)) false u

/-- `master_close` and `slave_close` -/
def close (e : End) (u : Pipe) : Turn :=
  .returns .done true
    { u with
      closed := Function.update u.closed e true
      first := Function.update u.first e.other (u.last e.other) }

/-- `master_putchar` -/
def masterPutchar := putchar .master

/-- `slave_putchar` -/
def slavePutchar := putchar .slave

/-- `master_getchar` -/
def masterGetchar := getchar .master

/-- `slave_getchar` -/
def slaveGetchar := getchar .slave

/-- `master_peekchar` -/
def masterPeekchar := peekchar .master

/-- `slave_peekchar` -/
def slavePeekchar := peekchar .slave

/-- `master_flush` -/
def masterFlush := flush .master

/-- `slave_flush` -/
def slaveFlush := flush .slave

/-- `master_eof` -/
def masterEof := eof .master

/-- `slave_eof` -/
def slaveEof := eof .slave

/-- `master_close` -/
def masterClose := close .master

/-- `slave_close` -/
def slaveClose := close .slave

/-- A `stream_interface_t`. -/
structure Interface where
  putc : UShort → Pipe → Turn
  getc : Pipe → Turn
  peekc : Pipe → Turn
  flush : Pipe → Turn
  eof : Pipe → Turn
  close : Pipe → Turn

/-- `master_interface` -/
def masterInterface : Interface where
  putc := masterPutchar
  getc := masterGetchar
  peekc := masterPeekchar
  flush := masterFlush
  eof := masterEof
  close := masterClose

/-- `slave_interface` -/
def slaveInterface : Interface where
  putc := slavePutchar
  getc := slaveGetchar
  peekc := slavePeekchar
  flush := slaveFlush
  eof := slaveEof
  close := slaveClose

def interface : End → Interface
  | .master => masterInterface
  | .slave => slaveInterface

def turn : PipeCall → Pipe → Turn
  | .putc e c => (interface e).putc c
  | .getc e => (interface e).getc
  | .peekc e => (interface e).peekc
  | .flush e => (interface e).flush
  | .eof e => (interface e).eof
  | .close e => (interface e).close

def new (fifoChars : Nat) : Pipe where
  fifoChars
  fifo
    | .master => 0
    | .slave => fifoChars

/-- `pipe_init`, with the bits of a `size_t` and the size of a `pipe_t`, of which eight bytes are
`data`; nothing where the assertion fails. -/
def pipeInit (sizeT sizeofPipe : Nat) (bytes : Int) : Option Pipe :=
  let fifoChars := ((bytes - sizeofPipe + 8) % 2 ^ sizeT).toNat / 2 / 2 % 2 ^ 16
  if 1 < fifoChars then some (new fifoChars) else none

/-- A pipe that `pipe_init` makes is a new one, with more than one cell in each ring. -/
theorem new_of_pipeInit {sizeT sizeofPipe : Nat} {bytes : Int} {u : Pipe}
    (made : pipeInit sizeT sizeofPipe bytes = some u) :
    ∃ fifoChars, 1 < fifoChars ∧ u = new fifoChars := by
  rw [pipeInit] at made
  split_ifs at made with wide
  exact ⟨_, wide, (Option.some.inj made).symm⟩

def ring (u : Pipe) (e : End) : Ring UShort where
  size := u.fifoChars
  cells := fun i => u.data (u.fifo e + i)
  first := u.first e - u.fifo e
  last := u.last e - u.fifo e

/-- The characters that a stream has written and the other one has not read. -/
def contents (u : Pipe) (e : End) : List UShort :=
  (u.ring e).contents

/-- The rings lie side by side, and the places are cells of their rings. -/
structure Valid (u : Pipe) : Prop where
  apart : u.fifo .master + u.fifoChars ≤ u.fifo .slave
  fifo_le_first : ∀ e, u.fifo e ≤ u.first e
  first_lt : ∀ e, u.first e < u.fifo e + u.fifoChars
  fifo_le_last : ∀ e, u.fifo e ≤ u.last e
  last_lt : ∀ e, u.last e < u.fifo e + u.fifoChars

variable {u : Pipe}

theorem Valid.new {fifoChars : Nat} (wide : 1 < fifoChars) : (new fifoChars).Valid where
  apart := Nat.le_of_eq (Nat.zero_add fifoChars)
  fifo_le_first _ := Nat.le_refl _
  first_lt _ := Nat.lt_add_of_pos_right (Nat.zero_lt_of_lt wide)
  fifo_le_last _ := Nat.le_refl _
  last_lt _ := Nat.lt_add_of_pos_right (Nat.zero_lt_of_lt wide)

theorem Valid.ring (valid : u.Valid) (e : End) : (u.ring e).Valid where
  first_lt := Nat.sub_lt_left_of_lt_add (valid.fifo_le_first e) (valid.first_lt e)
  last_lt := Nat.sub_lt_left_of_lt_add (valid.fifo_le_last e) (valid.last_lt e)

variable {e : End} {cell : Nat}

theorem Valid.ne (valid : u.Valid) {d : End} (ne : d ≠ e) {i : Nat} (bound : i < u.fifoChars)
    (le : u.fifo e ≤ cell) (lt : cell < u.fifo e + u.fifoChars) :
    u.fifo d + i ≠ cell := by
  have apart := valid.apart
  cases e <;> cases d
  · exact absurd rfl ne
  · omega
  · omega
  · exact absurd rfl ne

theorem contents_eq_nil_iff (valid : u.Valid) (e : End) :
    u.contents e = [] ↔ u.first e = u.last e := by
  have first := valid.fifo_le_first e
  have last := valid.fifo_le_last e
  rw [contents, Ring.contents_eq_nil_iff (valid.ring e), ring]
  dsimp only
  omega

theorem length_contents_lt (valid : u.Valid) (e : End) : (u.contents e).length < u.fifoChars := by
  rw [contents, Ring.length_contents]
  exact Ring.used_lt (valid.ring e)

def next (u : Pipe) (e : End) (cell : Nat) : Nat :=
  if u.fifo e + u.fifoChars ≤ cell + 1 then u.fifo e else cell + 1

theorem fifo_le_next (le : u.fifo e ≤ cell) : u.fifo e ≤ u.next e cell := by
  rw [next]
  split_ifs <;> omega

theorem next_lt (valid : u.Valid) (e : End) (cell : Nat) :
    u.next e cell < u.fifo e + u.fifoChars := by
  have first := valid.first_lt e
  have fifo := valid.fifo_le_first e
  rw [next]
  split_ifs <;> omega

theorem ring_next (le : u.fifo e ≤ cell) :
    (u.ring e).next (cell - u.fifo e) = u.next e cell - u.fifo e := by
  rw [Ring.next, next, ring]
  dsimp only
  split_ifs <;> omega

theorem next_ne_first_iff (valid : u.Valid) (e : End) :
    u.next e (u.last e) ≠ u.first e ↔ (u.contents e).length < u.fifoChars - 1 := by
  have first := valid.fifo_le_first e
  have behind := fifo_le_next (valid.fifo_le_last e)
  have room := Ring.first_ne_next_iff (valid.ring e)
  rw [show (u.ring e).last = u.last e - u.fifo e from rfl, ring_next (valid.fifo_le_last e),
    show (u.ring e).first = u.first e - u.fifo e from rfl, ← Ring.length_contents] at room
  rw [contents]
  change _ ↔ _ + 1 < u.fifoChars at room
  omega

def store (u : Pipe) (e : End) (c : UShort) : Pipe :=
  { u with
    data := Function.update u.data (u.last e) c
    last := Function.update u.last e (u.next e (u.last e)) }

def fetch (u : Pipe) (e : End) : Pipe :=
  { u with first := Function.update u.first e (u.next e (u.first e)) }

def shut (u : Pipe) (e : End) : Pipe :=
  { u with
    closed := Function.update u.closed e true
    first := Function.update u.first e.other (u.last e.other) }

theorem Valid.store (valid : u.Valid) (e : End) (c : UShort) : (u.store e c).Valid where
  apart := valid.apart
  fifo_le_first := valid.fifo_le_first
  first_lt := valid.first_lt
  fifo_le_last := (Function.forall_update_iff u.last fun d cell => u.fifo d ≤ cell).mpr
    ⟨fifo_le_next (valid.fifo_le_last e), fun d _ => valid.fifo_le_last d⟩
  last_lt := (Function.forall_update_iff u.last fun d cell => cell < u.fifo d + u.fifoChars).mpr
    ⟨next_lt valid e (u.last e), fun d _ => valid.last_lt d⟩

theorem Valid.withFirst (valid : u.Valid) (e : End) {closed : End → Bool} (le : u.fifo e ≤ cell)
    (lt : cell < u.fifo e + u.fifoChars) :
    ({ u with closed, first := Function.update u.first e cell } : Pipe).Valid where
  apart := valid.apart
  fifo_le_first := (Function.forall_update_iff u.first fun d cell => u.fifo d ≤ cell).mpr
    ⟨le, fun d _ => valid.fifo_le_first d⟩
  first_lt := (Function.forall_update_iff u.first fun d cell => cell < u.fifo d + u.fifoChars).mpr
    ⟨lt, fun d _ => valid.first_lt d⟩
  fifo_le_last := valid.fifo_le_last
  last_lt := valid.last_lt

theorem Valid.fetch (valid : u.Valid) (e : End) : (u.fetch e).Valid :=
  valid.withFirst e (fifo_le_next (valid.fifo_le_first e)) (next_lt valid e _)

theorem Valid.shut (valid : u.Valid) (e : End) : (u.shut e).Valid :=
  valid.withFirst e.other (valid.fifo_le_last e.other) (valid.last_lt e.other)

theorem contents_store (valid : u.Valid) (room : u.next e (u.last e) ≠ u.first e) (c : UShort) :
    (u.store e c).contents = Function.update u.contents e (u.contents e ++ [c]) := by
  funext d
  rcases eq_or_ne d e with rfl | ne
  · rw [update_self]
    have first := valid.fifo_le_first d
    have behind := fifo_le_next (valid.fifo_le_last d)
    have last : (u.ring d).next (u.ring d).last = u.next d (u.last d) - u.fifo d :=
      ring_next (valid.fifo_le_last d)
    have free : (u.ring d).first ≠ (u.ring d).next (u.ring d).last := by
      rw [last, show (u.ring d).first = u.first d - u.fifo d from rfl]
      omega
    have stored : (u.store d c).ring d = (u.ring d).put c ((u.ring d).next (u.ring d).last) := by
      rw [last]
      have place := valid.fifo_le_last d
      rw [ring, store, Ring.put, ring]
      congr 1
      · funext i
        rcases eq_or_ne i (u.last d - u.fifo d) with rfl | other
        · rw [update_self]
          dsimp only
          rw [Nat.add_sub_cancel' place, update_self]
        · have apart : u.fifo d + i ≠ u.last d := by omega
          rw [update_of_ne other]
          exact update_of_ne apart ..
      · dsimp only
        rw [update_self]
    rw [contents, stored, Ring.contents_put (valid.ring d) free]
    rfl
  · rw [update_of_ne ne, contents, contents,
      ← @Ring.contents_congr _ _ (valid.ring d) ((u.store e c).ring d).cells]
    · congr 1
      rw [ring, store]
      dsimp only
      rw [update_of_ne ne]
      rfl
    · intro i bound
      exact update_of_ne
        (valid.ne ne bound (valid.fifo_le_last e) (valid.last_lt e)) ..

theorem ring_withFirst (e : End) (closed : End → Bool) (cell : Nat) (d : End) :
    ({ u with closed, first := Function.update u.first e cell } : Pipe).ring d =
      if d = e then { u.ring d with first := cell - u.fifo d } else u.ring d := by
  rw [ring]
  split_ifs with same
  · subst same
    dsimp only
    rw [update_self]
    rfl
  · dsimp only
    rw [update_of_ne same]
    rfl

theorem contents_fetch (valid : u.Valid) (filled : u.first e ≠ u.last e) :
    u.contents e = u.data (u.first e) :: (u.fetch e).contents e := by
  have first := valid.fifo_le_first e
  have last := valid.fifo_le_last e
  have used : (u.ring e).first ≠ (u.ring e).last := by
    change u.first e - u.fifo e ≠ u.last e - u.fifo e
    omega
  have taken : (u.fetch e).ring e = (u.ring e).take := by
    rw [fetch, ring_withFirst, if_pos rfl, Ring.take,
      show (u.ring e).first = u.first e - u.fifo e from rfl, ring_next first]
  rw [contents, Ring.contents_take (valid.ring e) used, contents, taken]
  congr 1
  exact congrArg u.data (Nat.add_sub_cancel' first)

theorem contents_fetch_of_ne {d : End} (ne : d ≠ e) : (u.fetch e).contents d = u.contents d := by
  rw [contents, fetch, ring_withFirst, if_neg ne, contents]

theorem contents_shut (valid : u.Valid) (e : End) :
    (u.shut e).contents = Function.update u.contents e.other [] := by
  funext d
  rcases eq_or_ne d e.other with rfl | ne
  · rw [update_self, contents_eq_nil_iff (valid.shut e)]
    exact update_self ..
  · rw [update_of_ne ne, contents, shut, ring_withFirst, if_neg ne, contents]

end Pipe
end Uos
