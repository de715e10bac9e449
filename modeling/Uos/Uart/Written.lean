import Mathlib.Data.Option.Basic
import Uos.Uart.Putchar

/-!
# Written characters are sent

What is handed to the port and what lies in the ring, against the characters that were written, and
the tasks that wait in `uart_putchar`.
-/

namespace Uos

open Function

def expand (onlcr : Bool) (c : UShort) : List UChar :=
  c.setWidth 8 :: if onlcr = true ∧ c = newline then [carriageReturn.setWidth 8] else []

theorem Ring.first_ne_last {Symbol : Type*} {ring : Ring Symbol} (valid : ring.Valid)
    (two : 2 ≤ ring.size) (full : ring.first = ring.next ring.last) : ring.first ≠ ring.last := by
  obtain ⟨first, last⟩ := valid
  rw [next] at full
  split_ifs at full <;> omega

namespace Putchar

def left (onlcr : Bool) : Putchar → List UChar
  | idle => []
  | again c | loop c _ | waiting c _ | active c _ | store c _ => expand onlcr c
  | start c => (expand onlcr c).tail

/-- The `newlast` of a task that has the lock lies behind `out_last`, and where the task is behind
the loop, the ring is not full. -/
def Positioned (out : Ring UChar) : Putchar → Prop
  | loop _ newlast => newlast = out.next out.last
  | store _ newlast => newlast = out.next out.last ∧ out.first ≠ newlast
  | _ => True

variable {onlcr : Bool} {out : Ring UChar} {state : Putchar}

theorem left_activate : state.activate.left onlcr = state.left onlcr := by
  cases state <;> rfl

theorem inside_activate : state.activate.Inside ↔ state.Inside := by
  cases state <;> rfl

theorem positioned_activate : state.activate.Positioned out ↔ state.Positioned out := by
  cases state <;> rfl

theorem activate_ne_waiting {c : UShort} {newlast : Nat} : state.activate ≠ waiting c newlast := by
  cases state <;> simp [activate]

theorem activate_inside (inside : state.Inside) : state.activate = state := by
  cases state with
  | waiting => exact absurd inside id
  | _ => rfl

theorem positioned_outside (outside : ¬state.Inside) : state.Positioned out := by
  cases state with
  | loop | store => exact absurd trivial outside
  | _ => exact trivial

theorem Positioned.take (valid : out.Valid) (filled : out.first ≠ out.last)
    (positioned : state.Positioned out) : state.Positioned out.take := by
  cases state with
  | loop c newlast => exact positioned
  | store c newlast =>
    refine ⟨positioned.1, ?_⟩
    rw [positioned.1]
    exact Ring.next_ne_next valid filled
  | _ => exact trivial

end Putchar

namespace UartTx

variable {Task : Type*} [DecidableEq Task]

def storedBy (s : UartTx Task) (task : Task) : List UChar :=
  (s.stored.filter (·.1 = task)).map Prod.snd

/-- The bytes that were sent and those in the ring are the bytes of the characters that were
written so far, each once, for each task in order, and no task waits while the ring is empty and
no interrupt is to come. -/
structure Kept (s : UartTx Task) : Prop where
  bytes : ∃ stored : List (Task × UChar), stored.map Prod.snd = s.sent ++ s.out.contents ∧
    ∀ task, ((stored.filter (·.1 = task)).map Prod.snd) ++ (s.tasks task).left s.onlcr =
      (s.calls task).flatMap (expand s.onlcr)
  awake : ∀ task c newlast, s.tasks task = .waiting c newlast → s.out.contents = [] →
    s.expected = true

/-- What is known of the output as long as nothing goes wrong. -/
structure Good (s : UartTx Task) : Prop where
  valid : s.out.Valid
  two : 2 ≤ s.out.size
  bytes : s.stored.map Prod.snd = s.sent ++ s.out.contents
  calls : ∀ task, s.storedBy task ++ (s.tasks task).left s.onlcr =
    (s.calls task).flatMap (expand s.onlcr)
  lock : ∀ task, (s.tasks task).Inside → s.master = some task
  positioned : ∀ task, (s.tasks task).Positioned s.out
  awake : ∀ task c newlast, s.tasks task = .waiting c newlast → s.out.first = s.out.last →
    s.expected = true

/-- Nothing goes wrong at an event: a task that gets the lock back behind `mutex_wait` finds
`out_last` where it was when the task computed `newlast`. -/
def Fits (s : UartTx Task) : UartTxEvent Task → Prop
  | .go task _ _ => ∀ c newlast, s.tasks task = .active c newlast → s.master = none →
      newlast = s.out.next s.out.last
  | _ => True

variable {s : UartTx Task}

theorem Good.kept (good : s.Good) : s.Kept where
  bytes := ⟨s.stored, good.bytes, good.calls⟩
  awake task c newlast waits empty :=
    good.awake task c newlast waits ((Ring.contents_eq_nil_iff good.valid).mp empty)

theorem Good.mutexActivate (good : s.Good) : s.mutexActivate.Good where
  valid := good.valid
  two := good.two
  bytes := good.bytes
  calls task := by
    rw [UartTx.mutexActivate, Putchar.left_activate]
    exact good.calls task
  lock task inside := good.lock task (Putchar.inside_activate.mp inside)
  positioned task := Putchar.positioned_activate.mpr (good.positioned task)
  awake _ _ _ waits := absurd waits Putchar.activate_ne_waiting

/-- A run of `uart_transmit_start`. -/
theorem Good.transmitStart (good : s.Good) (port : UartPort) : (s.transmitStart port).Good := by
  have noneLeft : ∀ task c newlast, s.out.first = s.out.last →
      (if s.out.first = s.out.last then s.mutexActivate else s).tasks task ≠
        .waiting c newlast := by
    intro task c newlast empty
    rw [if_pos empty]
    exact Putchar.activate_ne_waiting
  have woken : (if s.out.first = s.out.last then s.mutexActivate else s).Good := by
    split_ifs
    · exact good.mutexActivate
    · exact good
  have same : (if s.out.first = s.out.last then s.mutexActivate else s).out = s.out := by
    split_ifs <;> rfl
  rw [UartTx.transmitStart]
  generalize (if s.out.first = s.out.last then s.mutexActivate else s) = t at *
  rw [← same] at noneLeft
  split_ifs with busy stops
  · exact { woken with awake := fun _ _ _ _ _ => rfl }
  · refine { woken with awake := ?_ }
    intro task c newlast waits empty
    exact absurd waits (noneLeft task c newlast empty)
  · have filled : t.out.first ≠ t.out.last := fun empty => stops (.inl empty)
    refine { woken with
      valid := woken.valid.take
      bytes := ?_
      positioned := fun task => (woken.positioned task).take woken.valid filled
      awake := fun _ _ _ _ _ => rfl }
    rw [woken.bytes, Ring.contents_take woken.valid filled]
    simp

variable {task : Task}

omit [DecidableEq Task] in
/-- A run of `uart_transmit_start` leaves the task that has the lock where it is. -/
theorem tasks_transmitStart (inside : (s.tasks task).Inside) (port : UartPort) :
    (s.transmitStart port).tasks task = s.tasks task := by
  have same : (if s.out.first = s.out.last then s.mutexActivate else s).tasks task =
      s.tasks task := by
    split_ifs
    · exact Putchar.activate_inside inside
    · rfl
  rw [UartTx.transmitStart]
  generalize (if s.out.first = s.out.last then s.mutexActivate else s) = t at same ⊢
  split_ifs <;> exact same

theorem Good.change (good : s.Good) {state : Putchar} {master : Option Task}
    (left : state.left s.onlcr = (s.tasks task).left s.onlcr)
    (inside : state.Inside → master = some task)
    (others : ∀ other ≠ task, (s.tasks other).Inside → master = some other)
    (positioned : state.Positioned s.out)
    (awake : ∀ c newlast, state = .waiting c newlast → s.out.first = s.out.last →
      s.expected = true) : Good { s.setTask task state with master } := by
  refine { good with calls := ?_, lock := ?_, positioned := ?_, awake := ?_ }
  all_goals
    intro other
    dsimp only [setTask]
    rcases eq_or_ne other task with rfl | ne
  · rw [update_self, left]
    exact good.calls other
  · rw [update_of_ne ne]
    exact good.calls other
  · rw [update_self]
    exact inside
  · rw [update_of_ne ne]
    exact others other ne
  · rw [update_self]
    exact positioned
  · rw [update_of_ne ne]
    exact good.positioned other
  · rw [update_self]
    exact awake
  · rw [update_of_ne ne]
    exact good.awake other

theorem Good.others (good : s.Good) (inside : (s.tasks task).Inside) (master : Option Task) :
    ∀ other ≠ task, (s.tasks other).Inside → master = some other := by
  intro other ne also
  have holder := good.lock task inside
  rw [good.lock other also] at holder
  exact absurd (Option.some_injective _ holder) ne

theorem Good.store (good : s.Good) {c : UShort} {newlast : Nat}
    (at_store : s.tasks task = .store c newlast) :
    Good { s.setTask task (.start c) with
      out := s.out.put (c.setWidth 8) newlast, stored := s.stored ++ [(task, c.setWidth 8)] } := by
  have inside : (s.tasks task).Inside := by
    rw [at_store]
    exact trivial
  have known := good.positioned task
  rw [at_store] at known
  obtain ⟨rfl, room⟩ := known
  refine { good with
    valid := good.valid.put _ (Ring.next_lt (Nat.zero_lt_of_lt good.two) _)
    bytes := ?_, calls := ?_, lock := ?_, positioned := ?_, awake := ?_ }
  · rw [Ring.contents_put good.valid room, List.map_append, good.bytes, List.append_assoc]
    rfl
  · intro other
    have calls := good.calls other
    rw [storedBy] at calls ⊢
    dsimp only [setTask]
    rcases eq_or_ne other task with rfl | ne
    · rw [at_store] at calls
      rw [update_self, List.filter_append, List.map_append, List.append_assoc, ← calls]
      simp [Putchar.left, expand]
    · rw [update_of_ne ne, List.filter_append, ← calls]
      simp [ne.symm]
  · intro other
    dsimp only [setTask]
    rcases eq_or_ne other task with rfl | ne
    · exact fun _ => good.lock other inside
    · rw [update_of_ne ne]
      exact good.lock other
  · intro other
    dsimp only [setTask]
    rcases eq_or_ne other task with rfl | ne
    · rw [update_self]
      exact trivial
    · rw [update_of_ne ne]
      apply Putchar.positioned_outside
      exact fun also => nomatch good.others inside none other ne also
  · intro other c newlast _ empty
    exact absurd empty room

theorem Good.wait (good : s.Good) {c : UShort} {newlast : Nat}
    (at_loop : s.tasks task = .loop c newlast)
    (awake : s.out.first = s.out.last → s.expected = true) :
    Good { s.setTask task (.waiting c newlast) with master := none } := by
  have inside : (s.tasks task).Inside := by
    rw [at_loop]
    exact trivial
  apply good.change
  · rw [at_loop]
    rfl
  · exact False.elim
  · exact good.others inside none
  · exact trivial
  · exact fun _ _ _ => awake

theorem Good.go (good : s.Good) {pending : Option UartPort} {port : UartPort}
    (fits : s.Fits (.go task pending port)) : (s.go task pending port).Good := by
  rw [UartTx.go]
  split
  · exact good
  · exact good
  · rename_i c known
    have inside : (s.tasks task).Inside := by rw [known]; exact trivial
    refine good.change (by rw [known]; rfl) (fun _ => good.lock task inside)
      (fun other _ => good.lock other) rfl (fun _ _ impossible => nomatch impossible)
  · rename_i c newlast known
    have inside : (s.tasks task).Inside := by
      rw [known]
      exact trivial
    have place := good.positioned task
    rw [known] at place
    split_ifs with full
    · rw [mutexWait.eq_def]
      cases pending with
      | none =>
        have filled := Ring.first_ne_last good.valid good.two (full.trans place)
        exact good.wait known fun empty => absurd empty filled
      | some port =>
        have run := good.transmitStart port
        dsimp only
        split_ifs with expected
        · exact run.wait ((tasks_transmitStart inside port).trans known) fun _ => expected
        · exact run.mutexActivate
    · exact good.change (by rw [known]; rfl) (fun _ => good.lock task inside)
        (fun other _ => good.lock other) ⟨place, full⟩ (fun _ _ impossible => nomatch impossible)
  · rename_i c newlast known
    split_ifs with free
    · refine good.change (by rw [known]; rfl) (fun _ => rfl) ?_ (fits c newlast known free)
        (fun _ _ impossible => nomatch impossible)
      intro other _ inside
      have holder := good.lock other inside
      rw [free] at holder
      exact nomatch holder
    · exact good
  · rename_i c newlast known
    exact good.store known
  · rename_i c known
    have inside : (s.tasks task).Inside := by
      rw [known]
      exact trivial
    have same := tasks_transmitStart inside port
    have run := good.transmitStart port
    generalize s.transmitStart port = t at same run ⊢
    rw [← same] at known inside
    dsimp only
    split_ifs with both
    · apply run.change
      · rw [known, both.2]
        simp [Putchar.left, expand, both.1, newline, carriageReturn]
      · exact fun _ => run.lock task inside
      · exact fun other _ => run.lock other
      · exact trivial
      · exact nofun
    · apply run.change
      · rw [known]
        simp [Putchar.left, expand, both]
      · exact False.elim
      · exact run.others inside none
      · exact trivial
      · exact nofun

theorem Good.step (good : s.Good) {event : UartTxEvent Task} (fits : s.Fits event) :
    (s.step event).Good := by
  cases event with
  | go task pending port => exact good.go fits
  | run port => exact good.transmitStart port
  | interrupt port =>
    rw [UartTx.step, handler]
    split_ifs
    · exact good.transmitStart port
    · exact (good.transmitStart port).mutexActivate
  | call task c =>
    rw [UartTx.step]
    split_ifs with free
    · have outside : ∀ other, ¬(s.tasks other).Inside := by
        intro other inside
        have holder := good.lock other inside
        rw [free.1] at holder
        exact nomatch holder
      refine { good with calls := ?_, lock := ?_, positioned := ?_, awake := ?_ }
      all_goals
        intro other
        dsimp only [setTask]
        rcases eq_or_ne other task with rfl | ne
      · have calls := good.calls other
        rw [free.2] at calls
        rw [update_self, update_self, List.flatMap_append, ← calls]
        simp [Putchar.left, storedBy]
      · rw [update_of_ne ne, update_of_ne ne]
        exact good.calls other
      · exact fun _ => rfl
      · rw [update_of_ne ne]
        exact fun inside => absurd inside (outside other)
      · rw [update_self]
        exact trivial
      · rw [update_of_ne ne]
        exact good.positioned other
      · rw [update_self]
        exact nofun
      · rw [update_of_ne ne]
        exact good.awake other
    · exact good

/-- An event at which nothing goes wrong. -/
def FittingStep (s s' : UartTx Task) : Prop :=
  ∃ event, s.Fits event ∧ s' = s.step event

/-- The output behind `uart_init`, with what happens to be in the ring. -/
def init (onlcr : Bool) (size : Nat) (cells : Nat → UChar) : UartTx Task where
  onlcr
  out := { size, cells }

theorem good_init (onlcr : Bool) {size : Nat} (two : 2 ≤ size) (cells : Nat → UChar) :
    (init onlcr size cells : UartTx Task).Good where
  valid := ⟨Nat.zero_lt_of_lt two, Nat.zero_lt_of_lt two⟩
  two := two
  bytes := rfl
  calls _ := rfl
  lock _ := False.elim
  positioned _ := trivial
  awake _ _ _ := nofun

def ready : UartPort where
  transmitter_empty := true
  cts := true

def busy : UartPort where
  transmitter_empty := false
  cts := true

/-- The state behind some events, with two tasks and two cells. -/
def after (events : List (UartTxEvent Bool)) : UartTx Bool :=
  events.foldl step (init true 2 fun _ => 0)

def goes (task : Bool) (n : Nat) (port : UartPort) : List (UartTxEvent Bool) :=
  .replicate n (.go task none port)

/-- The ring is full, two tasks wait, the ring becomes empty, and both tasks are activated. -/
def bothWait : List (UartTxEvent Bool) :=
  .call false 97 :: goes false 4 ready ++ .call false 98 :: goes false 4 busy ++
    .call false 99 :: goes false 2 busy ++ .call true 100 :: goes true 2 busy ++
    [.interrupt ready, .interrupt ready]

/-- The task that comes second overwrites the end of the ring. -/
def loses : List (UartTxEvent Bool) :=
  bothWait ++ goes false 4 busy ++ goes true 4 busy

/-- The task that comes second waits for an empty ring not to be full. -/
def waits : List (UartTxEvent Bool) :=
  bothWait ++ goes false 4 ready ++ goes true 2 ready ++ .interrupt ready :: goes true 2 ready

theorem after_loses :
    (after loses).sent ++ (after loses).out.contents = [97, 98, 99] ∧
      (after loses).tasks true = .idle ∧ (after loses).calls true = [100] := by
  decide +kernel

theorem after_waits :
    (after waits).out.contents = [] ∧ (after waits).tasks true = .waiting 100 1 ∧
      (after waits).expected = false := by
  decide +kernel

end UartTx
end Uos
