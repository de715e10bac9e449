import Mathlib.Tactic.ByContra

/-!
# The transmitter of the ENC28J60

`enc28j60_output` and `handle_interrupts` of `enc28j60/enc28j60.c` beside the chip, which goes on
between any two accesses to its registers.  A call of `enc28j60_output` reads one of them only.
-/

namespace Uos.Enc28j60

/-- Where `handle_interrupts` stands, with the bits that it goes by.  It is `free` while the lock is
not held for it. -/
inductive Place
  | free
  | read
  /-- At `chip_set_bits (u, ECON1, ECON1_TXRST)`, with `EIR_PKTIF`. -/
  | reset (pktif : Bool)
  /-- At `chip_clear_bits (u, EIR, EIR_TXERIF | EIR_TXIF)`. -/
  | clear (pktif : Bool)
  /-- At `chip_set_bits (u, ECON1, ECON1_TXRTS)`. -/
  | retransmit (pktif : Bool)
  /-- At the test of `EIR_PKTIF` and `EIR_TXIF`. -/
  | test (pktif txif : Bool)
  /-- At `chip_clear_bits (u, EIR, EIR_TXIF)`. -/
  | clearTxif
  /-- At `buf_queue_get`. -/
  | next
  deriving DecidableEq

/-- The transmitter and its driver, with the packets that were accepted, those that were given to
the chip, and whether that was done during a transmission. -/
structure State (Packet : Type) where
  txrts : Bool := false
  txif : Bool := false
  txerif : Bool := false
  outq : List Packet := []
  place : Place := .free
  accepted : List Packet := []
  given : List Packet := []
  overwritten : Bool := false

inductive Event (Packet : Type)
  /-- `enc28j60_output` with the link up. -/
  | output (p : Packet)
  /-- The chip has sent the frame. -/
  | complete
  /-- The chip gives the frame up, with `EIR_TXIF` or without it. -/
  | collide (txif : Bool)
  /-- `handle_interrupts` is called. -/
  | handle
  /-- Its next step, with `EIR_PKTIF` as it is read there. -/
  | go (pktif : Bool)

variable {Packet : Type} {s s' : State Packet} {e : Event Packet}

/-- `chip_transmit_packet` -/
def State.transmit (s : State Packet) (p : Packet) : State Packet :=
  { s with txrts := true, given := s.given ++ [p], overwritten := s.overwritten || s.txrts }

/-- `enc28j60_output` -/
def State.output (capacity : Nat) (s : State Packet) (p : Packet) : State Packet :=
  if s.txrts then
    if s.outq.length = capacity then s
    else { s with outq := s.outq ++ [p], accepted := s.accepted ++ [p] }
  else State.transmit { s with accepted := s.accepted ++ [p] } p

/-- A step of `handle_interrupts`. -/
def State.go (s : State Packet) (pktif : Bool) : State Packet :=
  match s.place with
  | .free => s
  | .read => { s with place := if s.txerif then .reset pktif else .test pktif s.txif }
  | .reset pktif => { s with txrts := false, place := .clear pktif }
  | .clear pktif => { s with txerif := false, txif := false, place := .retransmit pktif }
  | .retransmit pktif => { s with txrts := true, place := .test pktif false }
  | .test pktif txif =>
    { s with place := if txif then .clearTxif else if pktif then .read else .free }
  | .clearTxif => { s with txif := false, place := .next }
  | .next =>
    match s.outq with
    | [] => { s with place := .read }
    | p :: outq => State.transmit { s with outq, place := .read } p

def step (capacity : Nat) (s : State Packet) : Event Packet → Option (State Packet)
  | .output p => if s.place = .free then some (s.output capacity p) else none
  | .complete => if s.txrts then some { s with txrts := false, txif := true } else none
  | .collide txif =>
    if s.txrts then some { s with txrts := false, txerif := true, txif := s.txif || txif } else none
  | .handle => if s.place = .free then some { s with place := .read } else none
  | .go pktif => some (s.go pktif)

/-- The states of the runs with certain steps. -/
inductive Reached (capacity : Nat) (steps : State Packet → Event Packet → Prop) :
    State Packet → Prop
  | start : Reached capacity steps {}
  | step {s s' : State Packet} {e : Event Packet} (reached : Reached capacity steps s)
      (allowed : steps s e) (result : step capacity s e = some s') : Reached capacity steps s'

/-- A transmit interrupt that was not handled. -/
def State.Pending (s : State Packet) : Prop :=
  s.txif = true ∨ s.txerif = true

/-- No frame was overwritten, the packets are given to the chip in the order in which they were
accepted, and none waits for an interrupt that does not come. -/
structure State.Right (s : State Packet) : Prop where
  whole : s.overwritten = false
  order : s.accepted = s.given ++ s.outq
  awake : s.place = .free → s.outq ≠ [] → s.txrts = true ∨ s.Pending

/-- A packet is given to the chip before the interrupt of the one before it was handled. -/
def Ahead (s : State Packet) : Event Packet → Prop
  | .output _ => s.txrts = false ∧ s.Pending
  | _ => False

/-- What holds where `handle_interrupts` stands. -/
def State.Placed (s : State Packet) : Prop :=
  match s.place with
  | .free | .read | .test _ false =>
    (s.Pending → s.txrts = false) ∧ (s.txrts = false → ¬s.Pending → s.outq = [])
  | .reset _ => s.txrts = false ∧ s.txerif = true
  | .clear _ => s.txrts = false
  | .retransmit _ => s.txrts = false ∧ ¬s.Pending
  | .test _ true => s.txrts = false ∧ s.txif = true ∧ s.txerif = false
  | .clearTxif => s.txrts = false ∧ s.txerif = false
  | .next => s.txrts = false ∧ ¬s.Pending

structure State.Calm (s : State Packet) : Prop where
  whole : s.overwritten = false
  order : s.accepted = s.given ++ s.outq
  placed : s.Placed

theorem State.Calm.right (calm : s.Calm) : s.Right := by
  refine ⟨calm.whole, calm.order, fun free waits => ?_⟩
  have placed := calm.placed
  simp only [State.Placed, free] at placed
  by_contra none
  obtain ⟨idle, quiet⟩ := not_or.mp none
  exact waits (placed.2 (Bool.eq_false_iff.mpr idle) quiet)

theorem calm_output {capacity : Nat} {p : Packet} (calm : s.Calm) (free : s.place = .free)
    (behind : ¬Ahead s (.output p)) : (s.output capacity p).Calm := by
  obtain ⟨whole, order, placed⟩ := calm
  simp only [State.Placed, free] at placed
  rw [State.output]
  split
  · rename_i busy
    split
    · exact ⟨whole, order, by simpa only [State.Placed, free] using placed⟩
    · refine ⟨whole, by simp [order], ?_⟩
      simp only [State.Placed, free, State.Pending]
      exact ⟨placed.1, fun idle => by simp [busy] at idle⟩
  · rename_i idle
    have idle := Bool.eq_false_iff.mpr idle
    have quiet : ¬s.Pending := fun pending => behind ⟨idle, pending⟩
    have none := placed.2 idle quiet
    refine ⟨by simp [State.transmit, whole, idle], by simp [State.transmit, order, none], ?_⟩
    simp only [State.Placed, State.transmit, free, State.Pending]
    exact ⟨fun pending => absurd pending quiet, fun idle => by contradiction⟩

theorem calm_stop {txif txerif : Bool} (calm : s.Calm) (busy : s.txrts = true)
    (reports : txif = true ∨ txerif = true) :
    State.Calm { s with txrts := false, txif, txerif } := by
  refine ⟨calm.whole, calm.order, ?_⟩
  have placed := calm.placed
  have waits : ¬(txif = true ∨ txerif = true) → s.outq = [] := absurd reports
  cases place : s.place with
  | free | read => simpa [State.Placed, State.Pending, place] using waits
  | test pktif own =>
    cases own with
    | false => simpa [State.Placed, State.Pending, place] using waits
    | true => simp [State.Placed, place, busy] at placed
  | reset | clear | retransmit | clearTxif | next => simp [State.Placed, place, busy] at placed

theorem calm_go (calm : s.Calm) (pktif : Bool) : (s.go pktif).Calm := by
  obtain ⟨whole, order, placed⟩ := calm
  rw [State.go]
  split <;> rename_i place <;> simp only [State.Placed, place] at placed
  · exact ⟨whole, order, by simpa only [State.Placed, place] using placed⟩
  · refine ⟨whole, order, ?_⟩
    cases error : s.txerif <;> cases done : s.txif <;>
      simp_all [State.Placed, State.Pending]
  · exact ⟨whole, order, rfl⟩
  · exact ⟨whole, order, placed, by simp [State.Pending]⟩
  · exact ⟨whole, order, by simp_all [State.Placed, State.Pending]⟩
  · rename_i pktif' txif
    refine ⟨whole, order, ?_⟩
    cases txif
    · cases pktif' <;> exact placed
    · exact ⟨placed.1, placed.2.2⟩
  · exact ⟨whole, order, placed.1, by simp [State.Pending, placed.2]⟩
  · obtain ⟨idle, quiet⟩ := placed
    split
    · rename_i none
      exact ⟨whole, order, fun _ => idle, fun _ _ => none⟩
    · rename_i p rest waits
      refine ⟨by simp [State.transmit, whole, idle], by simp [State.transmit, order, waits], ?_⟩
      exact ⟨fun pending => absurd pending quiet, fun idle => by contradiction⟩

theorem calm_step {capacity : Nat} (calm : s.Calm) (behind : ¬Ahead s e)
    (result : step capacity s e = some s') : s'.Calm := by
  cases e with
  | output p =>
    rw [step] at result
    split at result
    · rename_i free
      cases result
      exact calm_output calm free behind
    · contradiction
  | complete =>
    rw [step] at result
    split at result
    · rename_i busy
      cases result
      exact calm_stop calm busy (.inl rfl)
    · contradiction
  | collide txif =>
    rw [step] at result
    split at result
    · rename_i busy
      cases result
      exact calm_stop calm busy (.inr rfl)
    · contradiction
  | handle =>
    rw [step] at result
    split at result
    · rename_i free
      cases result
      refine ⟨calm.whole, calm.order, ?_⟩
      have placed := calm.placed
      rwa [State.Placed, free] at placed
    · contradiction
  | go pktif =>
    cases result
    exact calm_go calm pktif

theorem right_of_reached {capacity : Nat}
    (reached : Reached capacity (fun s e => ¬Ahead s e) s) : s.Right := by
  have calm : s.Calm := by
    induction reached with
    | start => exact ⟨rfl, rfl, by simp [State.Placed]⟩
    | step reached allowed result ih => exact calm_step ih allowed result
  exact calm.right

theorem right_of_sent : State.Right (({} : State Nat).output 8 1) :=
  @right_of_reached Nat _ 8 (.step .start (e := .output 1) (by simp [Ahead, State.Pending]) rfl)

/-- Behind the completion of the first frame, the third one goes before the second.  The interrupt
of the first one is handled then, and the second overwrites the third. -/
theorem overtaken_not_right :
    ¬∀ (capacity : Nat) (s : State Nat), Reached capacity (fun _ _ => True) s → s.Right := by
  intro right
  have none : Reached 8 (fun _ _ => True) ({} : State Nat) := .start
  have first := none.step (e := .output 1) trivial rfl
  have second := first.step (e := .output 2) trivial rfl
  have sent := second.step (e := .complete) trivial rfl
  have third := sent.step (e := .output 3) trivial rfl
  have handled := third.step (e := .handle) trivial rfl
  have read := handled.step (e := .go false) trivial rfl
  have tested := read.step (e := .go false) trivial rfl
  have cleared := tested.step (e := .go false) trivial rfl
  have fetched := cleared.step (e := .go false) trivial rfl
  exact absurd (right 8 _ fetched).whole (by decide)

end Uos.Enc28j60
