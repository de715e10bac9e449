import Mathlib.Data.List.TakeWhile
import Uos.Stream.Pipe

/-!
# Pipes as queues

A pipe stands for two bounded queues, and what its tasks have been given comes out of these.
-/

namespace Uos

open Function List

/-- The queue that each stream writes, with a bound on its length. -/
structure Fifos where
  closed : End → Bool
  bound : Nat
  queue : End → List UShort

def Fifos.turn : PipeCall → Fifos → Monitor.Turn Fifos PipeAnswer
  | .putc e c, f =>
    if f.closed e.other = true then .returns .done false f
    else if (f.queue e).length < f.bound then
      .returns .done true { f with queue := Function.update f.queue e (f.queue e ++ [c]) }
    else .waits
  | .getc e, f =>
    match f.queue e.other with
    | [] => if f.closed e.other = true then .returns .minusOne false f else .waits
    | c :: rest =>
      .returns (.character c) true { f with queue := Function.update f.queue e.other rest }
  | .peekc e, f =>
    match f.queue e.other with
    | [] => .returns .minusOne false f
    | c :: _ => .returns (.character c) false f
  | .flush e, f =>
    if f.queue e ≠ [] ∧ f.closed e.other = false then .waits else .returns .done false f
  | .eof e, f => .returns (.flag (f.closed e.other)) false f
  | .close e, f =>
    .returns .done true
      { f with
        closed := Function.update f.closed e true
        queue := Function.update f.queue e.other [] }

namespace Pipe

def fifos (u : Pipe) : Fifos where
  closed := u.closed
  bound := u.fifoChars - 1
  queue := u.contents

variable {u : Pipe}

theorem closed_fifos : u.fifos.closed = u.closed :=
  rfl

theorem queue_fifos : u.fifos.queue = u.contents :=
  rfl

variable (e : End) {call : PipeCall} {answer : PipeAnswer}

theorem putchar_eq (c : UShort) (u : Pipe) :
    putchar e c u =
      if u.closed e.other = true then .returns .done false u
      else if u.next e (u.last e) ≠ u.first e then .returns .done true (u.store e c)
      else .waits :=
  rfl

theorem getchar_eq (u : Pipe) :
    getchar e u =
      if u.first e.other = u.last e.other then
        if u.closed e.other = true then .returns .minusOne false u else .waits
      else .returns (.character (u.data (u.first e.other))) true (u.fetch e.other) :=
  rfl

theorem turn_putc (c : UShort) : turn (.putc e c) = putchar e c := by
  cases e <;> rfl

theorem turn_getc : turn (.getc e) = getchar e := by
  cases e <;> rfl

theorem turn_peekc : turn (.peekc e) = peekchar e := by
  cases e <;> rfl

theorem turn_flush : turn (.flush e) = flush e := by
  cases e <;> rfl

theorem turn_eof : turn (.eof e) = eof e := by
  cases e <;> rfl

theorem turn_close : turn (.close e) = close e := by
  cases e <;> rfl

theorem fifos_store (valid : u.Valid) {e : End} (room : u.next e (u.last e) ≠ u.first e)
    (c : UShort) :
    (u.store e c).fifos =
      { u.fifos with queue := Function.update u.contents e (u.contents e ++ [c]) } := by
  rw [fifos, contents_store valid room]
  rfl

theorem fifos_fetch (valid : u.Valid) {e : End} {c : UShort} {rest : List UShort}
    (front : u.contents e = c :: rest) :
    (u.fetch e).fifos = { u.fifos with queue := Function.update u.contents e rest } ∧
      u.data (u.first e) = c := by
  have filled : u.first e ≠ u.last e := by
    rw [Ne, ← contents_eq_nil_iff valid, front]
    exact cons_ne_nil c rest
  have taken := contents_fetch valid filled
  rw [front] at taken
  obtain ⟨first, others⟩ := List.cons.inj taken
  have queue : (u.fetch e).contents = Function.update u.contents e rest := by
    funext d
    rcases eq_or_ne d e with rfl | ne
    · rw [update_self, others]
    · rw [update_of_ne ne, contents_fetch_of_ne ne]
  refine ⟨?_, first.symm⟩
  rw [fifos, queue]
  rfl

theorem fifos_shut (valid : u.Valid) (e : End) :
    (u.shut e).fifos =
      { u.fifos with
        closed := Function.update u.closed e true
        queue := Function.update u.contents e.other [] } := by
  rw [fifos, contents_shut valid]
  rfl

theorem turn_fifos (valid : u.Valid) (call : PipeCall) :
    Fifos.turn call u.fifos = (turn call u).map fifos := by
  cases call with
  | putc e c =>
    have room : (u.fifos.queue e).length < u.fifos.bound ↔ u.next e (u.last e) ≠ u.first e :=
      (next_ne_first_iff valid e).symm
    rw [turn_putc, putchar_eq, Fifos.turn]
    simp only [room, closed_fifos]
    split_ifs with closed room
    · rfl
    · rw [Monitor.Turn.map, fifos_store valid room]
      rfl
    · rfl
  | getc e =>
    have empty := contents_eq_nil_iff valid e.other
    rw [turn_getc, getchar_eq, Fifos.turn]
    cases queued : u.contents e.other with
    | nil =>
      rw [queue_fifos, queued, if_pos (empty.mp queued), closed_fifos]
      dsimp only
      split_ifs <;> rfl
    | cons c rest =>
      obtain ⟨fetched, first⟩ := fifos_fetch valid queued
      have filled : u.first e.other ≠ u.last e.other := by
        rw [Ne, ← empty, queued]
        exact cons_ne_nil c rest
      rw [queue_fifos, queued, if_neg filled, Monitor.Turn.map, fetched, first]
  | peekc e =>
    have empty := contents_eq_nil_iff valid e.other
    rw [turn_peekc, peekchar, Fifos.turn]
    cases queued : u.contents e.other with
    | nil =>
      rw [queue_fifos, queued, if_pos (empty.mp queued)]
      rfl
    | cons c rest =>
      have filled : u.first e.other ≠ u.last e.other := by
        rw [Ne, ← empty, queued]
        exact cons_ne_nil c rest
      rw [queue_fifos, queued, if_neg filled, Monitor.Turn.map,
        (fifos_fetch valid queued).2]
  | flush e =>
    have empty := contents_eq_nil_iff valid e
    rw [turn_flush, flush, Fifos.turn]
    rw [closed_fifos, queue_fifos]
    simp only [ne_eq, ← empty]
    split_ifs <;> rfl
  | eof e =>
    rw [turn_eof]
    rfl
  | close e =>
    rw [turn_close, Fifos.turn]
    exact congrArg (Monitor.Turn.returns PipeAnswer.done true) (fifos_shut valid e).symm

theorem Valid.turn (valid : u.Valid) {signals : Bool} {u' : Pipe}
    (returns : turn call u = .returns answer signals u') : u'.Valid := by
  cases call with
  | putc e c =>
    rw [turn_putc, putchar_eq] at returns
    split_ifs at returns
    · cases returns
      exact valid
    · cases returns
      exact valid.store e c
  | getc e =>
    rw [turn_getc, getchar_eq] at returns
    split_ifs at returns
    · cases returns
      exact valid
    · cases returns
      exact valid.fetch e.other
  | peekc e =>
    rw [turn_peekc, peekchar] at returns
    split_ifs at returns <;> cases returns <;> exact valid
  | flush e =>
    rw [turn_flush, flush] at returns
    split_ifs at returns
    cases returns
    exact valid
  | eof e =>
    rw [turn_eof] at returns
    cases returns
    exact valid
  | close e =>
    rw [turn_close] at returns
    cases returns
    exact valid.shut e

/-- The characters of the calls of `putchar` on a stream. -/
def putchars (e : End) (history : List (PipeCall × PipeAnswer)) : List UShort :=
  history.filterMap fun
    | (.putc d c, _) => if d = e then some c else none
    | _ => none

/-- The characters that `getchar` has returned on a stream. -/
def getchars (e : End) (history : List (PipeCall × PipeAnswer)) : List UShort :=
  history.filterMap fun
    | (.getc d, .character c) => if d = e then some c else none
    | _ => none

/-- The calls that have returned before the first one of some calls. -/
def before (calls : List PipeCall) (history : List (PipeCall × PipeAnswer)) :
    List (PipeCall × PipeAnswer) :=
  history.takeWhile fun returned => decide (returned.1 ∉ calls)

section History

variable {e d : End} {history later : List (PipeCall × PipeAnswer)} {calls : List PipeCall}
  {returned : PipeCall × PipeAnswer} {answer : PipeAnswer} {f f' : Fifos}

theorem putchars_append :
    putchars e (history ++ later) = putchars e history ++ putchars e later :=
  filterMap_append

theorem getchars_append :
    getchars e (history ++ later) = getchars e history ++ getchars e later :=
  filterMap_append

theorem putchars_putc (c : UShort) (ne : d ≠ e) : putchars e [(.putc d c, answer)] = [] := by
  simp [putchars, ne]

theorem putchars_putc_self (c : UShort) : putchars e [(.putc e c, answer)] = [c] := by
  simp [putchars]

theorem getchars_getc (c : UShort) (ne : d ≠ e) :
    getchars e [(.getc d, .character c)] = [] := by
  simp [getchars, ne]

theorem getchars_getc_self (c : UShort) : getchars e [(.getc e, .character c)] = [c] := by
  simp [getchars]

theorem before_of_notMem (none : ∀ returned ∈ history, returned.1 ∉ calls) :
    before calls history = history := by
  rw [before, takeWhile_eq_self_iff]
  intro returned member
  exact decide_eq_true (none returned member)

theorem before_append_of_notMem (none : ∀ returned ∈ history, returned.1 ∉ calls) :
    before calls (history ++ later) = history ++ before calls later :=
  takeWhile_append_of_pos fun returned member => decide_eq_true (none returned member)

theorem before_append_of_mem (some : ∃ returned ∈ history, returned.1 ∈ calls) :
    before calls (history ++ later) = before calls history := by
  obtain ⟨returned, member, called⟩ := some
  rw [before, takeWhile_append, if_neg]
  · rfl
  · intro whole
    have all := takeWhile_eq_self_iff.mp
      ((List.takeWhile_prefix _).eq_of_length whole) returned member
    exact of_decide_eq_true all called

end History

/-- What the reader of a queue has been given, the queue, and what has been written. -/
structure Accounted (e : End) (f : Fifos) (history : List (PipeCall × PipeAnswer)) : Prop where
  opened : f.closed e = false →
    (∀ returned ∈ history, returned.1 ∉ [PipeCall.close e]) ∧
      getchars e history ++ f.queue e.other = putchars e.other history
  shut : f.closed e = true →
    (∃ returned ∈ history, returned.1 ∈ [PipeCall.close e]) ∧ f.queue e.other = [] ∧
      getchars e history <+: putchars e.other (before [.close e] history)

section Accounts

variable {e : End} {f f' : Fifos} {history : List (PipeCall × PipeAnswer)} {call : PipeCall}
  {answer : PipeAnswer} {signals : Bool}

theorem Accounted.start (e : End) {f : Fifos} (opened : f.closed e = false)
    (empty : f.queue e.other = []) : Accounted e f [] where
  opened _ := ⟨nofun, empty⟩
  shut closed := absurd (opened.symm.trans closed) Bool.false_ne_true

theorem Accounted.append (accounted : Accounted e f history) (same : f'.closed e = f.closed e)
    (other : call ≠ .close e)
    (moved : getchars e [(call, answer)] ++ f'.queue e.other =
      f.queue e.other ++ if f.closed e = true then [] else putchars e.other [(call, answer)]) :
    Accounted e f' (history ++ [(call, answer)]) where
  opened closed := by
    rw [same] at closed
    obtain ⟨none, balance⟩ := accounted.opened closed
    rw [closed, if_neg Bool.false_ne_true] at moved
    constructor
    · intro returned member
      rcases mem_append.mp member with earlier | now
      · exact none returned earlier
      · rw [mem_singleton.mp now]
        exact fun closes => other (mem_singleton.mp closes)
    · rw [getchars_append, putchars_append, append_assoc, moved, ← balance,
        append_assoc]
  shut closed := by
    rw [same] at closed
    obtain ⟨some, empty, order⟩ := accounted.shut closed
    rw [closed, if_pos rfl, empty, nil_append, append_eq_nil_iff] at moved
    obtain ⟨nothing, still⟩ := moved
    obtain ⟨returned, member, closes⟩ := some
    refine ⟨⟨returned, mem_append_left _ member, closes⟩, still, ?_⟩
    rw [getchars_append, nothing, append_nil,
      before_append_of_mem ⟨returned, member, closes⟩]
    exact order

theorem Accounted.still (accounted : Accounted e f history) (same : f'.closed e = f.closed e)
    (kept : f'.queue e.other = f.queue e.other) (other : call ≠ .close e)
    (silent : putchars e.other [(call, answer)] = []) (nothing : getchars e [(call, answer)] = []) :
    Accounted e f' (history ++ [(call, answer)]) := by
  apply accounted.append same other
  rw [silent, nothing, kept, ite_self, append_nil, nil_append]

theorem Accounted.close (accounted : Accounted e f history) (closed : f'.closed e = true)
    (empty : f'.queue e.other = []) :
    Accounted e f' (history ++ [(.close e, answer)]) where
  opened opened := absurd (opened.symm.trans closed) Bool.false_ne_true
  shut _ := by
    have closes : PipeCall.close e ∈ [PipeCall.close e] := mem_singleton_self _
    refine ⟨⟨_, mem_append_right _ (mem_singleton_self _), closes⟩, empty, ?_⟩
    have nothing : getchars e [(PipeCall.close e, answer)] = [] := rfl
    rw [getchars_append, nothing, append_nil]
    cases already : f.closed e with
    | true =>
      obtain ⟨some, _, order⟩ := accounted.shut already
      rw [before_append_of_mem some]
      exact order
    | false =>
      obtain ⟨none, balance⟩ := accounted.opened already
      have last : before [.close e] [(PipeCall.close e, answer)] = [] :=
        takeWhile_cons_of_neg (by simp)
      rw [before_append_of_notMem none, last, append_nil, ← balance]
      exact prefix_append ..

theorem Accounted.putc (accounted : Accounted e f history) {d : End} {c : UShort}
    (returns : Fifos.turn (.putc d c) f = .returns answer signals f') :
    Accounted e f' (history ++ [(.putc d c, answer)]) := by
  have other : PipeCall.putc d c ≠ .close e := nofun
  rw [Fifos.turn] at returns
  rcases End.eq_or_eq_other d e with rfl | rfl
  · have silent : putchars d.other [(PipeCall.putc d c, answer)] = [] :=
      putchars_putc c (End.ne_other d)
    split_ifs at returns
    · cases returns
      exact accounted.still rfl rfl other silent rfl
    · cases returns
      exact accounted.still rfl (update_of_ne (End.ne_other d).symm ..) other silent rfl
  · rw [End.other_other] at returns
    split_ifs at returns with closed
    · cases returns
      refine accounted.append rfl other ?_
      rw [if_pos closed, append_nil]
      rfl
    · cases returns
      refine accounted.append rfl other ?_
      rw [if_neg closed, putchars_putc_self]
      exact update_self ..

theorem Accounted.getc (accounted : Accounted e f history) {d : End}
    (returns : Fifos.turn (.getc d) f = .returns answer signals f') :
    Accounted e f' (history ++ [(.getc d, answer)]) := by
  have other : PipeCall.getc d ≠ .close e := nofun
  rw [Fifos.turn] at returns
  cases queued : f.queue d.other with
  | nil =>
    rw [queued] at returns
    dsimp only at returns
    split_ifs at returns
    cases returns
    exact accounted.still rfl rfl other rfl rfl
  | cons c rest =>
    rw [queued] at returns
    cases returns
    rcases End.eq_or_eq_other d e with rfl | rfl
    · refine accounted.append rfl other ?_
      rw [getchars_getc_self, queued]
      dsimp only
      rw [update_self]
      split_ifs <;> exact (append_nil _).symm
    · have kept : Function.update f.queue e.other.other rest e.other = f.queue e.other := by
        rw [End.other_other]
        exact update_of_ne (End.ne_other e).symm ..
      exact accounted.still rfl kept other rfl (getchars_getc c (End.ne_other e).symm)

theorem Accounted.turn (accounted : Accounted e f history)
    (returns : Fifos.turn call f = .returns answer signals f') :
    Accounted e f' (history ++ [(call, answer)]) := by
  cases call with
  | putc d c => exact accounted.putc returns
  | getc d => exact accounted.getc returns
  | peekc d =>
    rw [Fifos.turn] at returns
    split at returns <;> cases returns <;> exact accounted.still rfl rfl nofun rfl rfl
  | flush d =>
    rw [Fifos.turn] at returns
    split_ifs at returns
    cases returns
    exact accounted.still rfl rfl nofun rfl rfl
  | eof d =>
    cases returns
    exact accounted.still rfl rfl nofun rfl rfl
  | close d =>
    cases returns
    rcases End.eq_or_eq_other d e with rfl | rfl
    · exact accounted.close (update_self ..) (update_self ..)
    · have kept : Function.update f.queue e.other.other [] e.other = f.queue e.other := by
        rw [End.other_other]
        exact update_of_ne (End.ne_other e).symm ..
      have other : PipeCall.close e.other ≠ .close e := fun same =>
        End.ne_other e (PipeCall.close.inj same).symm
      exact accounted.still (update_of_ne (End.ne_other e) ..) kept other rfl rfl

end Accounts

theorem fifos_quiet {f f' : Fifos} (returns : Fifos.turn call f = .returns answer false f') :
    f' = f := by
  cases call <;> rw [Fifos.turn] at returns
  case putc =>
    split_ifs at returns
    · cases returns
      rfl
    · cases returns
  case getc =>
    split at returns
    · split_ifs at returns
      cases returns
      rfl
    · cases returns
  case peekc => split at returns <;> cases returns <;> rfl
  case flush =>
    split_ifs at returns
    cases returns
    rfl
  case eof =>
    cases returns
    rfl
  case close => cases returns

theorem fifos_bound {f f' : Fifos} {signals : Bool}
    (returns : Fifos.turn call f = .returns answer signals f') : f'.bound = f.bound := by
  cases call <;> rw [Fifos.turn] at returns
  case putc => split_ifs at returns <;> cases returns <;> rfl
  case getc =>
    split at returns
    · split_ifs at returns
      cases returns
      rfl
    · cases returns
      rfl
  case peekc => split at returns <;> cases returns <;> rfl
  case flush =>
    split_ifs at returns
    cases returns
    rfl
  case eof =>
    cases returns
    rfl
  case close =>
    cases returns
    rfl

theorem peekchar_eq (valid : u.Valid) (e : End) :
    turn (.peekc e) u =
      .returns ((u.contents e.other).head?.elim .minusOne .character) false u := by
  have empty := contents_eq_nil_iff valid e.other
  rw [turn_peekc, peekchar]
  cases queued : u.contents e.other with
  | nil => exact if_pos (empty.mp queued)
  | cons c rest =>
    have filled : u.first e.other ≠ u.last e.other := by
      rw [Ne, ← empty, queued]
      exact cons_ne_nil c rest
    rw [if_neg filled, (fifos_fetch valid queued).2]
    rfl

theorem getchar_eq_fetch (valid : u.Valid) {e : End} {c : UShort} {rest : List UShort}
    (queued : u.contents e.other = c :: rest) :
    turn (.getc e) u = .returns (.character c) true (u.fetch e.other) ∧
      (u.fetch e.other).contents e.other = rest := by
  have filled : u.first e.other ≠ u.last e.other := by
    rw [Ne, ← contents_eq_nil_iff valid, queued]
    exact cons_ne_nil c rest
  obtain ⟨fetched, first⟩ := fifos_fetch valid queued
  rw [turn_getc, getchar_eq, if_neg filled, first]
  exact ⟨rfl, (congrArg (fun f => f.queue e.other) fetched).trans (update_self ..)⟩

/-- What a pipe with rings of a size promises to the users of one of its streams. -/
structure Promises {Task : Type*} (fifoChars : Nat) (e : End)
    (m : Monitor Pipe PipeCall PipeAnswer Task) : Prop where
  order : getchars e m.history <+: putchars e.other (before [.close e] m.history)
  pending : m.state.closed e = false →
    getchars e m.history ++ m.state.contents e.other = putchars e.other m.history
  discarded : m.state.closed e = true → m.state.contents e.other = []
  peek : turn (.peekc e) m.state =
    .returns ((m.state.contents e.other).head?.elim .minusOne .character) false m.state
  next : ∀ c rest, m.state.contents e.other = c :: rest →
    ∃ later, turn (.getc e) m.state = .returns (.character c) true later ∧
      later.contents e.other = rest
  bounded : (m.state.contents e).length ≤ fifoChars - 1
  writers : ∀ task c, m.waiting task = some (.putc e c, false) →
    (m.state.contents e).length = fifoChars - 1
  readers : ∀ task, m.waiting task = some (.getc e, false) → m.state.contents e.other = []

/-- In every run of any tasks, what is read from a stream is what was written to the other one
before the reader was closed, in order; the rest is bounded, and no task waits in vain. -/
theorem promises_of_run {Task : Type*} [DecidableEq Task] {fifoChars : Nat} (wide : 1 < fifoChars)
    {m : Monitor Pipe PipeCall PipeAnswer Task}
    (run : Monitor.Run turn { state := new fifoChars } m) (e : End) : Promises fifoChars e m := by
  obtain ⟨valid, queues⟩ := Monitor.Run.map fifos Valid (fun valid => valid.turn)
    (fun call valid => turn_fifos valid call) (Valid.new wide) run
  have empty (d : End) : (new fifoChars).contents d = [] :=
    (contents_eq_nil_iff (Valid.new wide) d).mpr rfl
  have accounted : Accounted e m.state.fifos m.history :=
    Monitor.Run.accounts (Accounted e) (fun accounted => accounted.turn)
      (Accounted.start e rfl (empty e.other)) queues
  have bound : m.state.fifoChars - 1 = fifoChars - 1 :=
    Monitor.Run.accounts (fun f _ => f.bound = fifoChars - 1)
      (fun same returns => (fifos_bound returns).trans same) rfl queues
  have patient : Monitor.Patient Fifos.turn
      ({ m with state := m.state.fifos } : Monitor Fifos PipeCall PipeAnswer Task) :=
    Monitor.Run.patient (fun returns waits => fifos_quiet returns ▸ waits)
      (Monitor.Patient.idle fun _ => rfl) queues
  have length (d : End) : (m.state.contents d).length ≤ fifoChars - 1 := by
    rw [← bound]
    exact Nat.le_sub_one_of_lt (length_contents_lt valid d)
  constructor
  case order =>
    cases closed : m.state.closed e with
    | true => exact (accounted.shut closed).2.2
    | false =>
      obtain ⟨none, balance⟩ := accounted.opened closed
      rw [before_of_notMem none, ← balance]
      exact prefix_append ..
  case pending => exact fun closed => (accounted.opened closed).2
  case discarded => exact fun closed => (accounted.shut closed).2.1
  case peek => exact peekchar_eq valid e
  case next => exact fun c rest queued => ⟨_, getchar_eq_fetch valid queued⟩
  case bounded => exact length e
  case writers =>
    intro task c waits
    have full := patient task _ waits
    rw [Fifos.turn] at full
    split_ifs at full with closed room
    exact Nat.le_antisymm (length e) (bound ▸ Nat.le_of_not_lt room)
  case readers =>
    intro task waits
    have nothing := patient task _ waits
    rw [Fifos.turn] at nothing
    split at nothing
    · assumption
    · cases nothing

def alone (fifoChars : Nat) (calls : List PipeCall) : Monitor Pipe PipeCall PipeAnswer Unit :=
  calls.foldl (fun m call => m.execute turn () call) { state := new fifoChars }

theorem promises_alone : Promises 2 .slave (alone 2 [.putc .master 120, .getc .slave]) := by
  apply promises_of_run (by decide)
  apply Relation.ReflTransGen.head (.begins () (.putc .master 120) rfl)
  exact .single (.begins () (PipeCall.getc .slave) rfl)

/-- A stream that has been closed itself can still be written to. -/
theorem not_order_before_either :
    ¬∀ fifoChars, 1 < fifoChars → ∀ m : Monitor Pipe PipeCall PipeAnswer Unit,
      Monitor.Run turn { state := new fifoChars } m → ∀ e,
        getchars e m.history <+:
          putchars e.other (before [.close .master, .close .slave] m.history) := by
  intro claimed
  have run : Monitor.Run turn { state := new 2 }
      (alone 2 [.close .master, .putc .master 120, .getc .slave]) := by
    apply Relation.ReflTransGen.head (.begins () (.close .master) rfl)
    apply Relation.ReflTransGen.head (.begins () (.putc .master 120) rfl)
    exact .single (.begins () (PipeCall.getc .slave) rfl)
  exact absurd (claimed 2 (by decide) _ run .slave) (by decide +kernel)

end Pipe
end Uos
