import Mathlib.Data.Finite.Defs
import Mathlib.Data.Fintype.EquivFin
import Mathlib.Logic.Relation
import Mathlib.Order.WellFounded

/-!
# Loops that go on or stop

A loop whose turn either gives a next state or stops with a result.  On finitely many states it
ends unless it comes back to a state.
-/

namespace Uos

/-- Let a loop run, with a bound on its turns. -/
def loopTurns {State Result : Type*} (turn : State → State ⊕ Result) : Nat → State → Option Result
  | 0, _ => none
  | turns + 1, s =>
    match turn s with
    | .inl next => loopTurns turn turns next
    | .inr result => some result

/-- What is recorded in each turn of a loop. -/
def loopTrace {State Result Item : Type*} (turn : State → State ⊕ Result)
    (record : State → List Item) : Nat → State → List Item
  | 0, _ => []
  | turns + 1, s =>
    record s ++
      match turn s with
      | .inl next => loopTrace turn record turns next
      | .inr _ => []

/-- A turn leads from one state to the next. -/
def Leads {State Result : Type*} (turn : State → State ⊕ Result) (s next : State) : Prop :=
  turn s = .inl next

instance {State Result : Type*} [DecidableEq State] [DecidableEq Result]
    (turn : State → State ⊕ Result) (s next : State) : Decidable (Leads turn s next) :=
  inferInstanceAs (Decidable (turn s = .inl next))

/-- The states that a loop comes to. -/
abbrev Passes {State Result : Type*} (turn : State → State ⊕ Result) : State → State → Prop :=
  Relation.ReflTransGen (Leads turn)

section Loop

variable {State Result Item : Type*} {turn : State → State ⊕ Result} {record : State → List Item}
  {s s' next : State} {result : Result} {turns : Nat}

theorem leads_unique : Relator.RightUnique (Leads turn) := by
  intro s first second toFirst toSecond
  exact Sum.inl.inj (toFirst.symm.trans toSecond)

theorem Leads.loopTurns (leads : Leads turn s next) :
    loopTurns turn (turns + 1) s = loopTurns turn turns next := by
  rw [Uos.loopTurns, leads]

theorem loopTurns_stop (stops : turn s = .inr result) :
    loopTurns turn (turns + 1) s = some result := by
  rw [Uos.loopTurns, stops]

/-- A loop stops with a result when it comes to a state where the turn does. -/
theorem Passes.loopTurns (passes : Passes turn s s') (stops : turn s' = .inr result) :
    ∃ turns, loopTurns turn turns s = some result := by
  induction passes using Relation.ReflTransGen.head_induction_on with
  | refl => exact ⟨1, loopTurns_stop stops⟩
  | head leads _ ih =>
    obtain ⟨turns, ends⟩ := ih
    exact ⟨turns + 1, leads.loopTurns.trans ends⟩

theorem loopTurns_passes (ends : loopTurns turn turns s = some result) :
    ∃ s', Passes turn s s' ∧ turn s' = .inr result := by
  induction turns generalizing s with
  | zero => cases ends
  | succ turns ih =>
    cases now : turn s with
    | inl next =>
      rw [Leads.loopTurns now] at ends
      obtain ⟨s', passes, stops⟩ := ih ends
      exact ⟨s', .head now passes, stops⟩
    | inr own =>
      rw [loopTurns_stop now] at ends
      exact ⟨s, .refl, now.trans (congrArg _ (Option.some.inj ends))⟩

/-- A loop stops in one state only. -/
theorem Passes.stop_unique {first second : State} {result' : Result}
    (toFirst : Passes turn s first) (toSecond : Passes turn s second)
    (stopsFirst : turn first = .inr result) (stopsSecond : turn second = .inr result') :
    first = second := by
  have stays {here there : State} {own : Result} (stops : turn here = .inr own)
      (passes : Passes turn here there) : here = there := by
    rcases passes.cases_head with same | ⟨next, leads, -⟩
    · exact same
    · exact absurd (stops.symm.trans leads) Sum.inr_ne_inl
  rcases Relation.ReflTransGen.total_of_right_unique leads_unique toFirst toSecond with
    passes | passes
  · exact stays stopsFirst passes
  · exact (stays stopsSecond passes).symm

/-- Fewer turns are left in a later state. -/
theorem loopTurns_later (later : Relation.TransGen (Leads turn) s s')
    (ends : (loopTurns turn turns s).isSome = true) :
    ∃ fewer < turns, (loopTurns turn fewer s').isSome = true := by
  have one {turns : Nat} {s next : State} (leads : Leads turn s next)
      (ends : (loopTurns turn turns s).isSome = true) :
      ∃ fewer < turns, (loopTurns turn fewer next).isSome = true := by
    cases turns with
    | zero => cases ends
    | succ turns =>
      rw [leads.loopTurns] at ends
      exact ⟨turns, Nat.lt_succ_self turns, ends⟩
  induction later with
  | single leads => exact one leads ends
  | tail _ leads ih =>
    obtain ⟨fewer, less, ends⟩ := ih
    obtain ⟨last, lesser, ends⟩ := one leads ends
    exact ⟨last, lesser.trans less, ends⟩

/-- A loop on finitely many states ends if and only if it never comes back to a state. -/
theorem loopTurns_ends_iff [Finite State] :
    (∃ turns, (loopTurns turn turns s).isSome = true) ↔
      ∀ s', Passes turn s s' → ¬Relation.TransGen (Leads turn) s' s' := by
  constructor
  · rintro ⟨turns, ends⟩ s' passes cycle
    have endless (turns : Nat) : (loopTurns turn turns s').isSome ≠ true := by
      induction turns using Nat.strong_induction_on with
      | _ turns ih =>
        intro ends
        obtain ⟨fewer, less, ends⟩ := loopTurns_later cycle ends
        exact ih fewer less ends
    rcases Relation.reflTransGen_iff_eq_or_transGen.mp passes with rfl | later
    · exact endless turns ends
    · obtain ⟨fewer, -, ends⟩ := loopTurns_later later ends
      exact endless fewer ends
  · intro acyclic
    let Later : { s' // Passes turn s s' } → { s' // Passes turn s s' } → Prop :=
      fun second first => Relation.TransGen (Leads turn) first.1 second.1
    have trans : IsTrans _ Later := ⟨fun _ _ _ second first => first.trans second⟩
    have irrefl : Std.Irrefl Later := ⟨fun place => acyclic place.1 place.2⟩
    have founded : WellFounded Later := Finite.wellFounded_of_trans_of_irrefl Later
    have ends (place : { s' // Passes turn s s' }) :
        ∃ turns, (loopTurns turn turns place.1).isSome = true := by
      induction place using founded.induction with
      | _ place ih =>
        cases now : turn place.1 with
        | inl next =>
          obtain ⟨turns, ends⟩ := ih ⟨next, place.2.tail now⟩ (.single now)
          exact ⟨turns + 1, by rw [Leads.loopTurns now, ends]⟩
        | inr result => exact ⟨1, by rw [loopTurns_stop now, Option.isSome_some]⟩
    exact ends ⟨s, .refl⟩

/-- What a loop records is what it records in the states it comes to. -/
theorem mem_loopTrace_iff {item : Item} :
    (∃ turns, item ∈ loopTrace turn record turns s) ↔
      ∃ s', Passes turn s s' ∧ item ∈ record s' := by
  constructor
  · rintro ⟨turns, member⟩
    induction turns generalizing s with
    | zero => exact absurd member List.not_mem_nil
    | succ turns ih =>
      rcases List.mem_append.mp member with own | later
      · exact ⟨s, .refl, own⟩
      · cases now : turn s with
        | inl next =>
          rw [now] at later
          obtain ⟨s', passes, own⟩ := ih later
          exact ⟨s', .head now passes, own⟩
        | inr result =>
          rw [now] at later
          exact absurd later List.not_mem_nil
  · rintro ⟨s', passes, own⟩
    induction passes using Relation.ReflTransGen.head_induction_on with
    | refl => exact ⟨1, List.mem_append_left _ own⟩
    | @head s next leads _ ih =>
      obtain ⟨turns, member⟩ := ih
      refine ⟨turns + 1, List.mem_append_right _ ?_⟩
      rw [leads]
      exact member

end Loop

end Uos
