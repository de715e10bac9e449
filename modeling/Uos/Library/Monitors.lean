import Mathlib.Logic.Function.Basic
import Mathlib.Tactic.Cases
import Uos.Library.Execution

/-!
# Monitors

Tasks call the operations of an object that a lock protects.  An operation returns, or it waits for
the next signal and then tries again from its beginning.
-/

namespace Uos

/-- An object, the calls that wait, each with whether it has been signalled, and the calls that have
returned, in order. -/
structure Monitor (State Call Answer Task : Type*) where
  state : State
  waiting : Task → Option (Call × Bool) := fun _ => none
  history : List (Call × Answer) := []

namespace Monitor

variable {State Call Answer Task : Type*}

/-- What an operation does while it has the lock. -/
inductive Turn (State Answer : Type*)
  | waits
  | returns (answer : Answer) (signals : Bool) (state : State)

/-- A turn seen through a map of states. -/
def Turn.map {State' : Type*} (f : State → State') : Turn State Answer → Turn State' Answer
  | .waits => .waits
  | .returns answer signals state => .returns answer signals (f state)

/-- All calls that wait are signalled. -/
def signal (waiting : Task → Option (Call × Bool)) : Task → Option (Call × Bool) :=
  fun task => (waiting task).map fun call => (call.1, true)

theorem signal_ne_unsignalled (waiting : Task → Option (Call × Bool)) (task : Task) (call : Call) :
    signal waiting task ≠ some (call, false) := by
  rw [signal]
  cases waiting task with
  | none => exact nofun
  | some other =>
    intro same
    have flag := congrArg Prod.snd (Option.some.inj same)
    cases flag

section Steps

variable [DecidableEq Task] (turn : Call → State → Turn State Answer)

/-- A task has the lock. -/
def execute (m : Monitor State Call Answer Task) (task : Task) (call : Call) :
    Monitor State Call Answer Task :=
  match turn call m.state with
  | .waits => { m with waiting := Function.update m.waiting task (some (call, false)) }
  | .returns answer signals state =>
    { state
      waiting :=
        Function.update (if signals = true then signal m.waiting else m.waiting) task none
      history := m.history ++ [(call, answer)] }

/-- A task calls an operation, or goes on with one after a signal. -/
inductive Step : Monitor State Call Answer Task → Monitor State Call Answer Task → Prop
  | begins {m : Monitor State Call Answer Task} (task : Task) (call : Call)
      (idle : m.waiting task = none) : Step m (m.execute turn task call)
  | resumes {m : Monitor State Call Answer Task} (task : Task) (call : Call)
      (signalled : m.waiting task = some (call, true)) : Step m (m.execute turn task call)

/-- Any number of steps of any tasks. -/
abbrev Run : Monitor State Call Answer Task → Monitor State Call Answer Task → Prop :=
  Relation.ReflTransGen (Step turn)

/-- Every call that waits without a signal would still have to wait. -/
def Patient (m : Monitor State Call Answer Task) : Prop :=
  ∀ task call, m.waiting task = some (call, false) → turn call m.state = .waits

end Steps

variable {turn : Call → State → Turn State Answer} {m m' : Monitor State Call Answer Task}
  {task : Task} {call : Call}

theorem Patient.idle (idle : ∀ task, m.waiting task = none) : Patient turn m := by
  intro task call waits
  rw [idle task] at waits
  cases waits

variable [DecidableEq Task]

theorem execute_waits (waits : turn call m.state = .waits) :
    m.execute turn task call =
      { m with waiting := Function.update m.waiting task (some (call, false)) } := by
  rw [execute, waits]

theorem execute_returns {answer : Answer} {signals : Bool} {state : State}
    (returns : turn call m.state = .returns answer signals state) :
    m.execute turn task call =
      { state
        waiting :=
          Function.update (if signals = true then signal m.waiting else m.waiting) task none
        history := m.history ++ [(call, answer)] } := by
  rw [execute, returns]

theorem Step.execute (step : Step turn m m') :
    ∃ task call, m' = m.execute turn task call := by
  cases step with
  | begins task call _ => exact ⟨task, call, rfl⟩
  | resumes task call _ => exact ⟨task, call, rfl⟩

/-- What every call that returns preserves, about the object and the calls that have returned,
holds at the end of a run. -/
theorem Run.accounts (property : State → List (Call × Answer) → Prop)
    (preserved : ∀ {state history call answer signals state'}, property state history →
      turn call state = .returns answer signals state' →
        property state' (history ++ [(call, answer)]))
    (start : property m.state m.history) (run : Run turn m m') :
    property m'.state m'.history := by
  apply run_invariant (fun m => property m.state m.history) _ start run
  intro m m' before step
  obtain ⟨task, call, rfl⟩ := step.execute
  cases now : turn call m.state with
  | waits =>
    rw [execute_waits now]
    exact before
  | returns answer signals state =>
    rw [execute_returns now]
    exact preserved before now

/-- Where an operation that can end another one's wait signals, no task waits in vain. -/
theorem Run.patient
    (quiet : ∀ {call state answer state' other}, turn call state = .returns answer false state' →
      turn other state = .waits → turn other state' = .waits)
    (start : Patient turn m) (run : Run turn m m') : Patient turn m' := by
  apply run_invariant (Patient turn) _ start run
  intro m m' before step
  obtain ⟨task, call, rfl⟩ := step.execute
  intro other waited waits
  cases now : turn call m.state with
  | waits =>
    rw [execute_waits now] at waits ⊢
    dsimp only at waits ⊢
    rcases eq_or_ne other task with rfl | ne
    · rw [Function.update_self] at waits
      cases waits
      exact now
    · rw [Function.update_of_ne ne] at waits
      exact before other waited waits
  | returns answer signals state =>
    rw [execute_returns now] at waits ⊢
    dsimp only at waits ⊢
    rcases eq_or_ne other task with rfl | ne
    · rw [Function.update_self] at waits
      cases waits
    · rw [Function.update_of_ne ne] at waits
      cases signals with
      | true => exact absurd waits (signal_ne_unsignalled _ other waited)
      | false => exact quiet now (before other waited waits)

/-- A run with an invariant and a map of states that commutes with every turn. -/
theorem Run.map {State' : Type*} {turn' : Call → State' → Turn State' Answer} (f : State → State')
    (invariant : State → Prop)
    (preserved : ∀ {call state answer signals state'}, invariant state →
      turn call state = .returns answer signals state' → invariant state')
    (commutes : ∀ {state} call, invariant state → turn' call (f state) = (turn call state).map f)
    (start : invariant m.state) (run : Run turn m m') :
    invariant m'.state ∧
      Run turn' { m with state := f m.state } { m' with state := f m'.state } := by
  induction run with
  | refl => exact ⟨start, .refl⟩
  | @tail middle last _ step ih =>
    obtain ⟨valid, earlier⟩ := ih
    have moved : ∀ task call,
        ({ middle with state := f middle.state } : Monitor State' Call Answer Task).execute
            turn' task call =
          { middle.execute turn task call with
            state := f (middle.execute turn task call).state } := by
      intro task call
      have same := commutes call valid
      cases now : turn call middle.state with
      | waits =>
        rw [now] at same
        rw [execute_waits now]
        exact execute_waits same
      | returns answer signals state =>
        rw [now] at same
        rw [execute_returns now]
        exact execute_returns same
    have kept : ∀ task call, invariant (middle.execute turn task call).state := by
      intro task call
      cases now : turn call middle.state with
      | waits =>
        rw [execute_waits now]
        exact valid
      | returns answer signals state =>
        rw [execute_returns now]
        exact preserved valid now
    cases step with
    | begins task call idle =>
      refine ⟨kept task call, earlier.tail ?_⟩
      rw [← moved task call]
      exact .begins task call idle
    | resumes task call signalled =>
      refine ⟨kept task call, earlier.tail ?_⟩
      rw [← moved task call]
      exact .resumes task call signalled

end Monitor
end Uos
