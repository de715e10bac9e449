import Mathlib.Data.List.Basic

/-!
# Computations that leave a trace

A computation gives a list of events and a result, unless it fails; what happened before a failure
stays in its trace.
-/

namespace Uos

/-- A computation with its events. -/
structure Traced (Event Result : Type*) where
  events : List Event
  result : Option Result

namespace Traced

variable {Event : Type*} {First Second : Type _}

/-- One event. -/
def emit (event : Event) : Traced Event Unit where
  events := [event]
  result := some ()

/-- A computation without events. -/
def ofOption (result : Option First) : Traced Event First where
  events := []
  result

/-- Go on with the result of a computation. -/
def andThen (first : Traced Event First) (next : First → Traced Event Second) :
    Traced Event Second :=
  match first.result with
  | none => { events := first.events, result := none }
  | some value =>
    { events := first.events ++ (next value).events
      result := (next value).result }

instance : Monad (Traced Event) where
  pure value := ofOption (some value)
  bind := andThen

variable (first : Traced Event First) (next : First → Traced Event Second)

theorem andThen_assoc {Third : Type _} (last : Second → Traced Event Third) :
    first >>= next >>= last = first >>= fun value => next value >>= last := by
  simp only [bind, andThen]
  cases first.result with
  | none => rfl
  | some value => cases continued : (next value).result <;> simp [continued]

theorem pure_andThen (value : First) (next : First → Traced Event Second) :
    (pure value : Traced Event First) >>= next = next value :=
  rfl

/-- A computation with a known result goes on with it. -/
theorem bind_done (events : List Event) (value : First) (next : First → Traced Event Second) :
    ({ events, result := some value } : Traced Event First) >>= next =
      { events := events ++ (next value).events, result := (next value).result } :=
  rfl

@[simp] theorem events_emit (event : Event) : (emit event).events = [event] :=
  rfl

@[simp] theorem result_emit (event : Event) : (emit event).result = some () :=
  rfl

@[simp] theorem events_ofOption (result : Option First) :
    (ofOption result : Traced Event First).events = [] :=
  rfl

@[simp] theorem result_ofOption (result : Option First) :
    (ofOption result : Traced Event First).result = result :=
  rfl

@[simp] theorem events_pure (value : First) : (pure value : Traced Event First).events = [] :=
  rfl

@[simp] theorem result_pure (value : First) :
    (pure value : Traced Event First).result = some value :=
  rfl

@[simp] theorem events_emit_bind (event : Event) (next : Unit → Traced Event Second) :
    (emit event >>= next).events = event :: (next ()).events :=
  rfl

@[simp] theorem result_emit_bind (event : Event) (next : Unit → Traced Event Second) :
    (emit event >>= next).result = (next ()).result :=
  rfl

theorem result_ofOption_bind (result : Option First) (next : First → Traced Event Second) :
    (ofOption result >>= next).result = result.bind fun value => (next value).result := by
  cases result <;> rfl

theorem events_bind :
    (first >>= next).events =
      first.events ++ (first.result.elim [] fun value => (next value).events) := by
  change (andThen first next).events = _
  rw [andThen]
  cases first.result <;> simp

theorem result_bind :
    (first >>= next).result = first.result.bind fun value => (next value).result := by
  change (andThen first next).result = _
  rw [andThen]
  cases first.result <;> rfl

/-- Every event of a computation has a property. -/
def All (property : Event → Prop) (computation : Traced Event First) : Prop :=
  ∀ event ∈ computation.events, property event

section All

variable {property : Event → Prop}

@[simp] theorem all_pure (value : First) : All property (pure value : Traced Event First) := by
  simp [All]

@[simp] theorem all_emit (event : Event) : All property (emit event) ↔ property event := by
  simp [All]

@[simp] theorem all_ofOption (result : Option First) :
    All property (ofOption result : Traced Event First) := by
  simp [All]

theorem all_bind (first : Traced Event First) (next : First → Traced Event Second) :
    All property (first >>= next) ↔
      All property first ∧ ∀ value, first.result = some value → All property (next value) := by
  simp only [All, events_bind, List.mem_append]
  cases first.result with
  | none => simp
  | some value => simp [or_imp, forall_and]

@[simp] theorem all_emit_bind (event : Event) (next : Unit → Traced Event Second) :
    All property (emit event >>= next) ↔ property event ∧ All property (next ()) := by
  simp [All]

@[simp] theorem all_ofOption_bind (result : Option First) (next : First → Traced Event Second) :
    All property (ofOption result >>= next) ↔
      ∀ value, result = some value → All property (next value) := by
  simp [all_bind]

end All

end Traced
end Uos
