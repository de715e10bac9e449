import Mathlib.Data.List.Basic

/-!
# Values that are forgotten when they are not used

A table learns a value by some events, forgets it by others, and ages it in rounds: a value that was
not used in more than a number of rounds is forgotten, too.  A history of events has the most recent
one first.
-/

namespace Uos

open List

/-- How a value is learned, dropped, used and aged.  What an event does may depend on the events
before it. -/
structure Ageing (Event Value : Type*) where
  learns : Event → Option Value
  drops : List Event → Event → Prop
  uses : Value → Event → Prop
  round : List Event → Event → Bool
  limit : Nat

namespace Ageing

variable {Event Value : Type*} (rule : Ageing Event Value)

/-- The number of rounds in the events after a history. -/
def rounds (before : List Event) : List Event → Nat
  | [] => 0
  | event :: events =>
    rounds before events + if rule.round (events ++ before) event then 1 else 0

/-- The value that was learned last was neither dropped nor left without use in more than `limit`
rounds. -/
structure Fresh (history : List Event) (value : Value) (later : List Event) (event : Event)
    (before : List Event) : Prop where
  split : history = later ++ event :: before
  learned : rule.learns event = some value
  latest : ∀ e ∈ later, rule.learns e = none
  kept : ∀ recent e gap, later = recent ++ e :: gap → ¬rule.drops (gap ++ event :: before) e
  used : ∀ recent gap old, later = recent ++ gap ++ old → (∀ e ∈ gap, ¬rule.uses value e) →
    rule.rounds (old ++ event :: before) gap ≤ rule.limit

/-- A value that is known after a history, with the number of rounds since its last use. -/
inductive Keeps : List Event → Value → Nat → Prop
  | learn {event : Event} {before : List Event} {value : Value}
      (learned : rule.learns event = some value) : Keeps (event :: before) value 0
  | use {event : Event} {before : List Event} {value : Value} {unused : Nat}
      (keeps : Keeps before value unused) (other : rule.learns event = none)
      (kept : ¬rule.drops before event) (used : rule.uses value event) :
      Keeps (event :: before) value 0
  | round {event : Event} {before : List Event} {value : Value} {unused : Nat}
      (keeps : Keeps before value unused) (other : rule.learns event = none)
      (kept : ¬rule.drops before event) (idle : ¬rule.uses value event)
      (ages : rule.round before event = true) (young : unused < rule.limit) :
      Keeps (event :: before) value (unused + 1)
  | rest {event : Event} {before : List Event} {value : Value} {unused : Nat}
      (keeps : Keeps before value unused) (other : rule.learns event = none)
      (kept : ¬rule.drops before event) (idle : ¬rule.uses value event)
      (still : rule.round before event = false) : Keeps (event :: before) value unused

variable {rule} {history later before : List Event} {event : Event} {value : Value} {unused : Nat}

theorem Keeps.le_limit (keeps : rule.Keeps history value unused) : unused ≤ rule.limit := by
  induction keeps with
  | learn _ => exact Nat.zero_le _
  | use _ _ _ _ _ => exact Nat.zero_le _
  | round _ _ _ _ _ young _ => exact young
  | rest _ _ _ _ _ ih => exact ih

theorem keeps_learn {latest : Value} (learned : rule.learns event = some latest) :
    rule.Keeps (event :: before) value unused ↔ value = latest ∧ unused = 0 := by
  constructor
  · intro keeps
    cases keeps with
    | learn learned' => exact ⟨Option.some.inj (learned'.symm.trans learned), rfl⟩
    | use _ other _ _ => simp [learned] at other
    | round _ other _ _ _ _ => simp [learned] at other
    | rest _ other _ _ _ => simp [learned] at other
  · rintro ⟨rfl, rfl⟩
    exact .learn learned

theorem keeps_use (other : rule.learns event = none) (used : rule.uses value event) :
    rule.Keeps (event :: before) value unused ↔
      (unused = 0 ∧ ∃ age, rule.Keeps before value age) ∧ ¬rule.drops before event := by
  constructor
  · intro keeps
    cases keeps with
    | learn learned => simp [other] at learned
    | use keeps _ kept _ => exact ⟨⟨rfl, _, keeps⟩, kept⟩
    | round _ _ _ idle _ _ => exact absurd used idle
    | rest _ _ _ idle _ => exact absurd used idle
  · rintro ⟨⟨rfl, age, keeps⟩, kept⟩
    exact .use keeps other kept used

theorem keeps_round (other : rule.learns event = none) (idle : ¬rule.uses value event)
    (ages : rule.round before event = true) :
    rule.Keeps (event :: before) value unused ↔
      (∃ age, unused = age + 1 ∧ age < rule.limit ∧ rule.Keeps before value age) ∧
        ¬rule.drops before event := by
  constructor
  · intro keeps
    cases keeps with
    | learn learned => simp [other] at learned
    | use _ _ _ used => exact absurd used idle
    | round keeps _ kept _ _ young => exact ⟨⟨_, rfl, young, keeps⟩, kept⟩
    | rest _ _ _ _ still => simp [ages] at still
  · rintro ⟨⟨age, rfl, young, keeps⟩, kept⟩
    exact .round keeps other kept idle ages young

theorem keeps_rest (other : rule.learns event = none) (idle : ¬rule.uses value event)
    (still : rule.round before event = false) :
    rule.Keeps (event :: before) value unused ↔
      rule.Keeps before value unused ∧ ¬rule.drops before event := by
  constructor
  · intro keeps
    cases keeps with
    | learn learned => simp [other] at learned
    | use _ _ _ used => exact absurd used idle
    | round _ _ _ _ ages _ => simp [ages] at still
    | rest keeps _ kept _ _ => exact ⟨keeps, kept⟩
  · rintro ⟨keeps, kept⟩
    exact .rest keeps other kept idle still

theorem Fresh.tail {e : Event} (fresh : rule.Fresh history value (e :: later) event before) :
    rule.Fresh (later ++ event :: before) value later event before where
  split := rfl
  learned := fresh.learned
  latest e member := fresh.latest e (List.mem_cons_of_mem _ member)
  kept recent e' gap split := fresh.kept (e :: recent) e' gap (congrArg (e :: ·) split)
  used recent gap old split := fresh.used (e :: recent) gap old (congrArg (e :: ·) split)

/-- A value that is fresh is known, and its age is the number of the rounds since its last use. -/
theorem Fresh.keeps (fresh : rule.Fresh history value later event before) :
    ∃ unused, rule.Keeps history value unused ∧ ∃ gap old, later = gap ++ old ∧
      (∀ e ∈ gap, ¬rule.uses value e) ∧ rule.rounds (old ++ event :: before) gap = unused := by
  induction later generalizing history with
  | nil =>
    rw [fresh.split]
    exact ⟨0, .learn fresh.learned, [], [], rfl, by simp, rfl⟩
  | cons e later ih =>
    obtain ⟨unused, keeps, gap, old, split, idle, age⟩ := ih fresh.tail
    have other := fresh.latest e mem_cons_self
    have kept := fresh.kept [] e later rfl
    rw [fresh.split]
    rcases Classical.em (rule.uses value e) with use | still
    · exact ⟨0, .use keeps other kept use, [], e :: later, rfl, by simp, rfl⟩
    · have idle' : ∀ e' ∈ e :: gap, ¬rule.uses value e' := forall_mem_cons.mpr ⟨still, idle⟩
      have split' : e :: later = (e :: gap) ++ old := congrArg (e :: ·) split
      have older : gap ++ (old ++ event :: before) = later ++ event :: before := by
        rw [split, append_assoc]
      have bound := fresh.used [] (e :: gap) old split' idle'
      rw [rounds, older, age] at bound
      cases round : rule.round (later ++ event :: before) e with
      | true =>
        rw [round, if_pos rfl] at bound
        refine ⟨unused + 1, .round keeps other kept still round bound, e :: gap, old, split',
          idle', ?_⟩
        rw [rounds, older, age, round, if_pos rfl]
      | false =>
        refine ⟨unused, .rest keeps other kept still round, e :: gap, old, split', idle', ?_⟩
        rw [rounds, older, age, round]
        rfl

/-- One more event that does not forget a value. -/
theorem Fresh.push {e : Event} (fresh : rule.Fresh history value later event before)
    (other : rule.learns e = none) (kept : ¬rule.drops history e)
    (used : ∀ gap old, e :: later = gap ++ old → (∀ e ∈ gap, ¬rule.uses value e) →
      rule.rounds (old ++ event :: before) gap ≤ rule.limit) :
    rule.Fresh (e :: history) value (e :: later) event before where
  split := congrArg (e :: ·) fresh.split
  learned := fresh.learned
  latest := List.forall_mem_cons.mpr ⟨other, fresh.latest⟩
  kept recent e' gap split := by
    cases recent with
    | nil =>
      obtain ⟨rfl, rfl⟩ := List.cons.inj split
      rw [← fresh.split]
      exact kept
    | cons e'' recent => exact fresh.kept recent e' gap (List.cons.inj split).2
  used recent gap old split := by
    cases recent with
    | nil => exact used gap old split
    | cons e' recent => exact fresh.used recent gap old (List.cons.inj split).2

/-- The rounds of a gap without a use that ends with one more event. -/
theorem rounds_push {e : Event} {bound : Nat} (split : history = later ++ event :: before)
    (ages : ∀ gap old, later = gap ++ old → (∀ e ∈ gap, ¬rule.uses value e) →
      rule.rounds (old ++ event :: before) gap + (if rule.round history e then 1 else 0) ≤ bound) :
    ∀ gap old, e :: later = gap ++ old → (∀ e ∈ gap, ¬rule.uses value e) →
      rule.rounds (old ++ event :: before) gap ≤ bound := by
  intro gap old equal idle
  cases gap with
  | nil => exact Nat.zero_le _
  | cons e' gap =>
    obtain ⟨rfl, rest⟩ := List.cons.inj equal
    have older : gap ++ (old ++ event :: before) = history := by
      rw [split, ← append_assoc]
      exact congrArg (· ++ event :: before) rest.symm
    rw [rounds, older]
    exact ages gap old rest fun e member => idle e (mem_cons_of_mem _ member)

theorem Keeps.fresh (keeps : rule.Keeps history value unused) :
    ∃ later event before, rule.Fresh history value later event before ∧
      ∀ gap old, later = gap ++ old → (∀ e ∈ gap, ¬rule.uses value e) →
        rule.rounds (old ++ event :: before) gap ≤ unused := by
  induction keeps with
  | @learn event before value learned =>
    have empty {gap old : List Event} (equal : [] = gap ++ old) : gap = [] :=
      (append_eq_nil_iff.mp equal.symm).1
    refine ⟨[], event, before, ⟨rfl, learned, by simp, ?_, ?_⟩, ?_⟩
    · intro recent e gap equal
      simp at equal
    · intro recent gap old equal _
      have nothing := (append_eq_nil_iff.mp equal.symm).1
      rw [(append_eq_nil_iff.mp nothing).2]
      exact Nat.zero_le _
    · intro gap old equal _
      rw [empty equal]
      exact Nat.le_refl 0
  | @use e history value unused keeps other kept used ih =>
    obtain ⟨later, event, before, fresh, ages⟩ := ih
    have again : ∀ gap old, e :: later = gap ++ old → (∀ e ∈ gap, ¬rule.uses value e) →
        rule.rounds (old ++ event :: before) gap ≤ 0 := by
      intro gap old equal idle
      cases gap with
      | nil => exact Nat.le_refl 0
      | cons e' gap =>
        obtain ⟨rfl, -⟩ := List.cons.inj equal
        exact absurd used (idle e mem_cons_self)
    exact ⟨e :: later, event, before, fresh.push other kept fun gap old equal idle =>
      Nat.le_trans (again gap old equal idle) (Nat.zero_le _), again⟩
  | @round e history value unused keeps other kept idle round young ih =>
    obtain ⟨later, event, before, fresh, ages⟩ := ih
    have older := @rounds_push _ _ rule history later before event value e
      (unused + 1) fresh.split
      fun gap old equal idle => by
        rw [round, if_pos rfl]
        exact Nat.succ_le_succ (ages gap old equal idle)
    exact ⟨e :: later, event, before, fresh.push other kept fun gap old equal idle =>
      Nat.le_trans (older gap old equal idle) young, older⟩
  | @rest e history value unused keeps other kept idle still ih =>
    obtain ⟨later, event, before, fresh, ages⟩ := ih
    have same := @rounds_push _ _ rule history later before event value e unused fresh.split
      fun gap old equal idle => by
        rw [still]
        exact ages gap old equal idle
    exact ⟨e :: later, event, before, fresh.push other kept fun gap old equal idle =>
      Nat.le_trans (same gap old equal idle) keeps.le_limit, same⟩

/-- What is known after a history is what was learned last and is fresh. -/
theorem keeps_iff_fresh : (∃ unused, rule.Keeps history value unused) ↔
    ∃ later event before, rule.Fresh history value later event before := by
  constructor
  · rintro ⟨unused, keeps⟩
    obtain ⟨later, event, before, fresh, -⟩ := keeps.fresh
    exact ⟨later, event, before, fresh⟩
  · rintro ⟨later, event, before, fresh⟩
    obtain ⟨unused, keeps, -⟩ := fresh.keeps
    exact ⟨unused, keeps⟩

end Ageing
end Uos
