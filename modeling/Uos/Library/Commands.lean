import Mathlib.Data.List.Basic

/-!
# Commands with exits

A command changes a state, and then goes on with a result or leaves with an exit.  The rules below
carry properties of the state through commands, and find the turn of a loop that leaves.
-/

namespace Uos

open List

/-- A command. -/
def Command (State Exit Result : Type) :=
  State → Except Exit Result × State

namespace Command

variable {State Exit First Second Item : Type}

/-- Go on without a change. -/
def done (result : First) : Command State Exit First :=
  fun s => (.ok result, s)

/-- Leave without a change. -/
def leave (exit : Exit) : Command State Exit First :=
  fun s => (.error exit, s)

/-- Change the state. -/
def act (function : State → First × State) : Command State Exit First :=
  fun s => (.ok (function s).1, (function s).2)

/-- The state. -/
def state : Command State Exit State :=
  fun s => (.ok s, s)

/-- Another state. -/
def change (function : State → State) : Command State Exit Unit :=
  fun s => (.ok (), function s)

/-- A command for a part of a state. -/
def within {Whole : Type} (part : Whole → State) (put : State → Whole → Whole)
    (command : Command State Exit First) : Command Whole Exit First :=
  fun s => ((command (part s)).1, put (command (part s)).2 s)

/-- One command behind another. -/
def andThen (first : Command State Exit First) (next : First → Command State Exit Second) :
    Command State Exit Second :=
  fun s =>
    match first s with
    | (.ok value, s) => next value s
    | (.error exit, s) => (.error exit, s)

instance : Monad (Command State Exit) where
  pure := done
  bind := andThen

theorem andThen_done (command : Command State Exit First) : andThen command done = command := by
  funext s
  rw [andThen]
  rcases command s with ⟨exit | value, s'⟩ <;> rfl

theorem andThen_andThen {Third : Type} (command : Command State Exit First)
    (next : First → Command State Exit Second) (last : Second → Command State Exit Third) :
    andThen (andThen command next) last = andThen command fun value =>
      andThen (next value) last := by
  funext s
  simp only [andThen]
  rcases command s with ⟨exit | value, s'⟩ <;> rfl

instance : LawfulMonad (Command State Exit) :=
  .mk' (Command State Exit) andThen_done (fun _ _ => rfl) andThen_andThen

variable {s s' : State} {body : Item → Command State Exit Unit} {items : List Item} {item : Item}

theorem bind_ok {command : Command State Exit First} {next : First → Command State Exit Second}
    {value : First} (result : command s = (.ok value, s')) :
    (command >>= next) s = next value s' := by
  change andThen command next s = _
  rw [andThen, result]

theorem bind_error {command : Command State Exit First} {next : First → Command State Exit Second}
    {exit : Exit} (result : command s = (.error exit, s')) :
    (command >>= next) s = (.error exit, s') := by
  change andThen command next s = _
  rw [andThen, result]

theorem state_bind (next : State → Command State Exit First) (s : State) :
    (state >>= next) s = next s s :=
  rfl

theorem change_bind (function : State → State) (next : Unit → Command State Exit First)
    (s : State) : (change function >>= next) s = next () (function s) :=
  rfl

/-- A command for each item of a list. -/
def each (items : List Item) (body : Item → Command State Exit Unit) : Command State Exit Unit :=
  match items with
  | [] => pure ()
  | item :: items => do
    body item
    each items body

theorem each_map {Other : Type} (items : List Other) (function : Other → Item)
    (body : Item → Command State Exit Unit) :
    (each items fun item => body (function item)) = each (items.map function) body := by
  induction items with
  | nil => rfl
  | cons item items ih => exact congrArg (fun rest => body (function item) >>= fun _ => rest) ih

/-- From a state with a property a command goes on in states with another property, and leaves with
exits and states that have a third one. -/
def Meets (before : State → Prop) (command : Command State Exit First)
    (after : First → State → Prop) (left : Exit → State → Prop) : Prop :=
  ∀ s, before s →
    match command s with
    | (.ok value, s') => after value s'
    | (.error exit, s') => left exit s'

section Rules

variable {before : State → Prop} {after : First → State → Prop} {left : Exit → State → Prop}
  {last : Second → State → Prop}

theorem meets_pure {value : First} (holds : ∀ s, before s → after value s) :
    Meets before (pure value) after left :=
  holds

theorem meets_leave {exit : Exit} (holds : ∀ s, before s → left exit s) :
    Meets before (leave exit) after left :=
  holds

theorem meets_act {function : State → First × State}
    (holds : ∀ s, before s → after (function s).1 (function s).2) :
    Meets before (act function) after left :=
  holds

theorem meets_bind {command : Command State Exit First} {next : First → Command State Exit Second}
    (first : Meets before command after left)
    (second : ∀ value, Meets (after value) (next value) last left) :
    Meets before (command >>= next) last left := by
  intro s holds
  have start := first s holds
  change match andThen command next s with
    | (.ok value, s') => last value s'
    | (.error exit, s') => left exit s'
  rw [andThen]
  split at start
  · rename_i value s' result
    exact second value s' start
  · exact start

/-- One command behind another, with what holds between them. -/
theorem meets_seq (middle : State → Prop) {command : Command State Exit Unit}
    {next : Unit → Command State Exit Second}
    (first : Meets before command (fun _ => middle) left)
    (second : Meets middle (next ()) last left) : Meets before (command >>= next) last left :=
  meets_bind first fun _ => second

theorem meets_state {next : State → Command State Exit Second}
    (second : ∀ value, Meets (fun s => before s ∧ s = value) (next value) last left) :
    Meets before (state >>= next) last left :=
  fun s holds => second s s ⟨holds, rfl⟩

theorem meets_change {function : State → State} {after : State → Prop}
    (holds : ∀ s, before s → after (function s)) :
    Meets before (change function) (fun _ => after) left :=
  holds

theorem meets_ite {condition : Prop} [Decidable condition] {yes no : Command State Exit First}
    (holds : condition → Meets before yes after left)
    (holds' : ¬ condition → Meets before no after left) :
    Meets before (if condition then yes else no) after left := by
  split_ifs with value
  · exact holds value
  · exact holds' value

theorem meets_weaken {command : Command State Exit First} {before' : State → Prop}
    {after' : First → State → Prop} {left' : Exit → State → Prop}
    (meets : Meets before command after left) (stronger : ∀ s, before' s → before s)
    (weaker : ∀ value s, after value s → after' value s)
    (weaker' : ∀ exit s, left exit s → left' exit s) : Meets before' command after' left' := by
  intro s holds
  have result := meets s (stronger s holds)
  split at result
  · exact weaker _ _ result
  · exact weaker' _ _ result

/-- A property that every turn of a loop keeps holds after the loop. -/
theorem meets_each {invariant : State → Prop} {items : List Item}
    {body : Item → Command State Exit Unit}
    (turn : ∀ item ∈ items, Meets invariant (body item) (fun _ => invariant) left) :
    Meets invariant (each items body) (fun _ => invariant) left := by
  induction items with
  | nil => exact meets_pure fun _ holds => holds
  | cons item items ih =>
    apply meets_bind (turn item mem_cons_self)
    exact fun _ => ih fun other member => turn other (mem_cons_of_mem item member)

end Rules

/-- The states in which the turns of a loop begin, each with its item. -/
inductive Comes (body : Item → Command State Exit Unit) : List Item → State → Item → State → Prop
  | here (item : Item) (items : List Item) (s : State) : Comes body (item :: items) s item s
  | later {item item' : Item} {items : List Item} {s s' s'' : State}
      (turn : body item s = (.ok (), s')) (rest : Comes body items s' item' s'') :
      Comes body (item :: items) s item' s''

theorem comes_cons_iff {item' : Item} {s'' : State} :
    Comes body (item :: items) s item' s'' ↔
      (item' = item ∧ s'' = s) ∨
        ∃ s', body item s = (.ok (), s') ∧ Comes body items s' item' s'' := by
  constructor
  · intro comes
    cases comes with
    | here => exact .inl ⟨rfl, rfl⟩
    | later turn rest => exact .inr ⟨_, turn, rest⟩
  · rintro (⟨rfl, rfl⟩ | ⟨s', turn, rest⟩)
    · exact .here ..
    · exact .later turn rest

/-- The turns in front of one that begins have gone on. -/
theorem Comes.split (comes : Comes body items s item s') :
    ∃ before after, items = before ++ item :: after ∧ each before body s = (.ok (), s') := by
  induction comes with
  | here item items s => exact ⟨[], items, rfl, rfl⟩
  | @later first item items s s' s'' turn rest ih =>
    obtain ⟨before, after, split, runs⟩ := ih
    exact ⟨first :: before, after, congrArg (first :: ·) split, (bind_ok turn).trans runs⟩

theorem each_append {first rest : List Item} (runs : each first body s = (.ok (), s')) :
    each (first ++ rest) body s = each rest body s' := by
  induction first generalizing s with
  | nil =>
    obtain rfl := (Prod.mk.inj runs).2
    rfl
  | cons item items ih =>
    have step : each (item :: items) body s =
        andThen (body item) (fun _ => each items body) s := rfl
    rw [step, andThen] at runs
    split at runs
    · rename_i value s'' turn
      exact (bind_ok turn).trans (ih runs)
    · cases runs

/-- A loop leaves with an exit if and only if one of its turns does. -/
theorem each_leaves_iff {exit : Exit} :
    (each items body s).1 = .error exit ↔
      ∃ item s', Comes body items s item s' ∧ (body item s').1 = .error exit := by
  induction items generalizing s with
  | nil =>
    constructor
    · intro impossible
      cases impossible
    · rintro ⟨item, s', comes, -⟩
      cases comes
  | cons item items ih =>
    have step : each (item :: items) body s =
        andThen (body item) (fun _ => each items body) s := rfl
    rw [step, andThen]
    generalize result : body item s = outcome
    obtain ⟨outcome, s'⟩ := outcome
    cases outcome with
    | error other =>
      constructor
      · intro same
        exact ⟨item, s, .here .., by rw [result]; exact same⟩
      · rintro ⟨item', s'', comes, leaves⟩
        cases comes with
        | here => rwa [result] at leaves
        | later turn => rw [result] at turn; cases turn
    | ok value =>
      rw [ih]
      constructor
      · rintro ⟨item', s'', comes, leaves⟩
        exact ⟨item', s'', .later result comes, leaves⟩
      · rintro ⟨item', s'', comes, leaves⟩
        cases comes with
        | here => rw [result] at leaves; cases leaves
        | later turn rest =>
          rw [result] at turn
          cases turn
          exact ⟨item', s'', rest, leaves⟩

/-- In a loop that ends every turn has begun, and has gone on. -/
theorem each_ends (ends : each items body s = (.ok (), s')) (member : item ∈ items) :
    ∃ s₁ s₂, Comes body items s item s₁ ∧ body item s₁ = (.ok (), s₂) := by
  induction items generalizing s with
  | nil => cases member
  | cons first items ih =>
    have step : each (first :: items) body s =
        andThen (body first) (fun _ => each items body) s := rfl
    rw [step, andThen] at ends
    split at ends
    · rename_i s₂ turn
      rcases mem_cons.mp member with rfl | member
      · exact ⟨s, s₂, .here .., turn⟩
      · obtain ⟨s₁, s₃, comes, goes⟩ := ih ends member
        exact ⟨s₁, s₃, .later turn comes, goes⟩
    · cases ends

/-- What every turn of a loop keeps holds whenever a turn begins. -/
theorem comes_invariant {invariant : State → Prop} {left : Exit → State → Prop}
    (turn : ∀ item ∈ items, Meets invariant (body item) (fun _ => invariant) left)
    (start : invariant s) (comes : Comes body items s item s') : item ∈ items ∧ invariant s' := by
  induction comes with
  | here item items s => exact ⟨mem_cons_self, start⟩
  | @later first item items s s' s'' done rest ih =>
    have kept := turn first mem_cons_self s start
    rw [done] at kept
    have found := ih (fun other member => turn other (mem_cons_of_mem _ member)) kept
    exact ⟨mem_cons_of_mem _ found.1, found.2⟩

/-- A loop collects what its turns collect, which is nothing if and only if none of them collects
anything; a turn with a certain exit may collect what it likes. -/
theorem exists_each {Lost : Type} {keeps : Item → State → Prop}
    {collected : List Lost → State → Prop} {wrong : Exit}
    (turn : ∀ item lost s, collected lost s → ∃ lost', collected (lost ++ lost') (body item s).2 ∧
      ((body item s).1 ≠ .error wrong → (lost' = [] ↔ keeps item s))) (items : List Item)
    {lost : List Lost} (start : collected lost s) :
    ∃ lost', collected (lost ++ lost') (each items body s).2 ∧
      ((each items body s).1 ≠ .error wrong →
        (lost' = [] ↔ ∀ item s', Comes body items s item s' → keeps item s')) := by
  induction items generalizing lost s with
  | nil =>
    refine ⟨[], by rwa [append_nil], fun _ => iff_of_true rfl ?_⟩
    intro item s' comes
    cases comes
  | cons item items ih =>
    have step : each (item :: items) body s =
        andThen (body item) (fun _ => each items body) s := rfl
    obtain ⟨lost', collects, keeps_iff⟩ := turn item lost s start
    rw [step, andThen]
    simp only [comes_cons_iff]
    generalize body item s = outcome at collects keeps_iff ⊢
    obtain ⟨exit | value, s'⟩ := outcome
    · refine ⟨lost', collects, fun other => (keeps_iff other).trans ?_⟩
      constructor
      · rintro kept item' s'' (⟨rfl, rfl⟩ | ⟨_, impossible, -⟩)
        · exact kept
        · cases impossible
      · exact fun kept => kept item s (.inl ⟨rfl, rfl⟩)
    · obtain ⟨rest, collects', rest_iff⟩ := ih collects
      refine ⟨lost' ++ rest, by rwa [← append_assoc], fun other => ?_⟩
      rw [append_eq_nil_iff, keeps_iff (by simp), rest_iff other]
      constructor
      · rintro ⟨kept, later⟩ item' s'' (⟨rfl, rfl⟩ | ⟨s₁, same, comes⟩)
        · exact kept
        · cases same
          exact later item' s'' comes
      · intro kept
        exact ⟨kept item s (.inl ⟨rfl, rfl⟩),
          fun item' s'' comes => kept item' s'' (.inr ⟨s', rfl, comes⟩)⟩

end Command
end Uos
