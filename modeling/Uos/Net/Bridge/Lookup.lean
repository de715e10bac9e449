import Uos.Library.Chains
import Uos.Net.Bridge.Table

/-!
# Lookups in the table

What the loops of `find_entry` come to, in terms of the chain of an address.
-/

namespace Uos

open List

namespace Bridge

/-- The `next` pointers of the table. -/
def links (b : Bridge) : Nat → Option Nat :=
  fun e => (b.entry e).next

/-- An entry that is not outdated. -/
def Live (b : Bridge) (e : Nat) : Prop :=
  (b.entry e).timeToLive ≠ 0

/-- An entry that keeps another address. -/
def Misses (b : Bridge) (addr : MacWords) (e : Nat) : Prop :=
  b.Live e ∧ (b.entry e).addr ≠ addr

variable {b : Bridge} {addr : MacWords} {e turns : Nat} {value : BridgeEntry}
  {prev first pointer : Option Nat} {nodes : List Nat}

@[simp] theorem links_setEntry :
    (b.setEntry e value).links = Function.update b.links e value.next := by
  funext other
  rcases eq_or_ne other e with rfl | differ
  · simp [links, setEntry]
  · simp [links, setEntry, differ]

@[simp] theorem links_setNext :
    (b.setNext e pointer).links = Function.update b.links e pointer :=
  links_setEntry

@[simp] theorem links_setTimeToLive {timeToLive : Nat} :
    (b.setTimeToLive e timeToLive).links = b.links := by
  rw [setTimeToLive, links_setEntry]
  exact Function.update_eq_self e b.links

@[simp] theorem links_sight {mac : MacAddr} : (b.sight mac e).links = b.links :=
  rfl

@[simp] theorem links_move {next : Nat} : (b.move next e).links = b.links :=
  rfl

@[simp] theorem size_setEntry : (b.setEntry e value).size = b.size :=
  rfl

@[simp] theorem size_setNext : (b.setNext e pointer).size = b.size :=
  rfl

@[simp] theorem size_setTimeToLive {timeToLive : Nat} :
    (b.setTimeToLive e timeToLive).size = b.size :=
  rfl

@[simp] theorem size_sight {mac : MacAddr} : (b.sight mac e).size = b.size :=
  rfl

@[simp] theorem size_move {next : Nat} : (b.move next e).size = b.size :=
  rfl

theorem entry_setEntry {x : Nat} :
    (b.setEntry e value).entry x = if x = e then value else b.entry x := by
  rw [setEntry]
  exact Function.update_apply ..

@[simp] theorem addr_setTimeToLive {timeToLive x : Nat} :
    ((b.setTimeToLive e timeToLive).entry x).addr = (b.entry x).addr := by
  rw [setTimeToLive, entry_setEntry]
  split <;> simp_all

@[simp] theorem timeToLive_setTimeToLive {timeToLive x : Nat} :
    ((b.setTimeToLive e timeToLive).entry x).timeToLive =
      if x = e then timeToLive else (b.entry x).timeToLive := by
  rw [setTimeToLive, entry_setEntry]
  split <;> rfl

@[simp] theorem addr_setNext {x : Nat} :
    ((b.setNext e pointer).entry x).addr = (b.entry x).addr := by
  rw [setNext, entry_setEntry]
  split <;> simp_all

@[simp] theorem timeToLive_setNext {x : Nat} :
    ((b.setNext e pointer).entry x).timeToLive = (b.entry x).timeToLive := by
  rw [setNext, entry_setEntry]
  split <;> simp_all

theorem home_lt (sized : 0 < b.size) : b.home addr < b.size := by
  have masked : b.home addr ≤ b.size - 1 := Nat.and_le_right
  omega

/-- What a walk along a chain comes to, and the entries that it reads. -/
inductive Stops (b : Bridge) (addr : MacWords) (prev : Option Nat) :
    List Nat → List Nat → Walked → Prop
  | found {front back : List Nat} {e : Nat} (missed : ∀ q ∈ front, b.Misses addr q)
      (live : b.Live e) (same : (b.entry e).addr = addr) :
      Stops b addr prev (front ++ e :: back) (front ++ [e]) (.found e)
  | outdated {front back : List Nat} {e : Nat} (missed : ∀ q ∈ front, b.Misses addr q)
      (outdated : ¬b.Live e) :
      Stops b addr prev (front ++ e :: back) (front ++ [e]) (.outdated (front.getLast?.or prev) e)
  | ended {front : List Nat} (missed : ∀ q ∈ front, b.Misses addr q) :
      Stops b addr prev front front (.ended (front.getLast?.or prev))

theorem getLast?_cons_or {front : List Nat} :
    (e :: front).getLast?.or prev = front.getLast?.or (some e) := by
  cases front with
  | nil => rfl
  | cons second front => simp [List.getLast?_cons]

variable {events : List Nat} {last : Nat}

theorem Stops.pass {walked : Walked} (missed : b.Misses addr e)
    (stops : Stops b addr (some e) nodes events walked) :
    Stops b addr prev (e :: nodes) (e :: events) walked := by
  cases stops with
  | found others live same =>
    exact .found (forall_mem_cons.mpr ⟨missed, others⟩) live same
  | outdated others outdated =>
    rw [← getLast?_cons_or]
    exact .outdated (forall_mem_cons.mpr ⟨missed, others⟩) outdated
  | ended others =>
    rw [← getLast?_cons_or]
    exact .ended (forall_mem_cons.mpr ⟨missed, others⟩)

theorem Stops.of_misses {walked : Walked} (stops : Stops b addr prev nodes events walked)
    (missed : ∀ q ∈ nodes, b.Misses addr q) :
    walked = .ended (nodes.getLast?.or prev) := by
  cases stops with
  | found others live same => exact absurd same (missed _ (by simp)).2
  | outdated others outdated => exact absurd (missed _ (by simp)).1 outdated
  | ended others => rfl

theorem walk_cases (prev : Option Nat) (turns : Nat) (chain : Chain b.links first nodes none) :
    (∃ events walked, Stops b addr prev nodes events walked ∧
      b.walk addr turns prev first = { events, result := some walked }) ∨
    turns < nodes.length ∧ (b.walk addr turns prev first).result = none := by
  induction nodes generalizing first prev turns with
  | nil =>
    obtain rfl := Chain.nil_iff.mp chain
    refine .inl ⟨[], .ended prev, .ended (forall_mem_nil _), ?_⟩
    cases turns <;> rfl
  | cons e nodes ih =>
    obtain ⟨rfl, rest⟩ := Chain.cons_iff.mp chain
    cases turns with
    | zero => exact .inr ⟨Nat.zero_lt_succ _, rfl⟩
    | succ turns =>
      rw [walk]
      rcases eq_or_ne (b.entry e).timeToLive 0 with outdated | live
      · left
        refine ⟨[e], .outdated prev e, .outdated (forall_mem_nil _) (by simpa [Live]), ?_⟩
        simp [outdated, bind, Traced.andThen, Traced.emit, pure, Traced.ofOption]
      rcases eq_or_ne (b.entry e).addr addr with same | other
      · left
        refine ⟨[e], .found e, .found (forall_mem_nil _) live same, ?_⟩
        simp [live, same, bind, Traced.andThen, Traced.emit, pure, Traced.ofOption]
      · rcases ih (some e) turns rest with
          ⟨events, walked, stops, walks⟩ | ⟨few, fails⟩
        · left
          refine ⟨e :: events, walked, stops.pass ⟨live, other⟩, ?_⟩
          change b.walk addr turns (some e) (b.entry e).next = _ at walks
          simp [live, other, walks, bind, Traced.andThen, Traced.emit]
        · right
          refine ⟨Nat.succ_lt_succ few, ?_⟩
          change (b.walk addr turns (some e) (b.entry e).next).result = none at fails
          simp [live, other, fails]

theorem probe_outdated {slot : Nat} (found : (b.probe last turns e).result = some (some slot)) :
    ¬b.Live slot := by
  induction turns generalizing e with
  | zero => contradiction
  | succ turns ih =>
    rw [probe, Traced.result_emit_bind] at found
    split at found
    · rename_i outdated
      cases found
      simpa [Live] using outdated
    · dsimp only at found
      generalize (if e = b.size then 0 else e) = turned at found
      split at found
      · cases found
      · exact ih found

theorem probe_cases {slot : Nat} (inside : slot < b.size) (outdated : ¬b.Live slot)
    (behind : last < e) (upTo : e ≤ slot) (full : ∀ q, e ≤ q → q < slot → b.Live q) :
    (∃ events, (∀ q ∈ events, q < b.size) ∧
      b.probe last turns e = { events, result := some (some slot) }) ∨
    turns < slot + 1 - e ∧ (b.probe last turns e).result = none := by
  induction turns generalizing e with
  | zero => exact .inr ⟨by omega, rfl⟩
  | succ turns ih =>
    rw [probe]
    rcases eq_or_ne e slot with rfl | before
    · left
      have zero : (b.entry e).timeToLive = 0 := by simpa [Live] using outdated
      refine ⟨[e], by simpa, ?_⟩
      simp [zero, bind, Traced.andThen, Traced.emit, pure, Traced.ofOption]
    · have live : (b.entry e).timeToLive ≠ 0 := full e le_rfl (by omega)
      have notLimit : e ≠ b.size := by omega
      have notLast : e ≠ last := by omega
      rcases @ih (e + 1) (by omega) (by omega) (fun q above => full q (by omega)) with
        ⟨events, within, finds⟩ | ⟨few, fails⟩
      · left
        refine ⟨e :: events, ?_, ?_⟩
        · exact forall_mem_cons.mpr ⟨by omega, within⟩
        · simp [live, notLimit, notLast, finds, bind, Traced.andThen, Traced.emit]
      · right
        refine ⟨by omega, ?_⟩
        simp [live, notLimit, notLast, fails]

theorem probe_beyond (behind : last < e) (upTo : e ≤ b.size)
    (full : ∀ q, e ≤ q → q < b.size → b.Live q)
    (ends : (b.probe last turns e).result.isSome = true) :
    b.size ∈ (b.probe last turns e).events := by
  induction turns generalizing e with
  | zero => contradiction
  | succ turns ih =>
    rw [probe] at ends ⊢
    rcases eq_or_ne e b.size with rfl | before
    · simp
    · have live : (b.entry e).timeToLive ≠ 0 := full e le_rfl (by omega)
      have notLast : e ≠ last := by omega
      simp only [Traced.result_emit_bind, Traced.events_emit_bind, live, before, notLast,
        if_false] at ends ⊢
      exact mem_cons_of_mem _ (ih (by omega) (by omega)
        (fun q above => full q (by omega)) ends)

def stored (b : Bridge) (addr : MacWords) (prev : Option Nat) (e : Nat) : Bridge :=
  match prev with
  | none => b.setEntry e { b.entry e with addr }
  | some prev => (b.setEntry e { b.entry e with addr }).setNext prev (some e)

theorem store_eq :
    b.store addr prev e =
      { events := e :: prev.toList, result := some (b.stored addr prev e) } := by
  cases prev <;> rfl

theorem afterWalk_outdated :
    b.afterWalk turns addr true (.outdated prev e) =
      { events := e :: prev.toList, result := some (some e, b.stored addr prev e) } := by
  cases prev <;> rfl

theorem afterWalk_ended
    (finds : b.probe last turns (last + 1) = { events, result := some (some e) }) :
    b.afterWalk turns addr true (.ended (some last)) =
      { events := events ++ [e, last], result := some (some e, b.stored addr (some last) e) } := by
  simp only [afterWalk, if_true, finds]
  rfl

@[simp] theorem size_stored : (b.stored addr prev e).size = b.size := by
  cases prev <;> rfl

@[simp] theorem addr_stored {x : Nat} :
    ((b.stored addr prev e).entry x).addr = if x = e then addr else (b.entry x).addr := by
  have addr_setEntry : ((b.setEntry e { b.entry e with addr }).entry x).addr =
      if x = e then addr else (b.entry x).addr := by
    rw [entry_setEntry]
    split <;> rfl
  cases prev with
  | none => exact addr_setEntry
  | some last => rw [stored, addr_setNext, addr_setEntry]

@[simp] theorem timeToLive_stored {x : Nat} :
    ((b.stored addr prev e).entry x).timeToLive = (b.entry x).timeToLive := by
  have timeToLive_setEntry : ((b.setEntry e { b.entry e with addr }).entry x).timeToLive =
      (b.entry x).timeToLive := by
    rw [entry_setEntry]
    split <;> simp_all
  cases prev with
  | none => exact timeToLive_setEntry
  | some last => rw [stored, timeToLive_setNext, timeToLive_setEntry]

theorem links_stored_none : (b.stored addr none e).links = b.links := by
  rw [stored, links_setEntry]
  exact Function.update_eq_self e b.links

theorem links_stored_some :
    (b.stored addr (some last) e).links = Function.update b.links last (some e) := by
  rw [stored, links_setNext, links_setEntry]
  congr 1
  exact Function.update_eq_self e b.links

theorem getLast_links {front back : List Nat}
    (chain : Chain b.links first (front ++ e :: back) none) (ends : front.getLast? = some last) :
    last ∈ front ∧ b.links last = some e := by
  obtain ⟨start, rfl⟩ := List.getLast?_eq_some_iff.mp ends
  rw [append_assoc] at chain
  obtain ⟨middle, walked, rest⟩ := Chain.append_iff.mp chain
  obtain ⟨same, rest⟩ := Chain.cons_iff.mp rest
  exact ⟨mem_append_right _ (mem_singleton_self last), (Chain.cons_iff.mp rest).1⟩

end Bridge
end Uos
