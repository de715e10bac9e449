import Uos.Net.Bridge.Lookup

/-!
# Lookups stay in the table

When the chains of the table have no cycle, and when `find_entry` leaves its table.
-/

namespace Uos

open List

namespace Bridge

/-- A walk along the `next` pointers from any entry stays in the table and ends after at most
`size` steps. -/
def ChainsEnd (b : Bridge) : Prop :=
  ∀ e < b.size, ∃ nodes,
    Chain b.links (some e) nodes none ∧ nodes.length ≤ b.size ∧ ∀ n ∈ nodes, n < b.size

/-- The chain of an address has no outdated entry, no entry of the address, and ends at `last`. -/
def Full (b : Bridge) (addr : MacWords) (last : Nat) : Prop :=
  ∃ front, Chain b.links (some (b.home addr)) (front ++ [last]) none ∧
    ∀ q ∈ front ++ [last], b.Misses addr q

/-- The first outdated entry behind another one, up to the end of the table. -/
structure FirstFree (b : Bridge) (last slot : Nat) : Prop where
  behind : last < slot
  inside : slot < b.size
  outdated : ¬b.Live slot
  first : ∀ q, last < q → q < slot → b.Live q

/-- An address can be stored: its chain has an entry for it, or the table has an outdated entry
behind the last one of the chain, and the first of these does not lead back to the chain. -/
def Room (b : Bridge) (mac : MacAddr) : Prop :=
  ∀ last, b.Full (mac.words b.target) last →
    ∃ slot, b.FirstFree last slot ∧ ∀ nodes, Chain b.links (some slot) nodes none → last ∉ nodes

/-- `find_entry` returns, and reads and writes only entries of the table. -/
def FindsInside (turns : Nat) (b : Bridge) (mac : MacAddr) (allocateFlag : Bool) : Prop :=
  (b.findEntry turns mac allocateFlag).result.isSome = true ∧
    (b.findEntry turns mac allocateFlag).All (· < b.size)

/-- Whether `find_entry` can store an address in the table and leaves the chains with an end. -/
def StoresInside (turns : Nat) (b : Bridge) (mac : MacAddr) : Prop :=
  b.FindsInside turns mac true ∧
    ∀ s b', (b.findEntry turns mac true).result = some (s, b') → b'.ChainsEnd

/-- `bridge_filter` returns, and its lookups read and write only entries of the table. -/
def FiltersInside (turns : Nat) (b : Bridge) (h : EthHdr) : Prop :=
  (b.filter turns h).result.isSome = true ∧ (b.filter turns h).All (· < b.size)

def Roomy (b : Bridge) : BridgeEvent → Prop
  | .filter h => b.Room h.src
  | _ => True

/-- A bridge after `bridge_init`, with a table of a power of two. -/
def Initial (b : Bridge) : Prop :=
  ∃ target bits msec behind, b = init target (2 ^ bits) msec behind

variable {b b' : Bridge} {mac : MacAddr} {addr : MacWords} {e last turns : Nat}
  {value : Option Nat} {nodes rest : List Nat}

theorem ChainsEnd.reroute (ends : b.ChainsEnd) (size : b'.size = b.size)
    (links : b'.links = Function.update b.links e value) (tail : Chain b.links value rest none)
    (inside : ∀ n ∈ rest, n < b.size) (apart : e ∉ rest) : b'.ChainsEnd := by
  intro first within
  rw [size] at within ⊢
  obtain ⟨nodes, chain, -, bounded⟩ := ends first within
  obtain ⟨passed, ended, subset⟩ := chain.reroute tail apart
  rw [← links] at ended
  have bound : ∀ n ∈ passed, n < b.size := by
    intro n member
    rcases mem_append.mp (subset member) with old | new
    · exact bounded n old
    · exact inside n new
  exact ⟨passed, ended, ended.length_le bound, bound⟩

theorem ChainsEnd.congr (ends : b.ChainsEnd) (size : b'.size = b.size)
    (links : b'.links = b.links) : b'.ChainsEnd := by
  intro e
  rw [size, links]
  exact ends e

theorem ChainsEnd.link_lt {next : Nat} (ends : b.ChainsEnd) (within : e < b.size)
    (link : b.links e = some next) : next < b.size := by
  obtain ⟨nodes, chain, -, bounded⟩ := ends e within
  obtain ⟨front, back, rfl⟩ := chain.follows chain.first_mem link
  exact bounded next (by simp)

theorem ChainsEnd.stored {prev : Option Nat} (ends : b.ChainsEnd) (within : e < b.size)
    (apart : ∀ last, prev = some last → b.links last = some e ∨
      ∀ nodes, Chain b.links (some e) nodes none → last ∉ nodes) :
    (b.stored addr prev e).ChainsEnd := by
  cases prev with
  | none => exact ends.congr size_stored links_stored_none
  | some last =>
    rcases apart last rfl with already | away
    · apply ends.congr size_stored
      rw [links_stored_some]
      exact Function.update_eq_self_iff.mpr already.symm
    · obtain ⟨nodes, chain, -, bounded⟩ := ends e within
      exact ends.reroute size_stored links_stored_some chain bounded (away nodes chain)

theorem cycle_stored (chain : Chain b.links (some e) nodes none) (back : last ∈ nodes)
    (within : last < b.size) : ¬(b.stored addr (some last) e).ChainsEnd := by
  intro ends
  obtain ⟨front, rest, rfl, once⟩ := eq_append_cons_of_mem back
  obtain ⟨middle, start, later⟩ := Chain.append_iff.mp chain
  obtain ⟨rfl, -⟩ := Chain.cons_iff.mp later
  have around : Chain (b.stored addr (some last) e).links (some last) (last :: front)
      (some last) := by
    apply Chain.cons
    rw [links_stored_some, Function.update_self]
    exact start.update once
  obtain ⟨walked, ended, -⟩ := ends last (by rwa [size_stored])
  exact Chain.endless around ended

/-- A lookup returns, stays in the table and leaves the chains with an end. -/
def Returns (b : Bridge) (lookup : Traced Nat (Option Nat × Bridge)) : Prop :=
  ∃ events s b', lookup = { events, result := some (s, b') } ∧ (∀ q ∈ events, q < b.size) ∧
    (∀ e, s = some e → e < b.size) ∧ b'.size = b.size ∧ b'.ChainsEnd

theorem returns_outdated {flag : Bool} {front back : List Nat} {first : Option Nat}
    (ends : b.ChainsEnd) (chain : Chain b.links first (front ++ e :: back) none)
    (bounded : ∀ n ∈ front ++ e :: back, n < b.size) :
    b.Returns (b.afterWalk turns addr flag (.outdated front.getLast? e)) := by
  have within : e < b.size := bounded e (by simp)
  have linked : ∀ last, front.getLast? = some last → last < b.size ∧ b.links last = some e := by
    intro last isLast
    obtain ⟨member, link⟩ := getLast_links chain isLast
    exact ⟨bounded last (mem_append_left _ member), link⟩
  cases flag with
  | true =>
    refine ⟨_, _, _, afterWalk_outdated, ?_, ?_, size_stored, ?_⟩
    · intro q read
      rw [mem_cons, Option.mem_toList] at read
      rcases read with rfl | isLast
      · exact within
      · exact (linked q isLast).1
    · rintro _ ⟨⟩
      exact within
    · exact ends.stored within fun last isLast => .inl (linked last isLast).2
  | false =>
    cases isLast : front.getLast? with
    | none => exact ⟨[], none, b, rfl, by simp, by simp, rfl, ends⟩
    | some last =>
      refine ⟨[last], none, b.setNext last none, rfl, ?_, by simp, rfl, ?_⟩
      · simpa using (linked last isLast).1
      · exact ends.reroute rfl links_setNext (.nil none) (by simp) (by simp)

theorem returns_ended {flag : Bool} (ends : b.ChainsEnd) (full : b.Full addr last)
    (room : flag = true → ∃ slot, b.FirstFree last slot ∧
      ∀ nodes, Chain b.links (some slot) nodes none → last ∉ nodes)
    (within : last < b.size) :
    b.Returns (b.afterWalk turns addr flag (.ended (some last))) ∨
      turns < b.size ∧ (b.afterWalk turns addr flag (.ended (some last))).result = none := by
  cases flag with
  | false => exact .inl ⟨[], none, b, rfl, by simp, by simp, rfl, ends⟩
  | true =>
    obtain ⟨slot, free, away⟩ := room rfl
    have behind := free.behind
    have inside := free.inside
    rcases probe_cases inside free.outdated (Nat.lt_succ_self last)
      behind (fun q above => free.first q above) with ⟨events, bounded, finds⟩ | ⟨few, fails⟩
    · left
      refine ⟨_, _, _, afterWalk_ended finds, ?_, ?_, size_stored, ?_⟩
      · intro q read
        simp only [mem_append, mem_cons, not_mem_nil, or_false] at read
        rcases read with probed | rfl | rfl
        · exact bounded q probed
        · exact inside
        · exact within
      · rintro _ ⟨⟩
        exact inside
      · exact ends.stored inside fun _ same => .inr (Option.some.inj same ▸ away)
    · right
      refine ⟨by omega, ?_⟩
      simp only [afterWalk, if_true, Traced.result_bind, fails]
      rfl

theorem findEntry_cases {flag : Bool} (sized : 0 < b.size) (ends : b.ChainsEnd)
    (room : flag = true → b.Room mac) :
    b.Returns (b.findEntry turns mac flag) ∨
      turns < b.size ∧ (b.findEntry turns mac flag).result = none := by
  have within : b.home (mac.words b.target) < b.size := home_lt sized
  obtain ⟨nodes, chain, short, bounded⟩ := ends _ within
  rw [findEntry]
  rcases walk_cases none turns chain with
    ⟨events, walked, stops, walks⟩ | ⟨few, fails⟩
  · rw [walks, Traced.bind_done]
    have go : b.Returns (b.afterWalk turns (mac.words b.target) flag walked) ∨
        turns < b.size ∧
          (b.afterWalk turns (mac.words b.target) flag walked).result = none := by
      cases stops with
      | @found front back e missed live same =>
        left
        refine ⟨[], some e, b, rfl, by simp, ?_, rfl, ends⟩
        rintro _ ⟨⟩
        exact bounded e (by simp)
      | outdated missed outdated =>
        left
        rw [Option.or_none]
        exact returns_outdated ends chain bounded
      | ended missed =>
        rw [Option.or_none]
        cases isLast : nodes.getLast? with
        | none =>
          rw [List.getLast?_eq_none_iff] at isLast
          subst isLast
          simp at chain
        | some last =>
          obtain ⟨front, rfl⟩ := List.getLast?_eq_some_iff.mp isLast
          have full : b.Full (mac.words b.target) last := ⟨front, chain, missed⟩
          exact returns_ended ends full (fun store => room store last full)
            (bounded last (by simp))
    have read : ∀ q ∈ events, q < b.size := by
      intro q member
      apply bounded
      cases stops with
      | found => simp at member ⊢; tauto
      | outdated => simp at member ⊢; tauto
      | ended => exact member
    rcases go with ⟨more, s, b', returns, inside, facts⟩ | ⟨few, fails⟩
    · left
      refine ⟨events ++ more, s, b', by rw [returns], fun q member => ?_, facts⟩
      exact (mem_append.mp member).elim (read q) (inside q)
    · exact .inr ⟨few, fails⟩
  · right
    exact ⟨few.trans_le short, by rw [Traced.result_bind, fails]; rfl⟩

theorem learn_cases (sized : 0 < b.size) (ends : b.ChainsEnd) (room : b.Room mac) :
    (∃ events b', b.learn turns mac = { events, result := some b' } ∧
      (∀ q ∈ events, q < b.size) ∧ b'.size = b.size ∧ b'.ChainsEnd) ∨
    turns < b.size ∧ (b.learn turns mac).result = none := by
  rcases findEntry_cases sized ends (fun _ => room) with
    ⟨events, s, b', finds, inside, -, size, ends'⟩ | ⟨few, fails⟩
  · left
    rw [learn, finds, Traced.bind_done]
    cases s with
    | none => exact ⟨events, b', by simp, inside, size, ends'⟩
    | some e =>
      refine ⟨events, (b'.setTimeToLive e (maxageSec / fullscanSec)).sight mac e, by simp, inside,
        by simpa using size, ?_⟩
      exact ends'.congr (by simp) (by simp)
  · exact .inr ⟨few, by rw [learn, Traced.result_bind, fails]; rfl⟩

theorem filter_cases {h : EthHdr} (sized : 0 < b.size) (ends : b.ChainsEnd)
    (room : b.Room h.src) :
    (∃ events passes b', b.filter turns h = { events, result := some (passes, b') } ∧
      (∀ q ∈ events, q < b.size) ∧ b'.size = b.size ∧ b'.ChainsEnd) ∨
    turns < b.size ∧ (b.filter turns h).result = none := by
  rcases learn_cases sized ends room with
    ⟨events, b', learns, inside, size, ends'⟩ | ⟨few, fails⟩
  · rw [filter, learns, Traced.bind_done]
    split
    · left
      exact ⟨events, true, b', by simp, inside, size, ends'⟩
    · rcases findEntry_cases (size ▸ sized) ends'
        (fun store : false = true => absurd store Bool.false_ne_true) with
        ⟨more, d, b'', finds, inside', -, size', ends''⟩ | ⟨few, fails⟩
      · left
        refine ⟨events ++ more, d.isNone, b'', ?_, fun q member => ?_, size'.trans size, ends''⟩
        · rw [finds, Traced.bind_done]
          simp
        · rcases mem_append.mp member with early | late
          · exact inside q early
          · exact size ▸ inside' q late
      · right
        refine ⟨size ▸ few, ?_⟩
        rw [Traced.result_bind, fails]
        rfl
  · exact .inr ⟨few, by rw [filter, Traced.result_bind, fails]; rfl⟩

theorem ChainsEnd.age (ends : b.ChainsEnd) (within : e < b.size) :
    (b.age e).size = b.size ∧ (b.age e).ChainsEnd := by
  rw [Bridge.age]
  split
  · exact ⟨rfl, ends⟩
  · rename_i ttl lives
    dsimp only
    split
    · rename_i next link
      have link : b.links e = some next := by
        rw [← link]
        exact congrFun links_setTimeToLive.symm e
      obtain ⟨nodes, chain, -, bounded⟩ := ends e within
      have distinct := chain.nodup
      cases nodes with
      | nil => simp at chain
      | cons first rest =>
        obtain ⟨same, walk⟩ := Chain.cons_iff.mp chain
        cases same
        rw [link] at walk
        cases rest with
        | nil => simp at walk
        | cons second rest =>
          obtain ⟨same, walk⟩ := Chain.cons_iff.mp walk
          cases same
          have fresh := (nodup_cons.mp distinct).1
          refine ⟨rfl, ends.reroute rfl ?_ walk (fun n member => bounded n ?_)
            fun member => fresh (mem_cons_of_mem _ member)⟩
          · rw [links_setTimeToLive, links_setEntry, links_move, links_setTimeToLive]
            congr 1
            exact congrFun (links_setTimeToLive (b := b)) next
          · exact mem_cons_of_mem _ (mem_cons_of_mem _ member)
    · exact ⟨rfl, ends.congr rfl links_setTimeToLive⟩

theorem ChainsEnd.scan (first count : Nat) (ends : b.ChainsEnd)
    (inside : first + count ≤ b.size) :
    (b.scan first count).size = b.size ∧ (b.scan first count).ChainsEnd := by
  induction count generalizing b first with
  | zero => exact ⟨rfl, ends⟩
  | succ count ih =>
    obtain ⟨size, ends'⟩ := ends.age (e := first) (by omega)
    have rest := ih (first + 1) ends' (by omega)
    rw [size] at rest
    exact rest

theorem ChainsEnd.timer (ends : b.ChainsEnd) (ticks : b.timer = some b') :
    b'.size = b.size ∧ b'.ChainsEnd := by
  have size : b.wrap.size = b.size := by
    rw [wrap]
    split <;> rfl
  have links : b.wrap.links = b.links := by
    rw [wrap]
    split <;> rfl
  rw [Bridge.timer] at ticks
  split at ticks
  · rename_i moves
    cases ticks
    have wrapped :
        { b.wrap with robin := min (b.wrap.robin + b.wrap.step) b.wrap.size }.ChainsEnd :=
      ends.congr size links
    have scanned := wrapped.scan b.wrap.robin
      (min (b.wrap.robin + b.wrap.step) b.wrap.size - b.wrap.robin) (by dsimp only; omega)
    exact ⟨scanned.1.trans size, scanned.2⟩
  · contradiction

theorem ChainsEnd.step {event : BridgeEvent} (sized : 0 < b.size) (ends : b.ChainsEnd)
    (roomy : b.Roomy event) (step : b.Step event b') : b'.size = b.size ∧ b'.ChainsEnd := by
  obtain ⟨turns, next⟩ := step
  cases event with
  | filter h =>
    obtain ⟨⟨passes, after⟩, filters, rfl⟩ := Option.map_eq_some_iff.mp next
    rcases filter_cases sized ends roomy with ⟨_, _, _, finds, -, size, ends'⟩ | ⟨-, fails⟩
    · rw [finds] at filters
      cases filters
      exact ⟨size, ends'⟩
    · rw [fails] at filters
      contradiction
  | timer => exact ends.timer next
  | clear =>
    cases next
    refine ⟨rfl, ends.congr rfl ?_⟩
    funext e
    simp only [links, clear]
    split <;> rfl

theorem Initial.chainsEnd (initial : b.Initial) : 0 < b.size ∧ b.ChainsEnd := by
  obtain ⟨target, bits, msec, behind, rfl⟩ := initial
  refine ⟨Nat.two_pow_pos bits, fun e within => ⟨[e], ?_, ?_, ?_⟩⟩
  · have last : (init target (2 ^ bits) msec behind).links e = none := by
      simp only [links, init] at within ⊢
      rw [if_pos within]
    exact Chain.cons (Chain.nil_iff.mpr last)
  · exact Nat.two_pow_pos bits
  · simpa using within

theorem findEntry_full (turns : Nat) (full : b.Full (mac.words b.target) last) :
    (∃ events, b.findEntry turns mac true =
      { events := events ++
          (b.afterWalk turns (mac.words b.target) true (.ended (some last))).events
        result := (b.afterWalk turns (mac.words b.target) true (.ended (some last))).result }) ∨
    (b.findEntry turns mac true).result = none := by
  obtain ⟨front, chain, missed⟩ := full
  rw [findEntry]
  rcases walk_cases none turns chain with ⟨events, walked, stops, walks⟩ | ⟨-, fails⟩
  · have comes := stops.of_misses missed
    rw [List.getLast?_concat, Option.or_none] at comes
    subst comes
    exact .inl ⟨events, by rw [walks, Traced.bind_done]⟩
  · exact .inr (by rw [Traced.result_bind, fails]; rfl)

theorem FindsInside.free (finds : b.FindsInside turns mac true) (within : last < b.size)
    (full : b.Full (mac.words b.target) last) : ∃ slot, b.FirstFree last slot := by
  obtain ⟨returns, inside⟩ := finds
  rcases findEntry_full turns full with ⟨events, goes⟩ | fails
  · rw [goes] at returns inside
    have probes : (b.probe last turns (last + 1)).result.isSome = true ∧
        (b.probe last turns (last + 1)).All (· < b.size) := by
      simp only [afterWalk, if_true, Traced.result_bind, Traced.events_bind] at returns inside
      refine ⟨?_, fun q member => inside q (mem_append_right _ ?_)⟩
      · cases found : (b.probe last turns (last + 1)).result with
        | none => simp [found] at returns
        | some slot => rfl
      · exact mem_append_left _ member
    have exists_free : ∃ slot, last < slot ∧ slot < b.size ∧ ¬b.Live slot := by
      by_contra none_free
      simp only [not_exists, not_and, not_not] at none_free
      have beyond := probe_beyond (Nat.lt_succ_self last) within
        (fun q above => none_free q above) probes.1
      exact absurd (probes.2 _ beyond) (Nat.lt_irrefl _)
    classical
    obtain ⟨behind, inTable, outdated⟩ := Nat.find_spec exists_free
    refine ⟨Nat.find exists_free, behind, inTable, outdated, fun q above below => ?_⟩
    by_contra dead
    exact Nat.find_min exists_free below ⟨above, below.trans inTable, dead⟩
  · rw [fails] at returns
    contradiction

theorem StoresInside.room (ends : b.ChainsEnd) (stores : b.StoresInside turns mac)
    (sized : 0 < b.size) : b.Room mac := by
  rintro last full
  obtain ⟨finds, after⟩ := stores
  have within : last < b.size := by
    obtain ⟨front, chain, -⟩ := full
    obtain ⟨nodes, chain', -, bounded⟩ := ends _ (home_lt sized)
    rw [chain'.unique chain] at bounded
    exact bounded last (by simp)
  obtain ⟨slot, free⟩ := finds.free within full
  refine ⟨slot, free, fun nodes leads back => ?_⟩
  have returns := finds.1
  rcases findEntry_full turns full with ⟨events, goes⟩ | fails
  · rcases probe_cases free.inside free.outdated (Nat.lt_succ_self last) free.behind
        (fun q above => free.first q above) with ⟨more, -, probes⟩ | ⟨-, fails⟩
    · rw [goes, afterWalk_ended probes] at after
      exact cycle_stored leads back within (after _ _ rfl)
    · rw [goes] at returns
      simp [afterWalk, Traced.result_bind, fails] at returns
  · rw [fails] at returns
    contradiction

def four : Bridge :=
  init .i386 4 2500 fun _ => { timeToLive := 1 }

theorem four_initial : four.Initial :=
  ⟨.i386, 2, 2500, fun _ => { timeToLive := 1 }, rfl⟩

def broadcastFrom (src : MacAddr) : EthHdr where
  dest := #v[255, 255, 255, 255, 255, 255]
  src

end Bridge
end Uos
