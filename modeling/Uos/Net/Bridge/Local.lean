import Mathlib.Tactic.IntervalCases
import Uos.Net.Bridge.Termination

/-!
# The bridge filters local traffic

Which calls of a bridge let it drop exactly the frames to the addresses that were seen as a source
within the last 29 scans.
-/

namespace Uos

open Function List Option

theorem Checksum.nativeWord_lt (target : Target) (first second : UChar) :
    nativeWord target first second < 2 ^ 16 := by
  have bound := first.isLt
  have bound' := second.isLt
  rw [nativeWord]
  split <;> omega

theorem Checksum.nativeWord_injective {target : Target} {first second first' second' : UChar}
    (same : BitVec.ofNat 16 (nativeWord target first second) =
      BitVec.ofNat 16 (nativeWord target first' second')) : first = first' ∧ second = second' := by
  have numbers := congrArg BitVec.toNat same
  rw [BitVec.toNat_ofNat, BitVec.toNat_ofNat, Nat.mod_eq_of_lt (nativeWord_lt _ _ _),
    Nat.mod_eq_of_lt (nativeWord_lt _ _ _)] at numbers
  have bounds := And.intro first.isLt second.isLt
  have bounds' := And.intro first'.isLt second'.isLt
  simp only [nativeWord] at numbers
  constructor <;> apply BitVec.eq_of_toNat_eq <;> split at numbers <;> omega

theorem MacAddr.words_injective (target : Target) : Function.Injective (MacAddr.words target) := by
  intro mac mac' same
  have word0 := Checksum.nativeWord_injective (congrArg (fun words : MacWords => words[0]) same)
  have word1 := Checksum.nativeWord_injective (congrArg (fun words : MacWords => words[1]) same)
  have word2 := Checksum.nativeWord_injective (congrArg (fun words : MacWords => words[2]) same)
  apply Vector.ext
  intro i within
  interval_cases i
  · exact word0.1
  · exact word0.2
  · exact word1.1
  · exact word1.2
  · exact word2.1
  · exact word2.2

namespace Bridge

/-- A lookup passes live entries on its way to an entry. -/
structure Looks (b : Bridge) (addr : MacWords) (front : List Nat) (e : Nat) : Prop where
  chain : Chain b.links (some (b.home addr)) front (some e)
  live : ∀ q ∈ front, b.Live q

/-- An address is stored in the table. -/
def Stored (b : Bridge) (mac : MacAddr) : Prop :=
  ∃ e < b.size, b.Live e ∧ (b.entry e).addr = mac.words b.target

/-- An address was stored, and it was seen as a source within the last 29 scans of the entry that
keeps it. -/
def Recent (b : Bridge) (mac : MacAddr) : Prop :=
  ∃ sighting, b.history.seen mac = some sighting ∧
    b.scansOf sighting.place ≤ sighting.scan + 29

/-- No address is stored twice. -/
def Distinct (b : Bridge) : Prop :=
  ∀ e < b.size, ∀ e' < b.size, b.Live e → b.Live e' → (b.entry e).addr = (b.entry e').addr → e = e'

/-- An entry that is taken for an address lies in the table and does not lead back to its chain. -/
def Fits (b : Bridge) (mac : MacAddr) : Prop :=
  ∀ last slot turns, b.Full (mac.words b.target) last →
    (b.probe last turns (last + 1)).result = some (some slot) →
      slot < b.size ∧ ∀ nodes, Chain b.links (some slot) nodes none → last ∉ nodes

/-- An entry that becomes outdated has no live successor, or one that was scanned before and that
every lookup reaches through this entry. -/
def AgesWell (b : Bridge) (e : Nat) : Prop :=
  ∀ next, (b.entry e).timeToLive = 1 → b.links e = some next → b.Live next →
    next < e ∧ ∀ x < b.size, b.Live x → ∀ front, b.Looks (b.entry x).addr front x →
      next ∈ front ++ [x] → e ∈ front

/-- All entries of a section age well, when they are scanned. -/
def ScansWell : Nat → Bridge → Nat → Prop
  | 0, _, _ => True
  | count + 1, b, first => b.AgesWell first ∧ ScansWell count (b.age first) (first + 1)

/-- Whether a call keeps the table in step with what was seen.  A frame to a single station must not
be to a stored address with the bit that stands for a multicast in the source, nor to the address of
its sender, unless that one is stored already. -/
def KeepsStep (b : Bridge) : BridgeEvent → Prop
  | .filter h =>
    b.Fits h.src ∧ (h.dest.individual = true →
      (h.dest.passesThrough = true → ¬b.Recent h.dest) ∧ (h.dest = h.src → b.Recent h.src))
  | .timer =>
    ScansWell (min (b.wrap.robin + b.step) b.size - b.wrap.robin)
      { b.wrap with robin := min (b.wrap.robin + b.step) b.size } b.wrap.robin
  | .clear => True

/-- What the invariant of the filter says, when the scan stands at a position. -/
structure Kept (position : Nat) (b : Bridge) : Prop where
  sized : 0 < b.size
  ends : b.ChainsEnd
  reached : ∀ e < b.size, b.Live e → ∃ front, b.Looks (b.entry e).addr front e
  distinct : b.Distinct
  known : ∀ e < b.size, b.Live e → ∃ mac sighting, mac.words b.target = (b.entry e).addr ∧
    b.history.seen mac = some sighting ∧ sighting.place = e ∧
      (b.entry e).timeToLive + b.scansAt position e = 30 + sighting.scan
  gone : ∀ mac sighting, b.history.seen mac = some sighting → sighting.place < b.size ∧
    (b.Live sighting.place ∧ (b.entry sighting.place).addr = mac.words b.target ∨
      sighting.scan + 30 ≤ b.scansAt position sighting.place)

variable {b b' : Bridge} {mac : MacAddr} {addr : MacWords} {e position turns : Nat}
  {nodes events : List Nat}

theorem Kept.owner (kept : b.Kept position) (within : e < b.size) (live : b.Live e)
    (same : (b.entry e).addr = mac.words b.target) :
    ∃ sighting, b.history.seen mac = some sighting ∧ sighting.place = e ∧
      (b.entry e).timeToLive + b.scansAt position e = 30 + sighting.scan := by
  obtain ⟨mac', sighting, words, seen, facts⟩ := kept.known e within live
  obtain rfl := MacAddr.words_injective b.target (words.trans same)
  exact ⟨sighting, seen, facts⟩

theorem Kept.recent_iff (kept : b.Kept b.robin) : b.Recent mac ↔ b.Stored mac := by
  constructor
  · rintro ⟨sighting, seen, young⟩
    obtain ⟨within, kept | old⟩ := kept.gone mac sighting seen
    · exact ⟨sighting.place, within, kept⟩
    · rw [scansOf] at young
      omega
  · rintro ⟨e, within, live, same⟩
    obtain ⟨sighting, seen, rfl, count⟩ := kept.owner within live same
    refine ⟨sighting, seen, ?_⟩
    rw [Live] at live
    rw [scansOf]
    omega

theorem Looks.split {front : List Nat} (looks : b.Looks addr front e) (ends : b.ChainsEnd)
    (within : e < b.size) (chain : Chain b.links (some (b.home addr)) nodes none) :
    ∃ back, nodes = front ++ e :: back := by
  obtain ⟨rest, tail, -⟩ := ends e within
  have whole := Chain.append_iff.mpr ⟨some e, looks.chain, tail⟩
  cases rest with
  | nil => simp at tail
  | cons first back =>
    obtain ⟨same, -⟩ := Chain.cons_iff.mp tail
    cases same
    exact ⟨back, chain.unique whole⟩

theorem append_cons_cases {x : Nat} {front back front' back' : List Nat}
    (same : front ++ e :: back = front' ++ x :: back') : e = x ∨ e ∈ front' ∨ x ∈ front := by
  rcases append_eq_append_iff.mp same with ⟨middle, rfl, rest⟩ | ⟨middle, rfl, rest⟩
  · cases middle with
    | nil => exact .inl (List.cons.inj rest).1
    | cons first middle =>
      obtain ⟨rfl, -⟩ := List.cons.inj rest
      exact .inr (.inl (by simp))
  · cases middle with
    | nil => exact .inl (List.cons.inj rest).1.symm
    | cons first middle =>
      obtain ⟨rfl, -⟩ := List.cons.inj rest
      exact .inr (.inr (by simp))

theorem Kept.finds (kept : b.Kept position)
    (chain : Chain b.links (some (b.home (b.entry e).addr)) nodes none) {walked : Walked}
    (stops : Stops b (b.entry e).addr none nodes events walked) (within : e < b.size)
    (live : b.Live e) : walked = .found e := by
  obtain ⟨path, looks⟩ := kept.reached e within live
  obtain ⟨rest, rfl⟩ := looks.split kept.ends within chain
  obtain ⟨nodes', chain', -, bounded⟩ := kept.ends _ (home_lt kept.sized)
  rw [chain'.unique chain] at bounded
  have early {q : Nat} (member : q ∈ path) : b.Misses (b.entry e).addr q := by
    refine ⟨looks.live q member, fun same => ?_⟩
    obtain rfl := kept.distinct q (bounded q (by simp [member])) e within
      (looks.live q member) live same
    have distinct := chain.nodup
    rw [nodup_append] at distinct
    exact distinct.2.2 q member q mem_cons_self rfl
  generalize whole : path ++ e :: rest = nodes at stops
  cases stops with
  | found missed alive same =>
    rcases append_cons_cases whole with rfl | before | before
    · rfl
    · exact absurd rfl (missed e before).2
    · exact absurd same (early before).2
  | outdated missed outdated =>
    rcases append_cons_cases whole with rfl | before | before
    · exact absurd live outdated
    · exact absurd rfl (missed e before).2
    · exact absurd (early before).1 outdated
  | ended missed =>
    have passed := missed e (by rw [← whole]; simp)
    exact absurd rfl passed.2

/-- What changes when an entry keeps the source of a frame. -/
structure Learns (b : Bridge) (mac : MacAddr) (e : Nat) (b' : Bridge) : Prop where
  size : b'.size = b.size
  target : b'.target = b.target
  robin : b'.robin = b.robin
  scans : b'.history.scans = b.history.scans
  seen : b'.history.seen =
    Function.update b.history.seen mac (some { place := e, scan := b.scansOf e })
  timeToLive : ∀ x, (b'.entry x).timeToLive = if x = e then 30 else (b.entry x).timeToLive
  addr : ∀ x, (b'.entry x).addr = if x = e then mac.words b.target else (b.entry x).addr
  within : e < b.size
  ends : b'.ChainsEnd
  evicts : b.Live e → (b.entry e).addr = mac.words b.target
  alone : ∀ x < b.size, b.Live x → x ≠ e → (b.entry x).addr ≠ mac.words b.target
  others : ∀ x < b.size, b.Live x → x ≠ e → ∀ front, b.Looks (b.entry x).addr front x →
    Chain b'.links (some (b.home (b.entry x).addr)) front (some x)
  path : ∃ front, Chain b'.links (some (b.home (mac.words b.target))) front (some e) ∧
    ∀ q ∈ front, b.Live q

section Learns

variable (learns : b.Learns mac e b')
include learns

theorem Learns.live_iff {x : Nat} : b'.Live x ↔ x = e ∨ b.Live x := by
  rw [Live, Live, learns.timeToLive]
  rcases eq_or_ne x e with rfl | other
  · simp
  · simp [other]

theorem Learns.home {addr : MacWords} : b'.home addr = b.home addr := by
  rw [Bridge.home, Bridge.home, learns.size, learns.target]

theorem Learns.scansAt {x : Nat} : b'.scansAt position x = b.scansAt position x := by
  rw [Bridge.scansAt, Bridge.scansAt, learns.scans]

theorem Learns.stored_self : b'.Stored mac := by
  refine ⟨e, learns.size ▸ learns.within, learns.live_iff.mpr (.inl rfl), ?_⟩
  rw [learns.addr, if_pos rfl, learns.target]

theorem Learns.stored_iff {mac' : MacAddr} (other : mac' ≠ mac) :
    b'.Stored mac' ↔ b.Stored mac' := by
  have differ : mac.words b.target ≠ mac'.words b.target :=
    fun same => other (MacAddr.words_injective b.target same).symm
  simp only [Stored, learns.size, learns.live_iff, learns.addr, learns.target]
  constructor
  · rintro ⟨x, within, live, same⟩
    rcases eq_or_ne x e with rfl | away
    · rw [if_pos rfl] at same
      exact absurd same differ
    · rw [if_neg away] at same
      exact ⟨x, within, live.resolve_left away, same⟩
  · rintro ⟨x, within, live, same⟩
    rcases eq_or_ne x e with rfl | away
    · exact absurd ((learns.evicts live).symm.trans same) differ
    · exact ⟨x, within, .inr live, by rwa [if_neg away]⟩

theorem Learns.kept (kept : b.Kept b.robin) : b'.Kept b'.robin := by
  rw [learns.robin]
  refine ⟨learns.size ▸ kept.sized, learns.ends, ?_, ?_, ?_, ?_⟩
  · intro x within live
    rw [learns.size] at within
    rcases eq_or_ne x e with rfl | away
    · obtain ⟨front, chain, passed⟩ := learns.path
      refine ⟨front, ?_, fun q member => learns.live_iff.mpr (.inr (passed q member))⟩
      rw [learns.home, learns.addr, if_pos rfl]
      exact chain
    · have before := (learns.live_iff.mp live).resolve_left away
      obtain ⟨front, looks⟩ := kept.reached x within before
      refine ⟨front, ?_, fun q member => learns.live_iff.mpr (.inr (looks.live q member))⟩
      rw [learns.home, learns.addr, if_neg away]
      exact learns.others x within before away front looks
  · intro x within x' within' live live' same
    rw [learns.size] at within within'
    rw [learns.addr, learns.addr] at same
    rcases eq_or_ne x e with rfl | away
    · rcases eq_or_ne x' x with rfl | away'
      · rfl
      · rw [if_pos rfl, if_neg away'] at same
        have before := (learns.live_iff.mp live').resolve_left away'
        exact absurd same.symm (learns.alone x' within' before away')
    · have before := (learns.live_iff.mp live).resolve_left away
      rcases eq_or_ne x' e with rfl | away'
      · rw [if_neg away, if_pos rfl] at same
        exact absurd same (learns.alone x within before away)
      · rw [if_neg away, if_neg away'] at same
        exact kept.distinct x within x' within' before
          ((learns.live_iff.mp live').resolve_left away') same
  · intro x within live
    rw [learns.size] at within
    rw [learns.seen, learns.target, learns.scansAt, learns.timeToLive, learns.addr]
    rcases eq_or_ne x e with rfl | away
    · exact ⟨mac, _, by rw [if_pos rfl], update_self .., rfl, by rw [if_pos rfl]; rfl⟩
    · have before := (learns.live_iff.mp live).resolve_left away
      obtain ⟨mac', sighting, words, seen, facts⟩ := kept.known x within before
      refine ⟨mac', sighting, by rw [if_neg away, words], ?_,
        facts.1, by rw [if_neg away]; exact facts.2⟩
      rw [update_of_ne, seen]
      rintro rfl
      exact learns.alone x within before away words.symm
  · intro mac' sighting seen
    rw [learns.seen] at seen
    rw [learns.size, learns.scansAt, learns.live_iff, learns.addr, learns.target]
    rcases eq_or_ne mac' mac with rfl | other
    · rw [update_self] at seen
      cases seen
      exact ⟨learns.within, .inl ⟨.inl rfl, by rw [if_pos rfl]⟩⟩
    · rw [update_of_ne other] at seen
      obtain ⟨within, here | old⟩ := kept.gone mac' sighting seen
      · refine ⟨within, .inl ⟨.inr here.1, ?_⟩⟩
        rcases eq_or_ne sighting.place e with place | away
        · rw [place] at here
          have same := (learns.evicts here.1).symm.trans here.2
          exact absurd (MacAddr.words_injective b.target same).symm other
        · rw [if_neg away, here.2]
      · exact ⟨within, .inr old⟩

end Learns

theorem Kept.refreshes (kept : b.Kept b.robin) (within : e < b.size) (live : b.Live e)
    (same : (b.entry e).addr = mac.words b.target) :
    b.Learns mac e ((b.setTimeToLive e 30).sight mac e) where
  size := rfl
  target := rfl
  robin := rfl
  scans := rfl
  seen := rfl
  timeToLive _ := timeToLive_setTimeToLive
  addr x := by
    refine addr_setTimeToLive.trans ?_
    split
    · rename_i here
      rw [here, same]
    · rfl
  within := within
  ends := kept.ends.congr rfl links_setTimeToLive
  evicts _ := same
  alone x inside alive other again := other (kept.distinct x inside e within alive live
    (again.trans same.symm))
  others x _ _ _ front looks := by
    rw [links_sight, links_setTimeToLive]
    exact looks.chain
  path := by
    obtain ⟨front, looks⟩ := kept.reached e within live
    rw [same] at looks
    refine ⟨front, ?_, looks.live⟩
    rw [links_sight, links_setTimeToLive]
    exact looks.chain

theorem Kept.stores {prev : Option Nat} {front : List Nat} (kept : b.Kept b.robin)
    (within : e < b.size) (outdated : ¬b.Live e) (absent : ¬b.Stored mac)
    (front_live : ∀ q ∈ front, b.Live q)
    (links : (b.stored (mac.words b.target) prev e).links = b.links ∧
        Chain b.links (some (b.home (mac.words b.target))) front (some e) ∨
      ∃ last, prev = some last ∧ b.links last = none ∧
        Chain b.links (some (b.home (mac.words b.target))) front none ∧
        front.getLast? = some last ∧
        ∀ nodes, Chain b.links (some e) nodes none → last ∉ nodes) :
    b.Learns mac e (((b.stored (mac.words b.target) prev e).setTimeToLive e 30).sight mac e) where
  size := size_stored
  target := by cases prev <;> rfl
  robin := by cases prev <;> rfl
  scans := by cases prev <;> rfl
  seen := by cases prev <;> rfl
  timeToLive x := by
    refine timeToLive_setTimeToLive.trans ?_
    rw [timeToLive_stored]
  addr x := addr_setTimeToLive.trans addr_stored
  within := within
  ends := by
    have stored : (b.stored (mac.words b.target) prev e).ChainsEnd := by
      rcases links with ⟨same, -⟩ | ⟨last, rfl, -, -, -, away⟩
      · exact kept.ends.congr size_stored same
      · exact kept.ends.stored within fun _ same => .inr (Option.some.inj same ▸ away)
    exact stored.congr rfl links_setTimeToLive
  evicts live := absurd live outdated
  alone x inside live _ again := absent ⟨x, inside, live, again⟩
  others x _ _ _ way looks := by
    rw [links_sight, links_setTimeToLive]
    rcases links with ⟨same, -⟩ | ⟨last, rfl, ends, -⟩
    · rw [same]
      exact looks.chain
    · rw [links_stored_some]
      refine looks.chain.update fun member => ?_
      obtain ⟨following, -, link⟩ := looks.chain.leads member
      rw [ends] at link
      contradiction
  path := by
    refine ⟨front, ?_, front_live⟩
    rw [links_sight, links_setTimeToLive]
    rcases links with ⟨same, chain⟩ | ⟨last, rfl, -, chain, isLast, -⟩
    · rwa [same]
    · obtain ⟨start, rfl⟩ := List.getLast?_eq_some_iff.mp isLast
      have distinct := chain.nodup
      rw [nodup_append] at distinct
      rw [links_stored_some]
      exact chain.redirect fun early => distinct.2.2 last early last (by simp) rfl

theorem Kept.absent (kept : b.Kept position)
    (chain : Chain b.links (some (b.home (mac.words b.target))) nodes none) {walked : Walked}
    (stops : Stops b (mac.words b.target) none nodes events walked)
    (misses : ∀ e, walked ≠ .found e) : ¬b.Stored mac := by
  rintro ⟨e, within, live, same⟩
  rw [← same] at chain stops
  exact misses e (kept.finds chain stops within live)

/-- What `bridge_filter` does to the table for the source of a frame. -/
theorem Kept.learn (kept : b.Kept b.robin) (fits : b.Fits mac)
    (result : (b.learn turns mac).result = some b') :
    b' = b ∧ ¬b.Stored mac ∨ ∃ e, b.Learns mac e b' := by
  obtain ⟨nodes, chain, -, bounded⟩ := kept.ends _ (@home_lt b (mac.words b.target) kept.sized)
  rw [Bridge.learn, findEntry] at result
  rcases walk_cases none turns chain with ⟨events, walked, stops, walks⟩ | ⟨-, fails⟩
  · have absent := kept.absent chain stops
    rw [walks, Traced.bind_done] at result
    cases stops with
    | @found front back e missed live same =>
      cases result
      exact .inr ⟨e, kept.refreshes (bounded e (by simp)) live same⟩
    | @outdated front back e missed outdated =>
      rw [or_none, afterWalk_outdated] at result
      cases result
      right
      refine ⟨e, kept.stores (bounded e (by simp)) outdated (absent (by simp))
        (fun q member => (missed q member).1) (.inl ⟨?_, ?_⟩)⟩
      · cases isLast : front.getLast? with
        | none => exact links_stored_none
        | some last =>
          rw [links_stored_some, ← (getLast_links chain isLast).2, update_eq_self]
      · obtain ⟨middle, start, rest⟩ := Chain.append_iff.mp chain
        obtain ⟨rfl, -⟩ := Chain.cons_iff.mp rest
        exact start
    | ended missed =>
      rw [or_none] at result
      cases isLast : nodes.getLast? with
      | none =>
        rw [isLast] at result
        contradiction
      | some last =>
        obtain ⟨front, rfl⟩ := List.getLast?_eq_some_iff.mp isLast
        rw [isLast] at result
        cases probed : b.probe last turns (last + 1) with
        | mk more found =>
          cases found with
          | none => simp [afterWalk, probed, Traced.result_bind] at result
          | some slot =>
            cases slot with
            | none =>
              simp only [afterWalk, if_true, probed, Traced.bind_done] at result
              cases result
              exact .inl ⟨rfl, absent (by simp)⟩
            | some slot =>
              rw [afterWalk_ended probed] at result
              cases result
              have full : b.Full (mac.words b.target) last := ⟨front, chain, missed⟩
              obtain ⟨within, away⟩ := fits last slot turns full (by rw [probed])
              have stops : b.links last = none := by
                obtain ⟨middle, -, rest⟩ := Chain.append_iff.mp chain
                exact Chain.nil_iff.mp (Chain.cons_iff.mp rest).2
              exact .inr ⟨slot, kept.stores within
                (probe_outdated (by rw [probed])) (absent (by simp))
                (fun q member => (missed q member).1)
                (.inr ⟨last, rfl, stops, chain, isLast, away⟩)⟩
  · rw [Traced.result_bind, Traced.result_bind, fails] at result
    contradiction

theorem Kept.cut {last : Nat} (kept : b.Kept position) (link : b.links last = some e)
    (outdated : ¬b.Live e) : (b.setNext last none).Kept position := by
  have live_iff (x : Nat) : (b.setNext last none).Live x ↔ b.Live x := by
    rw [Live, Live, timeToLive_setNext]
  refine ⟨kept.sized, kept.ends.reroute rfl links_setNext (.nil none) (by simp) (by simp),
    ?_, ?_, ?_, ?_⟩
  · intro x within live
    rw [live_iff] at live
    rw [addr_setNext]
    obtain ⟨front, chain, passed⟩ := kept.reached x within live
    refine ⟨front, ?_, fun q member => (live_iff q).mpr (passed q member)⟩
    rw [links_setNext]
    refine chain.update fun member => outdated ?_
    obtain ⟨following, onTheWay, leads⟩ := chain.leads member
    obtain rfl := Option.some.inj (link.symm.trans leads)
    rcases mem_append.mp onTheWay with early | last
    · exact passed e early
    · rwa [mem_singleton.mp last]
  · intro x within x' within'
    rw [live_iff, live_iff, addr_setNext, addr_setNext]
    exact kept.distinct x within x' within'
  · intro x within
    rw [live_iff, addr_setNext, timeToLive_setNext]
    exact kept.known x within
  · intro mac sighting
    rw [live_iff, addr_setNext]
    exact kept.gone mac sighting

/-- What `bridge_filter` does with the destination of a frame. -/
theorem Kept.search {d : Option Nat} (kept : b.Kept b.robin)
    (result : (b.findEntry turns mac false).result = some (d, b')) :
    b'.Kept b'.robin ∧ (d = none ↔ ¬b.Stored mac) := by
  obtain ⟨nodes, chain, -, bounded⟩ := kept.ends _ (@home_lt b (mac.words b.target) kept.sized)
  rw [findEntry] at result
  rcases walk_cases none turns chain with ⟨events, walked, stops, walks⟩ | ⟨-, fails⟩
  · have absent := kept.absent chain stops
    rw [walks, Traced.bind_done] at result
    cases stops with
    | @found front back e missed live same =>
      cases result
      exact ⟨kept, by simpa using ⟨e, bounded e (by simp), live, same⟩⟩
    | @outdated front back e missed outdated =>
      rw [or_none] at result
      cases isLast : front.getLast? with
      | none =>
        rw [isLast] at result
        cases result
        exact ⟨kept, by simpa using absent (by simp)⟩
      | some last =>
        rw [isLast] at result
        cases result
        exact ⟨kept.cut (getLast_links chain isLast).2 outdated,
          by simpa using absent (by simp)⟩
    | ended missed =>
      rw [or_none] at result
      cases isLast : nodes.getLast? with
      | none =>
        rw [isLast] at result
        cases result
        exact ⟨kept, by simpa using absent (by simp)⟩
      | some last =>
        rw [isLast] at result
        cases result
        exact ⟨kept, by simpa using absent (by simp)⟩
  · rw [Traced.result_bind, fails] at result
    contradiction

theorem scansAt_succ (x : Nat) : b.scansAt (e + 1) x = b.scansAt e x + if x = e then 1 else 0 := by
  rw [scansAt, scansAt]
  split <;> split <;> split <;> omega

theorem Kept.older {timeToLive : Nat} (kept : b.Kept e)
    (ages : (b.entry e).timeToLive = timeToLive + 1) (last : timeToLive = 0 → b.links e = none)
    (within : e < b.size) : (b.setTimeToLive e timeToLive).Kept (e + 1) := by
  have alive : b.Live e := by rw [Live, ages]; exact Nat.succ_ne_zero _
  have before {x : Nat} (live : (b.setTimeToLive e timeToLive).Live x) : b.Live x := by
    rw [Live, timeToLive_setTimeToLive] at live
    split at live
    · rename_i here
      rwa [here]
    · exact live
  have still {x : Nat} (live : b.Live x) (other : x ≠ e ∨ timeToLive ≠ 0) :
      (b.setTimeToLive e timeToLive).Live x := by
    rw [Live, timeToLive_setTimeToLive]
    split
    · rename_i here
      exact other.resolve_left (not_not.mpr here)
    · exact live
  refine ⟨kept.sized, kept.ends.congr rfl links_setTimeToLive, ?_, ?_, ?_, ?_⟩
  · intro x inside live
    obtain ⟨front, chain, passed⟩ := kept.reached x inside (before live)
    rw [addr_setTimeToLive]
    refine ⟨front, by rw [links_setTimeToLive]; exact chain, fun q member => ?_⟩
    refine still (passed q member) ?_
    rcases eq_or_ne q e with rfl | other
    · right
      intro zero
      obtain ⟨following, -, leads⟩ := chain.leads member
      rw [last zero] at leads
      contradiction
    · exact .inl other
  · intro x inside x' inside' live live'
    rw [addr_setTimeToLive, addr_setTimeToLive]
    exact kept.distinct x inside x' inside' (before live) (before live')
  · intro x inside live
    obtain ⟨mac, sighting, words, seen, place, balance⟩ := kept.known x inside (before live)
    refine ⟨mac, sighting, by rw [addr_setTimeToLive]; exact words, seen, place, ?_⟩
    change _ + b.scansAt (e + 1) x = _
    rw [timeToLive_setTimeToLive, scansAt_succ]
    rcases eq_or_ne x e with rfl | other
    · rw [if_pos rfl, if_pos rfl]
      omega
    · rw [if_neg other, if_neg other]
      omega
  · intro mac sighting seen
    obtain ⟨inside, here | old⟩ := kept.gone mac sighting seen
    · refine ⟨inside, ?_⟩
      change _ ∨ _ ≤ b.scansAt (e + 1) sighting.place
      rw [addr_setTimeToLive, scansAt_succ]
      rcases eq_or_ne sighting.place e with place | other
      · rcases eq_or_ne timeToLive 0 with zero | positive
        · right
          obtain ⟨sighting', seen', place', balance⟩ := kept.owner inside here.1 here.2
          obtain rfl := Option.some.inj (seen.symm.trans seen')
          rw [place, ages] at balance
          rw [place, if_pos rfl]
          omega
        · exact .inl ⟨still here.1 (.inr positive), here.2⟩
      · exact .inl ⟨still here.1 (.inl other), here.2⟩
    · refine ⟨inside, .inr ?_⟩
      change _ ≤ b.scansAt (e + 1) sighting.place
      rw [scansAt_succ]
      omega

/-- What changes when an entry that becomes outdated is overwritten with its successor. -/
structure Succeeds (b : Bridge) (e next : Nat) (b' : Bridge) : Prop where
  size : b'.size = b.size
  target : b'.target = b.target
  scans : b'.history.scans = b.history.scans
  seen : ∀ mac, b'.history.seen mac = (b.history.seen mac).map fun sighting =>
    if mac.words b.target = (b.entry next).addr ∧ sighting.place = next then
      { sighting with place := e }
    else sighting
  timeToLive : ∀ x, (b'.entry x).timeToLive =
    if x = next then 0 else if x = e then (b.entry next).timeToLive else (b.entry x).timeToLive
  addr : ∀ x, (b'.entry x).addr = if x = e then (b.entry next).addr else (b.entry x).addr
  links : b'.links = Function.update b.links e (b.links next)

theorem age_succeeds {next : Nat} (ages : (b.entry e).timeToLive = 1)
    (link : b.links e = some next) (other : next ≠ e) : b.Succeeds e next (b.age e) := by
  have aged :
      b.age e = (((b.setTimeToLive e 0).move next e).setEntry e (b.entry next)).setTimeToLive
      next 0 := by
    have pointer : ((b.setTimeToLive e 0).entry e).next = some next := by
      rw [← link]
      exact congrFun links_setTimeToLive e
    have successor : (b.setTimeToLive e 0).entry next = b.entry next := by
      rw [setTimeToLive, entry_setEntry, if_neg other]
    rw [age, ages]
    simp only [pointer, successor]
  rw [aged]
  have entry (x : Nat) :
      (((b.setTimeToLive e 0).move next e).setEntry e (b.entry next)).entry x =
        if x = e then b.entry next else b.entry x := by
    rw [entry_setEntry]
    split
    · rfl
    · rename_i away
      change (b.setTimeToLive e 0).entry x = _
      rw [setTimeToLive, entry_setEntry, if_neg away]
  refine ⟨rfl, rfl, rfl, fun mac => ?_, fun x => ?_, fun x => ?_, ?_⟩
  · change Option.map _ _ = _
    rw [addr_setTimeToLive]
    rfl
  · rw [timeToLive_setTimeToLive, entry]
    split
    · rfl
    · split <;> rfl
  · rw [addr_setTimeToLive, entry]
    split <;> rfl
  · rw [links_setTimeToLive, links_setEntry, links_move, links_setTimeToLive]
    rfl

theorem Looks.nodup {front : List Nat} (looks : b.Looks addr front e) (kept : b.Kept position)
    (within : e < b.size) : (front ++ [e]).Nodup := by
  obtain ⟨nodes, chain, -⟩ := kept.ends _ (@home_lt b addr kept.sized)
  obtain ⟨back, rfl⟩ := looks.split kept.ends within chain
  have distinct := chain.nodup
  rw [append_cons] at distinct
  exact (nodup_append.mp distinct).1

section Succeeds

variable {next : Nat} (succeeds : b.Succeeds e next b')
include succeeds

theorem Succeeds.live_iff {x : Nat} :
    b'.Live x ↔ x ≠ next ∧ b.Live (if x = e then next else x) := by
  rw [Live, Live, succeeds.timeToLive]
  rcases eq_or_ne x next with rfl | other
  · simp
  · rcases eq_or_ne x e with rfl | away
    · simp [other]
    · simp [other, away]

theorem Succeeds.addr_eq (x : Nat) :
    (b'.entry x).addr = (b.entry (if x = e then next else x)).addr := by
  rw [succeeds.addr]
  split <;> rfl

theorem Succeeds.home {addr : MacWords} : b'.home addr = b.home addr := by
  rw [Bridge.home, Bridge.home, succeeds.size, succeeds.target]

theorem Succeeds.looks {x : Nat} {front : List Nat} (kept : b.Kept position)
    (link : b.links e = some next) (well : b.Live next → next ∈ front ++ [x] → e ∈ front)
    (looks : b.Looks addr front x) (within : x < b.size) (live : b.Live x) (differs : x ≠ e) :
    ∃ front', b'.Looks addr front' (if x = next then e else x) := by
  have distinct := looks.nodup kept within
  have onTheWay {q : Nat} (member : q ∈ front ++ [x]) : b.Live q := by
    rcases mem_append.mp member with early | last
    · exact looks.live q early
    · rwa [mem_singleton.mp last]
  have still {q : Nat} (alive : b.Live q) (notNext : q ≠ next) (away : q ≠ e) : b'.Live q :=
    succeeds.live_iff.mpr ⟨notNext, by rwa [if_neg away]⟩
  rcases Classical.em (e ∈ front) with passed | missed
  · obtain ⟨before, behind, rfl, once⟩ := eq_append_cons_of_mem passed
    obtain ⟨middle, start, rest⟩ := Chain.append_iff.mp looks.chain
    obtain ⟨rfl, tail⟩ := Chain.cons_iff.mp rest
    rw [link] at tail
    have apart {q : Nat} (early : q ∈ before) (late : q ∈ e :: behind ++ [x]) : False := by
      rw [append_assoc, nodup_append] at distinct
      exact distinct.2.2 q early q late rfl
    cases behind with
    | nil =>
      obtain rfl := Option.some.inj (Chain.nil_iff.mp tail)
      rw [if_pos rfl]
      refine ⟨before, ?_, fun q member => still (onTheWay (by simp [member])) ?_ ?_⟩
      · rw [succeeds.home, succeeds.links]
        exact start.update once
      · rintro rfl
        exact apart member (by simp)
      · rintro rfl
        exact once member
    | cons first behind =>
      obtain ⟨same, tail⟩ := Chain.cons_iff.mp tail
      cases same
      have later : (e :: next :: behind ++ [x]).Nodup := by
        rw [append_assoc, nodup_append] at distinct
        exact distinct.2.1
      simp only [cons_append, nodup_cons, mem_cons, mem_append,
        not_mem_nil, or_false, not_or] at later
      obtain ⟨⟨notNext, notBehind, -⟩, ⟨nextNotBehind, nextNotX⟩, -⟩ := later
      rw [if_neg (Ne.symm nextNotX)]
      refine ⟨before ++ e :: behind, ?_, fun q member => ?_⟩
      · rw [succeeds.home, succeeds.links]
        refine Chain.append_iff.mpr ⟨some e, start.update once, Chain.cons ?_⟩
        rw [update_self]
        exact tail.update notBehind
      · rcases mem_append.mp member with early | late
        · refine still (onTheWay (by simp [early])) ?_ ?_
          · rintro rfl
            exact apart early (by simp)
          · rintro rfl
            exact once early
        · rcases mem_cons.mp late with rfl | last
          · refine succeeds.live_iff.mpr ⟨notNext, ?_⟩
            rw [if_pos rfl]
            exact onTheWay (by simp)
          · refine still (onTheWay (by simp [last])) ?_ ?_
            · rintro rfl
              exact nextNotBehind last
            · rintro rfl
              exact notBehind last
  · have nextMissed : next ∉ front ++ [x] :=
      fun member => missed (well (onTheWay member) member)
    have nextNotX : x ≠ next := by
      rintro rfl
      simp at nextMissed
    rw [if_neg nextNotX]
    refine ⟨front, ?_, fun q member => still (looks.live q member) ?_ ?_⟩
    · rw [succeeds.home, succeeds.links]
      exact looks.chain.update missed
    · rintro rfl
      exact nextMissed (mem_append_left _ member)
    · rintro rfl
      exact missed member

theorem Succeeds.kept (kept : b.Kept e) (ages : (b.entry e).timeToLive = 1)
    (link : b.links e = some next) (other : next ≠ e) (within : e < b.size)
    (well : b.AgesWell e) (ends : b'.ChainsEnd) : b'.Kept (e + 1) := by
  have nextInside := kept.ends.link_lt within link
  have place {x : Nat} (inside : x < b.size) : (if x = e then next else x) < b.size := by
    split
    · exact nextInside
    · exact inside
  have count (x : Nat) : b'.scansAt (e + 1) x = b.scansAt e x + if x = e then 1 else 0 := by
    rw [← scansAt_succ, scansAt, scansAt, succeeds.scans]
  refine ⟨succeeds.size ▸ kept.sized, ends, ?_, ?_, ?_, ?_⟩
  · intro x inside live
    rw [succeeds.size] at inside
    obtain ⟨notNext, before⟩ := succeeds.live_iff.mp live
    obtain ⟨front, looks⟩ := kept.reached _ (place inside) before
    have differs : (if x = e then next else x) ≠ e := by
      split
      · exact other
      · assumption
    obtain ⟨front', looks'⟩ := succeeds.looks kept link
      (fun alive onTheWay => (well next ages link alive).2 _ (place inside) before front looks
        onTheWay) looks (place inside) before differs
    refine ⟨front', ?_⟩
    rw [succeeds.addr_eq]
    convert looks' using 1
    split
    · rw [if_pos rfl]
      assumption
    · rfl
  · intro x inside x' inside' live live' same
    rw [succeeds.size] at inside inside'
    obtain ⟨notNext, before⟩ := succeeds.live_iff.mp live
    obtain ⟨notNext', before'⟩ := succeeds.live_iff.mp live'
    rw [succeeds.addr_eq, succeeds.addr_eq] at same
    have equal := kept.distinct _ (place inside) _ (place inside') before before' same
    split at equal <;> split at equal
    · simp_all
    · exact absurd equal.symm notNext'
    · exact absurd equal notNext
    · exact equal
  · intro x inside live
    rw [succeeds.size] at inside
    obtain ⟨notNext, before⟩ := succeeds.live_iff.mp live
    obtain ⟨mac, sighting, words, seen, keeps, balance⟩ := kept.known _ (place inside) before
    rw [succeeds.addr_eq, succeeds.target, succeeds.timeToLive, if_neg notNext, count]
    rcases eq_or_ne x e with rfl | away
    · simp only [if_pos] at words keeps balance before ⊢
      refine ⟨mac, { sighting with place := x }, words, ?_, rfl, ?_⟩
      · rw [succeeds.seen, seen, map_some, if_pos ⟨words, keeps⟩]
      · have scanned := (well next ages link before).1
        rw [scansAt, if_pos scanned] at balance
        rw [scansAt, if_neg (Nat.lt_irrefl x)]
        omega
    · simp only [if_neg away] at words keeps balance before ⊢
      refine ⟨mac, sighting, words, ?_, keeps, by omega⟩
      rw [succeeds.seen, seen, map_some, if_neg]
      rintro ⟨-, moved⟩
      exact notNext (keeps.symm.trans moved)
  · intro mac sighting' seen'
    rw [succeeds.seen] at seen'
    obtain ⟨sighting, seen, rfl⟩ := map_eq_some_iff.mp seen'
    obtain ⟨inside, state⟩ := kept.gone mac sighting seen
    rw [succeeds.size, count, succeeds.live_iff, succeeds.addr_eq, succeeds.target]
    split
    · rename_i moved
      obtain ⟨words, keeps⟩ := moved
      simp only [if_pos]
      refine ⟨within, ?_⟩
      rw [keeps] at state
      rcases state with here | old
      · exact .inl ⟨⟨other.symm, here.1⟩, here.2⟩
      · right
        rw [scansAt] at old ⊢
        rw [if_neg (Nat.lt_irrefl e)]
        split at old <;> omega
    · rename_i unmoved
      refine ⟨inside, ?_⟩
      rcases state with here | old
      · rcases eq_or_ne sighting.place e with keeps | away
        · right
          obtain ⟨sighting', seen', -, balance⟩ := kept.owner inside here.1 here.2
          obtain rfl := Option.some.inj (seen.symm.trans seen')
          rw [keeps, ages] at balance
          rw [keeps, if_pos rfl]
          omega
        · left
          rw [if_neg away]
          refine ⟨⟨fun keeps => unmoved ⟨?_, keeps⟩, here.1⟩, here.2⟩
          rw [← here.2, keeps]
      · exact .inr (by omega)

end Succeeds

theorem Kept.age (kept : b.Kept e) (within : e < b.size) (well : b.AgesWell e) :
    (b.age e).Kept (e + 1) := by
  cases ages : (b.entry e).timeToLive with
  | zero =>
    have dead : ¬b.Live e := by simp [Live, ages]
    have same : b.age e = b := by rw [Bridge.age, ages]
    rw [same]
    refine ⟨kept.sized, kept.ends, kept.reached, kept.distinct, ?_, ?_⟩
    · intro x inside live
      rw [scansAt_succ, if_neg (by rintro rfl; exact dead live)]
      exact kept.known x inside live
    · intro mac sighting seen
      obtain ⟨inside, here | old⟩ := kept.gone mac sighting seen
      · exact ⟨inside, .inl here⟩
      · rw [scansAt_succ]
        exact ⟨inside, .inr (by omega)⟩
  | succ ttl =>
    cases ttl with
    | zero =>
      have pointer : ((b.setTimeToLive e 0).entry e).next = b.links e :=
        congrFun links_setTimeToLive e
      cases link : b.links e with
      | none =>
        have aged : b.age e = b.setTimeToLive e 0 := by
          rw [Bridge.age, ages]
          simp only [pointer, link]
        rw [aged]
        exact kept.older ages (fun _ => link) within
      | some next =>
        have other : next ≠ e := by
          rintro rfl
          obtain ⟨nodes, chain, -⟩ := kept.ends next within
          have around : Chain b.links (some next) [next] (some next) :=
            Chain.cons (Chain.nil_iff.mpr link)
          exact around.endless chain
        exact (age_succeeds ages link other).kept kept ages link other within well
          (kept.ends.age within).2
    | succ ttl =>
      have aged : b.age e = b.setTimeToLive e (ttl + 1) := by
        rw [Bridge.age, ages]
        rfl
      rw [aged]
      exact kept.older ages (fun none => absurd none (Nat.succ_ne_zero _)) within

theorem Kept.scan (count first : Nat) (kept : b.Kept first) (inside : first + count ≤ b.size)
    (well : ScansWell count b first) : (b.scan first count).Kept (first + count) := by
  induction count generalizing b first with
  | zero => exact kept
  | succ count ih =>
    obtain ⟨now, later⟩ := well
    have within : first < b.size := by omega
    have aged := kept.age within now
    have size := (kept.ends.age within).1
    have rest := ih (first + 1) aged (by omega) later
    rw [Nat.add_right_comm, Nat.add_assoc] at rest
    exact rest

theorem Kept.congr {position' : Nat} (kept : b.Kept position)
    (scans : ∀ x < b.size, b'.scansAt position' x = b.scansAt position x)
    (size : b'.size = b.size) (target : b'.target = b.target) (entry : b'.entry = b.entry)
    (seen : b'.history.seen = b.history.seen) : b'.Kept position' := by
  have live {x : Nat} : b'.Live x ↔ b.Live x := by rw [Live, Live, entry]
  have links : b'.links = b.links := by
    funext x
    rw [Bridge.links, Bridge.links, entry]
  have home {addr : MacWords} : b'.home addr = b.home addr := by
    rw [Bridge.home, Bridge.home, size, target]
  refine ⟨size ▸ kept.sized, kept.ends.congr size links, ?_, ?_, ?_, ?_⟩
  · intro x within alive
    obtain ⟨front, chain, passed⟩ := kept.reached x (size ▸ within) (live.mp alive)
    refine ⟨front, ?_, fun q member => live.mpr (passed q member)⟩
    rw [links, home, entry]
    exact chain
  · intro x within x' within' alive alive'
    rw [entry]
    exact kept.distinct x (size ▸ within) x' (size ▸ within') (live.mp alive) (live.mp alive')
  · intro x within alive
    rw [size] at within
    rw [entry, target, seen, scans x within]
    exact kept.known x within (live.mp alive)
  · intro mac sighting found
    rw [seen] at found
    obtain ⟨within, state⟩ := kept.gone mac sighting found
    rw [size, entry, target, scans _ within, live]
    exact ⟨within, state⟩

theorem robin_age : (b.age e).robin = b.robin := by
  rw [age]
  split
  · rfl
  · dsimp only
    split <;> rfl

theorem robin_scan (count first : Nat) : (b.scan first count).robin = b.robin := by
  induction count generalizing b first with
  | zero => rfl
  | succ count ih => exact (ih (first + 1)).trans robin_age

theorem Kept.timer (kept : b.Kept b.robin) (well : b.KeepsStep .timer) (ticks : b.timer = some b') :
    b'.Kept b'.robin := by
  have wrapped : b.wrap.Kept b.wrap.robin ∧ b.wrap.size = b.size ∧ b.wrap.step = b.step := by
    rw [wrap]
    split
    · rename_i full
      refine ⟨kept.congr (fun x within => ?_) rfl rfl rfl rfl, rfl, rfl⟩
      simp only [scansAt]
      split <;> split <;> omega
    · exact ⟨kept, rfl, rfl⟩
  obtain ⟨wrapped, size, step⟩ := wrapped
  rw [Bridge.timer] at ticks
  split at ticks
  · rename_i moves
    cases ticks
    simp only [KeepsStep] at well
    rw [← size, ← step] at well
    have placed : { b.wrap with
        robin := min (b.wrap.robin + b.wrap.step) b.wrap.size }.Kept b.wrap.robin :=
      wrapped.congr (fun _ _ => rfl) rfl rfl rfl rfl
    have scanned := placed.scan _ b.wrap.robin (by dsimp only; omega) well
    have count : b.wrap.robin + (min (b.wrap.robin + b.wrap.step) b.wrap.size - b.wrap.robin) =
        min (b.wrap.robin + b.wrap.step) b.wrap.size := by omega
    rw [count] at scanned
    rw [robin_scan]
    exact scanned
  · contradiction

/-- What `bridge_filter` does with a frame. -/
theorem Kept.filter {h : EthHdr} {passes : Bool} (kept : b.Kept b.robin) (fits : b.Fits h.src)
    (filters : (b.filter turns h).result = some (passes, b')) :
    b'.Kept b'.robin ∧ ∃ learned : Bridge,
      (passes = false ↔ h.dest.passesThrough = false ∧ learned.Stored h.dest) ∧
      (learned = b ∧ ¬b.Stored h.src ∨ ∃ e, b.Learns h.src e learned) := by
  rw [Bridge.filter, Traced.result_bind] at filters
  obtain ⟨learned, learns, rest⟩ := bind_eq_some_iff.mp filters
  have updates := kept.learn fits learns
  have kept' : learned.Kept learned.robin := by
    rcases updates with ⟨rfl, -⟩ | ⟨e, changes⟩
    · exact kept
    · exact changes.kept kept
  split at rest
  · rename_i through
    cases rest
    refine ⟨kept', _, ?_, updates⟩
    simp [through]
  · rename_i single
    rw [Traced.result_bind] at rest
    obtain ⟨⟨d, after⟩, searches, rest⟩ := bind_eq_some_iff.mp rest
    cases rest
    obtain ⟨kept'', found⟩ := kept'.search searches
    refine ⟨kept'', learned, ?_, updates⟩
    rw [Bool.not_eq_true] at single
    cases d with
    | none => simpa using fun _ => found.mp rfl
    | some e => simpa [single] using found

theorem Kept.step {event : BridgeEvent} (kept : b.Kept b.robin) (keeps : b.KeepsStep event)
    (step : b.Step event b') : b'.Kept b'.robin := by
  obtain ⟨turns, next⟩ := step
  cases event with
  | filter h =>
    obtain ⟨⟨passes, after⟩, filters, rfl⟩ := map_eq_some_iff.mp next
    exact (kept.filter keeps.1 filters).1
  | timer => exact kept.timer keeps next
  | clear =>
    cases next
    have dead {x : Nat} (within : x < b.size) : ¬b.clear.Live x := by
      simp [Live, clear, within]
    refine ⟨kept.sized, kept.ends.congr rfl ?_, fun x within live => absurd live (dead within),
      fun x within _ _ live => absurd live (dead within),
      fun x within live => absurd live (dead within), fun mac sighting seen => ?_⟩
    · funext x
      simp only [links, clear]
      split <;> rfl
    · contradiction

theorem Initial.kept (initial : b.Initial) : b.Kept b.robin := by
  obtain ⟨sized, ends⟩ := initial.chainsEnd
  obtain ⟨target, bits, msec, behind, rfl⟩ := initial
  have dead {x : Nat} (within : x < (init target (2 ^ bits) msec behind).size) :
      ¬(init target (2 ^ bits) msec behind).Live x := by
    simp only [Live, init] at within ⊢
    simp [within]
  exact ⟨sized, ends, fun x within live => absurd live (dead within),
    fun x within _ _ live => absurd live (dead within),
    fun x within live => absurd live (dead within), fun mac sighting seen => by contradiction⟩

/-- In a run that keeps step, the frames to a single station that are dropped are exactly those to
an address that was seen as a source within the last 29 scans; every such address is found, and none
is stored twice. -/
theorem keptRun_filters {start : Bridge} (initial : start.Initial)
    (run : RunIf KeepsStep start b) :
    (∀ h turns passes b', b.KeepsStep (.filter h) → h.dest.individual = true →
      (b.filter turns h).result = some (passes, b') → (passes = false ↔ b.Recent h.dest)) ∧
    (∀ mac turns d b', (b.findEntry turns mac false).result = some (d, b') →
      (d = none ↔ ¬b.Recent mac)) ∧
    b.Distinct := by
  have kept : b.Kept b.robin := by
    refine run_invariant (fun b : Bridge => b.Kept b.robin) ?_ initial.kept run
    rintro b b' kept ⟨event, keeps, step⟩
    exact kept.step keeps step
  refine ⟨fun h turns passes b' keeps individual filters => ?_, fun mac turns d b' searches => ?_,
    kept.distinct⟩
  · obtain ⟨fits, plain⟩ := keeps
    obtain ⟨through, own⟩ := plain individual
    obtain ⟨-, learned, dropped, updates⟩ := kept.filter fits filters
    simp only [kept.recent_iff] at through own ⊢
    rw [dropped]
    have same : learned.Stored h.dest ↔ b.Stored h.dest := by
      rcases updates with ⟨rfl, -⟩ | ⟨e, learns⟩
      · exact .rfl
      · rcases eq_or_ne h.dest h.src with self | other
        · rw [self]
          exact iff_of_true learns.stored_self (own self)
        · exact learns.stored_iff other
    rw [same]
    constructor
    · exact And.right
    · intro stored
      refine ⟨Bool.eq_false_iff.mpr fun multicast => through multicast stored, stored⟩
  · rw [kept.recent_iff]
    exact (kept.search searches).2

def station : Bridge :=
  ((four.filter 1 (broadcastFrom #v[2, 0, 0, 0, 0, 1])).result.map Prod.snd).getD four

theorem four_keepsStep {src : MacAddr} : four.KeepsStep (.filter (broadcastFrom src)) := by
  refine ⟨?_, fun individual => ?_⟩
  · rintro last slot turns ⟨front, chain, missed⟩
    obtain ⟨live, -⟩ := missed (four.home (src.words four.target)) chain.first_mem
    have within : four.home (src.words four.target) < 4 := @home_lt four _ (by decide)
    have empty : four.entry (four.home (src.words four.target)) = {} := if_pos within
    rw [Live, empty] at live
    contradiction
  · simp [broadcastFrom, MacAddr.individual] at individual

theorem station_filters :
    (∀ h turns passes b', station.KeepsStep (.filter h) → h.dest.individual = true →
      (station.filter turns h).result = some (passes, b') →
        (passes = false ↔ station.Recent h.dest)) ∧
    (∀ mac turns d b', (station.findEntry turns mac false).result = some (d, b') →
      (d = none ↔ ¬station.Recent mac)) ∧
    station.Distinct :=
  keptRun_filters four_initial
    (.single ⟨.filter (broadcastFrom #v[2, 0, 0, 0, 0, 1]), four_keepsStep, 1, by rfl⟩)

/-- A frame to a station that was just seen passes, since its address has the bit 0x80. -/
theorem multicastBit_passes :
    ¬∀ start b : Bridge, start.Initial → RunIf (fun _ _ => True) start b →
      ∀ h turns passes b', h.dest.individual = true →
        (b.filter turns h).result = some (passes, b') → (passes = false ↔ b.Recent h.dest) := by
  intro all
  have ends : ((four.filter 1 (broadcastFrom #v[0x82, 0, 0, 0, 0, 1])).result.map fun (_, b) =>
      (b.history.seen #v[0x82, 0, 0, 0, 0, 1], b.history.scans, b.robin,
        (b.filter 2 { dest := #v[0x82, 0, 0, 0, 0, 1], src := #v[2, 0, 0, 0, 0, 2] }).result.map
          Prod.fst)) =
      some (some { place := 2, scan := 0 }, 0, 0, some true) := by
    decide +kernel
  obtain ⟨⟨passes, b⟩, filters, facts⟩ := map_eq_some_iff.mp ends
  injection facts with seen facts
  injection facts with scans facts
  injection facts with robin again
  obtain ⟨⟨passes', b'⟩, filters', rfl⟩ := map_eq_some_iff.mp again
  have run : RunIf (fun _ _ => True) four b :=
    .single ⟨.filter _, trivial, 1, by rw [next, filters]; rfl⟩
  have dropped := all _ _ four_initial run _ _ _ _ (by decide) filters'
  have recent : b.Recent #v[0x82, 0, 0, 0, 0, 1] :=
    ⟨_, seen, by rw [scansOf, scansAt, scans, robin]; decide⟩
  exact Bool.noConfusion (dropped.mpr recent)

end Bridge
end Uos
