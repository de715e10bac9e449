import Uos.Library.Ageing
import Uos.Library.Maximum
import Uos.Net.State

/-!
# The ARP table

The functions of `net/arp.c` that keep the table of Ethernet addresses.  It is a map from IP
addresses that throws away the entry that was not used for the longest time.
-/

namespace Uos

open Option

/-- An Ethernet address, an `unsigned char [6]`. -/
abbrev EthAddr := Vector UChar 6

/-- `arp_entry_t` -/
structure ArpEntry where
  netif : Option NetifId
  ipaddr : IpAddr
  ethaddr : EthAddr
  age : UChar
  deriving DecidableEq

/-- `arp_t`.  `arp_init` counts one entry more than the space behind the record has room for. -/
structure Arp where
  timer : UChar
  table : List ArpEntry
  filled : 0 < table.length

namespace Arp

/-- The zeroed table after `arp_init`, with room for a number of entries behind the record. -/
def arpInit (more : Nat) : Arp where
  timer := 0
  table :=
    List.replicate (1 + more)
      { netif := none, ipaddr := .any, ethaddr := #v[0, 0, 0, 0, 0, 0], age := 0 }
  filled := by
    rw [List.length_replicate]
    omega

def modify (arp : Arp) (i : Nat) (change : ArpEntry → ArpEntry) : Arp :=
  { arp with
    table := arp.table.modify i change
    filled := by
      rw [List.length_modify]
      exact arp.filled }

/-- `arp_lookup` -/
def arpLookup (arp : Arp) (netif : NetifId) (ipaddr : IpAddr) : Option EthAddr × Arp :=
  match arp.table.findIdx? fun e => e.netif = some netif && e.ipaddr = ipaddr with
  | none => (none, arp)
  | some i => (arp.table[i]?.map (·.ethaddr), arp.modify i fun e => { e with age := 0 })

def oldest (arp : Arp) : Nat :=
  let first := arp.table.get ⟨0, arp.filled⟩
  (arp.table.zipIdx.foldl (fun e q => if e.1.age.toNat < q.1.age.toNat then q else e) (first, 0)).2

/-- `arp_add_entry` -/
def arpAddEntry (arp : Arp) (netif : NetifId) (ipaddr : IpAddr) (ethaddr : EthAddr) : Arp :=
  if ipaddr.b₀ = 0 then arp
  else
    match arp.table.findIdx? fun e => e.netif.isSome && e.ipaddr = ipaddr with
    | some i =>
      arp.modify i fun e =>
        let e :=
          if e.ethaddr ≠ ethaddr ∨ e.netif ≠ some netif then { e with ethaddr, netif } else e
        { e with age := 0 }
    | none =>
      let i :=
        match arp.table.findIdx? fun e => e.netif.isNone with
        | some i => i
        | none => arp.oldest
      arp.modify i fun _ => { netif, ipaddr, ethaddr, age := 0 }

def ageEntry (e : ArpEntry) : ArpEntry :=
  if e.netif.isNone then e
  else
    let e := { e with age := e.age + 1 }
    if 300 / 5 < e.age.toNat then { e with netif := none } else e

/-- `arp_timer` walks through the table when it is called the fiftieth time. -/
def round (arp : Arp) : Bool :=
  ¬arp.timer + 1 < 50

/-- `arp_timer` -/
def arpTimer (arp : Arp) : Arp :=
  if arp.round then
    { timer := 0
      table := arp.table.map ageEntry
      filled := by
        rw [List.length_map]
        exact arp.filled }
  else { arp with timer := arp.timer + 1 }

end Arp

/-- A call of one of the functions of the table. -/
inductive ArpCall
  | add (netif : NetifId) (ipaddr : IpAddr) (ethaddr : EthAddr)
  | lookup (netif : NetifId) (ipaddr : IpAddr)
  | timer
  deriving DecidableEq

namespace Arp

def call (arp : Arp) : ArpCall → Arp
  | .add netif ipaddr ethaddr => arp.arpAddEntry netif ipaddr ethaddr
  | .lookup netif ipaddr => (arp.arpLookup netif ipaddr).2
  | .timer => arp.arpTimer

def after (arp : Arp) : List ArpCall → Arp
  | [] => arp
  | call :: calls => (arp.after calls).call call

/-- At most one entry in use has a given IP address. -/
def Unique (arp : Arp) : Prop :=
  ∀ (i j : Nat) (e q : ArpEntry), arp.table[i]? = some e → arp.table[j]? = some q →
    e.netif.isSome → q.netif.isSome → e.ipaddr = q.ipaddr → i = j

/-- The entry of an IP address is overwritten with another one. -/
def Evicts (arp arp' : Arp) (ipaddr : IpAddr) : Prop :=
  ∃ (i : Nat) (e q : ArpEntry), arp.table[i]? = some e ∧ e.netif.isSome ∧ e.ipaddr = ipaddr ∧
    arp'.table[i]? = some q ∧ q.ipaddr ≠ ipaddr

/-- How the Ethernet address of an IP address is learned and forgotten. -/
def learning (start : Arp) (ipaddr : IpAddr) : Ageing ArpCall (NetifId × EthAddr) where
  learns
    | .add netif address ethaddr =>
      if address.b₀ ≠ 0 ∧ address = ipaddr then some (netif, ethaddr) else none
    | _ => none
  drops before call := Evicts (start.after before) (start.after (call :: before)) ipaddr
  uses value call := call = .lookup value.1 ipaddr
  round before call := call = .timer && (start.after before).round
  limit := 60

/-- An entry in use, with its age. -/
def Holds (arp : Arp) (ipaddr : IpAddr) (netif : NetifId) (ethaddr : EthAddr) (age : Nat) : Prop :=
  ∃ (i : Nat) (e : ArpEntry), arp.table[i]? = some e ∧ e.netif = some netif ∧
    e.ipaddr = ipaddr ∧ e.ethaddr = ethaddr ∧ e.age.toNat = age

section Functions

variable {arp : Arp} {netif : NetifId} {ipaddr : IpAddr} {ethaddr : EthAddr}

theorem modify_get (arp : Arp) (i j : Nat) (change : ArpEntry → ArpEntry) :
    (arp.modify i change).table[j]? =
      if i = j then arp.table[j]?.map change else arp.table[j]? := by
  rw [modify, List.getElem?_modify]
  split
  · rfl
  · exact map_id'

theorem exists_found {table : List ArpEntry} {search : ArpEntry → Bool} {i : Nat}
    (found : table.findIdx? search = some i) : ∃ e, table[i]? = some e ∧ search e = true := by
  obtain ⟨small, good, -⟩ := List.findIdx?_eq_some_iff_getElem.mp found
  exact ⟨table[i], List.getElem?_eq_getElem small, good⟩

theorem oldest_spec (arp : Arp) :
    ∃ e, arp.table[arp.oldest]? = some e ∧ ∀ q ∈ arp.table, q.age.toNat ≤ e.age.toNat := by
  set first := arp.table.get ⟨0, arp.filled⟩ with first_eq
  set best := arp.table.zipIdx.foldl
    (fun e q => if e.1.age.toNat < q.1.age.toNat then q else e) (first, 0) with best_eq
  have found := foldl_firstMaximum (fun e : ArpEntry × Nat => e.1.age.toNat) arp.table.zipIdx
    (first, 0)
  rw [← best_eq] at found
  have start : (first, 0) ∈ arp.table.zipIdx := by
    rw [List.mem_zipIdx_iff_getElem?, first_eq]
    exact List.getElem?_eq_getElem arp.filled
  have member : best ∈ arp.table.zipIdx := by
    rcases found.cases with same | inside
    · rw [same]
      exact start
    · exact inside
  refine ⟨best.1, List.mem_zipIdx_iff_getElem?.mp member, fun q inside => ?_⟩
  obtain ⟨i, small, rfl⟩ := List.getElem_of_mem inside
  have indexed : (arp.table[i], i) ∈ arp.table.zipIdx := by
    rw [List.mem_zipIdx_iff_getElem?]
    exact List.getElem?_eq_getElem small
  exact found.le indexed

/-- The entry that `arp_add_entry` writes. -/
theorem arpAddEntry_spec (valid : ipaddr.b₀ ≠ 0) :
    ∃ (i : Nat) (e : ArpEntry), arp.table[i]? = some e ∧
      (∀ j, (arp.arpAddEntry netif ipaddr ethaddr).table[j]? =
        if i = j then some { netif, ipaddr, ethaddr, age := 0 } else arp.table[j]?) ∧
      (e.netif.isSome ∧ e.ipaddr = ipaddr ∨
        (∀ q ∈ arp.table, q.netif.isSome → q.ipaddr ≠ ipaddr) ∧
          (e.netif = none ∨ ∀ q ∈ arp.table, q.netif.isSome ∧ q.age.toNat ≤ e.age.toNat)) := by
  have written (i : Nat) (e : ArpEntry) (here : arp.table[i]? = some e) (j : Nat) :
      (arp.modify i fun _ => { netif, ipaddr, ethaddr, age := 0 }).table[j]? =
        if i = j then some { netif, ipaddr, ethaddr, age := 0 } else arp.table[j]? := by
    rw [modify_get]
    split
    · rename_i same
      rw [← same, here]
      rfl
    · rfl
  rw [arpAddEntry, if_neg valid]
  cases known : arp.table.findIdx? fun e => e.netif.isSome && e.ipaddr = ipaddr with
  | some i =>
    obtain ⟨e, here, good⟩ := exists_found known
    simp only [Bool.and_eq_true, decide_eq_true_eq] at good
    refine ⟨i, e, here, fun j => ?_, .inl good⟩
    rw [← written i e here j]
    simp only [modify_get]
    split
    · rename_i same
      rw [← same, here, map_some, map_some, Option.some.injEq]
      obtain ⟨-, rfl⟩ := good
      split
      · rfl
      · rename_i unchanged
        rw [not_or, not_not, not_not] at unchanged
        obtain ⟨rfl, sameNetif⟩ := unchanged
        rw [← sameNetif]
    · rfl
  | none =>
    have unknown : ∀ q ∈ arp.table, q.netif.isSome → q.ipaddr ≠ ipaddr := by
      intro q member used same
      have absent := List.findIdx?_eq_none_iff.mp known q member
      simp [used, same] at absent
    cases free : arp.table.findIdx? fun e => e.netif.isNone with
    | some i =>
      obtain ⟨e, here, unused⟩ := exists_found free
      refine ⟨i, e, here, written i e here, .inr ⟨unknown, .inl ?_⟩⟩
      exact isNone_iff_eq_none.mp unused
    | none =>
      obtain ⟨e, here, eldest⟩ := arp.oldest_spec
      refine ⟨arp.oldest, e, here, written _ e here, .inr ⟨unknown, .inr fun q member => ?_⟩⟩
      have used := List.findIdx?_eq_none_iff.mp free q member
      rw [isNone_eq_false_iff] at used
      exact ⟨used, eldest q member⟩

theorem arpAddEntry_evicts {i : Nat} {e e' : ArpEntry} (here : arp.table[i]? = some e)
    (used : e.netif.isSome)
    (now : (arp.arpAddEntry netif ipaddr ethaddr).table[i]? = some e')
    (other : e'.ipaddr ≠ e.ipaddr) :
    ∀ q ∈ arp.table, q.netif.isSome ∧ q.age.toNat ≤ e.age.toNat := by
  rcases eq_or_ne ipaddr[0] 0 with invalid | valid
  · rw [arpAddEntry, if_pos invalid, here] at now
    exact absurd (congrArg ArpEntry.ipaddr (Option.some.inj now).symm) other
  · obtain ⟨j, q, there, result, reason⟩ := @arpAddEntry_spec arp netif ipaddr ethaddr valid
    rw [result i] at now
    split at now
    · rename_i same
      rw [same, here] at there
      cases there
      cases now
      rcases reason with ⟨-, known⟩ | ⟨-, free | eldest⟩
      · exact absurd known.symm other
      · rw [free] at used
        contradiction
      · exact eldest
    · rw [here] at now
      exact absurd (congrArg ArpEntry.ipaddr (Option.some.inj now).symm) other

/-- What `arp_lookup` finds. -/
theorem arpLookup_spec :
    ((∀ q ∈ arp.table, q.netif = some netif → q.ipaddr ≠ ipaddr) ∧
        arp.arpLookup netif ipaddr = (none, arp)) ∨
      ∃ (i : Nat) (e : ArpEntry), arp.table[i]? = some e ∧ e.netif = some netif ∧
        e.ipaddr = ipaddr ∧
        (arp.arpLookup netif ipaddr).1 = some e.ethaddr ∧
        ∀ j, (arp.arpLookup netif ipaddr).2.table[j]? =
          if i = j then some { e with age := 0 } else arp.table[j]? := by
  rw [arpLookup]
  cases search : arp.table.findIdx? fun e => e.netif = some netif && e.ipaddr = ipaddr with
  | none =>
    refine .inl ⟨fun q member sameNetif sameAddress => ?_, rfl⟩
    have absent := List.findIdx?_eq_none_iff.mp search q member
    simp [sameNetif, sameAddress] at absent
  | some i =>
    obtain ⟨e, here, good⟩ := exists_found search
    simp only [Bool.and_eq_true, decide_eq_true_eq] at good
    refine .inr ⟨i, e, here, good.1, good.2, congrArg (Option.map ArpEntry.ethaddr) here, ?_⟩
    intro j
    rw [modify_get]
    split
    · rename_i same
      rw [← same, here]
      rfl
    · rfl

theorem arpTimer_get (fires : arp.round = true) (j : Nat) :
    arp.arpTimer.table[j]? = arp.table[j]?.map ageEntry := by
  rw [arpTimer, if_pos fires, List.getElem?_map]

theorem arpTimer_still (still : arp.round = false) : arp.arpTimer.table = arp.table := by
  rw [arpTimer, still]
  rfl

theorem ageEntry_ipaddr (e : ArpEntry) : (ageEntry e).ipaddr = e.ipaddr := by
  rw [ageEntry]
  split
  · rfl
  · dsimp only
    split <;> rfl

theorem ageEntry_used {e : ArpEntry} (used : (ageEntry e).netif = some netif) :
    e.netif = some netif ∧ ¬60 < (e.age + 1).toNat ∧ ageEntry e = { e with age := e.age + 1 } := by
  rw [ageEntry] at used ⊢
  split at used
  · rename_i unused
    rw [used] at unused
    contradiction
  · rename_i inUse
    rw [if_neg inUse]
    dsimp only at used ⊢
    split at used
    · contradiction
    · rename_i young
      exact ⟨used, young, if_neg young⟩

end Functions

section Invariants

variable {arp arp' : Arp} {netif : NetifId} {ipaddr : IpAddr} {ethaddr : EthAddr}

theorem Unique.mono (unique : arp.Unique)
    (kept : ∀ (j : Nat) (q : ArpEntry), arp'.table[j]? = some q → q.netif.isSome →
      ∃ e, arp.table[j]? = some e ∧ e.netif.isSome ∧ e.ipaddr = q.ipaddr) : arp'.Unique := by
  intro i j e q here there used used' same
  obtain ⟨e', before, inUse, address⟩ := kept i e here used
  obtain ⟨q', before', inUse', address'⟩ := kept j q there used'
  exact unique i j e' q' before before' inUse inUse' (address.trans (same.trans address'.symm))

theorem unique_add (unique : arp.Unique) : (arp.arpAddEntry netif ipaddr ethaddr).Unique := by
  rcases eq_or_ne ipaddr[0] 0 with invalid | valid
  · rw [arpAddEntry, if_pos invalid]
    exact unique
  · obtain ⟨k, old, here, result, reason⟩ := @arpAddEntry_spec arp netif ipaddr ethaddr valid
    have alone : ∀ (j : Nat) (q : ArpEntry), arp.table[j]? = some q → q.netif.isSome →
        q.ipaddr = ipaddr → k = j := by
      intro j q there used same
      rcases reason with ⟨inUse, address⟩ | ⟨unknown, -⟩
      · exact unique k j old q here there inUse used (address.trans same.symm)
      · exact absurd same (unknown q (List.mem_of_getElem? there) used)
    intro i j e q now now' used used' same
    rw [result] at now now'
    split at now
    · rename_i first
      cases now
      split at now'
      · rename_i second
        exact first.symm.trans second
      · exact first.symm.trans (alone j q now' used' same.symm)
    · split at now'
      · rename_i second
        cases now'
        exact (second.symm.trans (alone i e now used same)).symm
      · exact unique i j e q now now' used used' same

theorem unique_lookup (unique : arp.Unique) : (arp.arpLookup netif ipaddr).2.Unique := by
  rcases @arpLookup_spec arp netif ipaddr with ⟨-, same⟩ | ⟨i, e, here, used, -, -, result⟩
  · rw [same]
    exact unique
  · apply unique.mono
    intro j q now inUse
    rw [result] at now
    split at now
    · rename_i same
      cases now
      exact ⟨e, same ▸ here, inUse, rfl⟩
    · exact ⟨q, now, inUse, rfl⟩

theorem unique_timer (unique : arp.Unique) : arp.arpTimer.Unique := by
  cases fires : arp.round with
  | false =>
    apply unique.mono
    intro j q now inUse
    rw [arpTimer_still fires] at now
    exact ⟨q, now, inUse, rfl⟩
  | true =>
    apply unique.mono
    intro j q now inUse
    rw [arpTimer_get fires, map_eq_some_iff] at now
    obtain ⟨e, here, rfl⟩ := now
    obtain ⟨netif, used⟩ := isSome_iff_exists.mp inUse
    obtain ⟨before, -, -⟩ := ageEntry_used used
    exact ⟨e, here, by rw [before]; rfl, (ageEntry_ipaddr e).symm⟩

theorem unique_init (more : Nat) : (arpInit more).Unique := by
  intro i j e q here _ used
  have free := List.eq_of_mem_replicate (List.mem_of_getElem? here)
  rw [free] at used
  contradiction

theorem unique_after (unique : arp.Unique) (calls : List ArpCall) : (arp.after calls).Unique := by
  induction calls with
  | nil => exact unique
  | cons call calls ih =>
    cases call with
    | add netif ipaddr ethaddr => exact unique_add ih
    | lookup netif ipaddr => exact unique_lookup ih
    | timer => exact unique_timer ih

end Invariants

section Contents

variable {arp : Arp} {netif netif' : NetifId} {ipaddr other : IpAddr} {ethaddr ethaddr' : EthAddr}
  {age : Nat}

/-- `arp_lookup` finds what the table holds. -/
theorem arpLookup_iff (unique : arp.Unique) :
    (arp.arpLookup netif ipaddr).1 = some ethaddr ↔ ∃ age, arp.Holds ipaddr netif ethaddr age := by
  rcases @arpLookup_spec arp netif ipaddr with ⟨none, same⟩ | ⟨i, e, here, used, address, found, -⟩
  · rw [same]
    refine iff_of_false (by simp) ?_
    rintro ⟨age, i, e, here, used, address, -⟩
    exact none e (List.mem_of_getElem? here) used address
  · rw [found, Option.some.injEq]
    constructor
    · rintro rfl
      exact ⟨_, i, e, here, used, address, rfl, rfl⟩
    · rintro ⟨age, j, q, there, used', address', eth, -⟩
      have same := unique i j e q here there (by rw [used]; rfl) (by rw [used']; rfl)
        (address.trans address'.symm)
      rw [← same, here] at there
      rw [Option.some.inj there]
      exact eth

theorem holds_add (valid : ipaddr.b₀ ≠ 0) (unique : arp.Unique) :
    (arp.arpAddEntry netif ipaddr ethaddr).Holds ipaddr netif' ethaddr' age ↔
      netif' = netif ∧ ethaddr' = ethaddr ∧ age = 0 := by
  obtain ⟨i, old, here, result, -⟩ := @arpAddEntry_spec arp netif ipaddr ethaddr valid
  have now := result i
  rw [if_pos rfl] at now
  constructor
  · rintro ⟨j, q, there, used, address, eth, aged⟩
    have same := (@unique_add arp netif ipaddr ethaddr unique) i j _ q now there rfl
      (by rw [used]; rfl) address.symm
    rw [← same, now] at there
    cases there
    exact ⟨(Option.some.inj used).symm, eth.symm, aged.symm⟩
  · rintro ⟨rfl, rfl, rfl⟩
    exact ⟨i, _, now, rfl, rfl, rfl, rfl⟩

theorem holds_add_other (unique : arp.Unique) (apart : ¬(other.b₀ ≠ 0 ∧ other = ipaddr)) :
    (arp.arpAddEntry netif' other ethaddr').Holds ipaddr netif ethaddr age ↔
      arp.Holds ipaddr netif ethaddr age ∧
        ¬Evicts arp (arp.arpAddEntry netif' other ethaddr') ipaddr := by
  rcases eq_or_ne other[0] 0 with invalid | valid
  · rw [arpAddEntry, if_pos invalid]
    refine ⟨fun holds => ⟨holds, ?_⟩, And.left⟩
    rintro ⟨i, e, q, here, -, address, now, changed⟩
    rw [here] at now
    exact changed (Option.some.inj now ▸ address)
  · have apart : other ≠ ipaddr := fun same => apart ⟨valid, same⟩
    obtain ⟨k, old, before, result, -⟩ := @arpAddEntry_spec arp netif' other ethaddr' valid
    constructor
    · rintro ⟨i, e, now, used, address, eth, aged⟩
      have now' := now
      rw [result] at now'
      split at now'
      · cases now'
        exact absurd address apart
      · refine ⟨⟨i, e, now', used, address, eth, aged⟩, ?_⟩
        rintro ⟨j, q, q', there, inUse, address', later, changed⟩
        have same := unique i j e q now' there (by rw [used]; rfl) inUse
          (address.trans address'.symm)
        rw [← same, now] at later
        exact changed (Option.some.inj later ▸ address)
    · rintro ⟨⟨i, e, here, used, address, eth, aged⟩, kept⟩
      refine ⟨i, e, ?_, used, address, eth, aged⟩
      have now := result i
      split at now
      · exact absurd ⟨i, e, _, here, by rw [used]; rfl, address, now, apart⟩ kept
      · rw [now]
        exact here

theorem holds_lookup (unique : arp.Unique) :
    (arp.arpLookup netif ipaddr).2.Holds ipaddr netif ethaddr age ↔
      age = 0 ∧ ∃ before, arp.Holds ipaddr netif ethaddr before := by
  rcases @arpLookup_spec arp netif ipaddr with ⟨none, same⟩ | ⟨i, e, here, used, address, -, result⟩
  · rw [same]
    refine iff_of_false ?_ ?_
    · rintro ⟨i, e, here, used, address, -⟩
      exact none e (List.mem_of_getElem? here) used address
    · rintro ⟨-, age, i, e, here, used, address, -⟩
      exact none e (List.mem_of_getElem? here) used address
  · have only (j : Nat) (q : ArpEntry) (there : arp.table[j]? = some q)
        (used' : q.netif = some netif) (address' : q.ipaddr = ipaddr) : i = j :=
      unique i j e q here there (by rw [used]; rfl) (by rw [used']; rfl)
        (address.trans address'.symm)
    constructor
    · rintro ⟨j, q, now, used', address', eth, aged⟩
      rw [result] at now
      split at now
      · cases now
        exact ⟨aged.symm, _, i, e, here, used, address, eth, rfl⟩
      · rename_i apart
        exact absurd (only j q now used' address') apart
    · rintro ⟨rfl, before, j, q, there, used', address', eth, -⟩
      obtain rfl := only j q there used' address'
      rw [here] at there
      cases there
      refine ⟨i, { e with age := 0 }, ?_, used, address, eth, rfl⟩
      rw [result, if_pos rfl]

theorem holds_lookup_other (apart : ¬(netif' = netif ∧ other = ipaddr)) :
    (arp.arpLookup netif' other).2.Holds ipaddr netif ethaddr age ↔
      arp.Holds ipaddr netif ethaddr age := by
  rcases @arpLookup_spec arp netif' other with ⟨-, same⟩ | ⟨i, e, here, used, address, -, result⟩
  · rw [same]
  · constructor
    · rintro ⟨j, q, now, used', address', eth, aged⟩
      rw [result] at now
      split at now
      · cases now
        exact absurd ⟨Option.some.inj (used.symm.trans used'), address.symm.trans address'⟩ apart
      · exact ⟨j, q, now, used', address', eth, aged⟩
    · rintro ⟨j, q, there, used', address', eth, aged⟩
      refine ⟨j, q, ?_, used', address', eth, aged⟩
      rw [result]
      split
      · rename_i same
        rw [← same, here] at there
        cases there
        exact absurd ⟨Option.some.inj (used.symm.trans used'), address.symm.trans address'⟩ apart
      · exact there

theorem holds_round (fires : arp.round = true)
    (young : ∀ age, arp.Holds ipaddr netif ethaddr age → age ≤ 60) :
    arp.arpTimer.Holds ipaddr netif ethaddr age ↔
      ∃ before, age = before + 1 ∧ before < 60 ∧ arp.Holds ipaddr netif ethaddr before := by
  have next (e : ArpEntry) (small : e.age.toNat ≤ 60) :
      (e.age + 1).toNat = e.age.toNat + 1 := by
    rw [BitVec.toNat_add]
    change (e.age.toNat + 1) % 256 = _
    omega
  constructor
  · rintro ⟨i, q, now, used, address, eth, aged⟩
    rw [arpTimer_get fires, map_eq_some_iff] at now
    obtain ⟨e, here, rfl⟩ := now
    obtain ⟨inUse, small, equal⟩ := ageEntry_used used
    rw [equal] at address eth aged
    have held : arp.Holds ipaddr netif ethaddr e.age.toNat :=
      ⟨i, e, here, inUse, address, eth, rfl⟩
    have same := next e (young _ held)
    have aged : (e.age + 1).toNat = age := aged
    exact ⟨e.age.toNat, by omega, by omega, held⟩
  · rintro ⟨before, rfl, small, i, e, here, used, address, eth, rfl⟩
    have same := next e small.le
    have stays : ageEntry e = { e with age := e.age + 1 } := by
      rw [ageEntry, if_neg (by rw [used]; simp)]
      exact if_neg (by dsimp only; omega)
    refine ⟨i, ageEntry e, ?_, ?_, ?_, ?_, ?_⟩
    · rw [arpTimer_get fires, here]
      rfl
    · rw [stays]
      exact used
    · rw [stays]
      exact address
    · rw [stays]
      exact eth
    · rw [stays]
      exact same

theorem holds_still (still : arp.round = false) :
    arp.arpTimer.Holds ipaddr netif ethaddr age ↔ arp.Holds ipaddr netif ethaddr age := by
  rw [Holds, arpTimer_still still, Holds]

end Contents

section Histories

variable {start arp : Arp} {netif : NetifId} {ipaddr : IpAddr} {ethaddr : EthAddr} {age : Nat}

theorem not_evicts_lookup {other : IpAddr} : ¬Evicts arp (arp.arpLookup netif other).2 ipaddr := by
  rintro ⟨j, e, q, there, -, address, now, changed⟩
  rcases @arpLookup_spec arp netif other with ⟨-, same⟩ | ⟨i, e', here, -, -, -, result⟩
  · rw [same, there] at now
    exact changed (Option.some.inj now ▸ address)
  · rw [result] at now
    split at now
    · rename_i same
      rw [← same, here] at there
      cases there
      cases now
      exact changed address
    · rw [there] at now
      exact changed (Option.some.inj now ▸ address)

theorem not_evicts_timer : ¬Evicts arp arp.arpTimer ipaddr := by
  rintro ⟨j, e, q, there, -, address, now, changed⟩
  cases fires : arp.round with
  | false =>
    rw [arpTimer_still fires, there] at now
    exact changed (Option.some.inj now ▸ address)
  | true =>
    rw [arpTimer_get fires, there] at now
    cases now
    exact changed ((ageEntry_ipaddr e).trans address)

theorem keeps_iff_holds (unique : start.Unique)
    (empty : ∀ netif ethaddr age, ¬start.Holds ipaddr netif ethaddr age) (calls : List ArpCall) :
    (learning start ipaddr).Keeps calls (netif, ethaddr) age ↔
      (start.after calls).Holds ipaddr netif ethaddr age := by
  induction calls generalizing netif ethaddr age with
  | nil =>
    refine iff_of_false (fun keeps => ?_) (empty netif ethaddr age)
    cases keeps
  | cons call calls ih =>
    have before := unique_after unique calls
    cases call with
    | add netif' other ethaddr' =>
      have idle : ¬(learning start ipaddr).uses (netif, ethaddr) (.add netif' other ethaddr') :=
        fun same => by cases same
      change _ ↔ ((start.after calls).arpAddEntry netif' other ethaddr').Holds ipaddr netif
        ethaddr age
      rcases Classical.em (other[0] ≠ 0 ∧ other = ipaddr) with learned | apart
      · obtain ⟨valid, rfl⟩ := learned
        rw [holds_add valid before]
        have now : (learning start other).learns (.add netif' other ethaddr') =
            some (netif', ethaddr') := if_pos ⟨valid, rfl⟩
        rw [Ageing.keeps_learn now, Prod.mk.injEq, and_assoc]
      · have later : (learning start ipaddr).learns (.add netif' other ethaddr') = none :=
          if_neg apart
        rw [holds_add_other before apart, Ageing.keeps_rest later idle rfl, ih]
        rfl
    | lookup netif' other =>
      have kept : ¬(learning start ipaddr).drops calls (.lookup netif' other) :=
        not_evicts_lookup
      change _ ↔ ((start.after calls).arpLookup netif' other).2.Holds ipaddr netif ethaddr age
      rcases Classical.em (netif' = netif ∧ other = ipaddr) with used | apart
      · obtain ⟨rfl, rfl⟩ := used
        rw [holds_lookup before, Ageing.keeps_use rfl rfl, and_iff_left kept]
        simp only [ih]
      · have idle : ¬(learning start ipaddr).uses (netif, ethaddr) (.lookup netif' other) := by
          intro same
          cases same
          exact apart ⟨rfl, rfl⟩
        rw [holds_lookup_other apart, Ageing.keeps_rest rfl idle rfl, and_iff_left kept, ih]
    | timer =>
      have kept : ¬(learning start ipaddr).drops calls .timer := not_evicts_timer
      have idle : ¬(learning start ipaddr).uses (netif, ethaddr) .timer := fun same => by
        cases same
      change _ ↔ (start.after calls).arpTimer.Holds ipaddr netif ethaddr age
      cases fires : (start.after calls).round with
      | true =>
        have ages : (learning start ipaddr).round calls .timer = true := fires
        have young (age : Nat) (holds : (start.after calls).Holds ipaddr netif ethaddr age) :
            age ≤ 60 := (ih.mpr holds).le_limit
        rw [holds_round fires young, Ageing.keeps_round rfl idle ages, and_iff_left kept]
        simp only [ih]
        rfl
      | false =>
        have still : (learning start ipaddr).round calls .timer = false := fires
        rw [holds_still fires, Ageing.keeps_rest rfl idle still, and_iff_left kept, ih]

/-- `arp_add_entry` throws an entry away only when none is free, and then one of maximal age. -/
def EvictsOldest (arp : Arp) : Prop :=
  ∀ netif ipaddr ethaddr address, Evicts arp (arp.arpAddEntry netif ipaddr ethaddr) address →
    ∃ (i : Nat) (e : ArpEntry), arp.table[i]? = some e ∧ e.ipaddr = address ∧
      ∀ q ∈ arp.table, q.netif.isSome ∧ q.age.toNat ≤ e.age.toNat

end Histories

end Arp
end Uos
