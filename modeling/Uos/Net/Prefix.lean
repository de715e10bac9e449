import Mathlib.Tactic.IntervalCases
import Uos.Net.NextHop

/-!
# The longest prefix

In a table that was built by `route_add_netif` and `route_add_gateway`, the ladder of `route_match`
compares the first bits of two addresses, and the lookups choose the longest prefix.
-/

namespace Uos

open BitVec

/-- The first bits of two addresses are the same. -/
def IpAddr.SharesPrefix (bits : Nat) (a b : IpAddr) : Prop :=
  ∀ i < bits, a.toHost.getMsbD i = b.toHost.getMsbD i

theorem toHost_bit (a : IpAddr) {k i : Nat} (octet : k < 4) (bit : i < 8) :
    a.toHost.getMsbD (8 * k + i) = (a[k]).getMsbD i := by
  rw [IpAddr.toHost]
  interval_cases k <;> simp only [getMsbD_append] <;> split_ifs <;>
    first | omega | (congr 1; omega)

theorem ofHost_octet (value : ULong) {k : Nat} (octet : k < 4) :
    (IpAddr.ofHost value)[k] = value.extractLsb' (24 - 8 * k) 8 := by
  interval_cases k <;> rfl

theorem toHost_ofHost (value : ULong) : (IpAddr.ofHost value).toHost = value := by
  apply eq_of_getMsbD_eq
  intro i small
  obtain ⟨k, j, octet, bit, rfl⟩ : ∃ k j, k < 4 ∧ j < 8 ∧ i = 8 * k + j :=
    ⟨i / 8, i % 8, by omega, Nat.mod_lt i (by decide), (Nat.div_add_mod i 8).symm⟩
  rw [toHost_bit _ octet bit, ofHost_octet value octet, getMsbD_extractLsb',
    decide_eq_true bit, decide_eq_true (by omega), Bool.true_and, Bool.true_and]
  congr 1
  omega

theorem octet_eq_iff {a b : UChar} : a = b ↔ ∀ i < 8, a.getMsbD i = b.getMsbD i := by
  constructor
  · rintro rfl i _
    rfl
  · intro same
    apply eq_of_getMsbD_eq
    exact same

theorem octetMask_bit {bits i : Nat} (part : bits < 8) (bit : i < 8) :
    (octetMask bits).getMsbD i = decide (i < bits) := by
  have all : ∀ bits < 8, ∀ i < 8, (octetMask bits).getMsbD i = decide (i < bits) := by decide
  exact all bits part i bit

namespace Route

/-- The bits of the network address behind the mask are zero, and the others those of the
address. -/
def Masked (r : Route) : Prop :=
  r.masklen.toNat < 32 → ∀ i < 32,
    r.netaddr.toHost.getMsbD i = (decide (i < r.masklen.toNat) && r.ipaddr.toHost.getMsbD i)

variable {r : Route} {a : IpAddr}

variable {k : Nat}

theorem octet_iff (octet : k < 4) :
    a[k] = r.ipaddr[k] ↔
      ∀ i, 8 * k ≤ i → i < 8 * k + 8 → a.toHost.getMsbD i = r.ipaddr.toHost.getMsbD i := by
  rw [octet_eq_iff]
  constructor
  · intro same i above below
    obtain ⟨j, rfl⟩ := Nat.exists_eq_add_of_le above
    have bit : j < 8 := by omega
    rw [toHost_bit a octet bit, toHost_bit r.ipaddr octet bit]
    exact same j bit
  · intro same i bit
    have equal := same (8 * k + i) (by omega) (by omega)
    rwa [toHost_bit a octet bit, toHost_bit r.ipaddr octet bit] at equal

theorem part_iff (masked : r.Masked) (octet : k < 4) (part : r.masklen.toNat - 8 * k < 8)
    (within : 8 * k ≤ r.masklen.toNat) :
    a[k] &&& octetMask (r.masklen.toNat - 8 * k) = r.netaddr[k] ↔
      ∀ i, 8 * k ≤ i → i < r.masklen.toNat →
        a.toHost.getMsbD i = r.ipaddr.toHost.getMsbD i := by
  have low : r.masklen.toNat < 32 := by omega
  rw [octet_eq_iff]
  constructor
  · intro same i above below
    obtain ⟨j, rfl⟩ := Nat.exists_eq_add_of_le above
    have bit : j < 8 := by omega
    have equal := same j bit
    rwa [getMsbD_and, octetMask_bit part bit, decide_eq_true (by omega), Bool.and_true,
      ← toHost_bit a octet bit, ← toHost_bit r.netaddr octet bit, masked low _ (by omega),
      decide_eq_true below, Bool.true_and] at equal
  · intro same i bit
    rw [getMsbD_and, octetMask_bit part bit, ← toHost_bit a octet bit,
      ← toHost_bit r.netaddr octet bit, masked low _ (by omega)]
    rcases Nat.lt_or_ge (8 * k + i) r.masklen.toNat with below | behind
    · rw [same _ (Nat.le_add_right _ _) below, decide_eq_true below, decide_eq_true (by omega),
        Bool.and_true, Bool.true_and]
    · rw [decide_eq_false (not_lt.mpr behind), decide_eq_false (by omega), Bool.and_false,
        Bool.false_and]

theorem octet_behind (octet : k < 4)
    (before : ∀ i < 8 * k, a.toHost.getMsbD i = r.ipaddr.toHost.getMsbD i) :
    a[k] = r.ipaddr[k] ↔
      ∀ i < 8 * (k + 1), a.toHost.getMsbD i = r.ipaddr.toHost.getMsbD i := by
  rw [octet_iff octet]
  constructor
  · intro same i small
    rcases Nat.lt_or_ge i (8 * k) with earlier | here
    · exact before i earlier
    · exact same i here (by omega)
  · intro same i _ below
    exact same i (by omega)

theorem part_behind (masked : r.Masked) (octet : k < 4)
    (before : ∀ i < 8 * k, a.toHost.getMsbD i = r.ipaddr.toHost.getMsbD i)
    (part : r.masklen.toNat - 8 * k < 8) (within : 8 * k ≤ r.masklen.toNat) :
    decide (a[k] &&& octetMask (r.masklen.toNat - 8 * k) = r.netaddr[k]) = true ↔
      a.SharesPrefix r.masklen.toNat r.ipaddr := by
  rw [decide_eq_true_iff, part_iff masked octet part within]
  constructor
  · intro same i small
    rcases Nat.lt_or_ge i (8 * k) with earlier | here
    · exact before i earlier
    · exact same i here small
  · intro share i _ small
    exact share i small

theorem rung_iff (masked : r.Masked) (octet : k < 4)
    (before : ∀ i < 8 * k, a.toHost.getMsbD i = r.ipaddr.toHost.getMsbD i)
    (within : 8 * k ≤ r.masklen.toNat) {next : Bool} (later : 8 * (k + 1) ≤ r.masklen.toNat →
      (∀ i < 8 * (k + 1), a.toHost.getMsbD i = r.ipaddr.toHost.getMsbD i) →
        (next = true ↔ a.SharesPrefix r.masklen.toNat r.ipaddr)) :
    (if r.masklen.toNat = 8 * k then true
      else if r.masklen.toNat < 8 * (k + 1) then
        decide (a[k] &&& octetMask (r.masklen.toNat - 8 * k) = r.netaddr[k])
      else if a[k] ≠ r.ipaddr[k] then false
      else next) = true ↔ a.SharesPrefix r.masklen.toNat r.ipaddr := by
  split_ifs with ends inside differs
  · exact iff_of_true rfl fun i small => before i (by omega)
  · exact part_behind masked octet before (by omega) within
  · refine iff_of_false not_false fun share => differs ?_
    exact (octet_behind octet before).mpr fun i small => share i (by omega)
  · exact later (by omega) ((octet_behind octet before).mp (not_not.mp differs))

theorem routeMatch_iff (masked : r.Masked) (bound : r.masklen.toNat ≤ 32) :
    r.routeMatch a = true ↔ a.SharesPrefix r.masklen.toNat r.ipaddr := by
  have last : 8 * 3 ≤ r.masklen.toNat →
      (∀ i < 8 * 3, a.toHost.getMsbD i = r.ipaddr.toHost.getMsbD i) →
        ((if r.masklen.toNat = 8 * 3 then true
          else if r.masklen.toNat < 8 * (3 + 1) then
            decide (a[3] &&& octetMask (r.masklen.toNat - 8 * 3) = r.netaddr[3])
          else decide (a[3] = r.ipaddr[3])) = true ↔
            a.SharesPrefix r.masklen.toNat r.ipaddr) := by
    intro within before
    split_ifs with ends inside
    · exact iff_of_true rfl fun i small => before i (by omega)
    · exact part_behind masked (by decide) before (by omega) within
    · have all : r.masklen.toNat = 8 * (3 + 1) := by omega
      rw [decide_eq_true_iff, octet_behind (by decide) before, all]
      exact Iff.rfl
  exact rung_iff masked (k := 0) (by decide) (fun i small => absurd small (Nat.not_lt_zero i))
    (Nat.zero_le _) fun within before =>
      rung_iff masked (k := 1) (by decide) before within fun within before =>
        rung_iff masked (k := 2) (by decide) before within last

end Route

theorem mask_bit {masklen i : Nat} (bit : i < 32) :
    ((0xffffffff : ULong) >>> masklen).getMsbD i = decide (masklen ≤ i) := by
  have ones : (0xffffffff : ULong) = BitVec.allOnes 32 := by decide
  rw [ones, getMsbD_ushiftRight, getMsbD_allOnes, decide_eq_true bit, Bool.true_and]
  rcases Nat.lt_or_ge i masklen with before | behind
  · rw [decide_eq_true before, decide_eq_false (not_le.mpr before)]
    rfl
  · rw [decide_eq_false (not_lt.mpr behind), decide_eq_true (by omega), decide_eq_true behind]
    rfl

/-- A call that adds a record to the routing table. -/
inductive RouteAdd
  | netif (ipaddr : IpAddr) (masklen : UChar) (netif : NetifId)
  | gateway (ipaddr : IpAddr) (masklen : UChar) (gateway : IpAddr)

namespace RouteAdd

def masklen : RouteAdd → UChar
  | netif _ masklen _ => masklen
  | gateway _ masklen _ => masklen

/-- The call; a new record becomes the first one of the table. -/
def run (ip : Ip) : RouteAdd → Ip
  | netif ipaddr masklen id => ip.routeAddNetif ipaddr masklen (some id)
  | gateway ipaddr masklen hop => ip.routeAddGateway ipaddr masklen hop

end RouteAdd

/-- What every record of a table that was built by calls promises. -/
structure Route.Sound (r : Route) : Prop where
  masked : r.Masked
  bound : r.masklen.toNat ≤ 32
  interface : r.netif.isSome = true

def Route.prefixes (a : IpAddr) (r : Route) : Bool :=
  decide (∀ i < r.masklen.toNat, a.toHost.getMsbD i = r.ipaddr.toHost.getMsbD i)

theorem Route.Sound.routeMatch {r : Route} (sound : r.Sound) (a : IpAddr) :
    r.routeMatch a = r.prefixes a := by
  rw [Bool.eq_iff_iff, routeMatch_iff sound.masked sound.bound, prefixes, decide_eq_true_iff]
  exact Iff.rfl

theorem longestMask_congr {kind kind' : Route → Bool} {routes : List Route}
    (same : ∀ r ∈ routes, kind r = kind' r) :
    longestMask kind routes = longestMask kind' routes := by
  rw [longestMask, longestMask]
  generalize (none : Option Route) = best
  induction routes generalizing best with
  | nil => rfl
  | cons r routes ih =>
    rw [List.foldl_cons, List.foldl_cons, same r List.mem_cons_self]
    exact ih (fun other member => same other (List.mem_cons_of_mem _ member)) _

theorem longestMask_none_iff {kind : Route → Bool} {routes : List Route} :
    longestMask kind routes = none ↔ ∀ r ∈ routes, kind r = false := by
  obtain ⟨missing, found⟩ := longestMask_spec kind routes
  constructor
  · exact missing
  · intro no
    cases chosen : longestMask kind routes with
    | none => rfl
    | some best =>
      obtain ⟨before, after, rfl, eligible, -⟩ := found best chosen
      rw [no best (by simp)] at eligible
      contradiction

namespace Ip

variable {ip : Ip} {a : IpAddr}

theorem routeSetup_masked (ipaddr : IpAddr) (masklen : UChar) (gateway : Option IpAddr)
    (netif : Option NetifId) :
    ({ ip.routeSetup ipaddr masklen gateway with netif } : Route).Masked := by
  intro low i bit
  change masklen.toNat < 32 at low
  change (IpAddr.toHost (.ofHost _)).getMsbD i = (decide (i < masklen.toNat) && _)
  rw [toHost_ofHost, if_pos low, getMsbD_xor, getMsbD_or, mask_bit bit]
  rcases Nat.lt_or_ge i masklen.toNat with before | behind
  · rw [decide_eq_true before, decide_eq_false (by omega), Bool.false_or, Bool.false_xor,
      Bool.true_and]
    rfl
  · rw [decide_eq_true behind, decide_eq_false (not_lt.mpr behind), Bool.true_or, Bool.xor_self,
      Bool.false_and]

theorem routeLookup_none_iff :
    ip.routeLookup a = none ↔ ∀ r ∈ ip.route, Route.serves a r = false := by
  rw [← longestMask_none_iff]
  constructor
  · intro missing
    cases chosen : longestMask (Route.serves a) ip.route with
    | none => rfl
    | some best =>
      obtain ⟨netif, own, found⟩ := routeLookup_isSome ((longestMask_spec _ _).2 best chosen)
      rw [found] at missing
      contradiction
  · intro missing
    change (longestMask (Route.serves a) ip.route).bind _ = none
    rw [missing]
    rfl

theorem routeAdd_sound {add : RouteAdd} (bound : add.masklen.toNat ≤ 32)
    (sound : ∀ r ∈ ip.route, r.Sound) : ∀ r ∈ (add.run ip).route, r.Sound := by
  cases add with
  | netif ipaddr masklen netif =>
    intro r member
    rcases List.mem_cons.mp member with rfl | old
    · exact ⟨routeSetup_masked ipaddr masklen none (some netif), bound, rfl⟩
    · exact sound r old
  | gateway ipaddr masklen gateway =>
    simp only [RouteAdd.run, routeAddGateway]
    split
    · exact sound
    · rename_i netif _ _ _
      intro r member
      rcases List.mem_cons.mp member with rfl | old
      · exact ⟨routeSetup_masked ipaddr masklen (some gateway) (some netif), bound, rfl⟩
      · exact sound r old

theorem routeAdds_sound {adds : List RouteAdd} (bound : ∀ add ∈ adds, add.masklen.toNat ≤ 32)
    (sound : ∀ r ∈ ip.route, r.Sound) : ∀ r ∈ (adds.foldl RouteAdd.run ip).route, r.Sound := by
  induction adds generalizing ip with
  | nil => exact sound
  | cons add adds ih =>
    apply ih fun later member => bound later (List.mem_cons_of_mem _ member)
    exact routeAdd_sound (bound add List.mem_cons_self) sound

/-- In sound tables, the lookup fails exactly where no record has the prefix, and otherwise gives
the interface of the first record with the longest one. -/
theorem routeLookup_longest (sound : ∀ r ∈ ip.route, r.Sound) (a : IpAddr) :
    (ip.routeLookup a = none ↔ ∀ r ∈ ip.route, ¬a.SharesPrefix r.masklen.toNat r.ipaddr) ∧
      ∀ netif gateway own, ip.routeLookup a = some (netif, gateway, own) →
        ∃ best, LongestMask (Route.prefixes a) ip.route best ∧ best.netif = some netif := by
  have serves : ∀ r ∈ ip.route, Route.serves a r = Route.prefixes a r := by
    intro r member
    rw [Route.serves, (sound r member).interface, Bool.true_and, (sound r member).routeMatch]
  constructor
  · rw [routeLookup_none_iff]
    apply forall₂_congr
    intro r member
    rw [serves r member, Route.prefixes, decide_eq_false_iff_not]
    exact Iff.rfl
  · intro netif gateway own found
    obtain ⟨best, chosen, interface, -⟩ := routeLookup_spec found
    obtain ⟨before, after, split, eligible, longer, notShorter⟩ := chosen
    refine ⟨best, ⟨before, after, split, ?_, ?_, ?_⟩, interface⟩
    · rw [← serves best (by simp [split])]
      exact eligible
    · intro r member has
      exact longer r member (by rw [serves r (by simp [split, member]), has])
    · intro r member has
      exact notShorter r member (by rw [serves r (by simp [split, member]), has])

/-- The interface records of an interface whose prefix an address has. -/
def ownPrefixes (netif : NetifId) (a : IpAddr) (r : Route) : Bool :=
  r.netif = some netif && r.isInterface && r.prefixes a

theorem routeLookupIpaddr_longest (sound : ∀ r ∈ ip.route, r.Sound) (a : IpAddr)
    (netif : NetifId) :
    (ip.routeLookupIpaddr a netif = none ↔
      ∀ r ∈ ip.route, r.netif = some netif → r.isInterface = true →
        ¬a.SharesPrefix r.masklen.toNat r.ipaddr) ∧
      ∀ own, ip.routeLookupIpaddr a netif = some own →
        ∃ best, LongestMask (ownPrefixes netif a) ip.route best ∧ best.ipaddr = own := by
  have same : ip.routeLookupIpaddr a netif =
      (longestMask (ownPrefixes netif a) ip.route).map (·.ipaddr) := by
    rw [routeLookupIpaddr, longestMask_congr]
    intro r member
    rw [ownPrefixes, (sound r member).routeMatch]
  constructor
  · rw [same, Option.map_eq_none_iff, longestMask_none_iff]
    apply forall₂_congr
    intro r member
    simp only [ownPrefixes, Route.prefixes, IpAddr.SharesPrefix, ← Bool.not_eq_true,
      Bool.and_eq_true, decide_eq_true_iff]
    tauto
  · intro own found
    rw [same, Option.map_eq_some_iff] at found
    obtain ⟨best, chosen, rfl⟩ := found
    exact ⟨best, (longestMask_spec _ _).2 best chosen, rfl⟩

/-- In a table built by any calls, both lookups are longest prefix matches. -/
theorem lookups_longest (ip : Ip) (empty : ip.route = []) (adds : List RouteAdd)
    (bound : ∀ add ∈ adds, add.masklen.toNat ≤ 32) (a : IpAddr) :
    ((adds.foldl RouteAdd.run ip).routeLookup a = none ↔
      ∀ r ∈ (adds.foldl RouteAdd.run ip).route, ¬a.SharesPrefix r.masklen.toNat r.ipaddr) ∧
    (∀ netif gateway own,
      (adds.foldl RouteAdd.run ip).routeLookup a = some (netif, gateway, own) →
        ∃ best, LongestMask (Route.prefixes a) (adds.foldl RouteAdd.run ip).route best ∧
          best.netif = some netif) ∧
    ∀ netif,
      ((adds.foldl RouteAdd.run ip).routeLookupIpaddr a netif = none ↔
        ∀ r ∈ (adds.foldl RouteAdd.run ip).route, r.netif = some netif → r.isInterface = true →
          ¬a.SharesPrefix r.masklen.toNat r.ipaddr) ∧
      ∀ own, (adds.foldl RouteAdd.run ip).routeLookupIpaddr a netif = some own →
        ∃ best, LongestMask (ownPrefixes netif a) (adds.foldl RouteAdd.run ip).route best ∧
          best.ipaddr = own := by
  have sound := routeAdds_sound bound (by simp [empty] : ∀ r ∈ ip.route, r.Sound)
  obtain ⟨missing, found⟩ := routeLookup_longest sound a
  exact ⟨missing, found, fun netif => routeLookupIpaddr_longest sound a netif⟩

theorem lookups_longest_gateway :
    ∃ best, LongestMask (Route.prefixes #v[10, 0, 7, 1])
      ([.netif #v[10, 0, 0, 1] 20 3, .gateway #v[0, 0, 0, 0] 0 #v[10, 0, 0, 254]].foldl
        RouteAdd.run { target := .i386, wideShift := fun _ => 0 }).route best ∧
      best.netif = some 3 :=
  (lookups_longest { target := .i386, wideShift := fun _ => 0 } rfl
    [.netif #v[10, 0, 0, 1] 20 3, .gateway #v[0, 0, 0, 0] 0 #v[10, 0, 0, 254]] (by decide)
    #v[10, 0, 7, 1]).2.1 3 #v[10, 0, 7, 1] #v[10, 0, 0, 1] (by decide +kernel)

end Ip
end Uos
