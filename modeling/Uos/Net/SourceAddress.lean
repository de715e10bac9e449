import Uos.Net.Prefix

/-!
# The source address of a packet

What `route_lookup` returns as the address of the outgoing interface is one of its own addresses, as
long as the two searches for the interface of a gateway agree.
-/

namespace Uos

namespace Route

variable {r : Route} {a : IpAddr}

theorem routeMatch_whole (long : 32 ≤ r.masklen.toNat) :
    r.routeMatch a = (decide (a[0] = r.ipaddr[0]) && decide (a[1] = r.ipaddr[1]) &&
      decide (a[2] = r.ipaddr[2]) && decide (a[3] = r.ipaddr[3])) := by
  have beyond (bits : Nat) (small : bits < 32) : r.masklen.toNat ≠ bits ∧
      ¬r.masklen.toNat < bits := by omega
  rw [routeMatch]
  simp only [(beyond 0 (by decide)).1, (beyond 8 (by decide)).1, (beyond 16 (by decide)).1,
    (beyond 24 (by decide)).1, (beyond 8 (by decide)).2, (beyond 16 (by decide)).2,
    (beyond 24 (by decide)).2, not_lt.mpr long, if_false]
  split_ifs with first second third
  · rw [decide_eq_false first]
    rfl
  · rw [decide_eq_false second, Bool.and_false]
    rfl
  · rw [decide_eq_false third, Bool.and_false]
    rfl
  · rw [decide_eq_true (not_not.mp first), decide_eq_true (not_not.mp second),
      decide_eq_true (not_not.mp third)]
    rfl

theorem routeMatch_shares (masked : r.Masked) :
    r.routeMatch a = true ↔ a.SharesPrefix r.masklen.toNat r.ipaddr := by
  rcases Nat.lt_or_ge 32 r.masklen.toNat with long | short
  · have whole : r.routeMatch a = ({ r with masklen := 32 } : Route).routeMatch a := by
      rw [routeMatch_whole long.le, routeMatch_whole (show 32 ≤ (32 : UChar).toNat by decide)]
    have masked' : ({ r with masklen := 32 } : Route).Masked := fun low =>
      absurd low (show ¬(32 : UChar).toNat < 32 by decide)
    rw [whole, routeMatch_iff masked' (show (32 : UChar).toNat ≤ 32 by decide)]
    constructor
    · intro share i _
      rcases Nat.lt_or_ge i 32 with inside | behind
      · exact share i inside
      · rw [BitVec.getMsbD_of_ge _ _ behind, BitVec.getMsbD_of_ge _ _ behind]
    · intro share i small
      exact share i (Nat.lt_trans small long)
  · exact routeMatch_iff masked short

end Route

def RouteAdd.Real : RouteAdd → Prop
  | .netif _ _ _ => True
  | .gateway _ _ hop => hop.b₀ ≠ 0

instance (add : RouteAdd) : Decidable add.Real :=
  match add with
  | .netif _ _ _ => .isTrue trivial
  | .gateway _ _ hop => inferInstanceAs (Decidable (hop.b₀ ≠ 0))

namespace Ip

variable {ip : Ip} {add : RouteAdd}

/-- An address of an interface, on whose network another address lies. -/
def OwnAddress (ip : Ip) (netif : NetifId) (own hop : IpAddr) : Prop :=
  ∃ r ∈ ip.route, r.netif = some netif ∧ r.isInterface = true ∧ r.ipaddr = own ∧
    hop.SharesPrefix r.masklen.toNat r.ipaddr

/-- The interface records that the gateway of a new route is searched in. -/
def Reaches (hop : IpAddr) (r : Route) : Bool :=
  r.netif.isSome && r.isInterface && r.routeMatch hop

/-- The two searches for the interface of a gateway agree: the interface record with the longest
mask that matches it belongs to the interface of the record of any kind with the longest one. -/
def Agrees (ip : Ip) : RouteAdd → Prop
  | .netif _ _ _ => True
  | .gateway _ _ hop => ∀ best, longestMask (Route.serves hop) ip.route = some best →
      ∃ own, longestMask (Reaches hop) ip.route = some own ∧ own.netif = best.netif

/-- What is known of the records of a table. -/
structure Owned (ip : Ip) : Prop where
  masked : ∀ r ∈ ip.route, r.Masked
  gateways : ∀ r ∈ ip.route, r.isInterface = false →
    ∃ netif, r.netif = some netif ∧ OwnAddress ip netif r.gwifaddr r.gateway

theorem OwnAddress.mono {ip' : Ip} {netif : NetifId} {own hop : IpAddr}
    (owns : OwnAddress ip netif own hop) (grows : ip.route ⊆ ip'.route) :
    OwnAddress ip' netif own hop := by
  obtain ⟨r, member, rest⟩ := owns
  exact ⟨r, grows member, rest⟩

theorem Owned.push {ip' : Ip} {r : Route} (owned : Owned ip) (route : ip'.route = r :: ip.route)
    (masked : r.Masked) (gateway : r.isInterface = false →
      ∃ netif, r.netif = some netif ∧ OwnAddress ip netif r.gwifaddr r.gateway) : Owned ip' := by
  have grows : ip.route ⊆ ip'.route := by
    rw [route]
    exact List.subset_cons_self r ip.route
  constructor
  · intro r' member
    rw [route] at member
    rcases List.mem_cons.mp member with rfl | old
    · exact masked
    · exact owned.masked r' old
  · intro r' member behind
    rw [route] at member
    have known : ∃ netif, r'.netif = some netif ∧ OwnAddress ip netif r'.gwifaddr r'.gateway := by
      rcases List.mem_cons.mp member with rfl | old
      · exact gateway behind
      · exact owned.gateways r' old behind
    obtain ⟨netif, interface, owns⟩ := known
    exact ⟨netif, interface, owns.mono grows⟩

theorem Owned.added (owned : Owned ip) (agrees : Agrees ip add) : Owned (add.run ip) := by
  cases add with
  | netif ipaddr masklen netif =>
    refine owned.push rfl (routeSetup_masked ipaddr masklen none (some netif)) fun behind => ?_
    exact absurd behind (by simp [Route.isInterface, routeSetup, IpAddr.any])
  | gateway ipaddr masklen hop =>
    rw [RouteAdd.run, routeAddGateway]
    cases found : ip.routeLookup hop with
    | none => exact owned
    | some result =>
      obtain ⟨netif, gateway, address⟩ := result
      refine owned.push rfl (routeSetup_masked ipaddr masklen (some hop) (some netif))
        fun _ => ⟨netif, rfl, ?_⟩
      simp only [routeLookup, Option.bind_eq_bind, Option.bind_eq_some_iff] at found
      obtain ⟨best, chosen, id, interface, result⟩ := found
      obtain rfl : id = netif := (Prod.mk.inj (Option.some.inj result)).1
      obtain ⟨own, searched, same⟩ := agrees best chosen
      obtain ⟨before, after, split, reaches, -⟩ := (longestMask_spec _ _).2 own searched
      have member : own ∈ ip.route := by simp [split]
      simp only [Reaches, Bool.and_eq_true] at reaches
      refine ⟨own, member, same.trans interface, reaches.1.2, ?_, ?_⟩
      · change own.ipaddr = ((longestMask (Reaches hop) ip.route).map (·.ipaddr)).getD .any
        rw [searched]
        rfl
      · exact (Route.routeMatch_shares (owned.masked own member)).mp reaches.2

def AllAgree (ip : Ip) : List RouteAdd → Prop
  | [] => True
  | add :: adds => Agrees ip add ∧ AllAgree (add.run ip) adds

theorem Owned.all {adds : List RouteAdd} (owned : Owned ip) (agree : AllAgree ip adds) :
    Owned (adds.foldl RouteAdd.run ip) := by
  induction adds generalizing ip with
  | nil => exact owned
  | cons add adds ih => exact ih (owned.added agree.1) agree.2

theorem Owned.lookup {a gateway own : IpAddr} {netif : NetifId} (owned : Owned ip)
    (found : ip.routeLookup a = some (netif, gateway, own)) : OwnAddress ip netif own gateway := by
  simp only [routeLookup, Option.bind_eq_bind, Option.bind_eq_some_iff] at found
  obtain ⟨best, chosen, id, interface, result⟩ := found
  obtain ⟨rfl, rest⟩ := Prod.mk.inj (Option.some.inj result)
  obtain ⟨rfl, rfl⟩ := Prod.mk.inj rest
  obtain ⟨before, after, split, serves, -⟩ := (longestMask_spec _ _).2 best chosen
  have member : best ∈ ip.route := by simp [split]
  simp only [Bool.and_eq_true] at serves
  cases kind : best.isInterface with
  | true =>
    have near : best.gateway[0] = 0 := of_decide_eq_true kind
    rw [if_neg (not_not.mpr near), if_neg (not_not.mpr near)]
    exact ⟨best, member, interface, kind, rfl,
      (Route.routeMatch_shares (owned.masked best member)).mp serves.2⟩
  | false =>
    have far : best.gateway[0] ≠ 0 := of_decide_eq_false kind
    obtain ⟨netif, same, owns⟩ := owned.gateways best member kind
    rw [interface, Option.some.injEq] at same
    rw [if_pos far, if_pos far, same]
    exact owns

/-- In a table built by calls whose searches agree, a packet gets an address of the interface that
it leaves through, on the network of its next hop. -/
theorem sourceAddress_own (ip : Ip) (empty : ip.route = []) (adds : List RouteAdd)
    (agree : AllAgree ip adds) (a gateway own : IpAddr) (netif : NetifId)
    (found : (adds.foldl RouteAdd.run ip).routeLookup a = some (netif, gateway, own)) :
    OwnAddress (adds.foldl RouteAdd.run ip) netif own gateway := by
  have owned : Owned ip := ⟨by simp [empty], by simp [empty]⟩
  exact (owned.all agree).lookup found

theorem sourceAddress_own_gateway :
    OwnAddress
      ([.netif #v[10, 0, 0, 1] 8 3, .gateway #v[0, 0, 0, 0] 0 #v[10, 0, 0, 254]].foldl
        RouteAdd.run { target := .i386, wideShift := fun _ => 0 }) 3 #v[10, 0, 0, 1]
      #v[10, 0, 0, 254] := by
  refine sourceAddress_own { target := .i386, wideShift := fun _ => 0 } rfl
    [.netif #v[10, 0, 0, 1] 8 3, .gateway #v[0, 0, 0, 0] 0 #v[10, 0, 0, 254]] ?_
    #v[8, 8, 8, 8] #v[10, 0, 0, 254] #v[10, 0, 0, 1] 3 (by decide +kernel)
  refine ⟨trivial, fun best chosen => ?_, trivial⟩
  refine ⟨best, Eq.trans ?_ chosen, rfl⟩
  decide +kernel

/-- A route through a gateway that is itself behind another gateway gets the address of another
interface. -/
theorem sourceAddress_foreign :
    ¬∀ (ip : Ip) (adds : List RouteAdd) (a gateway own : IpAddr) (netif : NetifId),
      ip.route = [] → (∀ add ∈ adds, add.Real) →
        (adds.foldl RouteAdd.run ip).route.length = adds.length →
          (adds.foldl RouteAdd.run ip).routeLookup a = some (netif, gateway, own) →
            OwnAddress (adds.foldl RouteAdd.run ip) netif own gateway := by
  intro owns
  set adds : List RouteAdd :=
    [.netif #v[10, 0, 0, 1] 8 1, .netif #v[192, 168, 0, 1] 16 2,
      .gateway #v[10, 1, 0, 0] 16 #v[192, 168, 0, 2], .gateway #v[172, 16, 0, 0] 12 #v[10, 1, 0, 5]]
  obtain ⟨r, member, interface, kind, same, -⟩ :=
    owns { target := .i386, wideShift := fun _ => 0 } adds #v[172, 16, 0, 1] #v[10, 1, 0, 5]
      #v[10, 0, 0, 1] 2 rfl (by decide) (by decide +kernel) (by decide +kernel)
  have none : ∀ r ∈ (adds.foldl RouteAdd.run
      ({ target := .i386, wideShift := fun _ => 0 } : Ip)).route,
      r.netif = some 2 → r.isInterface = true → r.ipaddr ≠ #v[10, 0, 0, 1] := by decide +kernel
  exact none r member interface kind same

end Ip
end Uos
