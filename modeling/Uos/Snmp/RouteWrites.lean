import Uos.Snmp.Tables

/-!
# Writing to the table of routes

`route_setup` of `net/route.c` for a record of the table, and the functions of `snmp/snmp-ip.c` that
write to the columns of the table of routes.
-/

namespace Uos

open BitVec

/-- What a pointer that `route_setup` is given leads to. -/
inductive AddrPointer
  /-- A variable of the caller. -/
  | outside (ipaddr : IpAddr)
  /-- The field `ipaddr` of the record that is set up. -/
  | ownIpaddr
  /-- The field `gateway` of this record. -/
  | ownGateway
  deriving DecidableEq

def AddrPointer.read (r : Route) : AddrPointer → IpAddr
  | outside ipaddr => ipaddr
  | ownIpaddr => r.ipaddr
  | ownGateway => r.gateway

namespace Ip

/-- `route_setup`, one statement behind another.  The loop goes through a list of records that
depends on the one that is set up. -/
def routeSetupIn (ip : Ip) (route : Route → List Route) (r : Route) (ipaddr : AddrPointer)
    (masklen : UChar) (gateway : Option AddrPointer) : Route :=
  let r := { r with ipaddr := ipaddr.read r }
  let r := { r with masklen }
  let net := if masklen.toNat < 32 then (0xffffffff : ULong) >>> masklen.toNat
    else ip.wideShift masklen
  let bcast := net ||| (ipaddr.read r).toHost
  let net := net ^^^ bcast
  let r := { r with gateway := .any }
  let r := { r with gwifaddr := .any }
  let r :=
    match gateway with
    | none => r
    | some gateway =>
      let r := { r with gateway := gateway.read r }
      let r := { r with broadcast := .any }
      match longestMask (fun s => s.netif.isSome && s.isInterface && s.routeMatch
        (gateway.read r))
        (route r) with
      | none => r
      | some best => { r with gwifaddr := best.ipaddr }
  { r with broadcast := .ofHost bcast, netaddr := .ofHost net }

/-- `route_setup` for a record of the table. -/
def routeSetupAt (ip : Ip) (k : Fin ip.route.length) (ipaddr : AddrPointer) (masklen : UChar)
    (gateway : Option AddrPointer) : Route :=
  ip.routeSetupIn (ip.route.set k) (ip.route.get k) ipaddr masklen gateway

end Ip

namespace Snmp

/-- `find_route_by_addr`: the place of the record in the table. -/
def findRouteByAddr (ip : Ip) (addr : ULong) : Option (Fin ip.route.length) :=
  ip.route.findFinIdx? fun u => isGateway u && u.ipaddr = bytesOf ip.target addr

def setRoute (ip : Ip) (k : Fin ip.route.length) (u : Route) : Ip :=
  { ip with route := ip.route.set k u }

/-- `snmp_set_ipRouteDest` -/
def setIpRouteDest (ip : Ip) (val : Asn) (addr : ULong) : SnmpError × Ip :=
  match findRouteByAddr ip addr with
  | none => (.noSuchName, ip)
  | some k =>
    match val with
    | .unsigned _ .ipAddress val =>
      let u := ip.route.get k
      let ipaddr := bytesOf ip.target val
      (.noError, setRoute ip k (ip.routeSetupAt k (.outside ipaddr) u.masklen
        (some .ownGateway)))
    | _ => (.badValue, ip)

theorem mask_msb (v : ULong) : v &&& 0x80000000 ≠ 0 ↔ v.msb = true := by
  rw [show (0x80000000 : ULong) = BitVec.twoPow 32 31 from rfl, and_twoPow,
    msb_eq_getLsbD_last]
  split
  · rename_i high
    exact iff_of_true (by decide) high
  · rename_i low
    exact iff_of_false (fun other => other rfl) low

theorem shift_lt {v : ULong} (high : v &&& 0x80000000 ≠ 0) : (v <<< 1).toNat < v.toNat := by
  have top := msb_eq_decide v
  rw [(mask_msb v).mp high] at top
  have bound := v.isLt
  have top := of_decide_eq_true top.symm
  rw [toNat_shiftLeft]
  omega

/-- The loop of `snmp_set_ipRouteMask`. -/
def maskLoop (v : ULong) (masklen : Nat) : Nat :=
  if v &&& 0x80000000 ≠ 0 then maskLoop (v <<< 1) (masklen + 1) else masklen
termination_by v.toNat
decreasing_by exact shift_lt ‹_›

/-- `snmp_set_ipRouteMask` -/
def setIpRouteMask (ip : Ip) (val : Asn) (addr : ULong) : SnmpError × Ip :=
  match findRouteByAddr ip addr with
  | none => (.noSuchName, ip)
  | some k =>
    match val with
    | .unsigned _ .ipAddress val =>
      let masklen := maskLoop val 0
      (.noError, setRoute ip k (ip.routeSetupAt k .ownIpaddr (.ofNat 8 masklen)
        (some .ownGateway)))
    | _ => (.badValue, ip)

/-- `snmp_set_ipRouteNextHop` -/
def setIpRouteNextHop (ip : Ip) (val : Asn) (addr : ULong) : SnmpError × Ip :=
  match findRouteByAddr ip addr with
  | none => (.noSuchName, ip)
  | some k =>
    match val with
    | .unsigned _ .ipAddress val =>
      let u := ip.route.get k
      let ipaddr := bytesOf ip.target val
      match ip.routeLookup ipaddr with
      | none => (.genErr, ip)
      | some (netif, _, _) =>
        let u := ip.routeSetupAt k (.outside ipaddr) u.masklen (some .ownGateway)
        (.noError, setRoute ip k { u with netif := some netif })
    | _ => (.badValue, ip)

theorem maskLoop_ends (v : ULong) (masklen : Nat) :
    ∃ turns ≤ 32, maskLoop v masklen = masklen + turns ∧ (v <<< turns) &&& 0x80000000 = 0 ∧
      ∀ turn < turns, (v <<< turn) &&& 0x80000000 ≠ 0 := by
  have runs : ∃ turns, maskLoop v masklen = masklen + turns ∧ (v <<< turns) &&& 0x80000000 = 0 ∧
      ∀ turn < turns, (v <<< turn) &&& 0x80000000 ≠ 0 := by
    induction v, masklen using maskLoop.induct with
    | case1 v masklen high ih =>
      obtain ⟨turns, length, ends, goes⟩ := ih
      have shifts (turn : Nat) : v <<< (turn + 1) = (v <<< 1) <<< turn := by
        rw [Nat.add_comm, shiftLeft_add]
      refine ⟨turns + 1, ?_, ?_, fun turn inside => ?_⟩
      · rw [maskLoop, if_pos high, length]
        omega
      · rw [shifts]
        exact ends
      · cases turn with
        | zero =>
          rw [shiftLeft_zero]
          exact high
        | succ turn =>
          rw [shifts]
          exact goes turn (by omega)
    | case2 v masklen low =>
      refine ⟨0, ?_, ?_, fun turn inside => absurd inside (Nat.not_lt_zero turn)⟩
      · rw [maskLoop, if_neg low]
        rfl
      · rw [shiftLeft_zero]
        exact not_not.mp low
  obtain ⟨turns, length, ends, goes⟩ := runs
  refine ⟨turns, Nat.le_of_not_lt fun many => goes 32 many ?_, length, ends, goes⟩
  rw [shiftLeft_eq_zero le_rfl]
  rfl

/-- The columns of the table of routes that can be written. -/
inductive RouteColumn
  | dest
  | mask
  | nextHop
  deriving DecidableEq

namespace RouteColumn

def set : RouteColumn → Ip → Asn → ULong → SnmpError × Ip
  | dest => setIpRouteDest
  | mask => setIpRouteMask
  | nextHop => setIpRouteNextHop

def content (ip : IpTables) (u : Route) (addr : ULong) : RouteColumn → Content
  | dest => .ipAddress addr
  | mask => .ipAddress (getRouteMask ip u)
  | nextHop => .ipAddress (longOf u.gateway)

/-- The fields of a record that a column does not name are kept. -/
def Keeps (u u' : Route) : RouteColumn → Prop
  | dest => u' = { u with ipaddr := u'.ipaddr, netaddr := u'.netaddr, broadcast := u'.broadcast }
  | mask => u' = { u with masklen := u'.masklen, netaddr := u'.netaddr, broadcast := u'.broadcast }
  | nextHop => u' = { u with gateway := u'.gateway, netif := u'.netif, gwifaddr := u'.gwifaddr }

end RouteColumn

def tablesOf (ip : Ip) (wideMask : UChar → ULong) (small : ip.route.length < 2 ^ 32) :
    IpTables where
  target := ip.target
  wideMask
  route := ip.route
  arp := none
  udp_sockets := []
  route_lt := small
  udp_sockets_lt := by decide

/-- A write to a column changes only what the column names. -/
structure ChangesOnly (column : RouteColumn) (ip ip' : Ip) (k : Fin ip.route.length)
    (addr val : ULong) : Prop where
  others : ∀ j ≠ k.val, ip'.route[j]? = ip.route[j]?
  named : ∃ u', ip'.route[k.val]? = some u' ∧ isGateway u' = true ∧
    column.Keeps (ip.route.get k) u'
  /-- The column shows what was written. -/
  shown : ∀ wideMask small, ∃ u,
    findByAddr isGateway (tablesOf ip' wideMask small) [if column = .dest then val else addr] =
        some u ∧
      column.content (tablesOf ip' wideMask small) u (if column = .dest then val else addr) =
        .ipAddress val

variable (ip : Ip) (k : Fin ip.route.length)

theorem routeSetupAt_gateway (ipaddr : AddrPointer) (masklen : UChar) :
    (ip.routeSetupAt k ipaddr masklen (some .ownGateway)).gateway = .any := by
  simp only [Ip.routeSetupAt, Ip.routeSetupIn]
  split <;> rfl

theorem set_spec {column : RouteColumn} {ip ip' : Ip} {val : Asn} {addr : ULong}
    (accepted : column.set ip val addr = (.noError, ip')) :
    ∃ k block v u', findRouteByAddr ip addr = some k ∧ val = .unsigned block .ipAddress v ∧
      ip' = setRoute ip k u' ∧ u'.gateway = .any := by
  have refused {error : SnmpError} (other : error ≠ .noError) :
      (error, ip) ≠ (SnmpError.noError, ip') := fun same => other (Prod.mk.inj same).1
  cases column with
  | dest =>
    rw [RouteColumn.set, setIpRouteDest] at accepted
    split at accepted
    · exact absurd accepted (refused (by decide))
    · rename_i k found
      split at accepted
      · exact ⟨k, _, _, _, found, rfl, (Prod.mk.inj accepted).2.symm, routeSetupAt_gateway ..⟩
      · exact absurd accepted (refused (by decide))
  | mask =>
    rw [RouteColumn.set, setIpRouteMask] at accepted
    split at accepted
    · exact absurd accepted (refused (by decide))
    · rename_i k found
      split at accepted
      · exact ⟨k, _, _, _, found, rfl, (Prod.mk.inj accepted).2.symm, routeSetupAt_gateway ..⟩
      · exact absurd accepted (refused (by decide))
  | nextHop =>
    rw [RouteColumn.set, setIpRouteNextHop] at accepted
    split at accepted
    · exact absurd accepted (refused (by decide))
    · rename_i k found
      split at accepted
      · dsimp only at accepted
        split at accepted
        · exact absurd accepted (refused (by decide))
        · exact ⟨k, _, _, _, found, rfl, (Prod.mk.inj accepted).2.symm, routeSetupAt_gateway ..⟩
      · exact absurd accepted (refused (by decide))

theorem setRoute_self (u : Route) :
    (setRoute ip k u).route[k.val]? = some u :=
  List.getElem?_set_self k.isLt

theorem setRoute_other {k : Fin ip.route.length} (u : Route) {j : Nat} (other : j ≠ k.val) :
    (setRoute ip k u).route[j]? = ip.route[j]? :=
  List.getElem?_set_ne other.symm

theorem not_changesOnly (column : RouteColumn) (ip : Ip) (k : Fin ip.route.length)
    (addr val : ULong) {u' : Route} (cleared : u'.gateway = .any) :
    ¬ChangesOnly column ip (setRoute ip k u') k addr val := by
  intro changes
  obtain ⟨u, found, gateway, -⟩ := changes.named
  cases (setRoute_self ip k u').symm.trans found
  simp [isGateway, cleared, IpAddr.any] at gateway

/-- The loop of the mask ends, and an accepted write leaves the other records as they are; but it
never changes only what its column names. -/
theorem routeWrites_wrong {column : RouteColumn} {ip ip' : Ip} {val : Asn} {addr : ULong}
    (accepted : column.set ip val addr = (.noError, ip')) :
    (∀ v, ∃ turns ≤ 32, maskLoop v 0 = turns ∧ (v <<< turns) &&& 0x80000000 = 0 ∧
      ∀ turn < turns, (v <<< turn) &&& 0x80000000 ≠ 0) ∧
    ∃ k block v, findRouteByAddr ip addr = some k ∧ val = .unsigned block .ipAddress v ∧
      (∀ j ≠ k.val, ip'.route[j]? = ip.route[j]?) ∧ ¬ChangesOnly column ip ip' k addr v := by
  constructor
  · intro v
    obtain ⟨turns, few, length, ends⟩ := maskLoop_ends v 0
    exact ⟨turns, few, length.trans (Nat.zero_add turns), ends⟩
  · obtain ⟨k, block, v, u', found, rfl, rfl, cleared⟩ := set_spec accepted
    exact ⟨k, block, v, found, rfl, fun j other => setRoute_other ip u' other,
      not_changesOnly column ip k addr v cleared⟩

/-- A network with the route 172.16.0.0/12 through 10.0.0.9. -/
def routed : Ip :=
  (({ target := .portable true, wideShift := fun _ => 0 } : Ip).routeAddNetif #v[10, 0, 0, 22] 24
    (some 0)).routeAddGateway #v[172, 16, 0, 0] 12 #v[10, 0, 0, 9]

/-- The destination becomes 192.168.0.0. -/
theorem routeWrites_wrong_dest :
    ∃ ip', RouteColumn.dest.set routed (.unsigned 0 .ipAddress 0xc0a80000) 0xac100000 =
        (.noError, ip') ∧
      ∃ k block v, findRouteByAddr routed 0xac100000 = some k ∧
        Asn.unsigned 0 .ipAddress 0xc0a80000 = .unsigned block .ipAddress v ∧
          (∀ j ≠ k.val, ip'.route[j]? = routed.route[j]?) ∧
            ¬ChangesOnly .dest routed ip' k 0xac100000 v := by
  have accepted : (RouteColumn.dest.set routed (.unsigned 0 .ipAddress 0xc0a80000) 0xac100000).1 =
      .noError := by decide +kernel
  exact ⟨_, Prod.ext accepted rfl, (routeWrites_wrong (Prod.ext accepted rfl)).2⟩

/-- The route is an interface record then, and the table does not show it any more. -/
theorem setIpRouteDest_unroutes :
    (setIpRouteDest routed (.unsigned 0 .ipAddress 0xc0a80000) 0xac100000).1 = .noError ∧
      (setIpRouteDest routed (.unsigned 0 .ipAddress 0xc0a80000) 0xac100000).2.route.map
          (fun u => (u.ipaddr, u.gateway)) =
        [(#v[192, 168, 0, 0], #v[0, 0, 0, 0]), (#v[10, 0, 0, 22], #v[0, 0, 0, 0])] ∧
      findRouteByAddr (setIpRouteDest routed (.unsigned 0 .ipAddress 0xc0a80000) 0xac100000).2
        0xc0a80000 = none ∧
      ¬ChangesOnly .dest routed
        (setIpRouteDest routed (.unsigned 0 .ipAddress 0xc0a80000) 0xac100000).2
        ⟨0, by decide +kernel⟩ 0xac100000 0xc0a80000 := by
  refine ⟨by decide +kernel, by decide +kernel, by decide +kernel, fun changes => ?_⟩
  obtain ⟨u, found, gateway, -⟩ := changes.named
  have none :
      ((setIpRouteDest routed (.unsigned 0 .ipAddress 0xc0a80000) 0xac100000).2.route[0]?.map
      isGateway) = some false := by decide +kernel
  rw [found, Option.map_some, gateway] at none
  cases none

end Snmp
end Uos
