import Uos.Library.Maximum
import Uos.Net.State

/-!
# The routing table

The functions of `net/route.c`.
-/

namespace Uos

def octetMask (bits : Nat) : UChar :=
  .ofNat 8 (256 - 2 ^ (8 - bits))

namespace Route

def routeMatch (r : Route) (a : IpAddr) : Bool :=
  let masklen := r.masklen.toNat
  if masklen = 0 then true
  else if masklen < 8 then a.b₀ &&& octetMask masklen = r.netaddr.b₀
  else if a.b₀ ≠ r.ipaddr.b₀ then false
  else if masklen = 8 then true
  else if masklen < 16 then a.b₁ &&& octetMask (masklen - 8) = r.netaddr.b₁
  else if a.b₁ ≠ r.ipaddr.b₁ then false
  else if masklen = 16 then true
  else if masklen < 24 then a.b₂ &&& octetMask (masklen - 16) = r.netaddr.b₂
  else if a.b₂ ≠ r.ipaddr.b₂ then false
  else if masklen = 24 then true
  else if masklen < 32 then a.b₃ &&& octetMask (masklen - 24) = r.netaddr.b₃
  else a.b₃ = r.ipaddr.b₃

/-- An interface record, rather than a route through a gateway. -/
def isInterface (r : Route) : Bool :=
  r.gateway.b₀ = 0

end Route

/-- The loop that searches records of a kind for the longest mask; the first one wins. -/
def longestMask (eligible : Route → Bool) (routes : List Route) : Option Route :=
  routes.foldl (fun best r =>
    if !eligible r then best
    else
      match best with
      | none => some r
      | some other => if r.masklen.toNat ≤ other.masklen.toNat then best else some r) none

def IpAddr.ofHost (value : ULong) : IpAddr :=
  #v[value.extractLsb' 24 8, value.extractLsb' 16 8, value.extractLsb' 8 8, value.extractLsb' 0 8]

def IpAddr.toHost (ipaddr : IpAddr) : ULong :=
  ipaddr.b₀ ++ ipaddr.b₁ ++ ipaddr.b₂ ++ ipaddr.b₃

namespace Ip

/-- Fill in a record; the gateway of a route is searched in the interface records. -/
def routeSetup (ip : Ip) (ipaddr : IpAddr) (masklen : UChar) (gateway : Option IpAddr) : Route :=
  let net := if masklen.toNat < 32 then (0xffffffff : ULong) >>> masklen.toNat
    else ip.wideShift masklen
  let bcast := net ||| ipaddr.toHost
  let best := gateway.bind fun gateway =>
    longestMask (fun s => s.netif.isSome && s.isInterface && s.routeMatch gateway) ip.route
  { netif := none
    ipaddr
    broadcast := .ofHost bcast
    netaddr := .ofHost (net ^^^ bcast)
    gateway := gateway.getD .any
    gwifaddr := (best.map (·.ipaddr)).getD .any
    masklen }

/-- Search the network interface and gateway address to forward the packet.  Return also the IP
address of the interface. -/
def routeLookup (ip : Ip) (ipaddr : IpAddr) : Option (NetifId × IpAddr × IpAddr) := do
  let best ← longestMask (fun r => r.netif.isSome && r.routeMatch ipaddr) ip.route
  let netif ← best.netif
  some
    (netif, if best.gateway.b₀ ≠ 0 then best.gateway else ipaddr,
      if best.gateway.b₀ ≠ 0 then best.gwifaddr else best.ipaddr)

def routeAddNetif (ip : Ip) (ipaddr : IpAddr) (masklen : UChar) (netif : Option NetifId) : Ip :=
  { ip with route := { ip.routeSetup ipaddr masklen none with netif } :: ip.route }

/-- Add routing record to the list, if the interface of its gateway is found. -/
def routeAddGateway (ip : Ip) (ipaddr : IpAddr) (masklen : UChar) (gateway : IpAddr) : Ip :=
  match ip.routeLookup gateway with
  | none => ip
  | some (netif, _, _) =>
    { ip with
      route := { ip.routeSetup ipaddr masklen (some gateway) with netif := some netif } ::
        ip.route }

/-- Assuming the packet is for us, find the network interface for which it is targeted, and whether
it was sent to the broadcast address. -/
def routeLookupSelf (ip : Ip) (ipaddr : IpAddr) : Option (NetifId × Bool) := do
  let r ← ip.route.find? fun r =>
    r.netif.isSome && r.isInterface && (r.ipaddr = ipaddr || r.broadcast = ipaddr)
  let netif ← r.netif
  some (netif, r.ipaddr ≠ ipaddr)

/-- Find the "closest" IP address of the given network interface. -/
def routeLookupIpaddr (ip : Ip) (ipaddr : IpAddr) (netif : NetifId) : Option IpAddr :=
  (longestMask (fun r => r.netif = some netif && r.isInterface && r.routeMatch ipaddr)
    ip.route).map (·.ipaddr)

end Ip
end Uos
