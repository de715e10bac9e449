import Mathlib.Data.List.Lex
import Uos.Library.Enumeration
import Uos.Net.Route
import Uos.Snmp.Agent

/-!
# Tables

The tables of addresses, routes, ARP entries and UDP sockets in `snmp/snmp-ip.c` and
`snmp/snmp-udp.c`: their searches, and the functions of their columns.
-/

namespace Uos
namespace Snmp

open Enumeration

instance : LinearOrder ULong :=
  LinearOrder.lift' BitVec.toNat fun _ _ => BitVec.eq_of_toNat_eq

/-- `arp_entry_t`, of which the tables show no age. -/
structure ArpEntry where
  netif : Option NetifId
  ipaddr : IpAddr
  ethaddr : Vector UChar 6
  deriving DecidableEq

/-- What the tables show of a `udp_socket_t`. -/
structure UdpEndpoint where
  local_ip : Option IpAddr
  local_port : UShort
  deriving DecidableEq

/-- The part of an `ip_t` that the tables show.  A list in memory has less than `2 ^ 32` nodes. -/
structure IpTables where
  target : Target
  /-- The value of `0xffffffffL << (32 - masklen)` on this machine for more than 32 bits, which C
  leaves undefined. -/
  wideMask : UChar → ULong
  route : List Route
  arp : Option (List ArpEntry)
  udp_sockets : List UdpEndpoint
  route_lt : route.length < 2 ^ 32
  udp_sockets_lt : udp_sockets.length < 2 ^ 32

/-- The values of the columns, as the calls of `asn_make_int` and its relatives give them. -/
inductive Content
  | integer (val : ULong)
  | ipAddress (val : ULong)
  | oid (id : List UShort)
  | string (str : List UChar)
  deriving DecidableEq

namespace Content

def node (block : Block) : Content → Asn
  | integer val => .integer block val
  | ipAddress val => .unsigned block .ipAddress val
  | oid id => .oid block (.ofNat 16 id.length) id
  | string str => .string block .string (.ofNat 16 str.length) str

/-- `asn_make_int`, `asn_make_oid` or `asn_make_stringn`. -/
def make (content : Content) (pool : MemPool) : Asn × MemPool :=
  match pool.alloc with
  | (none, pool) => (.nil, pool)
  | (some block, pool) => (content.node block, pool)

end Content

/-- The four bytes of an `unsigned long` in memory. -/
def bytesOf (target : Target) (addr : ULong) : IpAddr :=
  if target.bigEndian then .ofHost addr else (IpAddr.ofHost addr).reverse

/-- The macro `LONG`. -/
def longOf (p : IpAddr) : ULong :=
  p.toHost

/-- An interface record, which `get_netif_index` and its relatives count. -/
def interfaceOf (r : Route) : Option NetifId :=
  if r.isInterface then r.netif else none

/-- The loop of `find_netif`. -/
def findNetifFrom : List Route → ULong → Option NetifId
  | [], _ => none
  | r :: tab, nif =>
    match interfaceOf r with
    | none => findNetifFrom tab nif
    | some netif => if nif - 1 = 0 then some netif else findNetifFrom tab (nif - 1)

/-- `find_netif`: the interface with this number. -/
def findNetif (tab : List Route) (nif : ULong) : Option NetifId :=
  if nif = 0 then none else findNetifFrom tab nif

/-- The loop of `get_netif_index`.  What is looked for was found by its address as the first of its
kind, so that it may be compared by its contents. -/
def netifIndexFrom (target : Route) : ULong → List Route → ULong
  | _, [] => 0
  | count, r :: tab =>
    let count := if (interfaceOf r).isSome then count + 1 else count
    if r = target then count else netifIndexFrom target count tab

/-- `get_netif_index` -/
def getNetifIndex (ip : IpTables) (target : Route) : ULong :=
  netifIndexFrom target 0 ip.route

/-- The loop of `get_netif_index_by_netif`. -/
def netifIndexByNetifFrom (target : NetifId) : ULong → List Route → ULong
  | _, [] => 0
  | count, r :: tab =>
    match interfaceOf r with
    | none => netifIndexByNetifFrom target count tab
    | some netif =>
      if netif = target then count + 1 else netifIndexByNetifFrom target (count + 1) tab

/-- `get_netif_index_by_netif` -/
def getNetifIndexByNetif (ip : IpTables) (target : Option NetifId) : ULong :=
  match target with
  | none => 0
  | some target => netifIndexByNetifFrom target 0 ip.route

/-- `get_route_mask` -/
def getRouteMask (ip : IpTables) (u : Route) : ULong :=
  if u.masklen = 0 then 0
  else if u.masklen.toNat ≤ 32 then 0xffffffff <<< (32 - u.masklen.toNat)
  else ip.wideMask u.masklen

/-- The two functions of a column that is read. -/
structure Column where
  get : List ULong → World IpTables → Asn × World IpTables
  next : Bool → List ULong → World IpTables → Asn × List ULong × World IpTables

def answer (world : World IpTables) : Option Content → Asn × World IpTables
  | none => (.nil, world)
  | some content =>
    let (val, pool) := content.make world.pool
    (val, { world with pool })

/-- A `get` function: look for a row, and return its value. -/
def getBy {Row : Type} (find : IpTables → List ULong → Option Row)
    (content : IpTables → Row → List ULong → Content) (args : List ULong)
    (world : World IpTables) : Asn × World IpTables :=
  answer world ((find world.device args).map fun u => content world.device u args)

/-- A `next` function: look for the least row, or for the least one behind an index, and return its
index and its value.  If there is none, the index becomes another one. -/
def nextBy {Row : Type} (rows : IpTables → List Row)
    (key : IpTables → Row → Option (List ULong)) (nothing : IpTables → List ULong → List ULong)
    (content : IpTables → Row → List ULong → Content) (nextflag : Bool) (args : List ULong)
    (world : World IpTables) : Asn × List ULong × World IpTables :=
  let low := if nextflag then some args else none
  match least (behind (key world.device) low) (rows world.device) with
  | none => (.nil, nothing world.device args, world)
  | some (u, args) =>
    let (val, world) := answer world (some (content world.device u args))
    (val, args, world)

def routeKey (eligible : Route → Bool) (u : Route) : Option (List ULong) :=
  if eligible u then some [longOf u.ipaddr] else none

/-- `find_netif_by_addr` and `find_route_by_addr`, each for its kind of records. -/
def findByAddr (eligible : Route → Bool) (ip : IpTables) (args : List ULong) : Option Route :=
  ip.route.find? fun u => eligible u && u.ipaddr = bytesOf ip.target (args.getD 0 0)

def routeColumn (eligible : Route → Bool) (content : IpTables → Route → List ULong → Content) :
    Column where
  get := getBy (findByAddr eligible) content
  next := nextBy IpTables.route (fun _ => routeKey eligible) (fun _ _ => [0]) content

def isNetif (u : Route) : Bool :=
  u.netif.isSome && u.gateway.b₀ = 0

def isGateway (u : Route) : Bool :=
  u.netif.isSome && u.gateway.b₀ ≠ 0

def ipAdEntColumn := routeColumn isNetif

def ipAdEntAddr := ipAdEntColumn fun _ _ args => .ipAddress (args.getD 0 0)
def ipAdEntIfIndex := ipAdEntColumn fun ip u _ => .integer (getNetifIndex ip u)
def ipAdEntNetMask := ipAdEntColumn fun ip u _ => .ipAddress (getRouteMask ip u)
def ipAdEntBcastAddr := ipAdEntColumn fun _ _ _ => .integer 1
def ipAdEntReasmMaxSize := ipAdEntColumn fun _ _ _ => .integer 1500

def ipRouteColumn := routeColumn isGateway

def ipRouteDest := ipRouteColumn fun _ _ args => .ipAddress (args.getD 0 0)
def ipRouteIfIndex := ipRouteColumn fun ip u _ => .integer (getNetifIndexByNetif ip u.netif)
def ipRouteMetric1 := ipRouteColumn fun _ _ _ => .integer 0
def ipRouteMetric2 := ipRouteColumn fun _ _ _ => .integer 0
def ipRouteMetric3 := ipRouteColumn fun _ _ _ => .integer 0
def ipRouteMetric4 := ipRouteColumn fun _ _ _ => .integer 0
def ipRouteMetric5 := ipRouteColumn fun _ _ _ => .integer 0
def ipRouteNextHop := ipRouteColumn fun _ u _ => .ipAddress (longOf u.gateway)
def ipRouteType := ipRouteColumn fun _ _ _ => .integer 3
def ipRouteProto := ipRouteColumn fun _ _ _ => .integer 2
def ipRouteAge := ipRouteColumn fun _ _ _ => .integer 0
def ipRouteMask := ipRouteColumn fun ip u _ => .ipAddress (getRouteMask ip u)
def ipRouteInfo := ipRouteColumn fun _ _ _ => .oid [0, 0]

/-- The key of an ARP entry: the number of its interface, and its address. -/
def arpKey (ip : IpTables) (e : ArpEntry) : Option (List ULong) :=
  match e.netif with
  | none => none
  | some netif => some [getNetifIndexByNetif ip (some netif), longOf e.ipaddr]

def arpTable (ip : IpTables) : List ArpEntry :=
  ip.arp.getD []

/-- `find_arp_by_addr` -/
def findArpByAddr (ip : IpTables) (args : List ULong) : Option ArpEntry :=
  match findNetif ip.route (args.getD 0 0) with
  | none => none
  | some netif =>
    (arpTable ip).find? fun e =>
      e.netif = some netif && e.ipaddr = bytesOf ip.target (args.getD 1 0)

def ipNetToMediaColumn (content : IpTables → ArpEntry → List ULong → Content) : Column where
  get := getBy findArpByAddr content
  next := nextBy arpTable arpKey (fun ip args => if ip.arp.isNone then args else [0, 0]) content

def ipNetToMediaIfIndex :=
  ipNetToMediaColumn fun ip e _ => .integer (getNetifIndexByNetif ip e.netif)
def ipNetToMediaPhysAddress := ipNetToMediaColumn fun _ e _ => .string e.ethaddr.toList
def ipNetToMediaNetAddress := ipNetToMediaColumn fun _ _ args => .ipAddress (args.getD 1 0)
def ipNetToMediaType := ipNetToMediaColumn fun _ _ _ => .integer 3

/-- The key of a socket: its local address, or zero, and its local port. -/
def socketKey (s : UdpEndpoint) : Option (List ULong) :=
  let addr := match s.local_ip with
    | none => 0
    | some local_ip => longOf local_ip
  some [addr, s.local_port.setWidth 32]

/-- `find_socket`: a socket without a local address has every address. -/
def findSocket (ip : IpTables) (args : List ULong) : Option UdpEndpoint :=
  ip.udp_sockets.find? fun s =>
    s.local_port.setWidth 32 = args.getD 1 0 &&
      match s.local_ip with
      | none => true
      | some local_ip => local_ip = bytesOf ip.target (args.getD 0 0)

/-- The columns of the table of UDP sockets, which show the index only. -/
def udpColumn (content : List ULong → Content) : Column where
  get := getBy findSocket fun _ _ => content
  next := nextBy IpTables.udp_sockets (fun _ => socketKey) (fun _ args => args) fun _ _ => content

def udpLocalAddress := udpColumn fun args => .ipAddress (args.getD 0 0)
def udpLocalPort := udpColumn fun args => .integer (args.getD 1 0)

end Snmp
end Uos
