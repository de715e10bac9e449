import Uos.Net.Input

/-!
# The next hop

A packet that is forwarded goes to the gateway that the routing table gives for its destination.  A
packet of this machine is always given to its interface with the destination itself.
-/

namespace Uos

open List Option

/-- `best` is the first of the records of a kind that have the longest mask. -/
def LongestMask (eligible : Route → Bool) (routes : List Route) (best : Route) : Prop :=
  ∃ before after, routes = before ++ best :: after ∧ eligible best = true ∧
    (∀ r ∈ before, eligible r = true → r.masklen.toNat < best.masklen.toNat) ∧
    ∀ r ∈ after, eligible r = true → r.masklen.toNat ≤ best.masklen.toNat

theorem LongestMask.unique {eligible : Route → Bool} {routes : List Route} {first second : Route}
    (left : LongestMask eligible routes first) (right : LongestMask eligible routes second) :
    first = second := by
  obtain ⟨before, after, rfl, firstKind, firstBefore, firstAfter⟩ := left
  obtain ⟨before', after', split, secondKind, secondBefore, secondAfter⟩ := right
  rcases append_eq_append_iff.mp split with ⟨between, rfl, rest⟩ | ⟨between, rfl, rest⟩
  · cases between with
    | nil => exact (List.cons.inj rest).1
    | cons head between =>
      obtain ⟨rfl, rfl⟩ := List.cons.inj rest
      have shorter := secondBefore first (by simp) firstKind
      have longer := firstAfter second (by simp) secondKind
      omega
  · cases between with
    | nil => exact (List.cons.inj rest).1.symm
    | cons head between =>
      obtain ⟨rfl, rfl⟩ := List.cons.inj rest
      have shorter := firstBefore second (by simp) secondKind
      have longer := secondAfter first (by simp) firstKind
      omega

theorem longestMask_append (eligible : Route → Bool) (routes : List Route) (r : Route) :
    longestMask eligible (routes ++ [r]) =
      if !eligible r then longestMask eligible routes
      else
        match longestMask eligible routes with
        | none => some r
        | some other =>
          if r.masklen.toNat ≤ other.masklen.toNat then longestMask eligible routes
          else some r := by
  rw [longestMask, foldl_append]
  rfl

theorem longestMask_spec (eligible : Route → Bool) (routes : List Route) :
    (longestMask eligible routes = none → ∀ r ∈ routes, eligible r = false) ∧
      ∀ best, longestMask eligible routes = some best → LongestMask eligible routes best := by
  induction routes using List.reverseRecOn with
  | nil => simp [longestMask]
  | append_singleton routes r ih =>
    obtain ⟨missing, found⟩ := ih
    rw [longestMask_append]
    cases kind : eligible r with
    | false =>
      refine ⟨fun none r' member => ?_, fun best chosen => ?_⟩
      · rcases mem_append.mp member with earlier | last
        · exact missing none r' earlier
        · rwa [mem_singleton.mp last]
      · obtain ⟨before, after, rfl, bestKind, longer, notShorter⟩ := found best chosen
        refine ⟨before, after ++ [r], by simp, bestKind, longer, fun r' member r'Kind => ?_⟩
        rcases mem_append.mp member with later | last
        · exact notShorter r' later r'Kind
        · rw [mem_singleton.mp last, kind] at r'Kind
          contradiction
    | true =>
      cases previous : longestMask eligible routes with
      | none =>
        refine ⟨by simp, fun best chosen => ?_⟩
        obtain rfl : r = best := by simpa using chosen
        refine ⟨routes, [], rfl, kind, fun r' member r'Kind => ?_, by simp⟩
        rw [missing previous r' member] at r'Kind
        contradiction
      | some other =>
        obtain ⟨before, after, rfl, otherKind, longer, notShorter⟩ := found other previous
        obtain short | long := Nat.lt_or_ge other.masklen.toNat r.masklen.toNat
        · have kept := not_le.mpr short
          refine ⟨by simp [kept], fun best chosen => ?_⟩
          obtain rfl : r = best := by simpa [kept] using chosen
          refine ⟨before ++ other :: after, [], rfl, kind, fun r' member r'Kind =>
            ?_, by simp⟩
          rcases mem_append.mp member with earlier | rest
          · exact (longer r' earlier r'Kind).trans short
          · rcases mem_cons.mp rest with rfl | later
            · exact short
            · exact (notShorter r' later r'Kind).trans_lt short
        · refine ⟨by simp [long], fun best chosen => ?_⟩
          obtain rfl : other = best := by simpa [long] using chosen
          refine ⟨before, after ++ [r], by simp, kind ▸ otherKind, longer,
            fun r' member r'Kind => ?_⟩
          rcases mem_append.mp member with later | last
          · exact notShorter r' later r'Kind
          · rw [mem_singleton.mp last]
            exact long

def Route.serves (ipaddr : IpAddr) (r : Route) : Bool :=
  r.netif.isSome && r.routeMatch ipaddr

@[simp] theorem Packet.truncate_ipAddr (p : Packet) (size : UShort) (offset : Nat) :
    (p.truncate size).ipAddr offset = p.ipAddr offset := by
  rw [truncate]
  split <;> rfl

namespace Ip

variable {ip ip' : Ip} {gateway own dest : IpAddr} {netif : NetifId} {p : Packet}

theorem routeLookup_spec {ipaddr : IpAddr}
    (found : ip.routeLookup ipaddr = some (netif, gateway, own)) :
    ∃ best, LongestMask (Route.serves ipaddr) ip.route best ∧ best.netif = some netif ∧
      gateway = if best.gateway.b₀ ≠ 0 then best.gateway else ipaddr := by
  simp only [routeLookup, bind_eq_bind, bind_eq_some_iff] at found
  obtain ⟨best, chosen, interface, same, result⟩ := found
  refine ⟨best, (longestMask_spec _ _).2 best chosen, ?_, ?_⟩
  · simp only [Option.some.injEq, Prod.mk.injEq] at result
    rw [same, result.1]
  · simp only [Option.some.injEq, Prod.mk.injEq] at result
    exact result.2.1.symm

theorem routeLookup_isSome {ipaddr : IpAddr} {best : Route}
    (chosen : LongestMask (Route.serves ipaddr) ip.route best) :
    ∃ netif own, ip.routeLookup ipaddr =
      some (netif, if best.gateway.b₀ ≠ 0 then best.gateway else ipaddr, own) := by
  obtain ⟨missing, found⟩ := longestMask_spec (Route.serves ipaddr) ip.route
  cases result : longestMask (Route.serves ipaddr) ip.route with
  | none =>
    obtain ⟨before, after, split, kind, -⟩ := chosen
    have other := missing result best (by simp [split])
    rw [kind] at other
    contradiction
  | some other =>
    obtain rfl := LongestMask.unique chosen (found other result)
    obtain ⟨-, -, -, kind, -⟩ := chosen
    obtain ⟨netif, interface⟩ : ∃ netif, best.netif = some netif := by
      simp only [Route.serves, Bool.and_eq_true] at kind
      exact isSome_iff_exists.mp kind.1
    refine ⟨netif, if best.gateway[0] ≠ 0 then best.gwifaddr else best.ipaddr, ?_⟩
    change longestMask (Route.serves ipaddr) ip.route = some best at result
    simp only [routeLookup, bind_eq_bind]
    change (longestMask (Route.serves ipaddr) ip.route).bind _ = _
    rw [result]
    simp [interface]

/-- The next hop of a packet being forwarded: the gateway that the lookup returns. -/
def NextHop (ip : Ip) (dest hop : IpAddr) : Prop :=
  ∃ netif own, ip.routeLookup dest = some (netif, hop, own)

/-- Every packet given to an interface between two states has the next hop of a destination, by the
routing table of a third one. -/
def Hops (table ip ip' : Ip) (dest : IpAddr) : Prop :=
  ∃ packets, ip'.sent = ip.sent ++ packets ∧ ∀ t ∈ packets, table.NextHop dest t.ipdest

theorem Hops.silent {table : Ip} (same : ip'.sent = ip.sent) :
    Hops table ip ip' dest :=
  ⟨[], by simp [same], by simp⟩

/-- Local packets take the next hop of packets being forwarded, for one destination. -/
structure SameHop (ip : Ip) (dest : IpAddr) : Prop where
  forward : ∀ turns tcp p inp ip', p.ipAddr 16 = dest → dest.isBroadcast = false →
    ip.routeLookupSelf dest = none → (ipInput turns tcp ip p inp).result = some ip' →
    Hops ip ip ip' dest
  output : ∀ p src proto ip', ip.ipOutput p dest src proto = some ip' → Hops ip ip ip' dest
  sendto : ∀ s p port ip', ip.udpSendto s p dest port = some ip' → Hops ip ip ip' dest
  /-- The socket was connected when the table was that of `ip`. -/
  send : ∀ s p port later ip',
    later.udpSocket s = (ip.udpConnect s (some dest) port).udpSocket s →
    later.udpSend s p = some ip' → Hops ip later ip' dest

/-- The best record for a destination is that of an interface, or its gateway is the destination. -/
def Direct (ip : Ip) (dest : IpAddr) : Prop :=
  ∀ best, LongestMask (Route.serves dest) ip.route best →
    best.isInterface = true ∨ best.gateway = dest

theorem Direct.nextHop (direct : ip.Direct dest)
    (found : ip.routeLookup dest = some (netif, gateway, own)) :
    ip.NextHop dest dest := by
  obtain ⟨best, chosen, -, same⟩ := routeLookup_spec found
  have hop : gateway = dest := by
    rcases direct best chosen with interface | reached
    · simpa [Route.isInterface] using same.trans
        (if_neg (not_not.mpr (of_decide_eq_true interface)))
    · rw [same, reached, ite_self]
  exact ⟨netif, own, hop ▸ found⟩

theorem ipOutputNetif_sent {p : Buf} {netifIpaddr : IpAddr} {src gateway : Option IpAddr}
    {proto : UChar}
    (sends : ip.ipOutputNetif p dest src proto gateway netif netifIpaddr = some ip') :
    ip'.sent = ip.sent ∨ ∃ packet,
      ip'.sent = ip.sent ++ [{ netif, packet, ipdest := dest, ipsrc := netifIpaddr }] := by
  cases room : p.addHeader 20 with
  | none =>
    rw [ipOutputNetif_noRoom ip _ _ _ _ _ _ room] at sends
    exact .inl (congrArg Ip.sent (Option.some.inj sends)).symm
  | some packet =>
    obtain ⟨chksum, equal⟩ := ipOutputNetif_sends ip dest netifIpaddr src gateway proto netif room
    obtain rfl := Option.some.inj (equal.symm.trans sends)
    exact .inr ⟨_, rfl⟩

theorem hops_output {p : Buf} {src : Option IpAddr} {proto : UChar} (direct : ip.Direct dest)
    (sends : ip.ipOutput p dest src proto = some ip') :
    Hops ip ip ip' dest := by
  simp only [ipOutput] at sends
  split at sends
  · exact .silent (congrArg Ip.sent (Option.some.inj sends)).symm
  · rename_i found
    rcases ipOutputNetif_sent sends with same | ⟨packet, appended⟩
    · exact .silent same
    · exact ⟨_, appended, by simpa using direct.nextHop found⟩

theorem hops_udp {table : Ip} {s : UdpSocketId} {p : Buf} {localIp : IpAddr} {port : UShort}
    (hop : table.NextHop dest dest)
    (sends : ip.udpSendNetif s p dest port netif localIp gateway = some ip') :
    Hops table ip ip' dest := by
  simp only [udpSendNetif] at sends
  split at sends
  · exact .silent (congrArg Ip.sent (Option.some.inj sends)).symm
  · simp only [bind_eq_bind, bind_eq_some_iff] at sends
    obtain ⟨chksum, -, sends⟩ := sends
    rcases ipOutputNetif_sent sends with same | ⟨packet, appended⟩
    · exact .silent same
    · exact ⟨_, appended, by simpa using hop⟩

theorem icmpError_sent {type code : UChar} (sends : (ip.icmpError p type code).result = some ip') :
    ip'.sent = ip.sent := by
  simp only [icmpError] at sends
  split at sends
  · cases sends
    rfl
  · simp only [Packet.read, Traced.result_emit_bind, Traced.result_ofOption_bind,
      bind_eq_some_iff] at sends
    obtain ⟨sum, -, sends⟩ := sends
    simp only [ipOutput, ipOutputNetif, Buf.addHeader] at sends
    split at sends <;> obtain rfl := Option.some.inj sends <;> rfl

theorem ipForward_hops (found : ip.routeLookup dest = some (netif, gateway, own))
    (sends : (ip.ipForward p gateway netif own).result = some ip') : Hops ip ip ip' dest := by
  simp only [ipForward, Packet.read, Traced.result_emit_bind] at sends
  split at sends
  · simp only [Traced.result_emit_bind] at sends
    split at sends
    · exact .silent (icmpError_sent sends)
    · exact .silent (congrArg Ip.sent (Option.some.inj sends)).symm
  · cases sends
    exact ⟨_, rfl, by simpa using ⟨netif, own, found⟩⟩

theorem ipRelay_hops {inp : NetifId} (sends : (ip.ipRelay p inp).result = some ip') :
    Hops ip ip ip' (p.ipAddr 16) := by
  simp only [ipRelay] at sends
  split at sends
  · exact .silent (congrArg Ip.sent (Option.some.inj sends)).symm
  · rename_i routed
    split at sends
    · split at routed
      · exact ipForward_hops routed sends
      · contradiction
    · obtain rfl : ip = ip' := Option.some.inj sends
      exact .silent rfl

theorem ipInput_hops {turns : Nat} {tcp : Bool} {inp : NetifId}
    (unicast : (p.ipAddr 16).isBroadcast = false) (other : ip.routeLookupSelf (p.ipAddr 16) = none)
    (sends : (ipInput turns tcp ip p inp).result = some ip') : Hops ip ip ip' (p.ipAddr 16) := by
  have dropped : some ip = some ip' → Hops ip ip ip' (p.ipAddr 16) :=
    fun same => .silent (congrArg Ip.sent (Option.some.inj same)).symm
  simp only [ipInput, Packet.read, Traced.result_emit_bind] at sends
  split at sends
  · exact dropped sends
  split at sends
  · exact dropped sends
  simp only [Traced.result_emit_bind, Traced.result_ofOption_bind,
    bind_eq_some_iff] at sends
  obtain ⟨sum, -, sends⟩ := sends
  split at sends
  · exact dropped sends
  simp only [Traced.result_emit_bind, Packet.truncate_ipAddr, unicast, other, map_none,
    Bool.false_eq_true, if_false] at sends
  rw [← Packet.truncate_ipAddr p (p.short 2) 16]
  exact ipRelay_hops sends

theorem udpConnect_peer {s : UdpSocketId} {port : UShort}
    (interface : ((ip.udpConnect s (some dest) port).udpSocket s).netif = some netif) :
    ((ip.udpConnect s (some dest) port).udpSocket s).peerIp = dest ∧
      ∃ gateway own, ip.routeLookup dest = some (netif, gateway, own) := by
  simp only [udpConnect] at interface ⊢
  split at interface
  · simp [setUdp] at interface
  · rename_i gateway own found
    simp only [setUdp, Function.update_self, Option.some.injEq] at interface
    rw [found, interface]
    exact ⟨by simp [setUdp], gateway, own, rfl⟩

/-- Local and forwarded packets take the same next hop exactly for the destinations that are not
behind a gateway. -/
theorem sameHop_iff (ip : Ip) (dest : IpAddr) : ip.SameHop dest ↔ ip.Direct dest := by
  constructor
  · intro same best chosen
    obtain ⟨netif, own, found⟩ := routeLookup_isSome chosen
    -- An empty packet with room for an IP header is sent.
    obtain ⟨chksum, sends⟩ := ipOutputNetif_sends ip dest own none
      (some (if best.gateway[0] ≠ 0 then best.gateway else dest)) 0 netif
      (p := { room := 20, totLen := 0, chunks := [{ bytes := [] }] }) rfl
    obtain ⟨packets, split, hops⟩ := same.output _ none 0 _ (by rw [ipOutput, found]; exact sends)
    obtain rfl := append_cancel_left split
    obtain ⟨netif', own', hop⟩ := hops _ (mem_singleton_self _)
    have reached : (if best.gateway[0] ≠ 0 then best.gateway else dest) = dest := by
      have both := Option.some.inj (found.symm.trans hop)
      exact (Prod.mk.inj (Prod.mk.inj both).2).1
    split at reached
    · exact .inr reached
    · rename_i interface
      exact .inl (decide_eq_true (not_not.mp interface))
  · intro direct
    refine ⟨?_, fun p src proto ip' sends => hops_output direct sends, ?_, ?_⟩
    · rintro turns tcp p inp ip' rfl unicast other sends
      exact ipInput_hops unicast other sends
    · intro s p port ip' sends
      simp only [udpSendto] at sends
      split at sends
      · exact .silent (congrArg Ip.sent (Option.some.inj sends)).symm
      · rename_i found
        exact hops_udp (direct.nextHop found) sends
    · intro s p port later ip' connected sends
      have stays : some later = some ip' → Hops ip later ip' dest :=
        fun same => .silent (congrArg Ip.sent (Option.some.inj same)).symm
      simp only [udpSend, connected] at sends
      split at sends
      · exact stays sends
      split at sends
      · exact stays sends
      rename_i interface
      obtain ⟨peer, gateway, own, found⟩ := udpConnect_peer interface
      rw [peer] at sends
      exact hops_udp (direct.nextHop found) sends

/-- An interface 10.0.0.1/24, and a default route through 10.0.0.254. -/
def gatewayTable : Ip :=
  ({ target := .i386, wideShift := fun _ => 0 } : Ip).routeAddNetif #v[10, 0, 0, 11] 24 (some 0)
    |>.routeAddGateway .any 0 #v[10, 0, 0, 254]

/-- A packet to 8.8.8.8 is not given to its interface with the gateway. -/
theorem ipOutput_ignores_gateway : ¬gatewayTable.SameHop #v[8, 8, 8, 8] := by
  intro same
  have found : gatewayTable.routeLookup #v[8, 8, 8, 8] =
      some (0, #v[10, 0, 0, 254], #v[10, 0, 0, 11]) := by
    decide +kernel
  obtain ⟨chksum, sends⟩ := ipOutputNetif_sends gatewayTable #v[8, 8, 8, 8] #v[10, 0, 0, 11] none
    (some #v[10, 0, 0, 254]) protoUdp 0
    (p := { room := 20, totLen := 0, chunks := [{ bytes := [] }] }) rfl
  obtain ⟨packets, split, hops⟩ := same.output _ none protoUdp _
    (by rw [ipOutput, found]; exact sends)
  obtain rfl := append_cancel_left split
  obtain ⟨netif, own, hop⟩ := hops _ (mem_singleton_self _)
  have reached : (#v[10, 0, 0, 254] : IpAddr) = #v[8, 8, 8, 8] :=
    (Prod.mk.inj (Prod.mk.inj (Option.some.inj (found.symm.trans hop))).2).1
  revert reached
  decide

end Ip
end Uos
