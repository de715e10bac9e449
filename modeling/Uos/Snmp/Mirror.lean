import Uos.Snmp.Walks

/-!
# Mirrored indices

Which tables show the same rows to GET as to GETNEXT: `memcmp` takes an address in memory for the
one with the reverse bytes on a little-endian machine.
-/

namespace Uos

open List Option

namespace Snmp

open Enumeration

theorem extract_append (a b c d : UChar) :
    (a ++ b ++ c ++ d).extractLsb' 24 8 = a ∧ (a ++ b ++ c ++ d).extractLsb' 16 8 = b ∧
      (a ++ b ++ c ++ d).extractLsb' 8 8 = c ∧ (a ++ b ++ c ++ d).extractLsb' 0 8 = d := by
  refine ⟨?_, ?_, ?_, ?_⟩ <;> ext i inside <;> simp <;> grind

theorem ofHost_longOf (p : IpAddr) : .ofHost (longOf p) = p := by
  obtain ⟨first, second, third, fourth⟩ := extract_append p[0] p[1] p[2] p[3]
  simp only [longOf, IpAddr.toHost, IpAddr.ofHost, first, second, third, fourth]
  ext i inside : 1
  obtain rfl | rfl | rfl | rfl : i = 0 ∨ i = 1 ∨ i = 2 ∨ i = 3 := by omega
  all_goals simp

theorem longOf_ofHost (a : ULong) : longOf (.ofHost a) = a := by
  simp only [longOf, IpAddr.toHost, IpAddr.ofHost]
  ext i inside
  simp
  grind

theorem longOf_injective : Function.Injective longOf :=
  Function.LeftInverse.injective ofHost_longOf

/-- The address that `LONG` gives for the bytes of an address in memory. -/
def mirror (target : Target) (a : ULong) : ULong :=
  longOf (bytesOf target a)

theorem mirror_longOf (target : Target) (p : IpAddr) :
    mirror target (longOf p) = longOf (if target.bigEndian then p else p.reverse) := by
  rw [mirror, bytesOf, ofHost_longOf]

theorem mirror_involutive (target : Target) : Function.Involutive (mirror target) := by
  intro a
  rw [mirror, bytesOf]
  split_ifs with big
  · rw [longOf_ofHost, mirror, bytesOf, if_pos big, longOf_ofHost]
  · rw [mirror, bytesOf, if_neg big, ofHost_longOf, Vector.reverse_reverse, longOf_ofHost]

theorem reverse_eq_iff {p q : IpAddr} : p.reverse = q ↔ p = q.reverse := by
  constructor
  · rintro rfl
    rw [Vector.reverse_reverse]
  · rintro rfl
    rw [Vector.reverse_reverse]

/-- `memcmp` with an address in memory. -/
theorem eq_bytesOf_iff {target : Target} {p : IpAddr} {a : ULong} :
    p = bytesOf target a ↔ mirror target (longOf p) = a := by
  constructor
  · rintro rfl
    exact mirror_involutive target a
  · rintro rfl
    apply longOf_injective
    exact (mirror_involutive target (longOf p)).symm

theorem forall_single {property : List ULong → Prop} :
    (∀ args, args.length = 1 → property args) ↔ ∀ a, property [a] := by
  constructor
  · exact fun all a => all [a] rfl
  · intro all args single
    obtain ⟨a, rfl⟩ := length_eq_one_iff.mp single
    exact all a

theorem forall_pair {property : List ULong → Prop} :
    (∀ args, args.length = 2 → property args) ↔ ∀ a b, property [a, b] := by
  constructor
  · exact fun all a b => all [a, b] rfl
  · intro all args pair
    obtain ⟨a, b, rfl⟩ := length_eq_two.mp pair
    exact all a b

section Routes

variable {eligible : Route → Bool} {content : IpTables → Route → List ULong → Content}
  {ip : IpTables}

def records (eligible : Route → Bool) (ip : IpTables) : Set Route :=
  { u | u ∈ ip.route ∧ eligible u = true }

theorem mem_routeKey {u : Route} {k : List ULong} :
    k ∈ routeKey eligible u ↔ eligible u = true ∧ [longOf u.ipaddr] = k := by
  rw [routeKey]
  split_ifs with holds <;> simp [holds]

theorem records_injOn (distinct : (ip.route.filterMap (routeKey eligible)).Nodup) :
    Set.InjOn (fun u => longOf u.ipaddr) (records eligible ip) := by
  intro u member other member' same
  refine eq_of_nodup distinct member.1 member'.1 (mem_routeKey.mpr ⟨member.2, rfl⟩)
    (mem_routeKey.mpr ⟨member'.2, ?_⟩)
  exact congrArg (fun a => [a]) same.symm

theorem findByAddr_iff (distinct : (ip.route.filterMap (routeKey eligible)).Nodup) {a : ULong}
    {u : Route} :
    findByAddr eligible ip [a] = some u ↔
      u ∈ records eligible ip ∧ mirror ip.target (longOf u.ipaddr) = a := by
  have sound : ∀ {u}, findByAddr eligible ip [a] = some u →
      u ∈ records eligible ip ∧ mirror ip.target (longOf u.ipaddr) = a := by
    intro u found
    have holds := List.find?_some found
    rw [Bool.and_eq_true, decide_eq_true_iff, eq_bytesOf_iff] at holds
    exact ⟨⟨List.mem_of_find?_eq_some found, holds.1⟩, holds.2⟩
  constructor
  · exact sound
  · rintro ⟨member, here⟩
    cases found : findByAddr eligible ip [a] with
    | none =>
      have absent := List.find?_eq_none.mp found u member.1
      rw [Bool.and_eq_true, decide_eq_true_iff, eq_bytesOf_iff] at absent
      exact absurd ⟨member.2, here⟩ absent
    | some other =>
      obtain ⟨member', here'⟩ := sound found
      have same := (mirror_involutive ip.target).injective (here'.trans here.symm)
      rw [records_injOn distinct member' member same]

/-- The columns of a table of routes are consistent if and only if the machine is big-endian, or
every record has one with the reverse address that shows the same. -/
theorem routeColumn_consistent_iff {world : World IpTables} (granted : Granted world)
    (distinct : (world.device.route.filterMap (routeKey eligible)).Nodup) :
    Consistent (routeColumn eligible content) 1 (world.device.route.filterMap (routeKey eligible))
        world ↔
      world.device.target.bigEndian = true ∨
        ∀ u ∈ records eligible world.device, ∃ image ∈ records eligible world.device,
          image.ipaddr = u.ipaddr.reverse ∧
            content world.device image [longOf u.ipaddr] =
              content world.device u [longOf u.ipaddr] := by
  have images := @mirrored_iff Route ULong Content (records eligible world.device)
    (fun u => longOf u.ipaddr) (mirror world.device.target)
    (fun u a => content world.device u [a]) (mirror_involutive _) (records_injOn distinct)
  rw [routeColumn, consistent_iff granted distinct]
  refine (Iff.trans ?_ images).trans ?_
  · rw [forall_single]
    refine forall_congr' fun a => forall_congr' fun value => iff_congr ?_ ?_
    · exact exists_congr fun u => by rw [findByAddr_iff distinct, and_assoc]
    · apply exists_congr
      intro u
      rw [mem_routeKey, List.cons.injEq, eq_self, and_true]
      simp only [records, Set.mem_ofPred_eq, and_assoc]
  · cases big : world.device.target.bigEndian with
    | true =>
      refine iff_of_true (fun u member => ⟨u, member, ?_, rfl⟩) (.inl rfl)
      rw [mirror_longOf, if_pos big]
    | false =>
      simp only [mirror_longOf, big, Bool.false_eq_true, if_false, longOf_injective.eq_iff,
        false_or, reverse_eq_iff]

end Routes

section Interfaces

variable {tab : List Route} {netif : NetifId}

/-- The interfaces of the records that are counted, in their order. -/
def interfaces (tab : List Route) : List NetifId :=
  tab.filterMap interfaceOf

theorem findNetifFrom_eq {nif : ULong} (positive : nif ≠ 0) :
    findNetifFrom tab nif = (interfaces tab)[nif.toNat - 1]? := by
  induction tab generalizing nif with
  | nil => rfl
  | cons r tab ih =>
    rw [findNetifFrom, interfaces]
    cases known : interfaceOf r with
    | none =>
      rw [filterMap_cons_none known]
      exact ih positive
    | some netif =>
      rw [filterMap_cons_some known]
      dsimp only
      split_ifs with last
      · have one : nif.toNat = 1 := by bv_omega
        rw [one]
        rfl
      · rw [ih last]
        have pred : nif.toNat - 1 = (nif - 1).toNat - 1 + 1 := by bv_omega
        rw [pred]
        rfl

theorem findNetif_iff {nif : ULong} :
    findNetif tab nif = some netif ↔ nif ≠ 0 ∧ (interfaces tab)[nif.toNat - 1]? = some netif := by
  rw [findNetif]
  split_ifs with zero
  · simp [zero]
  · rw [findNetifFrom_eq zero]
    exact (and_iff_right zero).symm

theorem netifIndexByNetifFrom_absent (count : ULong) (absent : netif ∉ interfaces tab) :
    netifIndexByNetifFrom netif count tab = 0 := by
  induction tab generalizing count with
  | nil => rfl
  | cons r tab ih =>
    rw [netifIndexByNetifFrom]
    cases known : interfaceOf r with
    | none =>
      rw [interfaces, filterMap_cons_none known] at absent
      exact ih count absent
    | some other =>
      rw [interfaces, filterMap_cons_some known, mem_cons, not_or] at absent
      dsimp only
      rw [if_neg (Ne.symm absent.1)]
      exact ih _ absent.2

theorem netifIndexByNetifFrom_eq (count : ULong) {before after : List NetifId}
    (split : interfaces tab = before ++ netif :: after) (first : netif ∉ before) :
    netifIndexByNetifFrom netif count tab = count + .ofNat 32 (before.length + 1) := by
  induction tab generalizing count before with
  | nil => simp [interfaces] at split
  | cons r tab ih =>
    rw [netifIndexByNetifFrom]
    cases known : interfaceOf r with
    | none =>
      rw [interfaces, filterMap_cons_none known] at split
      exact ih count split first
    | some other =>
      rw [interfaces, filterMap_cons_some known] at split
      dsimp only
      cases before with
      | nil =>
        cases split
        rw [if_pos rfl]
        rfl
      | cons head before =>
        rw [cons_append, List.cons.injEq] at split
        obtain ⟨rfl, split⟩ := split
        rw [mem_cons, not_or] at first
        rw [if_neg (Ne.symm first.1), ih _ split first.2, length_cons]
        bv_omega

theorem getElem?_split {before after : List NetifId} (first : netif ∉ before)
    (last : netif ∉ after) {i : Nat} :
    (before ++ netif :: after)[i]? = some netif ↔ i = before.length := by
  constructor
  · intro found
    rcases Nat.lt_trichotomy i before.length with less | same | greater
    · rw [List.getElem?_append_left less] at found
      exact absurd (mem_of_getElem? found) first
    · exact same
    · obtain ⟨j, rfl⟩ := Nat.exists_eq_add_of_lt greater
      rw [List.getElem?_append_right (by omega), show before.length + j + 1 - before.length = j + 1
        by omega] at found
      exact absurd (mem_of_getElem? (l := after) found) last
  · rintro rfl
    simp

variable {ip : IpTables}

theorem length_interfaces : (interfaces ip.route).length < 2 ^ 32 :=
  (length_filterMap_le ..).trans_lt ip.route_lt

theorem findNetif_index (positive : getNetifIndexByNetif ip (some netif) ≠ 0) :
    findNetif ip.route (getNetifIndexByNetif ip (some netif)) = some netif := by
  have present : netif ∈ interfaces ip.route := by
    by_contra absent
    exact positive (netifIndexByNetifFrom_absent 0 absent)
  obtain ⟨before, after, split, first⟩ := eq_append_cons_of_mem present
  have short := @length_interfaces ip
  rw [split, length_append, length_cons] at short
  have index : (getNetifIndexByNetif ip (some netif)).toNat - 1 = before.length := by
    rw [getNetifIndexByNetif, netifIndexByNetifFrom_eq 0 split first]
    bv_omega
  rw [findNetif_iff, index, split]
  exact ⟨positive, by simp⟩

theorem count_eq_one_iff :
    (interfaces ip.route).count netif = 1 ↔
      ∀ nif, findNetif ip.route nif = some netif ↔ nif = getNetifIndexByNetif ip (some netif) := by
  rcases Classical.em (netif ∈ interfaces ip.route) with present | absent
  · obtain ⟨before, after, split, first⟩ := eq_append_cons_of_mem present
    have index : getNetifIndexByNetif ip (some netif) = .ofNat 32 (before.length + 1) := by
      rw [getNetifIndexByNetif, netifIndexByNetifFrom_eq 0 split first]
      exact BitVec.zero_add _
    have short := @length_interfaces ip
    rw [split, length_append, length_cons] at short
    rw [index, split, count_append, count_cons_self, count_eq_zero.mpr first]
    constructor
    · intro once nif
      have last : netif ∉ after := count_eq_zero.mp (by omega)
      rw [findNetif_iff, split, getElem?_split first last]
      constructor
      · rintro ⟨positive, same⟩
        bv_omega
      · rintro rfl
        constructor <;> bv_omega
    · intro all
      have last : netif ∉ after := by
        intro again
        obtain ⟨j, inside, here⟩ := mem_iff_getElem.mp again
        have found : findNetif ip.route (.ofNat 32 (before.length + j + 2)) = some netif := by
          have number : (BitVec.ofNat 32 (before.length + j + 2)).toNat - 1 =
              before.length + (j + 1) := by
            rw [BitVec.toNat_ofNat]
            omega
          rw [findNetif_iff, number, split, List.getElem?_append_right (by omega)]
          refine ⟨by bv_omega, ?_⟩
          rw [show before.length + (j + 1) - before.length = j + 1 by omega, ← here]
          exact List.getElem?_eq_getElem inside
        have same := (all _).mp found
        bv_omega
      rw [count_eq_zero.mpr last]
  · rw [count_eq_zero.mpr absent]
    refine iff_of_false (by simp) ?_
    intro all
    have none : findNetif ip.route 0 = none := rfl
    have zero := (all 0).mpr (netifIndexByNetifFrom_absent 0 absent).symm
    rw [none] at zero
    cases zero

end Interfaces

section Arp

variable {ip : IpTables} {content : IpTables → ArpEntry → List ULong → Content} {e : ArpEntry}
  {nif a : ULong}

def used (ip : IpTables) : Set ArpEntry :=
  { e | e ∈ arpTable ip ∧ e.netif.isSome = true }

def arpIndex (ip : IpTables) (e : ArpEntry) : ULong × ULong :=
  (getNetifIndexByNetif ip e.netif, longOf e.ipaddr)

theorem mem_arpKey :
    [nif, a] ∈ arpKey ip e ↔ e.netif.isSome = true ∧ arpIndex ip e = (nif, a) := by
  rw [arpKey, arpIndex]
  cases e.netif with
  | none => simp
  | some netif => simp

theorem used_injOn (distinct : ((arpTable ip).filterMap (arpKey ip)).Nodup) :
    Set.InjOn (arpIndex ip) (used ip) := by
  intro e member other member' same
  exact eq_of_nodup distinct member.1 member'.1 (mem_arpKey.mpr ⟨member.2, rfl⟩)
    (mem_arpKey.mpr ⟨member'.2, same.symm⟩)

/-- The search of GET finds an entry under each number of its interface, and under its address as
`memcmp` takes it. -/
theorem findArpByAddr_iff (distinct : ((arpTable ip).filterMap (arpKey ip)).Nodup) :
    findArpByAddr ip [nif, a] = some e ↔
      e ∈ used ip ∧ findNetif ip.route nif = e.netif ∧ mirror ip.target (longOf e.ipaddr) = a := by
  rw [findArpByAddr, show [nif, a].getD 0 0 = nif from rfl, show [nif, a].getD 1 0 = a from rfl]
  cases number : findNetif ip.route nif with
  | none =>
    refine iff_of_false (by simp) ?_
    rintro ⟨⟨-, present⟩, same, -⟩
    rw [← same] at present
    cases present
  | some netif =>
    have sound : ∀ {e : ArpEntry}, ((arpTable ip).find? fun e =>
        e.netif = some netif && e.ipaddr = bytesOf ip.target a) = some e →
        e ∈ used ip ∧ some netif = e.netif ∧ mirror ip.target (longOf e.ipaddr) = a := by
      intro e found
      have holds := List.find?_some found
      rw [Bool.and_eq_true, decide_eq_true_iff, decide_eq_true_iff, eq_bytesOf_iff] at holds
      refine ⟨⟨List.mem_of_find?_eq_some found, ?_⟩, holds.1.symm, holds.2⟩
      rw [holds.1]
      rfl
    constructor
    · exact sound
    · rintro ⟨member, same, here⟩
      cases found : (arpTable ip).find? fun e =>
          e.netif = some netif && e.ipaddr = bytesOf ip.target a with
      | none =>
        have absent := List.find?_eq_none.mp found e member.1
        rw [Bool.and_eq_true, decide_eq_true_iff, decide_eq_true_iff, eq_bytesOf_iff] at absent
        exact absurd ⟨same.symm, here⟩ absent
      | some other =>
        obtain ⟨member', same', here'⟩ := sound found
        have address := (mirror_involutive ip.target).injective (here'.trans here.symm)
        have index : arpIndex ip other = arpIndex ip e := by
          rw [arpIndex, arpIndex, ← same, ← same', address]
        exact found.trans (congrArg some (used_injOn distinct member' member index))

/-- GET and GETNEXT show the same entries. -/
def ArpAgree (ip : IpTables) (content : IpTables → ArpEntry → List ULong → Content) : Prop :=
  ∀ nif a value, (∃ e, findArpByAddr ip [nif, a] = some e ∧ value = content ip e [nif, a]) ↔
    ∃ e ∈ arpTable ip, [nif, a] ∈ arpKey ip e ∧ value = content ip e [nif, a]

theorem ArpAgree.count (agree : ArpAgree ip content)
    (distinct : ((arpTable ip).filterMap (arpKey ip)).Nodup) (member : e ∈ used ip)
    {netif : NetifId} (own : e.netif = some netif) :
    (interfaces ip.route).count netif = 1 := by
  have listed : ∀ {e : ArpEntry}, e ∈ used ip →
      findNetif ip.route (getNetifIndexByNetif ip e.netif) = e.netif := by
    intro e member
    have visited : [getNetifIndexByNetif ip e.netif, longOf e.ipaddr] ∈ arpKey ip e :=
      mem_arpKey.mpr ⟨member.2, rfl⟩
    obtain ⟨other, found, -⟩ := (agree _ _ _).mpr ⟨e, member.1, visited, rfl⟩
    obtain ⟨member', number, -⟩ := (findArpByAddr_iff distinct).mp found
    obtain ⟨netif, own⟩ := isSome_iff_exists.mp member.2
    rw [own] at number ⊢
    apply findNetif_index
    intro zero
    rw [zero] at number
    have present := member'.2
    rw [← number] at present
    cases present
  rw [count_eq_one_iff]
  intro nif
  constructor
  · intro number
    have found : findArpByAddr ip [nif, mirror ip.target (longOf e.ipaddr)] = some e :=
      (findArpByAddr_iff distinct).mpr ⟨member, number.trans own.symm, rfl⟩
    obtain ⟨other, member', index, -⟩ := (agree _ _ _).mp ⟨e, found, rfl⟩
    obtain ⟨present, index⟩ := mem_arpKey.mp index
    have number' := listed ⟨member', present⟩
    rw [show getNetifIndexByNetif ip other.netif = nif from congrArg Prod.fst index,
      number] at number'
    rw [number']
    exact (congrArg Prod.fst index).symm
  · rintro rfl
    rw [← own]
    exact listed member

theorem arpAgree_iff (distinct : ((arpTable ip).filterMap (arpKey ip)).Nodup)
    (once : ∀ e ∈ used ip, ∀ netif, e.netif = some netif →
      (interfaces ip.route).count netif = 1) :
    ArpAgree ip content ↔
      ip.target.bigEndian = true ∨
        ∀ e ∈ used ip, ∃ image ∈ used ip, image.netif = e.netif ∧ image.ipaddr = e.ipaddr.reverse ∧
          let args := [getNetifIndexByNetif ip e.netif, longOf e.ipaddr]
          content ip image args = content ip e args := by
  have number : ∀ {e : ArpEntry} {nif : ULong}, e ∈ used ip →
      (findNetif ip.route nif = e.netif ↔ getNetifIndexByNetif ip e.netif = nif) := by
    intro e nif member
    obtain ⟨netif, own⟩ := isSome_iff_exists.mp member.2
    rw [own, count_eq_one_iff.mp (once e member netif own) nif]
    exact eq_comm
  have images := @mirrored_iff ArpEntry (ULong × ULong) Content (used ip) (arpIndex ip)
    (fun k => (k.1, mirror ip.target k.2)) (fun e k => content ip e [k.1, k.2])
    (fun k => congrArg (Prod.mk k.1) (mirror_involutive ip.target k.2)) (used_injOn distinct)
  refine (Iff.trans ?_ images).trans ?_
  · rw [Prod.forall]
    refine forall_congr' fun nif => forall_congr' fun a => forall_congr' fun value =>
      iff_congr (exists_congr fun e => ?_) (exists_congr fun e => ?_)
    · rw [findArpByAddr_iff distinct, and_assoc]
      apply and_congr_right
      intro member
      rw [number member, Prod.mk.injEq]
      rfl
    · rw [mem_arpKey, used, Set.mem_ofPred_eq, and_assoc, and_assoc]
  · have same : ∀ {e image : ArpEntry}, e ∈ used ip → image ∈ used ip →
        (getNetifIndexByNetif ip image.netif = getNetifIndexByNetif ip e.netif ↔
          image.netif = e.netif) := by
      intro e image member member'
      rw [← number member', (number member).mpr rfl]
      exact eq_comm
    cases big : ip.target.bigEndian with
    | true =>
      refine iff_of_true (fun e member => ⟨e, member, ?_, rfl⟩) (.inl rfl)
      rw [arpIndex, mirror_longOf, if_pos big]
    | false =>
      rw [or_iff_right Bool.false_ne_true]
      refine forall₂_congr fun e member => exists_congr fun image =>
        and_congr_right fun member' => ?_
      rw [← same member member', ← reverse_eq_iff, ← longOf_injective.eq_iff, ← and_assoc]
      refine and_congr_left fun _ => ?_
      rw [arpIndex, arpIndex, Prod.mk.injEq, mirror_longOf, big]
      rfl

/-- The columns of the ARP table are consistent if and only if the interface of every entry in use
has one record, and the machine is big-endian, or every such entry has one of the same interface
with the reverse address that shows the same. -/
theorem arpColumn_consistent_iff {world : World IpTables} (granted : Granted world)
    (distinct : ((arpTable world.device).filterMap (arpKey world.device)).Nodup) :
    Consistent (ipNetToMediaColumn content) 2
        ((arpTable world.device).filterMap (arpKey world.device)) world ↔
      (∀ e ∈ used world.device, ∀ netif, e.netif = some netif →
        (interfaces world.device.route).count netif = 1) ∧
      (world.device.target.bigEndian = true ∨
        ∀ e ∈ used world.device, ∃ image ∈ used world.device,
          image.netif = e.netif ∧ image.ipaddr = e.ipaddr.reverse ∧
            let args := [getNetifIndexByNetif world.device e.netif, longOf e.ipaddr]
            content world.device image args = content world.device e args) := by
  rw [ipNetToMediaColumn, consistent_iff granted distinct, forall_pair]
  change ArpAgree world.device content ↔ _
  constructor
  · intro agree
    have once : ∀ e ∈ used world.device, ∀ netif, e.netif = some netif →
        (interfaces world.device.route).count netif = 1 :=
      fun e member netif own => agree.count distinct member own
    exact ⟨once, (arpAgree_iff distinct once).mp agree⟩
  · rintro ⟨once, images⟩
    exact (arpAgree_iff distinct once).mpr images

end Arp

section Sockets

variable {ip : IpTables} {content : List ULong → Content} {s : UdpEndpoint} {a port : ULong}

def sockets (ip : IpTables) : Set UdpEndpoint :=
  { s | s ∈ ip.udp_sockets }

def socketIndex (s : UdpEndpoint) : ULong × ULong :=
  (longOf (s.local_ip.getD .any), s.local_port.setWidth 32)

theorem mem_socketKey : [a, port] ∈ socketKey s ↔ socketIndex s = (a, port) := by
  rw [socketKey, socketIndex]
  cases s.local_ip with
  | none =>
    have zero : longOf .any = 0 := by decide
    simp [zero]
  | some local_ip => simp

theorem sockets_injOn (distinct : (ip.udp_sockets.filterMap socketKey).Nodup) :
    Set.InjOn socketIndex (sockets ip) := by
  intro s member other member' same
  exact eq_of_nodup distinct member member' (mem_socketKey.mpr rfl) (mem_socketKey.mpr same.symm)

theorem exists_findSocket :
    (∃ s, findSocket ip [a, port] = some s) ↔
      ∃ s ∈ sockets ip, s.local_port.setWidth 32 = port ∧
        ∀ local_ip ∈ s.local_ip, mirror ip.target (longOf local_ip) = a := by
  rw [← isSome_iff_exists, findSocket, List.find?_isSome]
  apply exists_congr
  intro s
  apply and_congr_right
  intro _
  rw [Bool.and_eq_true, decide_eq_true_iff]
  apply and_congr_right
  intro _
  cases s.local_ip with
  | none => simp
  | some local_ip => simp [eq_bytesOf_iff]

/-- GET and GETNEXT show the same sockets. -/
def SocketsAgree (ip : IpTables) : Prop :=
  ∀ a port, (∃ s, findSocket ip [a, port] = some s) ↔
    ∃ s ∈ ip.udp_sockets, [a, port] ∈ socketKey s

/-- Where they do, every socket has a local address: no list of sockets is long enough for all the
addresses that the search of GET finds otherwise. -/
theorem SocketsAgree.local (agree : SocketsAgree ip) (member : s ∈ ip.udp_sockets) :
    s.local_ip ≠ none := by
  intro wildcard
  have all : ∀ a, [a, s.local_port.setWidth 32] ∈ ip.udp_sockets.filterMap socketKey := by
    intro a
    have found : ∃ s', findSocket ip [a, s.local_port.setWidth 32] = some s' :=
      exists_findSocket.mpr ⟨s, member, rfl, by simp [wildcard]⟩
    obtain ⟨other, member', index⟩ := (agree _ _).mp found
    exact mem_filterMap.mpr ⟨other, member', index⟩
  have nodup : ((List.range (2 ^ 32)).map fun i : Nat =>
      [BitVec.ofNat 32 i, s.local_port.setWidth 32]).Nodup := by
    refine List.Nodup.map_on (fun i inside j inside' same => ?_) nodup_range
    rw [mem_range] at inside inside'
    have first := congrArg BitVec.toNat (List.cons.inj same).1
    rwa [BitVec.toNat_ofNat, BitVec.toNat_ofNat, Nat.mod_eq_of_lt inside,
      Nat.mod_eq_of_lt inside'] at first
  have subset := nodup.subperm fun key here => by
    obtain ⟨i, -, rfl⟩ := List.mem_map.mp here
    exact all _
  have long := subset.length_le.trans (length_filterMap_le ..)
  rw [length_map, length_range] at long
  exact absurd ip.udp_sockets_lt (not_lt.mpr long)

theorem socketsAgree_iff (distinct : (ip.udp_sockets.filterMap socketKey).Nodup)
    (locals : ∀ s ∈ ip.udp_sockets, s.local_ip ≠ none) :
    SocketsAgree ip ↔
      ip.target.bigEndian = true ∨
        ∀ s ∈ ip.udp_sockets, ∃ image ∈ ip.udp_sockets,
          image.local_ip = s.local_ip.map Vector.reverse ∧ image.local_port = s.local_port := by
  have images := @mirrored_iff UdpEndpoint (ULong × ULong) Unit (sockets ip) socketIndex
    (fun k => (mirror ip.target k.1, k.2)) (fun _ _ => ())
    (fun k => congrArg (Prod.mk · k.2) (mirror_involutive ip.target k.1)) (sockets_injOn distinct)
  have mirrored : ∀ {s : UdpEndpoint} {a port : ULong}, s ∈ sockets ip →
      ((mirror ip.target (socketIndex s).1, (socketIndex s).2) = (a, port) ↔
        s.local_port.setWidth 32 = port ∧
          ∀ local_ip ∈ s.local_ip, mirror ip.target (longOf local_ip) = a) := by
    intro s a port member
    obtain ⟨local_ip, own⟩ := ne_none_iff_exists'.mp (locals s member)
    rw [socketIndex, own, Prod.mk.injEq, and_comm]
    simp
  refine (Iff.trans ?_ images).trans ?_
  · rw [Prod.forall]
    refine forall_congr' fun a => forall_congr' fun port => ?_
    rw [exists_findSocket, Unique.forall_iff]
    refine iff_congr (exists_congr fun s => ?_) (exists_congr fun s => ?_)
    · exact and_congr_right fun member => by rw [mirrored member, eq_self, and_true]
    · rw [mem_socketKey, eq_self, and_true]
      rfl
  · cases big : ip.target.bigEndian with
    | true =>
      refine iff_of_true (fun s member => ⟨s, member, ?_, rfl⟩) (.inl rfl)
      rw [socketIndex, mirror_longOf, if_pos big]
    | false =>
      rw [or_iff_right Bool.false_ne_true]
      refine forall₂_congr fun s member => exists_congr fun image =>
        and_congr_right fun member' => ?_
      obtain ⟨local_ip, own⟩ := ne_none_iff_exists'.mp (locals s member)
      obtain ⟨image_ip, own'⟩ := ne_none_iff_exists'.mp (locals image member')
      rw [socketIndex, socketIndex, own, own', eq_self, and_true, Prod.mk.injEq,
        getD_some, getD_some, mirror_longOf, longOf_injective.eq_iff, big,
        if_neg Bool.false_ne_true, reverse_eq_iff, map_some, some_inj]
      apply and_congr_right
      intro _
      constructor
      · intro same
        have ports := congrArg BitVec.toNat same
        have := image.local_port.isLt
        have := s.local_port.isLt
        apply BitVec.eq_of_toNat_eq
        bv_omega
      · intro same
        rw [same]

/-- The columns of the table of sockets are consistent if and only if every socket has a local
address, and the machine is big-endian, or every socket has one with the reverse address. -/
theorem udpColumn_consistent_iff {world : World IpTables} (granted : Granted world)
    (distinct : (world.device.udp_sockets.filterMap socketKey).Nodup) :
    Consistent (udpColumn content) 2 (world.device.udp_sockets.filterMap socketKey) world ↔
      (∀ s ∈ world.device.udp_sockets, s.local_ip ≠ none) ∧
      (world.device.target.bigEndian = true ∨
        ∀ s ∈ world.device.udp_sockets, ∃ image ∈ world.device.udp_sockets,
          image.local_ip = s.local_ip.map Vector.reverse ∧ image.local_port = s.local_port) := by
  have shown : Consistent (udpColumn content) 2 (world.device.udp_sockets.filterMap socketKey)
      world ↔ SocketsAgree world.device := by
    rw [udpColumn, consistent_iff granted distinct, forall_pair]
    refine forall_congr' fun a => forall_congr' fun port => ?_
    constructor
    · intro agree
      simpa using agree (content [a, port])
    · intro agree value
      rw [exists_and_right, agree]
      simp only [← and_assoc, exists_and_right]
  rw [shown]
  constructor
  · intro agree
    have locals : ∀ s ∈ world.device.udp_sockets, s.local_ip ≠ none :=
      fun s member => agree.local member
    exact ⟨locals, (socketsAgree_iff distinct locals).mp agree⟩
  · rintro ⟨locals, images⟩
    exact (socketsAgree_iff distinct locals).mpr images

end Sockets

/-- The columns of each table, where its rows have distinct indices, are consistent if and only if
the machine is big-endian or the rows have mirror images; the interfaces of ARP entries have one
record each, and all sockets have local addresses. -/
theorem columns_consistent_iff {world : World IpTables} (granted : Granted world) :
    (∀ content, (world.device.route.filterMap (routeKey isNetif)).Nodup →
      (Consistent (ipAdEntColumn content) 1
        (world.device.route.filterMap (routeKey isNetif)) world ↔
        world.device.target.bigEndian = true ∨
          ∀ u ∈ records isNetif world.device, ∃ image ∈ records isNetif world.device,
            image.ipaddr = u.ipaddr.reverse ∧
              content world.device image [longOf u.ipaddr] =
                content world.device u [longOf u.ipaddr])) ∧
    (∀ content, (world.device.route.filterMap (routeKey isGateway)).Nodup →
      (Consistent (ipRouteColumn content) 1 (world.device.route.filterMap (routeKey isGateway))
          world ↔
        world.device.target.bigEndian = true ∨
          ∀ u ∈ records isGateway world.device, ∃ image ∈ records isGateway world.device,
            image.ipaddr = u.ipaddr.reverse ∧
              content world.device image [longOf u.ipaddr] =
                content world.device u [longOf u.ipaddr])) ∧
    (∀ content, ((arpTable world.device).filterMap (arpKey world.device)).Nodup →
      (Consistent (ipNetToMediaColumn content) 2
          ((arpTable world.device).filterMap (arpKey world.device)) world ↔
        (∀ e ∈ used world.device, ∀ netif, e.netif = some netif →
          (interfaces world.device.route).count netif = 1) ∧
        (world.device.target.bigEndian = true ∨
          ∀ e ∈ used world.device, ∃ image ∈ used world.device,
            image.netif = e.netif ∧ image.ipaddr = e.ipaddr.reverse ∧
              let args := [getNetifIndexByNetif world.device e.netif, longOf e.ipaddr]
              content world.device image args = content world.device e args))) ∧
    ∀ content, (world.device.udp_sockets.filterMap socketKey).Nodup →
      (Consistent (udpColumn content) 2 (world.device.udp_sockets.filterMap socketKey) world ↔
        (∀ s ∈ world.device.udp_sockets, s.local_ip ≠ none) ∧
        (world.device.target.bigEndian = true ∨
          ∀ s ∈ world.device.udp_sockets, ∃ image ∈ world.device.udp_sockets,
            image.local_ip = s.local_ip.map Vector.reverse ∧
              image.local_port = s.local_port)) :=
  ⟨fun _ => routeColumn_consistent_iff granted, fun _ => routeColumn_consistent_iff granted,
    fun _ => arpColumn_consistent_iff granted, fun _ => udpColumn_consistent_iff granted⟩

/-- A machine with one interface, a gateway, an ARP entry and a socket. -/
def oneOfEach (target : Target) : World IpTables where
  snmp := Snmp.zeroed
  pool := ⟨fun _ => true, 0, []⟩
  device :=
    { target
      wideMask := fun _ => 0
      route :=
        [⟨some 0, #v[10, 0, 0, 23], .any, .any, .any, .any, 8⟩,
          ⟨some 0, .any, .any, .any, #v[10, 0, 0, 24], .any, 0⟩]
      arp := some [⟨some 0, #v[10, 0, 0, 24], #v[2, 0, 0, 0, 1, 1]⟩]
      udp_sockets := [⟨some #v[10, 0, 0, 23], 161⟩]
      route_lt := by decide
      udp_sockets_lt := by decide }

theorem columns_consistent_oneOfEach :
    let world := oneOfEach (.portable true)
    Consistent ipAdEntIfIndex 1 (world.device.route.filterMap (routeKey isNetif)) world ∧
      Consistent ipRouteNextHop 1 (world.device.route.filterMap (routeKey isGateway)) world ∧
      Consistent ipNetToMediaPhysAddress 2
        ((arpTable world.device).filterMap (arpKey world.device)) world ∧
      Consistent udpLocalAddress 2 (world.device.udp_sockets.filterMap socketKey) world := by
  obtain ⟨netifs, gateways, entries, endpoints⟩ :=
    @columns_consistent_iff (oneOfEach (.portable true)) fun _ => rfl
  refine ⟨(netifs _ (by decide)).mpr (.inl rfl), (gateways _ (by decide)).mpr (.inl rfl),
    (entries _ (by decide)).mpr ⟨?_, .inl rfl⟩, (endpoints _ (by decide)).mpr ⟨?_, .inl rfl⟩⟩
  · rintro e ⟨member, -⟩ netif own
    obtain rfl := mem_singleton.mp member
    cases own
    decide
  · intro s member
    obtain rfl := mem_singleton.mp member
    simp

/-- On a little-endian machine GET does not find the interface that GETNEXT shows. -/
theorem ipAdEntAddr_littleEndian :
    ¬∀ world : World IpTables, Granted world →
      (world.device.route.filterMap (routeKey isNetif)).Nodup →
        Consistent ipAdEntAddr 1 (world.device.route.filterMap (routeKey isNetif)) world := by
  intro all
  have consistent := all (oneOfEach .i386) (fun _ => rfl) (by decide)
  rcases (routeColumn_consistent_iff (fun _ => rfl) (by decide)).mp consistent with big | images
  · cases big
  · obtain ⟨image, ⟨member, eligible⟩, reverse, -⟩ :=
      images ⟨some 0, #v[10, 0, 0, 23], .any, .any, .any, .any, 8⟩ ⟨.head _, rfl⟩
    have impossible : ∀ image ∈ (oneOfEach .i386).device.route,
        image.ipaddr ≠ (#v[10, 0, 0, 23] : IpAddr).reverse := by
      decide +kernel
    exact impossible image member reverse

end Snmp
end Uos
