import Mathlib.Data.List.TakeWhile
import Uos.Snmp.Accepted
import Uos.Snmp.Instances

/-!
# Communities

Which functions of the variables a request makes the agent call, and for which communities.
-/

namespace Uos

open List BitVec

namespace Snmp

/-- A community as a string: it ends in front of the first zero. -/
def text (community : Community) : List UChar :=
  community.toList.takeWhile (· ≠ 0)

/-- What `strncmp` compares of a community of a request. -/
def cut (community : List UChar) : List UChar :=
  (community.takeWhile (· ≠ 0)).take 32

theorem takeWhile_positive {a : UChar} (positive : a ≠ 0) (s : List UChar) :
    (a :: s).takeWhile (· ≠ 0) = a :: s.takeWhile (· ≠ 0) :=
  takeWhile_cons_of_pos (decide_eq_true positive)

theorem takeWhile_zero (s : List UChar) : ((0 : UChar) :: s).takeWhile (· ≠ 0) = [] :=
  takeWhile_cons_of_neg (by simp)

theorem strncmpEq_cons (n : Nat) (a b : UChar) (c s : List UChar) :
    strncmpEq (n + 1) (a :: c) (b :: s) = true ↔ a = b ∧ (a = 0 ∨ strncmpEq n c s = true) := by
  rw [strncmpEq, Bool.and_eq_true, Bool.or_eq_true, decide_eq_true_iff, decide_eq_true_iff]

theorem strncmpEq_iff (n : Nat) : ∀ {c s : List UChar}, s.length = n →
    (strncmpEq n (c ++ [0]) s = true ↔ (c.takeWhile (· ≠ 0)).take n = s.takeWhile (· ≠ 0)) := by
  induction n with
  | zero =>
    intro c s length
    obtain rfl := eq_nil_of_length_eq_zero length
    simp [strncmpEq]
  | succ n ih =>
    intro c s length
    cases s with
    | nil => cases length
    | cons b s =>
      cases c with
      | nil =>
        rw [nil_append, strncmpEq_cons]
        rcases eq_or_ne b 0 with rfl | positive
        · rw [takeWhile_zero]
          exact iff_of_true ⟨rfl, .inl rfl⟩ rfl
        · rw [takeWhile_positive positive]
          exact iff_of_false (fun equal => positive equal.1.symm) (by simp)
      | cons a c =>
        rw [List.cons_append, strncmpEq_cons, ih (Nat.succ_injective length)]
        rcases eq_or_ne a 0 with rfl | positive
        · rcases eq_or_ne b 0 with rfl | positive'
          · rw [takeWhile_zero, takeWhile_zero]
            exact iff_of_true ⟨rfl, .inl rfl⟩ rfl
          · rw [takeWhile_zero, takeWhile_positive positive']
            exact iff_of_false (fun equal => positive' equal.1.symm) (by simp)
        · rw [takeWhile_positive positive, take_succ_cons, or_iff_right positive]
          rcases eq_or_ne b 0 with rfl | positive'
          · rw [takeWhile_zero]
            exact iff_of_false (fun equal => positive equal.1) (by simp)
          · rw [takeWhile_positive positive', cons_eq_cons]

variable (c : List UChar) (setflag : Bool) (i : Nat) (i3 : Turn → ULong) (request : Request)
  (outsz : Nat)

theorem strncmpEq_community (community : Community) :
    strncmpEq 32 (c ++ [0]) community.toList = true ↔ cut c = text community :=
  strncmpEq_iff 32 (by simp)

/-- A sender has an address, as far as a mask looks at it. -/
def Under (mask sender addr : IpAddr) : Prop :=
  ∀ i : Fin 4, sender[i] &&& mask[i] = addr[i] &&& mask[i]

theorem append_eq_zero {v w : Nat} (x : BitVec v) (y : BitVec w) :
    x ++ y = 0 ↔ x = 0 ∧ y = 0 := by
  constructor
  · intro zero
    have number := congrArg BitVec.toNat zero
    rw [toNat_append, ← Nat.shiftLeft_add_eq_or_of_lt y.isLt, Nat.shiftLeft_eq] at number
    simp at number
    exact ⟨eq_of_toNat_eq (by simpa using number.1),
      eq_of_toNat_eq (by simpa using number.2)⟩
  · rintro ⟨rfl, rfl⟩
    simp

theorem xor_and_eq_zero (a b m : UChar) : (a ^^^ b) &&& m = 0 ↔ a &&& m = b &&& m := by
  have distributes : (a ^^^ b) &&& m = (a &&& m) ^^^ (b &&& m) := by
    ext i inside
    simp only [getElem_and, getElem_xor]
    cases a[i] <;> cases b[i] <;> cases m[i] <;> rfl
  rw [distributes]
  exact BitVec.xor_eq_zero_iff

theorem matchesAddr_iff (snmp : Snmp) (addr mask : IpAddr) :
    matchesAddr snmp addr mask = true ↔ Under mask snmp.user_addr addr := by
  have bytes : ∀ a0 a1 a2 a3 b0 b1 b2 b3 m0 m1 m2 m3 : UChar,
      ((a0 ++ a1 ++ a2 ++ a3) ^^^ (b0 ++ b1 ++ b2 ++ b3)) &&& (m0 ++ m1 ++ m2 ++ m3) =
          (0 : BitVec (8 + 8 + 8 + 8)) ↔
        a0 &&& m0 = b0 &&& m0 ∧ a1 &&& m1 = b1 &&& m1 ∧ a2 &&& m2 = b2 &&& m2 ∧
          a3 &&& m3 = b3 &&& m3 := by
    intro a0 a1 a2 a3 b0 b1 b2 b3 m0 m1 m2 m3
    simp only [← xor_and_eq_zero]
    rw [xor_append, and_append, append_eq_zero, xor_append,
      and_append, append_eq_zero, xor_append, and_append, append_eq_zero]
    tauto
  rw [matchesAddr, decide_eq_true_iff]
  refine (bytes ..).trans ?_
  rw [Under, Fin.forall_fin_succ, Fin.forall_fin_succ, Fin.forall_fin_two]
  rfl

variable {Device : Type} {property : SnmpCall → Prop} {agent agent' agent'' start : Agent Device}
  {tab : SnmpTable Device}

/-- The calls from one state of an agent to a later one have a property. -/
def Adds (property : SnmpCall → Prop) (agent agent' : Agent Device) : Prop :=
  ∃ made, agent'.calls = agent.calls ++ made ∧ ∀ call ∈ made, property call

theorem adds_same (same : agent'.calls = agent.calls) : Adds property agent agent' :=
  ⟨[], by rw [same, append_nil], by simp⟩

theorem Adds.trans (first : Adds property agent agent') (second : Adds property agent' agent'') :
    Adds property agent agent'' := by
  obtain ⟨made, calls, holds⟩ := first
  obtain ⟨made', calls', holds'⟩ := second
  refine ⟨made ++ made', by rw [calls', calls, List.append_assoc], fun call member => ?_⟩
  rcases mem_append.mp member with old | new
  · exact holds call old
  · exact holds' call new

variable {Result : Type}

theorem adds_call {access : SnmpAccess} {var : Nat} {args : List ULong}
    {function : World Device → Result × World Device} (holds : property ⟨access, var, args⟩) :
    Adds property agent (agent.call access var args function).2 :=
  ⟨[⟨access, var, args⟩], rfl, by simpa using holds⟩

theorem adds_getSet (id : List UShort) (val : Asn) (setflag : Bool) :
    Adds (fun call => call.access = accessOf setflag) agent
      (getSet tab agent id val setflag).2.2 := by
  rw [getSet]
  split
  · exact adds_same rfl
  split
  · exact adds_same rfl
  · cases setflag with
    | true =>
      dsimp only
      split
      · exact adds_same rfl
      split_ifs
      · exact adds_same rfl
      · exact ⟨_, calls_callSet, by simp [accessOf]⟩
      · exact adds_same rfl
      · exact adds_same rfl
      · exact adds_same rfl
      · exact ⟨_, calls_callSet, by simp [accessOf]⟩
    | false =>
      dsimp only
      split
      · exact adds_same rfl
      split_ifs
      · exact adds_same rfl
      · exact ⟨_, calls_callGet, by simp [accessOf]⟩
      · exact adds_same rfl
      · exact adds_same rfl
      · exact ⟨_, calls_callGet, by simp [accessOf]⟩

theorem adds_readNext (vp : Nat) (v : SnmpVar Device) (args : List ULong) :
    Adds (fun call => call.access ≠ .set) agent (readNext agent vp v args).2 := by
  rw [readNext]
  split
  · exact adds_same rfl
  · exact adds_call (by simp)

theorem adds_nextRow (vp : Nat) (v : SnmpVar Device) (nextflag : Bool) (args : List ULong) :
    Adds (fun call => call.access ≠ .set) agent (nextRow agent vp v nextflag args).2.2 := by
  rw [nextRow]
  split
  · exact adds_readNext ..
  · exact adds_readNext ..
  · exact adds_same rfl
  · exact ⟨[⟨.next, vp, args⟩], rfl, by simp⟩

theorem adds_nextLoop (entries : List (SnmpVar Device)) :
    ∀ {agent : Agent Device} (vp : Nat) (nextflag : Bool) (load : SnmpType → List ULong)
      (i3 : ULong) (name : Asn), Adds (fun call => call.access ≠ .set) agent
        (nextLoop entries vp nextflag load i3 name agent).2.2.2 := by
  induction entries with
  | nil => exact fun _ _ _ _ _ => adds_same rfl
  | cons v entries ih =>
    intro agent vp nextflag load i3 name
    have row := @adds_nextRow _ agent vp v nextflag (load v.type)
    rw [nextLoop]
    split
    rename_i val args agent' result
    rw [result] at row
    dsimp only
    split
    · exact row.trans (ih ..)
    split
    · exact row.trans ((adds_same rfl).trans (ih ..))
    · exact row.trans (adds_same rfl)

/-- GETNEXT does not call a `set` function. -/
theorem adds_next (id : List UShort) (name : Asn) (i3 : ULong) :
    Adds (fun call => call.access ≠ .set) agent (next tab agent id name i3).2.2.2 := by
  rw [next]
  dsimp only
  split
  · exact adds_nextLoop ..
  split
  · exact adds_nextLoop ..
  split_ifs
  · exact adds_nextLoop ..
  · exact adds_nextLoop ..
  · exact adds_nextLoop ..

open Command

/-- The commands of the loops, as to the calls that they add. -/
abbrev MeetsAdds {Result : Type} (property : SnmpCall → Prop) (start : Agent Device)
    (command : Command (Frame Device) Exit Result) : Prop :=
  Meets (fun frame => Adds property start frame.agent) command
    (fun _ frame => Adds property start frame.agent) fun _ frame => Adds property start frame.agent

theorem meetsAdds_bind {First Second : Type} {command : Command (Frame Device) Exit First}
    {next : First → Command (Frame Device) Exit Second}
    (first : MeetsAdds property start command)
    (second : ∀ value, MeetsAdds property start (next value)) :
    MeetsAdds property start (command >>= next) :=
  meets_bind first second

theorem meetsAdds_onAgent {function : Agent Device → Result × Agent Device}
    (adds : ∀ agent, Adds property agent (function agent).2) :
    MeetsAdds property start (onAgent function) :=
  meets_act fun frame before => before.trans (adds frame.agent)

theorem meetsAdds_onPool {function : MemPool → Result × MemPool} :
    MeetsAdds property start (onPool function : Command (Frame Device) Exit Result) :=
  meetsAdds_onAgent fun _ => adds_same rfl

theorem meetsAdds_leave {exit : Exit} :
    MeetsAdds property start (leave exit : Command (Frame Device) Exit Result) :=
  meets_leave fun _ before => before

theorem meetsAdds_read {exit : Exit} {value : Option Result} :
    MeetsAdds property start (read exit value : Command (Frame Device) Exit Result) := by
  cases value with
  | none => exact meetsAdds_leave
  | some value => exact meets_pure fun _ before => before

theorem meetsAdds_addPair (name val : Asn) :
    MeetsAdds property start (addPair i name val : Command (Frame Device) Exit Unit) := by
  rw [addPair.eq_def]
  split
  · exact meetsAdds_leave
  · exact meetsAdds_leave
  · apply meetsAdds_bind meetsAdds_onPool
    intro block
    cases block with
    | none => exact meetsAdds_leave
    | some block =>
      intro frame before
      dsimp only
      split_ifs
      · exact before
      · exact before

theorem adds_weaken {weaker : SnmpCall → Prop} (adds : Adds property agent agent')
    (implies : ∀ call, property call → weaker call) : Adds weaker agent agent' := by
  obtain ⟨made, calls, holds⟩ := adds
  exact ⟨made, calls, fun call member => implies call (holds call member)⟩

theorem meetsAdds_serveGetSet (name val : Asn) {setflag : Bool}
    (own : ∀ call : SnmpCall, call.access = accessOf setflag → property call) :
    MeetsAdds property start (serveGetSet tab i name val setflag) := by
  rw [serveGetSet]
  apply meetsAdds_bind meetsAdds_read
  intro id
  apply meetsAdds_bind
  · exact meetsAdds_onAgent fun agent => adds_weaken (adds_getSet id val setflag) own
  rintro ⟨error_code, result⟩
  apply meetsAdds_bind (meetsAdds_onAgent fun _ => adds_same rfl)
  intro _
  split_ifs
  · exact meetsAdds_leave
  · apply meetsAdds_bind meetsAdds_onPool
    intro name
    exact meetsAdds_bind meetsAdds_onPool fun val => meetsAdds_addPair i name val
  · exact meetsAdds_bind meetsAdds_onPool fun name => meetsAdds_addPair i name result

theorem meetsAdds_serveNext (i3 : ULong) (tolerant : Bool) (i : Nat) (name : Asn)
    (own : ∀ call : SnmpCall, call.access ≠ .set → property call) :
    MeetsAdds property start (serveNext tab i3 tolerant i name) := by
  rw [serveNext]
  apply meetsAdds_bind meetsAdds_read
  intro id
  apply meetsAdds_bind
  · exact meetsAdds_onAgent fun agent => adds_weaken (adds_next id name i3) own
  rintro ⟨error_code, name, val⟩
  apply meetsAdds_bind (meetsAdds_onAgent fun _ => adds_same rfl)
  intro _
  split_ifs
  · apply meetsAdds_bind meetsAdds_onPool
    intro name
    exact meetsAdds_bind meetsAdds_onPool fun val => meetsAdds_addPair i name val
  · exact meetsAdds_leave
  · exact meetsAdds_addPair i name val

theorem kind_of_again {request : Request} {r i : Nat} (member : .again r i ∈ request.turns) :
    request.kind = .getBulk := by
  rw [Request.turns] at member
  rcases mem_append.mp member with first | again
  · obtain ⟨_, -, equal⟩ := mem_map.mp first
    cases equal
  · split_ifs at again with bulk
    · exact bulk.1
    · cases again

theorem meetsAdds_serve {turn : Turn} (member : turn ∈ request.turns) :
    MeetsAdds (fun call => call.access = .set ↔ request.kind = .set) start
      (serve tab i3 request turn) := by
  rw [serve]
  apply meetsAdds_bind
  · exact fun frame before => meetsAdds_read frame before
  intro pair
  apply meetsAdds_bind meetsAdds_read
  rintro ⟨name, val⟩
  cases turn with
  | first i =>
    dsimp only
    split_ifs
    · exact meetsAdds_bind (meetsAdds_onAgent fun _ => adds_same rfl) fun _ => meetsAdds_leave
    · cases kind : request.kind with
      | get => exact meetsAdds_serveGetSet i name val fun call own => by simp [own, accessOf]
      | set => exact meetsAdds_serveGetSet i name val (by simp [accessOf])
      | getNext => exact meetsAdds_serveNext _ _ i name (by simp)
      | getBulk => exact meetsAdds_serveNext _ _ i name (by simp)
  | again r i =>
    apply meetsAdds_serveNext
    intro call other
    simp [other, kind_of_again member]

theorem meetsAdds_turns :
    MeetsAdds (fun call => call.access = .set ↔ request.kind = .set) start
      (each request.turns (serve tab i3 request)) :=
  meets_each fun _ member => meetsAdds_serve i3 request member

theorem calls_encodeReply (tree : Asn) (outsz : Nat)
    {next : Option (List UChar) → Agent Device → Outcome × Agent Device}
    (same : ∀ output, (next output agent).2.calls = agent.calls) :
    (encodeReply tree outsz agent next).2.calls = agent.calls := by
  rw [encodeReply]
  split
  · exact same _
  · exact same _
  · rfl

theorem calls_finish (frame : Frame Device) :
    (finish request outsz frame).2.calls = frame.agent.calls := by
  apply calls_encodeReply
  intro output
  cases output with
  | some bytes => rfl
  | none => exact calls_encodeReply _ _ fun _ => rfl

theorem calls_fatal (error_code : SnmpError) (i : Nat) (frame : Frame Device) :
    (fatal request outsz error_code i frame).2.calls = frame.agent.calls := by
  rw [fatal]
  split_ifs <;> exact calls_encodeReply _ _ fun _ => rfl

theorem adds_execute :
    Adds (fun call => call.access = .set ↔ request.kind = .set) agent
      (execute tab i3 request outsz agent).2 := by
  rw [execute]
  dsimp only
  split
  · exact adds_same rfl
  split_ifs
  · exact adds_same rfl
  · rename_i block pool _ _
    let outbind : Outbind :=
      { block
        size := (request.nonrepeaters + (request.inCount.setWidth 32 - request.nonrepeaters) *
          request.repetitions).toNat % 2 ^ 30
        count := 0
        arr := [] }
    have loops := @meetsAdds_turns i3 request Device agent tab
      { agent := { agent with pool }, outbind }
      (adds_same rfl)
    split <;> rename_i result <;> rw [result] at loops
    · exact loops.trans (adds_same (calls_finish ..))
    · exact loops.trans (adds_same rfl)
    · exact loops.trans (adds_same (calls_fatal ..))
    · exact loops
    · exact loops

/-- `snmp_auth` permits a request that its community and its sender entitle to it. -/
theorem snmpAuth_iff (snmp : Snmp) (c : List UChar) (setflag : Bool) :
    (snmpAuth snmp (c ++ [0]) setflag).1 = true ↔
      (cut c = text snmp.set_community ∧ Under snmp.set_mask snmp.user_addr snmp.set_addr) ∨
      (setflag = false ∧ cut c = text snmp.get_community ∧
        Under snmp.get_mask snmp.user_addr snmp.get_addr) := by
  simp only [← strncmpEq_community, ← matchesAddr_iff]
  rw [snmpAuth]
  split_ifs with set get
  · rw [Bool.and_eq_true] at set
    exact iff_of_true rfl (.inl set)
  · rw [Bool.and_eq_true, Bool.and_eq_true, Bool.not_eq_true'] at get
    exact iff_of_true rfl (.inr ⟨get.1.1, get.1.2, get.2⟩)
  · rw [Bool.and_eq_true] at set
    rw [Bool.and_eq_true, Bool.and_eq_true, Bool.not_eq_true'] at get
    apply iff_of_false (by simp)
    rintro (set' | ⟨flag, get', sender⟩)
    · exact set set'
    · exact get ⟨⟨flag, get'⟩, sender⟩

/-- A request has the community that is configured for writing, and comes from there. -/
def Writes (snmp : Snmp) (c : List UChar) : Prop :=
  text snmp.set_community ≠ [] ∧ c = text snmp.set_community ∧
    Under snmp.set_mask snmp.user_addr snmp.set_addr

/-- A request has the community that is configured for reading, and comes from there. -/
def Reads (snmp : Snmp) (c : List UChar) : Prop :=
  c = text snmp.get_community ∧ Under snmp.get_mask snmp.user_addr snmp.get_addr

/-- A call that the community of a request entitles to. -/
def Entitled (snmp : Snmp) (c : List UChar) (call : SnmpCall) : Prop :=
  if call.access = .set then Writes snmp c else Writes snmp c ∨ Reads snmp c

/-- A community that `strncmp` finds equal to a configured one has no zero in it and at most 32
bytes, and it is not empty where it permits writing. -/
def Plain (snmp : Snmp) (c : List UChar) : Prop :=
  (cut c = text snmp.set_community → Under snmp.set_mask snmp.user_addr snmp.set_addr →
    0 ∉ c ∧ c.length ≤ 32 ∧ c ≠ []) ∧
  (cut c = text snmp.get_community → Under snmp.get_mask snmp.user_addr snmp.get_addr →
    0 ∉ c ∧ c.length ≤ 32)

theorem cut_eq_self {c : List UChar} (no_zero : 0 ∉ c) (short : c.length ≤ 32) : cut c = c := by
  have whole : c.takeWhile (· ≠ 0) = c := by
    apply takeWhile_eq_self_iff.mpr
    intro byte member
    exact decide_eq_true fun zero => no_zero (zero ▸ member)
  rw [cut, whole, take_of_length_le short]

theorem entitled_of_permitted {snmp : Snmp} {c : List UChar} {setflag : Bool} {call : SnmpCall}
    (plain : Plain snmp c) (permitted : (snmpAuth snmp (c ++ [0]) setflag).1 = true)
    (own : call.access = .set ↔ setflag = true) : Entitled snmp c call := by
  rw [Entitled]
  rcases (snmpAuth_iff ..).mp permitted with ⟨equal, sender⟩ | ⟨flag, equal, sender⟩
  · obtain ⟨no_zero, short, nonempty⟩ := plain.1 equal sender
    rw [cut_eq_self no_zero short] at equal
    have writes : Writes snmp c := ⟨equal ▸ nonempty, equal, sender⟩
    split_ifs
    · exact writes
    · exact .inl writes
  · obtain ⟨no_zero, short⟩ := plain.2 equal sender
    rw [cut_eq_self no_zero short] at equal
    rw [if_neg (by simp [own, flag])]
    exact .inr ⟨equal, sender⟩

def communityOf (pool : MemPool) (input : List UChar) : Option (List UChar) :=
  match (Asn.parse pool input).1 with
  | some (.seq _ _ _ arr, _) =>
    match arr[1]? with
    | some (Asn.string _ _ _ str) => some str
    | _ => none
  | _ => none

theorem snmpAuth_received :
    (snmpAuth (received agent).snmp (c ++ [0]) setflag).1 =
      (snmpAuth agent.snmp (c ++ [0]) setflag).1 := by
  rw [Bool.eq_iff_iff, snmpAuth_iff, snmpAuth_iff]
  rfl

theorem adds_snmpExecute {input : List UChar} (addressable : input.length < 2 ^ 32)
    (plain : ∀ c, communityOf agent.pool input = some c → Plain agent.snmp c) :
    Adds (fun call => ∃ c, communityOf agent.pool input = some c ∧ Entitled agent.snmp c call) agent
      (snmpExecute tab i3 agent input outsz).2 := by
  rw [snmpExecute]
  split
  · exact adds_same rfl
  · rename_i b rest pool parsed
    have holds := (Asn.holds_parse _).1 addressable parsed
    rcases @accept_authorised _ { received agent with pool } b holds with
      ⟨block, arr, version, community, pdu, authorised, accepted⟩ | ⟨agent', refused, untouched⟩
    · have found : communityOf agent.pool input = some community := by
        obtain ⟨block', len, second⟩ := authorised.second
        have tree :
            (Asn.parse agent.pool input).1 = some (.seq block Asn.sequence 3 arr, rest) := by
          rw [← authorised.tree]
          exact congrArg Prod.fst parsed
        simp only [communityOf, tree, second]
      have permitted := authorised.permitted
      change (snmpAuth (received agent).snmp (community ++ [0]) _).1 = true at permitted
      rw [snmpAuth_received] at permitted
      have checks := checks_acceptPdu block arr version (pdu_holds holds authorised)
        { { received agent with pool } with
          snmp := (snmpAuth (received agent).snmp (community ++ [0]) (pdu.type? = some 0xa3)).2 }
        ⟨rfl, rfl, rfl⟩
      rw [accepted]
      split <;> rename_i result <;> rw [result] at checks
      · exact adds_same checks.2.calls
      · exact adds_same checks.2.calls
      · obtain ⟨⟨-, -, -, pdu_accepted⟩, untouched⟩ := checks
        obtain ⟨type, rfl, kind⟩ := pdu_accepted.pdu
        rename_i request agent'
        have calls := @adds_execute i3 request outsz Device agent' tab
        refine (adds_same untouched.calls).trans (adds_weaken calls fun call own => ?_)
        refine ⟨community, found, entitled_of_permitted (plain community found) permitted ?_⟩
        rw [own, ofType_set kind, decide_eq_true_iff]
        exact Option.some_inj.symm
    · rw [refused]
      exact adds_same untouched.calls

/-- What comes to an agent: a request, or something else that changes what it works on. -/
inductive AgentEvent (Device : Type)
  | request (sender : IpAddr) (input : List UChar) (outsz : Nat) (i3 : Turn → ULong)
  | change (function : World Device → World Device)

/-- An agent knows the sender of a request when it executes it. -/
def knowing (agent : Agent Device) (sender : IpAddr) : Agent Device :=
  { agent with snmp.user_addr := sender }

def handle (tab : SnmpTable Device) (agent : Agent Device) : AgentEvent Device → Agent Device
  | .request sender input outsz i3 => (snmpExecute tab i3 (knowing agent sender) input outsz).2
  | .change function => { toWorld := function agent.toWorld, calls := agent.calls }

/-- A run of an agent in which every community that comes with a request is plain. -/
inductive PlainRun (tab : SnmpTable Device) : Agent Device → List (AgentEvent Device) → Prop
  | nil (agent : Agent Device) : PlainRun tab agent []
  | request {agent : Agent Device} {sender : IpAddr} {input : List UChar} {outsz : Nat}
      {i3 : Turn → ULong} {events : List (AgentEvent Device)}
      (addressable : input.length < 2 ^ 32)
      (plain : ∀ c, communityOf agent.pool input = some c → Plain (knowing agent sender).snmp c)
      (rest : PlainRun tab (handle tab agent (.request sender input outsz i3)) events) :
      PlainRun tab agent (.request sender input outsz i3 :: events)
  | change {agent : Agent Device} {function : World Device → World Device}
      {events : List (AgentEvent Device)}
      (rest : PlainRun tab (handle tab agent (.change function)) events) :
      PlainRun tab agent (.change function :: events)

/-- In a run, every request makes only the calls that its community entitles to. -/
def EntitledRun (tab : SnmpTable Device) : Agent Device → List (AgentEvent Device) → Prop
  | _, [] => True
  | agent, .request sender input outsz i3 :: events =>
    Adds (fun call => ∃ c, communityOf agent.pool input = some c ∧
        Entitled (knowing agent sender).snmp c call)
      agent (handle tab agent (.request sender input outsz i3)) ∧
    EntitledRun tab (handle tab agent (.request sender input outsz i3)) events
  | agent, .change function :: events =>
    EntitledRun tab (handle tab agent (.change function)) events

/-- An agent after `snmp_init` of an `snmp_t` filled with zeroes. -/
def initial (enterprise : ULong) (pool : MemPool) (device : Device) : Agent Device where
  snmp := Snmp.zeroed.init enterprise
  pool
  device

/-- From `snmp_init` on, in every run with plain communities all calls are those that the community
of their request entitles to. -/
theorem plainRun_entitled (enterprise : ULong) (pool : MemPool) (device : Device)
    {events : List (AgentEvent Device)}
    (run : PlainRun tab (initial enterprise pool device) events) :
    EntitledRun tab (initial enterprise pool device) events := by
  generalize initial enterprise pool device = start at run ⊢
  induction run with
  | nil => trivial
  | request addressable plain rest ih => exact ⟨adds_snmpExecute _ _ addressable plain, ih⟩
  | change rest ih => exact ih

def publicGet : List UChar :=
  [48, 35, 2, 1, 0, 4, 6, 112, 117, 98, 108, 105, 99, 160, 22, 2, 1, 7, 2, 1, 0, 2, 1,
    0, 48, 11, 48,
    9, 6, 5, 81, 10, 0, 0, 1, 5, 0]

theorem plainRun_publicGet :
    EntitledRun columns (initial 9 Asn.plenty ())
      [.request #v[10, 0, 0, 7] publicGet 100 fun _ => 0] := by
  refine plainRun_entitled 9 Asn.plenty () (.request (by decide) (fun c community => ?_) (.nil _))
  have known : communityOf Asn.plenty publicGet = some [112, 117, 98, 108, 105, 99] := by
    decide +kernel
  cases known.symm.trans community
  exact ⟨fun equal => absurd equal (by decide +kernel), fun _ _ => by decide⟩

def writableColumns : SnmpTable Unit :=
  ⟨[{ column with set := some fun _ _ world => (.noError, world) }], by decide⟩

def emptySet : List UChar :=
  [48, 29, 2, 1, 0, 4, 0, 163, 22, 2, 1, 7, 2, 1, 0, 2, 1, 0, 48, 11, 48, 9, 6, 5, 81, 10, 0, 0, 1,
    5, 0]

/-- Before a community for writing is configured, the empty one permits a SET. -/
theorem emptySet_writes :
    ¬∀ (tab : SnmpTable Unit) (enterprise : ULong) (pool : MemPool) (sender : IpAddr)
      (input : List UChar) (outsz : Nat) (i3 : Turn → ULong), input.length < 2 ^ 32 →
        EntitledRun tab (initial enterprise pool ()) [.request sender input outsz i3] := by
  intro all
  obtain ⟨⟨made, calls, entitled⟩, -⟩ :=
    all writableColumns 9 Asn.plenty #v[10, 0, 0, 7] emptySet 100 (fun _ => 0) (by decide)
  have called : (handle writableColumns (initial 9 Asn.plenty ())
      (.request #v[10, 0, 0, 7] emptySet 100 fun _ => 0)).calls =
        [⟨.set, 0, arguments [2, 1, 10, 0, 0, 1] 2 .tab4⟩] := by
    decide +kernel
  rw [called] at calls
  obtain ⟨c, -, entitled⟩ := entitled ⟨.set, 0, arguments [2, 1, 10, 0, 0, 1] 2 .tab4⟩ (by
    change _ = [] ++ made at calls
    rw [nil_append] at calls
    rw [← calls]
    exact mem_cons_self)
  exact absurd entitled.1 (by decide +kernel)

end Snmp
end Uos
