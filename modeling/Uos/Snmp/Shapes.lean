import Uos.Snmp.Community

/-!
# Shapes

Where `snmp_execute` relies on the shape of a request, and which requests have this shape.
-/

namespace Uos
namespace Snmp

open Command

variable {Device : Type} {tab : SnmpTable Device} {request : Request}

theorem genErr_ne : SnmpError.genErr ≠ .noError := by
  decide

/-- A node is an object identifier. -/
def IsOid (name : Asn) : Prop :=
  (oid? name).isSome

/-- A node has at least two children. -/
def HasTwo (pair : Asn) : Prop :=
  (binding pair).isSome

/-- A name and a value in a list of bindings. -/
def IsPair (pair : Asn) : Prop :=
  ∃ block name val, pair = .seq block Asn.sequence 2 [name, val] ∧ IsOid name

/-- The list of the response holds what was put into it. -/
structure Listed (outbind : Outbind) : Prop where
  within : outbind.count.toNat ≤ outbind.arr.length
  pairs : ∀ pair ∈ outbind.arr, IsPair pair

/-- The shape that a turn relies on: a pair of the request that is not checked has two children, and
its name is an object identifier where that is not checked either; a pair of the response is
below the count. -/
def Shaped (request : Request) (frame : Frame Device) : Turn → Prop
  | .first i => ∃ pair, child request.inCount request.inArr i = some pair ∧ HasTwo pair
  | .again r i =>
    if r = 0 then
      ∃ pair name val, child request.inCount request.inArr i = some pair ∧
        binding pair = some (name, val) ∧ IsOid name
    else (request.earlier r i).toNat < frame.outbind.count.toNat

def Exit.Proper : Exit → Prop
  | .err | .overrun => True
  | .fatal error_code _ => error_code ≠ .noError
  | .confused => False

/-- A command keeps the list of the response as it should be, and leaves on purpose only. -/
abbrev Safe {Result : Type} (command : Command (Frame Device) Exit Result)
    (after : Result → Prop) : Prop :=
  Meets (fun frame => Listed frame.outbind) command
    (fun result frame => after result ∧ Listed frame.outbind) fun exit _ => exit.Proper

section Safe

variable {First Second : Type} {after : First → Prop} {last : Second → Prop}

theorem safe_bind {command : Command (Frame Device) Exit First}
    {next : First → Command (Frame Device) Exit Second} (first : Safe command after)
    (second : ∀ value, after value → Safe (next value) last) : Safe (command >>= next) last := by
  apply meets_bind first
  intro value frame before
  exact second value before.1 frame before.2

theorem safe_onAgent {function : Agent Device → First × Agent Device}
    (holds : ∀ agent, after (function agent).1) : Safe (onAgent function) after :=
  meets_act fun frame before => ⟨holds frame.agent, before⟩

theorem safe_onPool {function : MemPool → First × MemPool}
    (holds : ∀ pool, after (function pool).1) :
    Safe (onPool function : Command (Frame Device) Exit First) after :=
  safe_onAgent fun agent => holds agent.pool

theorem safe_leave {exit : Exit} (proper : exit.Proper) :
    Safe (leave exit : Command (Frame Device) Exit First) after :=
  meets_leave fun _ _ => proper

theorem isOid_of_type {name : Asn} (type : name.type? = some asnOid) : IsOid name := by
  cases name with
  | oid => rfl
  | nil => cases type
  | null | integer => exact absurd (Option.some.inj type) (by decide)
  | exception block kind | unsigned block kind val | string block kind len str =>
    cases kind <;> exact absurd (Option.some.inj type) (by decide)
  | seq block kind count arr =>
    obtain ⟨kind, constructed⟩ := kind
    have same : kind = asnOid := Option.some.inj type
    subst same
    exact absurd rfl constructed

theorem safe_addPair (i : Nat) {name : Asn} (val : Asn) (oid : name = .nil ∨ IsOid name) :
    Safe (addPair i name val : Command (Frame Device) Exit Unit) fun _ => True := by
  rw [addPair.eq_def]
  split
  · exact safe_leave genErr_ne
  · exact safe_leave genErr_ne
  · rename_i present _
    have oid := oid.resolve_left present
    apply safe_bind (safe_onPool fun _ => trivial : Safe (onPool MemPool.alloc) fun _ => True)
    intro block _
    cases block with
    | none => exact safe_leave genErr_ne
    | some block =>
      intro frame before
      dsimp only
      split_ifs with full
      · trivial
      · refine ⟨trivial, Asn.putAt_length before.within, fun pair member => ?_⟩
        rcases Asn.mem_putAt member with rfl | old
        · exact ⟨block, _, _, rfl, oid⟩
        · exact before.pairs pair old

theorem isOid_copy {name : Asn} (oid : name = .nil ∨ IsOid name) (pool : MemPool) :
    (name.copy pool).1 = .nil ∨ IsOid (name.copy pool).1 := by
  cases name with
  | nil => exact .inl rfl
  | oid block len id =>
    rw [Asn.copy]
    split
    · exact .inl rfl
    · exact .inr rfl
  | null | exception | integer | unsigned | string | seq => simp [IsOid, oid?] at oid

theorem isOid_makeOidn (pool : MemPool) (enterprise : ULong) (id : List UChar)
    (index : List UShort) :
    (makeOidn pool enterprise id index).1 = .nil ∨ IsOid (makeOidn pool enterprise id index).1 := by
  rw [makeOidn]
  split
  · exact .inl rfl
  · exact .inr rfl

/-- The name that `next` gives is an object identifier, unless there was no memory for it. -/
theorem isOid_nextLoop (entries : List (SnmpVar Device)) (vp : Nat) (nextflag : Bool)
    (load : SnmpType → List ULong) (i3 : ULong) {name : Asn} (agent : Agent Device)
    (oid : name = .nil ∨ IsOid name) :
    (nextLoop entries vp nextflag load i3 name agent).2.1 = .nil ∨
      IsOid (nextLoop entries vp nextflag load i3 name agent).2.1 := by
  induction entries generalizing vp nextflag load i3 name agent with
  | nil => exact oid
  | cons v entries ih =>
    rw [nextLoop]
    dsimp only
    split
    · exact ih _ _ _ _ _ oid
    · split
      · exact ih _ _ _ _ _ (.inl rfl)
      · rename_i made
        rw [← congrArg Prod.fst made]
        exact isOid_makeOidn ..

theorem isOid_next (agent : Agent Device) (id : List UShort) {name : Asn} (i3 : ULong)
    (oid : IsOid name) :
    (next tab agent id name i3).2.1 = .nil ∨ IsOid (next tab agent id name i3).2.1 := by
  have loops := fun entries vp nextflag load =>
    isOid_nextLoop entries vp nextflag load i3 agent (.inr oid)
  rw [next]
  dsimp only
  split
  · exact loops ..
  · split
    · exact loops ..
    · split_ifs
      · exact loops ..
      · exact loops ..
      · exact loops ..

theorem safe_count (counter : SnmpCounter) :
    Safe (onAgent fun agent : Agent Device => ((), agent.count counter)) fun _ => True :=
  safe_onAgent fun _ => trivial

theorem safe_readOid {name : Asn} (oid : IsOid name) :
    Safe (read .confused (oid? name) : Command (Frame Device) Exit _) fun _ => True := by
  obtain ⟨id, known⟩ := Option.isSome_iff_exists.mp oid
  rw [known]
  exact fun _ before => ⟨trivial, before⟩

theorem safe_copyName {name : Asn} (oid : name = .nil ∨ IsOid name) :
    Safe (onPool name.copy : Command (Frame Device) Exit _)
      fun copied => copied = .nil ∨ IsOid copied :=
  safe_onPool (isOid_copy oid)

theorem safe_serveGetSet (i : Nat) {name : Asn} (val : Asn) (setflag : Bool) (oid : IsOid name) :
    Safe (serveGetSet tab i name val setflag) fun _ => True := by
  apply safe_bind (safe_readOid oid)
  intro id _
  apply safe_bind (safe_onAgent fun _ => trivial : Safe _ fun _ => True)
  rintro ⟨error_code, result⟩ _
  apply safe_bind (safe_count _)
  intro _ _
  dsimp only
  split_ifs with fails set
  · exact safe_leave fails
  · apply safe_bind (safe_copyName (.inr oid))
    intro copied copied_oid
    apply safe_bind (safe_onPool fun _ => trivial : Safe _ fun _ => True)
    intro val _
    exact safe_addPair i val copied_oid
  · apply safe_bind (safe_copyName (.inr oid))
    intro copied copied_oid
    exact safe_addPair i result copied_oid

theorem safe_serveNext (i3 : ULong) (tolerant : Bool) (i : Nat) {name : Asn} (oid : IsOid name) :
    Safe (serveNext tab i3 tolerant i name) fun _ => True := by
  apply safe_bind (safe_readOid oid)
  intro id _
  apply safe_bind (safe_onAgent fun agent => isOid_next agent id i3 oid :
    Safe _ fun result : SnmpError × Asn × Asn => result.2.1 = .nil ∨ IsOid result.2.1)
  rintro ⟨error_code, found, val⟩ found_oid
  apply safe_bind (safe_count _)
  intro _ _
  dsimp only at found_oid ⊢
  split_ifs with ends fails
  · apply safe_bind (safe_copyName found_oid)
    intro copied copied_oid
    apply safe_bind (safe_onPool fun _ => trivial : Safe _ fun _ => True)
    intro val _
    exact safe_addPair i val copied_oid
  · exact safe_leave fails
  · exact safe_addPair i val found_oid

/-- A binding that a turn may go on with has a name and a value, and the name is an object
identifier where the turn does not check this. -/
theorem exists_binding {frame : Frame Device} {turn : Turn}
    (listed : Listed frame.outbind) (shaped : Shaped request frame turn) :
    ∃ pair name val, pairOf request frame turn = some pair ∧ binding pair = some (name, val) ∧
      ∀ r i, turn = .again r i → IsOid name := by
  cases turn with
  | first i =>
    obtain ⟨pair, found, two⟩ := shaped
    obtain ⟨⟨name, val⟩, known⟩ := Option.isSome_iff_exists.mp two
    exact ⟨pair, name, val, found, known, by simp⟩
  | again r i =>
    rw [Shaped] at shaped
    rw [pairOf]
    split_ifs at shaped ⊢ with zero
    · obtain ⟨pair, name, val, found, known, oid⟩ := shaped
      exact ⟨pair, name, val, found, known, fun _ _ _ => oid⟩
    · have inside := shaped.trans_le listed.within
      obtain ⟨block, name, val, same, oid⟩ := listed.pairs _ (List.getElem_mem inside)
      refine ⟨.seq block Asn.sequence 2 [name, val], name, val, ?_, rfl, fun _ _ _ => oid⟩
      rw [child, if_pos shaped, ← same]
      exact List.getElem?_eq_getElem inside

theorem exists_safe (tab : SnmpTable Device) (i3 : Turn → ULong) {turn : Turn}
    {frame : Frame Device} (listed : Listed frame.outbind) (shaped : Shaped request frame turn) :
    ∃ command, Safe command (fun _ => True) ∧ serve tab i3 request turn frame = command frame := by
  obtain ⟨pair, name, val, found, known, oid⟩ := exists_binding listed shaped
  simp only [serve, bind, andThen, found, known, read, pure, done]
  refine ⟨_, ?_, rfl⟩
  cases turn with
  | first i =>
    dsimp only
    split_ifs with wrong
    · apply safe_bind (safe_count _)
      exact fun _ _ => safe_leave trivial
    · rw [not_or, not_not, not_not] at wrong
      have oid := isOid_of_type wrong.2
      cases request.kind with
      | get => exact safe_serveGetSet i val false oid
      | set => exact safe_serveGetSet i val true oid
      | getNext | getBulk => exact safe_serveNext (i3 _) _ i oid
  | again r i => exact safe_serveNext (i3 _) true i (oid r i rfl)

theorem safe_serve (tab : SnmpTable Device) (i3 : Turn → ULong) (turn : Turn) :
    Meets (fun frame => Listed frame.outbind ∧ Shaped request frame turn)
      (serve tab i3 request turn) (fun _ frame => Listed frame.outbind)
      fun exit _ => exit.Proper := by
  rintro frame ⟨listed, shaped⟩
  obtain ⟨command, safe, same⟩ := exists_safe tab i3 listed shaped
  have kept := safe frame listed
  rw [same]
  generalize command frame = result at kept ⊢
  obtain ⟨exit | value, frame'⟩ := result
  · exact kept
  · exact kept.2

theorem serve_pairless (i3 : Turn → ULong) {frame : Frame Device} {turn : Turn}
    (absent : pairOf request frame turn = none) :
    (serve tab i3 request turn frame).1 = .error .confused := by
  simp only [serve, bind, andThen, absent, read, leave]

theorem serve_bindingless (i3 : Turn → ULong) {frame : Frame Device} {turn : Turn} {pair : Asn}
    (found : pairOf request frame turn = some pair) (absent : binding pair = none) :
    (serve tab i3 request turn frame).1 = .error .confused := by
  simp only [serve, bind, andThen, found, absent, read, pure, done, leave]

theorem serve_nameless (i3 : Turn → ULong) {frame : Frame Device} {r i : Nat} {pair name val : Asn}
    (found : pairOf request frame (.again r i) = some pair)
    (known : binding pair = some (name, val)) (other : ¬IsOid name) :
    (serve tab i3 request (.again r i) frame).1 = .error .confused := by
  have absent : oid? name = none := by simpa [IsOid] using other
  simp only [serve, bind, andThen, found, known, read, pure, done, serveNext, absent, leave]

theorem serve_confused_iff (i3 : Turn → ULong) {frame : Frame Device} {turn : Turn}
    (listed : Listed frame.outbind) :
    (serve tab i3 request turn frame).1 = .error .confused ↔ ¬Shaped request frame turn := by
  constructor
  · intro confused shaped
    have safe := safe_serve tab i3 turn frame ⟨listed, shaped⟩
    generalize serve tab i3 request turn frame = result at confused safe
    obtain ⟨exit, frame'⟩ := result
    subst confused
    exact safe
  · intro wrong
    cases found : pairOf request frame turn with
    | none => exact serve_pairless i3 found
    | some pair =>
      cases known : binding pair with
      | none => exact serve_bindingless i3 found known
      | some both =>
        cases turn with
        | first i =>
          refine absurd ⟨pair, found, ?_⟩ wrong
          rw [HasTwo, known]
          rfl
        | again r i =>
          apply serve_nameless i3 found known
          intro oid
          apply wrong
          rw [Shaped]
          rw [pairOf] at found
          split_ifs at found ⊢
          · exact ⟨pair, both.1, both.2, found, known, oid⟩
          · exact (child_some found).1

theorem serve_listed (tab : SnmpTable Device) (i3 : Turn → ULong) (turn : Turn) :
    Meets (fun frame => Listed frame.outbind) (serve tab i3 request turn)
      (fun _ frame => Listed frame.outbind) fun _ _ => True := by
  intro frame listed
  rcases Classical.em (Shaped request frame turn) with shaped | wrong
  · have kept := safe_serve tab i3 turn frame ⟨listed, shaped⟩
    generalize serve tab i3 request turn frame = result at kept ⊢
    obtain ⟨exit | value, frame'⟩ := result
    · trivial
    · exact kept
  · have confused := (@serve_confused_iff _ tab _ i3 _ _ listed).mpr wrong
    generalize serve tab i3 request turn frame = result at confused ⊢
    obtain ⟨exit | value, frame'⟩ := result
    · trivial
    · cases confused

end Safe

/-- The frame in which the loops of a request begin, if there is memory for the response. -/
inductive Opens (request : Request) (agent : Agent Device) : Frame Device → Prop
  | intro {block : Block} {pool : MemPool} {size : Nat}
      (granted : agent.pool.alloc = (some block, pool))
      (room : size = (request.nonrepeaters + (request.inCount.setWidth 32 - request.nonrepeaters) *
        request.repetitions).toNat % 2 ^ 30) (addressable : size ≠ 2 ^ 30 - 1) :
      Opens request agent { agent := { agent with pool }, outbind := ⟨block, size, 0, []⟩ }

variable {agent agent' : Agent Device} {i3 : Turn → ULong} {outsz : Nat}

theorem Opens.listed {frame : Frame Device} (opens : Opens request agent frame) :
    Listed frame.outbind := by
  cases opens
  exact ⟨Nat.le_refl 0, by simp⟩

theorem encodeReply_other {tree : Asn} {next : Option (List UChar) → Agent Device → Outcome × _}
    (other : ∀ output agent, (next output agent).1 ≠ .confused) :
    (encodeReply tree outsz agent next).1 ≠ .confused := by
  rw [encodeReply]
  split
  · exact other _ _
  · exact other _ _
  · exact Outcome.noConfusion

theorem finish_other (frame : Frame Device) : (finish request outsz frame).1 ≠ .confused := by
  apply encodeReply_other
  intro output agent
  cases output with
  | some bytes => simp
  | none => exact encodeReply_other (by simp)

theorem fatal_other (error_code : SnmpError) (i : Nat) (frame : Frame Device) :
    (fatal request outsz error_code i frame).1 ≠ .confused := by
  rw [fatal]
  exact encodeReply_other (by simp)

theorem execute_opens {frame : Frame Device} (opens : Opens request agent frame) :
    execute tab i3 request outsz agent =
      match each request.turns (serve tab i3 request) frame with
      | (.ok (), frame) => finish request outsz frame
      | (.error .err, frame) =>
        (.reply none,
          release (request.response 0 0 request.inbind)
            (release frame.outbind.node frame.agent))
      | (.error (.fatal error_code i), frame) => fatal request outsz error_code i frame
      | (.error .confused, frame) => (.confused, frame.agent)
      | (.error .overrun, frame) => (.overrun, frame.agent) := by
  obtain ⟨granted, rfl, addressable⟩ := opens
  rw [execute, granted]
  exact if_neg addressable

theorem execute_closed (closed : ¬∃ frame, Opens request agent frame) :
    (execute tab i3 request outsz agent).1 = .reply none ∨
      (execute tab i3 request outsz agent).1 = .overrun := by
  rw [execute]
  dsimp only
  split
  · exact .inl rfl
  · rename_i granted
    split_ifs with full
    · exact .inr rfl
    · exact absurd ⟨_, .intro granted rfl full⟩ closed

theorem execute_confused_iff :
    (execute tab i3 request outsz agent).1 = .confused ↔
      ∃ frame, Opens request agent frame ∧
        (each request.turns (serve tab i3 request) frame).1 = .error .confused := by
  rcases Classical.em (∃ frame, Opens request agent frame) with ⟨frame, opens⟩ | closed
  · have same : ∀ frame', Opens request agent frame' → frame' = frame := by
      rintro _ ⟨granted, rfl, -⟩
      obtain ⟨granted', rfl, -⟩ := opens
      cases granted.symm.trans granted'
      rfl
    rw [execute_opens opens]
    constructor
    · intro confused
      refine ⟨frame, opens, ?_⟩
      split at confused <;> rename_i result
      · exact absurd confused (finish_other _)
      · cases confused
      · exact absurd confused (fatal_other _ _ _)
      · rw [result]
      · cases confused
    · rintro ⟨frame', opens', confused⟩
      rw [same frame' opens'] at confused
      split <;> rename_i result <;> rw [result] at confused <;> cases confused
  · refine iff_of_false ?_ fun ⟨frame, opens, _⟩ => closed ⟨frame, opens⟩
    rcases @execute_closed _ tab _ _ i3 outsz closed with none | overrun
    · rw [none]
      exact Outcome.noConfusion
    · rw [overrun]
      exact Outcome.noConfusion

theorem accept_of_authorised {b pdu : Asn} {block : Block} {arr : List Asn} {version : ULong}
    {community : List UChar}
    (authorised : Authorised b agent.snmp block arr version community pdu) :
    accept b agent = acceptPdu block arr version pdu
      { agent with
        snmp := (snmpAuth agent.snmp (community ++ [0]) (pdu.type? = some 0xa3)).2 } := by
  obtain ⟨rfl, ⟨_, first⟩, known, ⟨_, _, second⟩, third, permitted⟩ := authorised
  have known : ¬(version ≠ 0 ∧ version ≠ 1) := by tauto
  have child0 : child 3 arr 0 = some _ := first
  have child1 : child 3 arr 1 = some _ := second
  have child2 : child 3 arr 2 = some _ := third
  rw [accept, if_neg (by simp)]
  simp only [child0, child1, child2, if_neg known, bind, andThen, act]
  rw [if_pos permitted]

theorem checks_accept {b : Asn} (holds : b.Holds) :
    match accept b agent with
    | (.ok request, agent') =>
      (∃ community pdu, Authorised b agent.snmp request.block request.arr request.version
        community pdu ∧ AcceptedPdu pdu request) ∧ Untouched agent agent'
    | (.error refusal, agent') =>
      (refusal = .confused → ∃ block arr version community pdu,
        Authorised b agent.snmp block arr version community pdu ∧ ¬Constructed pdu) ∧
      Untouched agent agent' := by
  rcases @accept_authorised _ agent b holds with
    ⟨block, arr, version, community, pdu, authorised, accepted⟩ | ⟨agent', refused, untouched⟩
  · have checks := @checks_acceptPdu _ agent block arr version _ (pdu_holds holds authorised)
      { agent with
        snmp := (snmpAuth agent.snmp (community ++ [0]) (pdu.type? = some 0xa3)).2 }
      ⟨rfl, rfl, rfl⟩
    rw [← accepted] at checks
    generalize accept b agent = result at checks ⊢
    obtain ⟨refusal | request, agent'⟩ := result
    · exact ⟨fun confused => ⟨_, _, _, _, _, authorised, checks.1 confused⟩, checks.2⟩
    · obtain ⟨⟨rfl, rfl, rfl, shape⟩, untouched⟩ := checks
      exact ⟨⟨_, _, authorised, shape⟩, untouched⟩
  · rw [refused]
    exact ⟨Refusal.noConfusion, untouched⟩

theorem accept_confused_iff {b : Asn} (holds : b.Holds) :
    (accept b agent).1 = .error .confused ↔
      ∃ block arr version community pdu, Authorised b agent.snmp block arr version community pdu ∧
        ¬Constructed pdu := by
  constructor
  · intro confused
    have checks := @checks_accept _ agent _ holds
    generalize accept b agent = result at confused checks
    obtain ⟨refusal | request, agent'⟩ := result
    · cases confused
      exact checks.1 rfl
    · cases confused
  · rintro ⟨block, arr, version, community, pdu, authorised, other⟩
    rw [accept_of_authorised authorised, acceptPdu.eq_def]
    cases pdu with
    | nil | null | exception | integer | unsigned | string | oid => rfl
    | seq => exact absurd trivial other

/-- The loops of a request that was received begin in a frame. -/
def Enters (agent : Agent Device) (input : List UChar) (request : Request) (frame : Frame Device) :
    Prop :=
  ∃ b rest pool agent', Asn.parse agent.pool input = (some (b, rest), pool) ∧
    accept b { received agent with pool } = (.ok request, agent') ∧ Opens request agent' frame

theorem Enters.listed {input : List UChar} {frame frame' : Frame Device} {turn : Turn}
    (enters : Enters agent input request frame)
    (comes : Comes (serve tab i3 request) request.turns frame turn frame') :
    Listed frame'.outbind := by
  obtain ⟨b, rest, pool, agent', parsed, accepted, opens⟩ := enters
  exact (comes_invariant (fun turn _ => serve_listed tab i3 turn) opens.listed comes).2

/-- What is received has the shape that the code relies on: the protocol data unit of an authorised
tree has children, and so has what the turns look at without a check. -/
structure Readable (tab : SnmpTable Device) (i3 : Turn → ULong) (agent : Agent Device)
    (input : List UChar) : Prop where
  constructed : ∀ {b rest pool block arr version community pdu},
    Asn.parse agent.pool input = (some (b, rest), pool) →
      Authorised b (received agent).snmp block arr version community pdu → Constructed pdu
  shaped : ∀ {request frame turn frame'}, Enters agent input request frame →
    Comes (serve tab i3 request) request.turns frame turn frame' → Shaped request frame' turn

theorem snmpExecute_confused {input : List UChar} :
    (snmpExecute tab i3 agent input outsz).1 = .confused ↔
      (∃ b rest pool, Asn.parse agent.pool input = (some (b, rest), pool) ∧
        (accept b { received agent with pool }).1 = .error .confused) ∨
      ∃ request frame, Enters agent input request frame ∧
        (each request.turns (serve tab i3 request) frame).1 = .error .confused := by
  have same : (received agent).pool = agent.pool := rfl
  rw [snmpExecute, same]
  generalize parsed : Asn.parse agent.pool input = answer
  rcases answer with ⟨_ | ⟨b, rest⟩, pool⟩
  · refine iff_of_false Outcome.noConfusion ?_
    rintro (⟨b, rest, pool, parsed', -⟩ | ⟨request, frame, ⟨b, rest, pool, agent', parsed', -⟩, -⟩)
    · cases parsed'
    · cases parsed.symm.trans parsed'
  · dsimp only
    generalize checked : accept b { received agent with pool } = result
    rcases result with ⟨refusal | request, agent'⟩
    · cases refusal with
      | refused =>
        refine iff_of_false Outcome.noConfusion ?_
        rintro (⟨b, rest, pool, parsed', confused⟩ |
          ⟨request, frame, ⟨b, rest, pool, agent', parsed', accepted, -⟩, -⟩)
        · cases parsed'
          rw [checked] at confused
          cases confused
        · cases parsed.symm.trans parsed'
          cases checked.symm.trans accepted
      | confused => exact iff_of_true rfl (.inl ⟨b, rest, pool, rfl, by rw [checked]⟩)
    · dsimp only
      rw [execute_confused_iff]
      constructor
      · rintro ⟨frame, opens, confused⟩
        exact .inr ⟨request, frame, ⟨b, rest, pool, agent', parsed, checked, opens⟩, confused⟩
      · rintro (⟨b, rest, pool, parsed', confused⟩ |
          ⟨request, frame, ⟨b, rest, pool, agent', parsed', accepted, opens⟩, confused⟩)
        · cases parsed'
          rw [checked] at confused
          cases confused
        · cases parsed.symm.trans parsed'
          cases checked.symm.trans accepted
          exact ⟨frame, opens, confused⟩

theorem snmpExecute_confused_iff {input : List UChar} (addressable : input.length < 2 ^ 32) :
    (snmpExecute tab i3 agent input outsz).1 ≠ .confused ↔ Readable tab i3 agent input := by
  rw [Ne, snmpExecute_confused, not_or]
  constructor
  · rintro ⟨checks, loops⟩
    constructor
    · intro b rest pool block arr version community pdu parsed authorised
      have holds := (Asn.holds_parse _).1 addressable parsed
      by_contra other
      exact checks ⟨b, rest, pool, parsed,
        (accept_confused_iff holds).mpr ⟨_, _, _, _, _, authorised, other⟩⟩
    · intro request frame turn frame' enters comes
      have listed := enters.listed comes
      by_contra wrong
      exact loops ⟨request, frame, enters,
        each_leaves_iff.mpr ⟨turn, frame', comes, (serve_confused_iff i3 listed).mpr wrong⟩⟩
  · intro readable
    constructor
    · rintro ⟨b, rest, pool, parsed, confused⟩
      have holds := (Asn.holds_parse _).1 addressable parsed
      obtain ⟨_, _, _, _, _, authorised, other⟩ := (accept_confused_iff holds).mp confused
      exact other (readable.constructed parsed authorised)
    · rintro ⟨request, frame, enters, confused⟩
      obtain ⟨turn, frame', comes, confused⟩ := each_leaves_iff.mp confused
      have listed := enters.listed comes
      exact (serve_confused_iff i3 listed).mp confused (readable.shaped enters comes)

/-- A pair of a name and a value, as a request has to hold it. -/
def PairShape (pair : Asn) : Prop :=
  pair.type? = some Asn.sequence.1 ∧ ∃ name val, binding pair = some (name, val) ∧ IsOid name

/-- The shape of a request with a list of bindings. -/
inductive MessageShape : Asn → UShort → List Asn → Prop
  | intro {block pduBlock inBlock : Block} {arr pduArr inArr : List Asn} {inCount : UShort}
      {type : AsnConstructed} {kind : RequestKind}
      (version : ∃ block val, arr[0]? = some (.integer block val))
      (community : ∃ block len str, arr[1]? = some (.string block .string len str))
      (pdu : arr[2]? = some (.seq pduBlock type 4 pduArr))
      (known : RequestKind.ofType type.1 = some kind)
      (numbers : ∀ i < 3, ∃ block val, pduArr[i]? = some (.integer block val))
      (bindings : pduArr[3]? = some (.seq inBlock Asn.sequence inCount inArr)) :
      MessageShape (.seq block Asn.sequence 3 arr) inCount inArr

/-- The shape that a request is expected to have. -/
def Expected (b : Asn) : Prop :=
  ∃ inCount inArr, MessageShape b inCount inArr ∧
    ∀ i < inCount.toNat, ∃ pair, inArr[i]? = some pair ∧ PairShape pair

theorem messageShape_accepted {b pdu : Asn} {snmp : Snmp} {community : List UChar}
    (authorised : Authorised b snmp request.block request.arr request.version community pdu)
    (accepted : AcceptedPdu pdu request) : MessageShape b request.inCount request.inArr := by
  obtain ⟨rfl, ⟨_, first⟩, -, ⟨_, _, second⟩, third, -⟩ := authorised
  obtain ⟨⟨type, rfl, known⟩, number0, ⟨val1, number1⟩, ⟨val2, number2⟩, bindings, -⟩ := accepted
  refine .intro ⟨_, _, first⟩ ⟨_, _, _, second⟩ third known (fun i small => ?_) bindings
  match i, small with
  | 0, _ => exact number0
  | 1, _ => exact ⟨_, _, number1⟩
  | 2, _ => exact ⟨_, _, number2⟩

theorem pairShape_goes {i : Nat} {frame frame' : Frame Device}
    (goes : serve tab i3 request (.first i) frame = (.ok (), frame')) :
    ∃ pair, child request.inCount request.inArr i = some pair ∧ PairShape pair := by
  cases found : pairOf request frame (.first i) with
  | none =>
    have confused := @serve_pairless _ tab _ i3 _ _ found
    rw [goes] at confused
    cases confused
  | some pair =>
    cases known : binding pair with
    | none =>
      have confused := @serve_bindingless _ tab _ i3 _ _ _ found known
      rw [goes] at confused
      cases confused
    | some both =>
      obtain ⟨name, val⟩ := both
      simp only [serve, bind, andThen, found, known, read, pure, done] at goes
      split_ifs at goes with wrong
      · cases goes
      · rw [not_or, not_not, not_not] at wrong
        exact ⟨pair, found, wrong.1, name, val, known, isOid_of_type wrong.2⟩

/-- A response is not given before all bindings are known to be pairs: those that no turn of the
first loop looks at are. -/
def Covered (tab : SnmpTable Device) (i3 : Turn → ULong) (agent : Agent Device)
    (input : List UChar) (outsz : Nat) : Prop :=
  ∀ {request frame frame'}, Enters agent input request frame →
    each request.turns (serve tab i3 request) frame = (.ok (), frame') →
    (∃ bytes, (request.response 0 0 frame'.outbind.node).encode outsz = .ok bytes) →
    ∀ i, request.nonrepeaters.toNat ≤ i → i < request.inCount.toNat →
      ∃ pair, request.inArr[i]? = some pair ∧ PairShape pair

/-- A response with an error to a request that was received. -/
def ErrorResponse (agent : Agent Device) (input : List UChar) (outsz : Nat) (bytes : List UChar) :
    Prop :=
  ∃ request frame status index, Enters agent input request frame ∧ status ≠ SnmpError.noError ∧
    (request.response status index request.inbind).encode outsz = .ok bytes

theorem encodeReply_output {tree : Asn} {next : Option (List UChar) → Agent Device → Outcome × _}
    {bytes : List UChar} (replies : (encodeReply tree outsz agent next).1 = .reply (some bytes)) :
    (∃ written, tree.encode outsz = .ok written ∧
      (next (some written) agent).1 = .reply (some bytes)) ∨
    (next none agent).1 = .reply (some bytes) := by
  rw [encodeReply] at replies
  split at replies
  · rename_i written encoded
    exact .inl ⟨written, encoded, replies⟩
  · exact .inr replies
  · cases replies

theorem encodeReply_last {tree : Asn} {last : Option (List UChar) → Agent Device → Agent Device}
    {bytes : List UChar}
    (replies : (encodeReply tree outsz agent fun output agent =>
      (.reply output, last output agent)).1 =
      .reply (some bytes)) : tree.encode outsz = .ok bytes := by
  rcases encodeReply_output replies with ⟨written, encoded, same⟩ | nothing
  · cases same
    exact encoded
  · cases nothing

theorem snmpExecute_rejects {input bytes : List UChar} (addressable : input.length < 2 ^ 32)
    (readable : Readable tab i3 agent input) (covered : Covered tab i3 agent input outsz)
    (other : ∀ {b rest pool}, Asn.parse agent.pool input = (some (b, rest), pool) → ¬Expected b)
    (replies : (snmpExecute tab i3 agent input outsz).1 = .reply (some bytes)) :
    ErrorResponse agent input outsz bytes := by
  have same : (received agent).pool = agent.pool := rfl
  rw [snmpExecute, same] at replies
  generalize parsed : Asn.parse agent.pool input = answer at replies
  rcases answer with ⟨_ | ⟨b, rest⟩, pool⟩
  · cases replies
  dsimp only at replies
  have holds := (Asn.holds_parse _).1 addressable parsed
  have checks := @checks_accept _ { received agent with pool } _ holds
  generalize accepted : accept b { received agent with pool } = result at replies checks
  rcases result with ⟨refusal | request, agent'⟩
  · cases refusal <;> cases replies
  obtain ⟨⟨community, pdu, authorised, shape⟩, -⟩ := checks
  have message := messageShape_accepted authorised shape
  dsimp only at replies
  rcases Classical.em (∃ frame, Opens request agent' frame) with ⟨frame, opens⟩ | closed
  · have enters :
        Enters agent input request frame := ⟨b, rest, pool, agent', parsed, accepted, opens⟩
    rw [execute_opens opens] at replies
    split at replies <;> rename_i loops
    · rename_i frame'
      rcases encodeReply_output replies with ⟨written, encoded, same⟩ | big
      · refine absurd ⟨_, _, message, fun i inside => ?_⟩ (other parsed)
        rcases Nat.lt_or_ge i request.nonrepeaters.toNat with first | later
        · have turn : Turn.first i ∈ request.turns :=
            List.mem_append_left _ (List.mem_map.mpr ⟨i, List.mem_range.mpr first, rfl⟩)
          obtain ⟨s₁, s₂, -, goes⟩ := each_ends loops turn
          obtain ⟨pair, found, pair_shape⟩ := pairShape_goes goes
          exact ⟨pair, (child_some found).2, pair_shape⟩
        · exact covered enters loops ⟨written, encoded⟩ i later inside
      · exact ⟨request, frame, .tooBig, 0, enters, by decide, encodeReply_last big⟩
    · cases replies
    · rename_i error_code i frame'
      have leaves : (each request.turns (serve tab i3 request) frame).1 =
          .error (.fatal error_code i) := by rw [loops]
      obtain ⟨turn, frame'', comes, leaves⟩ := each_leaves_iff.mp leaves
      have proper := safe_serve tab i3 turn frame''
        ⟨enters.listed comes, readable.shaped enters comes⟩
      generalize serve tab i3 request turn frame'' = result at leaves proper
      obtain ⟨exit | value, frame''⟩ := result
      · cases leaves
        exact ⟨request, frame, error_code, _, enters, proper, encodeReply_last replies⟩
      · cases leaves
    · cases replies
    · cases replies
  · rcases execute_closed closed with none | overrun
    · rw [none] at replies
      cases replies
    · rw [overrun] at replies
      cases replies

/-- Only a request that is not readable confuses the agent, and what has not the expected shape is
not answered, or with an error. -/
theorem snmpExecute_shape_iff {input : List UChar} (addressable : input.length < 2 ^ 32) :
    ((snmpExecute tab i3 agent input outsz).1 ≠ .confused ↔ Readable tab i3 agent input) ∧
      (Readable tab i3 agent input → Covered tab i3 agent input outsz →
        (∀ {b rest pool}, Asn.parse agent.pool input = (some (b, rest), pool) → ¬Expected b) →
          ∀ bytes, (snmpExecute tab i3 agent input outsz).1 = .reply (some bytes) →
            ErrorResponse agent input outsz bytes) :=
  ⟨snmpExecute_confused_iff addressable, fun readable covered other _ replies =>
    snmpExecute_rejects addressable readable covered other replies⟩

deriving instance DecidableEq for Outcome

def namelessGet : List UChar :=
  [48, 35, 2, 1, 0, 4, 6, 112, 117, 98, 108, 105, 99, 160, 22, 2, 1, 7, 2, 1, 0, 2, 1,
    0, 48, 11, 48,
    9, 4, 5, 81, 10, 0, 0, 1, 5, 0]

theorem readable_namelessGet :
    Readable columns (fun _ => 0) (initial 9 Asn.plenty ()) namelessGet :=
  (@snmpExecute_shape_iff _ columns (initial 9 Asn.plenty ()) (fun _ => 0) 100 namelessGet
    (by decide)).1.mp (by decide +kernel)

def scalarPdu : List UChar :=
  [48, 14, 2, 1, 0, 4, 6, 112, 117, 98, 108, 105, 99, 2, 1, 7]

def stringBulk : List UChar :=
  [48, 35, 2, 1, 1, 4, 6, 112, 117, 98, 108, 105, 99, 165, 22, 2, 1, 7, 2, 1, 0, 2, 1, 1, 48, 11, 4,
    9, 4, 5, 81, 10, 0, 0, 1, 5, 0]

/-- A request with an accepted community confuses the agent. -/
def Confuses (input : List UChar) : Prop :=
  (∃ c, communityOf Asn.plenty input = some c ∧
    (snmpAuth (initial 9 Asn.plenty ()).snmp (c ++ [0]) false).1 = true) ∧
  (snmpExecute columns (fun _ => 0) (initial 9 Asn.plenty ()) input 100).1 = .confused

/-- With the accepted community "public" both confuse the agent. -/
theorem scalarPdu_confuses : Confuses scalarPdu ∧ Confuses stringBulk := by
  have community : ∀ input ∈ [scalarPdu, stringBulk],
      communityOf Asn.plenty input = some [112, 117, 98, 108, 105, 99] := by
    decide +kernel
  have confused : ∀ input ∈ [scalarPdu, stringBulk],
      (snmpExecute columns (fun _ => 0) (initial 9 Asn.plenty ()) input 100).1 = .confused := by
    decide +kernel
  have both : ∀ input ∈ [scalarPdu, stringBulk], Confuses input := fun input member =>
    ⟨⟨_, community input member, by decide +kernel⟩, confused input member⟩
  exact ⟨both scalarPdu List.mem_cons_self,
    both stringBulk (List.mem_cons_of_mem _ List.mem_cons_self)⟩

end Snmp
end Uos
