import Uos.Library.Commands
import Uos.Snmp.Encode
import Uos.Snmp.Next
import Uos.Snmp.Parse

/-!
# Executing a request

`snmp_auth`, `add_pair` and `snmp_execute` of `snmp/snmp.c`.
-/

namespace Uos
namespace Snmp

/-- `strncmp` finds no difference between two strings. -/
def strncmpEq : Nat → List UChar → List UChar → Bool
  | 0, _, _ => true
  | n + 1, a :: s, b :: t => a = b && (a = 0 || strncmpEq n s t)
  | _ + 1, _, _ => false

/-- `fetch_addr`; the order of the bytes does not matter here. -/
def fetchAddr (addr : IpAddr) : ULong :=
  addr.b₀ ++ addr.b₁ ++ addr.b₂ ++ addr.b₃

/-- The sender of a request matches an address under a mask. -/
def matchesAddr (snmp : Snmp) (addr mask : IpAddr) : Bool :=
  (fetchAddr snmp.user_addr ^^^ fetchAddr addr) &&& fetchAddr mask = 0

/-- `snmp_auth` of a community, up to the terminating zero. -/
def snmpAuth (snmp : Snmp) (community : List UChar) (setflag : Bool) : Bool × Snmp :=
  let set := strncmpEq 32 community snmp.set_community.toList
  let get := !setflag && strncmpEq 32 community snmp.get_community.toList
  if set && matchesAddr snmp snmp.set_addr snmp.set_mask then (true, snmp)
  else if get && matchesAddr snmp snmp.get_addr snmp.get_mask then (true, snmp)
  else (false, snmp.count (if set || get then .inBadCommunityUses else .inBadCommunityNames))

/-- The types of requests. -/
inductive RequestKind
  | get
  | getNext
  | getBulk
  | set
  deriving DecidableEq

namespace RequestKind

/-- `ASN_GET_REQUEST` and its relatives. -/
def ofType (type : UChar) : Option RequestKind :=
  if type = 0xa0 then some get
  else if type = 0xa1 then some getNext
  else if type = 0xa5 then some getBulk
  else if type = 0xa3 then some set
  else none

def counter : RequestKind → SnmpCounter
  | get => .inGetRequests
  | getNext => .inGetNexts
  | getBulk => .inGetBulks
  | set => .inSetRequests

end RequestKind

/-- `ASN_GET_RESPONSE` -/
def getResponse : AsnConstructed := ⟨0xa2, by decide⟩

/-- A request that passed the checks: the parts of its tree. -/
structure Request where
  block : Block
  arr : List Asn
  version : ULong
  pduBlock : Block
  pduArr : List Asn
  statusBlock : Block
  indexBlock : Block
  inBlock : Block
  inCount : UShort
  inArr : List Asn
  kind : RequestKind
  nonrepeaters : BitVec 32
  repetitions : BitVec 32

namespace Request

def inbind (request : Request) : Asn :=
  .seq request.inBlock Asn.sequence request.inCount request.inArr

/-- The tree of a request as a response with other numbers and bindings. -/
def response (request : Request) (status index : ULong) (bindings : Asn) : Asn :=
  let pdu := ((request.pduArr.set 1 (.integer request.statusBlock status)).set 2
    (.integer request.indexBlock index)).set 3 bindings
  .seq request.block Asn.sequence 3 (request.arr.set 2 (.seq request.pduBlock getResponse 4 pdu))

end Request

/-- Why a request is not executed. -/
inductive Refusal
  /-- `goto err`, or the same with another counter. -/
  | refused
  /-- A field of a node of another type is read, or a child that is not there. -/
  | confused
  deriving DecidableEq

variable {Device : Type}

def child (count : UShort) (arr : List Asn) (index : Nat) : Option Asn :=
  if index < count.toNat then arr[index]? else none

def read {State Exit Result : Type} (confused : Exit) : Option Result → Command State Exit Result
  | none => .leave confused
  | some value => pure value

def refuse {Result : Type} (counter : SnmpCounter) : Command (Agent Device) Refusal Result := do
  .act fun agent => ((), agent.count counter)
  .leave .refused

/-- The non-repeaters and the repetitions of a request with these numbers. -/
def repeats (kind : RequestKind) (count : UShort) (status index : ULong) :
    BitVec 32 × BitVec 32 :=
  let all : BitVec 32 := count.setWidth 32
  if kind = .getBulk then
    let nonrepeaters :=
      if status.toInt < 0 then 0
      else if (count.toNat : Int) < status.toInt then all
      else status
    let repetitions := if index.toInt < 0 then 0 else index
    if nonrepeaters = 0 ∧ repetitions = 0 then (all, repetitions)
    else (nonrepeaters, repetitions)
  else (all, 0)

/-- The part of `snmp_execute` from the checks of the protocol data unit on. -/
def acceptPdu (block : Block) (arr : List Asn) (version : ULong) (pdu : Asn) :
    Command (Agent Device) Refusal Request :=
  match pdu with
  | .seq pduBlock pduType count pduArr =>
    if count ≠ 4 then refuse .inAsnParseErrs
    else
      match child count pduArr 0, child count pduArr 1, child count pduArr 2,
        child count pduArr 3 with
      | some (.integer _ _), some (.integer statusBlock status),
        some (.integer indexBlock index), some (.seq inBlock inType inCount inArr) =>
          if inType ≠ Asn.sequence then refuse .inAsnParseErrs
          else
            match RequestKind.ofType pduType.1 with
            | none => refuse .inAsnParseErrs
            | some kind => do
              .act fun agent => ((), agent.count kind.counter)
              let (nonrepeaters, repetitions) := repeats kind inCount status index
              return {
                block, arr, version, pduBlock, pduArr, statusBlock, indexBlock, inBlock,
                inCount, inArr, kind, nonrepeaters, repetitions }
      | some _, some _, some _, some _ => refuse .inAsnParseErrs
      | _, _, _, _ => .leave .confused
  | _ => .leave .confused

/-- The checks of `snmp_execute`. -/
def accept (b : Asn) : Command (Agent Device) Refusal Request :=
  match b with
  | .seq block type count arr =>
    if type ≠ Asn.sequence ∨ count ≠ 3 then refuse .inAsnParseErrs
    else
      match child count arr 0, child count arr 1, child count arr 2 with
      | some (.integer _ version), some (.string _ .string _ community), some pdu =>
        if version ≠ 0 ∧ version ≠ 1 then refuse .inBadVersions
        else do
          let setflag := pdu.type? = some 0xa3
          let permitted ← .act fun agent =>
            let (permitted, snmp) := snmpAuth agent.snmp (community ++ [0]) setflag
            (permitted, { agent with snmp })
          if permitted then acceptPdu block arr version pdu
          else do
            .act fun agent => ((), { agent with snmp.auth_failure := true })
            .leave .refused
      | some _, some _, some _ => refuse .inAsnParseErrs
      | _, _, _ => .leave .confused
  | _ => refuse .inAsnParseErrs

/-- The list of the bindings of the response, with the number of pointers in its block. -/
structure Outbind where
  block : Block
  size : Nat
  count : UShort
  arr : List Asn

def Outbind.node (outbind : Outbind) : Asn :=
  .seq outbind.block Asn.sequence outbind.count outbind.arr

/-- What the loops of `snmp_execute` work on. -/
structure Frame (Device : Type) where
  agent : Agent Device
  outbind : Outbind

/-- Why the loops are left. -/
inductive Exit
  /-- `goto err` -/
  | err
  /-- `goto fatal` -/
  | fatal (error_code : SnmpError) (i : Nat)
  /-- A field of a node of another type is read, or a child that is not there. -/
  | confused
  /-- Something is written behind the list of the response. -/
  | overrun
  deriving DecidableEq

/-- A turn of the first loop of `snmp_execute`, or of the loops that repeat variables. -/
inductive Turn
  | first (i : Nat)
  | again (r i : Nat)
  deriving DecidableEq

def Turn.index : Turn → Nat
  | first i => i
  | again _ i => i

def Request.turns (request : Request) : List Turn :=
  let nonrepeaters := request.nonrepeaters.toNat
  (List.range nonrepeaters).map Turn.first ++
    if request.kind = .getBulk ∧ request.version ≠ 0 then
      (List.range request.repetitions.toNat).flatMap fun r =>
        (List.range' nonrepeaters (request.inCount.toNat - nonrepeaters)).map (Turn.again r)
    else []

/-- The index of the pair that the repetition in front of this one gave. -/
def Request.earlier (request : Request) (r i : Nat) : BitVec 32 :=
  .ofNat 32 i + .ofNat 32 (r - 1) * (request.inCount.setWidth 32 - request.nonrepeaters)

/-- The pair that a turn looks at: one of the request, or of the repetition in front of it. -/
def pairOf (request : Request) (frame : Frame Device) : Turn → Option Asn
  | .first i => child request.inCount request.inArr i
  | .again r i =>
    if r = 0 then child request.inCount request.inArr i
    else child frame.outbind.count frame.outbind.arr (request.earlier r i).toNat

def binding : Asn → Option (Asn × Asn)
  | .seq _ _ count arr =>
    match child count arr 0, child count arr 1 with
    | some name, some val => some (name, val)
    | _, _ => none
  | _ => none

def oid? : Asn → Option (List UShort)
  | .oid _ len id => some (id.take len.toNat)
  | _ => none

def onAgent {Result : Type} (function : Agent Device → Result × Agent Device) :
    Command (Frame Device) Exit Result :=
  .act fun frame =>
    let (result, agent) := function frame.agent
    (result, { frame with agent })

def onPool {Result : Type} (function : MemPool → Result × MemPool) :
    Command (Frame Device) Exit Result :=
  onAgent fun agent =>
    let (result, pool) := function agent.pool
    (result, { agent with pool })

/-- `add_pair`; a failure ends the loops. -/
def addPair (i : Nat) (name val : Asn) : Command (Frame Device) Exit Unit :=
  match name, val with
  | .nil, _ | _, .nil => .leave (.fatal .genErr i)
  | name, val => do
    match ← onPool MemPool.alloc with
    | none => .leave (.fatal .genErr i)
    | some block => fun frame =>
      let outbind := frame.outbind
      if outbind.size ≤ outbind.count.toNat then (.error .overrun, frame)
      else
        let pair := .seq block Asn.sequence 2 [name, val]
        (.ok (), { frame with
          outbind := { outbind with
            count := outbind.count + 1
            arr := Asn.putAt outbind.arr outbind.count pair } })

def serveGetSet (tab : SnmpTable Device) (i : Nat) (name val : Asn) (setflag : Bool) :
    Command (Frame Device) Exit Unit := do
  let id ← read .confused (oid? name)
  let (error_code, result) ← onAgent fun agent =>
    let (error_code, result, agent) := getSet tab agent id val setflag
    ((error_code, result), agent)
  onAgent fun agent => ((), agent.count (if setflag then .inTotalSetVars else .inTotalReqVars))
  if error_code ≠ .noError then .leave (.fatal error_code i)
  else do
    let name ← onPool name.copy
    let val ← if setflag then onPool val.copy else pure result
    addPair i name val

/-- A turn of a GETNEXT or a GETBULK request; an exception may stand for a name that is not
there. -/
def serveNext (tab : SnmpTable Device) (i3 : ULong) (tolerant : Bool) (i : Nat) (name : Asn) :
    Command (Frame Device) Exit Unit := do
  let id ← read .confused (oid? name)
  let (error_code, name, val) ← onAgent fun agent =>
    let (error_code, name, val, agent) := next tab agent id name i3
    ((error_code, name, val), agent)
  onAgent fun agent => ((), agent.count .inTotalReqVars)
  if error_code = .noSuchName ∧ tolerant then do
    let name ← onPool name.copy
    let val ← onPool fun pool => Asn.makeException pool .endOfMibView
    addPair i name val
  else if error_code ≠ .noError then .leave (.fatal error_code i)
  else addPair i name val

/-- A turn of a loop, where the variable `i3` of `next` begins with a given value. -/
def serve (tab : SnmpTable Device) (i3 : Turn → ULong) (request : Request) (turn : Turn) :
    Command (Frame Device) Exit Unit := do
  let pair ← fun frame => read .confused (pairOf request frame turn) frame
  let (name, val) ← read .confused (binding pair)
  match turn with
  | .first i =>
    if pair.type? ≠ some Asn.sequence.1 ∨ name.type? ≠ some asnOid then do
      onAgent fun agent => ((), agent.count .inAsnParseErrs)
      .leave .err
    else
      match request.kind with
      | .get => serveGetSet tab i name val false
      | .set => serveGetSet tab i name val true
      | .getNext | .getBulk => serveNext tab (i3 turn) (request.version ≠ 0) i name
  | .again _ i => serveNext tab (i3 turn) true i name

/-- What becomes of a request. -/
inductive Outcome
  /-- The response, or none. -/
  | reply (output : Option (List UChar))
  /-- A field of a node of another type was read, or a child that is not there. -/
  | confused
  /-- Something was written behind the list of the response. -/
  | overrun
  /-- The encoder read outside of the response. -/
  | outside

/-- `asn_encode` of a response, and what follows it. -/
def encodeReply (tree : Asn) (outsz : Nat) (agent : Agent Device)
    (next : Option (List UChar) → Agent Device → Outcome × Agent Device) :
    Outcome × Agent Device :=
  match tree.encode outsz with
  | .ok bytes => next (some bytes) agent
  | .error .overflow => next none agent
  | .error .outside => (.outside, agent)

/-- `asn_free` -/
def release (tree : Asn) (agent : Agent Device) : Agent Device :=
  { agent with pool := tree.free agent.pool }

/-- The end of `snmp_execute`, where all turns are done. -/
def finish (request : Request) (outsz : Nat) (frame : Frame Device) : Outcome × Agent Device :=
  let tree := request.response 0 0 frame.outbind.node
  encodeReply tree outsz frame.agent fun output agent =>
    match output with
    | some bytes =>
      let agent := release request.inbind (agent.count .outGetResponses)
      (.reply (some bytes), (release tree agent).count .outPkts)
    | none =>
      let tree := request.response (SnmpError.tooBig) 0 request.inbind
      let agent := release frame.outbind.node (agent.count .outTooBigs)
      encodeReply tree outsz agent fun output agent =>
        (.reply output, (release tree agent).count .outPkts)

/-- The label `fatal` of `snmp_execute`. -/
def fatal (request : Request) (outsz : Nat) (error_code : SnmpError) (i : Nat)
    (frame : Frame Device) : Outcome × Agent Device :=
  let agent := release frame.outbind.node frame.agent
  let agent :=
    if error_code = .noSuchName then agent.count .outNoSuchNames
    else if error_code = .badValue then agent.count .outBadValues
    else if error_code = .genErr then agent.count .outGenErrs
    else agent
  let tree := request.response error_code (.ofNat 32 (i + 1)) request.inbind
  encodeReply tree outsz agent fun output agent =>
    (.reply output, (release tree agent).count .outPkts)

/-- The part of `snmp_execute` behind the checks. -/
def execute (tab : SnmpTable Device) (i3 : Turn → ULong) (request : Request) (outsz : Nat)
    (agent : Agent Device) : Outcome × Agent Device :=
  let tree := request.response 0 0 request.inbind
  let all : BitVec 32 := request.inCount.setWidth 32
  let size := request.nonrepeaters + (all - request.nonrepeaters) * request.repetitions
  match agent.pool.alloc with
  | (none, pool) =>
    (.reply none, release tree ({ agent with pool }.count .outTooBigs))
  | (some block, pool) =>
    -- The size of the block in bytes is a multiple of four, taken modulo `2 ^ 32`.
    let size := size.toNat % 2 ^ 30
    if size = 2 ^ 30 - 1 then (.overrun, { agent with pool })
    else
      let frame :=
        { agent := { agent with pool }, outbind := { block, size, count := 0, arr := [] } }
      match Command.each request.turns (serve tab i3 request) frame with
      | (.ok (), frame) => finish request outsz frame
      | (.error .err, frame) =>
        (.reply none, release tree (release frame.outbind.node frame.agent))
      | (.error (.fatal error_code i), frame) => fatal request outsz error_code i frame
      | (.error .confused, frame) => (.confused, frame.agent)
      | (.error .overrun, frame) => (.overrun, frame.agent)

/-- The first two statements of `snmp_execute`. -/
def received (agent : Agent Device) : Agent Device :=
  { agent.count .inPkts with snmp.auth_failure := false }

/-- `snmp_execute` -/
def snmpExecute (tab : SnmpTable Device) (i3 : Turn → ULong) (agent : Agent Device)
    (input : List UChar) (outsz : Nat) : Outcome × Agent Device :=
  let agent := received agent
  match Asn.parse agent.pool input with
  | (none, pool) => (.reply none, { agent with pool }.count .inAsnParseErrs)
  | (some (b, _), pool) =>
    match accept b { agent with pool } with
    | (.error .refused, agent) => (.reply none, release b agent)
    | (.error .confused, agent) => (.confused, agent)
    | (.ok request, agent) => execute tab i3 request outsz agent

end Snmp
end Uos
