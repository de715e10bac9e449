import Uos.Snmp.Access

/-!
# GETNEXT

`load_req_idx` and `next` of `snmp/snmp.c`, and `asn_make_oidn` of `snmp/asn.c`.
-/

namespace Uos
namespace Snmp

/-- `load_req_idx`: a component that is missing counts as zero. -/
def loadReqIdx (req_id : List UShort) (var_idlen : Nat) : ULong :=
  let last : UChar := (req_id.getD (var_idlen + 3) 0).setWidth 8
  number req_id var_idlen <<< 24 ||| number req_id (var_idlen + 1) <<< 16 |||
    number req_id (var_idlen + 2) <<< 8 ||| last.setWidth 32

/-- The arguments that `next` extracts.  Its variable `i3` has no initial value. -/
def loadArgs (id : List UShort) (vlen : Nat) (i3 : ULong) : SnmpType → List ULong
  | .var => []
  | .tab1 => [number id vlen]
  | .tab4 => [loadReqIdx id vlen]
  | .tab41 => [loadReqIdx id vlen, number id (vlen + 4)]
  | .tab14 => [number id vlen, loadReqIdx id (vlen + 1)]
  | .tab4141 =>
    [loadReqIdx id vlen, number id (vlen + 4), loadReqIdx id (vlen + 5),
      number id (vlen + 9)]
  | .tab111 =>
    [number id vlen, number id (vlen + 1),
      if vlen + 2 < id.length then number id (vlen + 2) else i3]

def blankArgs (i3 : ULong) : SnmpType → List ULong
  | .var => []
  | .tab1 | .tab4 => [0]
  | .tab41 | .tab14 => [0, 0]
  | .tab4141 => [0, 0, 0, 0]
  | .tab111 => [0, 0, i3]

def addressName (a : ULong) : List UShort :=
  [a >>> 24, a >>> 16, a >>> 8, a].map fun word => (word.setWidth 8).setWidth 16

def numberName (i : ULong) : List UShort :=
  [i.setWidth 16]

/-- The components of an index, as the calls of `asn_make_oidn` give them. -/
def indexName : SnmpType → List ULong → List UShort
  | .tab1, [i1] => numberName i1
  | .tab4, [a1] => addressName a1
  | .tab41, [a1, i1] => addressName a1 ++ numberName i1
  | .tab14, [i1, a1] => numberName i1 ++ addressName a1
  | .tab4141, [a1, i1, a2, i2] =>
    addressName a1 ++ numberName i1 ++ addressName a2 ++ numberName i2
  | .tab111, [i1, i2, i3] => numberName i1 ++ numberName i2 ++ numberName i3
  | _, _ => []

/-- `asn_make_oidn` -/
def makeOidn (pool : MemPool) (enterprise : ULong) (id : List UChar) (index : List UShort) :
    Asn × MemPool :=
  match pool.alloc with
  | (none, pool) => (.nil, pool)
  | (some block, pool) =>
    let name := id.map fun byte =>
      if byte = 255 then enterprise.setWidth 16 else byte.setWidth 16
    (.oid block (.ofNat 16 (id.length + index.length)) (name ++ index), pool)

variable {Device : Type}

/-- The value of a variable or of a row of a simple table: what its `get` function returns, or
`asn_null`. -/
def readNext (agent : Agent Device) (vp : Nat) (v : SnmpVar Device) (args : List ULong) :
    Asn × Agent Device :=
  match v.get with
  | none => (.null, agent)
  | some get => agent.call .get vp args (get args)

/-- The `switch` in the loop of `next`: the value of the next row of an entry, and its index. -/
def nextRow (agent : Agent Device) (vp : Nat) (v : SnmpVar Device) (nextflag : Bool)
    (args : List ULong) : Asn × List ULong × Agent Device :=
  match v.type, v.next with
  | .var, _ =>
    let (val, agent) := readNext agent vp v []
    (val, [], agent)
  | .tab1, none =>
    let i1 := if nextflag then args.getD 0 0 + 1 else 0
    let (val, agent) := readNext agent vp v [i1]
    (val, [i1], agent)
  | _, none => (.nil, args, agent)
  | _, some next =>
    let ((val, args), agent) := agent.call .next vp args fun world =>
      let (val, args, world) := next nextflag args world
      ((val, args), world)
    (val, args, agent)

/-- The loop of `next`, from an entry on: the error code, the name and the value. -/
def nextLoop : List (SnmpVar Device) → Nat → Bool → (SnmpType → List ULong) → ULong → Asn →
    Agent Device → SnmpError × Asn × Asn × Agent Device
  | [], _, _, _, _, name, agent => (.noSuchName, name, .nil, agent)
  | v :: entries, vp, nextflag, load, i3, name, agent =>
    let (val, args, agent) := nextRow agent vp v nextflag (load v.type)
    let i3 := if v.type = .tab111 then args.getD 2 0 else i3
    match val with
    | .nil => nextLoop entries (vp + 1) false (blankArgs i3) i3 name agent
    | val =>
      match makeOidn agent.pool agent.snmp.enterprise v.id (indexName v.type args) with
      | (.nil, pool) =>
        nextLoop entries (vp + 1) false (blankArgs i3) i3 .nil
          { agent with pool := val.free pool }
      | (name, pool) => (.noError, name, val, { agent with pool })

/-- `next` of an identifier, where `i3` begins with any value: the error code, the name and the
value. -/
def next (tab : SnmpTable Device) (agent : Agent Device) (id : List UShort) (name : Asn)
    (i3 : ULong) : SnmpError × Asn × Asn × Agent Device :=
  let begin (vp : Nat) (nextflag : Bool) (load : SnmpType → List ULong) :=
    nextLoop (tab.1.drop vp) vp nextflag load i3 name agent
  match findVar agent.snmp.enterprise tab id with
  | none => begin 0 false (blankArgs i3)
  | some (vp, _) =>
    match tab.1[vp]? with
    | none => begin vp false (blankArgs i3)
    | some v =>
      let min_len := min v.idlen id.length
      if v.nargs = 0 ∨
          compare agent.snmp.enterprise (id.take min_len) (v.id.take min_len) ≠ .eq then
        begin (vp + 1) false (blankArgs i3)
      else if v.idlen < id.length ∧
          compare agent.snmp.enterprise (id.take v.idlen) v.id = .eq then
        begin vp true (loadArgs id v.idlen i3)
      else begin vp false (blankArgs i3)

end Snmp
end Uos
