import Uos.Snmp.Lookup

/-!
# GET and SET

`get_set` of `snmp/snmp.c`.
-/

namespace Uos
namespace Snmp

/-- The macro `LONG` on the components from an index on, which need not be bytes. -/
def long (id : List UShort) (index : Nat) : ULong :=
  let p (i : Nat) : ULong := (id.getD (index + i) 0).setWidth 32
  p 0 <<< 24 ||| p 1 <<< 16 ||| p 2 <<< 8 ||| p 3

def number (id : List UShort) (index : Nat) : ULong :=
  (id.getD index 0).setWidth 32

/-- The arguments that `get_set` takes from the components behind the name of a table. -/
def arguments (id : List UShort) (idlen : Nat) : SnmpType → List ULong
  | .var => []
  | .tab1 => [number id idlen]
  | .tab4 => [long id idlen]
  | .tab41 => [long id idlen, number id (idlen + 4)]
  | .tab14 => [number id idlen, long id (idlen + 1)]
  | .tab4141 => [long id idlen, number id (idlen + 4), long id (idlen + 5), number id (idlen + 9)]
  | .tab111 => [number id idlen, number id (idlen + 1), number id (idlen + 2)]

variable {Device : Type}

/-- Call the `get` function of a variable, with `SNMP_NO_SUCH_NAME` if there is no value. -/
def callGet (agent : Agent Device) (vp : Nat) (args : List ULong)
    (get : List ULong → World Device → Asn × World Device) : SnmpError × Asn × Agent Device :=
  match agent.call .get vp args (get args) with
  | (.nil, agent) => (.noSuchName, .nil, agent)
  | (val, agent) => (.noError, val, agent)

/-- Call the `set` function of a variable. -/
def callSet (agent : Agent Device) (vp : Nat) (args : List ULong) (val : Asn)
    (set : Asn → List ULong → World Device → SnmpError × World Device) :
    SnmpError × Asn × Agent Device :=
  let (error, agent) := agent.call .set vp args (set val args)
  (error, val, agent)

/-- `get_set`: the error code, and the value. -/
def getSet (tab : SnmpTable Device) (agent : Agent Device) (name : List UShort) (val : Asn)
    (setflag : Bool) : SnmpError × Asn × Agent Device :=
  match findVar agent.snmp.enterprise tab name with
  | none => (.noSuchName, val, agent)
  | some (vp, exact) =>
    match tab.1[vp]? with
    | none => (.noSuchName, val, agent)
    | some v =>
      match setflag with
      | true =>
        match v.set with
        | none => (.readOnly, val, agent)
        | some set =>
          if exact then
            if v.nargs ≠ 0 then (.noSuchName, val, agent)
            else callSet agent vp [] val set
          else if v.idlen + v.nargs ≠ name.length then (.noSuchName, val, agent)
          else if v.type = .var then
            (if val.type? = none then .noSuchName else .noError, val, agent)
          else callSet agent vp (arguments name v.idlen v.type) val set
      | false =>
        match v.get with
        | none => (.noError, .null, agent)
        | some get =>
          if exact then
            if v.nargs ≠ 0 then (.noSuchName, .nil, agent)
            else callGet agent vp [] get
          else if v.idlen + v.nargs ≠ name.length then (.noSuchName, .nil, agent)
          else if v.type = .var then (.noSuchName, .nil, agent)
          else callGet agent vp (arguments name v.idlen v.type) get

end Snmp
end Uos
