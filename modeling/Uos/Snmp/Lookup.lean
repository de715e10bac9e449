import Uos.Snmp.Agent

/-!
# Finding a variable

`compare` and `find_var` of `snmp/snmp.c`.
-/

namespace Uos
namespace Snmp

/-- A component of a name in the table: 255 designates the enterprise. -/
def component (enterprise : ULong) (byte : UChar) : Nat :=
  if byte = 255 then enterprise.toNat else byte.toNat

/-- `compare` of an identifier with the name of a variable. -/
def compare (enterprise : ULong) : List UShort → List UChar → Ordering
  | [], [] => .eq
  | [], _ :: _ => .lt
  | _ :: _, [] => .gt
  | x :: a_id, y :: b_id =>
    if x.toNat < component enterprise y then .lt
    else if component enterprise y < x.toNat then .gt
    else compare enterprise a_id b_id

variable {Device : Type}

/-- The loop of `find_var`, over the part of the table from `base` on: the index of the found entry,
and whether its name is equal.  Every turn makes the part smaller. -/
def findFrom (enterprise : ULong) (tab : List (SnmpVar Device)) (name : List UShort) :
    Nat → Nat → Nat → Option (Nat × Bool)
  | 0, _, _ => none
  | turns + 1, base, lim =>
    let vp := base + lim / 2
    match tab[vp]? with
    | none => none
    | some entry =>
      match compare enterprise name entry.id with
      | .eq => some (vp, true)
      | .lt =>
        if lim = 1 then
          if vp = 0 then none else some (vp - 1, false)
        else findFrom enterprise tab name turns base (lim / 2)
      | .gt =>
        let lim := lim - (vp - base + 1)
        if lim = 0 then some (vp, false)
        else findFrom enterprise tab name turns (vp + 1) lim

/-- `find_var`: the entry with this name or the one in front of it. -/
def findVar (enterprise : ULong) (tab : SnmpTable Device) (name : List UShort) :
    Option (Nat × Bool) :=
  findFrom enterprise tab.1 name tab.1.length 0 tab.1.length

end Snmp
end Uos
