import Uos.Snmp.Asn

/-!
# The agent

The data of `snmp/snmp.h`: the variables that an agent serves, its configuration, and the memory
that it works in.
-/

namespace Uos

/-- The counters of an `snmp_t` that its requests change. -/
inductive SnmpCounter
  | inPkts
  | inAsnParseErrs
  | inBadVersions
  | inBadCommunityNames
  | inBadCommunityUses
  | inGetRequests
  | inGetNexts
  | inGetBulks
  | inSetRequests
  | inTotalReqVars
  | inTotalSetVars
  | outPkts
  | outNoSuchNames
  | outBadValues
  | outGenErrs
  | outTooBigs
  | outGetResponses
  deriving DecidableEq

/-- A community, an `unsigned char [32]`. -/
abbrev Community := Vector UChar 32

/-- An `snmp_t`, without its table of variables and its pool. -/
structure Snmp where
  enterprise : ULong
  user_addr : IpAddr
  get_community : Community
  set_community : Community
  get_addr : IpAddr
  get_mask : IpAddr
  set_addr : IpAddr
  set_mask : IpAddr
  auth_failure : Bool
  counters : SnmpCounter → ULong

namespace Snmp

/-- An `snmp_t` filled with zeroes. -/
def zeroed : Snmp where
  enterprise := 0
  user_addr := IpAddr.any
  get_community := .replicate 32 0
  set_community := .replicate 32 0
  get_addr := IpAddr.any
  get_mask := IpAddr.any
  set_addr := IpAddr.any
  set_mask := IpAddr.any
  auth_failure := false
  counters _ := 0

def count (snmp : Snmp) (counter : SnmpCounter) : Snmp :=
  { snmp with
    counters := fun other =>
      if other = counter then snmp.counters counter + 1 else snmp.counters other }

/-- `snmp_init`: reading is permitted for the community "public". -/
def init (snmp : Snmp) (enterprise : ULong) : Snmp :=
  { snmp with
    enterprise
    get_community :=
      ((((((snmp.get_community.set 0 0x70).set 1 0x75).set 2 0x62).set 3 0x6c).set 4 0x69).set 5
        0x63).set 6 0 }

end Snmp

/-- The SNMP error codes, which are `small_uint_t`. -/
abbrev SnmpError := BitVec 32

namespace SnmpError

/-- `SNMP_NO_ERROR` -/
def noError : SnmpError := 0

/-- `SNMP_TOO_BIG` -/
def tooBig : SnmpError := 1

/-- `SNMP_NO_SUCH_NAME` -/
def noSuchName : SnmpError := 2

/-- `SNMP_BAD_VALUE` -/
def badValue : SnmpError := 3

/-- `SNMP_READ_ONLY` -/
def readOnly : SnmpError := 4

/-- `SNMP_GEN_ERR` -/
def genErr : SnmpError := 5

end SnmpError

/-- The types of variables: a single one, or a table with an index of numbers (`1`) and addresses
(`4`). -/
inductive SnmpType
  | var
  | tab1
  | tab4
  | tab41
  | tab14
  | tab4141
  | tab111
  deriving DecidableEq

namespace SnmpType

/-- The number of arguments that the macros of `snmp-vardef.h` give to a type. -/
def nargs : SnmpType → Nat
  | var => 0
  | tab1 => 1
  | tab4 => 4
  | tab41 => 5
  | tab14 => 5
  | tab4141 => 10
  | tab111 => 3

end SnmpType

/-- What the functions of the variables work on; the device is everything outside of the
agent. -/
structure World (Device : Type) where
  snmp : Snmp
  pool : MemPool
  device : Device

/-- An entry of the table of variables, an `snmp_var_t`.  The arguments of its functions are the
index, in the order of C; a `next` function returns the index of the next row. -/
structure SnmpVar (Device : Type) where
  id : List UChar
  idlen_lt : id.length < 256
  type : SnmpType
  get : Option (List ULong → World Device → Asn × World Device)
  next : Option (Bool → List ULong → World Device → Asn × List ULong × World Device)
  set : Option (Asn → List ULong → World Device → SnmpError × World Device)

namespace SnmpVar

variable {Device : Type}

def idlen (v : SnmpVar Device) : Nat :=
  v.id.length

def nargs (v : SnmpVar Device) : Nat :=
  v.type.nargs

end SnmpVar

/-- A table of variables; an array has at least one element. -/
abbrev SnmpTable (Device : Type) := { tab : List (SnmpVar Device) // 0 < tab.length }

/-- The kinds of functions of a variable. -/
inductive SnmpAccess
  | get
  | next
  | set
  deriving DecidableEq

/-- A call of a function of the variable with this index in the table. -/
structure SnmpCall where
  access : SnmpAccess
  var : Nat
  args : List ULong
  deriving DecidableEq

/-- An agent at work, with the calls that it made. -/
structure Agent (Device : Type) extends World Device where
  calls : List SnmpCall := []

namespace Agent

variable {Device : Type}

def call {Result : Type} (agent : Agent Device) (access : SnmpAccess) (var : Nat)
    (args : List ULong) (function : World Device → Result × World Device) :
    Result × Agent Device :=
  let (result, world) := function agent.toWorld
  (result, { toWorld := world, calls := agent.calls ++ [⟨access, var, args⟩] })

def count (agent : Agent Device) (counter : SnmpCounter) : Agent Device :=
  { agent with snmp := agent.snmp.count counter }

end Agent
end Uos
