import Uos.Library.Traced
import Uos.Library.Execution
import Uos.Net.Checksum

/-!
# The table of MAC addresses

The functions of `net/bridge.c`.  The hash chains lie in the table itself: a pointer to an entry is
its index.  A lookup leaves the indices of the entries that it reads or writes in its trace; what
lies behind the table in memory can be read as well.
-/

namespace Uos

/-- The MAC address of a frame, an `unsigned char [6]`. -/
abbrev MacAddr := Vector UChar 6

/-- The `unsigned short [3]` that a MAC address is compared and stored as. -/
abbrev MacWords := Vector UShort 3

/-- `bridge_entry_t`. -/
structure BridgeEntry where
  timeToLive : Nat := 0
  addr : MacWords := .replicate 3 0
  next : Option Nat := none
  deriving DecidableEq

/-- What an observer remembers of an address that was seen as a source. -/
structure Sighting where
  /-- The entry that keeps the address. -/
  place : Nat
  /-- The number of scans that have passed this entry, when the address was seen last. -/
  scan : Nat
  deriving DecidableEq

/-- What an observer remembers of a bridge. -/
structure BridgeHistory where
  /-- How often the scan of the table began again. -/
  scans : Nat := 0
  /-- The addresses that were stored, with the last time they were seen. -/
  seen : MacAddr → Option Sighting := fun _ => none

/-- `bridge_t`, on its machine. -/
structure Bridge where
  target : Target
  size : Nat
  step : Nat
  robin : Nat
  /-- The table, and the memory behind it. -/
  entry : Nat → BridgeEntry
  history : BridgeHistory := {}

/-- The addresses in the `struct eth_hdr` of a frame. -/
structure EthHdr where
  dest : MacAddr
  src : MacAddr
  deriving DecidableEq

/-- `MAXAGE_SEC` -/
def maxageSec : Nat := 300

/-- `FULLSCAN_SEC` -/
def fullscanSec : Nat := 10

/-- The width of an `unsigned int`. -/
def Target.intBits : Target → Nat
  | .avr | .msp430 => 16
  | .i386 | .portable _ => 32

namespace MacAddr

def words (target : Target) (mac : MacAddr) : MacWords :=
  #v[.ofNat 16 (Checksum.nativeWord target mac[0] mac[1]),
    .ofNat 16 (Checksum.nativeWord target mac[2] mac[3]),
    .ofNat 16 (Checksum.nativeWord target mac[4] mac[5])]

/-- Whether the least significant bit of the first octet is clear. -/
def individual (mac : MacAddr) : Bool :=
  mac[0] &&& 0x01 = 0

/-- The test that stands for broadcast and multicast in the source. -/
def passesThrough (mac : MacAddr) : Bool :=
  mac[0] &&& 0x80 ≠ 0

end MacAddr

namespace Bridge

def setEntry (b : Bridge) (e : Nat) (value : BridgeEntry) : Bridge :=
  { b with entry := Function.update b.entry e value }

/-- Overwrite the `next` pointer of an entry. -/
def setNext (b : Bridge) (e : Nat) (next : Option Nat) : Bridge :=
  b.setEntry e { b.entry e with next }

def setTimeToLive (b : Bridge) (e : Nat) (timeToLive : Nat) : Bridge :=
  b.setEntry e { b.entry e with timeToLive }

/-- `bridge_init`: the memory of a bridge is cleared, what lies behind it is not. -/
def init (target : Target) (size msec : Nat) (behind : Nat → BridgeEntry) : Bridge where
  target
  size
  step := size * msec % 2 ^ 32 / fullscanSec / 1000
  robin := 0
  entry e := if e < size then {} else behind e

def home (b : Bridge) (addr : MacWords) : Nat :=
  (addr[0].toNat + addr[1].toNat + addr[2].toNat * 28443) % 2 ^ b.target.intBits &&& (b.size - 1)

/-- What the walk along a chain comes to. -/
inductive Walked
  /-- An outdated entry, with the entry in front of it. -/
  | outdated (prev : Option Nat) (e : Nat)
  /-- The entry of the address. -/
  | found (e : Nat)
  /-- The end of the chain, with its last entry. -/
  | ended (prev : Option Nat)
  deriving DecidableEq

/-- The loop of `find_entry` along a chain. -/
def walk (b : Bridge) (addr : MacWords) : Nat → Option Nat → Option Nat → Traced Nat Walked
  | _, prev, none => pure (.ended prev)
  | 0, _, some _ => .ofOption none
  | turns + 1, prev, some e => do
    Traced.emit e
    if (b.entry e).timeToLive = 0 then
      return .outdated prev e
    else if (b.entry e).addr = addr then
      return .found e
    else
      walk b addr turns (some e) (b.entry e).next

/-- The loop that looks for an empty slot: the end of the table is seen after the entry behind it
was read. -/
def probe (b : Bridge) (prev : Nat) : Nat → Nat → Traced Nat (Option Nat)
  | 0, _ => .ofOption none
  | turns + 1, e => do
    Traced.emit e
    if (b.entry e).timeToLive = 0 then
      return some e
    else
      let e := if e = b.size then 0 else e
      if e = prev then
        return none
      else
        probe b prev turns (e + 1)

/-- Store an address in an entry, and link the entry to the one in front of it. -/
def store (b : Bridge) (addr : MacWords) (prev : Option Nat) (e : Nat) : Traced Nat Bridge := do
  Traced.emit e
  let b := b.setEntry e { b.entry e with addr }
  match prev with
  | none => return b
  | some prev => do
    Traced.emit prev
    return b.setNext prev (some e)

/-- What `find_entry` does after its walk. -/
def afterWalk (turns : Nat) (b : Bridge) (addr : MacWords) (allocateFlag : Bool) :
    Walked → Traced Nat (Option Nat × Bridge)
  | .found e => return (some e, b)
  | .outdated prev e =>
    if allocateFlag then do
      let b ← b.store addr prev e
      return (some e, b)
    else
      match prev with
      | none => return (none, b)
      | some prev => do
        Traced.emit prev
        return (none, b.setNext prev none)
  | .ended none => if allocateFlag then .ofOption none else return (none, b)
  | .ended (some prev) =>
    if allocateFlag then do
      match ← b.probe prev turns (prev + 1) with
      | none => return (none, b)
      | some e => do
        let b ← b.store addr (some prev) e
        return (some e, b)
    else
      return (none, b)

/-- `find_entry`, with a bound on the turns of its loops. -/
def findEntry (turns : Nat) (b : Bridge) (mac : MacAddr) (allocateFlag : Bool) :
    Traced Nat (Option Nat × Bridge) := do
  let addr := mac.words b.target
  let walked ← b.walk addr turns none (some (b.home addr))
  b.afterWalk turns addr allocateFlag walked

/-- The number of scans that have passed an entry, when the scan stands at a position. -/
def scansAt (b : Bridge) (position e : Nat) : Nat :=
  b.history.scans + if e < position then 1 else 0

def scansOf (b : Bridge) (e : Nat) : Nat :=
  b.scansAt b.robin e

def sight (b : Bridge) (mac : MacAddr) (e : Nat) : Bridge :=
  { b with
    history :=
      { b.history with
        seen := Function.update b.history.seen mac (some { place := e, scan := b.scansOf e }) } }

def learn (turns : Nat) (b : Bridge) (src : MacAddr) : Traced Nat Bridge := do
  let (s, b) ← b.findEntry turns src true
  match s with
  | none => return b
  | some e => return (b.setTimeToLive e (maxageSec / fullscanSec)).sight src e

/-- `bridge_filter`: whether the frame passes. -/
def filter (turns : Nat) (b : Bridge) (h : EthHdr) : Traced Nat (Bool × Bridge) := do
  let b ← b.learn turns h.src
  if h.dest.passesThrough then
    return (true, b)
  else do
    let (d, b) ← b.findEntry turns h.dest false
    return (d.isNone, b)

/-- The addresses of an entry are kept by another entry from now on. -/
def move (b : Bridge) (next e : Nat) : Bridge :=
  { b with
    history :=
      { b.history with
        seen := fun mac =>
          (b.history.seen mac).map fun sighting =>
            if mac.words b.target = (b.entry next).addr ∧ sighting.place = next then
              { sighting with place := e }
            else sighting } }

/-- One turn of the scan: an entry that becomes outdated is overwritten with its successor. -/
def age (b : Bridge) (e : Nat) : Bridge :=
  match (b.entry e).timeToLive with
  | 0 => b
  | ttl + 1 =>
    let b := b.setTimeToLive e ttl
    match ttl, (b.entry e).next with
    | 0, some next => ((b.move next e).setEntry e (b.entry next)).setTimeToLive next 0
    | _, _ => b

def scan (b : Bridge) (first count : Nat) : Bridge :=
  (List.range' first count).foldl age b

/-- Begin again where the scan has reached the end of the table. -/
def wrap (b : Bridge) : Bridge :=
  if b.size ≤ b.robin then
    { b with robin := 0, history := { b.history with scans := b.history.scans + 1 } }
  else b

/-- `bridge_timer`; its second assertion fails if the scan would not move. -/
def timer (b : Bridge) : Option Bridge :=
  let b := b.wrap
  let robin := min (b.robin + b.step) b.size
  if b.robin < robin then
    some ({ b with robin }.scan b.robin (robin - b.robin))
  else none

/-- `bridge_clear`. -/
def clear (b : Bridge) : Bridge :=
  { b with
    entry := fun e => if e < b.size then { b.entry e with timeToLive := 0 } else b.entry e
    history := { b.history with seen := fun _ => none } }

end Bridge

/-- A call of the bridge. -/
inductive BridgeEvent
  | filter (h : EthHdr)
  | timer
  | clear

namespace Bridge

def next (turns : Nat) (b : Bridge) : BridgeEvent → Option Bridge
  | .filter h => (b.filter turns h).result.map Prod.snd
  | .timer => b.timer
  | .clear => some b.clear

/-- One call; a call that does not return is none. -/
def Step (b : Bridge) (event : BridgeEvent) (b' : Bridge) : Prop :=
  ∃ turns, b.next turns event = some b'

/-- Some call whose state and event satisfy a condition. -/
def StepIf (condition : Bridge → BridgeEvent → Prop) (b b' : Bridge) : Prop :=
  ∃ event, condition b event ∧ b.Step event b'

/-- A run, all of whose calls satisfy a condition. -/
abbrev RunIf (condition : Bridge → BridgeEvent → Prop) : Bridge → Bridge → Prop :=
  Relation.ReflTransGen (StepIf condition)

end Bridge
end Uos
