import Uos.Snmp.Echo
import Uos.Snmp.Execute

/-!
# Accepted requests

What is known of a request that passed the checks of `snmp_execute`.
-/

namespace Uos
namespace Snmp

variable {Device : Type} {agent agent' : Agent Device} {b : Asn} {request : Request}
  {refusal : Refusal}

/-- The checks leave the pool and the calls of an agent as they are. -/
structure Untouched (agent agent' : Agent Device) : Prop where
  pool : agent'.pool = agent.pool
  calls : agent'.calls = agent.calls
  device : agent'.device = agent.device

theorem child_some {count : UShort} {arr : List Asn} {index : Nat} {e : Asn}
    (found : child count arr index = some e) : index < count.toNat ∧ arr[index]? = some e := by
  rw [child] at found
  split at found
  · rename_i inside
    exact ⟨inside, found⟩
  · cases found

theorem ofType_set {type : UChar} {kind : RequestKind}
    (found : RequestKind.ofType type = some kind) :
    kind = .set ↔ type = 0xa3 := by
  rw [RequestKind.ofType] at found
  split_ifs at found with get getNext getBulk set <;> cases found <;> simp_all

open Command

/-- Checks on an agent: what they accept, and why they refuse. -/
abbrev Checks {Result : Type} (agent : Agent Device)
    (command : Command (Agent Device) Refusal Result)
    (accepted : Result → Prop) (refused : Refusal → Prop) : Prop :=
  Meets (Untouched agent) command (fun result agent' => accepted result ∧ Untouched agent agent')
    fun refusal agent' => refused refusal ∧ Untouched agent agent'

theorem checks_refuse {Result : Type} {accepted : Result → Prop} {refused : Refusal → Prop}
    (counter : SnmpCounter) (holds : refused .refused) :
    Checks agent (refuse counter) accepted refused :=
  fun _ before => ⟨holds, before.pool, before.calls, before.device⟩

theorem checks_leave {Result : Type} {accepted : Result → Prop} {refused : Refusal → Prop}
    (holds : refused refusal) :
    Checks agent (leave refusal : Command _ _ Result) accepted refused :=
  fun _ before => ⟨holds, before⟩

/-- What is known of a request from its protocol data unit. -/
structure AcceptedPdu (pdu : Asn) (request : Request) : Prop where
  pdu : ∃ type, pdu = .seq request.pduBlock type 4 request.pduArr ∧
    RequestKind.ofType type.1 = some request.kind
  first : ∃ block val, request.pduArr[0]? = some (.integer block val)
  status : ∃ val, request.pduArr[1]? = some (.integer request.statusBlock val)
  index : ∃ val, request.pduArr[2]? = some (.integer request.indexBlock val)
  inbind : request.pduArr[3]? = some request.inbind
  numbers : ∃ status index, (request.nonrepeaters, request.repetitions) =
    repeats request.kind request.inCount status index

def Constructed : Asn → Prop
  | .seq _ _ _ _ => True
  | _ => False

theorem child_of_lt {count : UShort} {arr : List Asn} {index : Nat}
    (within : count.toNat ≤ arr.length)
    (inside : index < count.toNat) : ∃ e, child count arr index = some e := by
  rw [child, if_pos inside]
  exact ⟨_, List.getElem?_eq_getElem (by omega)⟩

theorem checks_acceptPdu (block : Block) (arr : List Asn) (version : ULong) {pdu : Asn}
    (holds : pdu.Holds) :
    Checks agent (acceptPdu block arr version pdu)
      (fun request => request.block = block ∧ request.arr = arr ∧ request.version = version ∧
        AcceptedPdu pdu request)
      fun refusal => refusal = .confused → ¬Constructed pdu := by
  cases pdu with
  | nil | null | exception | integer | unsigned | string | oid => exact checks_leave fun _ => id
  | seq pduBlock pduType count pduArr =>
    rw [acceptPdu]
    split_ifs with four
    · exact checks_refuse _ (by simp)
    split
    · rename_i first status index bindings
      split_ifs with sequence
      · exact checks_refuse _ (by simp)
      split
      · exact checks_refuse _ (by simp)
      · rename_i kind known
        rw [not_not] at four sequence
        subst four sequence
        intro agent' before
        refine ⟨⟨rfl, rfl, rfl, ⟨_, rfl, known⟩, ⟨_, _, (child_some first).2⟩,
          ⟨_, (child_some status).2⟩, ⟨_, (child_some index).2⟩, (child_some bindings).2, _, _,
          rfl⟩, before.pool, before.calls, before.device⟩
    · exact checks_refuse _ (by simp)
    · rename_i absent
      rw [not_not] at four
      subst four
      obtain ⟨e0, found0⟩ := child_of_lt holds.1 (show 0 < (4 : UShort).toNat by decide)
      obtain ⟨e1, found1⟩ := child_of_lt holds.1 (show 1 < (4 : UShort).toNat by decide)
      obtain ⟨e2, found2⟩ := child_of_lt holds.1 (show 2 < (4 : UShort).toNat by decide)
      obtain ⟨e3, found3⟩ := child_of_lt holds.1 (show 3 < (4 : UShort).toNat by decide)
      exact absurd found3 (absent e0 e1 e2 e3 found0 found1 found2)

/-- The parts of a tree that is authorised: the community and the protocol data unit. -/
structure Authorised (b : Asn) (snmp : Snmp) (block : Block) (arr : List Asn) (version : ULong)
    (community : List UChar) (pdu : Asn) : Prop where
  tree : b = .seq block Asn.sequence 3 arr
  first : ∃ block, arr[0]? = some (.integer block version)
  known : version = 0 ∨ version = 1
  second : ∃ block len, arr[1]? = some (.string block .string len community)
  third : arr[2]? = some pdu
  permitted : (snmpAuth snmp (community ++ [0]) (pdu.type? = some 0xa3)).1 = true

theorem pdu_holds {b pdu : Asn} {snmp : Snmp} {block : Block} {arr : List Asn} {version : ULong}
    {community : List UChar} (holds : b.Holds)
    (authorised : Authorised b snmp block arr version community pdu) : pdu.Holds := by
  have tree := authorised.tree
  subst tree
  exact Asn.allHold_iff.mp holds.2 pdu (List.mem_of_getElem? authorised.third)

theorem accept_authorised (holds : b.Holds) :
    (∃ block arr version community pdu, Authorised b agent.snmp block arr version community pdu ∧
      accept b agent = acceptPdu block arr version pdu
        { agent with snmp := (snmpAuth agent.snmp (community ++ [0]) (pdu.type? = some 0xa3)).2 }) ∨
    ∃ agent', accept b agent = (.error .refused, agent') ∧ Untouched agent agent' := by
  cases b with
  | nil | null | exception | integer | unsigned | string | oid =>
    exact .inr ⟨_, rfl, rfl, rfl, rfl⟩
  | seq block type count arr =>
    rw [accept]
    split_ifs with other
    · exact .inr ⟨_, rfl, rfl, rfl, rfl⟩
    rw [not_or, not_not, not_not] at other
    obtain ⟨rfl, rfl⟩ := other
    obtain ⟨e0, found0⟩ := child_of_lt holds.1 (show 0 < (3 : UShort).toNat by decide)
    obtain ⟨e1, found1⟩ := child_of_lt holds.1 (show 1 < (3 : UShort).toNat by decide)
    obtain ⟨pdu, found2⟩ := child_of_lt holds.1 (show 2 < (3 : UShort).toNat by decide)
    simp only [found0, found1, found2]
    cases e0 with
    | nil | null | exception | unsigned | string | oid | seq =>
      exact .inr ⟨_, rfl, rfl, rfl, rfl⟩
    | integer block' version =>
      cases e1 with
      | nil | null | exception | unsigned | integer | oid | seq =>
        exact .inr ⟨_, rfl, rfl, rfl, rfl⟩
      | string block'' type len community =>
        cases type with
        | opaqueString => exact .inr ⟨_, rfl, rfl, rfl, rfl⟩
        | string =>
          rcases Decidable.em (version ≠ 0 ∧ version ≠ 1) with unknown | known
          · simp only [if_pos unknown]
            exact .inr ⟨_, rfl, rfl, rfl, rfl⟩
          · simp only [if_neg known, bind, andThen, act]
            cases permission :
              (snmpAuth agent.snmp (community ++ [0]) (pdu.type? = some 0xa3)).1 with
            | false => exact .inr ⟨_, rfl, rfl, rfl, rfl⟩
            | true =>
              refine .inl ⟨block, arr, version, community, pdu,
                ⟨rfl, ⟨_, (child_some found0).2⟩, ?_, ⟨_, _, (child_some found1).2⟩,
                  (child_some found2).2, permission⟩, rfl⟩
              rwa [not_and_or, not_not, not_not] at known

end Snmp
end Uos
