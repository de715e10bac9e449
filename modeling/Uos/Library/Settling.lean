import Mathlib.Algebra.Order.BigOperators.Group.Finset
import Uos.Library.Propagation

/-!
# Settling a network

A change is propagated by settling one node after the other: a node gets the value it should have,
and then the node that takes over its value is settled, unless the change cannot matter there.  This
ends on every finite network, cycles included, and leaves all nodes exact.
-/

namespace Uos

open Function

namespace Network

section Levels

variable {Node Value : Type*} [LinearOrder Value] {network : Network Node Value}
  {value : Node → Value} {node source : Node}

theorem level_le_iff {bound : Value} : network.level value node ≤ bound ↔
    network.base node ≤ bound ∧ ∀ source ∈ network.sources node, value source ≤ bound := by
  rw [level, foldl_max_le_iff]
  simp

theorem base_le_level : network.base node ≤ network.level value node :=
  (level_le_iff.mp le_rfl).left

theorem source_le_level (member : source ∈ network.sources node) :
    value source ≤ network.level value node :=
  (level_le_iff.mp le_rfl).right source member

end Levels

section Rules

variable {Node Value : Type*} [LinearOrder Value] [DecidableEq Node]
  {network : Network Node Value} {value : Node → Value} {node source : Node} {new : Value}

/-- Where a node should be when a source rises above it. -/
theorem level_raised (exact : network.Exact value node) (above : value node < new) :
    network.level (Function.update value source new) node = value node ∨
      network.level (Function.update value source new) node = new := by
  rcases em (source ∈ network.sources node) with member | absent
  · refine .inr
      (le_antisymm (level_le_iff.mpr ⟨exact.base_le.trans above.le, fun other here => ?_⟩) ?_)
    · obtain rfl | different := eq_or_ne other source
      · rw [update_self]
      · rw [update_of_ne different]
        exact (exact.source_le here).trans above.le
    · have reached := @source_le_level _ _ _ network (Function.update value source new) node
        source member
      rwa [update_self] at reached
  · rw [level_update absent]
    exact .inl exact.symm

/-- Where a node should be when a source falls. -/
theorem level_lowered (exact : network.Exact value node) (down : new ≤ value source) :
    network.level (Function.update value source new) node ≤ value node := by
  refine level_le_iff.mpr ⟨exact.base_le, fun other here => ?_⟩
  obtain rfl | different := eq_or_ne other source
  · rw [update_self]
    exact down.trans (exact.source_le here)
  · rw [update_of_ne different]
    exact exact.source_le here

end Rules

/-- A network in which each node is the source of one other node at most. -/
structure Forwarding (Node Value : Type*) extends Network Node Value where
  /-- The node that a change of a node is propagated to. -/
  next : Node → Option Node
  follows : ∀ node, ∀ source ∈ sources node, next source = some node
  next_ne : ∀ node, next node ≠ some node

namespace Forwarding

variable {Node Value : Type*} [LinearOrder Value] [DecidableEq Node]
  {network : Forwarding Node Value} {value : Node → Value} {node target : Node}

/-- The values when a node got the value it should have. -/
def settle (network : Forwarding Node Value) (value : Node → Value) (node : Node) : Node → Value :=
  Function.update value node (network.level value node)

/-- The change of a node does not matter for the next node. -/
def Stops (network : Forwarding Node Value) (value : Node → Value) (node : Node) : Prop :=
  ∀ target, network.next node = some target →
    network.level value node = value node ∨
      value node < network.level value node ∧ network.level value node ≤ value target ∨
      network.level value node < value node ∧
        (value node < value target ∨ value node ≤ network.base target)

/-- The change of a node is propagated to the next node. -/
def Goes (network : Forwarding Node Value) (value : Node → Value) (node target : Node) : Prop :=
  network.next node = some target ∧
    (value node < network.level value node ∧ value target < network.level value node ∨
      network.level value node < value node ∧ value target ≤ value node)

/-- All nodes but one are exact. -/
def ExactBut (network : Forwarding Node Value) (value : Node → Value) (node : Node) : Prop :=
  ∀ other, other ≠ node → network.Exact value other

/-- The next node may be the only one that is not exact when a node was settled. -/
theorem ExactBut.settle (exact : network.ExactBut value node) {other : Node}
    (apart : network.next node ≠ some other) : network.Exact (network.settle value node) other := by
  obtain rfl | different := eq_or_ne other node
  · exact exact_settle
  · exact (exact other different).update different fun member =>
      apart (network.follows other node member)

/-- All nodes are exact when the change does not matter for the next node. -/
theorem ExactBut.stop (exact : network.ExactBut value node) (stops : network.Stops value node)
    (other : Node) : network.Exact (network.settle value node) other := by
  rcases em (network.next node = some other) with follows | apart
  · have different : other ≠ node := fun same => network.next_ne node (same ▸ follows)
    have before := exact other different
    rcases em (node ∈ network.sources other) with member | absent
    · rcases stops other follows with same | ⟨up, low⟩ | ⟨down, spare⟩
      · rw [Forwarding.settle, same, update_eq_self]
        exact before
      · exact before.raised different up low
      · exact before.lowered different down (before.source_le member) spare
    · exact before.update different absent
  · exact exact.settle apart

/-- All nodes but the next one are exact when the change is propagated. -/
theorem ExactBut.go (exact : network.ExactBut value node) (goes : network.Goes value node target) :
    network.ExactBut (network.settle value node) target :=
  fun _ different => exact.settle fun follows =>
    different (Option.some.inj (follows.symm.trans goes.left))

/-- A change is propagated from one node to the next one. -/
def Step (network : Forwarding Node Value) (after before : (Node → Value) × Node) : Prop :=
  network.Goes before.1 before.2 after.2 ∧ after.1 = network.settle before.1 before.2

variable {nodes : Finset Node} {limit : Value}

/-- A value that rises does so in ever fewer nodes. -/
theorem acc_of_rise (closed : ∀ node target, network.next node = some target → target ∈ nodes)
    (member : node ∈ nodes) (exact : network.ExactBut value node) (below : value node < limit)
    (level : network.level value node = value node ∨ network.level value node = limit) :
    Acc network.Step (value, node) := by
  generalize count : (nodes.filter (value · < limit)).card = lower
  induction lower using Nat.strong_induction_on generalizing value node with
  | _ lower ih =>
    refine .intro _ ?_
    rintro ⟨after, target⟩ ⟨goes, rfl : after = network.settle value node⟩
    have inside := closed node target goes.left
    have different : target ≠ node := fun same => network.next_ne node (same ▸ goes.left)
    have kept : network.settle value node target = value target :=
      update_of_ne different ..
    have rises : network.level value node = limit := by
      refine level.resolve_left fun same => ?_
      rcases goes.right with ⟨up, -⟩ | ⟨down, -⟩
      · exact up.ne' same
      · exact down.ne same
    have low : value target < limit := by
      rcases goes.right with ⟨-, low⟩ | ⟨down, -⟩
      · exact rises ▸ low
      · exact absurd (rises ▸ down) below.not_gt
    have fewer : (nodes.filter (network.settle value node · < limit)).card < lower := by
      rw [← count]
      refine Finset.card_lt_card (Finset.ssubset_iff_of_subset ?_ |>.mpr ⟨node, ?_, ?_⟩)
      · intro other found
        obtain ⟨here, less⟩ := Finset.mem_filter.mp found
        refine Finset.mem_filter.mpr ⟨here, ?_⟩
        obtain rfl | apart := eq_or_ne other node
        · exact below
        · rwa [settle, update_of_ne apart] at less
      · exact Finset.mem_filter.mpr ⟨member, below⟩
      · rw [Finset.mem_filter, settle, update_self, rises]
        exact fun found => lt_irrefl _ found.right
    refine ih _ fewer inside (exact.go goes) (kept ▸ low) ?_ rfl
    rw [kept]
    have moved := @level_raised _ _ _ _ _ _ _ node _ (exact target different) low
    rwa [← rises] at moved ⊢

/-- A value that falls is bounded from below by the base value of its node. -/
theorem acc_of_fall {network : Forwarding Node Int} {value : Node → Int}
    (closed : ∀ node target, network.next node = some target → target ∈ nodes)
    (member : node ∈ nodes) (exact : network.ExactBut value node)
    (level : network.level value node ≤ value node) : Acc network.Step (value, node) := by
  generalize total : ∑ other ∈ nodes, (value other - network.base other).toNat = above
  induction above using Nat.strong_induction_on generalizing value node with
  | _ above ih =>
    refine .intro _ ?_
    rintro ⟨after, target⟩ ⟨goes, rfl : after = network.settle value node⟩
    have inside := closed node target goes.left
    have different : target ≠ node := fun same => network.next_ne node (same ▸ goes.left)
    have kept : network.settle value node target = value target :=
      update_of_ne different ..
    have falls : network.level value node < value node := by
      rcases goes.right with ⟨up, -⟩ | ⟨down, -⟩
      · exact absurd up level.not_gt
      · exact down
    have lower : ∑ other ∈ nodes, (network.settle value node other - network.base other).toNat <
        above := by
      rw [← total]
      refine Finset.sum_lt_sum (fun other _ => ?_) ⟨node, member, ?_⟩
      · obtain rfl | apart := eq_or_ne other node
        · rw [settle, update_self]
          omega
        · rw [settle, update_of_ne apart]
      · have base := @base_le_level _ _ _ network.toNetwork value node
        rw [settle, update_self]
        omega
    refine ih _ lower inside (exact.go goes) ?_ rfl
    rw [kept]
    exact level_lowered (exact target different) falls.le

/-- A change is propagated a finite number of times, on every finite network. -/
theorem acc {network : Forwarding Node Int} {value : Node → Int}
    (closed : ∀ node target, network.next node = some target → target ∈ nodes)
    (exact : network.ExactBut value node) : Acc network.Step (value, node) := by
  refine .intro _ ?_
  rintro ⟨after, target⟩ ⟨goes, rfl : after = network.settle value node⟩
  have inside := closed node target goes.left
  have different : target ≠ node := fun same => network.next_ne node (same ▸ goes.left)
  have kept : network.settle value node target = value target := update_of_ne different ..
  rcases goes.right with ⟨-, low⟩ | ⟨down, -⟩
  · have moved := @level_raised _ _ _ _ _ _ _ node _ (exact target different) low
    exact acc_of_rise closed inside (exact.go goes) (kept ▸ low) (kept ▸ moved)
  · refine acc_of_fall closed inside (exact.go goes) ?_
    rw [kept]
    exact level_lowered (exact target different) down.le

end Forwarding
end Network
end Uos
