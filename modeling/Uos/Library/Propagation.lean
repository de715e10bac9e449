import Mathlib.Logic.Function.Basic
import Mathlib.Logic.Relation
import Uos.Library.Maximum

/-!
# Networks of maxima

Every node of a network has a base value and some sources, which are other nodes.  A node is exact
when its value is the maximum of its base value and the values of its sources.  The rules below say
how exactness is kept or restored when values and sources change, one at a time, as they do in an
algorithm that propagates a change from node to node and stops early.
-/

namespace Uos

open Function

/-- A network of nodes, none of which is its own source. -/
structure Network (Node Value : Type*) where
  /-- A lower bound of the value of a node. -/
  base : Node → Value
  /-- The nodes whose values a node takes over. -/
  sources : Node → List Node
  /-- No node is its own source. -/
  irreflexive : ∀ node, node ∉ sources node

namespace Network

variable {Node Value : Type*} [LinearOrder Value]

/-- The value a node should have. -/
def level (network : Network Node Value) (value : Node → Value) (node : Node) : Value :=
  ((network.sources node).map value).foldl max (network.base node)

/-- A node has the value it should have. -/
def Exact (network : Network Node Value) (value : Node → Value) (node : Node) : Prop :=
  value node = network.level value node

section Rules

variable {network network' : Network Node Value} {value value' : Node → Value} {node : Node}

theorem exact_iff : network.Exact value node ↔
    network.base node ≤ value node ∧
      (∀ source ∈ network.sources node, value source ≤ value node) ∧
      (value node = network.base node ∨
        ∃ source ∈ network.sources node, value source = value node) := by
  rw [Exact, eq_comm, level, foldl_max_eq_iff]
  simp

theorem Exact.base_le (exact : network.Exact value node) : network.base node ≤ value node :=
  (exact_iff.mp exact).1

theorem Exact.source_le (exact : network.Exact value node) {source : Node}
    (member : source ∈ network.sources node) : value source ≤ value node :=
  (exact_iff.mp exact).2.1 source member

/-- Nothing that the value of a node depends on changes. -/
theorem Exact.congr (exact : network.Exact value node) (base : network'.base node =
    network.base node) (sources : network'.sources node = network.sources node)
    (same : value' node = value node)
    (values : ∀ source ∈ network.sources node, value' source = value source) :
    network'.Exact value' node := by
  rw [Exact, level, same, base, sources, List.map_congr_left values]
  exact exact

/-- A source disappears or changes that did not decide the value of the node. -/
theorem Exact.change {gone : Node} (exact : network.Exact value node)
    (base : network'.base node = network.base node) (same : value' node = value node)
    (kept : ∀ source ∈ network.sources node, source ≠ gone →
      source ∈ network'.sources node ∧ value' source = value source)
    (bounded : ∀ source ∈ network'.sources node, value' source ≤ value node)
    (spare : value gone < value node ∨ value gone ≤ network.base node) :
    network'.Exact value' node := by
  obtain ⟨low, -, reached⟩ := exact_iff.mp exact
  refine exact_iff.mpr ⟨?_, ?_, ?_⟩
  · rw [base, same]
    exact low
  · rw [same]
    exact bounded
  · rw [base, same]
    rcases reached with atBase | ⟨source, member, top⟩
    · exact .inl atBase
    · obtain rfl | other := eq_or_ne source gone
      · rcases spare with below | covered
        · exact absurd top below.ne
        · exact .inl (le_antisymm (top ▸ covered) low)
      · obtain ⟨member', unchanged⟩ := kept source member other
        exact .inr ⟨source, member', unchanged.trans top⟩

/-- The node gets sources with values that are not higher. -/
theorem Exact.grow (exact : network.Exact value node)
    (base : network'.base node = network.base node) (same : value' node = value node)
    (kept : ∀ source ∈ network.sources node,
      source ∈ network'.sources node ∧ value' source = value source)
    (bounded : ∀ source ∈ network'.sources node, value' source ≤ value node) :
    network'.Exact value' node := by
  obtain ⟨low, -, reached⟩ := exact_iff.mp exact
  refine exact_iff.mpr ⟨?_, ?_, ?_⟩
  · rw [base, same]
    exact low
  · rw [same]
    exact bounded
  · rw [base, same]
    refine reached.imp_right fun ⟨source, member, top⟩ => ?_
    obtain ⟨member', unchanged⟩ := kept source member
    exact ⟨source, member', unchanged.trans top⟩

/-- The node takes over the value of a source that is higher than before. -/
theorem Exact.rise {source : Node} (exact : network.Exact value node)
    (base : network'.base node = network.base node) (higher : value node < value' node)
    (member : source ∈ network'.sources node) (top : value' source = value' node)
    (kept : ∀ other ∈ network'.sources node, other ≠ source →
      other ∈ network.sources node ∧ value' other = value other) :
    network'.Exact value' node := by
  obtain ⟨low, bounded, -⟩ := exact_iff.mp exact
  refine exact_iff.mpr ⟨?_, fun other member' => ?_, .inr ⟨source, member, top⟩⟩
  · rw [base]
    exact low.trans higher.le
  · obtain rfl | different := eq_or_ne other source
    · exact top.le
    · obtain ⟨member'', unchanged⟩ := kept other member' different
      rw [unchanged]
      exact (bounded other member'').trans higher.le

end Rules

section Update

variable [DecidableEq Node] {network : Network Node Value} {value : Node → Value}
  {node source : Node} {new : Value}

theorem level_update (absent : source ∉ network.sources node) :
    network.level (Function.update value source new) node = network.level value node := by
  have same : ∀ other ∈ network.sources node, Function.update value source new other =
      value other := fun other member =>
      update_of_ne (ne_of_mem_of_not_mem member absent) ..
  rw [level, List.map_congr_left same]
  rfl

/-- Setting a node to the value it should have. -/
theorem exact_settle :
    network.Exact (Function.update value node (network.level value node)) node := by
  rw [Exact, level_update (network.irreflexive node), update_self]

/-- The value of a node changes that is not a source of another one. -/
theorem Exact.update (exact : network.Exact value node) (other : node ≠ source)
    (absent : source ∉ network.sources node) :
    network.Exact (Function.update value source new) node := by
  rw [Exact, level_update absent, update_of_ne other]
  exact exact

/-- A source rises, but not above the node. -/
theorem Exact.raised (exact : network.Exact value node) (other : node ≠ source)
    (up : value source < new) (low : new ≤ value node) :
    network.Exact (Function.update value source new) node := by
  refine exact.change rfl (update_of_ne other ..) (fun third member different =>
    ⟨member, update_of_ne different ..⟩) (fun third member => ?_)
    (.inl (up.trans_le low))
  obtain rfl | different := eq_or_ne third source
  · rwa [update_self]
  · rw [update_of_ne different]
    exact exact.source_le member

/-- A source falls that did not decide the value of the node. -/
theorem Exact.lowered (exact : network.Exact value node) (other : node ≠ source)
    (down : new < value source) (below : value source ≤ value node)
    (spare : value source < value node ∨ value source ≤ network.base node) :
    network.Exact (Function.update value source new) node := by
  refine exact.change rfl (update_of_ne other ..) (fun third member different =>
    ⟨member, update_of_ne different ..⟩) (fun third member => ?_) spare
  obtain rfl | different := eq_or_ne third source
  · rw [update_self]
    exact down.le.trans below
  · rw [update_of_ne different]
    exact exact.source_le member

end Update

end Network
end Uos
