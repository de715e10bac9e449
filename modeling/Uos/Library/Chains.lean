import Mathlib.Data.List.Nodup
import Mathlib.Data.List.Perm.Subperm
import Mathlib.Logic.Function.Basic

/-!
# Chains of pointers

A singly linked list is a pointer to its first node and a `next` pointer in every node.  `Chain`
relates the pointers to the list of the nodes that a walk along them passes.
-/

namespace Uos

open List

variable {N : Type*}

/-- The nodes that are passed on the way from one pointer to another. -/
inductive Chain (next : N → Option N) : Option N → List N → Option N → Prop
  | nil (last : Option N) : Chain next last [] last
  | cons {node : N} {nodes : List N} {last : Option N} :
      Chain next (next node) nodes last → Chain next (some node) (node :: nodes) last

namespace Chain

variable {next next' : N → Option N} {first last : Option N} {nodes front back : List N} {node : N}

@[simp] theorem nil_iff : Chain next first [] last ↔ first = last := by
  constructor
  · rintro ⟨⟩
    rfl
  · rintro rfl
    exact .nil first

@[simp] theorem cons_iff :
    Chain next first (node :: nodes) last ↔
      first = some node ∧ Chain next (next node) nodes last := by
  constructor
  · rintro (_ | ⟨rest⟩)
    exact ⟨rfl, rest⟩
  · rintro ⟨rfl, rest⟩
    exact .cons rest

theorem append_iff :
    Chain next first (front ++ back) last ↔
      ∃ middle, Chain next first front middle ∧ Chain next middle back last := by
  induction front generalizing first with
  | nil => simp
  | cons node front ih => simp [ih, and_assoc]

/-- A walk to the end passes the same nodes every time. -/
theorem unique {nodes' : List N} (walk : Chain next first nodes none)
    (walk' : Chain next first nodes' none) : nodes = nodes' := by
  induction nodes generalizing first nodes' with
  | nil =>
    rw [nil_iff] at walk
    cases nodes' with
    | nil => rfl
    | cons node nodes' => simp [walk] at walk'
  | cons node nodes ih =>
    obtain ⟨rfl, rest⟩ := cons_iff.mp walk
    cases nodes' with
    | nil => simp at walk'
    | cons other nodes' =>
      obtain ⟨same, rest'⟩ := cons_iff.mp walk'
      cases same
      rw [ih rest rest']

/-- A walk that ends passes no node twice. -/
theorem nodup (walk : Chain next first nodes none) : nodes.Nodup := by
  induction nodes generalizing first with
  | nil => exact nodup_nil
  | cons node nodes ih =>
    obtain ⟨rfl, rest⟩ := cons_iff.mp walk
    refine nodup_cons.mpr ⟨fun again => ?_, ih rest⟩
    obtain ⟨front, back, rfl⟩ := append_of_mem again
    obtain ⟨middle, -, later⟩ := append_iff.mp rest
    obtain ⟨rfl, -⟩ := cons_iff.mp later
    -- The walk from the second place is a part of the walk from the first one.
    have short := congrArg List.length (walk.unique later)
    simp only [length_cons, length_append] at short
    omega

/-- The first node is passed. -/
theorem first_mem (walk : Chain next (some node) nodes none) : node ∈ nodes := by
  cases nodes with
  | nil => simp at walk
  | cons passed nodes =>
    cases (cons_iff.mp walk).1
    exact mem_cons_self

/-- A walk depends on the pointers of the nodes that it passes. -/
theorem congr (walk : Chain next first nodes last)
    (same : ∀ node ∈ nodes, next' node = next node) : Chain next' first nodes last := by
  induction nodes generalizing first with
  | nil => exact nil_iff.mpr (nil_iff.mp walk)
  | cons node nodes ih =>
    obtain ⟨rfl, rest⟩ := cons_iff.mp walk
    apply Chain.cons
    rw [same node mem_cons_self]
    exact ih rest fun node member => same node (mem_cons_of_mem _ member)

/-- The node that the pointer of a passed node leads to is passed next. -/
theorem follows {before : N} (walk : Chain next first nodes none) (member : before ∈ nodes)
    (link : next before = some node) :
    ∃ front back, nodes = front ++ before :: node :: back := by
  obtain ⟨front, rest, rfl⟩ := append_of_mem member
  obtain ⟨middle, -, later⟩ := append_iff.mp walk
  have tail := (cons_iff.mp later).2
  rw [link] at tail
  cases rest with
  | nil => simp at tail
  | cons passed back =>
    obtain ⟨same, -⟩ := cons_iff.mp tail
    cases same
    exact ⟨front, back, rfl⟩

/-- A passed node is the first one, or the pointer of a passed node leads to it. -/
theorem precedes (walk : Chain next first nodes last) (member : node ∈ nodes) :
    first = some node ∨ ∃ before ∈ nodes, next before = some node := by
  induction nodes generalizing first with
  | nil => contradiction
  | cons passed nodes ih =>
    obtain ⟨rfl, rest⟩ := cons_iff.mp walk
    rcases mem_cons.mp member with rfl | later
    · exact .inl rfl
    · right
      rcases ih rest later with same | ⟨before, found, link⟩
      · exact ⟨passed, mem_cons_self, same⟩
      · exact ⟨before, mem_cons_of_mem _ found, link⟩

/-- A walk that comes back to its first node does not end. -/
theorem endless {cycle : List N} (around : Chain next first (node :: cycle) first)
    (walk : Chain next first nodes none) : False := by
  have longer := congrArg List.length (walk.unique (append_iff.mpr ⟨first, around, walk⟩))
  simp only [length_append, length_cons] at longer
  omega

/-- The pointer of a node that is passed on the way to another one leads to a node on this way. -/
theorem leads {target : N} (walk : Chain next first nodes (some target)) (member : node ∈ nodes) :
    ∃ following ∈ nodes ++ [target], next node = some following := by
  obtain ⟨front, back, rfl⟩ := append_of_mem member
  obtain ⟨middle, start, later⟩ := append_iff.mp walk
  have tail := (cons_iff.mp later).2
  cases back with
  | nil => exact ⟨target, by simp, nil_iff.mp tail⟩
  | cons passed back => exact ⟨passed, by simp, (cons_iff.mp tail).1⟩

/-- A walk along nodes below a bound passes at most as many nodes. -/
theorem length_le {next : Nat → Option Nat} {first : Option Nat} {nodes : List Nat} {size : Nat}
    (walk : Chain next first nodes none) (inside : ∀ node ∈ nodes, node < size) :
    nodes.length ≤ size := by
  have within : nodes ⊆ List.range size :=
    fun node member => mem_range.mpr (inside node member)
  simpa using (walk.nodup.subperm within).length_le

variable [DecidableEq N]

/-- A pointer of a node that is not passed may change. -/
theorem update {value : Option N} (walk : Chain next first nodes last) (other : node ∉ nodes) :
    Chain (Function.update next node value) first nodes last := by
  apply walk.congr
  intro passed member
  apply Function.update_of_ne
  rintro rfl
  exact other member

/-- Put a node in front. -/
theorem push (walk : Chain next first nodes last) (other : node ∉ nodes) :
    Chain (Function.update next node first) (some node) (node :: nodes) last := by
  apply Chain.cons
  rw [Function.update_self]
  exact walk.update other

/-- Change the pointer of the last node of a part. -/
theorem redirect {middle : Option N} (walk : Chain next first (front ++ [node]) middle)
    (once : node ∉ front) :
    Chain (Function.update next node last) first (front ++ [node]) last := by
  obtain ⟨point, walk, step⟩ := append_iff.mp walk
  obtain ⟨rfl, -⟩ := cons_iff.mp step
  refine append_iff.mpr ⟨_, walk.update once, ?_⟩
  simp

/-- A walk ends after a pointer was set to a place from which a walk ends without passing it. -/
theorem reroute {value : Option N} {rest : List N} (walk : Chain next first nodes none)
    (tail : Chain next value rest none) (apart : node ∉ rest) :
    ∃ passed, Chain (Function.update next node value) first passed none ∧
      passed ⊆ nodes ++ rest := by
  rcases Classical.em (node ∈ nodes) with member | other
  · obtain ⟨front, back, rfl, once⟩ := eq_append_cons_of_mem member
    rw [append_cons] at walk
    obtain ⟨middle, start, -⟩ := append_iff.mp walk
    refine ⟨front ++ [node] ++ rest, append_iff.mpr ⟨value, start.redirect once,
      tail.update apart⟩, ?_⟩
    apply append_subset.mpr
    constructor
    · rw [append_cons front node back, append_assoc]
      exact subset_append_left _ _
    · exact subset_append_right _ rest
  · exact ⟨nodes, walk.update other, subset_append_left nodes rest⟩

/-- Take a node out behind another one. -/
theorem unlink {before : N}
    (walk : Chain next first (front ++ before :: node :: back) none) :
    Chain (Function.update next before (next node)) first (front ++ before :: back) none := by
  have distinct := walk.nodup
  rw [append_cons] at walk distinct
  obtain ⟨middle, start, rest⟩ := append_iff.mp walk
  have tail := (cons_iff.mp rest).2
  obtain rfl := (cons_iff.mp rest).1
  rw [nodup_append] at distinct
  rw [append_cons]
  refine append_iff.mpr ⟨next node, start.redirect ?_, tail.update fun member => ?_⟩
  · intro member
    have twice := (nodup_append.mp distinct.1).2.2
    exact twice before member before (mem_singleton_self _) rfl
  · exact distinct.2.2 before (mem_append_right _ (mem_singleton_self _)) before
      (mem_cons_of_mem _ member) rfl

/-- Take the node out that the pointer of a passed node leads to. -/
theorem takeOut {before : N} (walk : Chain next first nodes none) (member : before ∈ nodes)
    (link : next before = some node) :
    Chain (Function.update next before (next node)) first (nodes.erase node) none := by
  obtain ⟨front, back, rfl⟩ := walk.follows member link
  have distinct := walk.nodup
  have short : (front ++ before :: node :: back).erase node = front ++ before :: back := by
    rw [append_cons] at distinct ⊢
    have absent : node ∉ front ++ [before] := by
      intro early
      have twice := (nodup_append.mp distinct).2.2
      exact twice node early node mem_cons_self rfl
    rw [erase_append_right _ absent, erase_cons_head, append_assoc]
    rfl
  rw [short]
  exact walk.unlink

/-- Take the first node out. -/
theorem takeFirst (walk : Chain next (some node) nodes none) :
    Chain next (next node) (nodes.erase node) none := by
  cases nodes with
  | nil => simp at walk
  | cons passed nodes =>
    obtain ⟨same, rest⟩ := cons_iff.mp walk
    cases same
    rwa [erase_cons_head]

end Chain
end Uos
