import Mathlib.Data.List.Nodup
import Mathlib.Logic.Function.Basic

/-!
# Families of intrusive lists

An intrusive doubly linked list keeps its links inside the nodes, so a node is in at most one list
at a time and every insertion first disconnects it from the list it was in.  `LinkedLists H N` is a
family of such lists, one for each head in `H`, together with the head that each node is behind.
The two fields determine each other up to order: `place` decides membership, `nodes` the order.
-/

namespace Uos

/-- A list for every head, with every node in at most one list and at most once. -/
structure LinkedLists (H N : Type*) where
  /-- The nodes behind a head, from first to last. -/
  nodes : H → List N
  /-- The head whose list a node is in. -/
  place : N → Option H
  /-- A node is in exactly the list of its place. -/
  mem_nodes : ∀ {head node}, node ∈ nodes head ↔ place node = some head
  /-- No list contains a node twice. -/
  nodup : ∀ head, (nodes head).Nodup

namespace LinkedLists

/-- All lists empty and all nodes unlinked. -/
def empty {H N : Type*} : LinkedLists H N where
  nodes _ := []
  place _ := none
  mem_nodes := by simp
  nodup _ := List.nodup_nil

/-- Whether a node is in some list. -/
def linked {H N : Type*} (lists : LinkedLists H N) (node : N) : Bool :=
  (lists.place node).isSome

variable {H N : Type*} (lists : LinkedLists H N) {head : H} {node : N}

theorem mem_erase [DecidableEq N] {other : N} :
    other ∈ (lists.nodes head).erase node ↔ other ≠ node ∧ lists.place other = some head := by
  rw [(lists.nodup head).mem_erase_iff, lists.mem_nodes]

theorem erase_nodup [DecidableEq N] (head : H) (node : N) : ((lists.nodes head).erase node).Nodup :=
  (lists.nodup head).erase node

/-- Take a node out of the list it is in, if any. -/
def unlink {H N : Type*} [DecidableEq N] (lists : LinkedLists H N) (node : N) :
    LinkedLists H N where
  nodes head := (lists.nodes head).erase node
  place := Function.update lists.place node none
  mem_nodes {head other} := by
    rw [lists.mem_erase, Function.update_apply]
    by_cases same : other = node <;> simp [same]
  nodup head := lists.erase_nodup head node

/-- Move a node to the end of a list. -/
def append {H N : Type*} [DecidableEq H] [DecidableEq N] (lists : LinkedLists H N)
    (target : H) (node : N) : LinkedLists H N where
  nodes head :=
    if head = target then (lists.nodes head).erase node ++ [node]
    else (lists.nodes head).erase node
  place := Function.update lists.place node (some target)
  mem_nodes {head other} := by
    rw [Function.update_apply]
    by_cases same : other = node <;> by_cases here : head = target <;>
      simp [same, here, lists.mem_erase, @eq_comm _ target head]
  nodup head := by
    split
    · rw [List.nodup_append]
      refine ⟨lists.erase_nodup head node, by simp, ?_⟩
      intro other member last lastMember
      rw [List.mem_singleton.mp lastMember]
      exact (lists.mem_erase.mp member).1
    · exact lists.erase_nodup head node

/-- Move a node to the front of a list. -/
def prepend {H N : Type*} [DecidableEq H] [DecidableEq N] (lists : LinkedLists H N)
    (target : H) (node : N) : LinkedLists H N where
  nodes head :=
    if head = target then node :: (lists.nodes head).erase node
    else (lists.nodes head).erase node
  place := Function.update lists.place node (some target)
  mem_nodes {head other} := by
    rw [Function.update_apply]
    by_cases same : other = node <;> by_cases here : head = target <;>
      simp [same, here, lists.mem_erase, @eq_comm _ target head]
  nodup head := by
    split
    · exact List.nodup_cons.mpr
        ⟨fun member => (lists.mem_erase.mp member).1 rfl, lists.erase_nodup head node⟩
    · exact lists.erase_nodup head node

@[simp]
theorem place_empty (node : N) : (empty : LinkedLists H N).place node = none := rfl

@[simp]
theorem nodes_empty (head : H) : (empty : LinkedLists H N).nodes head = [] := rfl

theorem linked_eq_false {lists : LinkedLists H N} :
    lists.linked node = false ↔ lists.place node = none := by
  simp [linked]

theorem nodes_eq_nil {lists : LinkedLists H N} :
    lists.nodes head = [] ↔ ∀ node, lists.place node ≠ some head := by
  simp [List.eq_nil_iff_forall_not_mem, lists.mem_nodes]

@[simp]
theorem place_unlink [DecidableEq N] (node : N) :
    (lists.unlink node).place = Function.update lists.place node none := rfl

theorem nodes_unlink_of_ne [DecidableEq N] (absent : lists.place node ≠ some head) :
    (lists.unlink node).nodes head = lists.nodes head :=
  List.erase_of_not_mem fun member => absent (lists.mem_nodes.mp member)

section Operations

variable {H N : Type*} [DecidableEq H] [DecidableEq N] (lists : LinkedLists H N)

variable (target : H) (node : N) {head : H}

@[simp]
theorem place_append :
    (lists.append target node).place = Function.update lists.place node (some target) := rfl

@[simp]
theorem place_prepend :
    (lists.prepend target node).place = Function.update lists.place node (some target) := rfl

theorem nodes_append_self {target : H} {node : N} (absent : lists.place node ≠ some target) :
    (lists.append target node).nodes target = lists.nodes target ++ [node] := by
  have kept := List.erase_of_not_mem fun member => absent (lists.mem_nodes.mp member)
  simp [append, kept]

theorem nodes_append_of_ne {target : H} {node : N} (other : head ≠ target)
    (absent : lists.place node ≠ some head) :
    (lists.append target node).nodes head = lists.nodes head := by
  have kept := List.erase_of_not_mem fun member => absent (lists.mem_nodes.mp member)
  simp [append, other, kept]

/-- Move nodes, one after the other, to the end of a list. -/
def appendAll (target : H) (nodes : List N) : LinkedLists H N :=
  nodes.foldl (fun lists node => lists.append target node) lists

@[simp]
theorem appendAll_nil : lists.appendAll target [] = lists := rfl

@[simp]
theorem appendAll_cons (nodes : List N) :
    lists.appendAll target (node :: nodes) =
      (lists.append target node).appendAll target nodes := rfl

theorem place_appendAll (nodes : List N) (node : N) :
    (lists.appendAll target nodes).place node =
      if node ∈ nodes then some target else lists.place node := by
  induction nodes generalizing lists with
  | nil => simp
  | cons first nodes ih =>
    rw [appendAll_cons, ih, place_append, Function.update_apply]
    by_cases here : node = first <;> by_cases later : node ∈ nodes <;> simp [here, later]

theorem nodes_appendAll_of_ne {target : H} {nodes : List N} (other : head ≠ target)
    (absent : ∀ node ∈ nodes, lists.place node ≠ some head) :
    (lists.appendAll target nodes).nodes head = lists.nodes head := by
  induction nodes generalizing lists with
  | nil => rfl
  | cons first nodes ih =>
    have firstAbsent := absent first List.mem_cons_self
    rw [appendAll_cons, ih, lists.nodes_append_of_ne other firstAbsent]
    intro node member
    rw [place_append, Function.update_apply]
    split
    · simpa using other.symm
    · exact absent node (List.mem_cons_of_mem first member)

/-- Moving a whole list away empties it. -/
theorem nodes_appendAll_self {target : H} (other : head ≠ target) :
    (lists.appendAll target (lists.nodes head)).nodes head = [] := by
  rw [nodes_eq_nil]
  intro node
  rw [place_appendAll]
  split
  · simpa using other.symm
  · rename_i absent
    exact fun placed => absent (lists.mem_nodes.mpr placed)

end Operations

end LinkedLists
end Uos
