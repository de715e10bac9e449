import Uos.Snmp.Tables

/-!
# Walks over tables

What it means that a column shows the same rows to GET as to GETNEXT.
-/

namespace Uos
namespace Snmp

open Enumeration

/-- A column returns a value for an index. -/
def Gets (column : Column) (args : List ULong) (world : World IpTables) (content : Content) :
    Prop :=
  ∃ block, (column.get args world).1 = content.node block

/-- The calls of the `next` function of a column, each with the index that the one before returned,
until it returns no value: the indices and the values. -/
inductive Walk (column : Column) :
    Bool → List ULong → World IpTables → List (List ULong × Content) → Prop
  | ends {nextflag : Bool} {args : List ULong} {world : World IpTables}
      (nothing : (column.next nextflag args world).1 = .nil) : Walk column nextflag args world []
  | visits {nextflag : Bool} {args args' : List ULong} {world world' : World IpTables}
      {content : Content} {block : Block} {visited : List (List ULong × Content)}
      (found : column.next nextflag args world = (content.node block, args', world'))
      (rest : Walk column true args' world' visited) :
      Walk column nextflag args world ((args', content) :: visited)

/-- A walk over a column visits each index of the table once, in increasing order, and these are the
indices for which the column returns a value, and the values. -/
def Consistent (column : Column) (arity : Nat) (indices : List (List ULong))
    (world : World IpTables) : Prop :=
  ∀ start, ∃ visited, Walk column false start world visited ∧
    (visited.map Prod.fst).Pairwise (· < ·) ∧ (visited.map Prod.fst).Perm indices ∧
    ∀ args, args.length = arity → ∀ content,
      Gets column args world content ↔ (args, content) ∈ visited

theorem node_injective {content content' : Content} {block block' : Block}
    (same : content.node block = content'.node block') : content = content' := by
  cases content <;> cases content' <;> simp_all [Content.node]

theorem node_ne_nil (content : Content) (block : Block) : content.node block ≠ .nil := by
  cases content <;> exact Asn.noConfusion

theorem Walk.unique {column : Column} {nextflag : Bool} {args : List ULong}
    {world : World IpTables} {visited visited' : List (List ULong × Content)}
    (walk : Walk column nextflag args world visited)
    (walk' : Walk column nextflag args world visited') : visited = visited' := by
  induction walk generalizing visited' with
  | ends nothing =>
    cases walk' with
    | ends => rfl
    | visits found =>
      rw [found] at nothing
      exact absurd nothing (node_ne_nil _ _)
  | visits found rest ih =>
    cases walk' with
    | ends nothing =>
      rw [found] at nothing
      exact absurd nothing (node_ne_nil _ _)
    | visits found' rest' =>
      have both := found.symm.trans found'
      obtain ⟨value, index, world⟩ := Prod.mk.inj both |>.imp_right Prod.mk.inj
      obtain rfl := node_injective value
      subst index world
      rw [ih rest']

section Column

variable {Row : Type} {find : IpTables → List ULong → Option Row} {rows : IpTables → List Row}
  {key : IpTables → Row → Option (List ULong)} {nothing : IpTables → List ULong → List ULong}
  {content : IpTables → Row → List ULong → Content} {world : World IpTables}

/-- There is memory for everything. -/
def Granted (world : World IpTables) : Prop :=
  ∀ n, world.pool.grants n = true

theorem answer_granted (granted : Granted world) (value : Content) :
    ∃ world', answer world (some value) = (value.node world.pool.requests, world') ∧
      world'.device = world.device ∧ Granted world' := by
  have alloc := granted world.pool.requests
  simp only [answer, Content.make, MemPool.alloc, alloc, if_true]
  exact ⟨_, rfl, rfl, granted⟩

theorem gets_iff (granted : Granted world) {args : List ULong} {value : Content}
    {next : Bool → List ULong → World IpTables → Asn × List ULong × World IpTables} :
    Gets ⟨getBy find content, next⟩ args world value ↔
      ∃ u, find world.device args = some u ∧ value = content world.device u args := by
  rw [Gets]
  dsimp only [getBy]
  cases find world.device args with
  | none =>
    refine iff_of_false ?_ (by simp)
    rintro ⟨block, nil⟩
    exact node_ne_nil _ _ nil.symm
  | some u =>
    obtain ⟨world', result, -, -⟩ := answer_granted granted (content world.device u args)
    rw [Option.map_some, result]
    constructor
    · rintro ⟨block, same⟩
      exact ⟨u, rfl, (node_injective same).symm⟩
    · rintro ⟨_, found, rfl⟩
      cases found
      exact ⟨_, rfl⟩

theorem walk_of_visits {get : List ULong → World IpTables → Asn × World IpTables}
    {low : Option (List ULong)} {visited : List (Row × List ULong)}
    (visits : Visits (key world.device) (rows world.device) low visited) {nextflag : Bool}
    {args : List ULong} (granted : Granted world)
    (from_low : (if nextflag then some args else none) = low) :
    Walk ⟨get, nextBy rows key nothing content⟩ nextflag args world
      (visited.map fun visit => (visit.2, content world.device visit.1 visit.2)) := by
  generalize device : world.device = ip at visits ⊢
  induction visits generalizing world nextflag args with
  | ends absent =>
    apply Walk.ends
    subst from_low device
    simp only [nextBy, absent]
  | @visits low row k rest found walk ih =>
    subst from_low device
    obtain ⟨world', result, same, granted'⟩ :=
      answer_granted granted (content world.device row k)
    have step : nextBy rows key nothing content nextflag args world =
        ((content world.device row k).node world.pool.requests, k, world') := by
      simp only [nextBy, found, result]
    exact .visits step (ih granted' rfl same)

/-- The columns of a table without two rows of one index are consistent if and only if the search
of GET finds each index in the row that has it, or in one that shows the same. -/
theorem consistent_iff (granted : Granted world) {arity : Nat}
    (distinct : ((rows world.device).filterMap (key world.device)).Nodup) :
    Consistent ⟨getBy find content, nextBy rows key nothing content⟩ arity
        ((rows world.device).filterMap (key world.device)) world ↔
      ∀ args, args.length = arity → ∀ value,
        (∃ u, find world.device args = some u ∧ value = content world.device u args) ↔
          ∃ u ∈ rows world.device, args ∈ key world.device u ∧
            value = content world.device u args := by
  obtain ⟨visits, enumeration⟩ :
    ∃ visits, Visits (key world.device) (rows world.device) none visits :=
    exists_visits none
  have indices : (visits.map fun visit => (visit.2, content world.device visit.1 visit.2)).map
      Prod.fst = visits.map Prod.snd := by
    rw [List.map_map]
    rfl
  have member_iff : ∀ args value,
      (args, value) ∈ visits.map (fun visit => (visit.2, content world.device visit.1 visit.2)) ↔
        ∃ u ∈ rows world.device, args ∈ key world.device u ∧
          value = content world.device u args := by
    intro args value
    rw [List.mem_map]
    constructor
    · rintro ⟨⟨u, k⟩, visit, same⟩
      cases same
      obtain ⟨member, own⟩ := (enumeration.mem_iff distinct).mp visit
      exact ⟨u, member, own, rfl⟩
    · rintro ⟨u, member, own, rfl⟩
      exact ⟨(u, args), (enumeration.mem_iff distinct).mpr ⟨member, own⟩, rfl⟩
  constructor
  · intro consistent args fits value
    obtain ⟨visited, walk, -, -, agree⟩ := consistent []
    obtain rfl := walk.unique (walk_of_visits enumeration granted rfl)
    rw [← gets_iff granted, agree args fits value, member_iff]
  · intro agree start
    refine ⟨_, walk_of_visits enumeration granted rfl, ?_, ?_, fun args fits value => ?_⟩
    · rw [indices]
      exact enumeration.increasing
    · rw [indices]
      exact enumeration.perm distinct
    · rw [gets_iff granted, agree args fits value, member_iff]

end Column

end Snmp
end Uos
